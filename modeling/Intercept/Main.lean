import Intercept.Broker.ConsumerTag
import Intercept.CommandLine.Execute

/-!
The command line of the simulator.
-/

namespace Intercept

/-- Reads a file whole. -/
def readFile (path : String) : IO (Except FileError Body) := do
  try
    return .ok (← IO.FS.readBinFile path).toList
  catch
    | .noFileOrDirectory .. => return .error .missing
    | e => return .error (.other (toString e))

/-- The tag for a consumer on this host. -/
def newConsumerTag : IO String := do
  let host := hostName (← IO.getEnv "HOSTNAME") (← IO.getEnv "COMPUTERNAME")
  return consumerTag host (← IO.getRandomBytes 16).toList

end Intercept

open Intercept in
def main (args : List String) : IO UInt32 := do
  let request := CommandLine.Request.ofArgs args
  let paths := match request with
    | .perform command => command.paths
    | _ => []
  let files ← paths.mapM fun path => return (path, ← readFile path)
  let output := request.execute
    { file := fun path => (files.lookup path).getD (.error .missing)
      consumerTag := ← newConsumerTag }
  IO.print output.stdout
  IO.eprint output.stderr
  return output.exitCode
