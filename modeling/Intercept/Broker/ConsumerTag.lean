import Intercept.Text.Hex
import Intercept.Text.Utf8

/-!
The tags under which consumers subscribe: they name the host and are unique to each consumer.
-/

namespace Intercept

/-- The name of the host: the first of two environment variables that is set, also an empty one. -/
def hostName (hostname computername : Option String) : String :=
  (hostname <|> computername).getD "localhost"

/-- A random UUID of the given octets, of which there are sixteen: six bits of it are fixed, which
mark its version and its variant. -/
def randomUuid (octets : Body) : Body :=
  octets.zipIdx.map fun (b, i) =>
    if i = 6 then b &&& 0x0F ||| 0x40
    else if i = 8 then b &&& 0x3F ||| 0x80
    else b

/-- The tag of a consumer on a host, made unique by random octets. -/
def consumerTag (host : String) (octets : Body) : String :=
  "message_picker_" ++ host ++ "_" ++
    String.ofList ((randomUuid octets).flatMap Text.hexOctet)

end Intercept
