/-!
Failures of the transport.
-/

namespace Intercept

/-- What a call to the broker can fail with. -/
inductive BrokerError where
  | connection (reason : String)
  /-- The call broke the rules of the channel. -/
  | protocol (reason : String)
  /-- The channel was released before the call. -/
  | closed
  deriving DecidableEq, Repr

def BrokerError.message : BrokerError → String
  | .connection reason => "connection error: " ++ reason
  | .protocol reason => "protocol error: " ++ reason
  | .closed => "channel closed"

end Intercept
