import Intercept.Harness.Session

/-! The states that a harness can get into, in whatever order its tasks go on. A session takes one
of these orders. -/
namespace Intercept
variable {M : Type}

/-- Whether an act bypasses the harness: somebody else uses its channel, or calls its handlers. -/
def Act.isForeign : Act M → Bool
  | .ack _ | .nack .. | .disposeBroker | .notify .. => true
  | _ => false

/-- A setup in which every body is a message. -/
def Setup.bare : Setup Unit where
  format := { decode? := fun _ => some (), view := fun _ => .null }
  consumerTag := fun _ => "consumer"

namespace Harness
variable {cfg : Setup M} {allowed : Act M → Prop} {h h' : Harness M} {t : Task}

/-- What acts that are allowed, steps of tasks and the clock lead to. -/
inductive Reaches (cfg : Setup M) (allowed : Act M → Prop) : Harness M → Prop
  | initial : Reaches cfg allowed (initial cfg)
  | act {h h' : Harness M} {reply : BrokerReply} (a : Act M) :
    Reaches cfg allowed h → allowed a → h.act? cfg a = some (h', reply) → Reaches cfg allowed h'
  | step {h h' : Harness M} (t : Task) :
    Reaches cfg allowed h → h.step? cfg t = some h' → Reaches cfg allowed h'
  | tick {h : Harness M} :
    Reaches cfg allowed h → Reaches cfg allowed { h with clock := h.clock + 1 }

/-- Whatever others do. -/
def Reachable (cfg : Setup M) : Harness M → Prop := Reaches cfg fun _ => True

/-- As long as nobody else is a client of the broker. -/
def ReachableAlone (cfg : Setup M) : Harness M → Prop := Reaches cfg fun a => a.isForeign = false

theorem ReachableAlone.reachable (hr : ReachableAlone cfg h) : Reachable cfg h := by
  induction hr with
  | initial => exact .initial
  | act a _ _ ha ih => exact .act a ih trivial ha
  | step t _ hs ih => exact .step t ih hs
  | tick _ ih => exact .tick ih

theorem Reaches.poll {steps : Nat} (hr : Reaches cfg allowed h) :
    Reaches cfg allowed (h.poll cfg t steps) := by
  induction steps generalizing h with
  | zero => exact hr
  | succ n ih =>
    rw [Harness.poll]
    cases hs : h.step? cfg t with
    | none => exact hr
    | some h' => exact ih (.step t hr hs)

end Harness

namespace Session
variable {cfg : Setup M} {allowed : Act M → Prop} {s : Session M} {h : Harness M}

theorem reaches_run {turns : Nat} {queue : List Task}
    (hr : Harness.Reaches cfg allowed s.harness) :
    Harness.Reaches cfg allowed (run cfg turns queue s).harness := by
  induction turns generalizing queue s with
  | zero => exact hr
  | succ n ih =>
    cases queue with
    | nil => exact hr
    | cons t queue => exact ih hr.poll

theorem reaches_settle (hr : Harness.Reaches cfg allowed s.harness) :
    Harness.Reaches cfg allowed (s.settle cfg).harness := by
  rw [settle]
  split
  · exact hr
  · exact reaches_run hr

theorem reaches_advance {ms : Nat} (hr : Harness.Reaches cfg allowed s.harness) :
    Harness.Reaches cfg allowed (s.advance cfg ms).harness := by
  induction ms generalizing s with
  | zero => exact hr
  | succ n ih =>
    have htick : Harness.Reaches cfg allowed (s.tick cfg).harness := reaches_settle hr.tick
    exact ih htick

/-- A session gets only into states that its harness can reach. -/
theorem reaches_perform {a : Act M} (hr : Harness.Reaches cfg allowed s.harness) (ha : allowed a) :
    Harness.Reaches cfg allowed (s.perform cfg a).1.harness := by
  rw [perform]
  split
  · exact hr
  · next h' reply hact => exact reaches_settle (.act a hr ha hact)

end Session
end Intercept
