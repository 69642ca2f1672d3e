import Intercept.Proofs.Harness.Turns

/-! As the only client of its broker, a harness settles every delivery once. -/
namespace Intercept
variable {M : Type}

namespace Harness
variable {cfg : Setup M} {h : Harness M} {x : Claim M}

end Harness
end Intercept
