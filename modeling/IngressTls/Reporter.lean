import IngressTls.Quota

set_option autoImplicit false

/-! # Usage reports

The platform is told how much of the quota is in use. At every tick the reporter compares the
figure with the last one that the platform acknowledged, and sends it if they differ. A
report that failed or was not answered in time leaves the reporter as it was, so the figure
is sent again at the next tick.

Main statement: `report?_eq_none_iff`, the reporter is silent exactly at the acknowledged figure.
-/

namespace IngressTls

/-- What the reporter remembers. -/
structure Reporter where
  /-- The figure that was acknowledged last. -/
  acknowledged : Option Int
  deriving DecidableEq, Repr

namespace Reporter

/-- A reporter that has sent nothing. -/
def new : Reporter := ⟨none⟩

/-- The figure to send at a tick, if any. -/
def report? (r : Reporter) (used : Int) : Option Int :=
  if r.acknowledged = some used then none else some used

/-- A report was answered, or failed. -/
def answered (r : Reporter) (sent : Int) (acknowledged : Bool) : Reporter :=
  if acknowledged then ⟨some sent⟩ else r

theorem report?_eq_none_iff (r : Reporter) (used : Int) :
    r.report? used = none ↔ r.acknowledged = some used := by
  rw [report?]
  split <;> simp_all

end Reporter

end IngressTls
