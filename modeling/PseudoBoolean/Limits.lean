import PseudoBoolean.Constraint.Error

/-!
Which integers a constraint may use. A constant is admissible when it lies within the limits of
the state and fits a signed 32-bit word.
-/
namespace PseudoBoolean

def wordMin : Int := -2147483648

def wordMax : Int := 2147483647

def saturatingSub (a b : Int) : Int := max wordMin (a - b)

structure Limits where
  least : Int
  greatest : Int
deriving DecidableEq, Repr

namespace Limits

/-- One less than a word on either side, so that one step beyond a checked constant still fits. -/
def standard : Limits := ⟨-(wordMax - 1), wordMax - 1⟩

def Contains (l : Limits) (v : Int) : Prop := l.least ≤ v ∧ v ≤ l.greatest

instance (l : Limits) (v : Int) : Decidable (l.Contains v) :=
  inferInstanceAs (Decidable (l.least ≤ v ∧ v ≤ l.greatest))

def Admits (l : Limits) (v : Int) : Prop := l.Contains v ∧ wordMin ≤ v ∧ v ≤ wordMax

instance (l : Limits) (v : Int) : Decidable (l.Admits v) :=
  inferInstanceAs (Decidable (l.Contains v ∧ wordMin ≤ v ∧ v ≤ wordMax))

def check (l : Limits) (location : Location) (v : Int) : Except ConstraintError Int :=
  if l.Admits v then .ok v else .error (.overflow v location)

theorem check_eq_ok_iff {l : Limits} {location : Location} {v w : Int} :
    l.check location v = .ok w ↔ l.Admits v ∧ w = v := by
  unfold check
  split <;> simp_all [eq_comm]

theorem check_eq_error_iff {l : Limits} {location : Location} {v : Int} {e : ConstraintError} :
    l.check location v = .error e ↔ ¬ l.Admits v ∧ e = .overflow v location := by
  unfold check
  split <;> simp_all [eq_comm]

end Limits
end PseudoBoolean
