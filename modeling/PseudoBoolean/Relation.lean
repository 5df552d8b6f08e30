import PseudoBoolean.Constraint.Error

/-!
The six relations between a sum and its right-hand side. Every relation over the integers is
equivalent to one that is not strict, with the right-hand side moved by one: `holds_nonStrict`.
-/
namespace PseudoBoolean

inductive Relation where
  | equal
  | notEqual
  | atMost
  | less
  | atLeast
  | greater
deriving DecidableEq, Repr

namespace Relation

def ofCode : Int → Except ConstraintError Relation
  | 0 => .ok equal
  | 1 => .ok notEqual
  | 2 => .ok atMost
  | 3 => .ok less
  | 4 => .ok atLeast
  | 5 => .ok greater
  | code => .error (.unknownRelation code)

def symbol : Relation → String
  | equal => "=="
  | notEqual => "!="
  | atMost => "<="
  | less => "<"
  | atLeast => ">="
  | greater => ">"

instance : ToString Relation := ⟨symbol⟩

def negation : Relation → Relation
  | equal => notEqual
  | notEqual => equal
  | atMost => greater
  | less => atLeast
  | atLeast => less
  | greater => atMost

def Holds : Relation → Int → Int → Prop
  | equal, a, b => a = b
  | notEqual, a, b => a ≠ b
  | atMost, a, b => a ≤ b
  | less, a, b => a < b
  | atLeast, a, b => b ≤ a
  | greater, a, b => b < a

instance (r : Relation) (a b : Int) : Decidable (r.Holds a b) :=
  match r with
  | equal => inferInstanceAs (Decidable (a = b))
  | notEqual => inferInstanceAs (Decidable (a ≠ b))
  | atMost => inferInstanceAs (Decidable (a ≤ b))
  | less => inferInstanceAs (Decidable (a < b))
  | atLeast => inferInstanceAs (Decidable (b ≤ a))
  | greater => inferInstanceAs (Decidable (b < a))

/-- An equivalent pair of a relation that is not strict and a right-hand side. -/
def nonStrict : Relation → Int → Relation × Int
  | less, b => (atMost, b - 1)
  | greater, b => (atLeast, b + 1)
  | r, b => (r, b)

def IsStrict (r : Relation) : Prop := r = less ∨ r = greater

def HoldsThroughout : Relation → Int → Int → Int → Prop
  | equal, lower, upper, b => lower = b ∧ upper = b
  | notEqual, lower, upper, b => b < lower ∨ upper < b
  | atMost, _, upper, b => upper ≤ b
  | less, _, upper, b => upper < b
  | atLeast, lower, _, b => b ≤ lower
  | greater, lower, _, b => b < lower

instance (r : Relation) (lower upper b : Int) : Decidable (r.HoldsThroughout lower upper b) :=
  match r with
  | equal => inferInstanceAs (Decidable (lower = b ∧ upper = b))
  | notEqual => inferInstanceAs (Decidable (b < lower ∨ upper < b))
  | atMost => inferInstanceAs (Decidable (upper ≤ b))
  | less => inferInstanceAs (Decidable (upper < b))
  | atLeast => inferInstanceAs (Decidable (b ≤ lower))
  | greater => inferInstanceAs (Decidable (b < lower))

@[simp] theorem negation_negation (r : Relation) : r.negation.negation = r := by cases r <;> rfl

theorem holds_negation (r : Relation) (a b : Int) : r.negation.Holds a b ↔ ¬ r.Holds a b := by
  cases r <;> simp only [negation, Holds] <;> omega

theorem holds_nonStrict (r : Relation) (a b : Int) :
    (r.nonStrict b).1.Holds a (r.nonStrict b).2 ↔ r.Holds a b := by
  cases r <;> simp only [nonStrict, Holds] <;> omega

theorem not_isStrict_nonStrict (r : Relation) (b : Int) : ¬ (r.nonStrict b).1.IsStrict := by
  cases r <;> simp [nonStrict, IsStrict]

theorem holdsThroughout_iff (r : Relation) {lower upper : Int} (h : lower ≤ upper) (b : Int) :
    r.HoldsThroughout lower upper b ↔ ∀ a, lower ≤ a → a ≤ upper → r.Holds a b := by
  constructor
  · intro throughout a above below
    cases r <;> simp only [HoldsThroughout, Holds] at throughout ⊢ <;> omega
  · intro all
    have atLower := all lower (Int.le_refl _) h
    have atUpper := all upper h (Int.le_refl _)
    have atRhs := all b
    cases r <;> simp only [HoldsThroughout, Holds] at atLower atUpper atRhs ⊢ <;> omega

end Relation
end PseudoBoolean
