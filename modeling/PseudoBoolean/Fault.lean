/-!
Broken preconditions. An operation that is used outside its contract (a domain that was never
created, weights that do not match the literals) does not answer; it stops with a `Fault`.
A fault is not an answer about the constraints: those are `Inconsistency` and `ConstraintError`.
-/
namespace PseudoBoolean

inductive Fault where
  | outOfRange (index size : Nat)
  | sizeMismatch (weights literals : Nat)
  | counterUnderflow (counter decrease : Nat)
  | counterMismatch (counter stored : Nat)
  /-- The bound on the number of rounds was too small for the propagators. -/
  | noFixpoint
deriving DecidableEq, Repr

abbrev Checked (α : Type) := Except Fault α

theorem bind_eq_ok_iff {ε α β : Type} {x : Except ε α} {f : α → Except ε β} {b : β} :
    x >>= f = .ok b ↔ ∃ a, x = .ok a ∧ f a = .ok b := by
  cases x <;> simp [bind, Except.bind]

theorem pure_eq_ok_iff {ε α : Type} {a b : α} : (pure a : Except ε α) = .ok b ↔ a = b := by
  simp [pure, Except.pure]

theorem pure_pair_eq_ok_iff {ε α β : Type} {a c : α} {b d : β} :
    (pure (a, b) : Except ε (α × β)) = .ok (c, d) ↔ a = c ∧ b = d := by
  rw [pure_eq_ok_iff, Prod.mk.injEq]

theorem exists_of_any {α : Type} {x : Checked α} {check : α → Bool}
    (h : x.toOption.any check = true) : ∃ a, x = .ok a ∧ check a = true := by
  cases x with
  | error fault => cases h
  | ok a => exact ⟨a, rfl, h⟩

theorem foldlM_keeps {α β : Type} {f : β → α → Checked β} (Keeps : List α → β → Prop)
    (step : ∀ {a rest b c}, Keeps (a :: rest) b → f b a = .ok c → Keeps rest c) {xs : List α}
    {b c : β} (start : Keeps xs b) (h : xs.foldlM f b = .ok c) : Keeps [] c := by
  induction xs generalizing b with
  | nil =>
    rw [← pure_eq_ok_iff.1 h]
    exact start
  | cons a rest ih =>
    rw [List.foldlM_cons] at h
    obtain ⟨next, first, h⟩ := bind_eq_ok_iff.1 h
    exact ih (step start first) h

def decrease (counter amount : Nat) : Checked Nat :=
  if amount ≤ counter then .ok (counter - amount) else .error (.counterUnderflow counter amount)

theorem decrease_of_le {counter amount : Nat} (h : amount ≤ counter) :
    decrease counter amount = .ok (counter - amount) := if_pos h

theorem decrease_eq_ok_iff {counter amount rest : Nat} :
    decrease counter amount = .ok rest ↔ amount ≤ counter ∧ rest = counter - amount := by
  unfold decrease
  split
  · next h => simp [h, eq_comm]
  · next h => simp [h]

end PseudoBoolean
