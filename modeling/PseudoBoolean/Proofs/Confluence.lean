import PseudoBoolean.Proofs.Runs

/-!
The order of operations does not matter. The store after a propagation is the least stable point of
the state, and the stable points are determined by what was asked for, in whatever order. Two least
points of one set are equal.
-/
namespace PseudoBoolean
namespace State
open Standard PartialValuation
variable {s t t₁ t₂ : State Kind} {ops ops₁ ops₂ : List (Operation Kind)}

theorem isFailed_eq_false_iff : s.isFailed = false ↔ s.failure = none := by
  rw [isFailed, Option.isSome_eq_false_iff, Option.isNone_iff_eq_none]

/-- A run that ends with a propagation has failed or ends at a stable point. -/
theorem stableAt_of_run (wf : s.WellFormed) (run : s.Accepts (ops ++ [.propagate]) t) :
    t.isFailed = true ∨ t.StableAt t.domains.known := by
  obtain ⟨u, first, last⟩ := accepts_append_iff.1 run
  obtain ⟨r, propagated⟩ := accepts_propagate_iff.1 last
  rcases atFixpoint_or_failed (gains_run first wf).1 propagated with fixpoint | ⟨i, failure⟩
  · exact Or.inr fixpoint.stableAt
  · exact Or.inl (Option.isSome_iff_exists.2 ⟨i, failure⟩)

theorem stableAt_iff_of_run (wf : s.WellFormed) (run : s.Accepts (ops ++ [.propagate]) t)
    (e : PartialValuation) :
    t.StableAt e ↔ s.StableAt e ∧ ∀ op ∈ ops.filter (!·.isPropagate), op.AsksFor e := by
  obtain ⟨-, gained⟩ := gains_run run wf
  rw [gained, Operation.asksFor_without_propagate]
  apply and_congr_right
  intro _
  constructor
  · intro asked op member
    exact asked op (List.mem_append_left _ member)
  · intro asked op member
    rcases List.mem_append.1 member with inner | last
    · exact asked op inner
    · cases List.mem_singleton.1 last
      trivial

theorem known_eq_of_stableAt (same : ∀ e, t₁.StableAt e ↔ t₂.StableAt e)
    (stable₁ : t₁.StableAt t₁.domains.known) (stable₂ : t₂.StableAt t₂.domains.known) :
    t₁.domains.known = t₂.domains.known := by
  have above : t₁.domains.known.Extends t₂.domains.known := ((same _).1 stable₁).2.1
  have below : t₂.domains.known.Extends t₁.domains.known := ((same _).2 stable₂).2.1
  exact extends_antisymm above below

/-- Two runs that ask for the same, in any order and with propagations anywhere, either both fail or
    end with the same values. -/
theorem known_eq_of_perm (reachable : s.Reachable)
    (same : (ops₁.filter (!·.isPropagate)).Perm (ops₂.filter (!·.isPropagate)))
    (run₁ : s.Accepts (ops₁ ++ [.propagate]) t₁) (run₂ : s.Accepts (ops₂ ++ [.propagate]) t₂) :
    (t₁.isFailed = true ∧ t₂.isFailed = true) ∨
      (t₁.isFailed = false ∧ t₂.isFailed = false ∧ t₁.domains.known = t₂.domains.known) := by
  have wf := reachable.wellFormed
  have stable : ∀ e, t₁.StableAt e ↔ t₂.StableAt e := by
    intro e
    rw [stableAt_iff_of_run wf run₁, stableAt_iff_of_run wf run₂]
    simp only [same.mem_iff]
  have sound : ∀ {t : State Kind} {e}, t.StableAt e → t.isFailed = false :=
    fun stable => isFailed_eq_false_iff.2 stable.1
  rcases stableAt_of_run wf run₁ with failed₁ | stable₁
  · rcases stableAt_of_run wf run₂ with failed₂ | stable₂
    · exact Or.inl ⟨failed₁, failed₂⟩
    · have sound₁ := sound ((stable _).2 stable₂)
      rw [failed₁] at sound₁
      cases sound₁
  · rcases stableAt_of_run wf run₂ with failed₂ | stable₂
    · have sound₂ := sound ((stable _).1 stable₁)
      rw [failed₂] at sound₂
      cases sound₂
    · exact Or.inr ⟨sound stable₁, sound stable₂, known_eq_of_stableAt stable stable₁ stable₂⟩

/-- A clause before or after the decision against one of its literals. -/
theorem known_eq_of_perm_clause :
    let clause : Operation Kind := .post ⟨[1, 1], [.positive ⟨0⟩, .positive ⟨1⟩], .atLeast, 1⟩
    let decision : Operation Kind := .assign (.positive ⟨0⟩) false
    ∃ s t₁ t₂ : State Kind, s.Reachable ∧ s.Accepts ([clause, decision] ++ [.propagate]) t₁ ∧
      s.Accepts ([decision, .propagate, clause] ++ [.propagate]) t₂ ∧ t₁.isFailed = false ∧
      t₁.domains.known = t₂.domains.known := by
  intro clause decision
  obtain ⟨s, ⟨answers, created, -⟩, both⟩ := accepts_of_reaches (State.new .standard)
    [.newLiteral, .newLiteral]
    (fun s => s.reaches ([clause, decision] ++ [.propagate]) (fun t => !t.isFailed) &&
      s.reaches ([decision, .propagate, clause] ++ [.propagate]) fun _ => true)
    (by decide +kernel)
  have ⟨first, second⟩ := (Bool.and_eq_true _ _).mp both
  obtain ⟨t₁, run₁, sound⟩ := accepts_of_reaches s _ _ first
  obtain ⟨t₂, run₂, -⟩ := accepts_of_reaches s _ _ second
  have reachable : s.Reachable := ⟨.standard, leadsTo_of_run created⟩
  have sound : t₁.isFailed = false := by simpa using sound
  have swapped : ([clause, decision].filter (!·.isPropagate)).Perm
      ([decision, .propagate, clause].filter (!·.isPropagate)) := .swap decision clause []
  refine ⟨s, t₁, t₂, reachable, run₁, run₂, sound, ?_⟩
  rcases known_eq_of_perm reachable swapped run₁ run₂ with failed | same
  · rw [sound] at failed
    cases failed.1
  · exact same.2.2

end State
end PseudoBoolean
