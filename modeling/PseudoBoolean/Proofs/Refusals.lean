import PseudoBoolean.Proofs.Admission

/-!
What a refused posting leaves. A single constraint is checked before anything is posted, so a
refusal shows in the journal only. A reification is two postings, and its second half is checked in
the state that the first half made, with the right-hand side of the negated relation: it can be
refused after the first half was posted, which is not taken back.
-/
namespace PseudoBoolean.State

def SameButJournal {κ : Type} [PropagatorKinds κ] (s t : State κ) : Prop :=
  ∃ journal, t = { s with journal }

section
variable {κ : Type} [PropagatorKinds κ] {s t u : State κ}

theorem SameButJournal.symm (h : s.SameButJournal t) : t.SameButJournal s := by
  obtain ⟨journal, rfl⟩ := h
  exact ⟨s.journal, rfl⟩

theorem SameButJournal.trans (h : s.SameButJournal t) (k : t.SameButJournal u) :
    s.SameButJournal u := by
  obtain ⟨first, rfl⟩ := h
  obtain ⟨second, rfl⟩ := k
  exact ⟨second, rfl⟩

theorem SameButJournal.activeNames_eq (h : s.SameButJournal t) : t.activeNames = s.activeNames := by
  obtain ⟨journal, rfl⟩ := h
  rfl

end

section refused
variable {κ : Type} [PropagatorKinds κ] [HoldsStandard κ]
variable {s t : State κ} {control : Literal} {c : LinearConstraint} {e : ConstraintError}

/-- A refusal for `e` leaves `t`: all but the journal as it was, in which at most the route of the
    constraint is remarked on. The sizes differ, or a number of the constraint is not admitted. -/
structure Refused (s : State κ) (c : LinearConstraint) (e : ConstraintError) (t : State κ) :
    Prop where
  same : s.SameButJournal t
  entries : t.entries = s.entries ∨ ∃ n b, t.entries = s.entries ++ [.remarked (.routed n b)]
  reason : c.checkSizes = .error e ∨ ∃ location, ∃ v ∈ c.examined s.domains.known,
    ¬ s.limits.Admits v ∧ e = .overflow v location

omit [HoldsStandard κ] in
theorem refused_of_sizes (sizes : c.checkSizes = .error e) : s.Refused c e s :=
  ⟨⟨s.journal, rfl⟩, .inl rfl, .inl sizes⟩

theorem refused_of_enforce {control : Option Literal} {location : Location}
    (sizes : c.checkSizes = .ok ()) (h : s.enforce control location c = .ok (.error e, t)) :
    s.Refused c e t := by
  have reason : c.checkSizes = .error e ∨ ∃ location, ∃ v ∈ c.examined s.domains.known,
      ¬ s.limits.Admits v ∧ e = .overflow v location := by
    have answer := verdict_of_enforce sizes h
    rcases Limits.verdict_cases s.limits location (c.examined s.domains.known) with
      ⟨-, passed⟩ | ⟨v, member, outside, given⟩
    · rw [passed] at answer
      cases answer
    · rw [given] at answer
      cases answer
      exact .inr ⟨location, v, member, outside, rfl⟩
  obtain ⟨normal, normalised, h⟩ := bind_eq_ok_iff.1 h
  cases normal with
  | error _ =>
    obtain ⟨-, rfl⟩ := pure_pair_eq_ok_iff.1 h
    exact ⟨⟨s.journal, rfl⟩, .inl rfl, reason⟩
  | ok n =>
    dsimp only at h
    split at h
    · -- a sum without terms is decided, never refused
      split at h
      · cases (pure_pair_eq_ok_iff.1 h).1
      · obtain ⟨u, -, h⟩ := bind_eq_ok_iff.1 h
        cases (pure_pair_eq_ok_iff.1 h).1
    split at h
    · obtain ⟨-, rfl⟩ := pure_pair_eq_ok_iff.1 h
      exact ⟨⟨s.journal, rfl⟩, .inl rfl, reason⟩
    split at h
    · obtain ⟨-, rfl⟩ := pure_pair_eq_ok_iff.1 h
      exact ⟨⟨_, rfl⟩, .inr ⟨n, control, entries_remark s _⟩, reason⟩
    · obtain ⟨u, -, h⟩ := bind_eq_ok_iff.1 h
      cases (pure_pair_eq_ok_iff.1 h).1

theorem refused_of_post (h : s.post c = .ok (.error e, t)) : s.Refused c e t := by
  unfold post at h
  cases sizes : c.checkSizes with
  | error reason =>
    rw [sizes] at h
    obtain ⟨same, rfl⟩ := pure_pair_eq_ok_iff.1 h
    cases same
    exact refused_of_sizes sizes
  | ok _ =>
    rw [sizes] at h
    dsimp only at h
    split at h
    · cases (pure_pair_eq_ok_iff.1 h).1
    · exact refused_of_enforce sizes h

theorem refused_of_imply (h : s.imply control c = .ok (.error e, t)) : s.Refused c e t := by
  unfold imply at h
  cases sizes : c.checkSizes with
  | error reason =>
    rw [sizes] at h
    obtain ⟨same, rfl⟩ := pure_pair_eq_ok_iff.1 h
    cases same
    exact refused_of_sizes sizes
  | ok _ =>
    rw [sizes] at h
    dsimp only at h
    split at h
    · cases (pure_pair_eq_ok_iff.1 h).1
    obtain ⟨value, -, h⟩ := bind_eq_ok_iff.1 h
    split at h
    · cases (pure_pair_eq_ok_iff.1 h).1
    · exact refused_of_post h
    · exact refused_of_enforce sizes h

/-- A single posting that is refused, in whatever state, leaves no trace but in the journal. -/
theorem untouched_of_refused (refused : s.post c = .ok (.error e, t) ∨
      ∃ control, s.imply control c = .ok (.error e, t)) :
    t = { s with journal := t.journal } ∧
      (t.entries = s.entries ∨ ∃ n b, t.entries = s.entries ++ [.remarked (.routed n b)]) ∧
      (e = .sizeMismatch c.coefficients.length c.literals.length ∨
        ∃ location, ∃ v ∈ c.examined s.domains.known,
          ¬ s.limits.Admits v ∧ e = .overflow v location) := by
  have left : s.Refused c e t := by
    rcases refused with posted | ⟨control, implied⟩
    · exact refused_of_post posted
    · exact refused_of_imply implied
  refine ⟨?_, left.entries, ?_⟩
  · obtain ⟨journal, rfl⟩ := left.same
    rfl
  · refine left.reason.imp_left fun sizes => ?_
    unfold LinearConstraint.checkSizes at sizes
    split at sizes
    · cases sizes
    · exact (Except.error.inj sizes).symm

/-- The first count of an equation could be posted, the second could not. A propagator waits, and an
    event is pending. -/
theorem untouched_of_refused_equation :
    let x : Literal := .positive ⟨0⟩
    let y : Literal := .positive ⟨1⟩
    let z : Literal := .positive ⟨2⟩
    let c : LinearConstraint := ⟨[2, 2, -1, 1], [x, y, y, z.complement], .equal, -1⟩
    ∃ s t : State Standard.Kind, (State.new ⟨-5, 3⟩).Accepts [.newLiteral, .newLiteral,
        .newLiteral, .post ⟨[1, 1], [y, z], .atLeast, 1⟩, .assign x true] s ∧
      s.post c = .ok (.error (.overflow 5 .linear), t) ∧
      t = { s with journal := t.journal } ∧ t.agenda.numQueued = 1 ∧
      t.domains.pending.events = [(.fixedTrue, ⟨0⟩)] := by
  intro x y z c
  obtain ⟨s, run, given⟩ := accepts_of_reaches (State.new ⟨-5, 3⟩) [.newLiteral, .newLiteral,
      .newLiteral, .post ⟨[1, 1], [y, z], .atLeast, 1⟩, .assign x true]
    (fun s => decide (s.agenda.numQueued = 1 ∧ s.domains.pending.events = [(.fixedTrue, ⟨0⟩)]) &&
      (s.post c).toOption.any fun answer : Except ConstraintError Unit × State Standard.Kind =>
        decide (answer.1 = .error (.overflow 5 .linear)))
    (by decide +kernel)
  obtain ⟨waiting, refused⟩ := (Bool.and_eq_true _ _).mp given
  obtain ⟨queued, events⟩ := of_decide_eq_true waiting
  obtain ⟨⟨r, t⟩, posted, first⟩ := exists_of_any refused
  obtain rfl : r = _ := of_decide_eq_true first
  obtain ⟨same, -⟩ := untouched_of_refused (.inl posted)
  have agenda : t.agenda = s.agenda := by rw [same]
  have domains : t.domains = s.domains := by rw [same]
  exact ⟨s, t, run, posted, same, agenda ▸ queued, domains ▸ events⟩

theorem sameButJournal_of_imply (h : s.imply control c = .ok (.error e, t)) :
    s.SameButJournal t := (refused_of_imply h).same

theorem not_refused_of_false (value : s.domains.known.read control = some false)
    (sizes : c.checkSizes = .ok ()) : s.imply control c ≠ .ok (.error e, t) := by
  intro h
  unfold imply at h
  rw [sizes] at h
  dsimp only at h
  split at h
  · cases (pure_pair_eq_ok_iff.1 h).1
  obtain ⟨read, got, h⟩ := bind_eq_ok_iff.1 h
  rw [Domains.known_of_read got] at value
  subst value
  cases (pure_pair_eq_ok_iff.1 h).1

/-- An implication that is accepted is posted under an open control, comes down to its constraint,
    or leaves no trace. -/
theorem imply_cases (h : s.imply control c = .ok (.ok (), t)) :
    c.checkSizes = .ok () ∧ (s.value control = .ok none ∨
      s.domains.known.read control = some true ∨ s.SameButJournal t) := by
  unfold imply at h
  cases sizes : c.checkSizes with
  | error e =>
    rw [sizes] at h
    cases (pure_pair_eq_ok_iff.1 h).1
  | ok done =>
    refine ⟨rfl, ?_⟩
    rw [sizes] at h
    dsimp only at h
    split at h
    · obtain ⟨-, rfl⟩ := pure_pair_eq_ok_iff.1 h
      exact .inr (.inr ⟨s.journal, rfl⟩)
    obtain ⟨value, got, h⟩ := bind_eq_ok_iff.1 h
    cases value with
    | none => exact .inl got
    | some b =>
      cases b with
      | false =>
        obtain ⟨-, rfl⟩ := pure_pair_eq_ok_iff.1 h
        exact .inr (.inr ⟨_, rfl⟩)
      | true => exact .inr (.inl (Domains.known_of_read got))

/-- A refused reification leaves what its first half leaves alone. So nothing is left exactly if
    the first half leaves nothing, as when it is refused itself or the control has a value. -/
theorem left_of_refused_reify (h : s.reify control c = .ok (.error e, t)) :
    ∃ r u, s.imply control c = .ok (r, u) ∧ u.SameButJournal t ∧
      (s.SameButJournal t ↔ s.SameButJournal u) ∧
      (r ≠ .ok () ∨ s.value control ≠ .ok none → s.SameButJournal t) := by
  obtain ⟨⟨r, u⟩, implied, second⟩ := bind_eq_ok_iff.1 h
  cases r with
  | error reason =>
    obtain ⟨-, rfl⟩ := pure_pair_eq_ok_iff.1 second
    have same := sameButJournal_of_imply implied
    exact ⟨_, u, implied, ⟨u.journal, rfl⟩, Iff.rfl, fun _ => same⟩
  | ok done =>
    have same : u.SameButJournal t := sameButJournal_of_imply second
    refine ⟨_, u, implied, same, ?_, ?_⟩
    · exact ⟨fun left => left.trans same.symm, fun left => left.trans same⟩
    intro known
    have valued := known.resolve_left fun differs => differs rfl
    obtain ⟨sizes, none_ | value | left⟩ := imply_cases implied
    · exact absurd none_ valued
    · -- the control is true, and the second half is vacuous
      have above := (evolves_imply implied).extends
      have vacuous : u.domains.known.read control.complement = some false :=
        PartialValuation.read_complement_eq_some_iff.2
          (PartialValuation.read_of_extends above value)
      exact absurd second (not_refused_of_false vacuous sizes)
    · exact left.trans same

end refused

section shifted
open Standard

/-- The state in which the second half of a reification is refused below: two variables, nothing
    posted, the widest limits. -/
def twoVariables : State Kind := (State.new .standard).newLiteral.2.newLiteral.2

def nearLowest : LinearConstraint := ⟨[2], [.positive ⟨1⟩], .atLeast, -2147483644⟩

/-- The negated relation is strict, so its right-hand side moves down by one, and with it the least
    value that is checked. -/
theorem reify_nearLowest : ∃ t, twoVariables.reify (.positive ⟨0⟩) nearLowest =
    .ok (.error (.overflow (-2147483647) .implyLinear), t) ∧ t.activeNames = ["BooleanLinear"] := by
  have evaluated : (twoVariables.reify (.positive ⟨0⟩) nearLowest).toOption.any (fun answer =>
      decide (answer.1 = .error (.overflow (-2147483647) .implyLinear) ∧
        answer.2.activeNames = ["BooleanLinear"])) = true := by decide +kernel
  obtain ⟨⟨r, t⟩, refused, passed⟩ := exists_of_any evaluated
  obtain ⟨rfl, names⟩ := of_decide_eq_true passed
  exact ⟨t, refused, names⟩

/-- The second half is refused, and the propagator of the first stays. -/
theorem refused_reify_leaves_propagator : ∃ t, twoVariables.reify (.positive ⟨0⟩) nearLowest =
      .ok (.error (.overflow (-2147483647) .implyLinear), t) ∧
    twoVariables.activeNames = [] ∧ t.activeNames = ["BooleanLinear"] ∧
      ¬ twoVariables.SameButJournal t := by
  obtain ⟨t, refused, names⟩ := reify_nearLowest
  refine ⟨t, refused, rfl, names, ?_⟩
  intro same
  rw [same.activeNames_eq] at names
  cases names

theorem left_of_refused_reify_nearLowest : ∃ t r u,
    twoVariables.reify (.positive ⟨0⟩) nearLowest =
      .ok (.error (.overflow (-2147483647) .implyLinear), t) ∧
    twoVariables.imply (.positive ⟨0⟩) nearLowest = .ok (r, u) ∧ u.SameButJournal t ∧
      ¬ twoVariables.SameButJournal u := by
  obtain ⟨t, refused, names⟩ := reify_nearLowest
  obtain ⟨r, u, first, same, left, -⟩ := left_of_refused_reify refused
  refine ⟨t, r, u, refused, first, same, ?_⟩
  intro nothing
  rw [(left.2 nothing).activeNames_eq] at names
  cases names

end shifted
end PseudoBoolean.State
