import PseudoBoolean.Proofs.Counterparts

/-!
Runs never fault. When every literal of a run was made earlier in the run, and every sum has as many
weights as variables, each operation comes to an answer: what is posted is encoded over literals of
the constraint, so that all propagators are built over domains that exist.
-/
namespace PseudoBoolean
open Standard

namespace State
variable {s t u : State Kind} {control : Literal} {c : LinearConstraint}

section postings

theorem returns_reify (h : s.Intact) (hasControl : s.domains.Has control)
    (has : ∀ l ∈ c.literals, s.domains.Has l) : Returns (s.reify control c) := by
  apply (returns_imply h.sturdy hasControl has).bind
  intro ⟨first, u⟩ implied
  cases first with
  | error e => exact returns_pure _
  | ok done =>
    obtain ⟨intact, size⟩ := (evolves_imply implied).intact h
    apply returns_imply intact.sturdy
    · exact (Domains.has_iff_of_size size _).2 hasControl
    · exact fun l member => (Domains.has_iff_of_size size l).2 (has l member)

theorem returns_postEach
    {one : State Kind → LinearConstraint → Checked (Except ConstraintError Unit × State Kind)}
    (edits : ∀ {c s t r}, one s c = .ok (r, t) → s.Edits t) {cs : List LinearConstraint}
    (returns : ∀ c ∈ cs, ∀ u : State Kind, u.Intact → u.domains.size = s.domains.size →
      Returns (one u c))
    (h : s.Intact) : Returns (s.postEach one cs) := by
  induction cs generalizing s with
  | nil => exact returns_pure _
  | cons c rest ih =>
    apply (returns c List.mem_cons_self s h rfl).bind
    intro ⟨first, u⟩ posted
    cases first with
    | error e => exact returns_pure _
    | ok done =>
      obtain ⟨intact, size⟩ := (edits posted).evolves.intact h
      refine ih ?_ intact
      exact fun c member w intact same => returns c (.tail _ member) w intact (same.trans size)

end postings
end State

namespace Operation

/-- What the operation names exists, and a sum that it builds has a weight for each variable. -/
def FitsIn (s : Domains) : Operation Kind → Prop
  | value l | assign l _ => s.Has l
  | post c => ∀ l ∈ c.literals, s.Has l
  | imply control c | reify control c => s.Has control ∧ ∀ l ∈ c.literals, s.Has l
  | postAll cs => ∀ c ∈ cs, ∀ l ∈ c.literals, s.Has l
  | implyAll control cs => s.Has control ∧ ∀ c ∈ cs, ∀ l ∈ c.literals, s.Has l
  | addPropagator b => Fits s b
  | newLiteral | propagate | giveUp => True

def extend (s : Domains) : Operation Kind → Domains
  | newLiteral => s.grow
  | _ => s

/-- Every operation of a run names only what exists by then. -/
def AllFit (s : Domains) : List (Operation Kind) → Prop
  | [] => True
  | op :: rest => op.FitsIn s ∧ AllFit (op.extend s) rest

instance (s : Domains) : DecidablePred (Fits s)
  | ⟨.atLeast o, b⟩ =>
    inferInstanceAs (Decidable (∀ x ∈ AtLeast.Blueprint.vars (ν := o.Var) b, s.Has x))
  | ⟨.impliedAtLeast o, b⟩ => inferInstanceAs (Decidable
      (s.Has (ImpliedAtLeast.Blueprint.control (ν := o.Var) b) ∧
        ∀ x ∈ ImpliedAtLeast.Blueprint.vars (ν := o.Var) b, s.Has x))
  | ⟨.weightedSum o, b⟩ => inferInstanceAs (Decidable
      ((WeightedSum.Blueprint.weights (ν := o.Var) b).length =
          (WeightedSum.Blueprint.vars (ν := o.Var) b).length ∧
        (∀ c ∈ WeightedSum.Blueprint.control (ν := o.Var) b, s.Has c) ∧
        ∀ x ∈ WeightedSum.Blueprint.vars (ν := o.Var) b, s.Has x))

instance (s : Domains) : DecidablePred (FitsIn s)
  | value l | assign l _ => inferInstanceAs (Decidable (s.Has l))
  | post c => inferInstanceAs (Decidable (∀ l ∈ c.literals, s.Has l))
  | imply control c | reify control c =>
    inferInstanceAs (Decidable (s.Has control ∧ ∀ l ∈ c.literals, s.Has l))
  | postAll cs => inferInstanceAs (Decidable (∀ c ∈ cs, ∀ l ∈ c.literals, s.Has l))
  | implyAll control cs =>
    inferInstanceAs (Decidable (s.Has control ∧ ∀ c ∈ cs, ∀ l ∈ c.literals, s.Has l))
  | addPropagator b => inferInstanceAs (Decidable (Fits s b))
  | newLiteral | propagate | giveUp => isTrue trivial

instance decidableAllFit (s : Domains) : (ops : List (Operation Kind)) → Decidable (AllFit s ops)
  | [] => isTrue trivial
  | op :: rest =>
    have := decidableAllFit (op.extend s) rest
    inferInstanceAs (Decidable (op.FitsIn s ∧ AllFit (op.extend s) rest))

section size
variable {s t : Domains}

theorem fits_of_size (same : t.size = s.size) {b : AnyBlueprint Kind} (h : Fits s b) :
    Fits t b := by
  obtain ⟨k, b⟩ := b
  cases k with
  | atLeast o => exact fun x member => (Domains.has_iff_of_size same x).2 (h x member)
  | impliedAtLeast o =>
    exact ⟨(Domains.has_iff_of_size same _).2 h.1,
      fun x member => (Domains.has_iff_of_size same x).2 (h.2 x member)⟩
  | weightedSum o =>
    exact ⟨h.1, fun c member => (Domains.has_iff_of_size same c).2 (h.2.1 c member),
      fun x member => (Domains.has_iff_of_size same x).2 (h.2.2 x member)⟩

theorem FitsIn.of_size (same : t.size = s.size) {op : Operation Kind} (h : op.FitsIn s) :
    op.FitsIn t := by
  have has : ∀ {l : Literal}, s.Has l → t.Has l := fun {l} => (Domains.has_iff_of_size same l).2
  cases op with
  | value l => exact has h
  | assign l v => exact has h
  | post c => exact fun l member => has (h l member)
  | imply control c => exact ⟨has h.1, fun l member => has (h.2 l member)⟩
  | reify control c => exact ⟨has h.1, fun l member => has (h.2 l member)⟩
  | postAll cs => exact fun c inside l member => has (h c inside l member)
  | implyAll control cs => exact ⟨has h.1, fun c inside l member => has (h.2 c inside l member)⟩
  | addPropagator b => exact fits_of_size same h
  | newLiteral | propagate | giveUp => trivial

theorem AllFit.of_size (same : t.size = s.size) {ops : List (Operation Kind)} (h : AllFit s ops) :
    AllFit t ops := by
  induction ops generalizing s t with
  | nil => trivial
  | cons op rest ih =>
    refine ⟨h.1.of_size same, ih ?_ h.2⟩
    cases op with
    | newLiteral =>
      have one : ∀ u : Domains, u.grow.size = u.size + 1 := fun u => Table.size_push _ _
      exact (one t).trans ((congrArg (· + 1) same).trans (one s).symm)
    | _ => exact same

end size
end Operation

namespace State
variable {s t : State Kind} {op : Operation Kind} {ops : List (Operation Kind)}

theorem returns_apply (h : s.Intact) (fits : op.FitsIn s.domains) : Returns (op.apply s) := by
  have answered : ∀ {α : Type} {answer : α → Answer} {r : Checked (α × State Kind)},
      Returns r → Returns (Operation.apply.answered answer r) :=
    fun done => done.bind fun _ _ => returns_pure _
  cases op with
  | newLiteral => exact returns_pure _
  | giveUp => exact returns_pure _
  | value l => exact Returns.bind ⟨_, Domains.read_eq_known fits⟩ fun _ _ => returns_pure _
  | assign l v => exact answered (returns_assign h fits v)
  | propagate => exact answered (returns_propagate h)
  | addPropagator b =>
    obtain ⟨id, t, added⟩ := State.returns_addPropagator h (buildable_of_fits fits)
    exact answered ⟨_, added⟩
  | post c => exact answered (returns_post h.sturdy fits)
  | imply control c => exact answered (returns_imply h.sturdy fits.1 fits.2)
  | reify control c => exact answered (returns_reify h fits.1 fits.2)
  | postAll cs =>
    refine answered (returns_postEach edits_post ?_ h)
    intro c inside u intact same
    exact returns_post intact.sturdy fun l member =>
      (Domains.has_iff_of_size same l).2 (fits c inside l member)
  | implyAll control cs =>
    refine answered (returns_postEach edits_imply ?_ h)
    intro c inside u intact same
    have has : ∀ {l : Literal}, s.domains.Has l → u.domains.Has l :=
      fun {l} => (Domains.has_iff_of_size same l).2
    exact returns_imply intact.sturdy (has fits.1) fun l member => has (fits.2 c inside l member)

theorem intact_of_apply {a : Answer} (h : s.Intact) (done : op.apply s = .ok (a, t)) :
    t.Intact ∧ t.domains.size = (op.extend s.domains).size := by
  rcases apply_cases done with ⟨rfl, rfl⟩ | ⟨rfl, r, propagated, -⟩ | ⟨grown, -, edited⟩
  · exact ⟨h.newLiteral, rfl⟩
  · exact intact_of_propagate h propagated
  · have same : op.extend s.domains = s.domains := by
      cases op with
      | newLiteral => exact absurd rfl grown
      | _ => rfl
    rw [same]
    exact edited.evolves.intact h

theorem returns_run (h : s.Intact) (fit : Operation.AllFit s.domains ops) :
    Returns (s.run ops) := by
  induction ops generalizing s with
  | nil => exact returns_pure _
  | cons op rest ih =>
    obtain ⟨⟨a, u⟩, done⟩ := returns_apply h fit.1
    obtain ⟨intact, size⟩ := intact_of_apply h done
    apply Returns.bind ⟨_, done⟩
    intro _ same
    cases done.symm.trans same
    exact (ih intact (fit.2.of_size size)).bind fun _ _ => returns_pure _

/-- A run that names only literals that it made before, and weighs each variable of a sum, comes to
    its end: no index is out of range, no counter goes below zero, no lengths differ where they
    are taken to be equal. A propagator's handle is the key of its place while keys suffice. -/
theorem returns_of_allFit (limits : Limits) (fit : Operation.AllFit {} ops) :
    (∃ answers t, (State.new limits).run ops = .ok (answers, t)) ∧
      ∀ (u v : State Kind) (b : AnyBlueprint Kind) id, u.addPropagator b = .ok (id, v) →
        v.roster.size ≤ idRange → v.roster.places.lastKey = id := by
  constructor
  · obtain ⟨⟨answers, t⟩, done⟩ := returns_run (intact_new limits) fit
    exact ⟨answers, t, done⟩
  · intro u v b id done few
    obtain ⟨p, registrations, added⟩ := added_addPropagator done
    have size : v.roster.places.size = u.roster.size + 1 := added.size
    have below : u.roster.size < idRange := by
      have more := added.size
      omega
    rw [added.own, Table.lastKey, size]
    exact congrArg PropagatorId.mk (Nat.mod_eq_of_lt below)

/-- Operations of every kind. One constraint is refused; the second propagation
    replaces a propagator and ends in a conflict. -/
theorem returns_of_allFit_each :
    let x : Literal := .positive ⟨0⟩
    let y : Literal := .positive ⟨1⟩
    let z : Literal := .positive ⟨2⟩
    let ops : List (Operation Kind) := [.newLiteral, .newLiteral, .value x,
      .addPropagator ⟨.weightedSum .literals,
        WeightedSum.Blueprint.mk [2, -3] [x, y.complement] .notEqual 2 none⟩,
      .newLiteral,
      .addPropagator ⟨.impliedAtLeast .literals, ImpliedAtLeast.Blueprint.mk z [x, y] 2⟩,
      .post ⟨[1], [x, y], .atMost, 1⟩, .imply z ⟨[1, 1], [x, x.complement], .equal, 1⟩,
      .reify x ⟨[1, 1], [y, z], .atLeast, 1⟩, .postAll [⟨[5, -2], [x, y], .less, 4⟩], .propagate,
      .implyAll y [⟨[1, 1], [x, z], .atLeast, 1⟩], .assign z true, .propagate, .giveUp,
      .assign y true, .propagate, .post ⟨[1], [z], .equal, 0⟩]
    Operation.AllFit {} ops ∧ ∃ answers t, (State.new .standard).run ops = .ok (answers, t) := by
  intro x y z ops
  have fit : Operation.AllFit {} ops := by decide
  exact ⟨fit, (returns_of_allFit .standard fit).1⟩

end State
end PseudoBoolean
