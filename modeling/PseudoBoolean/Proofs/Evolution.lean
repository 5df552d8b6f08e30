import Mathlib.Logic.Relation
import PseudoBoolean.Proofs.Termination
import PseudoBoolean.Run

/-!
The changes that states undergo. Whatever a search does with a state, and whatever way a constraint
takes when it is posted, comes down to a few changes, unless a domain is added; so what each of them
keeps holds of every state that a search can be in.
-/
namespace PseudoBoolean
namespace State
variable {κ : Type} [PropagatorKinds κ]

inductive Change : State κ → State κ → Prop where
  | remarked (s : State κ) (r : Remark) : Change s (s.remark r)
  | fixed {s : State κ} {l : Literal} {v : Bool} {r : Fixing} {domains : Domains} :
      s.domains.fixVariable l v = .ok (r, domains) → Change s { s with domains }
  | failed (s : State κ) (i : Inconsistency) : Change s (s.fail i)
  | added {s t : State κ} {b : AnyBlueprint κ} {id : PropagatorId} :
      s.addPropagator b = .ok (id, t) → Change s t
  | propagated {s t : State κ} {r : Except Inconsistency Unit} :
      s.propagate = .ok (r, t) → Change s t

abbrev Evolves : State κ → State κ → Prop := Relation.ReflTransGen Change

inductive Edit : State κ → State κ → Prop where
  | remarked (s : State κ) (r : Remark) : Edit s (s.remark r)
  | fixed {s : State κ} {l : Literal} {v : Bool} {r : Fixing} {domains : Domains} :
      s.domains.fixVariable l v = .ok (r, domains) → Edit s { s with domains }
  | failed (s : State κ) (i : Inconsistency) : Edit s (s.fail i)
  | added {s t : State κ} {b : AnyBlueprint κ} {id : PropagatorId} :
      s.addPropagator b = .ok (id, t) → Edit s t

abbrev Edits : State κ → State κ → Prop := Relation.ReflTransGen Edit

variable {s t : State κ} {l : Literal} {v : Bool}

theorem Edit.change (h : Edit s t) : Change s t := by
  cases h with
  | remarked r => exact .remarked s r
  | fixed fixed => exact .fixed fixed
  | failed i => exact .failed s i
  | added added => exact .added added

theorem Edits.evolves (h : s.Edits t) : s.Evolves t :=
  Relation.ReflTransGen.mono (fun _ _ edit => Edit.change edit) s t h

theorem Evolves.keeps {u w : State κ} (h : Evolves u w) {P : State κ → Prop}
    (step : ∀ {s t}, P s → Change s t → P t) (start : P u) : P w := by
  induction h with
  | refl => exact start
  | tail _ last ih => exact step ih last

theorem edits_foldlM {α : Type} {f : State κ → α → Checked (State κ)} {xs : List α}
    (step : ∀ {a : α} {s t : State κ}, f s a = .ok t → s.Edits t)
    (h : xs.foldlM f s = .ok t) : s.Edits t :=
  foldlM_keeps (fun _ u => s.Edits u) (fun so_far done => so_far.trans (step done)) .refl h

theorem assign_cases {r : Except Inconsistency Unit} (h : s.assign l v = .ok (r, t)) :
    (∃ i, s.failure = some i ∧ r = .error i ∧ t = s) ∨
      s.failure = none ∧ ∃ fixing domains, s.domains.fixVariable l v = .ok (fixing, domains) ∧
        ((fixing ≠ .contradicted ∧ r = .ok () ∧ t = { s with domains }) ∨
          fixing = .contradicted ∧ r = .error .emptyDomain ∧
            t = ({ s with domains } : State κ).fail .emptyDomain) := by
  unfold assign at h
  split at h
  · next i failure =>
    obtain ⟨rfl, rfl⟩ := pure_pair_eq_ok_iff.1 h
    exact Or.inl ⟨i, failure, rfl, rfl⟩
  · next unfailed =>
    obtain ⟨⟨fixing, domains⟩, fixed, h⟩ := bind_eq_ok_iff.1 h
    have sound : s.failure = none := Option.eq_none_iff_forall_ne_some.2 unfailed
    refine Or.inr ⟨sound, fixing, domains, fixed, ?_⟩
    cases fixing with
    | changed | unchanged =>
      obtain ⟨rfl, rfl⟩ := pure_pair_eq_ok_iff.1 h
      exact Or.inl ⟨by simp, rfl, rfl⟩
    | contradicted =>
      obtain ⟨rfl, rfl⟩ := pure_pair_eq_ok_iff.1 h
      exact Or.inr ⟨rfl, rfl, rfl⟩

theorem edits_assign {r : Except Inconsistency Unit} (h : s.assign l v = .ok (r, t)) :
    s.Edits t := by
  rcases assign_cases h with
    ⟨i, -, -, rfl⟩ | ⟨-, fixing, domains, fixed, ⟨-, -, rfl⟩ | ⟨-, -, rfl⟩⟩
  · exact .refl
  · exact .single (.fixed fixed)
  · exact .tail (.single (.fixed fixed)) (.failed _ _)

theorem evolves_assign {r : Except Inconsistency Unit} (h : s.assign l v = .ok (r, t)) :
    s.Evolves t := (edits_assign h).evolves

theorem edits_fixAtPost (h : s.fixAtPost l v = .ok t) : s.Edits t := by
  unfold fixAtPost at h
  split at h
  · obtain rfl := pure_eq_ok_iff.1 h
    exact .refl
  · obtain ⟨⟨fixing, domains⟩, fixed, h⟩ := bind_eq_ok_iff.1 h
    cases fixing with
    | changed | unchanged =>
      rw [← pure_eq_ok_iff.1 h]
      exact .single (.fixed fixed)
    | contradicted =>
      rw [← pure_eq_ok_iff.1 h]
      exact .tail (.tail (.single (.fixed fixed)) (.remarked _ _)) (.failed _ _)

theorem edits_failAtPost (s : State κ) (i : Inconsistency) : s.Edits (s.failAtPost i) := by
  unfold failAtPost
  split
  · exact .refl
  · exact .single (.failed s i)

section posting
variable [HoldsStandard κ] {control : Literal} {r : Except ConstraintError Unit}

theorem edits_addStandard {b : AnyBlueprint Standard.Kind} (h : s.addStandard b = .ok t) :
    s.Edits t := by
  obtain ⟨⟨id, u⟩, added, h⟩ := bind_eq_ok_iff.1 h
  rw [← pure_eq_ok_iff.1 h]
  exact .single (.added added)

theorem edits_postCount {c : AtLeast.Blueprint Literal} (h : s.postCount c = .ok t) :
    s.Edits t := by
  unfold postCount at h
  split at h
  · obtain rfl := pure_eq_ok_iff.1 h
    exact .refl
  obtain ⟨⟨rest, n⟩, -, h⟩ := bind_eq_ok_iff.1 h
  dsimp only at h
  split at h
  · rw [← pure_eq_ok_iff.1 h]
    exact .single (.remarked s _)
  split at h
  · rw [← pure_eq_ok_iff.1 h]
    exact .head (.remarked s _) (edits_failAtPost _ _)
  split at h
  · exact edits_foldlM edits_fixAtPost h
  · exact edits_addStandard h

theorem evolves_postCount {c : AtLeast.Blueprint Literal} (h : s.postCount c = .ok t) :
    s.Evolves t := (edits_postCount h).evolves

theorem edits_postImpliedCount {c : AtLeast.Blueprint Literal}
    (h : s.postImpliedCount control c = .ok t) : s.Edits t := by
  unfold postImpliedCount at h
  split at h
  · obtain rfl := pure_eq_ok_iff.1 h
    exact .refl
  obtain ⟨value, -, h⟩ := bind_eq_ok_iff.1 h
  split at h
  · obtain rfl := pure_eq_ok_iff.1 h
    exact .refl
  · exact edits_postCount h
  obtain ⟨⟨rest, n⟩, -, h⟩ := bind_eq_ok_iff.1 h
  dsimp only at h
  split at h
  · exact .head (.remarked s _) (edits_fixAtPost h)
  split at h
  · rw [← pure_eq_ok_iff.1 h]
    exact .single (.remarked s _)
  · exact edits_addStandard h

theorem evolves_postImpliedCount {c : AtLeast.Blueprint Literal}
    (h : s.postImpliedCount control c = .ok t) : s.Evolves t := (edits_postImpliedCount h).evolves

theorem edits_postEncoding {control : Option Literal} {encoding : Encoding}
    (h : s.postEncoding control encoding = .ok t) : s.Edits t := by
  cases encoding with
  | counts all =>
    refine edits_foldlM ?_ (show List.foldlM _ s all = Except.ok t from h)
    intro c s t posted
    cases control with
    | none => exact edits_postCount posted
    | some b => exact edits_postImpliedCount posted
  | sum b => exact edits_addStandard h

omit [HoldsStandard κ] in
theorem edits_refute {control : Option Literal} (h : s.refute control = .ok t) :
    s.Edits t := by
  cases control with
  | none =>
    rw [← pure_eq_ok_iff.1 h]
    exact edits_failAtPost s _
  | some b => exact edits_fixAtPost h

theorem edits_enforce {control : Option Literal} {location : Location} {c : LinearConstraint}
    (h : s.enforce control location c = .ok (r, t)) : s.Edits t := by
  obtain ⟨normal, -, h⟩ := bind_eq_ok_iff.1 h
  cases normal with
  | error e =>
    obtain ⟨-, rfl⟩ := pure_pair_eq_ok_iff.1 h
    exact .refl
  | ok n =>
  dsimp only at h
  split at h
  · split at h
    · obtain ⟨-, rfl⟩ := pure_pair_eq_ok_iff.1 h
      exact .refl
    · obtain ⟨u, refuted, h⟩ := bind_eq_ok_iff.1 h
      obtain ⟨-, rfl⟩ := pure_pair_eq_ok_iff.1 h
      exact .head (.remarked s _) (edits_refute refuted)
  split at h
  · obtain ⟨-, rfl⟩ := pure_pair_eq_ok_iff.1 h
    exact .refl
  split at h
  · obtain ⟨-, rfl⟩ := pure_pair_eq_ok_iff.1 h
    exact .single (.remarked s _)
  · obtain ⟨u, posted, h⟩ := bind_eq_ok_iff.1 h
    obtain ⟨-, rfl⟩ := pure_pair_eq_ok_iff.1 h
    exact .head (.remarked s _) (edits_postEncoding posted)

theorem edits_post {c : LinearConstraint} (h : s.post c = .ok (r, t)) : s.Edits t := by
  unfold post at h
  split at h
  · obtain ⟨-, rfl⟩ := pure_pair_eq_ok_iff.1 h
    exact .refl
  split at h
  · obtain ⟨-, rfl⟩ := pure_pair_eq_ok_iff.1 h
    exact .refl
  · exact edits_enforce h

theorem edits_imply {c : LinearConstraint} (h : s.imply control c = .ok (r, t)) :
    s.Edits t := by
  unfold imply at h
  split at h
  · obtain ⟨-, rfl⟩ := pure_pair_eq_ok_iff.1 h
    exact .refl
  split at h
  · obtain ⟨-, rfl⟩ := pure_pair_eq_ok_iff.1 h
    exact .refl
  obtain ⟨value, -, h⟩ := bind_eq_ok_iff.1 h
  split at h
  · obtain ⟨-, rfl⟩ := pure_pair_eq_ok_iff.1 h
    exact .single (.remarked s _)
  · exact edits_post h
  · exact edits_enforce h

theorem evolves_imply {c : LinearConstraint} (h : s.imply control c = .ok (r, t)) :
    s.Evolves t := (edits_imply h).evolves

theorem edits_reify {c : LinearConstraint} (h : s.reify control c = .ok (r, t)) :
    s.Edits t := by
  obtain ⟨⟨first, u⟩, implied, h⟩ := bind_eq_ok_iff.1 h
  cases first with
  | error e =>
    obtain ⟨-, rfl⟩ := pure_pair_eq_ok_iff.1 h
    exact edits_imply implied
  | ok done => exact (edits_imply implied).trans (edits_imply h)

omit [HoldsStandard κ] in
theorem edits_postEach {one : State κ → LinearConstraint →
      Checked (Except ConstraintError Unit × State κ)}
    (step : ∀ {c s t r}, one s c = .ok (r, t) → s.Edits t) {cs : List LinearConstraint}
    (h : s.postEach one cs = .ok (r, t)) : s.Edits t := by
  induction cs generalizing s with
  | nil =>
    obtain ⟨-, rfl⟩ := pure_pair_eq_ok_iff.1 h
    exact .refl
  | cons c rest ih =>
    obtain ⟨⟨first, u⟩, posted, h⟩ := bind_eq_ok_iff.1 h
    cases first with
    | error e =>
      obtain ⟨-, rfl⟩ := pure_pair_eq_ok_iff.1 h
      exact step posted
    | ok done => exact (step posted).trans (ih h)

end posting

variable [HoldsStandard κ]

theorem apply_cases {op : Operation κ} {a : Answer} (h : op.apply s = .ok (a, t)) :
    (op = .newLiteral ∧ t = s.newLiteral.2) ∨
      (op = .propagate ∧ ∃ r, s.propagate = .ok (r, t) ∧ a = .outcome r) ∨
      op ≠ .newLiteral ∧ op ≠ .propagate ∧ s.Edits t := by
  cases op with
  | newLiteral =>
    obtain ⟨-, rfl⟩ := pure_pair_eq_ok_iff.1 h
    exact .inl ⟨rfl, rfl⟩
  | propagate => exact .inr (.inl ⟨rfl, Operation.answered_eq_ok h⟩)
  | value l =>
    obtain ⟨b, -, h⟩ := bind_eq_ok_iff.1 h
    obtain ⟨-, rfl⟩ := pure_pair_eq_ok_iff.1 h
    exact .inr (.inr ⟨nofun, nofun, .refl⟩)
  | giveUp =>
    obtain ⟨-, rfl⟩ := pure_pair_eq_ok_iff.1 h
    exact .inr (.inr ⟨nofun, nofun, .single (.remarked s _)⟩)
  | assign l v =>
    obtain ⟨r, done, -⟩ := Operation.answered_eq_ok h
    exact .inr (.inr ⟨nofun, nofun, edits_assign done⟩)
  | addPropagator b =>
    obtain ⟨id, done, -⟩ := Operation.answered_eq_ok h
    exact .inr (.inr ⟨nofun, nofun, .single (.added done)⟩)
  | post c =>
    obtain ⟨r, done, -⟩ := Operation.answered_eq_ok h
    exact .inr (.inr ⟨nofun, nofun, edits_post done⟩)
  | imply control c =>
    obtain ⟨r, done, -⟩ := Operation.answered_eq_ok h
    exact .inr (.inr ⟨nofun, nofun, edits_imply done⟩)
  | reify control c =>
    obtain ⟨r, done, -⟩ := Operation.answered_eq_ok h
    exact .inr (.inr ⟨nofun, nofun, edits_reify done⟩)
  | postAll cs =>
    obtain ⟨r, done, -⟩ := Operation.answered_eq_ok h
    exact .inr (.inr ⟨nofun, nofun, edits_postEach edits_post done⟩)
  | implyAll control cs =>
    obtain ⟨r, done, -⟩ := Operation.answered_eq_ok h
    exact .inr (.inr ⟨nofun, nofun, edits_postEach edits_imply done⟩)

theorem evolves_apply {op : Operation κ} {a : Answer} (h : op.apply s = .ok (a, t)) :
    s.Evolves t ∨ t = s.newLiteral.2 := by
  rcases apply_cases h with ⟨-, grown⟩ | ⟨-, r, done, -⟩ | ⟨-, -, edited⟩
  · exact .inr grown
  · exact .inl (.single (.propagated done))
  · exact .inl edited.evolves

/-- What a new state has, and every change and every new domain keeps, all states of searches
    have. -/
theorem Reachable.keeps {P : State κ → Prop} (start : ∀ limits, P (State.new limits))
    (grow : ∀ {s}, P s → P s.newLiteral.2) (step : ∀ {s t}, P s → Change s t → P t)
    (h : s.Reachable) : P s := by
  obtain ⟨limits, run⟩ := h
  have kept := start limits
  generalize State.new (κ := κ) limits = first at run kept
  induction run with
  | refl => exact kept
  | step applied _ ih =>
    rcases evolves_apply applied with evolved | rfl
    · exact ih (evolved.keeps step kept)
    · exact ih (grow kept)

section intact
variable [Semantics κ] [Contract κ] [Progress κ]

omit [HoldsStandard κ] in
theorem Intact.of_change (h : s.Intact) (change : s.Change t) :
    t.Intact ∧ t.domains.size = s.domains.size := by
  cases change with
  | remarked r => exact ⟨h.of_same rfl rfl rfl rfl, rfl⟩
  | fixed fixed => exact ⟨h.leadsTo (.of_fix fixed), Domains.size_of_fix fixed⟩
  | failed i => exact ⟨h.fail i, rfl⟩
  | added done =>
    obtain ⟨-, -, -, -, -, -, domains, -⟩ := addPropagator_cases done
    exact ⟨h.addPropagator done, congrArg Domains.size domains⟩
  | propagated done => exact intact_of_propagate h done

omit [HoldsStandard κ] in
theorem Evolves.intact (h : s.Evolves t) (intact : s.Intact) :
    t.Intact ∧ t.domains.size = s.domains.size := by
  apply h.keeps (P := fun u : State κ => u.Intact ∧ u.domains.size = s.domains.size) _ ⟨intact, rfl⟩
  intro u w kept change
  obtain ⟨intact, size⟩ := kept.1.of_change change
  exact ⟨intact, size.trans kept.2⟩

theorem Reachable.intact (h : s.Reachable) : s.Intact :=
  h.keeps (P := fun u : State κ => u.Intact) intact_new Intact.newLiteral
    fun intact change => (intact.of_change change).1

end intact

end State
end PseudoBoolean
