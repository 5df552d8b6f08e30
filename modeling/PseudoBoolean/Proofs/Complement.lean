import PseudoBoolean.Proofs.Mirror
import PseudoBoolean.Proofs.Survivors

/-!
Literals and their complements. A bound from above on some literals and the bound from below on
their complements come to the same when they are posted: the values are the same, and so are the
names of the propagators that will be left, whatever values are still to come.
-/
namespace PseudoBoolean

namespace State
open Standard PartialValuation
variable {s s' t u : State Kind} {l : Literal} {v : Bool} {e : PartialValuation}

theorem not_admits_failAtPost (s : State Kind) (i : Inconsistency) (e : PartialValuation) :
    ¬ (s.failAtPost i).Admits e := by
  unfold failAtPost
  by_cases failed : s.isFailed = true
  · rw [if_pos failed]
    obtain ⟨j, failure⟩ := failure_of_isFailed failed
    exact not_admits_of_failure failure e
  · rw [if_neg failed]
    exact not_admits_of_failure rfl e

theorem admits_fixAtPost (h : s.fixAtPost l v = .ok t) :
    t.roster = s.roster ∧ ∀ e, t.Admits e ↔ s.Admits e ∧ e.read l = some v := by
  unfold fixAtPost at h
  by_cases failed : s.isFailed = true
  · rw [if_pos failed] at h
    rw [← pure_eq_ok_iff.1 h]
    obtain ⟨i, failure⟩ := failure_of_isFailed failed
    have never := not_admits_of_failure failure
    exact ⟨rfl, fun e => iff_of_false (never e) fun both => never e both.1⟩
  rw [if_neg failed] at h
  obtain ⟨⟨fixing, domains⟩, fixed, h⟩ := bind_eq_ok_iff.1 h
  cases fixing with
  | changed | unchanged =>
    rw [← pure_eq_ok_iff.1 h]
    refine ⟨rfl, fun e => ?_⟩
    have extended := Domains.extends_after_fix fixed nofun e
    rw [Admits, Admits, and_assoc, read_eq_some_iff]
    exact and_congr_right fun _ => extended
  | contradicted =>
    rw [← pure_eq_ok_iff.1 h]
    refine ⟨rfl, fun e => iff_of_false (not_admits_of_failure rfl e) ?_⟩
    intro ⟨admitted, value⟩
    exact Domains.not_extends_of_contradicted fixed e ⟨admitted.2, read_eq_some_iff.1 value⟩

theorem admits_fixAll {xs : List Literal} (h : xs.foldlM (fixAtPost · · v) s = .ok t) :
    t.roster = s.roster ∧ ∀ e, t.Admits e ↔ s.Admits e ∧ ∀ x ∈ xs, e.read x = some v := by
  induction xs generalizing s with
  | nil =>
    rw [← pure_eq_ok_iff.1 h]
    simp
  | cons x rest ih =>
    rw [List.foldlM_cons] at h
    obtain ⟨w, first, later⟩ := bind_eq_ok_iff.1 h
    obtain ⟨roster, admits⟩ := admits_fixAtPost first
    obtain ⟨roster', admits'⟩ := ih later
    refine ⟨roster'.trans roster, fun e => ?_⟩
    rw [admits', admits, List.forall_mem_cons, and_assoc]

/-- What is told apart neither by the values, known or to come, nor by the names that will be
    left. -/
structure Akin (s t : State Kind) : Prop where
  admits : ∀ e, s.Admits e ↔ t.Admits e
  names : ∀ e, s.Admits e → s.namesAt e = t.namesAt e

theorem akin_of_roster (roster : s.roster = t.roster) (admits : ∀ e, s.Admits e ↔ t.Admits e) :
    s.Akin t := ⟨admits, fun e _ => by rw [namesAt, namesAt, roster]⟩

theorem akin_of_never (left : ∀ e, ¬ s.Admits e) (right : ∀ e, ¬ t.Admits e) : s.Akin t :=
  ⟨fun e => iff_of_false (left e) (right e), fun e admitted => absurd admitted (left e)⟩

theorem isFailed_eq_false_iff_admits : s.isFailed = false ↔ ∃ e, s.Admits e := by
  rw [isFailed_eq_false_iff]
  constructor
  · exact fun sound => ⟨s.domains.known, sound, extends_refl _⟩
  · exact fun ⟨e, admitted⟩ => admitted.1

theorem Akin.isFailed (h : s.Akin t) : s.isFailed = t.isFailed := by
  have same : s.isFailed = false ↔ t.isFailed = false := by
    simp only [isFailed_eq_false_iff_admits, h.admits]
  cases first : s.isFailed with
  | false => exact (same.1 first).symm
  | true =>
    cases second : t.isFailed with
    | true => rfl
    | false => exact first.symm.trans (same.2 second)

theorem Akin.known (h : s.Akin t) (sound : s.isFailed = false) :
    s.domains.known = t.domains.known := by
  have sound' := isFailed_eq_false_iff.1 (h.isFailed ▸ sound)
  have sound := isFailed_eq_false_iff.1 sound
  apply extends_antisymm
  · exact ((h.admits _).1 ⟨sound, extends_refl _⟩).2
  · exact ((h.admits _).2 ⟨sound', extends_refl _⟩).2

structure Copies (s t : State Kind) : Prop where
  domains : s.domains = t.domains
  roster : s.roster = t.roster
  failure : s.failure = t.failure

theorem copies_refl (s : State Kind) : s.Copies s := ⟨rfl, rfl, rfl⟩

theorem copies_remark (s : State Kind) (q r : Remark) : (s.remark q).Copies (s.remark r) :=
  ⟨rfl, rfl, rfl⟩

theorem Copies.remark (h : s.Copies t) (q r : Remark) : (s.remark q).Copies (t.remark r) :=
  ⟨h.domains, h.roster, h.failure⟩

theorem Copies.admits (h : s.Copies t) (e : PartialValuation) : s.Admits e ↔ t.Admits e := by
  rw [Admits, Admits, h.domains, h.failure]

theorem Copies.isFailed (h : s.Copies t) : s.isFailed = t.isFailed :=
  congrArg Option.isSome h.failure

theorem Copies.akin (h : s.Copies t) : s.Akin t := akin_of_roster h.roster h.admits

section copies
variable (copies : s.Copies s')
include copies

theorem akin_of_narrowed {P Q : PartialValuation → Prop} (same : ∀ e, P e ↔ Q e)
    (first : t.roster = s.roster ∧ ∀ e, t.Admits e ↔ s.Admits e ∧ P e)
    (second : u.roster = s'.roster ∧ ∀ e, u.Admits e ↔ s'.Admits e ∧ Q e) : t.Akin u := by
  obtain ⟨roster, admits⟩ := first
  obtain ⟨roster', admits'⟩ := second
  apply akin_of_roster
  · rw [roster, roster', copies.roster]
  · intro e
    rw [admits, admits', copies.admits, same]

theorem akin_fixAtPost (first : s.fixAtPost l v = .ok t) (second : s'.fixAtPost l v = .ok u) :
    t.Akin u :=
  akin_of_narrowed copies (fun _ => Iff.rfl) (admits_fixAtPost first) (admits_fixAtPost second)

theorem akin_fixAll {xs ys : List Literal} (same : xs.Perm ys)
    (first : xs.foldlM (fixAtPost · · v) s = .ok t)
    (second : ys.foldlM (fixAtPost · · v) s' = .ok u) : t.Akin u := by
  refine akin_of_narrowed copies (fun e => ?_) (admits_fixAll first) (admits_fixAll second)
  simp only [same.mem_iff]

theorem akin_addStandard {b c : AnyBlueprint Kind} (name : b.1.name = c.1.name)
    (fates : ∀ e, fateAsked b e = fateAsked c e) (first : s.addStandard b = .ok t)
    (second : s'.addStandard c = .ok u) : t.Akin u := by
  obtain ⟨⟨i, w⟩, added, first⟩ := bind_eq_ok_iff.1 first
  obtain ⟨⟨j, w'⟩, added', second⟩ := bind_eq_ok_iff.1 second
  obtain rfl : w = t := pure_eq_ok_iff.1 first
  obtain rfl : w' = u := pure_eq_ok_iff.1 second
  obtain ⟨-, p, _, created, -, roster, domains, failure, -⟩ := addPropagator_cases added
  obtain ⟨-, q, _, created', -, roster', domains', failure', -⟩ := addPropagator_cases added'
  obtain ⟨named, fated⟩ := fate_of_created created
  obtain ⟨named', fated'⟩ := fate_of_created created'
  have before : ∀ e, w.Admits e ↔ s.Admits e := fun e => by rw [Admits, Admits, domains, failure]
  refine ⟨fun e => ?_, fun e admitted => ?_⟩
  · rw [before, copies.admits, Admits, Admits, domains', failure']
  · have above := ((before e).1 admitted).2
    rw [namesAt, namesAt, roster, roster', Roster.active_add, Roster.active_add, copies.roster]
    apply namesLeft_exchanged
    · exact (named.trans name).trans named'.symm
    · exact ((fated e above).trans (fates e)).trans (fated' e (copies.domains ▸ above)).symm

variable {c d : AtLeast.Blueprint Literal} (vars : c.vars.Perm d.vars)
  (threshold : c.threshold = d.threshold)
include vars threshold

theorem akin_postCount (first : s.postCount c = .ok t) (second : s'.postCount d = .ok u) :
    t.Akin u := by
  unfold postCount at first second
  rw [← copies.isFailed] at second
  by_cases failed : s.isFailed = true
  · rw [if_pos failed] at first second
    rw [← pure_eq_ok_iff.1 first, ← pure_eq_ok_iff.1 second]
    exact copies.akin
  rw [if_neg failed] at first second
  obtain ⟨⟨rest, n⟩, separated, first⟩ := bind_eq_ok_iff.1 first
  obtain ⟨⟨rest', n'⟩, separated', second⟩ := bind_eq_ok_iff.1 second
  rw [← copies.domains] at separated'
  obtain ⟨same, rfl⟩ := Domains.separate_perm vars separated separated'
  dsimp only at first second
  rw [← threshold, ← same.length_eq] at second
  generalize saturatingSub c.threshold n = needed at first second
  by_cases reached : needed ≤ 0
  · rw [if_pos reached] at first second
    rw [← pure_eq_ok_iff.1 first, ← pure_eq_ok_iff.1 second]
    exact (copies.remark _ _).akin
  rw [if_neg reached] at first second
  by_cases unreachable : (rest.length : Int) < needed
  · rw [if_pos unreachable] at first second
    rw [← pure_eq_ok_iff.1 first, ← pure_eq_ok_iff.1 second]
    exact akin_of_never (not_admits_failAtPost _ _) (not_admits_failAtPost _ _)
  rw [if_neg unreachable] at first second
  by_cases tight : (rest.length : Int) ≤ needed
  · rw [if_pos tight] at first second
    exact akin_fixAll copies same first second
  · rw [if_neg tight] at first second
    refine akin_addStandard copies ?_ (fun e => ?_) first second
    · rfl
    · exact WeightedSum.fate_of_alike (WeightedSum.count_alike_perm same needed)

theorem akin_postImpliedCount {control : Literal} (first : s.postImpliedCount control c = .ok t)
    (second : s'.postImpliedCount control d = .ok u) : t.Akin u := by
  unfold postImpliedCount at first second
  rw [← copies.isFailed] at second
  by_cases failed : s.isFailed = true
  · rw [if_pos failed] at first second
    rw [← pure_eq_ok_iff.1 first, ← pure_eq_ok_iff.1 second]
    exact copies.akin
  rw [if_neg failed] at first second
  obtain ⟨value, got, first⟩ := bind_eq_ok_iff.1 first
  obtain ⟨value', got', second⟩ := bind_eq_ok_iff.1 second
  rw [State.value, ← copies.domains] at got'
  obtain rfl : value = value' := Except.ok.inj (got.symm.trans got')
  cases value with
  | some b =>
    cases b with
    | false =>
      rw [← pure_eq_ok_iff.1 first, ← pure_eq_ok_iff.1 second]
      exact copies.akin
    | true => exact akin_postCount copies vars threshold first second
  | none =>
    obtain ⟨⟨rest, n⟩, separated, first⟩ := bind_eq_ok_iff.1 first
    obtain ⟨⟨rest', n'⟩, separated', second⟩ := bind_eq_ok_iff.1 second
    rw [← copies.domains] at separated'
    obtain ⟨same, rfl⟩ := Domains.separate_perm vars separated separated'
    dsimp only at first second
    rw [← threshold, ← same.length_eq] at second
    generalize saturatingSub c.threshold n = needed at first second
    by_cases unreachable : (rest.length : Int) < needed
    · rw [if_pos unreachable] at first second
      exact akin_fixAtPost (copies.remark _ _) first second
    rw [if_neg unreachable] at first second
    by_cases reached : needed ≤ 0
    · rw [if_pos reached] at first second
      rw [← pure_eq_ok_iff.1 first, ← pure_eq_ok_iff.1 second]
      exact (copies.remark _ _).akin
    · rw [if_neg reached] at first second
      refine akin_addStandard copies ?_ (fun e => ?_) first second
      · rfl
      · exact WeightedSum.fate_of_alike (WeightedSum.count_alike_perm same needed)

end copies

section posting
variable {control : Option Literal} {location : Location} {c : LinearConstraint}

theorem akin_postEncoding {x y : Encoding} (copies : s.Copies s') (alike : x.Alike y)
    (first : s.postEncoding control x = .ok t) (second : s'.postEncoding control y = .ok u) :
    t.Akin u := by
  cases alike with
  | counts vars threshold =>
    simp only [postEncoding, List.foldlM_cons, List.foldlM_nil, bind_pure] at first second
    cases control with
    | none => exact akin_postCount copies vars threshold first second
    | some b => exact akin_postImpliedCount copies vars threshold first second
  | sum alike =>
    refine akin_addStandard copies ?_ (fun e => ?_) first second
    · rfl
    · exact WeightedSum.fate_of_alike (alike control e)

theorem akin_refute (copies : s.Copies s') (first : s.refute control = .ok t)
    (second : s'.refute control = .ok u) : t.Akin u := by
  cases control with
  | none =>
    rw [← pure_eq_ok_iff.1 first, ← pure_eq_ok_iff.1 second]
    exact akin_of_never (not_admits_failAtPost s _) (not_admits_failAtPost s' _)
  | some b => exact akin_fixAtPost copies first second

theorem akin_enforce (sizes : c.coefficients.length = c.literals.length)
    (relation : c.relation = .atMost) (first : s.enforce control location c = .ok (.ok (), t))
    (second : s.enforce control location c.complemented = .ok (.ok (), u)) : t.Akin u := by
  obtain ⟨normal, formed, first⟩ := bind_eq_ok_iff.1 first
  obtain ⟨normal', formed', second⟩ := bind_eq_ok_iff.1 second
  cases normal with
  | error e => cases first
  | ok n =>
  cases normal' with
  | error e => cases second
  | ok m =>
  obtain rfl := NormalSum.ofConstraint_complemented sizes formed formed'
  dsimp only at first second
  rw [n.isEmpty_mirrored] at second
  by_cases empty : n.terms.isEmpty = true
  · rw [if_pos empty] at first second
    by_cases holds : n.HoldsEmpty
    · rw [if_pos holds] at first
      rw [if_pos (n.holdsEmpty_mirrored.2 holds)] at second
      obtain ⟨-, rfl⟩ := pure_pair_eq_ok_iff.1 first
      obtain ⟨-, rfl⟩ := pure_pair_eq_ok_iff.1 second
      exact (copies_refl s).akin
    · rw [if_neg holds] at first
      rw [if_neg (mt n.holdsEmpty_mirrored.1 holds)] at second
      obtain ⟨w, refuted, first⟩ := bind_eq_ok_iff.1 first
      obtain ⟨w', refuted', second⟩ := bind_eq_ok_iff.1 second
      obtain ⟨-, rfl⟩ := pure_pair_eq_ok_iff.1 first
      obtain ⟨-, rfl⟩ := pure_pair_eq_ok_iff.1 second
      exact akin_refute (copies_remark s _ _) refuted refuted'
  rw [if_neg empty] at first second
  split at first
  · cases first
  split at second
  · cases second
  split at first
  · cases first
  next encoding encoded =>
  split at second
  · cases second
  next encoding' encoded' =>
  obtain ⟨w, posted, first⟩ := bind_eq_ok_iff.1 first
  obtain ⟨w', posted', second⟩ := bind_eq_ok_iff.1 second
  obtain ⟨-, rfl⟩ := pure_pair_eq_ok_iff.1 first
  obtain ⟨-, rfl⟩ := pure_pair_eq_ok_iff.1 second
  have atMost : n.relation = .atMost := by
    have form := congrArg WeightedSum.relation (NormalSum.ofConstraint_ok formed none).1
    exact form.trans (congrArg (fun r => (Relation.nonStrict r _).1) relation)
  exact akin_postEncoding (copies_remark s _ _) (NormalSum.alike_encode atMost encoded encoded')
    posted posted'

theorem akin_guarded {post post' : Checked (Except ConstraintError Unit × State Kind)}
    (first : (if let .error e := c.checkSizes then pure (.error e, s)
      else if s.isFailed then pure (.ok (), s) else post) = Except.ok (.ok (), t))
    (second : (if let .error e := c.complemented.checkSizes then pure (.error e, s)
      else if s.isFailed then pure (.ok (), s) else post') = Except.ok (.ok (), u))
    (akin : c.coefficients.length = c.literals.length → post = .ok (.ok (), t) →
      post' = .ok (.ok (), u) → t.Akin u) : t.Akin u := by
  rw [c.checkSizes_complemented] at second
  by_cases sizes : c.coefficients.length = c.literals.length
  · have checked : c.checkSizes = .ok () := if_pos sizes
    rw [checked] at first second
    by_cases failed : s.isFailed = true
    · simp only [if_pos failed] at first second
      obtain ⟨-, rfl⟩ := pure_pair_eq_ok_iff.1 first
      obtain ⟨-, rfl⟩ := pure_pair_eq_ok_iff.1 second
      exact (copies_refl s).akin
    · simp only [if_neg failed] at first second
      exact akin sizes first second
  · have checked : c.checkSizes = .error _ := if_neg sizes
    rw [checked] at first
    cases first

theorem akin_post (relation : c.relation = .atMost) (first : s.post c = .ok (.ok (), t))
    (second : s.post c.complemented = .ok (.ok (), u)) : t.Akin u :=
  akin_guarded first second fun sizes posted posted' => akin_enforce sizes relation posted posted'

theorem akin_imply {b : Literal} (relation : c.relation = .atMost)
    (first : s.imply b c = .ok (.ok (), t))
    (second : s.imply b c.complemented = .ok (.ok (), u)) : t.Akin u := by
  apply akin_guarded first second
  intro sizes first second
  obtain ⟨value, got, first⟩ := bind_eq_ok_iff.1 first
  obtain ⟨value', got', second⟩ := bind_eq_ok_iff.1 second
  obtain rfl : value = value' := Except.ok.inj (got.symm.trans got')
  cases value with
  | none => exact akin_enforce sizes relation first second
  | some v =>
    cases v with
    | true => exact akin_post relation first second
    | false =>
      obtain ⟨-, rfl⟩ := pure_pair_eq_ok_iff.1 first
      obtain ⟨-, rfl⟩ := pure_pair_eq_ok_iff.1 second
      exact (copies_remark s _ _).akin

end posting

theorem twins_of_implied {b : Literal} {c : LinearConstraint} (h : s.InOrder)
    (sizes : c.coefficients.length = c.literals.length) (relation : c.relation = .atMost)
    (first : s.imply b c = .ok (.ok (), t))
    (second : s.imply b c.complemented = .ok (.ok (), u)) : t.Twins u := by
  have akin := akin_imply relation first second
  have gained := (responds_imply first).accepted rfl
  have gained' := (responds_imply second).accepted rfl
  have evolved := evolves_imply first
  have evolved' := evolves_imply second
  refine ⟨⟨h.of_gains gained evolved, h.of_gains gained' evolved', ?_, fun e => ?_⟩,
    akin.isFailed, akin.known⟩
  · rw [(evolved.intact h.intact).2, (evolved'.intact h.intact).2]
  · rw [(gained h.wellFormed).2, (gained' h.wellFormed).2,
      LinearConstraint.asSum_complemented sizes, (WeightedSum.alike_mirrored e _).stableAt]

/-- At most `k` of some literals, and at least `n - k` of the `n` complements: whatever is decided
    later, the answers are the same, and so are the values and the names of the propagators after
    every propagation that succeeds. -/
theorem agree_of_complemented (reachable : s.Reachable) (b : Literal) (xs : List Literal) (k : Int)
    (first : s.imply b ⟨List.replicate xs.length 1, xs, .atMost, k⟩ = .ok (.ok (), t))
    (second : s.imply b ⟨List.replicate xs.length 1, xs.map Literal.complement, .atLeast,
      xs.length - k⟩ = .ok (.ok (), u))
    {moves : List (Operation Kind)} (each : ∀ op ∈ moves, op.IsMove s.domains) :
    ∃ answers t₁ others u₁, t.run moves = .ok (answers, t₁) ∧ u.run moves = .ok (others, u₁) ∧
      answers.map Answer.isSuccess = others.map Answer.isSuccess ∧
      ∃ r t₂ q u₂, t₁.propagate = .ok (r, t₂) ∧ u₁.propagate = .ok (q, u₂) ∧
        (r = .ok () ↔ q = .ok ()) ∧
        (r = .ok () → t₂.domains.known = u₂.domains.known ∧ t₂.activeNames = u₂.activeNames) := by
  let c : LinearConstraint := ⟨List.replicate xs.length 1, xs, .atMost, k⟩
  have sizes : c.coefficients.length = c.literals.length := List.length_replicate
  have other : c.complemented = ⟨List.replicate xs.length 1, xs.map Literal.complement, .atLeast,
      xs.length - k⟩ := by
    simp [c, LinearConstraint.complemented, Relation.mirrored]
  rw [← other] at second
  have twins := twins_of_implied reachable.inOrder sizes rfl first second
  have akin := akin_imply rfl first second
  have size : t.domains.size = s.domains.size :=
    ((evolves_imply first).intact reachable.intact).2
  have each : ∀ op ∈ moves, op.IsMove t.domains := fun op member => (each op member).of_size size
  obtain ⟨answers, t₁, others, u₁, run, run', same, later⟩ := twins.run each
  refine ⟨answers, t₁, others, u₁, run, run', same, ?_⟩
  obtain ⟨r, t₂, q, u₂, propagated, propagated', alike, unfailed, last⟩ := later.toPeers.propagate
  refine ⟨r, t₂, q, u₂, propagated, propagated', alike, ?_⟩
  rintro rfl
  obtain rfl := alike.1 rfl
  have known := last.known (unfailed.1 rfl)
  have each' : ∀ op ∈ moves, op.IsMove u.domains := fun op member =>
    (each op member).of_size twins.size.symm
  obtain ⟨admitted, names⟩ :=
    activeNames_of_run twins.left each run later.left.wellFormed propagated
  obtain ⟨-, names'⟩ :=
    activeNames_of_run twins.right each' run' later.right.wellFormed propagated'
  refine ⟨known, ?_⟩
  rw [names, names', ← known]
  exact akin.names _ admitted

/-- One of the literals is fixed, one is negated, and the count is replaced on the way. -/
theorem agree_of_complemented_replaced :
    let b : Literal := .positive ⟨0⟩
    let y : Literal := .positive ⟨2⟩
    let xs : List Literal := [.positive ⟨1⟩, y.complement, .positive ⟨3⟩, .positive ⟨4⟩]
    let ops : List (Operation Kind) := [.newLiteral, .newLiteral, .newLiteral, .newLiteral,
      .newLiteral, .assign (.positive ⟨4⟩) true,
      .addPropagator ⟨.atLeast .domains, AtLeast.Blueprint.mk [⟨1⟩, ⟨2⟩] 1⟩]
    let moves : List (Operation Kind) := [.assign b true, .propagate, .assign y true]
    ∃ s t u, (State.new .standard).Accepts ops s ∧
      s.imply b ⟨List.replicate 4 1, xs, .atMost, 2⟩ = .ok (.ok (), t) ∧
      s.imply b ⟨List.replicate 4 1, xs.map Literal.complement, .atLeast, 4 - 2⟩ = .ok (.ok (), u) ∧
      (t.reaches (moves ++ [.propagate]) fun w => w.activeNames = ["GreaterOrEqual"]) = true ∧
      ∃ answers t₁ others u₁, t.run moves = .ok (answers, t₁) ∧ u.run moves = .ok (others, u₁) ∧
        answers.map Answer.isSuccess = others.map Answer.isSuccess ∧
        ∃ r t₂ q u₂, t₁.propagate = .ok (r, t₂) ∧ u₁.propagate = .ok (q, u₂) ∧
          (r = .ok () ↔ q = .ok ()) ∧
          (r = .ok () → t₂.domains.known = u₂.domains.known ∧ t₂.activeNames = u₂.activeNames) := by
  intro b y xs ops moves
  obtain ⟨s, run, checked⟩ := accepts_of_reaches (State.new .standard) ops (fun s =>
    (s.reaches [.imply b ⟨List.replicate 4 1, xs, .atMost, 2⟩] fun t =>
      t.reaches (moves ++ [.propagate]) fun w => w.activeNames = ["GreaterOrEqual"]) &&
    (s.reaches [.imply b ⟨List.replicate 4 1, xs.map Literal.complement, .atLeast, 4 - 2⟩] fun _ =>
      true) && decide (∀ op ∈ moves, Operation.IsMove s.domains op)) (by decide +kernel)
  obtain ⟨⟨one, other⟩, each⟩ := by simpa only [Bool.and_eq_true, decide_eq_true_eq] using checked
  obtain ⟨t, accepted, names⟩ := accepts_of_reaches s _ _ one
  obtain ⟨u, accepted', -⟩ := accepts_of_reaches s _ _ other
  have first := imply_of_accepts accepted
  have second := imply_of_accepts accepted'
  have ⟨_, ran, _⟩ := run
  exact ⟨s, t, u, run, first, second, names,
    agree_of_complemented ⟨.standard, leadsTo_of_run ran⟩ b xs 2 first second each⟩

end State
end PseudoBoolean
