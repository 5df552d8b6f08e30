import Mathlib.Algebra.Order.BigOperators.Group.List
import Mathlib.Algebra.Ring.Int.Defs
import PseudoBoolean.Proofs.Deliveries
import PseudoBoolean.Proofs.Hosting
import PseudoBoolean.Proofs.Merging

/-!
Which constraints are refused. The checks on the way of a constraint come to one list of numbers,
and the first of them that the limits do not admit is the answer. Checking the constants of the
propagators adds to the list only what is neither a bound of the sum nor between its bounds.
-/
namespace PseudoBoolean
open PartialValuation

namespace Limits
variable {limits : Limits} {location : Location} {v : Int} {vs ws us : List Int}

def verdict (limits : Limits) (location : Location) (vs : List Int) : Except ConstraintError Unit :=
  match vs.find? fun v => ¬ limits.Admits v with
  | none => .ok ()
  | some v => .error (.overflow v location)

theorem verdict_cons_of_admits (h : limits.Admits v) :
    limits.verdict location (v :: vs) = limits.verdict location vs := by
  simp [verdict, h]

theorem verdict_cons_of_not_admits (h : ¬ limits.Admits v) :
    limits.verdict location (v :: vs) = .error (.overflow v location) := by
  simp [verdict, h]

theorem verdict_cases (limits : Limits) (location : Location) (vs : List Int) :
    (∀ v ∈ vs, limits.Admits v) ∧ limits.verdict location vs = .ok () ∨
      ∃ v ∈ vs, ¬ limits.Admits v ∧ limits.verdict location vs = .error (.overflow v location) := by
  induction vs with
  | nil => exact .inl ⟨by simp, rfl⟩
  | cons v rest ih =>
    by_cases admitted : limits.Admits v
    · rw [verdict_cons_of_admits admitted]
      rcases ih with ⟨all, passed⟩ | ⟨u, member, refused⟩
      · exact .inl ⟨List.forall_mem_cons.2 ⟨admitted, all⟩, passed⟩
      · exact .inr ⟨u, List.mem_cons_of_mem v member, refused⟩
    · exact .inr ⟨v, List.mem_cons_self, admitted, verdict_cons_of_not_admits admitted⟩

theorem verdict_eq_ok_iff : limits.verdict location vs = .ok () ↔ ∀ v ∈ vs, limits.Admits v := by
  rcases verdict_cases limits location vs with ⟨all, passed⟩ | ⟨v, member, refused, given⟩
  · exact iff_of_true passed all
  · refine iff_of_false ?_ fun all => refused (all v member)
    rw [given]
    exact nofun

theorem verdict_append : limits.verdict location (vs ++ ws) =
    limits.verdict location vs >>= fun _ => limits.verdict location ws := by
  induction vs with
  | nil => rfl
  | cons v rest ih =>
    rw [List.cons_append]
    by_cases admitted : limits.Admits v
    · rw [verdict_cons_of_admits admitted, verdict_cons_of_admits admitted, ih]
    · rw [verdict_cons_of_not_admits admitted, verdict_cons_of_not_admits admitted]
      rfl

theorem verdict_append_congr
    (h : (∀ v ∈ vs, limits.Admits v) →
      limits.verdict location ws = limits.verdict location us) :
    limits.verdict location (vs ++ ws) = limits.verdict location (vs ++ us) := by
  rw [verdict_append, verdict_append]
  rcases verdict_cases limits location vs with ⟨all, passed⟩ | ⟨v, -, -, given⟩
  · rw [passed]
    exact h all
  · rw [given]
    rfl

theorem verdict_concat_of_admits (h : (∀ u ∈ vs, limits.Admits u) → limits.Admits v) :
    limits.verdict location (vs ++ [v]) = limits.verdict location vs := by
  rw [← List.append_nil vs, List.append_assoc]
  exact verdict_append_congr fun all => verdict_cons_of_admits (h (by simpa using all))

theorem Admits.between {a b : Int} (lower : limits.Admits a) (upper : limits.Admits b)
    (above : a ≤ v) (below : v ≤ b) : limits.Admits v := by
  obtain ⟨⟨first, -⟩, word, -⟩ := lower
  obtain ⟨⟨-, last⟩, -, wordLast⟩ := upper
  exact ⟨⟨by omega, by omega⟩, by omega, by omega⟩

section examines
variable {α β : Type}

/-- The computation fails exactly on the first of the numbers that is not admitted. -/
def Examines (limits : Limits) (location : Location) (vs : List Int)
    (x : Except ConstraintError α) : Prop :=
  (do let _ ← x) = limits.verdict location vs

theorem examines_pure (a : α) :
    limits.Examines location [] (pure a : Except ConstraintError α) := rfl

theorem examines_check (v : Int) : limits.Examines location [v] (limits.check location v) := by
  unfold Examines check
  by_cases admitted : limits.Admits v
  · rw [if_pos admitted, verdict_cons_of_admits admitted]
    rfl
  · rw [if_neg admitted, verdict_cons_of_not_admits admitted]
    rfl

theorem Examines.bind {x : Except ConstraintError α} {f : α → Except ConstraintError β}
    (first : limits.Examines location vs x)
    (later : ∀ a, x = .ok a → limits.Examines location ws (f a)) :
    limits.Examines location (vs ++ ws) (x >>= f) := by
  unfold Examines at first later ⊢
  rw [verdict_append, ← first]
  cases x with
  | error e => rfl
  | ok a => exact later a rfl

end examines
end Limits

namespace NormalSum
variable {n : NormalSum} {limits : Limits} {location : Location}

def bounds (n : NormalSum) : List Int :=
  [n.rhs - n.terms.foldr (max ·.1 0 + ·) 0, n.rhs - n.terms.foldr (min ·.1 0 + ·) 0]

def constants (n : NormalSum) : List Int :=
  match n.route with
  | .atLeast => [n.rhs + n.negatives.length]
  | .atMost => [n.positives.length - n.rhs]
  | .both => [n.rhs + n.negatives.length, n.positives.length - n.rhs]
  | .generic => n.terms.map (·.1) ++ [n.rhs]

theorem examines_checkBounds (n : NormalSum) (limits : Limits) (location : Location) :
    limits.Examines location n.bounds (n.checkBounds limits location) :=
  (Limits.examines_check _).bind fun _ _ => (Limits.examines_check _).bind fun _ _ =>
    Limits.examines_pure ()

theorem examines_weights (terms : List (Int × DomainId)) : limits.Examines location
    (terms.map (·.1)) (terms.mapM fun t => limits.check location t.1) := by
  induction terms with
  | nil => exact Limits.examines_pure []
  | cons t rest ih =>
    rw [List.mapM_cons, List.map_cons]
    have first : limits.Examines location [t.1] (limits.check location t.1) :=
      Limits.examines_check t.1
    rw [← List.append_nil (rest.map (·.1))]
    exact first.bind fun _ _ => ih.bind fun _ _ => Limits.examines_pure _

theorem examines_atLeast : limits.Examines location [n.rhs + n.negatives.length]
    (n.atLeast limits location) :=
  (Limits.examines_check _).bind fun _ _ => Limits.examines_pure _

theorem examines_atMost : limits.Examines location [n.positives.length - n.rhs]
    (n.atMost limits location) :=
  (Limits.examines_check _).bind fun _ _ => Limits.examines_pure _

theorem examines_weighted : limits.Examines location (n.terms.map (·.1) ++ [n.rhs])
    (n.weighted limits location) :=
  (examines_weights n.terms).bind fun _ _ => (Limits.examines_check n.rhs).bind fun _ _ =>
    Limits.examines_pure _

theorem examines_encode (n : NormalSum) (limits : Limits) (location : Location) :
    limits.Examines location n.constants (n.encode limits location) := by
  unfold encode constants
  cases n.route with
  | atLeast => exact examines_atLeast.bind fun _ _ => Limits.examines_pure _
  | atMost => exact examines_atMost.bind fun _ _ => Limits.examines_pure _
  | both =>
    exact examines_atLeast.bind fun _ _ => examines_atMost.bind fun _ _ => Limits.examines_pure _
  | generic =>
    rw [← List.append_nil (n.terms.map (·.1) ++ [n.rhs])]
    exact examines_weighted.bind fun _ _ => Limits.examines_pure _

theorem examines_ofConstraint {c : LinearConstraint} {s : Domains}
    {r : Except ConstraintError NormalSum} (sizes : c.checkSizes = .ok ())
    (h : ofConstraint c s limits location = .ok r) :
    limits.Examines location [c.rhs, c.residualRhs s.known] r := by
  have start : limits.Examines location [c.rhs] (limits.check location c.rhs) :=
    Limits.examines_check c.rhs
  unfold ofConstraint at h
  rw [sizes] at h
  cases bounded : limits.check location c.rhs with
  | error e =>
    rw [bounded] at h start
    obtain rfl := pure_eq_ok_iff.1 h
    exact start.bind (α := Int) (f := fun _ => Except.error e) nofun
  | ok rhs =>
    rw [bounded] at h start
    obtain rfl := (Limits.check_eq_ok_iff.1 bounded).2
    obtain ⟨residue, gathered, h⟩ := bind_eq_ok_iff.1 h
    obtain rfl := pure_eq_ok_iff.1 h
    have moved : residue.rhs = c.residualRhs s.known := Residue.rhs_of_gather gathered
    rw [← moved]
    have later : limits.Examines location [residue.rhs] (limits.check location residue.rhs) :=
      Limits.examines_check residue.rhs
    have rest := later.bind fun rhs _ => Limits.examines_pure (NormalSum.mk
      (residue.terms.filter fun t => t.1 ≠ 0) (c.relation.nonStrict rhs).1
      (c.relation.nonStrict rhs).2)
    have all := start.bind fun _ _ => rest
    exact all

end NormalSum

namespace LinearConstraint
variable {c : LinearConstraint} {known : PartialValuation}

def boundRhs (c : LinearConstraint) (known : PartialValuation) : Int :=
  (c.relation.nonStrict (c.residualRhs known)).2

def raising (c : LinearConstraint) (known : PartialValuation) : List DomainId :=
  (c.openDomains known).filter fun d => 0 < c.weightOn d

def lowering (c : LinearConstraint) (known : PartialValuation) : List DomainId :=
  (c.openDomains known).filter fun d => c.weightOn d < 0

def UnitOn (c : LinearConstraint) (known : PartialValuation) : Prop :=
  ∀ d ∈ c.openDomains known, c.weightOn d = 1 ∨ c.weightOn d = -1

instance (c : LinearConstraint) (known : PartialValuation) : Decidable (c.UnitOn known) :=
  inferInstanceAs (Decidable (∀ d ∈ c.openDomains known, c.weightOn d = 1 ∨ c.weightOn d = -1))

/-- The numbers on which the answer to a posting depends, in the order in which they are
    examined. -/
def examined (c : LinearConstraint) (known : PartialValuation) : List Int :=
  let r := c.boundRhs known
  [c.rhs, c.residualRhs known] ++
    if c.openDomains known = [] then [] else
      [r - ((c.raising known).map c.weightOn).sum,
        r + ((c.lowering known).map fun d => ((c.weightOn d).natAbs : Int)).sum] ++
      if c.UnitOn known then
        match c.relation with
        | .atMost | .less | .equal => [(c.raising known).length - r]
        | .notEqual => (c.openDomains known).map c.weightOn
        | .atLeast | .greater => []
      else (c.openDomains known).map c.weightOn

theorem greatest_normal (w : DomainId → Int) (ds : List DomainId) :
    (ds.map fun d => (w d, d)).foldr (max ·.1 0 + ·) 0 =
      ((ds.filter fun d => 0 < w d).map w).sum := by
  induction ds with
  | nil => rfl
  | cons d rest ih =>
    rw [List.map_cons, List.foldr_cons, ih]
    by_cases positive : 0 < w d
    · rw [List.filter_cons_of_pos (by simpa using positive), List.map_cons, List.sum_cons]
      omega
    · rw [List.filter_cons_of_neg (by simpa using positive)]
      omega

theorem least_normal (w : DomainId → Int) (ds : List DomainId) :
    (ds.map fun d => (w d, d)).foldr (min ·.1 0 + ·) 0 =
      -((ds.filter fun d => w d < 0).map fun d => ((w d).natAbs : Int)).sum := by
  induction ds with
  | nil => rfl
  | cons d rest ih =>
    rw [List.map_cons, List.foldr_cons, ih]
    by_cases negative : w d < 0
    · rw [List.filter_cons_of_pos (by simpa using negative), List.map_cons, List.sum_cons]
      omega
    · rw [List.filter_cons_of_neg (by simpa using negative)]
      omega

theorem bounds_normal : (c.normal known).bounds =
    [c.boundRhs known - ((c.raising known).map c.weightOn).sum,
      c.boundRhs known + ((c.lowering known).map fun d => ((c.weightOn d).natAbs : Int)).sum] := by
  unfold NormalSum.bounds normal raising lowering
  dsimp only
  rw [greatest_normal, least_normal, Int.sub_neg]
  rfl

theorem positives_normal : (c.normal known).positives = c.raising known := by
  simp [NormalSum.positives, normal, raising, List.filter_map, Function.comp_def]

theorem negatives_normal : (c.normal known).negatives = c.lowering known := by
  have split : ∀ d ∈ c.openDomains known,
      decide (c.weightOn d ≤ 0) = decide (c.weightOn d < 0) := by
    intro d member
    have nonzero := (mem_openDomains.1 member).2
    exact decide_eq_decide.2 (by omega)
  simp only [NormalSum.negatives, normal, lowering, List.filter_map, Function.comp_def, Int.not_lt,
    List.map_map, List.map_id', List.filter_congr split]

theorem hasUnitWeights_normal : (c.normal known).HasUnitWeights ↔ c.UnitOn known := by
  unfold NormalSum.HasUnitWeights UnitOn normal
  rw [List.forall_mem_map]
  refine forall₂_congr fun d _ => ?_
  dsimp only
  omega

theorem boundRhs_between :
    c.boundRhs known - ((c.raising known).map c.weightOn).sum ≤ c.boundRhs known ∧
      c.boundRhs known ≤ c.boundRhs known +
        ((c.lowering known).map fun d => ((c.weightOn d).natAbs : Int)).sum := by
  have up : 0 ≤ ((c.raising known).map c.weightOn).sum := by
    apply List.sum_nonneg
    intro w member
    obtain ⟨d, inside, rfl⟩ := List.mem_map.1 member
    exact Int.le_of_lt (of_decide_eq_true (List.mem_filter.1 inside).2)
  have down : 0 ≤ ((c.lowering known).map fun d => ((c.weightOn d).natAbs : Int)).sum := by
    apply List.sum_nonneg
    intro w member
    obtain ⟨d, inside, rfl⟩ := List.mem_map.1 member
    exact Int.natCast_nonneg _
  omega

theorem sum_lowering (unit : c.UnitOn known) :
    ((c.lowering known).map fun d => ((c.weightOn d).natAbs : Int)).sum =
      (c.lowering known).length := by
  have ones : ∀ d ∈ c.lowering known, ((c.weightOn d).natAbs : Int) = 1 := by
    intro d member
    have weight := unit d (List.mem_filter.1 member).1
    omega
  rw [List.map_congr_left ones]
  simp

theorem normal_terms_isEmpty : (c.normal known).terms.isEmpty = (c.openDomains known).isEmpty := by
  cases domains : c.openDomains known <;> simp [normal, domains]

theorem map_weights_normal :
    (c.normal known).terms.map (·.1) = (c.openDomains known).map c.weightOn := by
  simp [normal]

theorem verdict_normal (limits : Limits) (location : Location) :
    limits.verdict location ((c.normal known).bounds ++ (c.normal known).constants) =
      limits.verdict location ((c.normal known).bounds ++
        if c.UnitOn known then
          match c.relation with
          | .atMost | .less | .equal => [(c.raising known).length - c.boundRhs known]
          | .notEqual => (c.openDomains known).map c.weightOn
          | .atLeast | .greater => []
        else (c.openDomains known).map c.weightOn) := by
  apply Limits.verdict_append_congr
  intro admitted
  rw [bounds_normal] at admitted
  have low := admitted _ List.mem_cons_self
  have high := admitted _ (List.mem_cons_of_mem _ List.mem_cons_self)
  have sum : limits.verdict location ((c.openDomains known).map c.weightOn ++ [c.boundRhs known]) =
      limits.verdict location ((c.openDomains known).map c.weightOn) :=
    Limits.verdict_concat_of_admits fun _ =>
      low.between high boundRhs_between.1 boundRhs_between.2
  have rhs : (c.normal known).rhs = c.boundRhs known := rfl
  unfold NormalSum.constants NormalSum.route
  simp only [hasUnitWeights_normal, map_weights_normal, positives_normal, negatives_normal, rhs]
  by_cases unit : c.UnitOn known
  · rw [sum_lowering unit] at high
    have count : ∀ vs, limits.verdict location
        ((c.boundRhs known + (c.lowering known).length) :: vs) = limits.verdict location vs :=
      fun _ => Limits.verdict_cons_of_admits high
    simp only [if_pos unit]
    cases relation : c.relation <;>
      simp only [normal, relation, Relation.nonStrict, count, sum]
  · simp only [if_neg unit, sum]

theorem verdict_examined {limits : Limits} {location : Location}
    (first : limits.verdict location [c.rhs, c.residualRhs known] = .ok ()) :
    limits.verdict location (c.examined known) =
      if (c.normal known).terms.isEmpty then .ok ()
      else limits.verdict location ((c.normal known).bounds ++ (c.normal known).constants) := by
  have isEmpty : (c.normal known).terms.isEmpty = true ↔ c.openDomains known = [] := by
    rw [normal_terms_isEmpty, List.isEmpty_iff]
  unfold examined
  dsimp only
  rw [Limits.verdict_append, first]
  by_cases closed : c.openDomains known = []
  · rw [if_pos closed, if_pos (isEmpty.2 closed)]
    rfl
  · rw [if_neg closed, if_neg fun noTerms => closed (isEmpty.1 noTerms), verdict_normal,
      bounds_normal]
    rfl

def Overflows (c : LinearConstraint) (limits : Limits) (known : PartialValuation) : Prop :=
  let r := c.boundRhs known
  ¬ limits.Admits c.rhs ∨ ¬ limits.Admits (c.residualRhs known) ∨
    (∃ d, known d = none ∧ c.weightOn d ≠ 0) ∧
      (¬ limits.Admits (r - ((c.raising known).map c.weightOn).sum) ∨
        ¬ limits.Admits (r + ((c.lowering known).map fun d => ((c.weightOn d).natAbs : Int)).sum) ∨
        (c.UnitOn known ∧ c.relation ∈ [.atMost, .less, .equal] ∧
          ¬ limits.Admits ((c.raising known).length - r)) ∨
        ((c.relation = .notEqual ∨ ¬ c.UnitOn known) ∧
          ∃ d, known d = none ∧ c.weightOn d ≠ 0 ∧ ¬ limits.Admits (c.weightOn d)))

theorem overflows_iff {limits : Limits} :
    c.Overflows limits known ↔ ∃ v ∈ c.examined known, ¬ limits.Admits v := by
  have unresolved : (∃ d, known d = none ∧ c.weightOn d ≠ 0) ↔ c.openDomains known ≠ [] := by
    simp only [← mem_openDomains]
    exact ⟨fun found => found.elim fun _ => List.ne_nil_of_mem, List.exists_mem_of_ne_nil _⟩
  have heavy : (∃ d, known d = none ∧ c.weightOn d ≠ 0 ∧ ¬ limits.Admits (c.weightOn d)) ↔
      ∃ v ∈ (c.openDomains known).map c.weightOn, ¬ limits.Admits v := by
    simp [mem_openDomains, and_assoc]
  unfold Overflows examined
  simp only [unresolved, heavy]
  by_cases closed : c.openDomains known = []
  · simp [closed]
  by_cases unit : c.UnitOn known
  · cases c.relation <;> simp [closed, unit]
  · simp [closed, unit]

structure AnsweredBy (c : LinearConstraint) (limits : Limits) (known : PartialValuation)
    (location : Location) (r : Except ConstraintError Unit) : Prop where
  refused : (∃ v, r = .error (.overflow v location)) ↔ c.Overflows limits known
  accepted : r = .ok () ↔ ¬ c.Overflows limits known
  /-- The number that is reported is the first that is not admitted. -/
  reported : ∀ v, r = .error (.overflow v location) ↔
    (c.examined known).find? (fun v => ¬ limits.Admits v) = some v

theorem answeredBy_verdict (c : LinearConstraint) (limits : Limits) (known : PartialValuation)
    (location : Location) :
    c.AnsweredBy limits known location (limits.verdict location (c.examined known)) := by
  have first : ∀ v, limits.verdict location (c.examined known) = .error (.overflow v location) ↔
      (c.examined known).find? (fun v => ¬ limits.Admits v) = some v := by
    intro v
    unfold Limits.verdict
    cases (c.examined known).find? fun v => ¬ limits.Admits v <;> simp
  refine ⟨?_, ?_, first⟩
  · rw [overflows_iff]
    simp only [first, ← Option.isSome_iff_exists, List.find?_isSome, decide_eq_true_eq]
  · rw [overflows_iff, Limits.verdict_eq_ok_iff]
    simp

end LinearConstraint

namespace State
variable {κ : Type} [PropagatorKinds κ] [HoldsStandard κ] {s t : State κ} {c : LinearConstraint}
  {r : Except ConstraintError Unit}

omit [HoldsStandard κ] in
theorem remark_limits (s : State κ) (r : Remark) : (s.remark r).limits = s.limits := rfl

/-- Whatever kinds of propagator there are, the answer to a posting is read off the numbers. -/
theorem verdict_of_enforce {control : Option Literal} {location : Location}
    (sizes : c.checkSizes = .ok ()) (h : s.enforce control location c = .ok (r, t)) :
    r = s.limits.verdict location (c.examined s.domains.known) := by
  obtain ⟨normal, normalised, h⟩ := bind_eq_ok_iff.1 h
  have start := NormalSum.examines_ofConstraint sizes normalised
  unfold Limits.Examines at start
  cases normal with
  | error e =>
    obtain ⟨rfl, -⟩ := pure_pair_eq_ok_iff.1 h
    unfold LinearConstraint.examined
    dsimp only
    rw [Limits.verdict_append, ← start]
    rfl
  | ok n =>
    obtain rfl := NormalSum.eq_normal_of_ofConstraint normalised
    rw [LinearConstraint.verdict_examined start.symm]
    dsimp only at h
    split at h
    · next closed =>
      rw [if_pos closed]
      split at h
      · exact (pure_pair_eq_ok_iff.1 h).1.symm
      · obtain ⟨u, -, h⟩ := bind_eq_ok_iff.1 h
        exact (pure_pair_eq_ok_iff.1 h).1.symm
    · next unresolved =>
      rw [if_neg unresolved]
      have later := (NormalSum.examines_checkBounds (c.normal s.domains.known) s.limits
        location).bind fun _ _ => NormalSum.examines_encode (c.normal s.domains.known) s.limits
        location
      unfold Limits.Examines at later
      rw [← later]
      cases bounds : (c.normal s.domains.known).checkBounds s.limits location with
      | error e =>
        rw [bounds] at h
        exact (pure_pair_eq_ok_iff.1 h).1.symm
      | ok _ =>
      rw [bounds] at h
      dsimp only at h
      cases encoded : (c.normal s.domains.known).encode s.limits location with
      | error e =>
        simp only [remark_limits, encoded] at h
        exact (pure_pair_eq_ok_iff.1 h).1.symm
      | ok encoding =>
        simp only [remark_limits, encoded] at h
        obtain ⟨u, -, h⟩ := bind_eq_ok_iff.1 h
        exact (pure_pair_eq_ok_iff.1 h).1.symm

theorem verdict_of_post (sound : s.isFailed = false) (sizes : c.checkSizes = .ok ())
    (h : s.post c = .ok (r, t)) : r = s.limits.verdict .linear (c.examined s.domains.known) := by
  unfold post at h
  rw [sizes] at h
  dsimp only at h
  rw [if_neg (Bool.eq_false_iff.1 sound)] at h
  exact verdict_of_enforce sizes h

theorem verdict_of_imply {control : Literal} (sound : s.isFailed = false)
    (sizes : c.checkSizes = .ok ()) (free : s.value control = .ok none)
    (h : s.imply control c = .ok (r, t)) :
    r = s.limits.verdict .implyLinear (c.examined s.domains.known) := by
  unfold imply at h
  rw [sizes] at h
  dsimp only at h
  rw [if_neg (Bool.eq_false_iff.1 sound), free] at h
  exact verdict_of_enforce sizes h

theorem Reachable.sturdy (h : s.Reachable) : s.Sturdy := by
  obtain ⟨l, recorded⟩ := h.orderly.recorded
  exact ⟨recorded.tracked, h.orderly.within⟩

/-- A posting in a sound state comes to an answer. The constraint overflows exactly if one of its
    numbers is not admitted, the first of which is reported; otherwise it is accepted. So it is
    under a control without a value. -/
theorem answered_of_posting [EmbedsStandard κ] (reachable : s.Reachable)
    (sound : s.isFailed = false) (sizes : c.coefficients.length = c.literals.length)
    (has : ∀ l ∈ c.literals, s.domains.Has l) :
    (∃ r t, s.post c = .ok (r, t) ∧ c.AnsweredBy s.limits s.domains.known .linear r) ∧
      ∀ control, s.value control = .ok none → ∃ r t, s.imply control c = .ok (r, t) ∧
        c.AnsweredBy s.limits s.domains.known .implyLinear r := by
  have checked : c.checkSizes = .ok () := if_pos sizes
  constructor
  · obtain ⟨⟨r, t⟩, posted⟩ := returns_post reachable.sturdy has
    refine ⟨r, t, posted, ?_⟩
    rw [verdict_of_post sound checked posted]
    exact c.answeredBy_verdict _ _ _
  · intro control free
    obtain ⟨⟨r, t⟩, posted⟩ := returns_imply reachable.sturdy (Domains.has_of_read free) has
    refine ⟨r, t, posted, ?_⟩
    rw [verdict_of_imply sound checked free posted]
    exact c.answeredBy_verdict _ _ _

/-- An equation in which one literal is true, one occurs twice and one is negated. Both bounds are
    admitted, and so is all that the first of its counts needs; the second needs five. -/
theorem answered_of_posting_equation :
    let x : Literal := .positive ⟨0⟩
    let y : Literal := .positive ⟨1⟩
    let z : Literal := .positive ⟨2⟩
    let b : Literal := .positive ⟨3⟩
    let c : LinearConstraint := ⟨[2, 2, -1, 1], [x, y, y, z.complement], .equal, -1⟩
    ∃ s : State Standard.Kind, (State.new ⟨-5, 3⟩).Accepts
        [.newLiteral, .newLiteral, .newLiteral, .newLiteral, .assign x true] s ∧
      (∃ t, s.post c = .ok (.error (.overflow 5 .linear), t)) ∧
      ∃ t, s.imply b c = .ok (.error (.overflow 5 .implyLinear), t) := by
  intro x y z b c
  obtain ⟨s, run, given⟩ := accepts_of_reaches (State.new ⟨-5, 3⟩)
    [.newLiteral, .newLiteral, .newLiteral, .newLiteral, .assign x true]
    (fun s => decide (s.isFailed = false ∧ (∀ l ∈ c.literals, s.domains.Has l) ∧
      s.value b = .ok none ∧
      (c.examined s.domains.known).find? (fun v => ¬ s.limits.Admits v) = some 5))
    (by decide +kernel)
  obtain ⟨sound, has, free, first⟩ := of_decide_eq_true given
  have ⟨_, ran, _⟩ := run
  obtain ⟨⟨r, t, posted, answered⟩, implied⟩ :=
    answered_of_posting ⟨⟨-5, 3⟩, leadsTo_of_run ran⟩ sound rfl has
  obtain ⟨r', u, posted', answered'⟩ := implied b free
  rw [(answered.reported 5).2 first] at posted
  rw [(answered'.reported 5).2 first] at posted'
  exact ⟨s, run, ⟨t, posted⟩, u, posted'⟩

end State
end PseudoBoolean
