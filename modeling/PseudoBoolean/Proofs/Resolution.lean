import PseudoBoolean.Proofs.Exactness
import PseudoBoolean.Proofs.Refusals

/-!
What is settled when an inequality with unit weights is posted. The constraint comes to one count of
open literals, and its threshold says how many of the completions satisfy it: all of them at zero,
none beyond the number of literals, and one valuation of the literals where the two are equal. So
what a posting settles at once, and what it leaves to a propagator, is read off the completions.
-/
namespace PseudoBoolean
open PartialValuation

namespace LinearConstraint

def Entailed (c : LinearConstraint) (s : Domains) : Prop :=
  ∀ v : Valuation, v.Completes s → c.SatisfiedBy v

def Solvable (c : LinearConstraint) (s : Domains) : Prop :=
  ∃ v : Valuation, v.Completes s ∧ c.SatisfiedBy v

theorem Entailed.solvable {c : LinearConstraint} {s : Domains} (h : c.Entailed s) : c.Solvable s :=
  ⟨s.known.filled, Domains.completes_filled s, h _ (Domains.completes_filled s)⟩

/-- The solutions agree with `v` on the domains that still matter. -/
structure Determines (c : LinearConstraint) (s : Domains) (v : Valuation) : Prop where
  completes : v.Completes s
  satisfied : c.SatisfiedBy v
  only : ∀ w : Valuation, w.Completes s → c.SatisfiedBy w →
    ∀ d ∈ c.openDomains s.known, w d = v d

end LinearConstraint

structure AtLeast.Blueprint.Counts (b : AtLeast.Blueprint Literal) (c : LinearConstraint)
    (s : Domains) : Prop where
  domains : (b.vars.map (·.domain)).Perm (c.openDomains s.known)
  solutions : ∀ v : Valuation, v.Completes s → (c.SatisfiedBy v ↔ b.SatisfiedBy v)
  word : wordMin ≤ b.threshold

namespace AtLeast.Blueprint.Counts
variable {b : AtLeast.Blueprint Literal} {c : LinearConstraint} {s : Domains}

theorem free (counts : b.Counts c s) {x : Literal} (member : x ∈ b.vars) :
    s.known x.domain = none :=
  (LinearConstraint.mem_openDomains.1
    (counts.domains.mem_iff.1 (List.mem_map_of_mem member))).1

theorem distinct (counts : b.Counts c s) : (b.vars.map (·.domain)).Nodup :=
  counts.domains.symm.nodup (c.nodup_openDomains s.known)

theorem separate_eq (counts : b.Counts c s) {rest : List Literal} {n : Nat}
    (h : s.separate b.vars = .ok (rest, n)) : rest = b.vars ∧ n = 0 := by
  obtain ⟨rfl, rfl⟩ := Domains.separate_eq h
  have unread : ∀ x ∈ b.vars, s.known.read x = none :=
    fun x member => read_eq_none_iff.2 (counts.free member)
  constructor
  · apply List.filter_eq_self.2
    intro x member
    rw [unread x member]
    rfl
  · apply List.countP_eq_zero.2
    intro x member
    rw [unread x member]
    simp

theorem saturatingSub_zero (counts : b.Counts c s) :
    saturatingSub b.threshold (0 : Nat) = b.threshold := by
  have word := counts.word
  unfold saturatingSub
  omega

theorem exists_completion (counts : b.Counts c s) {e : PartialValuation} (above : e.Extends s.known)
    (value : Bool) :
    ∃ v : Valuation, v.Completes s ∧ ∀ x ∈ b.vars, v.eval x = (e.read x).getD value := by
  have distinct : Distinct (b.vars.map ((1 : Int), ·)) := by
    unfold Distinct
    rw [List.map_map]
    exact counts.distinct
  obtain ⟨v, higher, chosen⟩ := exists_choice distinct e fun _ => value
  refine ⟨v, Domains.completes_iff.2 (extends_trans higher above), ?_⟩
  exact fun x member => chosen (1, x) (List.mem_map_of_mem member)

theorem exists_constant (counts : b.Counts c s) (value : Bool) :
    ∃ v : Valuation, v.Completes s ∧ ∀ x ∈ b.vars, v.eval x = value := by
  obtain ⟨v, completes, chosen⟩ := counts.exists_completion (extends_refl _) value
  refine ⟨v, completes, ?_⟩
  intro x member
  rw [chosen x member, read_eq_none_iff.2 (counts.free member)]
  rfl

theorem entailed_iff (counts : b.Counts c s) : c.Entailed s ↔ b.threshold ≤ 0 := by
  constructor
  · intro all
    obtain ⟨v, completes, allFalse⟩ := counts.exists_constant false
    have never : v.numTrue b.vars = 0 :=
      List.countP_eq_zero.2 fun x member => by simp [allFalse x member]
    have enough : b.threshold ≤ v.numTrue b.vars :=
      (counts.solutions v completes).1 (all v completes)
    omega
  · intro reached v completes
    refine (counts.solutions v completes).2 ?_
    unfold SatisfiedBy
    omega

theorem solvable_iff (counts : b.Counts c s) : c.Solvable s ↔ b.threshold ≤ b.vars.length := by
  constructor
  · intro ⟨v, completes, satisfied⟩
    have enough : b.threshold ≤ v.numTrue b.vars := (counts.solutions v completes).1 satisfied
    have few : v.numTrue b.vars ≤ b.vars.length := List.countP_le_length
    omega
  · intro room
    obtain ⟨v, completes, always⟩ := counts.exists_constant true
    have every : v.numTrue b.vars = b.vars.length := List.countP_eq_length.2 always
    refine ⟨v, completes, (counts.solutions v completes).2 ?_⟩
    unfold SatisfiedBy
    omega

theorem eval_of_tight (counts : b.Counts c s) (tight : b.threshold = b.vars.length)
    {v : Valuation} (completes : v.Completes s) (satisfied : c.SatisfiedBy v) :
    ∀ x ∈ b.vars, v.eval x = true := by
  have enough : b.threshold ≤ v.numTrue b.vars := (counts.solutions v completes).1 satisfied
  have few : v.numTrue b.vars ≤ b.vars.length := List.countP_le_length
  have every : b.vars.countP v.eval = b.vars.length := by
    change v.numTrue b.vars = _
    omega
  exact List.countP_eq_length.1 every

theorem determines_of_tight (counts : b.Counts c s) (tight : b.threshold = b.vars.length) :
    ∃ v, c.Determines s v := by
  obtain ⟨v, completes, satisfied⟩ := counts.solvable_iff.2 (Int.le_of_eq tight)
  refine ⟨v, completes, satisfied, ?_⟩
  intro w completes' satisfied' d member
  obtain ⟨x, inside, rfl⟩ := List.mem_map.1 (counts.domains.mem_iff.2 member)
  have first := counts.eval_of_tight tight completes satisfied x inside
  have second := counts.eval_of_tight tight completes' satisfied' x inside
  exact Literal.view_inj.1 (second.trans first.symm)

theorem exists_almost_all (counts : b.Counts c s) {x : Literal} (member : x ∈ b.vars) :
    ∃ v : Valuation, v.Completes s ∧ v.eval x = false ∧ b.vars.length ≤ v.numTrue b.vars + 1 := by
  have above : (s.known.learnAs x false).Extends s.known := extends_learn (counts.free member)
  obtain ⟨v, completes, chosen⟩ := counts.exists_completion above true
  refine ⟨v, completes, ?_, ?_⟩
  · rw [chosen x member, read_learnAs]
    rfl
  -- all literals but `x` can be true
  · have falseOnly : ∀ y ∈ b.vars, (!v.eval y) = true → (y == x) = true := by
      intro y inside isFalse
      by_contra other
      have apart : y.domain ≠ x.domain := fun same =>
        other (beq_iff_eq.2 (List.inj_on_of_nodup_map counts.distinct inside member same))
      rw [chosen y inside, learnAs, read_learn_of_ne apart,
        read_eq_none_iff.2 (counts.free inside)] at isFalse
      cases isFalse
    have total := List.length_eq_countP_add_countP v.eval (l := b.vars)
    have one := List.countP_mono_left falseOnly
    have once : b.vars.count x ≤ 1 := List.nodup_iff_count_le_one.1 counts.distinct.of_map x
    have flipped : (b.vars.countP fun y => decide ¬ v.eval y = true) =
        b.vars.countP fun y => !v.eval y := by simp
    change b.vars.length ≤ b.vars.countP v.eval + 1
    rw [List.count] at once
    omega

/-- Where fewer literals have to be true than there are, more than one valuation of them will do. -/
theorem tight_of_determines (counts : b.Counts c s) (room : b.threshold ≤ b.vars.length)
    (undecided : 0 < b.threshold) {v : Valuation} (determines : c.Determines s v) :
    b.threshold = b.vars.length := by
  by_contra loose
  obtain ⟨x, member⟩ : ∃ x, x ∈ b.vars := by
    apply List.exists_mem_of_length_pos
    omega
  have inside : x.domain ∈ c.openDomains s.known :=
    counts.domains.mem_iff.1 (List.mem_map_of_mem member)
  obtain ⟨u, completes, always⟩ := counts.exists_constant true
  obtain ⟨w, completes', missing, most⟩ := counts.exists_almost_all member
  have every : u.numTrue b.vars = b.vars.length := List.countP_eq_length.2 always
  have first : c.SatisfiedBy u := by
    refine (counts.solutions u completes).2 ?_
    unfold SatisfiedBy
    omega
  have second : c.SatisfiedBy w := by
    refine (counts.solutions w completes').2 ?_
    unfold SatisfiedBy
    omega
  have same : w x.domain = u x.domain :=
    (determines.only w completes' second _ inside).trans
      (determines.only u completes first _ inside).symm
  have agree : w.eval x = u.eval x := Literal.view_inj.2 same
  rw [missing, always x member] at agree
  cases agree

end AtLeast.Blueprint.Counts

namespace NormalSum
variable {c : LinearConstraint} {s : Domains} {n : NormalSum} {limits : Limits}
  {location : Location}

theorem domains_literals {f g : DomainId → Literal}
    (domain : ∀ d, (f d).domain = d ∧ (g d).domain = d) :
    ((n.literals f g).map (·.domain)).Perm (n.terms.map (·.2)) := by
  have first : ∀ ds : List DomainId, (ds.map f).map (·.domain) = ds := by
    intro ds
    rw [List.map_map]
    exact (List.map_congr_left fun d _ => (domain d).1).trans (List.map_id ds)
  have second : ∀ ds : List DomainId, (ds.map g).map (·.domain) = ds := by
    intro ds
    rw [List.map_map]
    exact (List.map_congr_left fun d _ => (domain d).2).trans (List.map_id ds)
  rw [literals, List.map_append, first, second, positives, negatives, ← List.map_append]
  apply List.Perm.map
  have split := List.filter_append_perm (fun t : Int × DomainId => decide (0 < t.1)) n.terms
  simpa only [decide_not] using split

theorem shape_of_literals {f g : DomainId → Literal} {v : Int} {b : AtLeast.Blueprint Literal}
    (domain : ∀ d, (f d).domain = d ∧ (g d).domain = d)
    (h : (limits.check location v >>= fun threshold =>
      pure ⟨n.literals f g, threshold⟩) = .ok b) :
    (b.vars.map (·.domain)).Perm (n.terms.map (·.2)) ∧ limits.Admits b.threshold := by
  obtain ⟨threshold, checked, made⟩ := bind_eq_ok_iff.1 h
  obtain ⟨admitted, rfl⟩ := Limits.check_eq_ok_iff.1 checked
  rw [← pure_eq_ok_iff.1 made]
  exact ⟨domains_literals domain, admitted⟩

theorem counts_of_encode (inequality : c.relation.IsInequality) (unit : c.UnitOn s.known)
    (normalised : ofConstraint c s limits location = .ok (.ok n)) {encoding : Encoding}
    (h : n.encode limits location = .ok encoding) :
    ∃ b : AtLeast.Blueprint Literal, encoding = .counts [b] ∧ b.Counts c s := by
  have solutions := fun v => satisfiedBy_iff_of_ofConstraint (v := v) normalised
  obtain rfl := eq_normal_of_ofConstraint normalised
  have units := LinearConstraint.hasUnitWeights_normal.2 unit
  have domains : (c.normal s.known).terms.map (·.2) = c.openDomains s.known := by
    rw [LinearConstraint.normal, List.map_map]
    exact List.map_id' _
  unfold encode route at h
  rw [if_pos units] at h
  rcases inequality.nonStrict (c.residualRhs s.known) with relation | relation
  · replace relation : (c.normal s.known).relation = .atMost := relation
    rw [relation] at h
    obtain ⟨b, made, h⟩ := bind_eq_ok_iff.1 h
    obtain ⟨shape, admitted⟩ := shape_of_literals (fun d => ⟨rfl, rfl⟩) made
    refine ⟨b, (pure_eq_ok_iff.1 h).symm, domains ▸ shape, ?_, admitted.2.1⟩
    intro v completes
    rw [solutions v completes, atMost_satisfiedBy units made, SatisfiedBy, relation]
    rfl
  · replace relation : (c.normal s.known).relation = .atLeast := relation
    rw [relation] at h
    obtain ⟨b, made, h⟩ := bind_eq_ok_iff.1 h
    obtain ⟨shape, admitted⟩ := shape_of_literals (fun d => ⟨rfl, rfl⟩) made
    refine ⟨b, (pure_eq_ok_iff.1 h).symm, domains ▸ shape, ?_, admitted.2.1⟩
    intro v completes
    rw [solutions v completes, atLeast_satisfiedBy units made, SatisfiedBy, relation]
    rfl

end NormalSum

namespace State
variable {κ : Type} [PropagatorKinds κ] {s t : State κ}

section fixings
variable {x : Literal} {xs : List Literal} {v : Bool}

theorem fixAtPost_of_free (sound : s.isFailed = false) (free : s.domains.known.read x = none)
    (h : s.fixAtPost x v = .ok t) : ∃ domains, s.domains.fixVariable x v = .ok (.changed, domains) ∧
      domains.known = s.domains.known.learnAs x v ∧ t = { s with domains } := by
  unfold fixAtPost at h
  rw [if_neg (Bool.eq_false_iff.1 sound)] at h
  obtain ⟨⟨fixing, domains⟩, fixed, h⟩ := bind_eq_ok_iff.1 h
  have unknown := read_eq_none_iff.1 free
  rcases Domains.fix_cases fixed with ⟨rfl, -, learnt, -⟩ | ⟨-, value, -⟩ | ⟨-, value, -⟩
  · exact ⟨domains, fixed, learnt, (pure_eq_ok_iff.1 h).symm⟩
  · rw [unknown] at value
    cases value
  · rw [unknown] at value
    cases value

structure FixesAll (s : State κ) (xs : List Literal) (v : Bool) (t : State κ) : Prop where
  same : t = { s with domains := t.domains }
  fixings : s.domains.LeadsTo t.domains
  fixed : ∀ x ∈ xs, t.domains.known.read x = some v
  others : ∀ d, d ∉ xs.map (·.domain) → t.domains.known d = s.domains.known d

theorem fixesAll_of_foldlM (sound : s.isFailed = false) (distinct : (xs.map (·.domain)).Nodup)
    (free : ∀ x ∈ xs, s.domains.known.read x = none)
    (h : xs.foldlM (fixAtPost · · v) s = .ok t) : s.FixesAll xs v t := by
  induction xs generalizing s with
  | nil =>
    obtain rfl := pure_eq_ok_iff.1 h
    exact ⟨rfl, .refl _, by simp, fun _ _ => rfl⟩
  | cons x rest ih =>
    rw [List.foldlM_cons] at h
    obtain ⟨u, first, h⟩ := bind_eq_ok_iff.1 h
    obtain ⟨new, later⟩ := List.nodup_cons.1 distinct
    obtain ⟨domains, fixed, learnt, rfl⟩ :=
      fixAtPost_of_free sound (free x List.mem_cons_self) first
    have still : ∀ y ∈ rest, domains.known.read y = none := by
      intro y member
      have apart : y.domain ≠ x.domain := fun same => new (List.mem_map.2 ⟨y, member, same⟩)
      rw [learnt, learnAs, read_learn_of_ne apart]
      exact free y (List.mem_cons_of_mem x member)
    have left := ih (s := { s with domains }) sound later still h
    refine ⟨left.same, .fix fixed left.fixings, List.forall_mem_cons.2 ⟨?_, left.fixed⟩, ?_⟩
    · refine read_of_extends left.fixings.extends ?_
      rw [learnt]
      exact read_learnAs _ x v
    · intro d absent
      obtain ⟨other, outside⟩ := not_or.1 (List.mem_cons.not.1 absent)
      rw [left.others d outside, learnt]
      exact if_neg other

end fixings

section outcomes
variable [HoldsStandard κ]

/-- One propagator was added, and nothing else changed but the journal. -/
def AddsOnly (s : State κ) (p : AnyPropagator κ) (t : State κ) : Prop :=
  ∃ u b id registrations, s.SameButJournal u ∧ u.Added b id p registrations t

variable [EmbedsStandard κ]

/-- What posting a constraint makes of a state, by how many of the completions satisfy it. -/
structure Resolves (s : State κ) (c : LinearConstraint) (t : State κ) : Prop where
  entailed : c.Entailed s.domains → s.SameButJournal t
  unsolvable : ¬ c.Solvable s.domains → (s.fail .infeasibleConstraint).SameButJournal t
  determined : ¬ c.Entailed s.domains → ∀ v, c.Determines s.domains v →
    State.SameButJournal { s with domains := t.domains } t ∧ s.domains.LeadsTo t.domains ∧
      ∀ d, t.domains.known d =
        if d ∈ c.openDomains s.domains.known then some (v d) else s.domains.known d
  otherwise : ¬ c.Entailed s.domains → c.Solvable s.domains → (¬ ∃ v, c.Determines s.domains v) →
    ∃ m : AtLeast Literal,
      s.AddsOnly (EmbedsStandard.member ⟨Standard.Kind.atLeast .literals, m⟩) t ∧
        (m.unfixed.toList.map (·.domain)).Perm (c.openDomains s.domains.known) ∧
        ∀ v : Valuation, v.Completes s.domains →
          (c.SatisfiedBy v ↔ m.threshold ≤ v.numTrue m.unfixed.toList)

structure ResolvesUnder (s : State κ) (control : Literal) (c : LinearConstraint) (t : State κ) :
    Prop where
  entailed : c.Entailed s.domains → s.SameButJournal t
  unsolvable : ¬ c.Solvable s.domains →
    ∃ domains, s.domains.fixVariable control false = .ok (.changed, domains) ∧
      State.SameButJournal { s with domains } t
  otherwise : ¬ c.Entailed s.domains → c.Solvable s.domains →
    ∃ m : ImpliedAtLeast Literal,
      s.AddsOnly (EmbedsStandard.member ⟨Standard.Kind.impliedAtLeast .literals, m⟩) t ∧
        m.control = control ∧
        (m.unfixed.toList.map (·.domain)).Perm (c.openDomains s.domains.known) ∧
        ∀ v : Valuation, v.Completes s.domains →
          (c.SatisfiedBy v ↔ m.threshold ≤ v.numTrue m.unfixed.toList)

variable {c : LinearConstraint} {control : Literal}

theorem Resolves.of_entailed (entailed : c.Entailed s.domains) (same : s.SameButJournal t) :
    s.Resolves c t :=
  ⟨fun _ => same, fun unsolvable => absurd entailed.solvable unsolvable,
    fun undecided => absurd entailed undecided, fun undecided => absurd entailed undecided⟩

theorem Resolves.of_unsolvable (unsolvable : ¬ c.Solvable s.domains)
    (same : (s.fail .infeasibleConstraint).SameButJournal t) : s.Resolves c t :=
  ⟨fun entailed => absurd entailed.solvable unsolvable, fun _ => same,
    fun _ v determines => absurd ⟨v, determines.completes, determines.satisfied⟩ unsolvable,
    fun _ solvable => absurd solvable unsolvable⟩

theorem ResolvesUnder.of_entailed (entailed : c.Entailed s.domains) (same : s.SameButJournal t) :
    s.ResolvesUnder control c t :=
  ⟨fun _ => same, fun unsolvable => absurd entailed.solvable unsolvable,
    fun undecided => absurd entailed undecided⟩

theorem ResolvesUnder.of_unsolvable (unsolvable : ¬ c.Solvable s.domains)
    (rejected : ∃ domains, s.domains.fixVariable control false = .ok (.changed, domains) ∧
      State.SameButJournal { s with domains } t) : s.ResolvesUnder control c t :=
  ⟨fun entailed => absurd entailed.solvable unsolvable, fun _ => rejected,
    fun _ solvable => absurd solvable unsolvable⟩

omit [HoldsStandard κ] [EmbedsStandard κ] in
theorem sameButJournal_failAtPost {r : Remark} {i : Inconsistency} (sound : s.isFailed = false) :
    (s.fail i).SameButJournal ((s.remark r).failAtPost i) := by
  unfold failAtPost
  rw [if_neg (show (s.remark r).isFailed ≠ true from Bool.eq_false_iff.1 sound)]
  exact ⟨_, rfl⟩

theorem addsOnly_of_addStandard {b : AnyBlueprint Standard.Kind} {p : AnyPropagator Standard.Kind}
    {r : List Registration} (created : b.create s.domains = .ok (p, r))
    (h : s.addStandard b = .ok t) :
    s.AddsOnly (EmbedsStandard.member p) t := by
  obtain ⟨⟨id, u⟩, done, h⟩ := bind_eq_ok_iff.1 h
  obtain rfl := pure_eq_ok_iff.1 h
  obtain ⟨q, others, added⟩ := added_addPropagator done
  have made := added.created
  rw [EmbedsStandard.create_eq, created] at made
  cases made
  exact ⟨s, _, id, _, ⟨s.journal, rfl⟩, added⟩

section counts
variable {b : AtLeast.Blueprint Literal} (counts : b.Counts c s.domains)
include counts

theorem resolves_of_tight (sound : s.isFailed = false) (undecided : 0 < b.threshold)
    (tight : b.threshold = b.vars.length)
    (h : b.vars.foldlM (fixAtPost · · true) s = .ok t) : s.Resolves c t := by
  have unread : ∀ x ∈ b.vars, s.domains.known.read x = none :=
    fun x member => read_eq_none_iff.2 (counts.free member)
  have fixes := fixesAll_of_foldlM sound counts.distinct unread h
  refine ⟨fun entailed => ?_, fun unsolvable => ?_, fun _ v determines => ?_, fun _ _ loose => ?_⟩
  · have reached := counts.entailed_iff.1 entailed
    omega
  · exact absurd (counts.solvable_iff.2 (Int.le_of_eq tight)) unsolvable
  · refine ⟨⟨s.journal, fixes.same⟩, fixes.fixings, fun d => ?_⟩
    by_cases member : d ∈ c.openDomains s.domains.known
    · obtain ⟨x, inside, rfl⟩ := List.mem_map.1 (counts.domains.mem_iff.2 member)
      have isTrue := counts.eval_of_tight tight determines.completes determines.satisfied x inside
      have stored : t.domains.known x.domain = some (x.view true) :=
        read_eq_some_iff.1 (fixes.fixed x inside)
      rw [if_pos member, stored, ← isTrue]
      exact congrArg some (x.view_view (v x.domain))
    · rw [if_neg member]
      exact fixes.others d fun inside => member (counts.domains.mem_iff.1 inside)
  · exact absurd (counts.determines_of_tight tight) loose

theorem resolves_of_postCount (sound : s.isFailed = false) (h : s.postCount b = .ok t) :
    s.Resolves c t := by
  unfold postCount at h
  rw [if_neg (Bool.eq_false_iff.1 sound)] at h
  obtain ⟨⟨rest, n⟩, separated, h⟩ := bind_eq_ok_iff.1 h
  obtain ⟨rfl, rfl⟩ := counts.separate_eq separated
  dsimp only at h
  rw [counts.saturatingSub_zero] at h
  by_cases reached : b.threshold ≤ 0
  · rw [if_pos reached] at h
    obtain rfl := pure_eq_ok_iff.1 h
    exact .of_entailed (counts.entailed_iff.2 reached) ⟨_, rfl⟩
  rw [if_neg reached] at h
  by_cases unreachable : (b.vars.length : Int) < b.threshold
  · rw [if_pos unreachable] at h
    obtain rfl := pure_eq_ok_iff.1 h
    have unsolvable : ¬ c.Solvable s.domains := by
      rw [counts.solvable_iff]
      omega
    exact .of_unsolvable unsolvable (sameButJournal_failAtPost sound)
  rw [if_neg unreachable] at h
  by_cases tight : (b.vars.length : Int) ≤ b.threshold
  · rw [if_pos tight] at h
    exact resolves_of_tight counts sound (by omega) (by omega) h
  rw [if_neg tight] at h
  refine ⟨fun entailed => ?_, fun unsolvable => ?_, fun _ v determines => ?_, fun _ _ _ => ?_⟩
  · exact absurd (counts.entailed_iff.1 entailed) reached
  · exact absurd (counts.solvable_iff.2 (by omega)) unsolvable
  · have equal := counts.tight_of_determines (by omega) (by omega) determines
    omega
  · refine ⟨⟨.ofList b.vars, b.threshold⟩, ?_, counts.domains, counts.solutions⟩
    refine addsOnly_of_addStandard ?_ h (r := Registration.ofVariables b.vars)
    refine bind_eq_ok_iff.2 ⟨_, bind_eq_ok_iff.2 ⟨_, separated, rfl⟩, ?_⟩
    rw [counts.saturatingSub_zero]
    rfl

theorem resolvesUnder_of_postImpliedCount (sound : s.isFailed = false)
    (free : s.value control = .ok none) (h : s.postImpliedCount control b = .ok t) :
    s.ResolvesUnder control c t := by
  have unread : s.domains.known.read control = none := Domains.known_of_read free
  unfold postImpliedCount at h
  rw [if_neg (Bool.eq_false_iff.1 sound)] at h
  obtain ⟨value, got, h⟩ := bind_eq_ok_iff.1 h
  cases free.symm.trans got
  obtain ⟨⟨rest, n⟩, separated, h⟩ := bind_eq_ok_iff.1 h
  obtain ⟨rfl, rfl⟩ := counts.separate_eq separated
  dsimp only at h
  rw [counts.saturatingSub_zero] at h
  by_cases unreachable : (b.vars.length : Int) < b.threshold
  · rw [if_pos unreachable] at h
    have unsolvable : ¬ c.Solvable s.domains := by
      rw [counts.solvable_iff]
      omega
    obtain ⟨domains, fixed, -, rfl⟩ := fixAtPost_of_free (s := s.remark _) sound unread h
    exact .of_unsolvable unsolvable ⟨domains, fixed, _, rfl⟩
  rw [if_neg unreachable] at h
  by_cases reached : b.threshold ≤ 0
  · rw [if_pos reached] at h
    obtain rfl := pure_eq_ok_iff.1 h
    exact .of_entailed (counts.entailed_iff.2 reached) ⟨_, rfl⟩
  rw [if_neg reached] at h
  refine ⟨fun entailed => ?_, fun unsolvable => ?_, fun _ _ => ?_⟩
  · exact absurd (counts.entailed_iff.1 entailed) reached
  · exact absurd (counts.solvable_iff.2 (by omega)) unsolvable
  · refine ⟨⟨control, ⟨b.vars.length⟩, .ofList b.vars, b.threshold, b.vars.length⟩, ?_, rfl,
      counts.domains, counts.solutions⟩
    refine addsOnly_of_addStandard ?_ h (r := Registration.ofVariables b.vars ++
      [⟨control, .fixing, ⟨b.vars.length⟩⟩])
    refine bind_eq_ok_iff.2 ⟨_, bind_eq_ok_iff.2 ⟨_, separated, rfl⟩, ?_⟩
    rw [counts.saturatingSub_zero]
    rfl

end counts

theorem Resolves.of_remark {r : Remark} (h : (s.remark r).Resolves c t) : s.Resolves c t where
  entailed all := State.SameButJournal.trans ⟨_, rfl⟩ (h.entailed all)
  unsolvable never := State.SameButJournal.trans ⟨_, rfl⟩ (h.unsolvable never)
  determined undecided v determines := by
    obtain ⟨same, fixings, known⟩ := h.determined undecided v determines
    exact ⟨State.SameButJournal.trans ⟨_, rfl⟩ same, fixings, known⟩
  otherwise undecided solvable loose := by
    obtain ⟨m, ⟨u, b, id, registrations, same, added⟩, rest⟩ :=
      h.otherwise undecided solvable loose
    exact ⟨m, ⟨u, b, id, registrations, State.SameButJournal.trans ⟨_, rfl⟩ same, added⟩, rest⟩

theorem ResolvesUnder.of_remark {r : Remark} (h : (s.remark r).ResolvesUnder control c t) :
    s.ResolvesUnder control c t where
  entailed all := State.SameButJournal.trans ⟨_, rfl⟩ (h.entailed all)
  unsolvable never := by
    obtain ⟨domains, fixed, same⟩ := h.unsolvable never
    exact ⟨domains, fixed, State.SameButJournal.trans ⟨_, rfl⟩ same⟩
  otherwise undecided solvable := by
    obtain ⟨m, ⟨u, b, id, registrations, same, added⟩, rest⟩ := h.otherwise undecided solvable
    exact ⟨m, ⟨u, b, id, registrations, State.SameButJournal.trans ⟨_, rfl⟩ same, added⟩, rest⟩

end outcomes

section enforce
variable [HoldsStandard κ] {c : LinearConstraint} {location : Location}

theorem enforce_cases {control : Option Literal}
    (h : s.enforce control location c = .ok (.ok (), t)) :
    ∃ n, NormalSum.ofConstraint c s.domains s.limits location = .ok (.ok n) ∧
      ((n.terms = [] ∧ n.HoldsEmpty ∧ t = s) ∨
        (n.terms = [] ∧ ¬ n.HoldsEmpty ∧
          (s.remark (.violated n control)).refute control = .ok t) ∨
        ∃ encoding, n.encode s.limits location = .ok encoding ∧
          (s.remark (.routed n control)).postEncoding control encoding = .ok t) := by
  obtain ⟨normal, normalised, h⟩ := bind_eq_ok_iff.1 h
  cases normal with
  | error e => cases (pure_pair_eq_ok_iff.1 h).1
  | ok n =>
    refine ⟨n, normalised, ?_⟩
    dsimp only at h
    split at h
    · next empty =>
      have noTerms := List.isEmpty_iff.1 empty
      split at h
      · next holds => exact .inl ⟨noTerms, holds, (pure_pair_eq_ok_iff.1 h).2.symm⟩
      · next violated =>
        obtain ⟨u, refuted, h⟩ := bind_eq_ok_iff.1 h
        obtain ⟨-, rfl⟩ := pure_pair_eq_ok_iff.1 h
        exact .inr (.inl ⟨noTerms, violated, refuted⟩)
    split at h
    · cases (pure_pair_eq_ok_iff.1 h).1
    split at h
    · cases (pure_pair_eq_ok_iff.1 h).1
    · next encoding encoded =>
      obtain ⟨u, posted, h⟩ := bind_eq_ok_iff.1 h
      obtain ⟨-, rfl⟩ := pure_pair_eq_ok_iff.1 h
      exact .inr (.inr ⟨encoding, encoded, posted⟩)

omit [HoldsStandard κ] in
theorem settled_of_noTerms {limits : Limits} {n : NormalSum}
    (normalised : NormalSum.ofConstraint c s.domains limits location = .ok (.ok n))
    (noTerms : n.terms = []) :
    (n.HoldsEmpty → c.Entailed s.domains) ∧ (¬ n.HoldsEmpty → ¬ c.Solvable s.domains) := by
  have same : ∀ v : Valuation, v.Completes s.domains → (c.SatisfiedBy v ↔ n.HoldsEmpty) := by
    intro v completes
    rw [NormalSum.satisfiedBy_iff_of_ofConstraint normalised completes, NormalSum.SatisfiedBy,
      noTerms]
    rfl
  constructor
  · exact fun holds v completes => (same v completes).2 holds
  · rintro violated ⟨v, completes, satisfied⟩
    exact violated ((same v completes).1 satisfied)

variable [EmbedsStandard κ] {control : Literal} (inequality : c.relation.IsInequality)
  (unit : c.UnitOn s.domains.known) (sound : s.isFailed = false)
include inequality unit sound

theorem resolves_of_enforce (h : s.enforce none location c = .ok (.ok (), t)) :
    s.Resolves c t := by
  obtain ⟨n, normalised, ⟨noTerms, holds, rfl⟩ | ⟨noTerms, violated, refuted⟩ |
    ⟨encoding, encoded, posted⟩⟩ := enforce_cases h
  · exact .of_entailed ((settled_of_noTerms normalised noTerms).1 holds) ⟨t.journal, rfl⟩
  · refine .of_unsolvable ((settled_of_noTerms normalised noTerms).2 violated) ?_
    obtain rfl := pure_eq_ok_iff.1 refuted
    exact sameButJournal_failAtPost sound
  · obtain ⟨b, rfl, counts⟩ := NormalSum.counts_of_encode inequality unit normalised encoded
    obtain ⟨u, counted, last⟩ := bind_eq_ok_iff.1 posted
    obtain rfl := pure_eq_ok_iff.1 last
    exact .of_remark (resolves_of_postCount (s := s.remark _) counts sound counted)

theorem resolvesUnder_of_enforce (free : s.value control = .ok none)
    (h : s.enforce (some control) location c = .ok (.ok (), t)) :
    s.ResolvesUnder control c t := by
  have unread : s.domains.known.read control = none := Domains.known_of_read free
  obtain ⟨n, normalised, ⟨noTerms, holds, rfl⟩ | ⟨noTerms, violated, refuted⟩ |
    ⟨encoding, encoded, posted⟩⟩ := enforce_cases h
  · exact .of_entailed ((settled_of_noTerms normalised noTerms).1 holds) ⟨t.journal, rfl⟩
  · refine .of_unsolvable ((settled_of_noTerms normalised noTerms).2 violated) ?_
    obtain ⟨domains, fixed, -, rfl⟩ :=
      fixAtPost_of_free (s := s.remark (.violated n control)) sound unread refuted
    exact ⟨domains, fixed, _, rfl⟩
  · obtain ⟨b, rfl, counts⟩ := NormalSum.counts_of_encode inequality unit normalised encoded
    obtain ⟨u, counted, last⟩ := bind_eq_ok_iff.1 posted
    obtain rfl := pure_eq_ok_iff.1 last
    exact .of_remark (resolvesUnder_of_postImpliedCount (s := s.remark _) counts sound free counted)

/-- What is settled at once is settled exactly: an inequality with unit weights that is accepted
    is dropped if all completions satisfy it, refused by the state if none does, turned into
    values where just one valuation of what still matters does, and left to one propagator over
    that otherwise. Under a control without a value it decides the control if anything. -/
theorem resolves_of_posting :
    (∀ {t}, s.post c = .ok (.ok (), t) → s.Resolves c t) ∧
      ∀ {t control}, s.value control = .ok none → s.imply control c = .ok (.ok (), t) →
        s.ResolvesUnder control c t := by
  have unfailed := Bool.eq_false_iff.1 sound
  constructor
  · intro t h
    unfold post at h
    split at h
    · cases (pure_pair_eq_ok_iff.1 h).1
    rw [if_neg unfailed] at h
    exact resolves_of_enforce inequality unit sound h
  · intro t control free h
    unfold imply at h
    split at h
    · cases (pure_pair_eq_ok_iff.1 h).1
    rw [if_neg unfailed, free] at h
    exact resolvesUnder_of_enforce inequality unit sound free h

end enforce

section merged
open Standard

def merged : LinearConstraint :=
  ⟨[2, 1, -1, 1, -1],
    [.positive ⟨0⟩, .positive ⟨1⟩, .positive ⟨2⟩, .positive ⟨3⟩, .positive ⟨3⟩], .greater, 2⟩

theorem merged_satisfiedBy_iff {v : Valuation} (isTrue : v ⟨0⟩ = true) :
    merged.SatisfiedBy v ↔ v ⟨1⟩ = true ∧ v ⟨2⟩ = false := by
  simp only [merged, LinearConstraint.SatisfiedBy, Relation.Holds, List.zip_cons_cons,
    List.zip_nil_left, Valuation.sum_cons, Valuation.sum_nil, Valuation.term,
    Valuation.eval_positive, isTrue]
  cases y : v ⟨1⟩ <;> cases z : v ⟨2⟩ <;> cases w : v ⟨3⟩ <;> simp

/-- Posted, the constraint leaves two domains one value each and the last none; under a control
    it is left to a propagator over the two. -/
theorem resolves_of_posting_merged : ∃ s t u : State Kind, s.post merged = .ok (.ok (), t) ∧
    s.imply (.positive ⟨4⟩) merged = .ok (.ok (), u) ∧ t.domains.known ⟨1⟩ = some true ∧
      t.domains.known ⟨2⟩ = some false ∧ t.domains.known ⟨3⟩ = none ∧
      ∃ m : ImpliedAtLeast Literal, s.AddsOnly ⟨Kind.impliedAtLeast .literals, m⟩ u ∧
        (m.unfixed.toList.map (·.domain)).Perm [⟨1⟩, ⟨2⟩] := by
  obtain ⟨s, -, given⟩ := accepts_of_reaches (State.new .standard)
    [.newLiteral, .newLiteral, .newLiteral, .newLiteral, .newLiteral, .assign (.positive ⟨0⟩) true]
    (fun s => decide (s.isFailed = false ∧ merged.openDomains s.domains.known = [⟨1⟩, ⟨2⟩] ∧
      s.value (.positive ⟨4⟩) = .ok none ∧
      s.domains.values = .ofList [some true, none, none, none, none]) &&
      ((s.post merged).toOption.any fun answer : Except ConstraintError Unit × State Kind =>
        decide (answer.1 = .ok ())) &&
      ((s.imply (.positive ⟨4⟩) merged).toOption.any
        fun answer : Except ConstraintError Unit × State Kind => decide (answer.1 = .ok ())))
    (by decide +kernel)
  obtain ⟨start, implied⟩ := (Bool.and_eq_true _ _).mp given
  obtain ⟨start, posted⟩ := (Bool.and_eq_true _ _).mp start
  obtain ⟨sound, unresolved, free, values⟩ := of_decide_eq_true start
  obtain ⟨⟨r, t⟩, posted, first⟩ := exists_of_any posted
  obtain ⟨⟨q, u⟩, implied, second⟩ := exists_of_any implied
  obtain rfl : r = _ := of_decide_eq_true first
  obtain rfl : q = _ := of_decide_eq_true second
  have completes : ∀ v : Valuation, v.Completes s.domains ↔ v ⟨0⟩ = true := by
    intro v
    unfold Valuation.Completes
    rw [values]
    constructor
    · exact fun agrees => agrees ⟨0⟩ true rfl
    · rintro isTrue ⟨_ | _ | _ | _ | _ | i⟩ b stored <;> cases stored
      exact isTrue
  have inequality : merged.relation.IsInequality := by decide
  have unit : merged.UnitOn s.domains.known := by
    unfold LinearConstraint.UnitOn
    rw [unresolved]
    decide
  obtain ⟨resolves, resolvesUnder⟩ := resolves_of_posting inequality unit sound
  have undecided : ¬ merged.Entailed s.domains := by
    intro entailed
    have satisfied := entailed (fun _ => true) ((completes _).2 rfl)
    exact absurd ((merged_satisfiedBy_iff rfl).1 satisfied).2 (by decide)
  let v : Valuation := fun d => d.index < 2
  have determines : merged.Determines s.domains v := by
    refine ⟨(completes v).2 rfl, (merged_satisfiedBy_iff rfl).2 ⟨rfl, rfl⟩, ?_⟩
    intro w agrees satisfied d member
    obtain ⟨y, z⟩ := (merged_satisfiedBy_iff ((completes w).1 agrees)).1 satisfied
    rw [unresolved] at member
    rcases List.mem_cons.1 member with rfl | other
    · exact y
    · rw [List.mem_singleton.1 other]
      exact z
  obtain ⟨-, -, known⟩ := (resolves posted).determined undecided v determines
  obtain ⟨m, adds, -, holds, -⟩ := (resolvesUnder free implied).otherwise undecided
    ⟨v, determines.completes, determines.satisfied⟩
  have last : s.domains.known ⟨3⟩ = none := by
    rw [Domains.known, values]
    rfl
  rw [unresolved] at known holds
  exact ⟨s, t, u, posted, implied, known ⟨1⟩, known ⟨2⟩, (known ⟨3⟩).trans last, m, adds, holds⟩

end merged

end State
end PseudoBoolean
