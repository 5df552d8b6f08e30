import Mathlib.Data.List.Nodup
import PseudoBoolean.Proofs.NormalForm

/-!
From a partial valuation to solutions. A merged sum that is not refuted can be given one value after
the other without being refuted, until it is satisfied; and where it is pruned, the first value is
free. Only for an equation do the weights matter: they have to be 1 or -1, or values are left out.
-/
namespace PseudoBoolean

section total
variable {ν : Type} {f g : Int → ν → Int} {terms : List (Int × ν)} {w : Int} {x : ν}

theorem total_zero (terms : List (Int × ν)) : total (fun _ _ => 0) terms = 0 := by
  induction terms with
  | nil => rfl
  | cons t rest ih => rw [total, ih, Int.zero_add]

theorem total_change (merged : (terms.map (·.2)).Nodup) (member : (w, x) ∈ terms)
    (same : ∀ t ∈ terms, t.2 ≠ x → f t.1 t.2 = g t.1 t.2) :
    total f terms = total g terms + (f w x - g w x) := by
  induction terms with
  | nil => cases member
  | cons t rest ih =>
    obtain ⟨u, y⟩ := t
    have ⟨new, later⟩ := List.nodup_cons.1 merged
    have sameRest := fun t inner => same t (List.mem_cons_of_mem (u, y) inner)
    simp only [total]
    rcases List.mem_cons.1 member with first | inner
    · cases first
      have others : total f rest = total g rest := by
        apply total_congr
        intro t inner
        apply sameRest t inner
        intro equal
        exact new (equal ▸ List.mem_map_of_mem (f := (·.2)) inner)
      omega
    · have apart : y ≠ x := by
        intro equal
        exact new (equal ▸ List.mem_map_of_mem (f := (·.2)) inner)
      have first : f u y = g u y := same (u, y) List.mem_cons_self apart
      rw [first, ih later inner sameRest]
      omega

end total

def Distinct {ν : Type} [Variable ν] (terms : List (Int × ν)) : Prop :=
  (terms.map fun t => (Variable.literal t.2).domain).Nodup

instance {ν : Type} [Variable ν] (terms : List (Int × ν)) : Decidable (Distinct terms) :=
  inferInstanceAs (Decidable (terms.map fun t => (Variable.literal t.2).domain).Nodup)

section distinct
variable {ν : Type} [Variable ν] {terms : List (Int × ν)}

theorem Distinct.merged (distinct : Distinct terms) : (terms.map (·.2)).Nodup := by
  apply List.Nodup.of_map fun x => (Variable.literal x).domain
  rw [List.map_map]
  exact distinct

theorem Distinct.eq_of_domain (distinct : Distinct terms) {t u : Int × ν} (first : t ∈ terms)
    (second : u ∈ terms)
    (same : (Variable.literal t.2).domain = (Variable.literal u.2).domain) : t = u :=
  List.inj_on_of_nodup_map distinct first second same

end distinct

namespace PartialValuation

theorem extends_learn {e : PartialValuation} {d : DomainId} {b : Bool} (free : e d = none) :
    (e.learn d b).Extends e := ((extends_learn_iff free).1 (extends_refl _)).1

section learnAs
variable {ν : Type} [Variable ν] {e : PartialValuation} {terms : List (Int × ν)} {w : Int} {x : ν}
  {b : Bool}

def learnAs (e : PartialValuation) (x : ν) (b : Bool) : PartialValuation :=
  e.learn (Variable.literal x).domain ((Variable.literal x).view b)

theorem read_learnAs (e : PartialValuation) (x : ν) (b : Bool) :
    (e.learnAs x b).read x = some b := read_eq_some_iff.2 (if_pos rfl)

theorem read_learn_of_ne {d : DomainId} (apart : (Variable.literal x).domain ≠ d) :
    (e.learn d b).read x = e.read x := by
  rw [read, learn, if_neg apart, read]

theorem read_learnAs_of_mem (distinct : Distinct terms) (member : (w, x) ∈ terms)
    {t : Int × ν} (inner : t ∈ terms) (other : t.2 ≠ x) :
    (e.learnAs x b).read t.2 = e.read t.2 := by
  apply read_learn_of_ne
  intro same
  exact other (congrArg Prod.snd (distinct.eq_of_domain inner member same))

theorem least_learnAs (distinct : Distinct terms) (member : (w, x) ∈ terms)
    (free : e.read x = none) :
    (e.learnAs x b).least terms = e.least terms + ((if b then w else 0) - min w 0) := by
  rw [← leastTerm_of_read (read_learnAs e x b), ← leastTerm_of_free free]
  apply total_change distinct.merged member
  intro t inner other
  rw [leastTerm, leastTerm, read_learnAs_of_mem distinct member inner other]

theorem greatest_learnAs (distinct : Distinct terms) (member : (w, x) ∈ terms)
    (free : e.read x = none) :
    (e.learnAs x b).greatest terms = e.greatest terms + ((if b then w else 0) - max w 0) := by
  rw [← greatestTerm_of_read (read_learnAs e x b), ← greatestTerm_of_free free]
  apply total_change distinct.merged member
  intro t inner other
  rw [greatestTerm, greatestTerm, read_learnAs_of_mem distinct member inner other]

end learnAs

variable {e : PartialValuation} {terms : List (Int × DomainId)} {w : Int} {d : DomainId} {b : Bool}

theorem learnAs_domain (e : PartialValuation) (d : DomainId) (b : Bool) :
    e.learnAs d b = e.learn d b := congrArg (e.learn d) (Literal.view_positive d b)

theorem least_learn (merged : (terms.map (·.2)).Nodup) (member : (w, d) ∈ terms)
    (free : e d = none) :
    (e.learn d b).least terms = e.least terms + ((if b then w else 0) - min w 0) := by
  rw [← learnAs_domain]
  exact least_learnAs merged member (read_eq_none_iff.2 free)

theorem greatest_learn (merged : (terms.map (·.2)).Nodup) (member : (w, d) ∈ terms)
    (free : e d = none) :
    (e.learn d b).greatest terms = e.greatest terms + ((if b then w else 0) - max w 0) := by
  rw [← learnAs_domain]
  exact greatest_learnAs merged member (read_eq_none_iff.2 free)

theorem other_free_or_last (merged : (terms.map (·.2)).Nodup) (member : (w, d) ∈ e.free terms) :
    (∃ t ∈ e.free terms, t.2 ≠ d) ∨ e.free terms = [(w, d)] := by
  have nodup : ((e.free terms).map (·.2)).Nodup := merged.sublist (List.filter_sublist.map _)
  generalize e.free terms = left at member nodup
  cases left with
  | nil => cases member
  | cons first rest =>
    cases rest with
    | nil => exact Or.inr (congrArg (· :: []) (List.mem_singleton.1 member).symm)
    | cons second more =>
      left
      by_cases same : first.2 = d
      · refine ⟨second, by simp, ?_⟩
        intro equal
        have ⟨new, _⟩ := List.nodup_cons.1 nodup
        apply new
        simp only [List.map_cons, same, equal, List.mem_cons, true_or]
      · exact ⟨first, List.mem_cons_self, same⟩

end PartialValuation

namespace WeightedSum
open PartialValuation

section room
variable {ν : Type} [Variable ν] {p : WeightedSum ν} {e : PartialValuation} {d : DomainId}
  {b : Bool}

theorem refuted_learn_of_absent
    (absent : ∀ u ∈ p.terms, (Variable.literal u.2).domain ≠ d) :
    p.Refuted (e.learn d b) ↔ p.Refuted e := by
  have same : ∀ u ∈ p.terms, (e.learn d b).read u.2 = e.read u.2 :=
    fun u member => read_learn_of_ne (absent u member)
  rw [Refuted, Refuted, least_congr same, greatest_congr same]

/-- A free variable may have either value if the bounds that the relation sets are further away than
    the weight of the variable. -/
theorem not_refuted_learn_of_room (relation : p.relation ≠ .notEqual)
    (notStrict : ¬ p.relation.IsStrict) (distinct : Distinct p.terms) (possible : ¬ p.Refuted e)
    (free : e d = none)
    (room : ∀ u ∈ p.terms, (Variable.literal u.2).domain = d →
      (p.relation.Caps → e.least p.terms + u.1.natAbs ≤ p.rhs) ∧
        (p.relation.Floors → p.rhs ≤ e.greatest p.terms - u.1.natAbs))
    (b : Bool) : ¬ p.Refuted (e.learn d b) := by
  by_cases occurs : ∃ u ∈ p.terms, (Variable.literal u.2).domain = d
  case neg =>
    rw [refuted_learn_of_absent fun u member same => occurs ⟨u, member, same⟩]
    exact possible
  obtain ⟨⟨w, x⟩, member, rfl⟩ := occurs
  obtain ⟨above, below⟩ := room (w, x) member rfl
  have low := least_learnAs (b := (Variable.literal x).view b) distinct member
    (read_eq_none_iff.2 free)
  have high := greatest_learnAs (b := (Variable.literal x).view b) distinct member
    (read_eq_none_iff.2 free)
  rw [learnAs, Literal.view_view] at low high
  simp only at above below
  unfold Refuted
  cases kind : p.relation with
  | notEqual => exact absurd kind relation
  | less => exact absurd (.inl kind) notStrict
  | greater => exact absurd (.inr kind) notStrict
  | atMost =>
    have room := above (.inl kind)
    simp only [Relation.negation, Relation.HoldsThroughout]
    split at low <;> omega
  | atLeast =>
    have room := below (.inl kind)
    simp only [Relation.negation, Relation.HoldsThroughout]
    split at high <;> omega
  | equal =>
    have roomAbove := above (.inr (.inr kind))
    have roomBelow := below (.inr (.inr kind))
    simp only [Relation.negation, Relation.HoldsThroughout]
    split at low <;> split at high <;> omega

end room

variable {p : WeightedSum DomainId} {e : PartialValuation} {w : Int} {d : DomainId}

/-- A merged sum; the weights of an equation are units, so that no value is left out. -/
structure Gapless (p : WeightedSum DomainId) : Prop where
  notStrict : ¬ p.relation.IsStrict
  merged : (p.terms.map (·.2)).Nodup
  nonzero : ∀ t ∈ p.terms, t.1 ≠ 0
  unit : p.relation = .equal → ∀ t ∈ p.terms, t.1 = 1 ∨ t.1 = -1

theorem exists_not_refuted_learn (gapless : p.Gapless) (possible : ¬ p.Refuted e)
    (member : (w, d) ∈ p.terms) (free : e d = none) : ∃ b, ¬ p.Refuted (e.learn d b) := by
  by_cases onTrue : p.Refuted (e.learn d true)
  case neg => exact ⟨true, onTrue⟩
  by_cases onFalse : p.Refuted (e.learn d false)
  case neg => exact ⟨false, onFalse⟩
  exfalso
  have nonzero := gapless.nonzero (w, d) member
  have gap := least_add_natAbs_le_greatest (mem_free_iff.2 ⟨member, read_eq_none_iff.2 free⟩)
  unfold Refuted at possible onTrue onFalse
  rw [least_learn gapless.merged member free, greatest_learn gapless.merged member free]
    at onTrue onFalse
  simp only [if_true, Bool.false_eq_true, if_false] at onTrue onFalse gap nonzero
  cases relation : p.relation with
  | equal =>
    have unit := gapless.unit relation (w, d) member
    simp only [relation, Relation.negation, Relation.HoldsThroughout] at possible onTrue onFalse
    simp only at unit
    omega
  | notEqual | atMost | less | atLeast | greater =>
    simp only [relation, Relation.negation, Relation.HoldsThroughout] at possible onTrue onFalse
    omega

theorem not_refuted_learn (gapless : p.Gapless) (possible : ¬ p.Refuted e) (pruned : p.Pruned e)
    (free : e d = none) (b : Bool) : ¬ p.Refuted (e.learn d b) := by
  have inFree : ∀ u ∈ p.terms, u.2 = d → u ∈ e.free p.terms := by
    rintro u member rfl
    exact mem_free_iff.2 ⟨member, read_eq_none_iff.2 free⟩
  by_cases relation : p.relation = .notEqual
  case neg =>
    apply not_refuted_learn_of_room relation gapless.notStrict gapless.merged possible free
    intro u member same
    exact ⟨fun caps => slackAbove_of_pruned caps pruned u (inFree u member same),
      fun floors => slackBelow_of_pruned floors pruned u (inFree u member same)⟩
  by_cases occurs : ∃ u ∈ p.terms, u.2 = d
  case neg =>
    rw [refuted_learn_of_absent fun u member same => occurs ⟨u, member, same⟩]
    exact possible
  obtain ⟨⟨w, x⟩, member, rfl⟩ := occurs
  have inFree := inFree (w, x) member rfl
  have low := least_learn (b := b) gapless.merged member free
  have high := greatest_learn (b := b) gapless.merged member free
  unfold Pruned at pruned
  unfold Refuted at possible ⊢
  simp only [relation, Relation.negation, Relation.HoldsThroughout] at possible pruned ⊢
  rcases other_free_or_last gapless.merged inFree with ⟨t, other, apart⟩ | last
  · -- another free term keeps the least and the greatest value apart
    obtain ⟨inner, isFree⟩ := mem_free_iff.1 other
    have still : t ∈ (e.learn x b).free p.terms :=
      mem_free_iff.2 ⟨inner, (read_learn_of_ne apart).trans isFree⟩
    have gap := least_add_natAbs_le_greatest still
    have nonzero := gapless.nonzero t inner
    omega
  · have avoided := pruned w x last
    split at low <;> omega

theorem exists_extension (gapless : p.Gapless) (possible : ¬ p.Refuted e)
    {part : List (Int × DomainId)} (sub : ∀ t ∈ part, t ∈ p.terms) :
    ∃ c : PartialValuation, c.Extends e ∧ ¬ p.Refuted c ∧ ∀ t ∈ part, c t.2 ≠ none := by
  -- the free variables of `part` are given values one by one
  induction part with
  | nil => exact ⟨e, extends_refl e, possible, by simp⟩
  | cons t rest ih =>
    obtain ⟨c, above, possible, known⟩ := ih fun u member => sub u (List.mem_cons_of_mem t member)
    cases value : c t.2 with
    | some b =>
      refine ⟨c, above, possible, ?_⟩
      intro u member
      rcases List.mem_cons.1 member with rfl | inner
      · rw [value]
        exact Option.some_ne_none b
      · exact known u inner
    | none =>
      obtain ⟨b, fine⟩ := exists_not_refuted_learn gapless possible (sub t List.mem_cons_self) value
      have grown := extends_learn (b := b) value
      refine ⟨c.learn t.2 b, extends_trans grown above, fine, ?_⟩
      intro u member
      rcases List.mem_cons.1 member with rfl | inner
      · simp [learn]
      · obtain ⟨v, stored⟩ := Option.ne_none_iff_exists'.1 (known u inner)
        rw [grown _ _ stored]
        exact Option.some_ne_none v

/-- A sum that is not refuted is satisfied by some valuation above. -/
theorem exists_satisfying (gapless : p.Gapless) (possible : ¬ p.Refuted e) :
    ∃ v : Valuation, (ofTotal v).Extends e ∧ p.relation.Holds (v.sum p.terms) p.rhs := by
  obtain ⟨c, above, possible, known⟩ := exists_extension gapless possible fun _ member => member
  have settled : ∀ t ∈ p.terms, c.read t.2 = some (c.filled.eval t.2) := by
    intro t member
    obtain ⟨b, value⟩ := Option.ne_none_iff_exists'.1 (known t member)
    rw [read_domain, Valuation.eval_domain, filled, value]
    rfl
  refine ⟨c.filled, extends_trans (extends_filled c) above, ?_⟩
  exact Classical.not_not.1 fun violated => possible ((refuted_iff_of_known settled).2 violated)

end WeightedSum
end PseudoBoolean
