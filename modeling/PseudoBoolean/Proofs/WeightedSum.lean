import PseudoBoolean.Proofs.Propagation
import PseudoBoolean.Proofs.Stability

/-!
A run of the weighted sum. The bounds that it computes are the least and the greatest value at the
store. It fixes only what every stable point above the store has fixed; and when it fixes nothing
and finds nothing, the store itself is a stable point.
-/
namespace PseudoBoolean

namespace PartialValuation
variable {ν : Type} [Variable ν]

theorem forced_by_least {e d : PartialValuation} (h : e.Extends d) {terms : List (Int × ν)}
    {rhs w : Int} {x : ν} (fits : e.least terms ≤ rhs) (slack : e.SlackAbove terms rhs)
    (member : (w, x) ∈ terms) (free : d.read x = none)
    (beyond : rhs < d.least terms + w.natAbs) : e.read x = some (decide (w < 0)) := by
  have gain := least_gain h member
  have grown := least_mono h terms
  rw [leastTerm_of_free free] at gain
  cases value : e.read x with
  | none =>
    have room := slack (w, x) (mem_free_iff.2 ⟨member, value⟩)
    simp only at room
    omega
  | some b =>
    rw [leastTerm_of_read value] at gain
    cases b <;> by_cases negative : w < 0 <;> simp [negative] at gain ⊢ <;> omega

theorem forced_by_greatest {e d : PartialValuation} (h : e.Extends d) {terms : List (Int × ν)}
    {rhs w : Int} {x : ν} (fits : rhs ≤ e.greatest terms) (slack : e.SlackBelow terms rhs)
    (member : (w, x) ∈ terms) (free : d.read x = none)
    (under : d.greatest terms - w.natAbs < rhs) : e.read x = some (decide (0 < w)) := by
  have loss := greatest_loss h member
  have shrunk := greatest_mono h terms
  rw [greatestTerm_of_free free] at loss
  cases value : e.read x with
  | none =>
    have room := slack (w, x) (mem_free_iff.2 ⟨member, value⟩)
    simp only at room
    omega
  | some b =>
    rw [greatestTerm_of_read value] at loss
    cases b <;> by_cases positive : 0 < w <;> simp [positive] at loss ⊢ <;> omega

end PartialValuation

namespace WeightedSum
open PartialValuation Attempt
variable {ν : Type} [Variable ν]

theorem forced_by_last {p : WeightedSum ν} {e d : PartialValuation} (h : e.Extends d)
    (relation : p.relation = .notEqual) (possible : ¬ p.Refuted e) (pruned : p.Pruned e)
    {w : Int} {x : ν} (last : d.free p.terms = [(w, x)]) :
    (d.least p.terms - min w 0 = p.rhs → e.read x = some true) ∧
      (d.least p.terms - min w 0 + w = p.rhs → e.read x = some false) := by
  have free := (mem_free_iff.1 (last ▸ List.mem_cons_self : (w, x) ∈ d.free p.terms)).2
  have before := least_split (extends_refl d) p.terms
  have lower := least_split h p.terms
  have upper := greatest_split h p.terms
  rw [last] at before lower upper
  simp only [least, greatest, total, leastTerm_of_free free] at before lower upper
  simp only [Refuted, relation, Relation.negation, Relation.HoldsThroughout, least,
    greatest] at possible
  simp only [least]
  cases value : e.read x with
  | none =>
    have only : e.free p.terms = [(w, x)] := by
      rw [free_of_extends h, last]
      simp [PartialValuation.free, value]
    simp only [Pruned, relation] at pruned
    have avoided := pruned w x only
    rw [leastTerm_of_free value] at lower
    simp only [least] at avoided
    constructor <;> intro hit <;> omega
  | some b =>
    rw [leastTerm_of_read value] at lower
    rw [greatestTerm_of_read value] at upper
    cases b <;> simp at lower upper ⊢ <;> omega

theorem exec_bounds {terms : List (Int × ν)} {s t : Domains}
    {r : Except Inconsistency (Bounds ν)} (h : exec (bounds terms) s = .ok (r, t)) :
    t = s ∧ r = .ok ⟨s.known.least terms, s.known.greatest terms, s.known.free terms⟩ := by
  induction terms generalizing r t with
  | nil =>
    obtain ⟨rfl, rfl⟩ := exec_pure_eq h
    exact ⟨rfl, rfl⟩
  | cons term rest ih =>
    obtain ⟨w, x⟩ := term
    have h := exec_read_bind h
    rcases exec_bind_cases h with ⟨b, u, first, later⟩ | ⟨i, first, -⟩
    · obtain ⟨rfl, same⟩ := ih first
      obtain ⟨rfl, rfl⟩ := exec_pure_eq later
      cases same
      refine ⟨rfl, ?_⟩
      cases value : t.known.read x with
      | none => simp [least, greatest, total, leastTerm, greatestTerm, free, value, Int.add_comm]
      | some b =>
        cases b <;>
          simp [least, greatest, total, leastTerm, greatestTerm, free, value, Int.add_comm]
    · cases (ih first).2

inductive RunsTo {β : Type} (p : WeightedSum ν) (self : PropagatorId) (s : Domains) :
    Except Inconsistency (Verdict β) → Domains → Prop where
  | vacuous (value : p.controlValue s.known = some false) : RunsTo p self s (.ok .subsumed) s
  | entailed (holds : p.Entailed s.known) : RunsTo p self s (.ok .subsumed) s
  | rejected {c : Literal} {r : Except Inconsistency Unit} {t : Domains}
      (control : p.control = some c) (refuted : p.Refuted s.known)
      (required : exec (require c false) s = .ok (r, t)) :
      RunsTo p self s (r.map fun _ => .subsumed) t
  | conflict (value : p.controlValue s.known = some true) (refuted : p.Refuted s.known) :
      RunsTo p self s (.error (.conflict self)) s
  | waiting (value : p.controlValue s.known = none) (undecided : ¬ p.Entailed s.known)
      (possible : ¬ p.Refuted s.known) : RunsTo p self s (.ok .atFixpoint) s
  | pruned {r : Except Inconsistency Unit} {t : Domains}
      (value : p.controlValue s.known = some true) (undecided : ¬ p.Entailed s.known)
      (possible : ¬ p.Refuted s.known)
      (required : exec (p.prune ⟨s.known.least p.terms, s.known.greatest p.terms,
        s.known.free p.terms⟩) s = .ok (r, t)) :
      RunsTo p self s (r.map fun _ => .atFixpoint) t

omit [Variable ν] in
theorem exec_control_bind {α : Type} {p : WeightedSum ν} {f : Option Bool → Attempt α}
    {s t : Domains} {r : Except Inconsistency α}
    (h : exec (match p.control with
      | some c => read c >>= f
      | none => pure (some true) >>= f) s = .ok (r, t)) :
    exec (f (p.controlValue s.known)) s = .ok (r, t) := by
  unfold controlValue
  cases control : p.control with
  | none =>
    rw [control] at h
    exact h
  | some c =>
    rw [control] at h
    exact exec_read_bind h

omit [Variable ν] in
theorem controlValue_eq_true {p : WeightedSum ν} {e : PartialValuation}
    (required : p.controlValue e ≠ some false) (decided : p.controlValue e ≠ none) :
    p.controlValue e = some true := by
  cases value : p.controlValue e with
  | none => exact absurd value decided
  | some b =>
    cases b with
    | true => rfl
    | false => exact absurd value required

theorem runsTo_of_exec {β : Type} {p : WeightedSum ν} {self : PropagatorId} {s t : Domains}
    {r : Except Inconsistency (Verdict β)} (h : exec (p.propagate self) s = .ok (r, t)) :
    RunsTo p self s r t := by
  unfold propagate at h
  have h := exec_control_bind h
  change exec (if p.controlValue s.known = some false then _ else _) s = _ at h
  by_cases vacuous : p.controlValue s.known = some false
  · rw [if_pos vacuous] at h
    obtain ⟨rfl, rfl⟩ := exec_pure_eq h
    exact .vacuous vacuous
  rw [if_neg vacuous] at h
  rcases exec_bind_cases h with ⟨b, u, first, h⟩ | ⟨i, first, -⟩
  case inr => cases (exec_bounds first).2
  obtain ⟨rfl, same⟩ := exec_bounds first
  cases same
  dsimp only at h
  split at h
  · next holds =>
    obtain ⟨rfl, rfl⟩ := exec_pure_eq h
    exact .entailed holds
  next undecided =>
  split at h
  · next refuted =>
    split at h
    · next c control _ =>
      obtain ⟨q, required, rfl⟩ := exec_then_pure h
      exact .rejected control refuted required
    · next uncontrolled =>
      have decided : p.controlValue u.known ≠ none := by
        intro value
        cases control : p.control with
        | none => simp [controlValue, control] at value
        | some c => exact uncontrolled c control value
      have value := controlValue_eq_true vacuous decided
      rcases exec_bind_cases h with ⟨_, _, stopped, -⟩ | ⟨i, stopped, rfl⟩
      · cases (exec_throw_eq stopped).2
      · obtain ⟨rfl, same⟩ := exec_throw_eq stopped
        cases same
        exact .conflict value refuted
  · next possible =>
    split at h
    · next waits =>
      obtain ⟨rfl, rfl⟩ := exec_pure_eq h
      exact .waiting (by simpa using waits) undecided possible
    · next decided =>
      obtain ⟨q, required, rfl⟩ := exec_then_pure h
      have value := controlValue_eq_true vacuous (by simpa using decided)
      exact .pruned value undecided possible required

theorem tighten_met {notMore notLess : Bool} {rhs : Int} {terms : List (Int × ν)}
    {e d : PartialValuation} {lower upper : Int}
    (low : ∀ t ∈ terms, d.read t.2 = none → notMore = true → rhs < lower + t.1.natAbs →
      e.read t.2 = some (decide (t.1 < 0)))
    (high : ∀ t ∈ terms, d.read t.2 = none → notLess = true → upper - t.1.natAbs < rhs →
      e.read t.2 = some (decide (0 < t.1)))
    {s t : Domains} {r : Except Inconsistency Unit} (later : s.known.Extends d)
    (above : e.Extends s.known)
    (h : exec (tighten notMore notLess rhs lower upper terms) s = .ok (r, t)) :
    r = .ok () ∧ e.Extends t.known := by
  induction terms generalizing s with
  | nil =>
    obtain ⟨rfl, rfl⟩ := exec_pure_eq h
    exact ⟨rfl, above⟩
  | cons term rest ih =>
    obtain ⟨w, x⟩ := term
    have restLow := fun t member => low t (List.mem_cons_of_mem (w, x) member)
    have restHigh := fun t member => high t (List.mem_cons_of_mem (w, x) member)
    have h := exec_read_bind h
    dsimp only at h
    split at h
    case isFalse => exact ih restLow restHigh later above h
    next isFree =>
    have free : d.read x = none := by
      cases value : d.read x with
      | none => rfl
      | some b => simp [read_of_extends later value] at isFree
    -- after the first requirement, met or not asked for, the second one is as before
    have second : ∀ u, u.known.Extends d → e.Extends u.known →
        exec (if notLess = true ∧ upper - w.natAbs < rhs then
            require x (decide (0 < w)) >>= fun _ => tighten notMore notLess rhs lower upper rest
          else tighten notMore notLess rhs lower upper rest) u = .ok (r, t) →
        r = .ok () ∧ e.Extends t.known := by
      intro u later above h
      split at h
      · next asked =>
        have value := high (w, x) List.mem_cons_self free asked.1 asked.2
        rcases exec_bind_cases h with ⟨_, v, first, h⟩ | ⟨i, first, -⟩
        · have grown := extends_trans (extends_of_exec first) later
          exact ih restLow restHigh grown (require_met first above value).2 h
        · cases (require_met first above value).1
      · exact ih restLow restHigh later above h
    split at h
    · next asked =>
      have value := low (w, x) List.mem_cons_self free asked.1 asked.2
      rcases exec_bind_cases h with ⟨_, u, first, h⟩ | ⟨i, first, -⟩
      · have grown := extends_trans (extends_of_exec first) later
        exact second u grown (require_met first above value).2 h
      · cases (require_met first above value).1
    · exact second s later above h

theorem tighten_left {notMore notLess : Bool} {rhs lower upper : Int} {terms : List (Int × ν)}
    {s t : Domains} (h : exec (tighten notMore notLess rhs lower upper terms) s = .ok (.ok (), t)) :
    ∀ u ∈ terms, t.known.read u.2 = none →
      (notMore = true → lower + u.1.natAbs ≤ rhs) ∧
        (notLess = true → rhs ≤ upper - u.1.natAbs) := by
  induction terms generalizing s with
  | nil => simp
  | cons term rest ih =>
    obtain ⟨w, x⟩ := term
    have notFixed : ∀ {v : Bool} {u u' : Domains}, exec (require x v) u = .ok (.ok (), u') →
        t.known.Extends u'.known → t.known.read x ≠ none := by
      intro v u u' first grown
      have value := ((extends_after_require first u'.known).1 (extends_refl _)).2
      rw [read_of_extends grown value]
      exact Option.some_ne_none v
    have grown := extends_of_exec h
    have h := exec_read_bind h
    dsimp only at h
    split at h
    case isFalse taken =>
      obtain ⟨v, value⟩ := Option.ne_none_iff_exists'.1 (by simpa using taken)
      intro u member free
      rcases List.mem_cons.1 member with rfl | inner
      · rw [read_of_extends grown value] at free
        cases free
      · exact ih h u inner free
    next isFree =>
    -- what the second requirement says of the first term, whether the first one was made or not
    have second : ∀ u, exec (if notLess = true ∧ upper - w.natAbs < rhs then
            require x (decide (0 < w)) >>= fun _ => tighten notMore notLess rhs lower upper rest
          else tighten notMore notLess rhs lower upper rest) u = .ok (.ok (), t) →
        (∃ u', exec (tighten notMore notLess rhs lower upper rest) u' = .ok (.ok (), t)) ∧
          (t.known.read x = none → notLess = true → rhs ≤ upper - w.natAbs) := by
      intro u h
      split at h
      · rcases exec_bind_cases h with ⟨_, u', first, h⟩ | ⟨i, -, outcome⟩
        · exact ⟨⟨u', h⟩, fun free => absurd free (notFixed first (extends_of_exec h))⟩
        · cases outcome
      · next notAsked =>
        refine ⟨⟨u, h⟩, fun _ less => ?_⟩
        simp only [less, true_and] at notAsked
        omega
    have head : (∃ u', exec (tighten notMore notLess rhs lower upper rest) u' = .ok (.ok (), t)) ∧
        (t.known.read x = none → (notMore = true → lower + w.natAbs ≤ rhs) ∧
          (notLess = true → rhs ≤ upper - w.natAbs)) := by
      split at h
      · rcases exec_bind_cases h with ⟨_, u, first, h⟩ | ⟨i, -, outcome⟩
        · refine ⟨(second u h).1, fun free => ?_⟩
          exact absurd free (notFixed first (extends_of_exec h))
        · cases outcome
      · next notAsked =>
        refine ⟨(second s h).1, fun free => ⟨fun more => ?_, (second s h).2 free⟩⟩
        simp only [more, true_and] at notAsked
        omega
    obtain ⟨⟨u', later⟩, own⟩ := head
    intro u member free
    rcases List.mem_cons.1 member with rfl | inner
    · exact own free
    · exact ih later u inner free

theorem avoid_quiet {p : WeightedSum ν} {s t : Domains}
    (h : exec (avoid p.rhs (s.known.least p.terms) (s.known.free p.terms)) s = .ok (.ok (), t))
    (untouched : ∀ u ∈ p.terms, s.known.read u.2 = none → t.known.read u.2 = none) :
    s.known.Avoids p.terms p.rhs := by
  intro w x last
  have inFree : (w, x) ∈ s.known.free p.terms := last ▸ List.mem_cons_self
  obtain ⟨member, free⟩ := mem_free_iff.1 inFree
  have still := untouched (w, x) member free
  have notFixed : ∀ v, exec (require x v) s ≠ .ok (.ok (), t) := by
    intro v first
    have value := ((extends_after_require first t.known).1 (extends_refl _)).2
    rw [value] at still
    cases still
  rw [last] at h
  simp only [avoid] at h
  split at h
  · exact absurd h (notFixed true)
  next notTrue =>
  split at h
  · exact absurd h (notFixed false)
  next notFalse => exact ⟨notTrue, notFalse⟩

theorem avoid_met {p : WeightedSum ν} {s t : Domains} {r : Except Inconsistency Unit}
    {e : PartialValuation} (above : e.Extends s.known) (relation : p.relation = .notEqual)
    (possible : ¬ p.Refuted e) (pruned : p.Pruned e)
    (h : exec (avoid p.rhs (s.known.least p.terms) (s.known.free p.terms)) s = .ok (r, t)) :
    r = .ok () ∧ e.Extends t.known := by
  cases last : s.known.free p.terms with
  | nil =>
    rw [last] at h
    obtain ⟨rfl, rfl⟩ := exec_pure_eq h
    exact ⟨rfl, above⟩
  | cons first others =>
    cases others with
    | cons second more =>
      rw [last] at h
      obtain ⟨rfl, rfl⟩ := exec_pure_eq h
      exact ⟨rfl, above⟩
    | nil =>
      obtain ⟨w, x⟩ := first
      have forced := forced_by_last above relation possible pruned last
      rw [last] at h
      simp only [avoid] at h
      split at h
      · next hit => exact require_met h above (forced.1 hit)
      split at h
      · next hit => exact require_met h above (forced.2 hit)
      · obtain ⟨rfl, rfl⟩ := exec_pure_eq h
        exact ⟨rfl, above⟩

theorem prune_met {p : WeightedSum ν} {s t : Domains} {r : Except Inconsistency Unit}
    {e : PartialValuation} (above : e.Extends s.known) (possible : ¬ p.Refuted e)
    (pruned : p.Pruned e)
    (h : exec (p.prune ⟨s.known.least p.terms, s.known.greatest p.terms, s.known.free p.terms⟩) s =
      .ok (r, t)) : r = .ok () ∧ e.Extends t.known := by
  have low : p.relation.Caps → ∀ u ∈ p.terms, s.known.read u.2 = none →
      p.rhs < s.known.least p.terms + u.1.natAbs → e.read u.2 = some (decide (u.1 < 0)) :=
    fun caps u member free => forced_by_least above (least_le_rhs caps possible)
      (slackAbove_of_pruned caps pruned) member free
  have high : p.relation.Floors → ∀ u ∈ p.terms, s.known.read u.2 = none →
      s.known.greatest p.terms - u.1.natAbs < p.rhs → e.read u.2 = some (decide (0 < u.1)) :=
    fun floors u member free => forced_by_greatest above (rhs_le_greatest floors possible)
      (slackBelow_of_pruned floors pruned) member free
  have grown := extends_refl s.known
  unfold prune at h
  cases relation : p.relation <;> simp only [relation] at h low high
  case atMost =>
    exact tighten_met (fun u member free _ => low (Or.inl rfl) u member free) (by simp)
      grown above h
  case less =>
    exact tighten_met (fun u member free _ => low (Or.inr (Or.inl rfl)) u member free) (by simp)
      grown above h
  case atLeast =>
    exact tighten_met (by simp) (fun u member free _ => high (Or.inl rfl) u member free)
      grown above h
  case greater =>
    exact tighten_met (by simp) (fun u member free _ => high (Or.inr (Or.inl rfl)) u member free)
      grown above h
  case equal =>
    exact tighten_met (fun u member free _ => low (Or.inr (Or.inr rfl)) u member free)
      (fun u member free _ => high (Or.inr (Or.inr rfl)) u member free) grown above h
  case notEqual => exact avoid_met above relation possible pruned h

/-- What is left free has room in both directions, measured from the bounds before the run. -/
theorem prune_left {p : WeightedSum ν} {s t : Domains}
    (h : exec (p.prune ⟨s.known.least p.terms, s.known.greatest p.terms, s.known.free p.terms⟩) s =
      .ok (.ok (), t)) : ∀ u ∈ p.terms, t.known.read u.2 = none →
        (p.relation.Caps → s.known.least p.terms + u.1.natAbs ≤ p.rhs) ∧
          (p.relation.Floors → p.rhs ≤ s.known.greatest p.terms - u.1.natAbs) := by
  intro u member free
  unfold prune at h
  cases relation : p.relation <;> simp only [relation] at h
  case atMost | less =>
    exact ⟨fun _ => (tighten_left h u member free).1 rfl, by simp [Relation.Floors]⟩
  case atLeast | greater =>
    exact ⟨by simp [Relation.Caps], fun _ => (tighten_left h u member free).2 rfl⟩
  case equal =>
    have room := tighten_left h u member free
    exact ⟨fun _ => room.1 rfl, fun _ => room.2 rfl⟩
  case notEqual => simp [Relation.Caps, Relation.Floors]

theorem prune_quiet {p : WeightedSum ν} {s t : Domains}
    (h : exec (p.prune ⟨s.known.least p.terms, s.known.greatest p.terms, s.known.free p.terms⟩) s =
      .ok (.ok (), t))
    (untouched : ∀ u ∈ p.terms, s.known.read u.2 = none → t.known.read u.2 = none) :
    p.Pruned s.known := by
  have above : p.relation.Caps → s.known.SlackAbove p.terms p.rhs := by
    intro caps u free
    obtain ⟨member, free⟩ := mem_free_iff.1 free
    exact (prune_left h u member (untouched u member free)).1 caps
  have below : p.relation.Floors → s.known.SlackBelow p.terms p.rhs := by
    intro floors u free
    obtain ⟨member, free⟩ := mem_free_iff.1 free
    exact (prune_left h u member (untouched u member free)).2 floors
  unfold Pruned
  cases relation : p.relation
  case atMost => exact above (.inl relation)
  case less => exact above (.inr (.inl relation))
  case atLeast => exact below (.inl relation)
  case greater => exact below (.inr (.inl relation))
  case equal => exact ⟨above (.inr (.inr relation)), below (.inr (.inr relation))⟩
  case notEqual =>
    unfold prune at h
    rw [relation] at h
    exact avoid_quiet h untouched

theorem propagate_justified {β : Type} {p : WeightedSum ν} {self : PropagatorId} {s t : Domains}
    {r : Except Inconsistency (Verdict β)} (stableAs : β → PartialValuation → Prop)
    (h : exec (p.propagate self) s = .ok (r, t)) :
    Justified p.StableAt stableAs s.known t.known r := by
  cases runsTo_of_exec h with
  | vacuous value =>
    refine ⟨fun e above _ => above, fun e above => ?_⟩
    exact stableAt_of_control_false (controlValue_of_extends above value)
  | entailed holds =>
    exact ⟨fun e above _ => above, fun e above => stableAt_of_entailed (holds.mono above)⟩
  | @rejected c q _ control refuted required =>
    have met : ∀ e, e.Extends s.known → p.StableAt e → q = .ok () ∧ e.Extends t.known := by
      intro e above stable
      have value := control_false_of_refuted stable (refuted.mono above)
      simp only [controlValue, control] at value
      exact require_met required above value
    cases q with
    | error i => exact fun e above stable => absurd (met e above stable).1 (by simp)
    | ok _ =>
      refine ⟨fun e above stable => (met e above stable).2, fun e above => ?_⟩
      have value := ((extends_after_require required e).1 above).2
      exact stableAt_of_control_false (by simpa only [controlValue, control] using value)
  | conflict value refuted =>
    intro e above stable
    have rejected := control_false_of_refuted stable (refuted.mono above)
    rw [controlValue_of_extends above value] at rejected
    cases rejected
  | waiting => exact fun e above _ => above
  | @pruned q _ value _ _ required =>
    have met : ∀ e, e.Extends s.known → p.StableAt e → q = .ok () ∧ e.Extends t.known := by
      intro e above stable
      have ⟨possible, pruned⟩ :=
        (stableAt_of_control_true (controlValue_of_extends above value)).1 stable
      exact prune_met above possible pruned required
    cases q with
    | error i => exact fun e above stable => absurd (met e above stable).1 (by simp)
    | ok _ => exact fun e above stable => (met e above stable).2

/-- A run that is done without having retired leaves nothing to infer, unless it fixed a variable
    of its own and will be told of it. -/
theorem calm_of_quiet {β : Type} {p : WeightedSum ν} {self : PropagatorId} {s t : Domains}
    (h : exec (p.propagate (β := β) self) s = .ok (.ok .atFixpoint, t))
    (control : ∀ c ∈ p.control, t.known.read c = s.known.read c)
    (untouched : ∀ u ∈ p.terms, t.known.read u.2 = s.known.read u.2) : p.Calm t.known := by
  refine Calm.congr ?_ control untouched
  generalize outcome : (Except.ok .atFixpoint : Except Inconsistency (Verdict β)) = r at h
  cases runsTo_of_exec h with
  | vacuous | entailed | conflict => cases outcome
  | @rejected c q _ control refuted required => cases q <;> cases outcome
  | waiting value undecided possible =>
    exact ⟨by simp [value], undecided, possible, by simp [value]⟩
  | @pruned q _ value undecided possible required =>
    cases q with
    | error i => cases outcome
    | ok _ =>
      have pruned := prune_quiet required fun u member free => (untouched u member).trans free
      exact ⟨by simp [value], undecided, possible, fun _ => pruned⟩

end WeightedSum
end PseudoBoolean
