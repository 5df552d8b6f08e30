import PseudoBoolean.Proofs.Contract
import PseudoBoolean.Proofs.CountingPropagators
import PseudoBoolean.Proofs.WeightedSum
import PseudoBoolean.Propagator.Standard

/-!
The standard propagators keep the contract. A counting propagator watches the variables that it
holds, and its counters are its reasons to run; a weighted sum watches all of its variables and has
a reason to run whenever one of them got a value since its last run.
-/
namespace PseudoBoolean
open PartialValuation Attempt

theorem Registration.mem_ofVariables {ν : Type} [Variable ν] {xs : List ν} {n : LocalId}
    {d : DomainId} :
    (∃ r ∈ ofVariables xs, r.localId = n ∧ r.literal.domain = d) ↔
      ∃ x, xs[n.index]? = some x ∧ (Variable.literal x).domain = d := by
  simp only [ofVariables, List.mem_map, Prod.exists, List.mem_zipIdx_iff_getElem?]
  constructor
  · rintro ⟨_, ⟨x, i, found, rfl⟩, rfl, same⟩
    exact ⟨x, found, same⟩
  · intro ⟨x, found, same⟩
    exact ⟨_, ⟨x, n.index, found, rfl⟩, rfl, same⟩

theorem Registration.fixing_ofVariables {ν : Type} [Variable ν] {xs : List ν} :
    ∀ r ∈ ofVariables xs, r.events = .fixing := by
  simp only [ofVariables, List.mem_map]
  rintro _ ⟨_, _, rfl⟩
  rfl

theorem Registration.localId_lt_of_mem {ν : Type} [Variable ν] {xs : List ν} :
    ∀ r ∈ ofVariables xs, r.localId.index < xs.length := by
  simp only [ofVariables, List.mem_map, Prod.exists, List.mem_zipIdx_iff_getElem?]
  rintro _ ⟨x, i, found, rfl⟩
  exact (List.getElem?_eq_some_iff.1 found).1

section withControl
variable {ν : Type} [Variable ν] {xs : List ν} (control : Option Literal)

def Registration.withControl (xs : List ν) (control : Option Literal) : List Registration :=
  ofVariables xs ++ control.toList.map fun c => ⟨c, .fixing, ⟨xs.length⟩⟩

theorem Registration.fixing_withControl : ∀ r ∈ withControl xs control, r.events = .fixing := by
  intro r member
  rcases List.mem_append.1 member with ofVariable | ofControl
  · exact fixing_ofVariables r ofVariable
  · obtain ⟨c, -, rfl⟩ := List.mem_map.1 ofControl
    rfl

theorem Registration.mem_withControl {n : LocalId} {d : DomainId} :
    (∃ r ∈ withControl xs control, r.localId = n ∧ r.literal.domain = d) ↔
      if n.index = xs.length then control.map Literal.domain = some d
      else ∃ x, xs[n.index]? = some x ∧ (Variable.literal x).domain = d := by
  by_cases last : n.index = xs.length
  · rw [if_pos last, Option.map_eq_some_iff]
    constructor
    · intro ⟨r, member, numbered, same⟩
      rcases List.mem_append.1 member with ofVariable | ofControl
      · have below := localId_lt_of_mem r ofVariable
        rw [numbered, last] at below
        exact absurd below (Nat.lt_irrefl _)
      · obtain ⟨c, inside, rfl⟩ := List.mem_map.1 ofControl
        exact ⟨c, Option.mem_toList.1 inside, same⟩
    · intro ⟨c, inside, same⟩
      refine ⟨⟨c, .fixing, ⟨xs.length⟩⟩, List.mem_append_right _ ?_, ?_, same⟩
      · exact List.mem_map.2 ⟨c, Option.mem_toList.2 inside, rfl⟩
      · exact LocalId.index_inj.1 last.symm
  · rw [if_neg last, ← mem_ofVariables]
    constructor
    · intro ⟨r, member, numbered, same⟩
      rcases List.mem_append.1 member with ofVariable | ofControl
      · exact ⟨r, ofVariable, numbered, same⟩
      · obtain ⟨c, -, rfl⟩ := List.mem_map.1 ofControl
        exact absurd (congrArg LocalId.index numbered).symm last
    · intro ⟨r, member, found⟩
      exact ⟨r, List.mem_append_left _ member, found⟩

end withControl

theorem read_of_event {ν : Type} [Variable ν] {e known : PartialValuation} {x : ν} {event : Event}
    (above : e.Extends known) (value : known (Variable.literal x).domain = some event.value) :
    e.read x = some ((Variable.literal x).observe event).value := by
  rw [read_eq_some_iff, Literal.value_observe, Literal.view_view]
  exact above _ _ value

variable {ν : Type} [Variable ν]

namespace OpenVariables

def watch (o : OpenVariables ν) (n : LocalId) : Option DomainId :=
  (o.at? n).map fun x => (Variable.literal x).domain

def Current (o : OpenVariables ν) (known : PartialValuation) (news : LocalId → Prop) : Prop :=
  ∀ n x, o.at? n = some x → known.read x = none ∨ news n

theorem watch_of_at? {o : OpenVariables ν} {n : LocalId} {x : ν} (h : o.at? n = some x) :
    o.watch n = some (Variable.literal x).domain := by
  rw [watch, h, Option.map_some]

theorem watch_ofList {xs : List ν} {n : LocalId} {d : DomainId} :
    (ofList xs).watch n = some d ↔
      ∃ r ∈ Registration.ofVariables xs, r.localId = n ∧ r.literal.domain = d := by
  rw [Registration.mem_ofVariables, watch, at?_ofList, Option.map_eq_some_iff]

theorem current_ofList {xs : List ν} {known : PartialValuation} {news : LocalId → Prop}
    (free : ∀ x ∈ xs, known.read x = none) : (ofList xs).Current known news :=
  fun _ x held => Or.inl (free x (mem_of_at? held))

theorem Current.of_reported {o : OpenVariables ν} {known known' : PartialValuation}
    {news news' : LocalId → Prop} (h : o.Current known news)
    (reported : Reported o.watch known known' news news') : o.Current known' news' := by
  intro n x held
  rcases reported n _ (watch_of_at? held) with fresh | ⟨same, old⟩
  · exact Or.inr fresh
  · rcases h n x held with free | due
    · rw [read_eq_none_iff] at free
      exact Or.inl (read_eq_none_iff.2 (same.trans free))
    · exact absurd due old

theorem Current.of_removed {o q : OpenVariables ν} {known : PartialValuation} {n : LocalId}
    {news news' : LocalId → Prop} (h : o.Current known news)
    (after : ∀ k, q.at? k = if k = n then none else o.at? k)
    (kept : ∀ m, m ≠ n → news m → news' m) : q.Current known news' := by
  intro m x held
  rw [after] at held
  split at held
  · cases held
  · next other => exact (h m x held).imp_right (kept m other)

theorem Current.of_unheld {o : OpenVariables ν} {known : PartialValuation} {n : LocalId}
    {news news' : LocalId → Prop} (h : o.Current known news) (unheld : o.at? n = none)
    (kept : ∀ m, m ≠ n → news m → news' m) : o.Current known news' := by
  apply h.of_removed _ kept
  intro k
  split
  · next same => rw [same, unheld]
  · rfl

theorem watch_of_removed {o q : OpenVariables ν} {n m : LocalId} {d : DomainId}
    (after : ∀ k, q.at? k = if k = n then none else o.at? k) (h : q.watch m = some d) :
    o.watch m = some d := by
  rw [watch, after] at h
  split at h
  · cases h
  · exact h

theorem free_of_current {o : OpenVariables ν} {known : PartialValuation}
    (consistent : o.Consistent) (h : o.Current known fun _ => False) :
    ∀ x ∈ o.toList, known.read x = none := by
  intro x member
  obtain ⟨n, held⟩ := exists_at? consistent member
  exact (h n x held).resolve_right id

end OpenVariables

theorem Domains.free_of_separate {s : Domains} {xs rest : List ν} {n : Nat}
    (h : s.separate xs = .ok (rest, n)) : ∀ x ∈ rest, s.known.read x = none := by
  intro x member
  rw [(Domains.separate_eq h).1] at member
  simpa using (List.mem_filter.1 member).2

namespace ImpliedAtLeast

def watch (p : ImpliedAtLeast ν) (n : LocalId) : Option DomainId :=
  if n = p.controlNumber then some p.control.domain else p.unfixed.watch n

theorem watch_of_at? {p : ImpliedAtLeast ν} {n : LocalId} {x : ν} (other : n ≠ p.controlNumber)
    (h : p.unfixed.at? n = some x) : p.watch n = some (Variable.literal x).domain := by
  rw [watch, if_neg other, OpenVariables.watch_of_at? h]

theorem reported_unfixed {p : ImpliedAtLeast ν} (consistent : p.Consistent)
    {known known' : PartialValuation} {news news' : LocalId → Prop}
    (h : Reported p.watch known known' news news') :
    Reported p.unfixed.watch known known' news news' := by
  intro n d watched
  apply h n d
  have other : n ≠ p.controlNumber := by
    intro equal
    subst equal
    rw [OpenVariables.watch, consistent.apart] at watched
    cases watched
  rw [watch, if_neg other]
  exact watched

/-- No reason to run: the threshold is neither reached nor out of reach, and the control has no
    value that the propagator was told of. -/
structure Settled (p : ImpliedAtLeast ν) (known : PartialValuation) (news : LocalId → Prop) :
    Prop where
  notReached : ¬ p.IsReached
  reachable : ¬ p.IsUnreachable
  control : known.read p.control = none ∨ news p.controlNumber

end ImpliedAtLeast

namespace WeightedSum

def watch (p : WeightedSum ν) (n : LocalId) : Option DomainId :=
  if n.index = p.terms.length then p.control.map Literal.domain
  else (p.terms[n.index]?).map fun t => (Variable.literal t.2).domain

def Settled (p : WeightedSum ν) (known : PartialValuation) (news : LocalId → Prop) : Prop :=
  p.Calm known ∨ ∃ n d, p.watch n = some d ∧ news n

theorem create_ok {b : Blueprint ν} {p : WeightedSum ν} {registrations : List Registration}
    (h : create b = .ok (p, registrations)) :
    b.weights.length = b.vars.length ∧ p = b.asSum ∧
      registrations = Registration.ofVariables b.vars ++
        b.control.toList.map fun c => ⟨c, .fixing, ⟨b.vars.length⟩⟩ := by
  unfold create at h
  by_cases sizes : b.weights.length = b.vars.length
  · rw [if_neg (not_not.2 sizes)] at h
    obtain ⟨rfl, rfl⟩ := pure_pair_eq_ok_iff.1 h
    exact ⟨sizes, rfl, rfl⟩
  · rw [if_pos sizes] at h
    cases h

theorem watch_control {p : WeightedSum ν} {c : Literal} (h : p.control = some c) :
    p.watch ⟨p.terms.length⟩ = some c.domain := by
  rw [watch, if_pos rfl, h, Option.map_some]

theorem watch_term {p : WeightedSum ν} {t : Int × ν} (h : t ∈ p.terms) :
    ∃ n, p.watch n = some (Variable.literal t.2).domain := by
  obtain ⟨i, inside, found⟩ := List.mem_iff_getElem.1 h
  refine ⟨⟨i⟩, ?_⟩
  rw [watch, if_neg (Nat.ne_of_lt inside), List.getElem?_eq_getElem inside, found, Option.map_some]

end WeightedSum

namespace Standard

instance : Semantics Kind where
  StableAt
    | ⟨.atLeast _, p⟩ => (AtLeast.asSum p).StableAt
    | ⟨.impliedAtLeast _, p⟩ => (ImpliedAtLeast.asSum p).StableAt
    | ⟨.weightedSum _, p⟩ => WeightedSum.StableAt p
  AsksFor
    | ⟨.atLeast _, b⟩ => (AtLeast.Blueprint.asSum b).StableAt
    | ⟨.impliedAtLeast _, b⟩ => (ImpliedAtLeast.Blueprint.asSum b).StableAt
    | ⟨.weightedSum _, b⟩ => (WeightedSum.Blueprint.asSum b).StableAt
  watch
    | ⟨.atLeast _, p⟩ => (AtLeast.unfixed p).watch
    | ⟨.impliedAtLeast _, p⟩ => ImpliedAtLeast.watch p
    | ⟨.weightedSum _, p⟩ => WeightedSum.watch p
  Consistent
    | ⟨.atLeast _, p⟩ => (AtLeast.unfixed p).Consistent
    | ⟨.impliedAtLeast _, p⟩ => ImpliedAtLeast.Consistent p
    | ⟨.weightedSum _, _⟩ => True
  Current
    | ⟨.atLeast _, p⟩ => (AtLeast.unfixed p).Current
    | ⟨.impliedAtLeast _, p⟩ => (ImpliedAtLeast.unfixed p).Current
    | ⟨.weightedSum _, _⟩ => fun _ _ => True
  Settled
    | ⟨.atLeast _, p⟩ => fun _ _ => ¬ AtLeast.IsReached p ∧ ¬ AtLeast.IsTight p
    | ⟨.impliedAtLeast _, p⟩ => ImpliedAtLeast.Settled p
    | ⟨.weightedSum _, p⟩ => WeightedSum.Settled p

section created
variable {o : Over} {s : Domains} {registrations : List Registration}

theorem created_atLeast {b : AtLeast.Blueprint o.Var} {p : AtLeast o.Var}
    (h : AtLeast.create b s = .ok (p, registrations)) :
    Created (κ := Kind) ⟨.atLeast o, b⟩ s.known ⟨.atLeast o, p⟩ registrations := by
  have alike := fun e above => AtLeast.alike_create (e := e) h above
  have consistent := AtLeast.consistent_of_create h
  obtain ⟨⟨rest, n⟩, separated, h⟩ := bind_eq_ok_iff.1 h
  obtain ⟨rfl, rfl⟩ := pure_pair_eq_ok_iff.1 h
  exact {
    consistent
    stable := fun e above => (alike e above).stableAt
    fixing := Registration.fixing_ofVariables
    registered := OpenVariables.watch_ofList
    current := OpenVariables.current_ofList (Domains.free_of_separate separated) }

theorem created_impliedAtLeast {b : ImpliedAtLeast.Blueprint o.Var} {p : ImpliedAtLeast o.Var}
    (h : ImpliedAtLeast.create b s = .ok (p, registrations)) :
    Created (κ := Kind) ⟨.impliedAtLeast o, b⟩ s.known ⟨.impliedAtLeast o, p⟩ registrations := by
  have alike := fun e above => ImpliedAtLeast.alike_create (e := e) h above
  have consistent := ImpliedAtLeast.consistent_of_create h
  obtain ⟨⟨rest, n⟩, separated, h⟩ := bind_eq_ok_iff.1 h
  obtain ⟨rfl, rfl⟩ := pure_pair_eq_ok_iff.1 h
  refine {
    consistent
    stable := fun e above => (alike e above).stableAt
    fixing := Registration.fixing_withControl (some b.control)
    registered := ?registered
    current := OpenVariables.current_ofList (Domains.free_of_separate separated) }
  intro n d
  refine Iff.trans ?_ (Registration.mem_withControl (some b.control)).symm
  change (if n = ⟨rest.length⟩ then some b.control.domain
    else (OpenVariables.ofList rest).watch n) = some d ↔ _
  by_cases last : n = ⟨rest.length⟩
  · rw [if_pos last, if_pos (congrArg LocalId.index last)]
    rfl
  · have other : n.index ≠ rest.length := fun same => last (LocalId.index_inj.1 same)
    rw [if_neg last, if_neg other, OpenVariables.watch_ofList, Registration.mem_ofVariables]

theorem created_weightedSum {b : WeightedSum.Blueprint o.Var} {p : WeightedSum o.Var}
    (h : WeightedSum.create b = .ok (p, registrations)) :
    Created (κ := Kind) ⟨.weightedSum o, b⟩ s.known ⟨.weightedSum o, p⟩ registrations := by
  obtain ⟨sizes, rfl, rfl⟩ := WeightedSum.create_ok h
  have length : (b.weights.zip b.vars).length = b.vars.length := by
    rw [List.length_zip, sizes, Nat.min_self]
  refine {
    consistent := trivial
    stable := fun e _ => Iff.rfl
    fixing := Registration.fixing_withControl b.control
    registered := ?registered
    current := trivial }
  intro n d
  refine Iff.trans ?_ (Registration.mem_withControl b.control).symm
  change (if n.index = (b.weights.zip b.vars).length then b.control.map Literal.domain
    else ((b.weights.zip b.vars)[n.index]?).map fun t => (Variable.literal t.2).domain) =
      some d ↔ _
  rw [length]
  by_cases last : n.index = b.vars.length
  · rw [if_pos last, if_pos last]
  · rw [if_neg last, if_neg last, Option.map_eq_some_iff]
    constructor
    · intro ⟨⟨w, x⟩, found, same⟩
      exact ⟨x, (List.getElem?_zip_eq_some.1 found).2, same⟩
    · intro ⟨x, found, same⟩
      have inside := (List.getElem?_eq_some_iff.1 found).1
      rw [← sizes] at inside
      refine ⟨(b.weights[n.index], x), ?_, same⟩
      exact List.getElem?_zip_eq_some.2 ⟨List.getElem?_eq_getElem inside, found⟩

end created

section notified
variable {o : Over} {known : PartialValuation} {n : LocalId} {event : Event} {decision : Decision}

theorem notified_atLeast {p q : AtLeast o.Var} (consistent : p.unfixed.Consistent)
    (told : ∀ d, p.unfixed.watch n = some d → known d = some event.value)
    (h : p.notify n event = .ok (q, decision)) :
    Notified (κ := Kind) ⟨.atLeast o, p⟩ known n ⟨.atLeast o, q⟩ decision := by
  have stable : ∀ e, e.Extends known → (q.asSum.StableAt e ↔ p.asSum.StableAt e) := by
    intro e above
    refine (AtLeast.alike_notify consistent h ?_).stableAt
    intro x held
    exact read_of_event above (told _ (OpenVariables.watch_of_at? held))
  rcases AtLeast.notify_cases consistent h with
    ⟨unknown, rfl, -⟩ | ⟨x, held, after, -, others, -, asks⟩
  · refine ⟨consistent, id, stable, ?_, fun _ _ calm => calm⟩
    intro news news' kept current
    exact OpenVariables.Current.of_unheld current unknown kept
  · refine ⟨after, OpenVariables.watch_of_removed others, stable, ?_, ?_⟩
    · intro news news' kept current
      exact OpenVariables.Current.of_removed current others kept
    · intro news news' _ skipped _
      refine not_or.1 fun settled => ?_
      rw [asks.2 settled] at skipped
      cases skipped

theorem notified_impliedAtLeast {p q : ImpliedAtLeast o.Var} (consistent : p.Consistent)
    (told : ∀ d, p.watch n = some d → known d = some event.value)
    (h : p.notify n event = .ok (q, decision)) :
    Notified (κ := Kind) ⟨.impliedAtLeast o, p⟩ known n ⟨.impliedAtLeast o, q⟩ decision := by
  have stable : ∀ e, e.Extends known → (q.asSum.StableAt e ↔ p.asSum.StableAt e) := by
    intro e above
    refine (ImpliedAtLeast.alike_notify consistent h ?_).stableAt
    intro x other held
    exact read_of_event above (told _ (ImpliedAtLeast.watch_of_at? other held))
  rcases ImpliedAtLeast.notify_cases consistent h with
    ⟨ofControl, rfl, enqueued⟩ | ⟨other, unknown, rfl, -⟩ |
      ⟨x, other, held, after, control, number, -, others, -, asks⟩
  · refine ⟨consistent, id, stable, ?_, ?_⟩
    · intro news news' kept current
      have unheld : q.unfixed.at? n = none := ofControl ▸ consistent.apart
      exact OpenVariables.Current.of_unheld current unheld kept
    · intro news news' _ skipped
      rw [enqueued] at skipped
      cases skipped
  · refine ⟨consistent, id, stable, ?_, ?_⟩
    · intro news news' kept current
      exact OpenVariables.Current.of_unheld current unknown kept
    · intro news news' kept _ settled
      exact ⟨settled.notReached, settled.reachable,
        settled.control.imp_right (kept _ (Ne.symm other))⟩
  · refine ⟨after, ?_, stable, ?_, ?_⟩
    · intro m d watched
      change ImpliedAtLeast.watch q m = some d at watched
      change ImpliedAtLeast.watch p m = some d
      rw [ImpliedAtLeast.watch, number, control] at watched
      rw [ImpliedAtLeast.watch]
      split at watched
      · next same => rw [if_pos same, watched]
      · next apart => rw [if_neg apart, OpenVariables.watch_of_removed others watched]
    · intro news news' kept current
      exact OpenVariables.Current.of_removed current others kept
    · intro news news' kept skipped settled
      have calm : ¬ (q.IsUnreachable ∨ q.IsReached) := by
        intro decided
        rw [asks.2 decided] at skipped
        cases skipped
      have ⟨reachable, notReached⟩ := not_or.1 calm
      refine ⟨notReached, reachable, ?_⟩
      rw [control, number]
      exact settled.control.imp_right (kept _ (Ne.symm other))

end notified

section ran
variable {o : Over} {self : PropagatorId} {s t : Domains}
variable {outcome : Except Inconsistency (Verdict (AnyBlueprint Kind))}

theorem ran_atLeast {p : AtLeast o.Var} (h : exec (p.propagate self) s = .ok (outcome, t)) :
    Ran (κ := Kind) ⟨.atLeast o, p⟩ s.known t.known ⟨.atLeast o, p⟩ outcome := by
  refine ⟨AtLeast.propagate_justified _ h, fun _ => rfl, ?_⟩
  rintro rfl news _
  exact AtLeast.calm_of_atFixpoint h

theorem ran_weightedSum {p : WeightedSum o.Var}
    (h : exec (p.propagate self) s = .ok (outcome, t)) :
    Ran (κ := Kind) ⟨.weightedSum o, p⟩ s.known t.known ⟨.weightedSum o, p⟩ outcome := by
  refine ⟨WeightedSum.propagate_justified _ h, fun _ => rfl, ?_⟩
  rintro rfl news reported
  by_cases told : ∃ n d, WeightedSum.watch p n = some d ∧ news n
  · exact Or.inr told
  have same : ∀ n d, WeightedSum.watch p n = some d → t.known d = s.known d := by
    intro n d watched
    rcases reported n d watched with fresh | ⟨same, -⟩
    · exact absurd ⟨n, d, watched, fresh⟩ told
    · exact same
  refine Or.inl (WeightedSum.calm_of_quiet h ?_ ?_)
  · intro c control
    have same := same _ _ (WeightedSum.watch_control control)
    exact congrArg (Option.map c.view) same
  · intro u member
    obtain ⟨n, watched⟩ := WeightedSum.watch_term member
    exact congrArg (Option.map (Variable.literal u.2).view) (same n _ watched)

theorem ran_impliedAtLeast {p q : ImpliedAtLeast o.Var} (consistent : p.Consistent)
    {verdict : Verdict (AtLeast.Blueprint o.Var)}
    (h : exec p.propagate s = .ok (.ok (q, verdict), t)) :
    Ran (κ := Kind) ⟨.impliedAtLeast o, p⟩ s.known t.known ⟨.impliedAtLeast o, q⟩
      (.ok (verdict.map fun b => ⟨.atLeast o, b⟩)) := by
  obtain ⟨justified, unchanged⟩ := ImpliedAtLeast.propagate_justified consistent h
  have done : (Except.ok (verdict.map fun b => ⟨.atLeast o, b⟩) :
      Except Inconsistency (Verdict (AnyBlueprint Kind))) = .ok .atFixpoint →
      verdict = .atFixpoint := by
    cases verdict with
    | atFixpoint => exact fun _ => rfl
    | subsumed => exact fun same => by cases same
    | replaceBy b => exact fun same => by cases same
  refine ⟨Justified.map Semantics.AsksFor justified, ?_, ?_⟩
  · intro fixpoint
    rcases unchanged with ⟨b, replaced⟩ | rfl
    · rw [done fixpoint] at replaced
      cases replaced
    · rfl
  · intro fixpoint news reported
    rw [done fixpoint] at h
    obtain ⟨control, rfl, notReached, reachable⟩ := ImpliedAtLeast.calm_of_atFixpoint h
    exact ⟨notReached, reachable, Or.inl control⟩

theorem ran_stopped {p : ImpliedAtLeast o.Var} (consistent : p.Consistent) {i : Inconsistency}
    (h : exec p.propagate s = .ok (.error i, t)) :
    Ran (κ := Kind) ⟨.impliedAtLeast o, p⟩ s.known t.known ⟨.impliedAtLeast o, p⟩ (.error i) := by
  refine ⟨fun e above => ?_, fun _ => rfl, fun fixpoint => by cases fixpoint⟩
  exact ImpliedAtLeast.not_stableAt_of_stopped consistent h above

end ran

open Semantics

theorem created_of_create {b : AnyBlueprint Kind} {s : Domains} {p : AnyPropagator Kind}
    {registrations : List Registration} (h : b.create s = .ok (p, registrations)) :
    Created b s.known p registrations := by
  obtain ⟨k, b⟩ := b
  obtain ⟨⟨made, asked⟩, built, outcome⟩ := bind_eq_ok_iff.1 h
  obtain ⟨rfl, rfl⟩ := pure_pair_eq_ok_iff.1 outcome
  cases k with
  | atLeast o => exact created_atLeast built
  | impliedAtLeast o => exact created_impliedAtLeast built
  | weightedSum o => exact created_weightedSum built

theorem notified_of_notify {p q : AnyPropagator Kind} {s : Domains} {n : LocalId} {e : Event}
    {decision : Decision} (consistent : Consistent p)
    (told : ∀ d, watch p n = some d → s.known d = some e.value)
    (h : p.notify s n e = .ok (q, decision)) : Notified p s.known n q decision := by
  obtain ⟨k, p⟩ := p
  obtain ⟨⟨next, decided⟩, done, outcome⟩ := bind_eq_ok_iff.1 h
  obtain ⟨rfl, rfl⟩ := pure_pair_eq_ok_iff.1 outcome
  cases k with
  | atLeast o => exact notified_atLeast consistent told done
  | impliedAtLeast o => exact notified_impliedAtLeast consistent told done
  | weightedSum o =>
    obtain ⟨rfl, rfl⟩ := pure_pair_eq_ok_iff.1 done
    exact ⟨trivial, id, fun _ _ => Iff.rfl, fun _ _ => trivial, fun _ skipped => by cases skipped⟩

theorem run_own {k : Kind} {p : k.Member} {q : AnyPropagator Kind} {self : PropagatorId}
    {s t : Domains} {outcome : Except Inconsistency (Verdict (AnyBlueprint Kind))}
    (h : (AnyPropagator.propagate ⟨k, p⟩ self).run s = .ok ((q, outcome), t)) :
    ∃ next, q = ⟨k, next⟩ ∧ (Kind.propagate k p self).run s = .ok ((next, outcome), t) := by
  unfold AnyPropagator.propagate at h
  rw [Propagation.run_bind] at h
  rcases first : (PropagatorKinds.propagate k p self).run s with fault | ⟨⟨next, r⟩, u⟩ <;>
    rw [first] at h
  · cases h
  · cases h
    exact ⟨next, rfl, rfl⟩

theorem run_cases_impliedAtLeast {o : Over} {p q : ImpliedAtLeast o.Var} {self : PropagatorId}
    {s t : Domains} {outcome : Except Inconsistency (Verdict (AnyBlueprint Kind))}
    (h : (Kind.propagate (.impliedAtLeast o) p self).run s = .ok ((q, outcome), t)) :
    (∃ verdict, exec p.propagate s = .ok (.ok (q, verdict), t) ∧
        outcome = .ok (verdict.map fun b => ⟨.atLeast o, b⟩)) ∨
      ∃ i, exec p.propagate s = .ok (.error i, t) ∧ q = p ∧ outcome = .error i := by
  rcases run_keeping h with ⟨verdict, attempted, rfl⟩ | ⟨i, attempted, rfl, rfl⟩
  · obtain ⟨r, first, given⟩ := exec_then_pure attempted
    cases r <;> cases given
    exact Or.inl ⟨_, first, rfl⟩
  · obtain ⟨r, first, given⟩ := exec_then_pure attempted
    cases r <;> cases given
    exact Or.inr ⟨i, first, rfl, rfl⟩

theorem ran_of_run {p q : AnyPropagator Kind} {self : PropagatorId} {s t : Domains}
    {outcome : Except Inconsistency (Verdict (AnyBlueprint Kind))} (consistent : Consistent p)
    (h : (p.propagate self).run s = .ok ((q, outcome), t)) :
    Ran p s.known t.known q outcome := by
  obtain ⟨k, p⟩ := p
  obtain ⟨next, rfl, done⟩ := run_own h
  cases k with
  | atLeast o =>
    obtain ⟨rfl, attempted⟩ := run_keeping_pair done
    exact ran_atLeast attempted
  | weightedSum o =>
    obtain ⟨rfl, attempted⟩ := run_keeping_pair done
    exact ran_weightedSum attempted
  | impliedAtLeast o =>
    rcases run_cases_impliedAtLeast done with ⟨verdict, attempted, rfl⟩ | ⟨i, attempted, rfl, rfl⟩
    · exact ran_impliedAtLeast consistent attempted
    · exact ran_stopped consistent attempted

theorem current_of_reported {p : AnyPropagator Kind} {known known' : PartialValuation}
    {news news' : LocalId → Prop} (consistent : Consistent p)
    (reported : Reported (watch p) known known' news news') (current : Current p known news) :
    Current p known' news' := by
  obtain ⟨k, p⟩ := p
  cases k with
  | atLeast o => exact OpenVariables.Current.of_reported current reported
  | impliedAtLeast o =>
    have reported := ImpliedAtLeast.reported_unfixed consistent reported
    exact OpenVariables.Current.of_reported current reported
  | weightedSum o => trivial

theorem settled_of_reported {p : AnyPropagator Kind} {known known' : PartialValuation}
    {news news' : LocalId → Prop} (reported : Reported (watch p) known known' news news')
    (settled : Settled p known news) : Settled p known' news' := by
  obtain ⟨k, p⟩ := p
  cases k with
  | atLeast o => exact settled
  | impliedAtLeast o =>
    have settled : ImpliedAtLeast.Settled p known news := settled
    refine ⟨settled.notReached, settled.reachable, ?_⟩
    rcases reported (ImpliedAtLeast.controlNumber p) _ (if_pos rfl) with fresh | ⟨same, old⟩
    · exact Or.inr fresh
    · have free := read_eq_none_iff.1 (settled.control.resolve_right old)
      exact Or.inl (read_eq_none_iff.2 (same.trans free))
  | weightedSum o =>
    by_cases told : ∃ n d, WeightedSum.watch p n = some d ∧ news' n
    · exact Or.inr told
    have same : ∀ n d, WeightedSum.watch p n = some d → known' d = known d ∧ ¬ news n := by
      intro n d watched
      rcases reported n d watched with fresh | unchanged
      · exact absurd ⟨n, d, watched, fresh⟩ told
      · exact unchanged
    rcases settled with calm | ⟨n, d, watched, fresh⟩
    · refine Or.inl (WeightedSum.Calm.congr calm ?_ ?_)
      · intro c control
        have same := (same _ _ (WeightedSum.watch_control control)).1
        exact congrArg (Option.map c.view) same
      · intro u member
        obtain ⟨n, watched⟩ := WeightedSum.watch_term member
        exact congrArg (Option.map (Variable.literal u.2).view) (same n _ watched).1
    · exact absurd fresh (same n d watched).2

theorem stableAt_of_settled {p : AnyPropagator Kind} {known : PartialValuation}
    (consistent : Consistent p) (current : Current p known fun _ => False)
    (settled : Settled p known fun _ => False) : StableAt p known := by
  obtain ⟨k, p⟩ := p
  cases k with
  | atLeast o =>
    exact AtLeast.stableAt_of_calm settled.2 (OpenVariables.free_of_current consistent current)
  | impliedAtLeast o =>
    have settled : ImpliedAtLeast.Settled p known fun _ => False := settled
    exact ImpliedAtLeast.stableAt_of_calm consistent settled.reachable
      (settled.control.resolve_right id)
      (OpenVariables.free_of_current (ImpliedAtLeast.Consistent.unfixed consistent) current)
  | weightedSum o =>
    rcases settled with calm | ⟨_, _, _, fresh⟩
    · exact calm.stableAt
    · exact absurd fresh id

instance : Contract Kind where
  created := created_of_create
  notified := notified_of_notify
  ran := ran_of_run
  current_of_reported := current_of_reported
  settled_of_reported := settled_of_reported
  stableAt_of_settled := stableAt_of_settled

end Standard
end PseudoBoolean
