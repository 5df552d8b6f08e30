import PseudoBoolean.Proofs.Progress
import PseudoBoolean.Proofs.StandardContract

/-!
The standard propagators never fault. The tables of a consistent collection of open variables name
places that exist, so a removal comes to an answer; a run reads and fixes variables that the
propagator watches; and what is handed over when an implied count becomes a count are variables
that exist.
-/
namespace PseudoBoolean
open Attempt

theorem returns_swapRemove {α : Type} {xs : Array α} {i : Nat} (h : i < xs.size) :
    Returns (swapRemove xs i) := ⟨_, dif_pos h⟩

namespace OpenVariables
variable {ν : Type} {o : OpenVariables ν}

theorem Consistent.place_lt (consistent : o.Consistent) {number : LocalId} {place : Nat}
    (placed : (o.places.get? number).join = some place) :
    place < o.numbers.size ∧ Key.index number < o.places.size :=
  ⟨(Array.getElem?_eq_some_iff.1 (consistent.placed.1 placed)).1,
    Table.index_lt_iff.2 ⟨_, Option.join_eq_some_iff.1 placed⟩⟩

theorem returns_remove (consistent : o.Consistent) (number : LocalId) :
    Returns (o.remove number) := by
  cases placed : (o.places.get? number).join with
  | none => exact ⟨_, remove_of_unplaced placed⟩
  | some place =>
    obtain ⟨inside, listed⟩ := consistent.place_lt placed
    unfold remove
    rw [placed]
    apply (Table.returns_set listed none).bind
    intro places forgotten
    apply (returns_swapRemove (consistent.sizes ▸ inside)).bind
    intro ⟨x, vars⟩ _
    apply (returns_swapRemove inside).bind
    intro ⟨y, numbers⟩ renumbered
    dsimp only
    cases moved : numbers[place]? with
    | none => exact returns_pure _
    | some m =>
      -- what moved into the gap is the last number, which has a place of its own
      have last : o.numbers[o.numbers.size - 1]? = some m := by
        rw [(getElem?_of_swapRemove renumbered).2] at moved
        split at moved
        · simpa using moved
        · cases moved
      have known := (consistent.place_lt (consistent.placed.2 last)).2
      rw [← Table.size_of_set forgotten] at known
      exact (Table.returns_set known _).bind fun _ _ => returns_pure _

theorem consistent_cleared (o : OpenVariables ν) : o.cleared.Consistent := by
  constructor
  · rfl
  · intro number place
    simp only [cleared, Table.get?, Table.map, Array.getElem?_map]
    cases o.places.elements[Key.index number]? <;> simp

theorem at?_cleared (o : OpenVariables ν) (number : LocalId) : o.cleared.at? number = none := by
  simp [at?, cleared]

end OpenVariables

variable {ν : Type} [Variable ν] {s : Domains}

theorem OpenVariables.has_of_watching {o : OpenVariables ν} (consistent : o.Consistent)
    (watching : ∀ {n d}, o.watch n = some d → s.Has d) : ∀ x ∈ o.toList, s.Has x := by
  intro x member
  obtain ⟨n, held⟩ := exists_at? consistent member
  exact watching (watch_of_at? held)

theorem Registration.has_of_mem_ofVariables {xs : List ν} (h : ∀ x ∈ xs, s.Has x) :
    ∀ r ∈ ofVariables xs, s.Has r.literal := by
  simp only [ofVariables, List.mem_map, Prod.exists, List.mem_zipIdx_iff_getElem?]
  rintro _ ⟨x, i, found, rfl⟩
  exact h x (List.mem_of_getElem? found)

theorem Registration.has_of_mem_withControl {xs : List ν} {control : Option Literal}
    (h : ∀ x ∈ xs, s.Has x) (hc : ∀ c ∈ control, s.Has c) :
    ∀ r ∈ withControl xs control, s.Has r.literal := by
  intro r member
  rcases List.mem_append.1 member with ofVariable | ofControl
  · exact has_of_mem_ofVariables h r ofVariable
  · obtain ⟨c, inside, rfl⟩ := List.mem_map.1 ofControl
    exact hc c (Option.mem_toList.1 inside)

theorem Domains.subset_of_separate {xs rest : List ν} {n : Nat}
    (h : s.separate xs = .ok (rest, n)) : rest ⊆ xs := by
  rw [(Domains.separate_eq h).1]
  exact fun x member => (List.mem_filter.1 member).1

namespace AtLeast

theorem returns_notify {p : AtLeast ν} (consistent : p.unfixed.Consistent) (number : LocalId)
    (e : Event) : Returns (p.notify number e) := by
  apply (OpenVariables.returns_remove consistent number).bind
  intro ⟨found, unfixed⟩ _
  cases found with
  | none => exact returns_pure _
  | some x => exact returns_pure _

theorem returns_propagate {β : Type} (p : AtLeast ν) (self : PropagatorId) (tracked : s.Tracked)
    (has : ∀ x ∈ p.unfixed.toList, s.Has x) : Returns (exec (p.propagate (β := β) self) s) := by
  unfold propagate
  dsimp only
  split
  · exact returns_exec_pure _
  split
  · exact ⟨_, rfl⟩
  split
  · apply returns_exec_bind (returns_requireAll tracked has true)
    exact fun _ _ _ => returns_exec_pure _
  · exact returns_exec_pure _

end AtLeast

namespace ImpliedAtLeast
variable {p q : ImpliedAtLeast ν}

theorem returns_notify (consistent : p.Consistent) (number : LocalId) (e : Event) :
    Returns (p.notify number e) := by
  unfold notify
  split
  · exact returns_pure _
  apply (OpenVariables.returns_remove consistent.unfixed number).bind
  intro ⟨found, unfixed⟩ removed
  cases found with
  | none => exact returns_pure _
  | some x =>
    have length : p.unfixed.size = unfixed.size + 1 := by
      rcases OpenVariables.remove_cases consistent.unfixed removed with
        ⟨none, -⟩ | ⟨y, -, -, -, same, -⟩
      · cases none
      · exact same.length_eq
    have counted := consistent.numUnfixed
    apply Returns.bind ⟨_, decrease_of_le (by omega)⟩
    intro numUnfixed lowered
    obtain ⟨-, rfl⟩ := decrease_eq_ok_iff.1 lowered
    dsimp only
    rw [if_neg (not_not.2 (by omega))]
    exact returns_pure _

omit [Variable ν] in
theorem returns_propagate (tracked : s.Tracked) (has : s.Has p.control) :
    Returns (exec p.propagate s) := by
  apply returns_exec_read_bind has
  cases s.known.read p.control with
  | none =>
    dsimp only
    split
    · apply returns_exec_bind (returns_require tracked has false)
      exact fun _ _ _ => returns_exec_pure _
    split
    · exact returns_exec_pure _
    · exact returns_exec_pure _
  | some b =>
    cases b with
    | false => exact returns_exec_pure _
    | true =>
      dsimp only
      split
      · exact returns_exec_pure _
      · exact returns_exec_pure _

end ImpliedAtLeast

namespace WeightedSum
variable {p : WeightedSum ν}

theorem returns_bounds {terms : List (Int × ν)} (has : ∀ t ∈ terms, s.Has t.2) :
    Returns (exec (bounds terms) s) := by
  induction terms with
  | nil => exact returns_exec_pure _
  | cons term rest ih =>
    obtain ⟨w, x⟩ := term
    apply returns_exec_read_bind (has (w, x) List.mem_cons_self)
    apply returns_exec_bind (ih fun t member => has t (List.mem_cons_of_mem _ member))
    exact fun _ _ _ => returns_exec_pure _

theorem returns_tighten {terms : List (Int × ν)} (tracked : s.Tracked)
    (has : ∀ t ∈ terms, s.Has t.2) (notMore notLess : Bool) (rhs lower upper : Int) :
    Returns (exec (tighten notMore notLess rhs lower upper terms) s) := by
  induction terms generalizing s with
  | nil => exact returns_exec_pure _
  | cons term rest ih =>
    obtain ⟨w, x⟩ := term
    -- both requirements only move the store, and the rest is as before
    have later : ∀ t : Domains, s.LeadsTo t →
        Returns (exec (tighten notMore notLess rhs lower upper rest) t) := by
      intro t moved
      apply ih (moved.tracked tracked)
      exact fun u member => moved.has (has u (List.mem_cons_of_mem _ member))
    have required : ∀ (t : Domains) (v : Bool), s.LeadsTo t → Returns (exec (require x v) t) :=
      fun t v moved => returns_require (moved.tracked tracked)
        (moved.has (has (w, x) List.mem_cons_self)) v
    have second : ∀ t, s.LeadsTo t →
        Returns (exec (if notLess = true ∧ upper - w.natAbs < rhs then
            require x (decide (0 < w)) >>= fun _ => tighten notMore notLess rhs lower upper rest
          else tighten notMore notLess rhs lower upper rest) t) := by
      intro t moved
      split
      · apply returns_exec_bind (required t _ moved)
        exact fun _ u first => later u (moved.trans (leadsTo_of_exec first))
      · exact later t moved
    apply returns_exec_read_bind (has (w, x) List.mem_cons_self)
    dsimp only
    split
    · split
      · apply returns_exec_bind (required s _ (.refl s))
        exact fun _ u first => second u (leadsTo_of_exec first)
      · exact second s (.refl s)
    · exact later s (.refl s)

theorem returns_avoid {terms : List (Int × ν)} (tracked : s.Tracked)
    (has : ∀ t ∈ terms, s.Has t.2) (rhs lower : Int) :
    Returns (exec (avoid rhs lower terms) s) := by
  unfold avoid
  split
  · next w x =>
    have required := returns_require tracked (has (w, x) List.mem_cons_self)
    dsimp only
    split
    · exact required true
    split
    · exact required false
    · exact returns_exec_pure _
  · exact returns_exec_pure _

theorem returns_prune (tracked : s.Tracked) (has : ∀ t ∈ p.terms, s.Has t.2) :
    Returns (exec (p.prune ⟨s.known.least p.terms, s.known.greatest p.terms,
      s.known.free p.terms⟩) s) := by
  unfold prune
  cases p.relation
  case notEqual =>
    apply returns_avoid tracked
    intro t member
    exact has t (PartialValuation.mem_free_iff.1 member).1
  all_goals exact returns_tighten tracked has _ _ _ _ _

omit [Variable ν] in
theorem returns_control_bind {α : Type} {f : Option Bool → Attempt α}
    (has : ∀ c ∈ p.control, s.Has c) (later : Returns (exec (f (p.controlValue s.known)) s)) :
    Returns (exec (match p.control with
      | some c => read c >>= f
      | none => pure (some true) >>= f) s) := by
  unfold controlValue at later
  cases control : p.control with
  | none =>
    rw [control] at later
    exact later
  | some c =>
    rw [control] at later
    exact returns_exec_read_bind (has c control) later

theorem returns_propagate {β : Type} (self : PropagatorId) (tracked : s.Tracked)
    (has : ∀ t ∈ p.terms, s.Has t.2) (hasControl : ∀ c ∈ p.control, s.Has c) :
    Returns (exec (p.propagate (β := β) self) s) := by
  apply returns_control_bind hasControl
  dsimp only
  split
  · exact returns_exec_pure _
  apply returns_exec_bind (returns_bounds has)
  intro b t first
  obtain ⟨rfl, same⟩ := exec_bounds first
  cases same
  dsimp only
  split
  · exact returns_exec_pure _
  split
  · split
    · next control _ =>
      apply returns_exec_bind (returns_require tracked (hasControl _ control) false)
      exact fun _ _ _ => returns_exec_pure _
    · exact ⟨_, rfl⟩
  split
  · exact returns_exec_pure _
  · apply returns_exec_bind (returns_prune tracked has)
    exact fun _ _ _ => returns_exec_pure _

theorem not_replaced {β : Type} {b : β} {self : PropagatorId} {t : Domains} :
    exec (p.propagate self) s ≠ .ok (.ok (.replaceBy b), t) := by
  intro h
  generalize outcome : (Except.ok (.replaceBy b) : Except Inconsistency (Verdict β)) = r at h
  cases runsTo_of_exec h with
  | vacuous | entailed | conflict | waiting => cases outcome
  | @rejected c q => cases q <;> cases outcome
  | @pruned q => cases q <;> cases outcome

end WeightedSum

theorem AtLeast.not_replaced {β : Type} {p : AtLeast ν} {b : β} {self : PropagatorId}
    {t : Domains} : exec (p.propagate self) s ≠ .ok (.ok (.replaceBy b), t) := by
  intro h
  generalize outcome : (Except.ok (.replaceBy b) : Except Inconsistency (Verdict β)) = r at h
  cases AtLeast.runsTo_of_exec h with
  | reached | conflict | waiting => cases outcome
  | @tight q => cases q <;> cases outcome

theorem AnyPropagator.run_propagate {κ : Type} [PropagatorKinds κ] {k : κ}
    {p next : PropagatorKinds.Member k} {self : PropagatorId} {t : Domains}
    {outcome : Except Inconsistency (Verdict (AnyBlueprint κ))}
    (h : (PropagatorKinds.propagate k p self).run s = .ok ((next, outcome), t)) :
    (AnyPropagator.propagate ⟨k, p⟩ self).run s = .ok ((⟨k, next⟩, outcome), t) := by
  unfold AnyPropagator.propagate
  rw [Propagation.run_bind, h]
  rfl

namespace Standard
open Semantics

def Fits (s : Domains) : AnyBlueprint Kind → Prop
  | ⟨.atLeast _, b⟩ => ∀ x ∈ AtLeast.Blueprint.vars b, s.Has x
  | ⟨.impliedAtLeast _, b⟩ =>
    s.Has (ImpliedAtLeast.Blueprint.control b) ∧ ∀ x ∈ ImpliedAtLeast.Blueprint.vars b, s.Has x
  | ⟨.weightedSum _, b⟩ =>
    (WeightedSum.Blueprint.weights b).length = (WeightedSum.Blueprint.vars b).length ∧
      (∀ c ∈ WeightedSum.Blueprint.control b, s.Has c) ∧
      ∀ x ∈ WeightedSum.Blueprint.vars b, s.Has x

theorem buildable_of_fits {b : AnyBlueprint Kind} (h : Fits s b) :
    Buildable b s fun p => p.1 = b.1 := by
  obtain ⟨k, b⟩ := b
  cases k with
  | atLeast o =>
    obtain ⟨⟨rest, n⟩, separated⟩ := Domains.returns_separate h
    refine ⟨_, _, bind_eq_ok_iff.2 ⟨_, bind_eq_ok_iff.2 ⟨_, separated, rfl⟩, rfl⟩, rfl, ?_⟩
    apply Registration.has_of_mem_ofVariables
    exact fun x member => h x (Domains.subset_of_separate separated member)
  | impliedAtLeast o =>
    obtain ⟨hasControl, has⟩ := h
    obtain ⟨⟨rest, n⟩, separated⟩ := Domains.returns_separate has
    refine ⟨_, _, bind_eq_ok_iff.2 ⟨_, bind_eq_ok_iff.2 ⟨_, separated, rfl⟩, rfl⟩, rfl, ?_⟩
    have known : ∀ x ∈ rest, s.Has x :=
      fun x member => has x (Domains.subset_of_separate separated member)
    have hasEach : ∀ c ∈ some (ImpliedAtLeast.Blueprint.control b), s.Has c := by
      intro c member
      rw [← Option.mem_some.1 member]
      exact hasControl
    exact Registration.has_of_mem_withControl known hasEach
  | weightedSum o =>
    obtain ⟨sizes, hasControl, has⟩ := h
    have built : WeightedSum.create b = .ok (WeightedSum.Blueprint.asSum b,
        Registration.withControl (WeightedSum.Blueprint.vars b)
          (WeightedSum.Blueprint.control b)) := by
      unfold WeightedSum.create
      rw [if_neg (not_not.2 sizes)]
      rfl
    refine ⟨_, _, bind_eq_ok_iff.2 ⟨_, built, rfl⟩, rfl, ?_⟩
    exact Registration.has_of_mem_withControl has hasControl

theorem follows_refl {p : AnyPropagator Kind} (consistent : Consistent p) : Follows p p :=
  ⟨consistent, id, rfl⟩

theorem follows_of_notify {p : AnyPropagator Kind} (s : Domains) (n : LocalId) (e : Event)
    (consistent : Consistent p) :
    ∃ q decision, p.notify s n e = .ok (q, decision) ∧ Follows p q := by
  -- what a propagator becomes does not depend on the store, so let every domain have the value
  let told : PartialValuation := fun _ => some e.value
  have same : ∀ d, watch p n = some d → told d = some e.value := fun _ _ => rfl
  obtain ⟨k, p⟩ := p
  cases k with
  | atLeast o =>
    obtain ⟨⟨q, decision⟩, done⟩ := AtLeast.returns_notify consistent n e
    have notified := notified_atLeast consistent same done
    exact ⟨⟨.atLeast o, q⟩, decision, bind_eq_ok_iff.2 ⟨_, done, rfl⟩, notified.consistent,
      notified.watched, rfl⟩
  | impliedAtLeast o =>
    obtain ⟨⟨q, decision⟩, done⟩ := ImpliedAtLeast.returns_notify consistent n e
    have notified := notified_impliedAtLeast consistent same done
    exact ⟨⟨.impliedAtLeast o, q⟩, decision, bind_eq_ok_iff.2 ⟨_, done, rfl⟩, notified.consistent,
      notified.watched, rfl⟩
  | weightedSum o => exact ⟨⟨.weightedSum o, p⟩, .enqueue, rfl, follows_refl consistent⟩

theorem follows_cleared {o : Over} {p : ImpliedAtLeast o.Var} :
    Follows (κ := Kind) ⟨.impliedAtLeast o, p⟩
      ⟨.impliedAtLeast o, { p with unfixed := p.unfixed.cleared, numUnfixed := 0 }⟩ := by
  refine ⟨⟨p.unfixed.consistent_cleared, p.unfixed.at?_cleared _, rfl⟩, ?_, rfl⟩
  intro n d watched
  change ImpliedAtLeast.watch { p with unfixed := p.unfixed.cleared, numUnfixed := 0 } n =
    some d at watched
  change ImpliedAtLeast.watch p n = some d
  unfold ImpliedAtLeast.watch at watched ⊢
  split at watched
  · next same =>
    rw [if_pos same]
    exact watched
  · rw [OpenVariables.watch, OpenVariables.at?_cleared] at watched
    cases watched

theorem run_impliedAtLeast {o : Over} {p : ImpliedAtLeast o.Var} (self : PropagatorId)
    (tracked : s.Tracked) (grounded : Grounded (κ := Kind) ⟨.impliedAtLeast o, p⟩ s) :
    ∃ q outcome t, (Kind.propagate (.impliedAtLeast o) p self).run s = .ok ((q, outcome), t) ∧
      Follows (κ := Kind) ⟨.impliedAtLeast o, p⟩ ⟨.impliedAtLeast o, q⟩ ∧
      ∀ b, outcome = .ok (.replaceBy b) → Fits t b ∧ ∃ o, b.1 = .atLeast o := by
  have consistent : p.Consistent := grounded.consistent
  have hasControl : s.Has p.control := grounded.watching (n := p.controlNumber) (if_pos rfl)
  have has : ∀ x ∈ p.unfixed.toList, s.Has x := by
    intro x member
    obtain ⟨n, held⟩ := OpenVariables.exists_at? consistent.unfixed member
    apply grounded.watching (n := n)
    apply ImpliedAtLeast.watch_of_at? _ held
    intro same
    rw [same, consistent.apart] at held
    cases held
  obtain ⟨⟨r, t⟩, attempted⟩ := ImpliedAtLeast.returns_propagate tracked hasControl
  have answers : Returns ((Kind.propagate (.impliedAtLeast o) p self).run s) := by
    apply returns_keeping
    exact returns_exec_bind ⟨_, attempted⟩ fun _ _ _ => returns_exec_pure _
  obtain ⟨⟨⟨q, outcome⟩, u⟩, done⟩ := answers
  refine ⟨q, outcome, u, done, ?_⟩
  rcases run_cases_impliedAtLeast done with ⟨verdict, kept, rfl⟩ | ⟨i, -, rfl, rfl⟩
  · generalize result : (Except.ok (q, verdict) :
      Except Inconsistency (ImpliedAtLeast o.Var × _)) = r at kept
    cases ImpliedAtLeast.runsTo_of_exec kept with
    | vacuous | reached | waiting =>
      cases result
      exact ⟨follows_refl consistent, fun b same => by cases same⟩
    | @rejected required =>
      cases required <;> cases result
      exact ⟨follows_refl consistent, fun b same => by cases same⟩
    | replaced =>
      cases result
      refine ⟨follows_cleared, ?_⟩
      intro b same
      cases same
      exact ⟨has, o, rfl⟩
  · exact ⟨follows_refl consistent, fun b same => by cases same⟩

theorem answer_of_run {p : AnyPropagator Kind} (self : PropagatorId) (tracked : s.Tracked)
    (grounded : Grounded p s) :
    ∃ q outcome t, (p.propagate self).run s = .ok ((q, outcome), t) ∧ Follows p q ∧
      ∀ b, outcome = .ok (.replaceBy b) →
        Buildable b t fun r => r.replacementsLeft < p.replacementsLeft := by
  have consistent := grounded.consistent
  obtain ⟨k, p⟩ := p
  cases k with
  | atLeast o =>
    have has := OpenVariables.has_of_watching consistent grounded.watching
    have answers : Returns ((Kind.propagate (.atLeast o) p self).run s) := by
      apply returns_keeping
      exact returns_exec_bind (AtLeast.returns_propagate p self tracked has)
        fun _ _ _ => returns_exec_pure _
    obtain ⟨⟨⟨q, outcome⟩, t⟩, done⟩ := answers
    obtain ⟨rfl, attempted⟩ := run_keeping_pair done
    refine ⟨_, outcome, t, AnyPropagator.run_propagate done, follows_refl consistent, ?_⟩
    rintro b rfl
    exact absurd attempted AtLeast.not_replaced
  | impliedAtLeast o =>
    obtain ⟨q, outcome, t, done, follows, replaces⟩ := run_impliedAtLeast self tracked grounded
    refine ⟨_, outcome, t, AnyPropagator.run_propagate done, follows, ?_⟩
    intro b replaced
    obtain ⟨fits, held, kind⟩ := replaces b replaced
    obtain ⟨r, registrations, built, same, inside⟩ := buildable_of_fits fits
    refine ⟨r, registrations, built, ?_, inside⟩
    change Kind.replacementsLeft r.1 < 1
    rw [same, kind]
    exact Nat.zero_lt_one
  | weightedSum o =>
    have hasControl : ∀ c ∈ WeightedSum.control p, s.Has c := by
      intro c control
      exact grounded.watching (WeightedSum.watch_control control)
    have has : ∀ t ∈ WeightedSum.terms p, s.Has t.2 := by
      intro t member
      obtain ⟨n, watched⟩ := WeightedSum.watch_term member
      exact grounded.watching watched
    have answers : Returns ((Kind.propagate (.weightedSum o) p self).run s) := by
      apply returns_keeping
      exact returns_exec_bind (WeightedSum.returns_propagate self tracked has hasControl)
        fun _ _ _ => returns_exec_pure _
    obtain ⟨⟨⟨q, outcome⟩, t⟩, done⟩ := answers
    obtain ⟨rfl, attempted⟩ := run_keeping_pair done
    refine ⟨_, outcome, t, AnyPropagator.run_propagate done, follows_refl consistent, ?_⟩
    rintro b rfl
    exact absurd attempted WeightedSum.not_replaced

instance : Progress Kind where
  notified := follows_of_notify
  ran := answer_of_run

end Standard
end PseudoBoolean
