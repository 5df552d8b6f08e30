import PseudoBoolean.Proofs.Coherence

/-!
Propagation to a fixpoint. A run of a propagator keeps the invariant and every stable point of the
state; when nothing is left on the agenda, the store itself is a stable point. So propagation leaves
the least of the stable points, or there is none and the state fails.
-/
namespace PseudoBoolean
namespace State
variable {κ : Type} [PropagatorKinds κ] [Semantics κ] [Contract κ]
variable {s t u : State κ} {due : Due} {running : Option PropagatorId} {id : PropagatorId}
  {p q : AnyPropagator κ}
open Semantics

section addPropagator
variable {b : AnyBlueprint κ}

omit [Semantics κ] [Contract κ] in
theorem addPropagator_cases (h : s.addPropagator b = .ok (id, t)) :
    id = s.roster.nextId ∧ ∃ p registrations, b.create s.domains = .ok (p, registrations) ∧
      registrations.foldlM (Subscriptions.register · id) s.subscriptions = .ok t.subscriptions ∧
      t.roster = s.roster.add p ∧ t.domains = s.domains ∧ t.failure = s.failure ∧
      (s.failure = none → s.agenda.enqueue id p.priority = .ok t.agenda) := by
  obtain ⟨p, registrations, added⟩ := added_addPropagator h
  refine ⟨added.own, p, registrations, added.created, added.registered, added.roster,
    added.domains, added.failure, ?_⟩
  intro sound
  rcases added.queued with ⟨failed, -⟩ | ⟨-, enqueued⟩
  · rw [isFailed, sound] at failed
    cases failed
  · exact enqueued

omit [Semantics κ] [Contract κ] in
theorem get?_nextId (s : State κ) : s.roster.get? s.roster.nextId = none := by
  have absent : s.roster.places.get? s.roster.nextId = none :=
    (Table.get?_eq_none_iff _ _).2 (Nat.le_refl _)
  rw [Roster.get?, absent]
  rfl

theorem stableAt_addPropagator (h : s.addPropagator b = .ok (id, t)) (e : PartialValuation) :
    t.StableAt e ↔ s.StableAt e ∧ AsksFor b e := by
  obtain ⟨rfl, p, registrations, created, -, roster, domains, failure, -⟩ := addPropagator_cases h
  have created := Contract.created created
  unfold StableAt
  rw [roster, domains, failure]
  constructor
  · intro stable
    obtain ⟨sound, above, stable⟩ := stable
    refine ⟨⟨sound, above, ?_⟩, ?_⟩
    · intro j r found
      apply stable j r
      rw [Roster.get?_add, if_neg, found]
      intro same
      rw [same, get?_nextId] at found
      cases found
    · apply (created.stable e above).1
      apply stable s.roster.nextId
      rw [Roster.get?_add, if_pos rfl]
  · intro both
    obtain ⟨⟨sound, above, stable⟩, asked⟩ := both
    refine ⟨sound, above, ?_⟩
    intro j r found
    rw [Roster.get?_add] at found
    split at found
    · cases found
      exact (created.stable e above).2 asked
    · exact stable j r found

theorem attended_of_created {registrations : List Registration}
    (created : Created b s.domains.known p registrations) (domains : t.domains = s.domains)
    (hears : ∀ e d w, t.subscriptions.Hears e d w ↔ s.subscriptions.Hears e d w ∨
      ∃ r ∈ registrations, r.literal.domain = d ∧ w = ⟨id, r.localId⟩)
    (unheard : ∀ e d n, ¬ s.subscriptions.Hears e d ⟨id, n⟩)
    (queued : t.agenda.contains id = true) : t.Attended due running id p := by
  refine ⟨created.consistent, ?_, ?_, Or.inl (Or.inr queued)⟩
  · intro n d watched e c
    rw [hears]
    constructor
    · intro heard
      rcases heard with old | ⟨r, member, rfl, same⟩
      · exact absurd old (unheard e c n)
      · have number : n = r.localId := congrArg Subscriber.localId same
        have again := created.registered.2 ⟨r, member, rfl, rfl⟩
        rw [← number, watched] at again
        exact (Option.some.inj again).symm
    · intro same
      obtain ⟨r, member, number, domain⟩ := created.registered.1 watched
      exact Or.inr ⟨r, member, domain.trans same.symm, by rw [number]⟩
  · rw [domains]
    exact Contract.current_of_reported created.consistent
      (reported_of_subset fun _ never => never.elim) created.current

theorem Coherent.addPropagator (h : s.Coherent due running) (sound : s.failure = none)
    (added : s.addPropagator b = .ok (id, t)) : t.Coherent due running := by
  obtain ⟨rfl, p, registrations, created, registered, roster, domains, -, enqueued⟩ :=
    addPropagator_cases added
  have created := Contract.created created
  have hears := fun e d w => Subscriptions.hears_registerAll created.fixing registered
    (e := e) (d := d) (w := w)
  have contained := Agenda.contains_enqueue (enqueued sound)
  have size : t.roster.size = s.roster.size + 1 := by
    rw [roster]
    exact Table.size_push _ _
  refine ⟨h.agenda.enqueue (enqueued sound), domains ▸ h.faithful, ?_, ?_, ?_⟩
  · intro e d w heard
    rw [size]
    rcases (hears e d w).1 heard with old | ⟨r, -, -, new⟩
    · have := h.heard old
      omega
    · rw [new]
      exact Nat.lt_succ_self _
  · intro e d w waiting
    have ⟨value, heard⟩ := h.due_true waiting
    exact ⟨domains ▸ value, (hears e d w).2 (Or.inl heard)⟩
  · intro j r active
    rw [roster, Roster.get?_add] at active
    by_cases new : j = s.roster.nextId
    · rw [if_pos new] at active
      obtain rfl := Option.some.inj active
      subst new
      apply attended_of_created created domains hears
      · exact fun e d n old => absurd (h.heard old) (Nat.lt_irrefl _)
      · rw [contained]
        simp
    · rw [if_neg new] at active
      apply (h.attended active).of_other domains _ _ (fun _ _ _ waiting => waiting)
      · intro e d n
        rw [hears]
        constructor
        · intro heard
          rcases heard with old | ⟨r, -, -, same⟩
          · exact old
          · exact absurd (congrArg Subscriber.propagator same) new
        · exact Or.inl
      · intro queued
        apply queued.imp_right
        intro old
        rw [contained, old, Bool.or_true]

end addPropagator

section retire

omit [Semantics κ] [Contract κ] in
theorem retire_cases (h : s.retire id = .ok t) :
    s.roster.retire id = .ok t.roster ∧ s.subscriptions.unsubscribe id = .ok t.subscriptions ∧
      t.domains = s.domains ∧ t.agenda = s.agenda ∧ t.failure = s.failure := by
  obtain ⟨roster, subscriptions, retired, unsubscribed, rfl⟩ := retire_eq h
  exact ⟨retired, unsubscribed, rfl, rfl, rfl⟩

theorem Coherent.retire (h : s.Coherent nothingDue (some id)) (left : s.RunLeft id q u)
    (retired : u.retire id = .ok t) : t.Coherent nothingDue none := by
  obtain ⟨retired, unsubscribed, domains, agenda, -⟩ := retire_cases retired
  rw [left.subscriptions] at unsubscribed
  have hears := fun e d w => Subscriptions.hears_unsubscribe unsubscribed (e := e) (d := d) (w := w)
  have moved := h.leadsTo left.fixings
  refine ⟨?_, ?_, ?_, fun never => never.elim, ?_⟩
  · rw [agenda, left.agenda]
    exact h.agenda
  · rw [domains]
    exact moved.faithful
  · intro e d w heard
    rw [Roster.size_of_retire retired, Roster.size_of_replace left.replaced]
    exact h.heard ((hears e d w).1 heard)
  · intro j r active
    rw [Roster.get?_of_retire retired] at active
    split at active
    · cases active
    next other =>
    rw [Roster.get?_of_replace left.replaced, if_neg other] at active
    apply (moved.attended active).of_other domains _ _ (fun _ _ _ never => never)
    · exact fun e d n => (hears e d ⟨j, n⟩).2 other
    · intro queued
      rw [agenda, left.agenda]
      rcases queued with self | queued
      · exact absurd (Option.some.inj self).symm other
      · exact Or.inr queued

omit [Contract κ] in
/-- Without the propagator, the stable points are those that the new store admits; the old ones
    are those at which the propagator is stable as well. -/
theorem stableAt_retire (active : s.roster.get? id = some p) (left : s.RunLeft id q u)
    (retired : u.retire id = .ok t) (e : PartialValuation) :
    t.StableAt e ∧ Semantics.StableAt p e ↔ s.StableAt e ∧ e.Extends u.domains.known := by
  obtain ⟨retired, -, domains, -, failure⟩ := retire_cases retired
  have grown := left.fixings.extends
  have roster : ∀ j, t.roster.get? j = if j = id then none else s.roster.get? j := by
    intro j
    rw [Roster.get?_of_retire retired, Roster.get?_of_replace left.replaced]
    split <;> rfl
  unfold StableAt
  rw [failure, left.failure, domains]
  constructor
  · intro both
    obtain ⟨⟨sound, above, stable⟩, own⟩ := both
    refine ⟨⟨sound, PartialValuation.extends_trans above grown, ?_⟩, above⟩
    intro j r found
    by_cases self : j = id
    · rw [self, active] at found
      cases found
      exact own
    · exact stable j r (by rw [roster, if_neg self, found])
  · intro both
    obtain ⟨⟨sound, -, stable⟩, above⟩ := both
    refine ⟨⟨sound, above, ?_⟩, stable id p active⟩
    intro j r found
    rw [roster] at found
    split at found
    · cases found
    · exact stable j r found

end retire

section run
variable {r : Except Inconsistency Unit} {verdict : Verdict (AnyBlueprint κ)}

omit [Semantics κ] [Contract κ] in
theorem runPropagator_cases (h : s.runPropagator id = .ok (r, t)) :
    (s.roster.get? id = none ∧ r = .ok () ∧ t = s) ∨
      ∃ p q outcome u, s.roster.get? id = some p ∧
        (p.propagate id).run s.domains = .ok ((q, outcome), u.domains) ∧ s.RunLeft id q u ∧
        ((∃ i, outcome = .error i ∧ r = .error i ∧ t = u) ∨
          ∃ verdict, outcome = .ok verdict ∧ r = .ok () ∧ u.conclude id verdict = .ok t) := by
  rcases runPropagator_eq h with
    ⟨gone, rfl, rfl⟩ | ⟨p, q, outcome, u, active, ran, left, ended⟩
  · exact Or.inl ⟨isActive_eq_false_iff.1 gone, rfl, rfl⟩
  · exact Or.inr ⟨p, q, outcome, u, active, ran, left.toRunLeft, ended⟩

omit [Semantics κ] [Contract κ] in
theorem get?_of_runLeft (active : s.roster.get? id = some p) (left : s.RunLeft id p u)
    (j : PropagatorId) : u.roster.get? j = s.roster.get? j := by
  rw [Roster.get?_of_replace left.replaced]
  split
  · next same => rw [same, active]
  · rfl

/-- The propagator stays: it has no reason to run before it is told what it did itself. -/
theorem Coherent.stay (h : s.Coherent nothingDue (some id))
    (active : s.roster.get? id = some p) (left : s.RunLeft id p u)
    (settled : ∀ {news : LocalId → Prop}, Reported (watch p) s.domains.known u.domains.known
      (fun _ => False) news → Settled p u.domains.known news) : u.Coherent nothingDue none := by
  have subs := left.subscriptions
  have agenda := left.agenda
  have roster := get?_of_runLeft active left
  have moved := h.leadsTo left.fixings
  have news : ∀ j n, u.News nothingDue j n ↔
      ({ s with domains := u.domains } : State κ).News nothingDue j n := by
    intro j n
    unfold News
    rw [subs]
  have reported := reported_of_leadsTo h active left.fixings
  refine ⟨agenda ▸ h.agenda, moved.faithful, ?_, fun never => never.elim, ?_⟩
  · intro e d w heard
    rw [Roster.size_of_replace left.replaced]
    exact h.heard (subs ▸ heard)
  · intro j r found
    rw [roster] at found
    have attended := moved.attended found
    by_cases self : j = id
    · rw [self, active] at found
      cases found
      subst self
      refine ⟨attended.consistent, ?_, ?_, Or.inr (settled ?_)⟩
      · intro n d watched e c
        rw [subs]
        exact attended.hears watched e c
      · exact Contract.current_of_reported attended.consistent
          (reported_of_subset fun n fresh => (news j n).2 fresh) attended.current
      · intro n d watched
        rcases reported n d watched with fresh | ⟨same, -⟩
        · exact Or.inl ((news j n).2 fresh)
        · exact Or.inr ⟨same, id⟩
    · apply attended.of_other (t := u) rfl _ _ (fun _ _ _ never => never)
      · intro e d n
        rw [subs]
      intro queued
      rw [agenda]
      rcases queued with running | queued
      · exact absurd (Option.some.inj running).symm self
      · exact Or.inr queued

structure Keeps (s t : State κ) : Prop where
  sound : t.failure = none
  coherent : t.Coherent nothingDue none
  stable : ∀ e, t.StableAt e ↔ s.StableAt e

theorem keeps_of_atFixpoint (h : s.Coherent nothingDue (some id)) (sound : s.failure = none)
    (active : s.roster.get? id = some p)
    (result : Ran p s.domains.known u.domains.known q (.ok .atFixpoint)) (left : s.RunLeft id q u) :
    s.Keeps u := by
  have justified := result.justified
  obtain rfl := result.unchanged rfl
  refine ⟨left.failure.trans sound, h.stay active left (result.settled rfl), ?_⟩
  intro e
  unfold StableAt
  simp only [left.failure, get?_of_runLeft active left]
  constructor
  · intro stable
    exact ⟨stable.1, PartialValuation.extends_trans stable.2.1 left.fixings.extends, stable.2.2⟩
  · intro stable
    exact ⟨stable.1, justified e stable.2.1 (stable.2.2 id q active), stable.2.2⟩

theorem keeps_of_subsumed (h : s.Coherent nothingDue (some id)) (sound : s.failure = none)
    (active : s.roster.get? id = some p)
    (result : Ran p s.domains.known u.domains.known q (.ok .subsumed)) (left : s.RunLeft id q u)
    (retired : u.retire id = .ok t) : s.Keeps t := by
  obtain ⟨met, done⟩ := result.justified
  have ⟨_, _, domains, _, failure⟩ := retire_cases retired
  refine ⟨(failure.trans left.failure).trans sound, h.retire left retired, ?_⟩
  intro e
  have split := stableAt_retire active left retired e
  constructor
  · intro stable
    exact (split.1 ⟨stable, done e (domains ▸ stable.2.1)⟩).1
  · intro stable
    exact (split.2 ⟨stable, met e stable.2.1 (stable.2.2 id p active)⟩).1

theorem keeps_of_replaced {b : AnyBlueprint κ} {replacement : PropagatorId} {w : State κ}
    (h : s.Coherent nothingDue (some id)) (sound : s.failure = none)
    (active : s.roster.get? id = some p)
    (result : Ran p s.domains.known u.domains.known q (.ok (.replaceBy b)))
    (left : s.RunLeft id q u) (retired : u.retire id = .ok t)
    (added : t.addPropagator b = .ok (replacement, w)) : s.Keeps w := by
  obtain ⟨met, replaced⟩ := result.justified
  have ⟨_, _, domains, _, failure⟩ := retire_cases retired
  have soundThen : t.failure = none := (failure.trans left.failure).trans sound
  have ⟨_, _, _, _, _, _, _, unfailed, _⟩ := addPropagator_cases added
  have coherent := (h.retire left retired).addPropagator soundThen added
  refine ⟨unfailed.trans soundThen, coherent, ?_⟩
  intro e
  have split := stableAt_retire active left retired e
  rw [stableAt_addPropagator added]
  constructor
  · intro stable
    have above : e.Extends u.domains.known := domains ▸ stable.1.2.1
    exact (split.1 ⟨stable.1, (replaced e above).2 stable.2⟩).1
  · intro stable
    have above := met e stable.2.1 (stable.2.2 id p active)
    have both := split.2 ⟨stable, above⟩
    exact ⟨both.1, (replaced e above).1 both.2⟩

theorem conclude_keeps (h : s.Coherent nothingDue (some id)) (sound : s.failure = none)
    (active : s.roster.get? id = some p)
    (ran : (p.propagate id).run s.domains = .ok ((q, .ok verdict), u.domains))
    (left : s.RunLeft id q u) (concluded : u.conclude id verdict = .ok t) : s.Keeps t := by
  have result := Contract.ran (h.attended active).consistent ran
  -- the statistics and the journal are no part of what the run left
  have counted : ∀ {w : State κ}, w.domains = u.domains → w.roster = u.roster →
      w.subscriptions = u.subscriptions → w.agenda = u.agenda → w.failure = u.failure →
      Ran p s.domains.known w.domains.known q (.ok verdict) ∧ s.RunLeft id q w := by
    intro w domains roster subs agenda failure
    rw [domains]
    exact ⟨result, domains ▸ left.fixings, roster ▸ left.replaced, subs.trans left.subscriptions,
      agenda.trans left.agenda, failure.trans left.failure⟩
  cases verdict with
  | atFixpoint =>
    obtain rfl := pure_eq_ok_iff.1 concluded
    exact keeps_of_atFixpoint h sound active result left
  | subsumed =>
    obtain ⟨result, left⟩ := counted (w := State.remark { u with statistics := { u.statistics with
      subsumptions := u.statistics.subsumptions + 1 } } (.subsumed id)) rfl rfl rfl rfl rfl
    exact keeps_of_subsumed h sound active result left concluded
  | replaceBy b =>
    obtain ⟨v, retired, concluded⟩ := bind_eq_ok_iff.1 concluded
    obtain ⟨⟨replacement, w⟩, added, concluded⟩ := bind_eq_ok_iff.1 concluded
    obtain rfl := pure_eq_ok_iff.1 concluded
    obtain ⟨result, left⟩ := counted (w := { u with statistics := { u.statistics with
      replacements := u.statistics.replacements + 1 } }) rfl rfl rfl rfl rfl
    have kept := keeps_of_replaced h sound active result left retired added
    exact ⟨kept.sound, kept.coherent.of_same rfl rfl rfl rfl, kept.stable⟩

/-- A run either keeps all stable points or finds that there is none. -/
theorem runPropagator_keeps (h : s.Coherent nothingDue (some id)) (sound : s.failure = none)
    (ran : s.runPropagator id = .ok (r, t)) :
    (r = .ok () ∧ s.Keeps t) ∨ ∃ i, r = .error i ∧ ∀ e, ¬ s.StableAt e := by
  rcases runPropagator_cases ran with
    ⟨absent, rfl, rfl⟩ | ⟨p, q, outcome, u, active, attempted, left, concluded⟩
  · refine Or.inl ⟨rfl, sound, ⟨h.agenda, h.faithful, h.heard, h.due_true, ?_⟩, fun _ => Iff.rfl⟩
    intro j p active
    apply (h.attended active).of_other rfl (fun _ _ _ => Iff.rfl) _ (fun _ _ _ never => never)
    intro queued
    rcases queued with self | queued
    · rw [← Option.some.inj self, absent] at active
      cases active
    · exact Or.inr queued
  rcases concluded with ⟨i, rfl, rfl, rfl⟩ | ⟨verdict, rfl, rfl, concluded⟩
  · refine Or.inr ⟨i, rfl, ?_⟩
    intro e stable
    have justified := (Contract.ran (h.attended active).consistent attempted).justified
    exact justified e stable.2.1 (stable.2.2 id p active)
  · exact Or.inl ⟨rfl, conclude_keeps h sound active attempted left concluded⟩

structure AtFixpoint (s : State κ) : Prop where
  sound : s.failure = none
  coherent : s.Coherent nothingDue none
  quiet : s.domains.pending.events = []
  nobody : ∀ id, s.agenda.contains id = false

omit [Contract κ] in
omit [Semantics κ] [Contract κ] in
theorem news_of_quiet (quiet : s.domains.pending.events = []) (id : PropagatorId) :
    s.News nothingDue id = fun _ => False := by
  funext n
  apply eq_false
  intro fresh
  obtain ⟨e, d, never | ⟨pending, -⟩⟩ := fresh
  · exact never
  · rw [quiet] at pending
    cases pending

omit [Contract κ] in
theorem AtFixpoint.settled (h : s.AtFixpoint) (active : s.roster.get? id = some p) :
    Current p s.domains.known (fun _ => False) ∧ Settled p s.domains.known fun _ => False := by
  have attended := h.coherent.attended active
  have current := attended.current
  have settled := attended.settled
  rw [news_of_quiet h.quiet] at current settled
  rcases settled with (never | queued) | settled
  · cases never
  · rw [h.nobody id] at queued
    cases queued
  · exact ⟨current, settled⟩

/-- At a fixpoint no propagator has anything to add to the store. -/
theorem AtFixpoint.stableAt (h : s.AtFixpoint) : s.StableAt s.domains.known := by
  refine ⟨h.sound, PartialValuation.extends_refl _, ?_⟩
  intro id p active
  obtain ⟨current, settled⟩ := h.settled active
  exact Contract.stableAt_of_settled (h.coherent.attended active).consistent current settled

omit [Semantics κ] [Contract κ] in
theorem failure_deliverPending (delivered : s.deliverPending = .ok t) : t.failure = s.failure := by
  refine deliverPending_induction (P := fun u : State κ => u.failure = s.failure) (fun _ => rfl) ?_
    delivered
  intro u w e d who same step
  rcases deliver_cases step with ⟨-, rfl⟩ | ⟨_, _, _, _, _, _, _, _, _, failure⟩
  · exact same
  · exact failure.trans same

theorem Coherent.pop (h : s.Coherent due none) {agenda : Agenda}
    (popped : s.agenda.pop = .ok (some id, agenda)) :
    ({ s with agenda } : State κ).Coherent due (some id) := by
  refine ⟨h.agenda.pop popped, h.faithful, h.heard, h.due_true, ?_⟩
  intro j p active
  apply (h.attended active).of_other (t := { s with agenda }) rfl (fun _ _ _ => Iff.rfl) _
    (fun _ _ _ waiting => waiting)
  intro queued
  rcases queued with never | queued
  · cases never
  by_cases first : j = id
  · exact Or.inl (congrArg some first.symm)
  · refine Or.inr ?_
    rw [Agenda.contains_pop popped, queued]
    simp [first]

theorem stableAt_of_work (work : s.Work t) (e : PartialValuation) :
    t.StableAt e ↔ s.StableAt e := by
  cases work with
  | drained _ values =>
    unfold StableAt
    rw [Domains.known_congr values]
  | told coherent told delivered => exact stableAt_deliver coherent told delivered e
  | popped => exact Iff.rfl
  | ran coherent sound ran =>
    rcases runPropagator_keeps coherent sound ran with ⟨-, kept⟩ | ⟨i, outcome, -⟩
    · exact kept.stable e
    · cases outcome

theorem stableAt_of_works (works : s.Works t) (e : PartialValuation) :
    t.StableAt e ↔ s.StableAt e := by
  induction works with
  | refl => rfl
  | tail _ last ih => exact (stableAt_of_work last e).trans ih

theorem fixpointWithin_keeps {rounds : Nat} (h : s.Coherent nothingDue none)
    (sound : s.failure = none) (run : fixpointWithin rounds s = .ok (r, t)) :
    (r = .ok () ∧ t.AtFixpoint ∧ s.Works t) ∨
      ∃ i, r = .error i ∧ t.failure = some i ∧ ∀ e, ¬ s.StableAt e := by
  induction rounds generalizing s with
  | zero => cases run
  | succ rounds ih =>
    obtain ⟨u, delivered, run⟩ := bind_eq_ok_iff.1 run
    obtain ⟨⟨first, agenda⟩, popped, run⟩ := bind_eq_ok_iff.1 run
    obtain ⟨coherent, quiet, works⟩ := deliverPending_keeps h delivered
    have sound : u.failure = none := (failure_deliverPending delivered).trans sound
    have works := works.tail (.popped popped)
    cases first with
    | none =>
      obtain ⟨rfl, nobody⟩ := Agenda.pop_none coherent.agenda popped
      obtain ⟨rfl, rfl⟩ := pure_pair_eq_ok_iff.1 run
      exact Or.inl ⟨rfl, ⟨sound, coherent, quiet, nobody⟩, works⟩
    | some id =>
      have running := coherent.pop popped
      obtain ⟨⟨outcome, w⟩, ran, run⟩ := bind_eq_ok_iff.1 run
      rcases runPropagator_keeps running sound ran with
        ⟨rfl, soundThen, coherentThen, -⟩ | ⟨i, rfl, never⟩
      · have works := works.tail (.ran running sound ran)
        rcases ih coherentThen soundThen run with ⟨rfl, rest, more⟩ | ⟨i, rfl, failure, never⟩
        · exact Or.inl ⟨rfl, rest, works.trans more⟩
        · exact Or.inr ⟨i, rfl, failure, fun e old => never e ((stableAt_of_works works e).2 old)⟩
      · obtain ⟨rfl, rfl⟩ := pure_pair_eq_ok_iff.1 run
        exact Or.inr ⟨i, rfl, rfl, fun e old => never e ((stableAt_of_works works e).2 old)⟩

end run

end State
end PseudoBoolean
