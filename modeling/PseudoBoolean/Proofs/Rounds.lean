import PseudoBoolean.Proofs.Audiences
import PseudoBoolean.Proofs.Calls
import PseudoBoolean.Proofs.Evolution

/-!
Deliveries, and the rounds of a propagation. The deliveries of a drain are described by what they
write into the journal, each entry with the call of a propagator that it stands for. A property that
every piece of the work keeps holds in all states of a run, also in those in which a round of a
propagation begins.
-/
namespace PseudoBoolean

def Entry.notice? {κ : Type} [PropagatorKinds κ] : Entry κ → Option (Subscriber × Event × DomainId)
  | .notified who e d _ _ => some (who, e, d)
  | _ => none

namespace State
variable {κ : Type} [PropagatorKinds κ] {s t u : State κ} {id : PropagatorId}

section deliveries
variable {written : List (Entry κ)} {e : Event} {d : DomainId}

def AskedToRun (written : List (Entry κ)) (id : PropagatorId) : Prop :=
  ∃ n e d after, Entry.notified ⟨id, n⟩ e d .enqueue after ∈ written

/-- What deliveries do to a state, whatever the propagators make of them. -/
structure Delivered (s : State κ) (written : List (Entry κ)) (t : State κ) : Prop where
  domains : t.domains = s.domains
  subscriptions : t.subscriptions = s.subscriptions
  failure : t.failure = s.failure
  size : t.roster.size = s.roster.size
  active : ∀ id, t.isActive id = s.isActive id
  entries : t.entries = s.entries ++ written
  called : Called (· = s.domains) s.roster written t.roster
  queued : ∀ id, t.agenda.contains id = true ↔
    s.agenda.contains id = true ∨ AskedToRun written id
  numQueued : t.agenda.numQueued ≤ s.agenda.numQueued + written.length
  wellFormed : s.agenda.WellFormed → t.agenda.WellFormed
  tallied : s.agenda.Tallied s.roster.size → t.agenda.Tallied t.roster.size

theorem askedToRun_append {more : List (Entry κ)} :
    AskedToRun (written ++ more) id ↔ AskedToRun written id ∨ AskedToRun more id := by
  simp only [AskedToRun, List.mem_append, exists_or]

theorem delivered_refl (s : State κ) : s.Delivered [] s := by
  constructor
  case called => exact .nil s.roster
  all_goals simp [AskedToRun]

theorem Delivered.trans {more : List (Entry κ)} (h : s.Delivered written t)
    (k : t.Delivered more u) : s.Delivered (written ++ more) u where
  domains := k.domains.trans h.domains
  subscriptions := k.subscriptions.trans h.subscriptions
  failure := k.failure.trans h.failure
  size := k.size.trans h.size
  active id := (k.active id).trans (h.active id)
  entries := by rw [k.entries, h.entries, List.append_assoc]
  called := h.called.append (h.domains ▸ k.called)
  queued id := by rw [k.queued, h.queued, askedToRun_append, or_assoc]
  numQueued := by
    have first := h.numQueued
    have second := k.numQueued
    rw [List.length_append]
    omega
  wellFormed wf := k.wellFormed (h.wellFormed wf)
  tallied tallied := k.tallied (h.tallied tallied)

theorem delivered_deliver {who : Subscriber} (h : s.deliver e d who = .ok t) :
    ∃ written, s.Delivered written t ∧ written.map Entry.notice? =
      if s.isActive who.propagator then [some (who, e, d)] else [] := by
  rcases deliver_eq h with
    ⟨retired, rfl⟩ | ⟨p, q, decision, roster, agenda, active, notified, replaced, decided, rfl⟩
  · exact ⟨[], delivered_refl t, by rw [retired]; rfl⟩
  have present : s.isActive who.propagator = true := isActive_of_get? active
  refine ⟨[.notified who e d decision q], ?_, by rw [present]; rfl⟩
  have asked : ∀ id, AskedToRun [.notified who e d decision q] id ↔
      decision = .enqueue ∧ id = who.propagator := by
    intro id
    constructor
    · intro ⟨n, f, c, after, member⟩
      cases List.mem_singleton.1 member
      exact ⟨rfl, rfl⟩
    · rintro ⟨rfl, rfl⟩
      exact ⟨who.localId, e, d, q, List.mem_singleton.2 rfl⟩
  constructor
  case domains | subscriptions | failure => rfl
  case size => exact Roster.size_of_replace replaced
  case entries => exact entries_enter _ _
  case called => exact called_singleton rfl (.notified active notified replaced)
  case active =>
    intro id
    simp only [isActive, enter, Roster.get?_of_replace replaced]
    split
    · next same => rw [same, active]; rfl
    · rfl
  case queued =>
    intro id
    rw [asked]
    rcases decided with ⟨rfl, rfl⟩ | ⟨rfl, enqueued⟩
    · simp [enter]
    · simp [enter, Agenda.contains_enqueue enqueued, or_comm]
  case numQueued =>
    rcases decided with ⟨-, rfl⟩ | ⟨-, enqueued⟩
    · exact Nat.le_add_right _ _
    · have counted := Agenda.numQueued_of_enqueue enqueued
      simp only [enter, List.length_singleton]
      split at counted <;> omega
  case wellFormed =>
    intro wf
    rcases decided with ⟨-, rfl⟩ | ⟨-, enqueued⟩
    · exact wf
    · exact wf.enqueue enqueued
  case tallied =>
    intro tallied
    simp only [enter, Roster.size_of_replace replaced]
    rcases decided with ⟨-, rfl⟩ | ⟨-, enqueued⟩
    · exact tallied
    · exact tallied.enqueue enqueued (Roster.index_lt_of_get? active)

def listeners (s : State κ) (e : Event) (d : DomainId) : List Subscriber :=
  (s.subscriptions.audience e d).filter fun who => s.isActive who.propagator

def deliveries (s : State κ) (events : List (Event × DomainId)) :
    List (Subscriber × Event × DomainId) :=
  events.flatMap fun (e, d) => (s.listeners e d).map fun who => (who, e, d)

theorem deliveries_singleton (s : State κ) (e : Event) (d : DomainId) :
    s.deliveries [(e, d)] = (s.listeners e d).map fun who => (who, e, d) :=
  List.flatMap_singleton ..

theorem deliveries_cons (s : State κ) (event : Event × DomainId)
    (rest : List (Event × DomainId)) :
    s.deliveries (event :: rest) = s.deliveries [event] ++ s.deliveries rest := by
  simp [deliveries]

theorem mem_deliveries {events : List (Event × DomainId)} {who : Subscriber} :
    (who, e, d) ∈ s.deliveries events ↔ (e, d) ∈ events ∧ who ∈ s.listeners e d := by
  simp only [deliveries, List.mem_flatMap, List.mem_map]
  constructor
  · rintro ⟨⟨f, c⟩, recorded, w, heard, same⟩
    cases same
    exact ⟨recorded, heard⟩
  · intro ⟨recorded, heard⟩
    exact ⟨(e, d), recorded, who, heard, rfl⟩

theorem Delivered.listeners_eq (h : s.Delivered written t) (e : Event) (d : DomainId) :
    t.listeners e d = s.listeners e d := by
  simp only [listeners, h.subscriptions, h.active]

theorem Delivered.deliveries_eq (h : s.Delivered written t) (events : List (Event × DomainId)) :
    t.deliveries events = s.deliveries events := by
  simp only [deliveries, h.listeners_eq]

theorem delivered_toEach {audience : List Subscriber}
    (h : audience.foldlM (deliver · e d) s = .ok t) :
    ∃ written, s.Delivered written t ∧ written.map Entry.notice? =
      ((audience.filter fun who => s.isActive who.propagator).map fun who => (who, e, d)).map
        some := by
  induction audience generalizing s with
  | nil =>
    rw [← pure_eq_ok_iff.1 h]
    exact ⟨[], delivered_refl s, rfl⟩
  | cons who rest ih =>
    rw [List.foldlM_cons] at h
    obtain ⟨u, first, later⟩ := bind_eq_ok_iff.1 h
    obtain ⟨one, delivered, noticed⟩ := delivered_deliver first
    obtain ⟨others, more, later⟩ := ih later
    refine ⟨one ++ others, delivered.trans more, ?_⟩
    rw [List.map_append, noticed, later]
    simp only [delivered.active]
    by_cases active : s.isActive who.propagator = true <;> simp [active]

theorem delivered_deliverAll (h : s.deliverAll e d = .ok t) :
    ∃ written, s.Delivered written t ∧
      written.map Entry.notice? = (s.deliveries [(e, d)]).map some := by
  obtain ⟨audience, found, h⟩ := bind_eq_ok_iff.1 h
  rw [deliveries_singleton, listeners, ← Subscriptions.audience_of_subscribers found]
  exact delivered_toEach h

theorem delivered_events {events : List (Event × DomainId)}
    (h : events.foldlM (fun s (e, d) => s.deliverAll e d) s = .ok t) :
    ∃ written, s.Delivered written t ∧
      written.map Entry.notice? = (s.deliveries events).map some := by
  induction events generalizing s with
  | nil =>
    rw [← pure_eq_ok_iff.1 h]
    exact ⟨[], delivered_refl s, rfl⟩
  | cons event rest ih =>
    rw [List.foldlM_cons] at h
    obtain ⟨u, first, later⟩ := bind_eq_ok_iff.1 h
    obtain ⟨one, delivered, noticed⟩ := delivered_deliverAll first
    obtain ⟨others, more, later⟩ := ih later
    refine ⟨one ++ others, delivered.trans more, ?_⟩
    rw [List.map_append, noticed, later, delivered.deliveries_eq, deliveries_cons s event rest,
      List.map_append]

/-- Every event is delivered to all its listeners before the next one is. -/
theorem delivered_deliverPending (h : s.deliverPending = .ok t) :
    ∃ domains written, s.domains.drain = .ok (s.domains.pending.events, domains) ∧
      ({ s with domains } : State κ).Delivered written t ∧
      written.map Entry.notice? = (s.deliveries s.domains.pending.events).map some := by
  obtain ⟨⟨events, domains⟩, drained, h⟩ := bind_eq_ok_iff.1 h
  obtain ⟨rfl, -⟩ := Domains.frame_of_drain drained
  obtain ⟨written, delivered, noticed⟩ := delivered_events h
  exact ⟨domains, written, drained, delivered, noticed⟩

theorem isSome_of_map {more : List (Subscriber × Event × DomainId)}
    (told : written.map Entry.notice? = more.map some) :
    ∀ x ∈ written, x.notice?.isSome = true := by
  intro x member
  have inside : x.notice? ∈ more.map some := told ▸ List.mem_map_of_mem member
  obtain ⟨notice, -, same⟩ := List.mem_map.1 inside
  rw [← same]
  rfl

theorem pending_of_deliverPending (h : s.deliverPending = .ok t) :
    t.domains.pending.events = [] := by
  obtain ⟨domains, written, drained, delivered, -⟩ := delivered_deliverPending h
  rw [delivered.domains]
  exact (Domains.frame_of_drain drained).2.2.1

theorem known_of_deliverPending (h : s.deliverPending = .ok t) :
    t.domains.known = s.domains.known := by
  obtain ⟨domains, written, drained, delivered, -⟩ := delivered_deliverPending h
  rw [delivered.domains, Domains.known_congr (Domains.frame_of_drain drained).2.1]

theorem keeps_deliverPending {P : State κ → Prop} (faithful : s.domains.Faithful)
    (drained : ∀ {events domains}, s.domains.drain = .ok (events, domains) → P { s with domains })
    (told : ∀ {u w : State κ} {e : Event} {d : DomainId} {who : Subscriber}, P u →
      u.domains.known d = some e.value → who ∈ u.subscriptions.audience e d →
        u.deliver e d who = .ok w → P w)
    (h : s.deliverPending = .ok t) : P t := by
  obtain ⟨⟨events, domains⟩, taken, h⟩ := bind_eq_ok_iff.1 h
  obtain ⟨rfl, values, -, -⟩ := Domains.drain_cases faithful taken
  have kept := foldlM_keeps (fun rest (u : State κ) =>
      P u ∧ ∀ e d, (e, d) ∈ rest → u.domains.known d = some e.value) ?step ⟨drained taken, ?start⟩ h
  case start =>
    intro e d member
    rw [Domains.known_congr values]
    exact faithful.value_of_event member
  case step =>
    intro ⟨e, d⟩ rest u w ⟨holds, values⟩ delivered
    obtain ⟨audience, found, delivered⟩ := bind_eq_ok_iff.1 delivered
    have listed := Subscriptions.audience_of_subscribers found
    have each := foldlM_keeps (fun rest (v : State κ) =>
        P v ∧ v.domains = u.domains ∧ v.subscriptions = u.subscriptions ∧ rest ⊆ audience)
      ?_ ⟨holds, rfl, rfl, List.Subset.refl _⟩ delivered
    · obtain ⟨after, domains, -, -⟩ := each
      exact ⟨after, fun f c member => domains ▸ values f c (.tail _ member)⟩
    · intro who rest v w ⟨holds, domains, subscriptions, inside⟩ step
      have frame := frame_deliver step
      have hears : who ∈ v.subscriptions.audience e d := by
        rw [subscriptions, ← listed]
        exact inside List.mem_cons_self
      exact ⟨told holds (domains ▸ values e d List.mem_cons_self) hears step,
        frame.2.trans domains, frame.1.trans subscriptions,
        fun x member => inside (.tail _ member)⟩
  exact kept.1

end deliveries

section rounds
variable {v w : State κ} {agenda : Agenda} {r : Except Inconsistency Unit}

/-- The states in which a propagation of `s` begins a round. -/
inductive RoundAt (s : State κ) : State κ → Prop where
  | first : s.failure = none → RoundAt s s
  | next {u v w : State κ} {id : PropagatorId} {agenda : Agenda} :
      RoundAt s u → u.deliverPending = .ok v → v.agenda.pop = .ok (some id, agenda) →
        runPropagator { v with agenda } id = .ok (.ok (), w) → RoundAt s w

/-- A propagation ends in the round in which nobody waits, or in one with an inconsistency. -/
theorem last_round_of_propagate (h : s.propagate = .ok (r, t)) :
    (∃ i, s.failure = some i ∧ r = .error i ∧ t = s) ∨
      ∃ u v first agenda, s.RoundAt u ∧ u.deliverPending = .ok v ∧
        v.agenda.pop = .ok (first, agenda) ∧
        ((first = none ∧ r = .ok () ∧ t = { v with agenda }) ∨
          ∃ id w i, first = some id ∧ runPropagator { v with agenda } id = .ok (.error i, w) ∧
            r = .error i ∧ t = State.fail { w with
              statistics := { w.statistics with conflicts := w.statistics.conflicts + 1 } } i) := by
  unfold propagate at h
  split at h
  · next i failed =>
    obtain ⟨rfl, rfl⟩ := pure_pair_eq_ok_iff.1 h
    exact .inl ⟨i, failed, rfl, rfl⟩
  next sound =>
  refine .inr ?_
  suffices ∀ rounds u, s.RoundAt u → fixpointWithin rounds u = .ok (r, t) → _ from
    this s.maxRounds s (.first sound) h
  intro rounds
  induction rounds with
  | zero =>
    intro u _ run
    cases run
  | succ rounds ih =>
    intro u round run
    obtain ⟨v, delivered, run⟩ := bind_eq_ok_iff.1 run
    obtain ⟨⟨first, agenda⟩, popped, run⟩ := bind_eq_ok_iff.1 run
    cases first with
    | none =>
      obtain ⟨rfl, rfl⟩ := pure_pair_eq_ok_iff.1 run
      exact ⟨u, v, none, agenda, round, delivered, popped, .inl ⟨rfl, rfl, rfl⟩⟩
    | some id =>
      obtain ⟨⟨outcome, w⟩, ran, run⟩ := bind_eq_ok_iff.1 run
      cases outcome with
      | ok done => exact ih w (.next round delivered popped ran) run
      | error i =>
        obtain ⟨rfl, rfl⟩ := pure_pair_eq_ok_iff.1 run
        exact ⟨u, v, some id, agenda, round, delivered, popped,
          .inr ⟨id, w, i, rfl, ran, rfl, rfl⟩⟩

/-- What every piece of the work on a state keeps. A propagator runs when nothing is pending. -/
structure Kept (P : State κ → Prop) : Prop where
  remarked : ∀ {s : State κ} (r : Remark), P s → P (s.remark r)
  counted : ∀ {s : State κ} (statistics : Statistics), P s → P { s with statistics }
  fixed : ∀ {s : State κ} {l : Literal} {v : Bool} {r : Fixing} {domains : Domains},
    P s → s.domains.fixVariable l v = .ok (r, domains) → P { s with domains }
  failed : ∀ {s : State κ} (i : Inconsistency), P s → P (s.fail i)
  added : ∀ {s t : State κ} {b : AnyBlueprint κ} {id : PropagatorId},
    P s → s.addPropagator b = .ok (id, t) → P t
  delivered : ∀ {s t : State κ}, P s → s.deliverPending = .ok t → P t
  popped : ∀ {s : State κ} {first : Option PropagatorId} {agenda : Agenda},
    P s → s.agenda.pop = .ok (first, agenda) → P { s with agenda }
  ran : ∀ {s t : State κ} {id : PropagatorId} {r : Except Inconsistency Unit},
    P s → s.domains.pending.events = [] → s.runPropagator id = .ok (r, t) → P t

variable {P : State κ → Prop}

theorem Kept.roundAt (kept : Kept P) (start : P s) (h : s.RoundAt u) : P u := by
  induction h with
  | first => exact start
  | next _ delivered popped ran ih =>
    have quiet := pending_of_deliverPending delivered
    exact kept.ran (kept.popped (kept.delivered ih delivered) popped) quiet ran

theorem Kept.propagated (kept : Kept P) (start : P s) (h : s.propagate = .ok (r, t)) : P t := by
  rcases last_round_of_propagate h with
    ⟨-, -, -, rfl⟩ | ⟨u, v, first, agenda, round, delivered, popped, last⟩
  · exact start
  have waiting := kept.popped (kept.delivered (kept.roundAt start round) delivered) popped
  rcases last with ⟨-, -, rfl⟩ | ⟨id, w, i, -, ran, -, rfl⟩
  · exact waiting
  · have quiet := pending_of_deliverPending delivered
    exact kept.failed i (kept.counted _ (kept.ran waiting quiet ran))

theorem Kept.change (kept : Kept P) (start : P s) (h : s.Change t) : P t := by
  cases h with
  | remarked r => exact kept.remarked r start
  | fixed fixed => exact kept.fixed start fixed
  | failed i => exact kept.failed i start
  | added added => exact kept.added start added
  | propagated propagated => exact kept.propagated start propagated

theorem Kept.reachable [HoldsStandard κ] (kept : Kept P) (new : ∀ limits, P (State.new limits))
    (grow : ∀ {s}, P s → P s.newLiteral.2) (h : s.Reachable) : P s :=
  h.keeps new grow kept.change

/-- A run of a propagator is kept if its pieces are: what the propagator does itself, its
    retirement, and the propagator that takes over from it. -/
theorem Kept.of_pieces (remarked : ∀ {s : State κ} (r : Remark), P s → P (s.remark r))
    (counted : ∀ {s : State κ} (statistics : Statistics), P s → P { s with statistics })
    (fixed : ∀ {s : State κ} {l : Literal} {v : Bool} {r : Fixing} {domains : Domains},
      P s → s.domains.fixVariable l v = .ok (r, domains) → P { s with domains })
    (failed : ∀ {s : State κ} (i : Inconsistency), P s → P (s.fail i))
    (added : ∀ {s t : State κ} {b : AnyBlueprint κ} {id : PropagatorId},
      P s → s.addPropagator b = .ok (id, t) → P t)
    (delivered : ∀ {s t : State κ}, P s → s.deliverPending = .ok t → P t)
    (popped : ∀ {s : State κ} {first : Option PropagatorId} {agenda : Agenda},
      P s → s.agenda.pop = .ok (first, agenda) → P { s with agenda })
    (left : ∀ {s u : State κ} {id : PropagatorId} {q : AnyPropagator κ}
      {outcome : Except Inconsistency (Verdict (AnyBlueprint κ))},
      P s → s.isActive id = true → s.RanTo id q outcome u → P u)
    (retired : ∀ {s t : State κ} {id : PropagatorId}, P s → s.retire id = .ok t → P t) :
    Kept P := by
  refine ⟨remarked, counted, fixed, failed, added, delivered, popped, ?_⟩
  intro s t id r start _ h
  rcases runPropagator_eq h with
    ⟨-, -, rfl⟩ | ⟨p, q, outcome, u, active, -, ran, ⟨i, -, -, rfl⟩ | ⟨verdict, -, -, concluded⟩⟩
  · exact start
  · exact left start (isActive_of_get? active) ran
  have then_ := left start (isActive_of_get? active) ran
  rcases conclude_eq concluded with
    ⟨-, rfl⟩ | ⟨-, statistics, gone⟩ | ⟨b, statistics, replacement, v, w, -, gone, built, rfl⟩
  · exact then_
  · exact retired (remarked _ (counted _ then_)) gone
  · exact remarked _ (added (retired (counted _ then_) gone) built)

theorem kept_extends (e : PartialValuation) :
    Kept fun u : State κ => u.domains.known.Extends e := by
  apply Kept.of_pieces
  case remarked | counted | failed => exact fun _ above => above
  case popped => exact fun above _ => above
  case fixed =>
    exact fun above fixed => PartialValuation.extends_trans (Domains.extends_of_fix fixed) above
  case left =>
    exact fun above _ ran => PartialValuation.extends_trans ran.fixings.extends above
  case added =>
    intro s t b id above added
    obtain ⟨p, registrations, added⟩ := added_addPropagator added
    exact added.domains ▸ above
  case delivered =>
    intro s t above delivered
    exact (known_of_deliverPending delivered).symm ▸ above
  case retired =>
    intro s t id above gone
    obtain ⟨-, -, -, -, rfl⟩ := retire_eq gone
    exact above

theorem Documented.deliverPending (h : s.Documented) (done : s.deliverPending = .ok t) :
    t.Documented := by
  obtain ⟨domains, written, drained, told, -⟩ := delivered_deliverPending done
  have known : t.domains.known = s.domains.known := known_of_deliverPending done
  have above : t.domains.known.Extends s.domains.known := known ▸ PartialValuation.extends_refl _
  refine h.extend above told.entries (told.called.mono ?_)
  rintro seen rfl
  rw [told.domains]
  exact PartialValuation.extends_refl _

theorem kept_documented : Kept fun s : State κ => s.Documented where
  remarked r h := h.remark r
  counted _ h := h.of_unwritten (PartialValuation.extends_refl _) rfl rfl
  fixed h fixed := h.of_unwritten (Domains.extends_of_fix fixed) rfl rfl
  failed _ h := h.of_unwritten (PartialValuation.extends_refl _) rfl rfl
  added h added := h.addPropagator added
  delivered h done := h.deliverPending done
  popped h _ := h.of_unwritten (PartialValuation.extends_refl _) rfl rfl
  ran h _ done := h.runPropagator done

theorem Reachable.documented [HoldsStandard κ] (h : s.Reachable) : s.Documented :=
  kept_documented.reachable documented_new Documented.newLiteral h

section moments
variable [HoldsStandard κ]

/-- The moments of a run after `s`: those after an operation, and in a propagation those after a
    drain and after the run of a propagator that follows. -/
inductive Later (s : State κ) : State κ → Prop where
  | here : Later s s
  | applied {t u : State κ} {op : Operation κ} {a : Answer} :
      Later s t → op.apply t = .ok (a, u) → Later s u
  | drained {t u : State κ} : Later s t → t.deliverPending = .ok u → Later s u
  | ran {t u v : State κ} {id : PropagatorId} {agenda : Agenda} {r : Except Inconsistency Unit} :
      Later s t → t.deliverPending = .ok u → u.agenda.pop = .ok (some id, agenda) →
        runPropagator { u with agenda } id = .ok (r, v) → Later s v

theorem Later.trans (h : s.Later t) (k : t.Later u) : s.Later u := by
  induction k with
  | here => exact h
  | applied _ applied ih => exact ih.applied applied
  | drained _ drained ih => exact ih.drained drained
  | ran _ drained popped ran ih => exact ih.ran drained popped ran

theorem LeadsTo.later (h : LeadsTo s t) : s.Later t := by
  induction h with
  | refl s => exact .here
  | step first _ ih => exact (Later.here.applied first).trans ih

theorem RoundAt.later (h : s.RoundAt u) : s.Later u := by
  induction h with
  | first => exact .here
  | next _ drained popped ran ih => exact ih.ran drained popped ran

theorem Kept.later (kept : Kept P) (grow : ∀ {s}, P s → P s.newLiteral.2) (start : P s)
    (h : s.Later t) : P t := by
  induction h with
  | here => exact start
  | applied _ applied ih =>
    rcases evolves_apply applied with evolved | rfl
    · exact evolved.keeps (fun holds change => kept.change holds change) ih
    · exact grow ih
  | drained _ drained ih => exact kept.delivered ih drained
  | ran _ drained popped ran ih =>
    have quiet := pending_of_deliverPending drained
    exact kept.ran (kept.popped (kept.delivered ih drained) popped) quiet ran

end moments

theorem Evolves.extends (h : s.Evolves t) : t.domains.known.Extends s.domains.known :=
  h.keeps (P := fun u : State κ => u.domains.known.Extends s.domains.known)
    (fun above change => (kept_extends _).change above change) (PartialValuation.extends_refl _)

end rounds

end State
end PseudoBoolean
