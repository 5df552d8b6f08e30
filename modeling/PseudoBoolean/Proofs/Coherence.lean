import Mathlib.Logic.Relation
import PseudoBoolean.Proofs.Agenda
import PseudoBoolean.Proofs.Contract
import PseudoBoolean.Proofs.Pieces
import PseudoBoolean.Proofs.Subscriptions

/-!
The invariant of the engine: whatever a propagator was not told yet is a pending event on a domain
that it subscribed to, or a delivery that is due; and a propagator that nobody is about to run has
no reason to run before it gets news. The steps of the engine are shown to keep this, one at a time.
-/
namespace PseudoBoolean
namespace State
variable {κ : Type} [PropagatorKinds κ] [Semantics κ]
open Semantics

/-- Deliveries that have been taken from the pending events and not been made yet. -/
abbrev Due := Event → DomainId → Subscriber → Prop

def nothingDue : Due := fun _ _ _ => False

def News (s : State κ) (due : Due) (id : PropagatorId) (n : LocalId) : Prop :=
  ∃ e d, due e d ⟨id, n⟩ ∨
    ((e, d) ∈ s.domains.pending.events ∧ s.subscriptions.Hears e d ⟨id, n⟩)

structure Attended (s : State κ) (due : Due) (running : Option PropagatorId) (id : PropagatorId)
    (p : AnyPropagator κ) : Prop where
  consistent : Consistent p
  hears : ∀ {n d}, watch p n = some d → ∀ e c, s.subscriptions.Hears e c ⟨id, n⟩ ↔ c = d
  current : Current p s.domains.known (s.News due id)
  settled : (running = some id ∨ s.agenda.contains id = true) ∨
    Settled p s.domains.known (s.News due id)

structure Coherent (s : State κ) (due : Due) (running : Option PropagatorId) : Prop where
  agenda : s.agenda.WellFormed
  faithful : s.domains.Faithful
  heard : ∀ {e d w}, s.subscriptions.Hears e d w → w.propagator.index < s.roster.size
  due_true : ∀ {e d w}, due e d w → s.domains.known d = some e.value ∧ s.subscriptions.Hears e d w
  attended : ∀ {id p}, s.roster.get? id = some p → s.Attended due running id p

/-- Between two operations nothing is due and nobody is running. A failed state is done with. -/
def WellFormed (s : State κ) : Prop := s.failure = none → s.Coherent nothingDue none

theorem coherent_new (limits : Limits) : (State.new (κ := κ) limits).Coherent nothingDue none := by
  constructor
  · exact Agenda.wellFormed_empty
  · constructor
    · intro e d member
      cases member
    · intro e d flags found
      simp [State.new, Table.get?] at found
  · exact fun hears => absurd hears Subscriptions.hears_empty
  · exact fun never => never.elim
  · intro id p found
    simp [State.new, Roster.get?, Table.get?] at found

variable {s t : State κ} {due due' : Due} {running running' : Option PropagatorId}
  {id : PropagatorId} {p : AnyPropagator κ}

theorem Attended.of_reported [Contract κ] (h : s.Attended due running id p)
    (hears : ∀ e d n, t.subscriptions.Hears e d ⟨id, n⟩ ↔ s.subscriptions.Hears e d ⟨id, n⟩)
    (queued : running = some id ∨ s.agenda.contains id = true →
      running' = some id ∨ t.agenda.contains id = true)
    (reported : Reported (watch p) s.domains.known t.domains.known (s.News due id)
      (t.News due' id)) : t.Attended due' running' id p where
  consistent := h.consistent
  hears watched e c := (hears e c _).trans (h.hears watched e c)
  current := Contract.current_of_reported h.consistent reported h.current
  settled := h.settled.imp queued (Contract.settled_of_reported reported)

/-- A new value of a watched domain is a pending event that the propagator will hear of. -/
theorem reported_of_fix (faithful : s.domains.Faithful)
    (hears : ∀ {n d}, watch p n = some d → ∀ e c, s.subscriptions.Hears e c ⟨id, n⟩ ↔ c = d)
    {domains : Domains} {d : DomainId} {v : Bool} {r : Fixing}
    (h : s.domains.fix d v = .ok (r, domains)) :
    Reported (watch p) s.domains.known domains.known (s.News due id)
      (({ s with domains } : State κ).News due id) := by
  have pending := Domains.mem_events_of_fix faithful h
  have kept : ∀ n, s.News due id n → ({ s with domains } : State κ).News due id n := by
    rintro n ⟨e, c, old | ⟨old, heard⟩⟩
    · exact ⟨e, c, Or.inl old⟩
    · exact ⟨e, c, Or.inr ⟨(pending e c).2 (Or.inl old), heard⟩⟩
  intro n c watched
  rcases Domains.fix_cases h with ⟨changed, -, learnt, -⟩ | ⟨-, -, rfl⟩ | ⟨-, -, rfl⟩
  · by_cases same : c = d
    · refine Or.inl ⟨.ofValue v, d, Or.inr ⟨?_, ?_⟩⟩
      · exact (pending _ _).2 (Or.inr ⟨changed, rfl, rfl⟩)
      · exact (hears watched _ _).2 same.symm
    · by_cases fresh : s.News due id n
      · exact Or.inl (kept n fresh)
      · rw [learnt, PartialValuation.learn, if_neg same]
        exact Or.inr ⟨rfl, fresh⟩
  · exact reported_of_subset (fun _ fresh => fresh) n c watched
  · exact reported_of_subset (fun _ fresh => fresh) n c watched

theorem Coherent.fix [Contract κ] (h : s.Coherent due running) {domains : Domains} {d : DomainId}
    {v : Bool} {r : Fixing} (fixed : s.domains.fix d v = .ok (r, domains)) :
    ({ s with domains } : State κ).Coherent due running where
  agenda := h.agenda
  faithful := h.faithful.of_fix fixed
  heard := h.heard
  due_true waiting := ⟨Domains.extends_of_fix fixed _ _ (h.due_true waiting).1,
    (h.due_true waiting).2⟩
  attended active := (h.attended active).of_reported (fun _ _ _ => Iff.rfl) id
    (reported_of_fix h.faithful (h.attended active).hears fixed)

theorem Coherent.leadsTo [Contract κ] (h : s.Coherent due running) {domains : Domains}
    (fixings : s.domains.LeadsTo domains) :
    ({ s with domains } : State κ).Coherent due running := by
  generalize start : s.domains = before at fixings
  induction fixings generalizing s with
  | refl =>
    rw [← start]
    exact h
  | @fix _ after _ _ _ _ step _ ih =>
    rw [← start] at step
    exact ih (s := { s with domains := after }) (h.fix step) rfl

theorem reported_of_leadsTo [Contract κ] (h : s.Coherent due running)
    (active : s.roster.get? id = some p) {domains : Domains}
    (fixings : s.domains.LeadsTo domains) :
    Reported (watch p) s.domains.known domains.known (s.News due id)
      (({ s with domains } : State κ).News due id) := by
  generalize start : s.domains = before at fixings
  induction fixings generalizing s with
  | refl =>
    rw [← start]
    exact reported_of_subset fun _ fresh => fresh
  | @fix _ after _ _ _ _ step _ ih =>
    rw [← start] at step
    have first : Reported (watch p) s.domains.known after.known (s.News due id)
        (({ s with domains := after } : State κ).News due id) :=
      reported_of_fix h.faithful (h.attended active).hears step
    rw [start] at first
    exact first.trans (ih (s := { s with domains := after }) (h.fix step) active rfl)

theorem Attended.of_other [Contract κ] (h : s.Attended due running id p)
    (domains : t.domains = s.domains)
    (hears : ∀ e d n, t.subscriptions.Hears e d ⟨id, n⟩ ↔ s.subscriptions.Hears e d ⟨id, n⟩)
    (queued : running = some id ∨ s.agenda.contains id = true →
      running' = some id ∨ t.agenda.contains id = true)
    (due : ∀ e d n, due e d ⟨id, n⟩ → due' e d ⟨id, n⟩) : t.Attended due' running' id p := by
  apply h.of_reported hears queued
  rw [domains]
  apply reported_of_subset
  rintro n ⟨e, d, waiting | ⟨pending, heard⟩⟩
  · exact ⟨e, d, Or.inl (due e d n waiting)⟩
  · exact ⟨e, d, Or.inr ⟨domains ▸ pending, (hears e d n).2 heard⟩⟩

theorem Coherent.of_same [Contract κ] (h : s.Coherent due running)
    (domains : t.domains = s.domains) (subs : t.subscriptions = s.subscriptions)
    (roster : t.roster = s.roster) (agenda : t.agenda = s.agenda) : t.Coherent due running := by
  refine ⟨agenda ▸ h.agenda, domains ▸ h.faithful, ?_, ?_, ?_⟩
  · intro e d w
    rw [subs, roster]
    exact h.heard
  · intro e d w
    rw [domains, subs]
    exact h.due_true
  · intro id p active
    rw [roster] at active
    apply (h.attended active).of_other domains _ _ (fun _ _ _ waiting => waiting)
    · intro e d n
      rw [subs]
    · rw [agenda]
      exact fun queued => queued

omit [Semantics κ] in
theorem deliver_cases {e : Event} {d : DomainId} {who : Subscriber}
    (h : s.deliver e d who = .ok t) :
    (s.roster.get? who.propagator = none ∧ t = s) ∨
      ∃ p q decision, s.roster.get? who.propagator = some p ∧
        p.notify s.domains who.localId e = .ok (q, decision) ∧
        s.roster.replace who.propagator q = .ok t.roster ∧
        (decision = .skip ∧ t.agenda = s.agenda ∨
          s.agenda.enqueue who.propagator q.priority = .ok t.agenda) ∧
        t.domains = s.domains ∧ t.subscriptions = s.subscriptions ∧ t.failure = s.failure := by
  rcases deliver_eq h with
    ⟨gone, rfl⟩ | ⟨p, q, decision, roster, agenda, active, notified, replaced, decided, rfl⟩
  · exact Or.inl ⟨isActive_eq_false_iff.1 gone, rfl⟩
  · refine Or.inr ⟨p, q, decision, active, notified, replaced, ?_, rfl, rfl, rfl⟩
    exact decided.imp_right And.right

theorem Coherent.of_retired [Contract κ] {who : Subscriber} (h : s.Coherent due running)
    (retired : s.roster.get? who.propagator = none) (fewer : ∀ f c w, due' f c w → due f c w)
    (others : ∀ f c w, w ≠ who → due f c w → due' f c w) : s.Coherent due' running := by
  refine ⟨h.agenda, h.faithful, h.heard, fun waiting => h.due_true (fewer _ _ _ waiting), ?_⟩
  intro id p active
  apply (h.attended active).of_other rfl (fun _ _ _ => Iff.rfl) (fun queued => queued)
  intro f c n waiting
  -- nobody is told of what is due to a propagator that is gone
  apply others f c _ _ waiting
  intro equal
  subst equal
  rw [retired] at active
  cases active

/-- The propagator that is told may be queued now; if not, it had no reason to be. -/
theorem Attended.of_notified {q : AnyPropagator κ} {n : LocalId} {decision : Decision}
    (attended : s.Attended due running id p)
    (notified : Notified p s.domains.known n q decision) (domains : t.domains = s.domains)
    (subs : t.subscriptions = s.subscriptions)
    (news : ∀ m, m ≠ n → s.News due id m → t.News due' id m)
    (decided : decision = .skip ∧ t.agenda = s.agenda ∨ t.agenda.contains id = true) :
    t.Attended due' running id q := by
  refine ⟨notified.consistent, ?_, ?_, ?_⟩
  · intro m c watched f b
    rw [subs]
    exact attended.hears (notified.watched watched) f b
  · rw [domains]
    exact notified.current news attended.current
  · rcases decided with ⟨skipped, same⟩ | queued
    · rw [domains, same]
      exact attended.settled.imp_right (notified.settled news skipped)
    · exact Or.inl (Or.inr queued)

theorem Coherent.deliver [Contract κ] {e : Event} {d : DomainId} {who : Subscriber}
    (h : s.Coherent due running) (told : due e d who)
    (fewer : ∀ f c w, due' f c w → due f c w)
    (others : ∀ f c w, w ≠ who → due f c w → due' f c w)
    (delivered : s.deliver e d who = .ok t) : t.Coherent due' running := by
  rcases deliver_cases delivered with
    ⟨retired, rfl⟩ | ⟨p, q, decision, active, notified, replaced, decided, domains, subs, -⟩
  · exact h.of_retired retired fewer others
  have attended := h.attended active
  have ⟨true_, heard⟩ := h.due_true told
  have notified := Contract.notified attended.consistent (fun c watched =>
    ((attended.hears watched e d).1 heard) ▸ true_) notified
  have contained : ∀ j, s.agenda.contains j = true → t.agenda.contains j = true := by
    intro j queued
    rcases decided with ⟨-, same⟩ | enqueued
    · rw [same]
      exact queued
    · rw [Agenda.contains_enqueue enqueued, queued, Bool.or_true]
  have agenda : t.agenda.WellFormed := by
    rcases decided with ⟨-, same⟩ | enqueued
    · rw [same]
      exact h.agenda
    · exact h.agenda.enqueue enqueued
  refine ⟨agenda, domains ▸ h.faithful, ?_, ?_, ?_⟩
  · intro f c w hears
    rw [subs] at hears
    rw [Roster.size_of_replace replaced]
    exact h.heard hears
  · intro f c w waiting
    rw [domains, subs]
    exact h.due_true (fewer f c w waiting)
  intro id p' found
  rw [Roster.get?_of_replace replaced] at found
  split at found
  case isFalse other =>
    apply (h.attended found).of_other domains (fun _ _ _ => by rw [subs])
      (fun queued => queued.imp_right (contained id))
    intro f c n waiting
    exact others f c _ (fun same => other (congrArg Subscriber.propagator same)) waiting
  case isTrue same =>
    obtain rfl := same
    obtain rfl := Option.some.inj found
    apply attended.of_notified notified domains subs
    · intro m other fresh
      obtain ⟨f, c, waiting | ⟨pending, hears⟩⟩ := fresh
      · have apart : (⟨who.propagator, m⟩ : Subscriber) ≠ who :=
          fun same => other (congrArg Subscriber.localId same)
        exact ⟨f, c, Or.inl (others f c _ apart waiting)⟩
      · exact ⟨f, c, Or.inr ⟨domains ▸ pending, subs ▸ hears⟩⟩
    · apply decided.imp_right
      intro enqueued
      rw [Agenda.contains_enqueue enqueued]
      simp

/-- The partial valuations at which nothing is left to infer: they agree with the store, and every
    active propagator is stable there. -/
def StableAt (s : State κ) (e : PartialValuation) : Prop :=
  s.failure = none ∧ e.Extends s.domains.known ∧
    ∀ id p, s.roster.get? id = some p → Semantics.StableAt p e

theorem not_stableAt_of_failure {i : Inconsistency} (h : s.failure = some i)
    (e : PartialValuation) : ¬ s.StableAt e := by
  rintro ⟨sound, -⟩
  rw [h] at sound
  cases sound

theorem stableAt_replace {q : AnyPropagator κ} (failure : t.failure = s.failure)
    (domains : t.domains = s.domains) (active : s.roster.get? id = some p)
    (replaced : s.roster.replace id q = .ok t.roster)
    (same : ∀ e, e.Extends s.domains.known → (Semantics.StableAt q e ↔ Semantics.StableAt p e))
    (e : PartialValuation) : t.StableAt e ↔ s.StableAt e := by
  unfold StableAt
  rw [failure, domains]
  have roster := Roster.get?_of_replace replaced
  constructor
  · intro ⟨sound, above, stable⟩
    refine ⟨sound, above, ?_⟩
    intro j r found
    by_cases self : j = id
    · have own := stable id q (by rw [roster, if_pos rfl])
      rw [self, active] at found
      cases found
      exact (same e above).1 own
    · exact stable j r (by rw [roster, if_neg self, found])
  · intro ⟨sound, above, stable⟩
    refine ⟨sound, above, ?_⟩
    intro j r found
    rw [roster] at found
    split at found
    · cases found
      exact (same e above).2 (stable id p active)
    · exact stable j r found

theorem stableAt_deliver [Contract κ] {e : Event} {d : DomainId} {who : Subscriber}
    (h : s.Coherent due running) (told : due e d who) (delivered : s.deliver e d who = .ok t)
    (v : PartialValuation) : t.StableAt v ↔ s.StableAt v := by
  rcases deliver_cases delivered with
    ⟨-, rfl⟩ | ⟨p, q, decision, active, notified, replaced, -, domains, -, failure⟩
  · rfl
  have attended := h.attended active
  have ⟨true_, heard⟩ := h.due_true told
  have notified := Contract.notified attended.consistent (fun c watched =>
    ((attended.hears watched e d).1 heard) ▸ true_) notified
  exact stableAt_replace failure domains active replaced notified.stable v

omit [Semantics κ] in
theorem frame_deliver {e : Event} {d : DomainId} {who : Subscriber}
    (delivered : s.deliver e d who = .ok t) :
    t.subscriptions = s.subscriptions ∧ t.domains = s.domains := by
  rcases deliver_cases delivered with ⟨-, rfl⟩ | ⟨_, _, _, _, _, _, _, domains, subs, _⟩
  · exact ⟨rfl, rfl⟩
  · exact ⟨subs, domains⟩

/-- The pieces of work that a propagation is made of, each on a state for which the invariant holds
    as far as the work relies on it. -/
inductive Work : State κ → State κ → Prop where
  | drained {s : State κ} {events : List (Event × DomainId)} {domains : Domains} :
      s.domains.drain = .ok (events, domains) → domains.values = s.domains.values →
        Work s { s with domains }
  | told {s t : State κ} {due : Due} {running : Option PropagatorId} {e : Event} {d : DomainId}
      {who : Subscriber} :
      s.Coherent due running → due e d who → s.deliver e d who = .ok t → Work s t
  | popped {s : State κ} {first : Option PropagatorId} {agenda : Agenda} :
      s.agenda.pop = .ok (first, agenda) → Work s { s with agenda }
  | ran {s t : State κ} {id : PropagatorId} :
      s.Coherent nothingDue (some id) → s.failure = none →
        s.runPropagator id = .ok (.ok (), t) → Work s t

abbrev Works : State κ → State κ → Prop := Relation.ReflTransGen Work

def owed (s : State κ) (events : List (Event × DomainId)) : Due :=
  fun e d w => (e, d) ∈ events ∧ s.subscriptions.Hears e d w

theorem deliverAll_keeps [Contract κ] {e : Event} {d : DomainId} {events : List (Event × DomainId)}
    (h : s.Coherent (s.owed ((e, d) :: events)) running) (delivered : s.deliverAll e d = .ok t) :
    t.Coherent (t.owed events) running ∧ t.domains = s.domains ∧ s.Works t := by
  obtain ⟨audience, asked, delivered⟩ := bind_eq_ok_iff.1 delivered
  have listed := Subscriptions.mem_subscribers asked
  -- what is due are the other events and the rest of the audience
  let left (rest : List Subscriber) : Due := fun f c w =>
    s.owed events f c w ∨ (f = e ∧ c = d ∧ w ∈ rest)
  have kept := foldlM_keeps (fun rest (u : State κ) =>
    u.Coherent (left rest) running ∧ u.subscriptions = s.subscriptions ∧ u.domains = s.domains ∧
      s.Works u) ?step ?start delivered
  · obtain ⟨coherent, subs, domains, works⟩ := kept
    refine ⟨?_, domains, works⟩
    have none_left : left [] = t.owed events := by
      funext f c w
      simp [left, owed, subs]
    exact none_left ▸ coherent
  case start =>
    have all : left audience = s.owed ((e, d) :: events) := by
      funext f c w
      simp only [left, owed, listed, List.mem_cons, Prod.mk.injEq, eq_iff_iff]
      constructor
      · rintro (⟨later, heard⟩ | ⟨rfl, rfl, heard⟩)
        · exact ⟨Or.inr later, heard⟩
        · exact ⟨Or.inl ⟨rfl, rfl⟩, heard⟩
      · rintro ⟨⟨rfl, rfl⟩ | later, heard⟩
        · exact Or.inr ⟨rfl, rfl, heard⟩
        · exact Or.inl ⟨later, heard⟩
    exact ⟨all ▸ h, rfl, rfl, .refl⟩
  case step =>
    intro who rest u w ⟨coherent, subs, domains, works⟩ step
    have frame := frame_deliver step
    have told : left (who :: rest) e d who := Or.inr ⟨rfl, rfl, List.mem_cons_self⟩
    refine ⟨coherent.deliver told ?_ ?_ step, frame.1.trans subs, frame.2.trans domains,
      works.tail (.told coherent told step)⟩
    · rintro f c x (other | ⟨first, second, member⟩)
      · exact Or.inl other
      · exact Or.inr ⟨first, second, List.mem_cons_of_mem who member⟩
    · rintro f c x apart (other | ⟨first, second, member⟩)
      · exact Or.inl other
      · exact Or.inr ⟨first, second, (List.mem_cons.1 member).resolve_left apart⟩

/-- After a delivery round nothing is pending and nothing is due. -/
theorem deliverPending_keeps [Contract κ] (h : s.Coherent nothingDue running)
    (delivered : s.deliverPending = .ok t) :
    t.Coherent nothingDue running ∧ t.domains.pending.events = [] ∧ s.Works t := by
  obtain ⟨⟨events, domains⟩, taken, delivered⟩ := bind_eq_ok_iff.1 delivered
  obtain ⟨rfl, values, emptied, faithful⟩ := Domains.drain_cases h.faithful taken
  have known := Domains.known_congr values
  have kept := foldlM_keeps (fun rest (u : State κ) =>
    u.Coherent (u.owed rest) running ∧ u.domains.pending.events = [] ∧ s.Works u) ?step ?start
    delivered
  · obtain ⟨coherent, quiet, works⟩ := kept
    have none_left : t.owed [] = nothingDue := by
      funext e d w
      simp [owed, nothingDue]
    exact ⟨none_left ▸ coherent, quiet, works⟩
  case start =>
    refine ⟨⟨h.agenda, faithful, h.heard, ?_, ?_⟩, emptied, .single (.drained taken values)⟩
    · intro e d w ⟨member, heard⟩
      refine ⟨?_, heard⟩
      rw [known]
      exact h.faithful.value_of_event member
    · intro id p active
      apply (h.attended active).of_reported (t := { s with domains }) (fun _ _ _ => Iff.rfl)
        (fun queued => queued)
      rw [known]
      apply reported_of_subset
      rintro n ⟨e, d, never | ⟨member, heard⟩⟩
      · exact never.elim
      · exact ⟨e, d, Or.inl ⟨member, heard⟩⟩
  case step =>
    intro ⟨e, d⟩ rest u w ⟨coherent, quiet, works⟩ step
    obtain ⟨coherent', same, more⟩ := deliverAll_keeps coherent step
    exact ⟨coherent', same ▸ quiet, works.trans more⟩

end State
end PseudoBoolean
