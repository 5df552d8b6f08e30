import PseudoBoolean.Proofs.Recording
import PseudoBoolean.Proofs.Rounds
import PseudoBoolean.Proofs.Runs

/-!
Every notice is delivered once and in time. The pending events are the assignments since the last
drain, and the list of a domain holds the registrations for it in their order; so a drain tells
everybody who asked, in the order of the assignments, and nobody hears of a domain twice. What the
propagators do when they are told or run does not matter; each notice leaves in the roster what they
make of it.
-/
namespace PseudoBoolean

section entries
variable {κ : Type} [PropagatorKinds κ]

/-- The subscribers that an entry names for an event on a domain, if it is about a propagator that
    was built: what the constructor registers, in order. -/
def Entry.requests (e : Event) (d : DomainId) : Entry κ → List Subscriber
  | .created id b seen _ =>
    match b.create seen with
    | .ok (_, registrations) => Registration.naming id registrations e d
    | .error _ => []
  | _ => []

def Entry.built? : Entry κ → Option PropagatorId
  | .created id _ _ _ => some id
  | _ => none

theorem Entry.unbuilt_of_notice {x : Entry κ} (told : x.notice?.isSome = true) :
    x.built? = none := by
  cases x with
  | notified => rfl
  | created | ran | remarked => cases told

theorem Entry.requests_of_unbuilt {x : Entry κ} (h : x.built? = none) (e : Event) (d : DomainId) :
    x.requests e d = [] := by
  cases x with
  | created => cases h
  | notified | ran | remarked => rfl

end entries

namespace State
variable {κ : Type} [PropagatorKinds κ] {s t u : State κ} {id : PropagatorId}
  {e : Event} {d : DomainId} {more : List (Entry κ)}

def requested (s : State κ) (e : Event) (d : DomainId) : List Subscriber :=
  s.entries.flatMap (Entry.requests e d)

def notices (s : State κ) : List (Subscriber × Event × DomainId) :=
  s.entries.filterMap Entry.notice?

def subject (notice : Subscriber × Event × DomainId) : Subscriber × DomainId :=
  (notice.1, notice.2.2)

def informed (s : State κ) : List (Subscriber × DomainId) := s.notices.map subject

theorem requested_of_unbuilt (entries : t.entries = s.entries ++ more)
    (unbuilt : ∀ x ∈ more, x.built? = none) (e : Event) (d : DomainId) :
    t.requested e d = s.requested e d := by
  have silent : more.flatMap (Entry.requests e d) = [] :=
    List.flatMap_eq_nil_iff.2 fun x member => Entry.requests_of_unbuilt (unbuilt x member) e d
  rw [requested, entries, List.flatMap_append, silent, List.append_nil, requested]

theorem notices_of_silent (entries : t.entries = s.entries ++ more)
    (silent : ∀ x ∈ more, x.notice? = none) : t.notices = s.notices := by
  rw [notices, entries, List.filterMap_append, List.filterMap_eq_nil_iff.2 silent,
    List.append_nil, notices]

theorem mem_subjects {events : List (Event × DomainId)} {who : Subscriber} :
    (who, d) ∈ (s.deliveries events).map subject ↔
      ∃ e, (e, d) ∈ events ∧ who ∈ s.listeners e d := by
  simp only [← mem_deliveries, subject, List.mem_map]
  constructor
  · rintro ⟨⟨w, e, c⟩, told, same⟩
    cases same
    exact ⟨e, told⟩
  · intro ⟨e, told⟩
    exact ⟨(who, e, d), told, rfl⟩

/-- What the engine keeps right about events, subscriptions and the agenda, whatever the propagators
    do: also in a failed state. -/
structure Orderly (s : State κ) : Prop where
  recorded : ∃ l, s.domains.Assigned l
  /-- The lists hold the registrations of the active propagators. -/
  audience : ∀ e d, s.subscriptions.audience e d =
    (s.requested e d).eraseDups.filter fun who => s.isActive who.propagator
  covered : s.subscriptions.Covered
  within : s.subscriptions.Within s.domains.size
  added : ∀ {e d who}, who ∈ s.requested e d → who.propagator.index < s.roster.size
  agenda : s.agenda.WellFormed
  tallied : s.agenda.Tallied s.roster.size
  /-- Nobody was told twice of a domain. -/
  once : s.informed.Nodup
  settled : ∀ {who d}, (who, d) ∈ s.informed →
    s.domains.known d ≠ none ∧ ∀ e, (e, d) ∉ s.domains.pending.events

theorem orderly_new (limits : Limits) : (State.new (κ := κ) limits).Orderly where
  recorded := ⟨[], .empty⟩
  audience e d := by simp [State.new, requested, entries]
  covered := Subscriptions.covered_empty
  within := by constructor <;> simp [State.new, Domains.size, Table.size, Table.get?]
  added := by simp [requested, State.new, entries]
  agenda := Agenda.wellFormed_empty
  tallied := Agenda.tallied_empty _
  once := by simp [informed, notices, State.new, entries]
  settled := by simp [informed, notices, State.new, entries]

theorem Orderly.of_leadsTo (h : s.Orderly) (fixings : s.domains.LeadsTo t.domains)
    (subscriptions : t.subscriptions = s.subscriptions)
    (active : ∀ id, t.isActive id = s.isActive id) (size : t.roster.size = s.roster.size)
    (wellFormed : t.agenda.WellFormed) (tallied : t.agenda.Tallied s.roster.size)
    (entries : t.entries = s.entries ++ more) (unbuilt : ∀ x ∈ more, x.built? = none)
    (silent : ∀ x ∈ more, x.notice? = none) : t.Orderly := by
  have requested := requested_of_unbuilt entries unbuilt
  have informed : t.informed = s.informed := by
    rw [State.informed, notices_of_silent entries silent, State.informed]
  obtain ⟨l, assigned⟩ := h.recorded
  obtain ⟨more, assignedThen, open_⟩ := assigned.leadsTo fixings
  constructor
  case recorded => exact ⟨l ++ more, assignedThen⟩
  case audience =>
    intro e d
    rw [subscriptions, h.audience, requested]
    simp only [active]
  case covered => exact subscriptions ▸ h.covered
  case within => exact subscriptions ▸ fixings.size ▸ h.within
  case added =>
    intro e d who asked
    rw [requested] at asked
    rw [size]
    exact h.added asked
  case agenda => exact wellFormed
  case tallied => exact size ▸ tallied
  case once => exact informed ▸ h.once
  case settled =>
    intro who d member
    rw [informed] at member
    obtain ⟨known, quiet⟩ := h.settled member
    constructor
    · cases value : s.domains.known d with
      | none => exact absurd value known
      | some b => simp [fixings.extends _ _ value]
    · intro e pending
      rw [assignedThen.events_eq] at pending
      rcases List.mem_append.1 pending with old | new
      · exact quiet e (assigned.events_eq ▸ old)
      · exact known (open_ _ new)

theorem Orderly.newLiteral (h : s.Orderly) : s.newLiteral.2.Orderly := by
  obtain ⟨l, assigned⟩ := h.recorded
  constructor
  case recorded => exact ⟨l, assigned.grown⟩
  case audience =>
    intro e d
    exact Subscriptions.audience_grow.trans (h.audience e d)
  case covered => exact h.covered.grow
  case within =>
    have size : s.newLiteral.2.domains.size = s.domains.size + 1 := Table.size_push _ _
    exact size ▸ h.within.grow
  case added => exact h.added
  case agenda => exact h.agenda
  case tallied => exact h.tallied
  case once => exact h.once
  case settled =>
    intro who d member
    obtain ⟨known, quiet⟩ := h.settled member
    exact ⟨(Domains.known_grow s.domains).symm ▸ known, quiet⟩

theorem Orderly.addPropagator {b : AnyBlueprint κ} (h : s.Orderly)
    (added : s.addPropagator b = .ok (id, t)) : t.Orderly := by
  obtain ⟨p, registrations, added⟩ := added_addPropagator added
  obtain rfl := added.own
  have requested : ∀ e d, t.requested e d =
      s.requested e d ++ Registration.naming s.roster.nextId registrations e d := by
    intro e d
    simp only [State.requested, added.entries, List.flatMap_append, List.flatMap_singleton,
      Entry.requests, added.created]
  have informed : t.informed = s.informed := by
    rw [State.informed, notices_of_silent added.entries (by simp [Entry.notice?]), State.informed]
  constructor
  case recorded => exact added.domains ▸ h.recorded
  case covered => exact h.covered.registerAll added.registered
  case within => exact added.domains ▸ (h.within.registerAll added.registered).1
  case once => exact informed ▸ h.once
  case settled => exact fun member => added.domains ▸ h.settled (informed ▸ member)
  case added =>
    intro e d who asked
    rw [requested, List.mem_append] at asked
    rw [added.size]
    rcases asked with old | new
    · exact Nat.lt_succ_of_lt (h.added old)
    · rw [Registration.propagator_of_mem_naming new]
      exact Nat.lt_succ_self _
  case agenda =>
    rcases added.queued with ⟨-, same⟩ | ⟨-, enqueued⟩
    · exact same ▸ h.agenda
    · exact h.agenda.enqueue enqueued
  case tallied =>
    have more := h.tallied.mono (Nat.le_succ _)
    rw [added.size]
    rcases added.queued with ⟨-, same⟩ | ⟨-, enqueued⟩
    · exact same ▸ more
    · exact more.enqueue enqueued (Nat.lt_succ_self _)
  case audience =>
    intro e d
    -- the older propagators are as active as before, and the new one is active
    have others : (s.requested e d).eraseDups.filter (fun who => s.isActive who.propagator) =
        (s.requested e d).eraseDups.filter fun who => t.isActive who.propagator := by
      apply List.filter_congr
      intro who member
      have old := h.added (List.mem_eraseDups.1 member)
      have apart : who.propagator ≠ s.roster.nextId :=
        fun same => Nat.lt_irrefl _ (congrArg PropagatorId.index same ▸ old)
      rw [added.isActive_eq, decide_eq_false apart, Bool.false_or]
    have own : ∀ who ∈ Registration.naming s.roster.nextId registrations e d,
        t.isActive who.propagator = true := by
      intro who member
      rw [Registration.propagator_of_mem_naming member, added.isActive_eq]
      simp
    rw [Subscriptions.audience_registerAll added.registered, h.audience, others,
      Audience.foldl_join_filter own, Audience.foldl_join_eraseDups, requested]

theorem Orderly.retire (h : s.Orderly) (gone : s.retire id = .ok t) : t.Orderly := by
  have active := isActive_of_retire gone
  obtain ⟨roster, subscriptions, retired, unsubscribed, rfl⟩ := retire_eq gone
  have size := Roster.size_of_retire retired
  constructor
  case recorded => exact h.recorded
  case covered => exact h.covered.unsubscribe unsubscribed
  case within => exact h.within.unsubscribe unsubscribed
  case added => exact fun asked => size ▸ h.added asked
  case agenda => exact h.agenda
  case tallied => exact size ▸ h.tallied
  case once => exact h.once
  case settled => exact h.settled
  case audience =>
    intro e d
    simp only [Subscriptions.audience_unsubscribe h.covered unsubscribed, h.audience,
      List.filter_filter]
    apply List.filter_congr
    intro who _
    rw [active, Bool.and_comm]

section delivered
variable {written : List (Entry κ)}

theorem Delivered.notices_eq (h : s.Delivered written t)
    {more : List (Subscriber × Event × DomainId)}
    (told : written.map Entry.notice? = more.map some) :
    t.notices = s.notices ++ more := by
  have listed : written.filterMap Entry.notice? = more := by
    calc written.filterMap Entry.notice? = (written.map Entry.notice?).filterMap id := by
          rw [List.filterMap_map, Function.id_comp]
      _ = more := by rw [told, List.filterMap_map, Function.id_comp, List.filterMap_some]
  rw [notices, h.entries, List.filterMap_append, listed, notices]

theorem unbuilt_of_map {more : List (Subscriber × Event × DomainId)}
    (told : written.map Entry.notice? = more.map some) : ∀ x ∈ written, x.built? = none :=
  fun x member => Entry.unbuilt_of_notice (isSome_of_map told x member)

theorem Orderly.listeners_eq (h : s.Orderly) (e : Event) (d : DomainId) :
    s.listeners e d = (s.requested e d).eraseDups.filter fun who => s.isActive who.propagator := by
  rw [listeners, h.audience, List.filter_filter]
  simp

theorem Orderly.nodup_listeners (h : s.Orderly) (e : Event) (d : DomainId) :
    (s.listeners e d).Nodup := by
  rw [h.listeners_eq]
  exact (nodup_eraseDups _).filter _

theorem nodup_subjects (distinct : ∀ e d, (s.listeners e d).Nodup)
    {events : List (Event × DomainId)} (apart : (events.map Prod.snd).Nodup) :
    ((s.deliveries events).map subject).Nodup := by
  induction events with
  | nil => exact List.nodup_nil
  | cons event rest ih =>
    obtain ⟨e, d⟩ := event
    obtain ⟨new, others⟩ := List.nodup_cons.1 apart
    have head : ((s.deliveries [(e, d)]).map subject).Nodup := by
      rw [deliveries_singleton, List.map_map]
      apply (distinct e d).map
      intro v w same
      exact congrArg Prod.fst same
    rw [deliveries_cons, List.map_append, List.nodup_append]
    refine ⟨head, ih others, ?_⟩
    rintro ⟨who, c⟩ first _ later rfl
    obtain ⟨f, here, -⟩ := mem_subjects.1 first
    obtain ⟨g, there, -⟩ := mem_subjects.1 later
    cases List.mem_singleton.1 here
    exact new (List.mem_map.2 ⟨(g, d), there, rfl⟩)

/-- A drain delivers what was assigned since the last one, and then nothing is pending. -/
theorem Orderly.deliverPending (h : s.Orderly) {l : List (Event × DomainId)}
    (assigned : s.domains.Assigned l) (delivered : s.deliverPending = .ok t) :
    t.Orderly ∧ ∃ domains written, t.domains.Assigned [] ∧
      ({ s with domains } : State κ).Delivered written t ∧
      written.map Entry.notice? = (s.deliveries l).map some := by
  obtain ⟨domains, written, drained, told, noticed⟩ := delivered_deliverPending delivered
  obtain ⟨-, values, emptied, -⟩ := Domains.frame_of_drain drained
  rw [assigned.events_eq] at noticed
  have drainedNow : t.domains.Assigned [] := told.domains ▸ assigned.drained drained
  have notices : t.notices = s.notices ++ s.deliveries l := told.notices_eq noticed
  have known := known_of_deliverPending delivered
  have active : ∀ id, t.isActive id = s.isActive id := told.active
  have requested : ∀ e d, t.requested e d = s.requested e d :=
    requested_of_unbuilt told.entries (unbuilt_of_map noticed)
  refine ⟨?_, domains, written, drainedNow, told, noticed⟩
  constructor
  case recorded => exact ⟨[], drainedNow⟩
  case audience =>
    intro e d
    rw [told.subscriptions, requested]
    simp only [active]
    exact h.audience e d
  case covered => exact told.subscriptions ▸ h.covered
  case within =>
    have size : t.domains.size = s.domains.size := by
      rw [told.domains, Domains.size, values, Domains.size]
    exact told.subscriptions ▸ size ▸ h.within
  case added =>
    intro e d who asked
    rw [requested] at asked
    rw [told.size]
    exact h.added asked
  case agenda => exact told.wellFormed h.agenda
  case tallied => exact told.tallied h.tallied
  case once =>
    rw [informed, notices, List.map_append, List.nodup_append]
    refine ⟨h.once, nodup_subjects h.nodup_listeners assigned.distinct, ?_⟩
    rintro ⟨who, d⟩ before _ now rfl
    obtain ⟨e, recorded, -⟩ := mem_subjects.1 now
    exact (h.settled before).2 e (assigned.events_eq ▸ recorded)
  case settled =>
    intro who d member
    rw [informed, notices, List.map_append, List.mem_append] at member
    rw [known, drainedNow.events_eq]
    refine ⟨?_, fun _ => List.not_mem_nil⟩
    rcases member with before | now
    · exact (h.settled before).1
    · obtain ⟨e, recorded, -⟩ := mem_subjects.1 now
      simp [assigned.known_eq recorded]

end delivered

theorem Orderly.of_unwritten (h : s.Orderly) (fixings : s.domains.LeadsTo t.domains)
    (subscriptions : t.subscriptions = s.subscriptions) (roster : t.roster = s.roster)
    (wellFormed : t.agenda.WellFormed) (tallied : t.agenda.Tallied s.roster.size)
    (entries : t.entries = s.entries) : t.Orderly :=
  h.of_leadsTo fixings subscriptions (fun id => by rw [isActive, roster, isActive])
    (by rw [roster]) wellFormed tallied (entries.trans (List.append_nil _).symm) (by simp) (by simp)

theorem Orderly.remark (h : s.Orderly) (r : Remark) : (s.remark r).Orderly :=
  h.of_leadsTo (.refl _) rfl (fun _ => rfl) rfl h.agenda h.tallied (entries_remark s r)
    (by simp [Entry.built?]) (by simp [Entry.notice?])

theorem Orderly.counted (h : s.Orderly) (statistics : Statistics) :
    ({ s with statistics } : State κ).Orderly :=
  h.of_unwritten (.refl _) rfl rfl h.agenda h.tallied rfl

theorem Orderly.ran {q : AnyPropagator κ}
    {outcome : Except Inconsistency (Verdict (AnyBlueprint κ))} (h : s.Orderly)
    (active : s.isActive id = true) (ran : s.RanTo id q outcome u) : u.Orderly := by
  apply h.of_leadsTo ran.fixings ran.subscriptions (ran.isActive_eq active)
    (Roster.size_of_replace ran.replaced) _ _ ran.entries
  case unbuilt => simp [Entry.built?]
  case silent => simp [Entry.notice?]
  · exact ran.agenda ▸ h.agenda
  · exact ran.agenda ▸ h.tallied

theorem kept_orderly : Kept fun s : State κ => s.Orderly := by
  apply Kept.of_pieces
  case remarked => exact fun r h => h.remark r
  case counted => exact fun statistics h => h.counted statistics
  case fixed =>
    exact fun h fixed => h.of_unwritten (.of_fix fixed) rfl rfl h.agenda h.tallied rfl
  case failed =>
    exact fun i h => h.of_unwritten (.refl _) rfl rfl (Agenda.wellFormed_clear _)
      (Agenda.tallied_clear _ _) rfl
  case added => exact fun h added => h.addPropagator added
  case left => exact fun h active ran => h.ran active ran
  case retired => exact fun h gone => h.retire gone
  case delivered =>
    intro s t h delivered
    obtain ⟨l, assigned⟩ := h.recorded
    exact (h.deliverPending assigned delivered).1
  case popped =>
    intro s first agenda h popped
    cases first with
    | none =>
      rw [Agenda.eq_of_pop_none popped]
      exact h
    | some id =>
      exact h.of_unwritten (.refl _) rfl rfl (h.agenda.pop popped) (h.tallied.pop popped).1 rfl

theorem Reachable.orderly [HoldsStandard κ] (h : s.Reachable) : s.Orderly :=
  kept_orderly.reachable orderly_new Orderly.newLiteral h

section faults
variable {fault : Fault}

variable {todo : List (Subscriber × Event × DomainId)} {written : List (Entry κ)}

/-- The first of the deliveries are made, and the next finds a propagator that cannot be told. -/
def StopsIn (s : State κ) (todo : List (Subscriber × Event × DomainId)) (fault : Fault) : Prop :=
  ∃ done who e d rest written t p, todo = done ++ (who, e, d) :: rest ∧
    s.Delivered written t ∧ written.map Entry.notice? = done.map some ∧
    t.roster.get? who.propagator = some p ∧ p.notify t.domains who.localId e = .error fault

theorem StopsIn.append (h : s.StopsIn todo fault) (more : List (Subscriber × Event × DomainId)) :
    s.StopsIn (todo ++ more) fault := by
  obtain ⟨done, who, e, d, rest, written, t, p, rfl, stops⟩ := h
  exact ⟨done, who, e, d, rest ++ more, written, t, p, by simp, stops⟩

end faults

end State
end PseudoBoolean
