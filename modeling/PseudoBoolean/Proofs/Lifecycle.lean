import PseudoBoolean.Proofs.Hearing

/-!
The lives of propagators. Numbers are given out in order and never again; a propagator is built,
told and run, and after the run in which it is subsumed or replaced nothing happens to it any more.
The lists of subscribers and the agenda only ever name propagators that are alive, which the
journal tells: those that were built and not retired.
-/
namespace PseudoBoolean

namespace Entry
variable {κ : Type} [PropagatorKinds κ]

def actor? : Entry κ → Option PropagatorId
  | created id _ _ _ | ran id _ _ => some id
  | notified who _ _ _ _ => some who.propagator
  | remarked _ => none

def retires? : Entry κ → Option PropagatorId
  | ran id (.ok .subsumed) _ | ran id (.ok (.replaceBy _)) _ => some id
  | _ => none

/-- Nothing happens to a propagator before it is built or after it is retired. -/
def InTurn (x y : Entry κ) : Prop :=
  ∀ id, (y.built? = some id → x.actor? ≠ some id) ∧ (x.retires? = some id → y.actor? ≠ some id)

theorem actor_of_retires {x : Entry κ} {id : PropagatorId} (h : x.retires? = some id) :
    x.actor? = some id := by
  unfold retires? at h
  split at h
  · exact h
  · exact h
  · cases h

theorem actor_of_notice {x : Entry κ} {who : Subscriber} {e : Event} {d : DomainId}
    (h : x.notice? = some (who, e, d)) : x.actor? = some who.propagator := by
  cases x with
  | notified => cases h; rfl
  | created | ran | remarked => cases h

theorem not_retires_of_notice {x : Entry κ} (told : x.notice?.isSome = true) :
    x.retires? = none := by
  cases x with
  | notified => rfl
  | created | ran | remarked => cases told

end Entry

namespace State
variable {κ : Type} [PropagatorKinds κ] {s t u : State κ} {id : PropagatorId}
  {more : List (Entry κ)}

def built (s : State κ) : List PropagatorId := s.entries.filterMap Entry.built?

def retired (s : State κ) : List PropagatorId := s.entries.filterMap Entry.retires?

theorem mem_retired : id ∈ s.retired ↔ ∃ x ∈ s.entries, x.retires? = some id :=
  List.mem_filterMap

theorem retired_append (entries : t.entries = s.entries ++ more) :
    t.retired = s.retired ++ more.filterMap Entry.retires? := by
  rw [retired, entries, List.filterMap_append, retired]

structure Lives (s : State κ) : Prop where
  orderly : s.Orderly
  numbered : s.built = (List.range s.roster.size).map PropagatorId.mk
  active : ∀ id, s.isActive id = true ↔ id.index < s.roster.size ∧ id ∉ s.retired
  known : ∀ {x id}, x ∈ s.entries → x.actor? = some id → id.index < s.roster.size
  inTurn : s.entries.Pairwise Entry.InTurn
  queued : ∀ {id}, s.agenda.contains id = true → s.isActive id = true

theorem lives_new (limits : Limits) : (State.new (κ := κ) limits).Lives := by
  constructor
  case orderly => exact orderly_new limits
  case queued => simp [State.new, Agenda.contains, Table.get?]
  all_goals simp [State.new, entries, built, retired, isActive, Roster.get?, Table.get?,
    Roster.size, Table.size]

theorem Lives.extend (h : s.Lives) (orderly : t.Orderly) (size : t.roster.size = s.roster.size)
    (entries : t.entries = s.entries ++ more) (unbuilt : ∀ x ∈ more, x.built? = none)
    (awake : ∀ x ∈ more, ∀ id, x.actor? = some id → s.isActive id = true)
    (inTurn : more.Pairwise Entry.InTurn)
    (active : ∀ id, t.isActive id = true ↔
      s.isActive id = true ∧ id ∉ more.filterMap Entry.retires?)
    (queued : ∀ {id}, t.agenda.contains id = true → t.isActive id = true) : t.Lives := by
  have none_ : more.filterMap Entry.built? = [] := List.filterMap_eq_nil_iff.2 unbuilt
  constructor
  case orderly => exact orderly
  case queued => exact queued
  case numbered =>
    rw [built, entries, List.filterMap_append, none_, List.append_nil, size]
    exact h.numbered
  case active =>
    intro id
    rw [active, h.active, size, retired_append entries, List.mem_append, not_or, and_assoc]
  case known =>
    intro x id member about
    rw [size]
    rw [entries, List.mem_append] at member
    rcases member with old | new
    · exact h.known old about
    · exact ((h.active id).1 (awake x new id about)).1
  case inTurn =>
    rw [entries, List.pairwise_append]
    refine ⟨h.inTurn, inTurn, ?_⟩
    intro x old y new id
    constructor
    · intro builds
      rw [unbuilt y new] at builds
      cases builds
    · intro gone about
      have alive := ((h.active id).1 (awake y new id about)).2
      exact alive (mem_retired.2 ⟨x, old, gone⟩)

theorem Lives.of_unwritten (h : s.Lives) (orderly : t.Orderly) (roster : t.roster = s.roster)
    (entries : t.entries = s.entries)
    (queued : ∀ {id}, t.agenda.contains id = true → s.agenda.contains id = true) : t.Lives := by
  have active : ∀ id, t.isActive id = s.isActive id := fun id => by rw [isActive, roster, isActive]
  apply h.extend orderly (by rw [roster]) (entries.trans (List.append_nil _).symm)
    (List.forall_mem_nil _) (List.forall_mem_nil _) .nil
  case active => simp [active]
  case queued => exact fun waits => (active _).trans (h.queued (queued waits))

theorem Lives.remark (h : s.Lives) (r : Remark) : (s.remark r).Lives := by
  apply h.extend (h.orderly.remark r) rfl (entries_remark s r)
  case unbuilt | awake => simp [Entry.built?, Entry.actor?]
  case inTurn => exact List.pairwise_singleton _ _
  case active => exact fun id => by simp [Entry.retires?]; rfl
  case queued => exact h.queued

theorem Lives.newLiteral (h : s.Lives) : s.newLiteral.2.Lives where
  orderly := h.orderly.newLiteral
  numbered := h.numbered
  active := h.active
  known := h.known
  inTurn := h.inTurn
  queued := h.queued

theorem Lives.counted (h : s.Lives) (statistics : Statistics) :
    ({ s with statistics } : State κ).Lives :=
  h.of_unwritten (h.orderly.counted statistics) rfl rfl fun waits => waits

theorem Lives.fail (h : s.Lives) (i : Inconsistency) : (s.fail i).Lives := by
  apply h.of_unwritten (kept_orderly.failed i h.orderly) rfl rfl
  intro id waits
  change s.agenda.clear.contains id = true at waits
  rw [Agenda.contains_clear] at waits
  cases waits

theorem Lives.addPropagator {b : AnyBlueprint κ} (h : s.Lives)
    (added : s.addPropagator b = .ok (id, t)) : t.Lives := by
  have orderly := h.orderly.addPropagator added
  obtain ⟨p, registrations, added⟩ := added_addPropagator added
  obtain rfl := added.own
  have index : s.roster.nextId.index = s.roster.size := rfl
  have retired : t.retired = s.retired := by
    rw [retired_append added.entries]
    exact List.append_nil _
  have fresh : s.roster.nextId ∉ s.retired := by
    intro gone
    obtain ⟨x, member, retires⟩ := mem_retired.1 gone
    exact Nat.lt_irrefl _ (h.known member (Entry.actor_of_retires retires))
  constructor
  case orderly => exact orderly
  case numbered =>
    rw [built, added.entries, List.filterMap_append, added.size, List.range_succ, List.map_append,
      ← h.numbered]
    rfl
  case active =>
    intro j
    rw [added.isActive_eq, added.size, retired, Bool.or_eq_true, h.active, decide_eq_true_eq]
    constructor
    · rintro (rfl | ⟨below, alive⟩)
      · exact ⟨by omega, fresh⟩
      · exact ⟨by omega, alive⟩
    · intro ⟨below, alive⟩
      by_cases new : j = s.roster.nextId
      · exact .inl new
      · have apart : j.index ≠ s.roster.size := fun same => new (congrArg PropagatorId.mk same)
        exact .inr ⟨by omega, alive⟩
  case known =>
    intro x j member about
    rw [added.size]
    rw [added.entries, List.mem_append, List.mem_singleton] at member
    rcases member with old | rfl
    · exact Nat.lt_succ_of_lt (h.known old about)
    · cases about
      exact Nat.lt_succ_self _
  case inTurn =>
    rw [added.entries, List.pairwise_append]
    refine ⟨h.inTurn, List.pairwise_singleton _ _, ?_⟩
    intro x old y new j
    obtain rfl := List.mem_singleton.1 new
    constructor
    · intro builds about
      cases builds
      exact Nat.lt_irrefl _ (h.known old about)
    · intro gone about
      cases about
      exact fresh (mem_retired.2 ⟨x, old, gone⟩)
  case queued =>
    intro j waits
    rw [added.isActive_eq, Bool.or_eq_true, decide_eq_true_eq]
    rcases added.queued with ⟨-, same⟩ | ⟨-, enqueued⟩
    · exact .inr (h.queued (same ▸ waits))
    · rw [Agenda.contains_enqueue enqueued, Bool.or_eq_true, decide_eq_true_eq] at waits
      exact waits.imp_right h.queued

theorem Lives.deliverPending (h : s.Lives) (delivered : s.deliverPending = .ok t) : t.Lives := by
  obtain ⟨l, assigned⟩ := h.orderly.recorded
  obtain ⟨orderly, domains, written, -, told, noticed⟩ :=
    h.orderly.deliverPending assigned delivered
  -- who is told is listed, and so is active
  have notice : ∀ x ∈ written, ∃ who e d, x.notice? = some (who, e, d) ∧
      s.isActive who.propagator = true := by
    intro x member
    have listed : x.notice? ∈ (s.deliveries l).map some := noticed ▸ List.mem_map_of_mem member
    obtain ⟨⟨who, e, d⟩, delivery, same⟩ := List.mem_map.1 listed
    obtain ⟨-, listens⟩ := mem_deliveries.1 delivery
    exact ⟨who, e, d, same.symm, (List.mem_filter.1 listens).2⟩
  have awake : ∀ x ∈ written, ∀ id, x.actor? = some id → s.isActive id = true := by
    intro x member id about
    obtain ⟨who, e, d, same, active⟩ := notice x member
    rw [Entry.actor_of_notice same] at about
    cases about
    exact active
  have unbuilt := unbuilt_of_map noticed
  have stays : ∀ x ∈ written, x.retires? = none :=
    fun x member => Entry.not_retires_of_notice (isSome_of_map noticed x member)
  have active : ∀ id, t.isActive id = s.isActive id := told.active
  apply h.extend orderly told.size told.entries unbuilt awake
  case inTurn =>
    apply List.pairwise_of_forall_mem_list
    intro x first y second id
    simp [unbuilt y second, stays x first]
  case active => simp [active, List.filterMap_eq_nil_iff.2 stays]
  case queued =>
    intro id waits
    rw [active]
    rcases (told.queued id).1 waits with old | ⟨n, e, d, after, member⟩
    · exact h.queued old
    · exact awake _ member id rfl

theorem Lives.pop {agenda : Agenda} {first : Option PropagatorId} (h : s.Lives)
    (popped : s.agenda.pop = .ok (first, agenda)) : ({ s with agenda } : State κ).Lives := by
  apply h.of_unwritten (kept_orderly.popped h.orderly popped) rfl rfl
  intro id waits
  cases first with
  | none => exact Agenda.eq_of_pop_none popped ▸ waits
  | some first =>
    rw [Agenda.contains_pop popped, Bool.and_eq_true_iff] at waits
    exact waits.2

section run
variable {q : AnyPropagator κ} {outcome : Except Inconsistency (Verdict (AnyBlueprint κ))}

theorem Lives.ran (h : s.Lives) (active : s.isActive id = true) (ran : s.RanTo id q outcome u)
    (stays : (Entry.ran id outcome q).retires? = none) : u.Lives := by
  have same := ran.isActive_eq active
  apply h.extend (h.orderly.ran active ran) (Roster.size_of_replace ran.replaced) ran.entries
  case unbuilt => simp [Entry.built?]
  case awake => simp [Entry.actor?, active]
  case inTurn => exact List.pairwise_singleton _ _
  case active => simp [same, stays]
  case queued =>
    intro j waits
    rw [same]
    exact h.queued (ran.agenda ▸ waits)

theorem Lives.retire (h : s.Lives) (active : s.isActive id = true)
    (apart : s.agenda.contains id = false) (ran : s.RanTo id q outcome u)
    (retires : (Entry.ran id outcome q).retires? = some id) {statistics : Statistics}
    (gone : retire { u with statistics } id = .ok t) : t.Lives := by
  have orderly := ((h.orderly.ran active ran).counted statistics).retire gone
  have now : ∀ j, t.isActive j = (decide (j ≠ id) && s.isActive j) := by
    intro j
    rw [isActive_of_retire gone, ← ran.isActive_eq active]
    rfl
  obtain ⟨roster, subscriptions, emptied, -, rfl⟩ := retire_eq gone
  have size : roster.size = s.roster.size :=
    (Roster.size_of_retire emptied).trans (Roster.size_of_replace ran.replaced)
  apply h.extend orderly size ran.entries
  case unbuilt => simp [Entry.built?]
  case awake => simp [Entry.actor?, active]
  case inTurn => exact List.pairwise_singleton _ _
  case active =>
    intro j
    have left : [Entry.ran id outcome q].filterMap Entry.retires? = [id] := by simp [retires]
    rw [now, left, List.mem_singleton, Bool.and_eq_true, decide_eq_true_eq, and_comm]
  case queued =>
    -- it was taken off the agenda to run, so whoever waits is another one
    intro j waits
    have waited : s.agenda.contains j = true := ran.agenda ▸ waits
    have other : j ≠ id := by
      rintro rfl
      rw [apart] at waited
      cases waited
    rw [now, h.queued waited]
    simp [other]

theorem Lives.runPropagator {r : Except Inconsistency Unit} (h : s.Lives)
    (apart : s.agenda.contains id = false) (done : s.runPropagator id = .ok (r, t)) :
    t.Lives := by
  rcases runPropagator_eq done with
    ⟨-, -, rfl⟩ | ⟨p, q, outcome, u, found, -, ran, ⟨i, rfl, -, rfl⟩ | ⟨verdict, rfl, -, concluded⟩⟩
  · exact h
  · exact h.ran (isActive_of_get? found) ran rfl
  have active := isActive_of_get? found
  rcases conclude_eq concluded with
    ⟨rfl, rfl⟩ | ⟨rfl, statistics, gone⟩ | ⟨b, statistics, replacement, v, w, rfl, gone, built, rfl⟩
  · exact h.ran active ran rfl
  · obtain ⟨w, out, rfl⟩ := retire_remark gone
    exact (h.retire active apart ran rfl out).remark _
  · exact ((h.retire active apart ran rfl gone).addPropagator built).remark _

theorem Lives.roundAt (h : s.Lives) (round : s.RoundAt u) : u.Lives := by
  induction round with
  | first => exact h
  | next _ delivered popped ran ih =>
    have apart := Agenda.contains_pop popped
    exact ((ih.deliverPending delivered).pop popped).runPropagator (by simp [apart]) ran

theorem Lives.propagate {r : Except Inconsistency Unit} (h : s.Lives)
    (done : s.propagate = .ok (r, t)) : t.Lives := by
  rcases last_round_of_propagate done with
    ⟨-, -, -, rfl⟩ | ⟨u, v, first, agenda, round, delivered, popped, last⟩
  · exact h
  have waiting := ((h.roundAt round).deliverPending delivered).pop popped
  rcases last with ⟨-, -, rfl⟩ | ⟨id, w, i, rfl, ran, -, rfl⟩
  · exact waiting
  · have apart := Agenda.contains_pop popped
    have after := waiting.runPropagator (by simp [apart]) ran
    exact (after.counted _).fail i

end run

theorem Lives.of_change (h : s.Lives) (change : s.Change t) : t.Lives := by
  cases change with
  | remarked r => exact h.remark r
  | failed i => exact h.fail i
  | added added => exact h.addPropagator added
  | propagated done => exact h.propagate done
  | fixed fixed =>
    exact h.of_unwritten (kept_orderly.fixed h.orderly fixed) rfl rfl fun waits => waits

theorem Reachable.lives [HoldsStandard κ] (h : s.Reachable) : s.Lives :=
  h.keeps (P := fun s : State κ => s.Lives) lives_new Lives.newLiteral
    fun lives change => lives.of_change change

section kinds
variable {k : κ}

theorem kind_of_notify {p q : AnyPropagator κ} {domains : Domains} {n : LocalId} {e : Event}
    {decision : Decision} (h : p.notify domains n e = .ok (q, decision)) : q.1 = p.1 := by
  obtain ⟨⟨next, decided⟩, -, h⟩ := bind_eq_ok_iff.1 h
  rw [← (pure_pair_eq_ok_iff.1 h).1]

theorem kind_of_propagate {p q : AnyPropagator κ} {before after : Domains}
    {outcome : Except Inconsistency (Verdict (AnyBlueprint κ))}
    (h : (p.propagate id).run before = .ok ((q, outcome), after)) : q.1 = p.1 := by
  unfold AnyPropagator.propagate at h
  rw [Propagation.run_bind] at h
  split at h
  · cases h
    rfl
  · cases h

def Reserves (s : State κ) (id : PropagatorId) (k : κ) : Prop :=
  id.index < s.roster.size ∧ ∀ p, s.roster.get? id = some p → p.1 = k

theorem Reserves.replace {p q : AnyPropagator κ} {j : PropagatorId} (h : s.Reserves id k)
    (found : s.roster.get? j = some p) (same : q.1 = p.1)
    (replaced : s.roster.replace j q = .ok t.roster) : t.Reserves id k := by
  refine ⟨Roster.size_of_replace replaced ▸ h.1, ?_⟩
  intro r now
  rw [Roster.get?_of_replace replaced] at now
  split at now
  · next here =>
    cases now
    exact same.trans (h.2 p (here ▸ found))
  · exact h.2 r now

theorem Reserves.deliver {e : Event} {d : DomainId} {who : Subscriber} (h : s.Reserves id k)
    (delivered : s.deliver e d who = .ok t) : t.Reserves id k := by
  rcases deliver_eq delivered with
    ⟨-, rfl⟩ | ⟨p, q, decision, roster, agenda, found, notified, replaced, -, rfl⟩
  · exact h
  · exact h.replace found (kind_of_notify notified) replaced

theorem Reserves.deliverPending (h : s.Reserves id k) (delivered : s.deliverPending = .ok t) :
    t.Reserves id k :=
  deliverPending_induction (P := fun u : State κ => u.Reserves id k) (fun _ => h)
    Reserves.deliver delivered

theorem Reserves.addPropagator {b : AnyBlueprint κ} {j : PropagatorId} (h : s.Reserves id k)
    (added : s.addPropagator b = .ok (j, t)) : t.Reserves id k := by
  obtain ⟨p, registrations, added⟩ := added_addPropagator added
  refine ⟨added.size ▸ Nat.lt_succ_of_lt h.1, ?_⟩
  intro r found
  have other : id ≠ s.roster.nextId :=
    fun same => Nat.lt_irrefl _ (congrArg PropagatorId.index same ▸ h.1)
  rw [added.roster, Roster.get?_add, if_neg other] at found
  exact h.2 r found

theorem Reserves.retire {j : PropagatorId} (h : s.Reserves id k) (gone : s.retire j = .ok t) :
    t.Reserves id k := by
  obtain ⟨roster, subscriptions, retired, -, rfl⟩ := retire_eq gone
  refine ⟨Roster.size_of_retire retired ▸ h.1, ?_⟩
  intro r found
  rw [Roster.get?_of_retire retired] at found
  split at found
  · cases found
  · exact h.2 r found

theorem kept_reserves (id : PropagatorId) (k : κ) : Kept fun s : State κ => s.Reserves id k where
  remarked _ h := h
  counted _ h := h
  fixed h _ := h
  failed _ h := h
  added h added := h.addPropagator added
  delivered h delivered := h.deliverPending delivered
  popped h _ := h
  ran := by
    intro s t j r h _ done
    rcases runPropagator_eq done with
      ⟨-, -, rfl⟩ | ⟨p, q, outcome, u, found, ran, left, ended⟩
    · exact h
    have after : u.Reserves id k := h.replace found (kind_of_propagate ran) left.replaced
    rcases ended with ⟨i, -, -, rfl⟩ | ⟨verdict, -, -, concluded⟩
    · exact after
    rcases conclude_eq concluded with
      ⟨-, rfl⟩ | ⟨-, statistics, gone⟩ | ⟨b, statistics, replacement, v, w, -, gone, built, rfl⟩
    · exact after
    · exact Reserves.retire (s := State.remark { u with statistics } _) after gone
    · have left := Reserves.retire (s := { u with statistics }) after gone
      exact left.addPropagator (t := w) built

theorem added_of_add {b : PropagatorKinds.Blueprint k} {h : Handle k}
    (added : s.add b = .ok (h, t)) : s.addPropagator ⟨k, b⟩ = .ok (h.id, t) := by
  obtain ⟨⟨id, u⟩, built, last⟩ := bind_eq_ok_iff.1 added
  obtain ⟨rfl, rfl⟩ := pure_pair_eq_ok_iff.1 last
  exact built

theorem reserves_of_add {b : PropagatorKinds.Blueprint k} {h : Handle k}
    (added : s.add b = .ok (h, t)) : t.Reserves h.id k := by
  obtain ⟨p, registrations, added⟩ := added_addPropagator (added_of_add added)
  refine ⟨?_, ?_⟩
  · rw [added.size, added.own]
    exact Nat.lt_succ_self _
  · intro r found
    rw [added.roster, Roster.get?_add, if_pos added.own] at found
    cases found
    obtain ⟨⟨made, rs⟩, -, last⟩ := bind_eq_ok_iff.1 added.created
    rw [← (pure_pair_eq_ok_iff.1 last).1]

theorem Reserves.isSome_find? [DecidableEq κ] {h : Handle k} (reserved : s.Reserves h.id k) :
    (s.find? h).isSome = s.isActive h.id := by
  unfold find? Roster.find? isActive
  cases found : s.roster.get? h.id with
  | none => rfl
  | some p =>
    obtain ⟨own, p⟩ := p
    have same : own = k := reserved.2 _ found
    dsimp only
    rw [dif_pos same]
    rfl

end kinds

theorem Lives.mem_built (h : s.Lives) : id ∈ s.built ↔ id.index < s.roster.size := by
  rw [h.numbered, List.mem_map]
  constructor
  · rintro ⟨i, below, rfl⟩
    exact List.mem_range.1 below
  · exact fun below => ⟨id.index, List.mem_range.2 below, rfl⟩

/-- Numbers are given out in order, and whoever was built is active until it is subsumed or
    replaced, and then never again. The lists and the agenda name active propagators only, a list
    only for domains that its propagator is listed with, and nobody is told or run before it was
    built or after it was taken out. A handle finds its propagator exactly until that is taken
    out. -/
theorem propagators_live_once [HoldsStandard κ] [DecidableEq κ] (reachable : s.Reachable) :
    s.built = (List.range s.roster.size).map PropagatorId.mk ∧
    (∀ id, s.isActive id = true ↔ id ∈ s.built ∧ id ∉ s.retired) ∧
    (∀ e d who, who ∈ s.subscriptions.audience e d → s.isActive who.propagator = true ∧
      ∃ domains, s.subscriptions.watched.get? who.propagator = some domains ∧ d ∈ domains) ∧
    (∀ id ∈ s.agenda.waiting, s.isActive id = true) ∧
    s.entries.Pairwise Entry.InTurn ∧
    (∀ t, LeadsTo s t → s.built <+: t.built ∧ s.retired <+: t.retired) ∧
    ∀ (k : κ) (b : PropagatorKinds.Blueprint k) h u, s.add b = .ok (h, u) →
      h.id.index = s.roster.size ∧
        ∀ t, LeadsTo u t → ((t.find? h).isSome = true ↔ h.id ∉ t.retired) := by
  have lives := reachable.lives
  have attentive : s.Attentive :=
    kept_attentive.reachable attentive_new Attentive.newLiteral reachable
  refine ⟨lives.numbered, ?_, ?_, ?_, lives.inTurn, ?_, ?_⟩
  · intro id
    rw [lives.active, lives.mem_built]
  · intro e d who member
    refine ⟨?_, lives.orderly.covered member⟩
    rw [lives.orderly.audience, List.mem_filter] at member
    exact member.2
  · exact fun id waits => lives.queued (lives.orderly.tallied.flagged waits)
  · intro t later
    have onward := (attentive.onward later.later).entries
    exact ⟨onward.filterMap _, onward.filterMap _⟩
  · intro k b h u added
    have built := added_of_add added
    have own := (added_addPropagator built).choose_spec.choose_spec.own
    refine ⟨congrArg PropagatorId.index own, ?_⟩
    intro t later
    have reachableThen : t.Reachable := by
      obtain ⟨limits, run⟩ := reachable
      have first : Operation.apply s (.addPropagator ⟨k, b⟩) = .ok (.added h.id, u) :=
        bind_eq_ok_iff.2 ⟨(h.id, u), built, rfl⟩
      exact ⟨limits, run.trans (.step first later)⟩
    have reserved : t.Reserves h.id k :=
      (kept_reserves h.id k).later (fun kept => kept) (reserves_of_add added) later.later
    rw [reserved.isSome_find?, reachableThen.lives.active]
    exact and_iff_right reserved.1

/-- A propagator is replaced by another one, which is subsumed later. -/
theorem propagators_live_once_replaced :
    let b := ImpliedAtLeast.Blueprint.mk (.positive ⟨0⟩) [.positive ⟨1⟩, .positive ⟨2⟩] 1
    let more : List (Operation Standard.Kind) := [.propagate, .assign (.positive ⟨0⟩) true,
      .propagate, .assign (.positive ⟨1⟩) true, .propagate]
    ∃ (s u t : State Standard.Kind) (h : Handle (Standard.Kind.impliedAtLeast .literals)),
      (State.new .standard).Accepts [.newLiteral, .newLiteral, .newLiteral] s ∧
      s.add b = .ok (h, u) ∧ h.id.index = 0 ∧ (u.find? h).isSome = true ∧ u.Accepts more t ∧
      t.retired = [h.id, ⟨1⟩] ∧ t.find? h = none := by
  intro b more
  let gone (added : Handle (Standard.Kind.impliedAtLeast .literals) × State Standard.Kind) : Bool :=
    decide (added.2.retired = []) &&
      added.2.reaches more fun t => decide (t.retired = [added.1.id, ⟨1⟩])
  obtain ⟨s, first, checked⟩ := accepts_of_reaches (State.new .standard)
    [.newLiteral, .newLiteral, .newLiteral]
    (fun s => decide (s.roster.size = 0) && (s.add b).toOption.any gone) (by decide +kernel)
  obtain ⟨empty, checked⟩ := Bool.and_eq_true_iff.1 checked
  obtain ⟨⟨h, u⟩, added, checked⟩ := exists_of_any checked
  obtain ⟨none_, checked⟩ := Bool.and_eq_true_iff.1 checked
  obtain ⟨t, later, gone⟩ := accepts_of_reaches u more _ checked
  have ⟨_, ran, _⟩ := first
  have ⟨_, ranOn, _⟩ := later
  obtain ⟨-, -, -, -, -, -, handles⟩ := propagators_live_once ⟨.standard, leadsTo_of_run ran⟩
  obtain ⟨index, found⟩ := handles _ b h u added
  have gone : t.retired = [h.id, ⟨1⟩] := of_decide_eq_true gone
  have none_ : u.retired = [] := of_decide_eq_true none_
  refine ⟨s, u, t, h, first, added, index.trans (of_decide_eq_true empty), ?_, later, gone, ?_⟩
  · exact (found u (.refl u)).2 (by rw [none_]; exact List.not_mem_nil)
  · rw [← Option.not_isSome_iff_eq_none, found t (leadsTo_of_run ranOn), gone]
    simp

end State
end PseudoBoolean
