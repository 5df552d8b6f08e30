import PseudoBoolean.Proofs.Deliveries

/-!
What has reached a propagator. An active propagator was told of the domains that it registered for
and that got their values after it was built, except for those whose events are still pending; and
of nothing else.
-/
namespace PseudoBoolean

namespace Domains
variable {s t u : Domains} {d : DomainId} {l : List (Event × DomainId)}

def Untold (s : Domains) (d : DomainId) : Prop :=
  s.known d = none ∨ d ∈ s.pending.events.map Prod.snd

instance (s : Domains) (d : DomainId) : Decidable (s.Untold d) :=
  inferInstanceAs (Decidable (s.known d = none ∨ d ∈ s.pending.events.map Prod.snd))

theorem untold_iff : s.Untold d ↔ s.known d = none ∨ ∃ e, (e, d) ∈ s.pending.events := by
  simp [Untold]

theorem untold_of_quiet (quiet : s.pending.events = []) : s.Untold d ↔ s.known d = none := by
  simp [Untold, quiet]

structure Before (s t : Domains) : Prop where
  known : t.known.Extends s.known
  untold : ∀ d, t.Untold d → s.Untold d

theorem before_refl (s : Domains) : s.Before s := ⟨PartialValuation.extends_refl _, fun _ h => h⟩

theorem Before.trans (h : s.Before t) (k : t.Before u) : s.Before u :=
  ⟨PartialValuation.extends_trans k.known h.known, fun d later => h.untold d (k.untold d later)⟩

theorem untold_of_fix (faithful : s.Faithful) {c : DomainId} {v : Bool} {r : Fixing}
    (h : s.fix c v = .ok (r, t)) : t.Untold d ↔ s.Untold d := by
  have recorded := mem_events_of_fix faithful h
  rcases fix_cases h with ⟨rfl, unknown, learnt, -⟩ | ⟨-, -, rfl⟩ | ⟨-, -, rfl⟩
  case inr.inl | inr.inr => rfl
  simp only [untold_iff, learnt, PartialValuation.learn, recorded, true_and]
  by_cases same : d = c
  · subst same
    simp [unknown]
  · simp [same]

theorem untold_of_leadsTo (faithful : s.Faithful) (fixings : s.LeadsTo t) :
    t.Untold d ↔ s.Untold d := by
  induction fixings with
  | refl => rfl
  | fix step _ ih => exact (ih (faithful.of_fix step)).trans (untold_of_fix faithful step)

theorem before_of_leadsTo (faithful : s.Faithful) (fixings : s.LeadsTo t) : s.Before t :=
  ⟨fixings.extends, fun _ => (untold_of_leadsTo faithful fixings).1⟩

theorem before_of_known (known : t.known = s.known) (quiet : t.pending.events = []) :
    s.Before t := by
  refine ⟨known ▸ PartialValuation.extends_refl _, ?_⟩
  intro d untold
  rw [untold_of_quiet quiet, known] at untold
  exact .inl untold

theorem before_grow (s : Domains) : s.Before s.grow := by
  refine ⟨(known_grow s).symm ▸ PartialValuation.extends_refl _, ?_⟩
  intro d untold
  rwa [Untold, known_grow] at untold

end Domains

section entries
variable {κ : Type} [PropagatorKinds κ]

theorem Entry.built_of_mem_requests {x : Entry κ} {e : Event} {d : DomainId} {who : Subscriber}
    (h : who ∈ x.requests e d) : x.built? = some who.propagator := by
  cases x with
  | notified | ran | remarked => cases h
  | created id b seen made =>
    cases returned : b.create seen with
    | error => simp [Entry.requests, returned] at h
    | ok result =>
      simp only [Entry.requests, returned] at h
      exact congrArg some (Registration.propagator_of_mem_naming h).symm

end entries

namespace State
variable {κ : Type} [PropagatorKinds κ] {s t u : State κ} {id : PropagatorId}
  {e : Event} {d : DomainId} {who : Subscriber} {more : List (Entry κ)}

def WasTold (s : State κ) (id : PropagatorId) (n : LocalId) : Prop :=
  ∃ e d, ((⟨id, n⟩ : Subscriber), e, d) ∈ s.notices

/-- Every propagator has one entry for its building, and hears what it then registered for. -/
structure Attentive (s : State κ) : Prop where
  orderly : s.Orderly
  present : ∀ {id}, s.isActive id = true → ∃ b seen made, .created id b seen made ∈ s.entries
  within : ∀ {x id}, x ∈ s.entries → x.built? = some id → id.index < s.roster.size
  single : ∀ {x y id}, x ∈ s.entries → y ∈ s.entries → x.built? = some id → y.built? = some id →
    x = y
  built : ∀ {id b seen made}, .created id b seen made ∈ s.entries →
    (∃ registrations, b.create seen = .ok (made, registrations)) ∧ seen.Before s.domains
  /-- What was told was asked for, and is so. -/
  addressed : ∀ {who e d}, (who, e, d) ∈ s.notices →
    who ∈ s.requested e d ∧ s.domains.known d = some e.value
  reached : ∀ {id b seen made}, .created id b seen made ∈ s.entries → s.isActive id = true →
    ∀ {who e d}, who ∈ Entry.requests e d (.created id b seen made) → seen.known d = none →
      s.domains.known d = some e.value → ¬ s.domains.Untold d → (who, e, d) ∈ s.notices

theorem attentive_new (limits : Limits) : (State.new (κ := κ) limits).Attentive := by
  constructor
  case orderly => exact orderly_new limits
  all_goals simp [State.new, entries, notices, isActive, Roster.get?, Table.get?]

theorem mem_entries_of_unbuilt (entries : t.entries = s.entries ++ more)
    (unbuilt : ∀ x ∈ more, x.built? = none) ⦃x : Entry κ⦄ ⦃id : PropagatorId⦄
    (built : x.built? = some id) : x ∈ t.entries ↔ x ∈ s.entries := by
  rw [entries, List.mem_append, or_iff_left]
  intro new
  rw [unbuilt x new] at built
  cases built

theorem Attentive.of_leadsTo (h : s.Attentive) (orderly : t.Orderly)
    (fixings : s.domains.LeadsTo t.domains) (size : t.roster.size = s.roster.size)
    (active : ∀ id, t.isActive id = true → s.isActive id = true)
    (entries : t.entries = s.entries ++ more) (unbuilt : ∀ x ∈ more, x.built? = none)
    (silent : ∀ x ∈ more, x.notice? = none) : t.Attentive := by
  have same := mem_entries_of_unbuilt entries unbuilt
  have notices := notices_of_silent entries silent
  obtain ⟨l, assigned⟩ := h.orderly.recorded
  have faithful := assigned.faithful
  constructor
  case orderly => exact orderly
  case present =>
    intro id here
    obtain ⟨b, seen, made, member⟩ := h.present (active id here)
    exact ⟨b, seen, made, (same rfl).2 member⟩
  case within => exact fun member built => size ▸ h.within ((same built).1 member) built
  case single =>
    exact fun first second left right =>
      h.single ((same left).1 first) ((same right).1 second) left right
  case built =>
    intro id b seen made member
    obtain ⟨returned, before⟩ := h.built ((same rfl).1 member)
    exact ⟨returned, before.trans (Domains.before_of_leadsTo faithful fixings)⟩
  case addressed =>
    intro who e d told
    obtain ⟨asked, value⟩ := h.addressed (notices ▸ told)
    exact ⟨requested_of_unbuilt entries unbuilt e d ▸ asked, fixings.extends _ _ value⟩
  case reached =>
    intro id b seen made member here who e d asked unknown value told
    rw [Domains.untold_of_leadsTo faithful fixings] at told
    rw [notices]
    refine h.reached ((same rfl).1 member) (active id here) asked unknown ?_ told
    -- a value that is new has an event that is pending
    cases before : s.domains.known d with
    | none => exact absurd (.inl before) told
    | some b =>
      rw [fixings.extends _ _ before] at value
      exact value

theorem Attentive.newLiteral (h : s.Attentive) : s.newLiteral.2.Attentive := by
  have known : s.newLiteral.2.domains.known = s.domains.known := Domains.known_grow s.domains
  have untold : ∀ d, s.newLiteral.2.domains.Untold d ↔ s.domains.Untold d := by
    intro d
    simp only [Domains.Untold, known]
    rfl
  constructor
  case orderly => exact h.orderly.newLiteral
  case present => exact h.present
  case within => exact h.within
  case single => exact h.single
  case built =>
    intro id b seen made member
    obtain ⟨returned, before⟩ := h.built member
    exact ⟨returned, before.trans (Domains.before_grow s.domains)⟩
  case addressed =>
    intro who e d told
    rw [known]
    exact h.addressed told
  case reached =>
    intro id b seen made member here who e d asked unknown value told
    rw [known] at value
    rw [untold] at told
    exact h.reached member here asked unknown value told

theorem Attentive.unbuilt (h : s.Attentive) {x : Entry κ} (member : x ∈ s.entries) :
    x.built? ≠ some s.roster.nextId :=
  fun built => Nat.lt_irrefl _ (h.within member built)

theorem Attentive.addPropagator {b : AnyBlueprint κ} (h : s.Attentive)
    (added : s.addPropagator b = .ok (id, t)) : t.Attentive := by
  have orderly := h.orderly.addPropagator added
  obtain ⟨p, registrations, added⟩ := added_addPropagator added
  obtain rfl := added.own
  have notices : t.notices = s.notices :=
    notices_of_silent added.entries (by simp [Entry.notice?])
  have mem : ∀ {x}, x ∈ t.entries ↔
      x ∈ s.entries ∨ x = .created s.roster.nextId b s.domains p := by simp [added.entries]
  have active : ∀ {id}, id ≠ s.roster.nextId → t.isActive id = s.isActive id := by
    intro id other
    rw [added.isActive_eq, decide_eq_false other, Bool.false_or]
  constructor
  case orderly => exact orderly
  case present =>
    intro id here
    by_cases new : id = s.roster.nextId
    · exact ⟨b, s.domains, p, mem.2 (.inr (new ▸ rfl))⟩
    · obtain ⟨c, seen, made, member⟩ := h.present (active new ▸ here)
      exact ⟨c, seen, made, mem.2 (.inl member)⟩
  case within =>
    intro x id member built
    rw [added.size]
    rcases mem.1 member with old | rfl
    · exact Nat.lt_succ_of_lt (h.within old built)
    · cases built
      exact Nat.lt_succ_self _
  case single =>
    intro x y id first second left right
    rcases mem.1 first with old | rfl <;> rcases mem.1 second with other | rfl
    · exact h.single old other left right
    · cases right
      exact absurd left (h.unbuilt old)
    · cases left
      exact absurd right (h.unbuilt other)
    · rfl
  case built =>
    intro id c seen made member
    rw [added.domains]
    rcases mem.1 member with old | new
    · exact h.built old
    · cases new
      exact ⟨⟨registrations, added.created⟩, Domains.before_refl _⟩
  case addressed =>
    intro who e d told
    obtain ⟨asked, value⟩ := h.addressed (notices ▸ told)
    refine ⟨?_, added.domains ▸ value⟩
    rw [requested, added.entries, List.flatMap_append]
    exact List.mem_append_left _ asked
  case reached =>
    intro id c seen made member here who e d asked unknown value told
    rw [added.domains] at value told
    rw [notices]
    rcases mem.1 member with old | new
    · have other : id ≠ s.roster.nextId := fun same => h.unbuilt old (congrArg some same)
      exact h.reached old (active other ▸ here) asked unknown value told
    · cases new
      rw [unknown] at value
      cases value

theorem Attentive.deliverPending (h : s.Attentive) (delivered : s.deliverPending = .ok t) :
    t.Attentive := by
  obtain ⟨l, assigned⟩ := h.orderly.recorded
  obtain ⟨orderly, domains, written, drained, told, noticed⟩ :=
    h.orderly.deliverPending assigned delivered
  have unbuilt := unbuilt_of_map noticed
  have same := mem_entries_of_unbuilt told.entries unbuilt
  have notices : t.notices = s.notices ++ s.deliveries l := told.notices_eq noticed
  have requested := requested_of_unbuilt told.entries unbuilt
  have known := known_of_deliverPending delivered
  have faithful := assigned.faithful
  constructor
  case orderly => exact orderly
  case present =>
    intro id here
    obtain ⟨b, seen, made, member⟩ := h.present (told.active id ▸ here)
    exact ⟨b, seen, made, (same rfl).2 member⟩
  case within => exact fun member built => told.size ▸ h.within ((same built).1 member) built
  case single =>
    exact fun first second left right =>
      h.single ((same left).1 first) ((same right).1 second) left right
  case built =>
    intro id b seen made member
    obtain ⟨returned, before⟩ := h.built ((same rfl).1 member)
    exact ⟨returned, before.trans (Domains.before_of_known known drained.events_eq)⟩
  case addressed =>
    intro who e d heard
    rw [requested, known]
    rw [notices, List.mem_append] at heard
    rcases heard with old | new
    · exact h.addressed old
    · obtain ⟨pending, listens⟩ := mem_deliveries.1 new
      rw [h.orderly.listeners_eq, List.mem_filter, List.mem_eraseDups] at listens
      exact ⟨listens.1, assigned.known_eq pending⟩
  case reached =>
    intro id b seen made member here who e d asked unknown value heard
    have member := (same rfl).1 member
    have here : s.isActive id = true := told.active id ▸ here
    rw [known] at value
    rw [notices, List.mem_append]
    by_cases before : s.domains.Untold d
    · right
      obtain ⟨f, pending⟩ := (Domains.untold_iff.1 before).resolve_left (by simp [value])
      have same : f = e := by
        rw [assigned.events_eq] at pending
        have twice := value.symm.trans (assigned.known_eq pending)
        rw [← Event.ofValue_value e, ← Event.ofValue_value f, Option.some.inj twice]
      subst same
      apply mem_deliveries.2
      refine ⟨assigned.events_eq ▸ pending, ?_⟩
      rw [h.orderly.listeners_eq, List.mem_filter, List.mem_eraseDups]
      have own : who.propagator = id := (Option.some.inj (Entry.built_of_mem_requests asked)).symm
      exact ⟨List.mem_flatMap.2 ⟨_, member, asked⟩, own ▸ here⟩
    · exact .inl (h.reached member here asked unknown value before)

theorem Attentive.of_unwritten (h : s.Attentive) (orderly : t.Orderly)
    (fixings : s.domains.LeadsTo t.domains) (size : t.roster.size = s.roster.size)
    (active : ∀ id, t.isActive id = true → s.isActive id = true)
    (entries : t.entries = s.entries) : t.Attentive :=
  h.of_leadsTo orderly fixings size active (entries.trans (List.append_nil _).symm) (by simp)
    (by simp)

theorem Attentive.remark (h : s.Attentive) (r : Remark) : (s.remark r).Attentive :=
  h.of_leadsTo (h.orderly.remark r) (.refl _) rfl (fun _ active => active) (entries_remark s r)
    (by simp [Entry.built?]) (by simp [Entry.notice?])

theorem Attentive.counted (h : s.Attentive) (statistics : Statistics) :
    ({ s with statistics } : State κ).Attentive :=
  h.of_unwritten (h.orderly.counted statistics) (.refl _) rfl (fun _ active => active) rfl

theorem Attentive.retire (h : s.Attentive) (gone : s.retire id = .ok t) : t.Attentive := by
  have orderly := h.orderly.retire gone
  have active := isActive_of_retire gone
  obtain ⟨roster, subscriptions, retired, -, rfl⟩ := retire_eq gone
  apply h.of_unwritten orderly (.refl _) (Roster.size_of_retire retired) _ rfl
  intro j here
  rw [active] at here
  exact (Bool.and_eq_true_iff.1 here).2

theorem Attentive.ran {q : AnyPropagator κ}
    {outcome : Except Inconsistency (Verdict (AnyBlueprint κ))} (h : s.Attentive)
    (active : s.isActive id = true) (ran : s.RanTo id q outcome u) : u.Attentive := by
  apply h.of_leadsTo (h.orderly.ran active ran) ran.fixings (Roster.size_of_replace ran.replaced)
    _ ran.entries (by simp [Entry.built?]) (by simp [Entry.notice?])
  exact fun j here => ran.isActive_eq active j ▸ here

theorem kept_attentive : Kept fun s : State κ => s.Attentive := by
  apply Kept.of_pieces
  case remarked => exact fun r h => h.remark r
  case counted => exact fun statistics h => h.counted statistics
  case fixed =>
    exact fun h fixed => h.of_unwritten (kept_orderly.fixed h.orderly fixed) (.of_fix fixed) rfl
      (fun _ active => active) rfl
  case failed =>
    exact fun i h => h.of_unwritten (kept_orderly.failed i h.orderly) (.refl _) rfl
      (fun _ active => active) rfl
  case popped =>
    exact fun h popped => h.of_unwritten (kept_orderly.popped h.orderly popped) (.refl _) rfl
      (fun _ active => active) rfl
  case added => exact fun h added => h.addPropagator added
  case delivered => exact fun h delivered => h.deliverPending delivered
  case left => exact fun h active ran => h.ran active ran
  case retired => exact fun h gone => h.retire gone

/-- A number that stands for one domain is told of it once its event is delivered. -/
theorem Attentive.wasTold_iff (h : s.Attentive) (active : s.isActive id = true)
    {b : AnyBlueprint κ} {seen : Domains} {made : AnyPropagator κ}
    (member : .created id b seen made ∈ s.entries) {n : LocalId}
    (asks : ∀ e c, ⟨id, n⟩ ∈ Entry.requests e c (.created id b seen made) ↔ c = d)
    (unknown : seen.known d = none) : s.WasTold id n ↔ ¬ s.domains.Untold d := by
  constructor
  · intro ⟨e, c, told⟩
    obtain ⟨asked, value⟩ := h.addressed told
    obtain ⟨x, entered, asked⟩ := List.mem_flatMap.1 asked
    obtain rfl := h.single entered member (Entry.built_of_mem_requests asked) rfl
    obtain rfl := (asks e c).1 asked
    have informed : (⟨id, n⟩, c) ∈ s.informed := List.mem_map.2 ⟨_, told, rfl⟩
    rw [Domains.untold_iff, value]
    simpa using (h.orderly.settled informed).2
  · intro told
    cases value : s.domains.known d with
    | none => exact absurd (.inl value) told
    | some v =>
      refine ⟨.ofValue v, d, h.reached member active ((asks _ d).2 rfl) unknown ?_ told⟩
      rw [value, Event.value_ofValue]

structure Onward (s t : State κ) : Prop where
  domains : s.domains.Before t.domains
  entries : s.entries <+: t.entries

theorem Onward.of_leadsTo (h : s.Onward t) (attentive : t.Attentive)
    (fixings : t.domains.LeadsTo u.domains) (entries : u.entries = t.entries ++ more) :
    s.Onward u := by
  obtain ⟨l, assigned⟩ := attentive.orderly.recorded
  refine ⟨h.domains.trans (Domains.before_of_leadsTo assigned.faithful fixings), ?_⟩
  exact entries ▸ h.entries.trans (List.prefix_append _ _)

theorem Onward.of_unwritten (h : s.Onward t) (domains : u.domains = t.domains)
    (entries : u.entries = t.entries) : s.Onward u :=
  ⟨domains ▸ h.domains, entries ▸ h.entries⟩

theorem kept_onward (s : State κ) : Kept fun t : State κ => t.Attentive ∧ s.Onward t := by
  apply Kept.of_pieces
  case remarked =>
    exact fun r ⟨attentive, onward⟩ =>
      ⟨attentive.remark r, onward.of_leadsTo attentive (.refl _) (entries_remark _ r)⟩
  case counted =>
    exact fun statistics ⟨attentive, onward⟩ =>
      ⟨attentive.counted statistics, onward.of_unwritten rfl rfl⟩
  case fixed =>
    exact fun ⟨attentive, onward⟩ fixed => ⟨kept_attentive.fixed attentive fixed,
      onward.of_leadsTo attentive (.of_fix fixed) (List.append_nil _).symm⟩
  case failed =>
    exact fun i ⟨attentive, onward⟩ =>
      ⟨kept_attentive.failed i attentive, onward.of_unwritten rfl rfl⟩
  case popped =>
    exact fun ⟨attentive, onward⟩ popped =>
      ⟨kept_attentive.popped attentive popped, onward.of_unwritten rfl rfl⟩
  case left =>
    exact fun ⟨attentive, onward⟩ active ran =>
      ⟨attentive.ran active ran, onward.of_leadsTo attentive ran.fixings ran.entries⟩
  case added =>
    intro t u b id ⟨attentive, onward⟩ added
    refine ⟨attentive.addPropagator added, ?_⟩
    obtain ⟨p, registrations, added⟩ := added_addPropagator added
    exact onward.of_leadsTo attentive (added.domains ▸ .refl _) added.entries
  case delivered =>
    intro t u ⟨attentive, onward⟩ delivered
    obtain ⟨domains, written, -, told, -⟩ := delivered_deliverPending delivered
    refine ⟨attentive.deliverPending delivered, onward.domains.trans ?_, ?_⟩
    · exact Domains.before_of_known (known_of_deliverPending delivered)
        (pending_of_deliverPending delivered)
    · exact told.entries ▸ onward.entries.trans (List.prefix_append _ _)
  case retired =>
    intro t u id ⟨attentive, onward⟩ gone
    refine ⟨attentive.retire gone, ?_⟩
    obtain ⟨-, -, -, -, rfl⟩ := retire_eq gone
    exact onward.of_unwritten rfl rfl

theorem Attentive.onward [HoldsStandard κ] (h : s.Attentive) (later : s.Later t) : s.Onward t := by
  refine ((kept_onward s).later ?_ ⟨h, Domains.before_refl _, List.prefix_refl _⟩ later).2
  intro u ⟨attentive, onward⟩
  exact ⟨attentive.newLiteral, onward.domains.trans (Domains.before_grow _), onward.entries⟩

end State
end PseudoBoolean
