import PseudoBoolean.Proofs.Tracking

/-!
The counters of the counting propagators over a whole run. In every state they are determined by the
store for which the propagator was built and by the present one; when a propagator is about to run,
by the present one alone. A propagator that takes over from another one counts what that one did.
-/
namespace PseudoBoolean

theorem pair_infix_append_singleton {α : Type} {a b x : α} {l : List α} :
    [a, b] <:+: l ++ [x] ↔ [a, b] <:+: l ∨ l.getLast? = some a ∧ b = x := by
  rw [List.infix_concat_iff, or_comm, List.suffix_concat_iff,
    ← List.singleton_suffix_iff_getLast?_eq_some]
  apply or_congr_right
  constructor
  · rintro (never | ⟨front, same, suffix⟩)
    · cases never
    · obtain ⟨rfl, last⟩ := List.append_inj' (show [a] ++ [b] = front ++ [x] from same) rfl
      exact ⟨suffix, List.singleton_inj.1 last⟩
  · rintro ⟨suffix, rfl⟩
    exact .inr ⟨[a], rfl, suffix⟩

namespace State
open Standard
variable {s t u : State Kind} {id : PropagatorId} {e : Event} {d : DomainId} {who : Subscriber}
  {more : List (Entry Kind)} {p : AnyPropagator Kind} {b : AnyBlueprint Kind} {seen : Domains}
  {made : AnyPropagator Kind} {lits : List Literal} {threshold : Int}

theorem pair_infix_of_unbuilt {x : Entry Kind} (entries : t.entries = s.entries ++ more)
    (unbuilt : ∀ x ∈ more, x.built? = none)
    (pair : [x, .created id b seen made] <:+: t.entries) :
    [x, .created id b seen made] <:+: s.entries := by
  rw [entries] at pair
  clear entries
  induction more using List.reverseRecOn with
  | nil => simpa using pair
  | append_singleton rest y ih =>
    rw [← List.append_assoc, pair_infix_append_singleton] at pair
    rcases pair with before | ⟨-, rfl⟩
    · exact ih (fun z member => unbuilt z (List.mem_append_left _ member)) before
    · cases unbuilt _ (List.mem_append_right rest (List.mem_singleton.2 rfl))

theorem wasTold_of_silent (entries : t.entries = s.entries ++ more)
    (silent : ∀ x ∈ more, x.notice? = none) (id : PropagatorId) (n : LocalId) :
    t.WasTold id n ↔ s.WasTold id n := by
  rw [WasTold, notices_of_silent entries silent, WasTold]

theorem wasTold_of_notified {decision : Decision} {q : AnyPropagator Kind}
    (entries : t.entries = s.entries ++ [.notified who e d decision q]) (n : LocalId) :
    t.WasTold id n ↔ s.WasTold id n ∨ (id = who.propagator ∧ n = who.localId) := by
  have notices : t.notices = s.notices ++ [(who, e, d)] := by
    simp [State.notices, entries, Entry.notice?]
  simp only [WasTold, notices, List.mem_append, List.mem_singleton, exists_or]
  apply or_congr_right
  constructor
  · rintro ⟨f, c, same⟩
    cases same
    exact ⟨rfl, rfl⟩
  · rintro ⟨rfl, rfl⟩
    exact ⟨e, d, rfl⟩

/-- Every propagator is what became of its blueprint. This holds also between two notices. -/
structure Following (s : State Kind) : Prop where
  heard : ∀ {e d who}, who ∈ s.subscriptions.audience e d → who ∈ s.requested e d
  single : ∀ {x y id}, x ∈ s.entries → y ∈ s.entries → x.built? = some id → y.built? = some id →
    x = y
  built : ∀ {id b seen made}, .created id b seen made ∈ s.entries →
    ∃ registrations, b.create seen = .ok (made, registrations)
  became : ∀ {id b seen made p}, .created id b seen made ∈ s.entries →
    s.roster.get? id = some p → Became seen.known s.domains.known (s.WasTold id) b p

theorem Following.domain_of_listens (h : s.Following)
    (listens : who ∈ s.subscriptions.audience e d)
    (member : .created who.propagator b seen made ∈ s.entries)
    (counted : countedBy b = some (lits, threshold)) {l : Literal}
    (placed : (seen.known.freeOf lits)[who.localId.index]? = some l) : d = l.domain := by
  obtain ⟨x, entered, asked⟩ := List.mem_flatMap.1 (h.heard listens)
  obtain rfl := h.single entered member (Entry.built_of_mem_requests asked) rfl
  obtain ⟨registrations, created⟩ := h.built member
  simp only [Entry.requests, created] at asked
  exact (mem_naming_iff created counted placed).1 asked

theorem Following.deliver (h : s.Following) (value : s.domains.known d = some e.value)
    (listens : who ∈ s.subscriptions.audience e d) (delivered : s.deliver e d who = .ok t) :
    t.Following := by
  rcases deliver_eq delivered with
    ⟨-, rfl⟩ | ⟨p, q, decision, roster, agenda, active, notified, replaced, -, same⟩
  · exact h
  have entries : t.entries = s.entries ++ [.notified who e d decision q] := by
    rw [same]
    exact entries_enter _ _
  have unbuilt : ∀ x ∈ [Entry.notified who e d decision q], x.built? = none := by
    simp [Entry.built?]
  have domains : t.domains = s.domains := by rw [same]; rfl
  have subscriptions : t.subscriptions = s.subscriptions := by rw [same]; rfl
  have places : t.roster = roster := by rw [same]; rfl
  have old := mem_entries_of_unbuilt entries unbuilt
  constructor
  case heard =>
    intro f c w hears
    rw [requested_of_unbuilt entries unbuilt]
    exact h.heard (subscriptions ▸ hears)
  case single =>
    exact fun first second left right =>
      h.single ((old left).1 first) ((old right).1 second) left right
  case built => exact fun member => h.built ((old rfl).1 member)
  case became =>
    intro id b seen made r member here
    have member := (old rfl).1 member
    rw [places, Roster.get?_of_replace replaced] at here
    rw [domains]
    split at here
    · next own =>
      subst own
      cases here
      refine ((h.became member active).notify ?_ notified).congr fun n => ?_
      · intro lits t l counted placed
        rw [← h.domain_of_listens listens member counted placed]
        exact value
      · rw [wasTold_of_notified entries]
        simp
    · next other =>
      refine (h.became member here).congr fun n => ?_
      rw [wasTold_of_notified entries]
      simp [other]

/-- `id` was built for `b` at `seen` right after `old` had asked to be replaced by it. -/
def HandsOver (s : State Kind) (old id : PropagatorId) (b : AnyBlueprint Kind) (seen : Domains) :
    Prop :=
  ∃ q made, [.ran old (.ok (.replaceBy b)) q, .created id b seen made] <:+: s.entries

def CarriesOn (s : State Kind) (old : PropagatorId) (b' : AnyBlueprint Kind) (seen' : Domains) :
    Prop :=
  ∃ b seen made lits t lits' t', .created old b seen made ∈ s.entries ∧
    countedBy b = some (lits, t) ∧ countedBy b' = some (lits', t') ∧
      Counters.Handover seen lits t seen' lits' t'

theorem CarriesOn.mono {old : PropagatorId} (h : s.CarriesOn old b seen)
    (entries : s.entries ⊆ t.entries) : t.CarriesOn old b seen := by
  obtain ⟨c, first, made, lits, k, lits', k', member, counted, handed⟩ := h
  exact ⟨c, first, made, lits, k, lits', k', entries member, counted, handed⟩

structure Counted (s : State Kind) : Prop where
  attentive : s.Attentive
  became : ∀ {id b seen made p}, .created id b seen made ∈ s.entries →
    s.roster.get? id = some p → Became seen.known s.domains.known (s.WasTold id) b p
  handed : ∀ {old id b seen}, s.HandsOver old id b seen → s.CarriesOn old b seen

theorem Counted.exact (h : s.Counted) (member : .created id b seen made ∈ s.entries)
    (active : s.roster.get? id = some p) (counted : countedBy b = some (lits, threshold)) :
    ∃ c, countersOf p = some c ∧ c.Exact seen s.domains lits threshold := by
  obtain ⟨⟨registrations, created⟩, before⟩ := h.attentive.built member
  have present : s.isActive id = true := isActive_of_get? active
  refine exact_of_became (h.became member active) counted before ?_
  intro n l placed
  apply h.attentive.wasTold_iff present member
  · intro e c
    simp only [Entry.requests, created]
    exact mem_naming_iff created counted placed
  · have free := List.mem_of_getElem? placed
    rw [PartialValuation.freeOf, List.mem_filter, Option.isNone_iff_eq_none] at free
    exact PartialValuation.read_eq_none_iff.1 free.2

theorem Counted.counts (h : s.Counted) (active : s.roster.get? id = some p) {c : Counters}
    (counters : countersOf p = some c) :
    ∃ b seen made lits t, .created id b seen made ∈ s.entries ∧ countedBy b = some (lits, t) ∧
      c.Exact seen s.domains lits t := by
  obtain ⟨b, seen, made, member⟩ := h.attentive.present (isActive_of_get? active)
  have counted : (countedBy b).isSome = true :=
    (counted_iff (h.became member active)).1 (by rw [counters]; rfl)
  obtain ⟨⟨lits, t⟩, counted⟩ := Option.isSome_iff_exists.1 counted
  obtain ⟨c', same, exact_⟩ := h.exact member active counted
  obtain rfl := Option.some.inj (counters.symm.trans same)
  exact ⟨b, seen, made, lits, t, member, counted, exact_⟩

theorem counted_new (limits : Limits) : (State.new (κ := Kind) limits).Counted where
  attentive := attentive_new limits
  became := by simp [State.new, entries]
  handed := by simp [State.new, HandsOver, entries]

theorem Counted.of_unbuilt (h : s.Counted) (attentive : t.Attentive)
    (above : t.domains.known.Extends s.domains.known)
    (roster : ∀ id p, t.roster.get? id = some p → s.roster.get? id = some p)
    (entries : t.entries = s.entries ++ more) (unbuilt : ∀ x ∈ more, x.built? = none)
    (silent : ∀ x ∈ more, x.notice? = none) : t.Counted := by
  have old := mem_entries_of_unbuilt entries unbuilt
  constructor
  case attentive => exact attentive
  case became =>
    intro id b seen made p member active
    have before := h.became ((old rfl).1 member) (roster id p active)
    exact (before.mono above).congr (wasTold_of_silent entries silent id)
  case handed =>
    intro old id b seen ⟨q, made, pair⟩
    apply (h.handed ⟨q, made, pair_infix_of_unbuilt entries unbuilt pair⟩).mono
    exact entries ▸ List.subset_append_left _ _

theorem Counted.deliverPending (h : s.Counted) (delivered : s.deliverPending = .ok t) :
    t.Counted := by
  have orderly := h.attentive.orderly
  obtain ⟨l, assigned⟩ := orderly.recorded
  obtain ⟨-, domains, written, -, told, noticed⟩ := orderly.deliverPending assigned delivered
  have unbuilt := unbuilt_of_map noticed
  have following : t.Following := by
    refine keeps_deliverPending assigned.faithful ?_ Following.deliver delivered
    intro events domains drained
    obtain ⟨-, values, -⟩ := Domains.frame_of_drain drained
    constructor
    case heard =>
      intro e d who hears
      rw [orderly.audience, List.mem_filter, List.mem_eraseDups] at hears
      exact hears.1
    case single => exact h.attentive.single
    case built => exact fun member => (h.attentive.built member).1
    case became =>
      intro id b seen made p member active
      rw [Domains.known_congr values]
      exact h.became member active
  constructor
  case attentive => exact h.attentive.deliverPending delivered
  case became => exact following.became
  case handed =>
    intro old id b seen ⟨q, made, pair⟩
    apply (h.handed ⟨q, made, pair_infix_of_unbuilt told.entries unbuilt pair⟩).mono
    exact told.entries ▸ List.subset_append_left _ _

theorem Counted.addPropagator (h : s.Counted) (added : s.addPropagator b = .ok (id, t))
    (handing : ∀ {old q}, s.entries.getLast? = some (.ran old (.ok (.replaceBy b)) q) →
      s.CarriesOn old b s.domains) : t.Counted := by
  have attentive := h.attentive.addPropagator added
  obtain ⟨p, registrations, added⟩ := added_addPropagator added
  obtain rfl := added.own
  have told : ∀ id n, t.WasTold id n ↔ s.WasTold id n :=
    wasTold_of_silent added.entries (by simp [Entry.notice?])
  constructor
  case attentive => exact attentive
  case became =>
    intro id c seen made r member active
    rw [added.entries, List.mem_append, List.mem_singleton] at member
    rw [added.roster, Roster.get?_add] at active
    rw [added.domains]
    rcases member with old | new
    · rw [if_neg fun same => h.attentive.unbuilt old (congrArg some same)] at active
      exact (h.became old active).congr (told id)
    · cases new
      rw [if_pos rfl] at active
      cases active
      refine (became_create added.created).congr fun n => ?_
      -- nobody is told before it is built
      rw [told, iff_false]
      rintro ⟨e, d, heard⟩
      obtain ⟨x, entered, asked⟩ := List.mem_flatMap.1 (h.attentive.addressed heard).1
      exact h.attentive.unbuilt entered (Entry.built_of_mem_requests asked)
  case handed =>
    rintro old id c seen ⟨q, made, pair⟩
    rw [added.entries, pair_infix_append_singleton] at pair
    have carried : s.CarriesOn old c seen := by
      rcases pair with before | ⟨last, new⟩
      · exact h.handed ⟨q, made, before⟩
      · cases new
        exact handing last
    exact carried.mono (added.entries ▸ List.subset_append_left _ _)

def Closed (s : State Kind) : Prop :=
  ∀ old b q, s.entries.getLast? ≠ some (.ran old (.ok (.replaceBy b)) q)

theorem closed_of_last {x : Entry Kind} (entries : t.entries = s.entries ++ [x])
    (other : ∀ old b q, x ≠ .ran old (.ok (.replaceBy b)) q) : t.Closed := by
  intro old b q last
  rw [entries, List.getLast?_concat] at last
  exact other old b q (Option.some.inj last)

theorem Closed.of_same (h : s.Closed) (entries : t.entries = s.entries) : t.Closed := by
  rw [Closed, entries]
  exact h

structure Accounted (s : State Kind) : Prop where
  counted : s.Counted
  closed : s.Closed

theorem Accounted.of_unwritten (h : s.Accounted) (attentive : t.Attentive)
    (above : t.domains.known.Extends s.domains.known)
    (roster : ∀ id p, t.roster.get? id = some p → s.roster.get? id = some p)
    (entries : t.entries = s.entries) : t.Accounted where
  counted := h.counted.of_unbuilt attentive above roster
    (entries.trans (List.append_nil _).symm) (by simp) (by simp)
  closed := h.closed.of_same entries

theorem Accounted.remark (h : s.Counted) (r : Remark) : (s.remark r).Accounted where
  counted := h.of_unbuilt (h.attentive.remark r) (PartialValuation.extends_refl _)
    (fun _ _ active => active) (entries_remark s r) (by simp [Entry.built?])
    (by simp [Entry.notice?])
  closed := closed_of_last (entries_remark s r) fun old b q => nofun

theorem Accounted.retire (h : s.Accounted) (gone : s.retire id = .ok t) : t.Accounted := by
  have attentive := h.counted.attentive.retire gone
  obtain ⟨roster, subscriptions, retired, -, rfl⟩ := retire_eq gone
  refine h.of_unwritten attentive (PartialValuation.extends_refl _) ?_ rfl
  intro j p active
  simp only [Roster.get?_of_retire retired] at active
  split at active
  · cases active
  · exact active

theorem Accounted.addPropagator (h : s.Accounted) (added : s.addPropagator b = .ok (id, t)) :
    t.Accounted := by
  refine ⟨h.counted.addPropagator added fun last => absurd last (h.closed _ _ _), ?_⟩
  obtain ⟨p, registrations, added⟩ := added_addPropagator added
  exact closed_of_last added.entries fun old b q => nofun

theorem Accounted.deliverPending (h : s.Accounted) (delivered : s.deliverPending = .ok t) :
    t.Accounted := by
  refine ⟨h.counted.deliverPending delivered, ?_⟩
  intro old b q last
  obtain ⟨l, assigned⟩ := h.counted.attentive.orderly.recorded
  obtain ⟨-, domains, written, -, told, noticed⟩ :=
    h.counted.attentive.orderly.deliverPending assigned delivered
  have notices := isSome_of_map noticed
  rw [told.entries, List.getLast?_append, Option.or_eq_some_iff] at last
  rcases last with new | ⟨-, before⟩
  · cases notices _ (List.mem_of_getLast? new)
  · exact h.closed old b q before

theorem Accounted.counted_statistics (h : s.Accounted) (statistics : Statistics) :
    ({ s with statistics } : State Kind).Accounted :=
  h.of_unwritten (h.counted.attentive.counted statistics) (PartialValuation.extends_refl _)
    (fun _ _ active => active) rfl

theorem Accounted.ran {outcome : Except Inconsistency (Verdict (AnyBlueprint Kind))}
    (h : s.Accounted) (active : s.roster.get? id = some p) (left : s.RanTo id p outcome u)
    (stays : ∀ b, outcome ≠ .ok (.replaceBy b)) : u.Accounted := by
  have present : s.isActive id = true := isActive_of_get? active
  have roster : ∀ j p, u.roster.get? j = some p → s.roster.get? j = some p := by
    intro j p' found
    rw [Roster.get?_of_replace left.replaced] at found
    split at found
    · next own => rw [own, active, found]
    · exact found
  refine ⟨h.counted.of_unbuilt (h.counted.attentive.ran present left) left.fixings.extends roster
    left.entries (by simp [Entry.built?]) (by simp [Entry.notice?]),
    closed_of_last left.entries ?_⟩
  intro old b q same
  cases same
  exact stays b rfl

/-- A run in which the propagator hands over. What it hands over is read off its counters, which are
    those of the store as nothing is pending. -/
theorem Accounted.replaced {c : Counters} {q : AnyPropagator Kind} (h : s.Accounted)
    (quiet : s.domains.pending.events = []) (active : s.roster.get? id = some p)
    (counters : countersOf p = some c) (counted : countedBy b = some (c.held, c.threshold))
    (left : s.RanTo id q (.ok (.replaceBy b)) u) (domains : u.domains = s.domains)
    (concluded : u.conclude id (.replaceBy b) = .ok t) : t.Accounted := by
  have present : s.isActive id = true := isActive_of_get? active
  rcases conclude_eq concluded with
    ⟨never, -⟩ | ⟨never, -⟩ | ⟨b', statistics, replacement, v, w, handed, gone, built, rfl⟩
  · cases never
  · cases never
  cases handed
  have attentive := ((h.counted.attentive.ran present left).counted statistics).retire gone
  obtain ⟨roster, subscriptions, retired, -, rfl⟩ := retire_eq gone
  have others : ∀ j p, roster.get? j = some p → s.roster.get? j = some p := by
    intro j p' found
    simp only [Roster.get?_of_retire retired, Roster.get?_of_replace left.replaced] at found
    split at found
    · cases found
    · exact found
  have counts := h.counted.of_unbuilt attentive left.fixings.extends others left.entries
    (by simp [Entry.built?]) (by simp [Entry.notice?])
  refine Accounted.remark (counts.addPropagator built ?_) _
  intro old q' last
  change u.entries.getLast? = _ at last
  rw [left.entries, List.getLast?_concat] at last
  cases last
  obtain ⟨first, seen, made, lits, k, member, count, exact_⟩ := h.counted.counts active counters
  have before := (h.counted.attentive.built member).2
  obtain ⟨held, threshold⟩ := exact_.of_quiet before quiet
  refine ⟨first, seen, made, lits, k, _, _, ?_, count, counted, ?_⟩
  · exact left.entries ▸ List.mem_append_left _ member
  · exact domains ▸ ⟨before, quiet, held, threshold⟩

theorem Accounted.runPropagator {r : Except Inconsistency Unit} (h : s.Accounted)
    (quiet : s.domains.pending.events = []) (ran : s.runPropagator id = .ok (r, t)) :
    t.Accounted := by
  rcases runPropagator_eq ran with ⟨-, -, rfl⟩ | ⟨p, q, outcome, u, active, done, left, ended⟩
  · exact h
  rcases run_cases done with ⟨rfl, stays⟩ | ⟨c, b, counters, rfl, counted, domains⟩
  · have after := h.ran active left stays
    rcases ended with ⟨i, -, -, rfl⟩ | ⟨verdict, rfl, -, concluded⟩
    · exact after
    rcases conclude_eq concluded with
      ⟨-, rfl⟩ | ⟨-, statistics, gone⟩ | ⟨b, _, _, _, _, rfl, -⟩
    · exact after
    · exact (Accounted.remark (after.counted_statistics statistics).counted _).retire gone
    · exact absurd rfl (stays b)
  · rcases ended with ⟨i, never, -⟩ | ⟨verdict, same, -, concluded⟩
    · cases never
    cases same
    exact h.replaced quiet active counters counted left domains concluded

theorem kept_accounted : Kept Accounted where
  remarked r h := Accounted.remark h.counted r
  counted statistics h := h.counted_statistics statistics
  fixed h fixed := h.of_unwritten (kept_attentive.fixed h.counted.attentive fixed)
    (Domains.extends_of_fix fixed) (fun _ _ active => active) rfl
  failed i h := h.of_unwritten (kept_attentive.failed i h.counted.attentive)
    (PartialValuation.extends_refl _) (fun _ _ active => active) rfl
  added h added := h.addPropagator added
  delivered h delivered := h.deliverPending delivered
  popped h popped := h.of_unwritten (kept_attentive.popped h.counted.attentive popped)
    (PartialValuation.extends_refl _) (fun _ _ active => active) rfl
  ran h quiet ran := h.runPropagator quiet ran

theorem Accounted.newLiteral (h : s.Accounted) : s.newLiteral.2.Accounted := by
  refine h.of_unwritten h.counted.attentive.newLiteral ?_ (fun _ _ active => active) rfl
  exact (Domains.known_grow s.domains).symm ▸ PartialValuation.extends_refl _

theorem accounted_new (limits : Limits) : (State.new (κ := Kind) limits).Accounted :=
  ⟨counted_new limits, fun old b q => by simp [State.new, entries]⟩

theorem Reachable.accounted (h : s.Reachable) : s.Accounted :=
  kept_accounted.reachable accounted_new Accounted.newLiteral h

theorem handsOver_of_runPropagator {q : AnyPropagator Kind} {domains : Domains}
    {r : Except Inconsistency Unit} (active : s.roster.get? id = some p)
    (asked : (p.propagate id).run s.domains = .ok ((q, .ok (.replaceBy b)), domains))
    (ran : s.runPropagator id = .ok (r, t)) :
    t.HandsOver id s.roster.nextId b domains ∧ t.isActive s.roster.nextId = true := by
  rcases runPropagator_eq ran with ⟨gone, -, -⟩ | ⟨p', q', outcome, u, here, done, left, ended⟩
  · rw [isActive_of_get? active] at gone
    cases gone
  cases active.symm.trans here
  cases asked.symm.trans done
  rcases ended with ⟨i, never, -⟩ | ⟨verdict, same, -, concluded⟩
  · cases never
  cases same
  rcases conclude_eq concluded with
    ⟨never, -⟩ | ⟨never, -⟩ | ⟨b', statistics, replacement, v, w, handed, gone, added, rfl⟩
  · cases never
  · cases never
  cases handed
  obtain ⟨roster, subscriptions, retired, -, rfl⟩ := retire_eq gone
  obtain ⟨made, registrations, added⟩ := added_addPropagator added
  have next : replacement = s.roster.nextId := added.own.trans (congrArg PropagatorId.mk
    ((Roster.size_of_retire retired).trans (Roster.size_of_replace left.replaced)))
  subst next
  constructor
  · refine ⟨q, made, s.entries, [.remarked (.replaced id s.roster.nextId)], ?_⟩
    rw [entries_remark, added.entries]
    change _ = u.entries ++ _ ++ _
    rw [left.entries]
    simp
  · change w.isActive s.roster.nextId = true
    rw [added.isActive_eq]
    simp

/-- The propagator counts `lits` up to a threshold since the store was `seen`: it was built for that
    then, or it took over from one that was. -/
inductive CountsFrom (s : State Kind) (id : PropagatorId) :
    List Literal → Int → Domains → Prop where
  | built {b : AnyBlueprint Kind} {seen : Domains} {made : AnyPropagator Kind}
      {lits : List Literal} {threshold : Int} :
      .created id b seen made ∈ s.entries → countedBy b = some (lits, threshold) →
        CountsFrom s id lits threshold seen
  | replaced {old : PropagatorId} {b b' : AnyBlueprint Kind} {seen seen' : Domains}
      {made : AnyPropagator Kind} {lits : List Literal} {threshold : Int} :
      .created old b seen made ∈ s.entries → countedBy b = some (lits, threshold) →
        s.HandsOver old id b' seen' → CountsFrom s id lits threshold seen

theorem Counted.exact_of_countsFrom (h : s.Counted) (origin : s.CountsFrom id lits threshold seen)
    (active : s.roster.get? id = some p) :
    seen.Before s.domains ∧ ∃ c, countersOf p = some c ∧ c.Exact seen s.domains lits threshold := by
  cases origin with
  | built member counted =>
    exact ⟨(h.attentive.built member).2, h.exact member active counted⟩
  | replaced member counted handsOver =>
    obtain ⟨b₀, seen₀, made₀, lits₀, t₀, lits', t', first, count, count', handed⟩ :=
      h.handed handsOver
    cases h.attentive.single first member rfl rfl
    cases count.symm.trans counted
    obtain ⟨q, made', pair⟩ := handsOver
    have new := pair.subset (List.mem_cons_of_mem _ List.mem_cons_self)
    have after := (h.attentive.built new).2
    obtain ⟨c, counters, exact_⟩ := h.exact new active count'
    exact ⟨handed.before.trans after, c, counters, exact_.of_handover handed after⟩

/-- At every moment of a run an active counting propagator holds those of its literals, with
    repetitions, that had no value when the count began and of whose domain no event has been
    delivered, and the true ones among the others are off its threshold. After a drain, when
    propagators run, nothing that is held has a value and the counters are those of the store; and
    the counters of a propagator never increase. -/
theorem exact_counters_of_later (reachable : s.Reachable) (later : s.Later u) :
    (∀ id p c, u.roster.get? id = some p → countersOf p = some c →
      ∃ lits t seen, u.CountsFrom id lits t seen) ∧
    (∀ id p lits t seen, u.roster.get? id = some p → u.CountsFrom id lits t seen →
      ∃ c, countersOf p = some c ∧ c.Exact seen u.domains lits t) ∧
    (∀ v, u.deliverPending = .ok v → ∀ id p lits t seen, v.roster.get? id = some p →
      v.CountsFrom id lits t seen → ∃ c, countersOf p = some c ∧
        (∀ l ∈ c.held, v.domains.known.read l = none) ∧
        c.held.Perm (lits.filter fun l => (v.domains.known.read l).isNone) ∧
        c.numUnfixed = c.held.length ∧ c.threshold = max wordMin
          (t - lits.countP fun l => v.domains.known.read l = some true)) ∧
    ∀ v, u.Later v → ∀ id p q c c', u.roster.get? id = some p → v.roster.get? id = some q →
      countersOf p = some c → countersOf q = some c' →
        c'.numUnfixed ≤ c.numUnfixed ∧ c'.threshold ≤ c.threshold := by
  have accounted := kept_accounted.later Accounted.newLiteral reachable.accounted later
  have counted := accounted.counted
  refine ⟨?_, ?_, ?_, ?_⟩
  · intro id p c active counters
    obtain ⟨b, seen, made, lits, t, member, count, -⟩ := counted.counts active counters
    exact ⟨lits, t, seen, .built member count⟩
  · intro id p lits t seen active origin
    exact (counted.exact_of_countsFrom origin active).2
  · intro v drained id p lits t seen active origin
    have quiet := pending_of_deliverPending drained
    obtain ⟨before, c, counters, exact_⟩ :=
      (accounted.deliverPending drained).counted.exact_of_countsFrom origin active
    obtain ⟨held, threshold⟩ := exact_.of_quiet before quiet
    refine ⟨c, counters, ?_, held, exact_.numUnfixed, threshold⟩
    intro l member
    have free := (List.mem_filter.1 (held.subset member)).2
    exact Option.isNone_iff_eq_none.1 free
  · intro v after id p q c c' active active' counters counters'
    have accounted' := kept_accounted.later Accounted.newLiteral accounted after
    have onward := counted.attentive.onward after
    obtain ⟨b, seen, made, lits, t, member, count, exact_⟩ := counted.counts active counters
    obtain ⟨d, same, exact'⟩ :=
      accounted'.counted.exact (onward.entries.subset member) active' count
    obtain rfl := Option.some.inj (counters'.symm.trans same)
    exact exact_.mono exact' onward.domains

def takesOver (lits : List Literal) (t : Int) : List (Entry Kind) → Bool
  | [.created ⟨0⟩ ⟨.impliedAtLeast .literals, b⟩ _ _, .notified _ _ _ _ _,
      .ran ⟨0⟩ (.ok (.replaceBy ⟨.atLeast .literals, asked⟩)) _,
      .created ⟨1⟩ ⟨.atLeast .literals, built⟩ _ _, .remarked _, .ran _ _ _] =>
    decide (countedBy ⟨.impliedAtLeast .literals, b⟩ = some (lits, t)) &&
      (fun b c : AtLeast.Blueprint Literal => decide (b = c)) asked built
  | _ => false

theorem countsFrom_of_takesOver (h : takesOver lits threshold s.entries = true) :
    ∃ seen, (∃ b seen', s.HandsOver ⟨0⟩ ⟨1⟩ b seen') ∧ s.CountsFrom ⟨1⟩ lits threshold seen := by
  generalize same : s.entries = entries at h
  unfold takesOver at h
  split at h
  case h_2 => cases h
  next b seen made who e d decision after asked q built seen' made' r self outcome last =>
  obtain ⟨counted, again⟩ := Bool.and_eq_true_iff.1 h
  have compared : ∀ b c : AtLeast.Blueprint Literal, decide (b = c) = true → b = c :=
    fun b c => of_decide_eq_true
  obtain rfl := compared asked built again
  have handsOver : s.HandsOver ⟨0⟩ ⟨1⟩ ⟨.atLeast .literals, asked⟩ seen' :=
    ⟨q, made', [_, _], [_, _], same.symm⟩
  have member : .created ⟨0⟩ ⟨.impliedAtLeast .literals, b⟩ seen made ∈ s.entries := by
    rw [same]
    exact List.mem_cons_self
  exact ⟨seen, ⟨_, _, handsOver⟩, .replaced member (of_decide_eq_true counted) handsOver⟩

/-- A propagator that took over holds a variable twice, until it hears of it. -/
theorem exact_counters_of_later_replaced :
    let lits : List Literal := [.positive ⟨1⟩, (Literal.positive ⟨2⟩).complement, .positive ⟨1⟩]
    let ops : List (Operation Kind) := [.newLiteral, .newLiteral, .newLiteral,
      .addPropagator ⟨.impliedAtLeast .literals,
        ImpliedAtLeast.Blueprint.mk (.positive ⟨0⟩) lits 2⟩,
      .assign (.positive ⟨0⟩) true, .propagate, .assign (.positive ⟨1⟩) true]
    ∃ s v p q c c' old seen, (State.new .standard).Accepts ops s ∧ s.deliverPending = .ok v ∧
      old ≠ ⟨1⟩ ∧ (∃ b seen', s.HandsOver old ⟨1⟩ b seen') ∧ s.CountsFrom ⟨1⟩ lits 2 seen ∧
      s.roster.get? ⟨1⟩ = some p ∧ countersOf p = some c ∧ c.Exact seen s.domains lits 2 ∧
      v.roster.get? ⟨1⟩ = some q ∧ countersOf q = some c' ∧
      c'.numUnfixed ≤ c.numUnfixed ∧ c'.threshold ≤ c.threshold := by
  intro lits ops
  obtain ⟨s, run, checked⟩ := accepts_of_reaches (State.new .standard) ops
    (fun s => takesOver lits 2 s.entries && s.deliverPending.toOption.any fun v =>
      ((s.roster.get? ⟨1⟩).bind countersOf).isSome && ((v.roster.get? ⟨1⟩).bind countersOf).isSome)
    (by decide +kernel)
  obtain ⟨journal, drains⟩ := Bool.and_eq_true_iff.1 checked
  obtain ⟨v, drained, present⟩ := exists_of_any drains
  obtain ⟨here, there⟩ := Bool.and_eq_true_iff.1 present
  obtain ⟨_, ran, _⟩ := id run
  have reachable : s.Reachable := ⟨.standard, leadsTo_of_run ran⟩
  obtain ⟨-, exact_, -, monotone⟩ := exact_counters_of_later reachable .here
  obtain ⟨seen, handsOver, origin⟩ := countsFrom_of_takesOver journal
  obtain ⟨c, counters⟩ := Option.isSome_iff_exists.1 here
  obtain ⟨p, active, counters⟩ := Option.bind_eq_some_iff.1 counters
  obtain ⟨c', counters'⟩ := Option.isSome_iff_exists.1 there
  obtain ⟨q, active', counters'⟩ := Option.bind_eq_some_iff.1 counters'
  obtain ⟨d, same, isExact⟩ := exact_ ⟨1⟩ p lits 2 seen active origin
  obtain rfl := Option.some.inj (counters.symm.trans same)
  exact ⟨s, v, p, q, c, c', ⟨0⟩, seen, run, drained, by decide, handsOver, origin, active,
    counters, isExact, active', counters',
    monotone v (.drained .here drained) ⟨1⟩ p q c c' active active' counters counters'⟩

end State
end PseudoBoolean
