import PseudoBoolean.Proofs.Failure

/-!
The accounts of a state. Every propagator that was added is active, subsumed or replaced; every
domain with a value was fixed by a propagator or from outside; and the counters of notices, runs and
conflicts say how many there were.
-/
namespace PseudoBoolean

namespace Domains
variable {s t : Domains} {d : DomainId} {v : Bool} {r : Fixing}

def countFixed (s : Domains) : Nat := s.values.toList.countP Option.isSome

def countFixedSince (s t : Domains) : Nat :=
  (List.range t.size).countP fun i => (t.known ⟨i⟩).isSome && (s.known ⟨i⟩).isNone

theorem countFixed_grow (s : Domains) : s.grow.countFixed = s.countFixed := by
  simp [countFixed, grow]

theorem countFixed_eq_countP (s : Domains) :
    s.countFixed = (List.range s.size).countP fun i => (s.known ⟨i⟩).isSome := by
  have listed : (List.range s.size).map (fun i => s.known ⟨i⟩) = s.values.toList := by
    have length : s.values.toList.length = s.size := rfl
    apply List.ext_getElem
    · rw [List.length_map, List.length_range, length]
    · intro i _ below
      simp [known, Table.get?_eq_getElem?, below]
  rw [countFixed, ← listed, List.countP_map]
  rfl

theorem countFixed_add_since (above : t.known.Extends s.known) (size : t.size = s.size) :
    t.countFixed = s.countFixed + s.countFixedSince t := by
  have kept : ∀ i, (s.known ⟨i⟩).isSome = true → (t.known ⟨i⟩).isSome = true := by
    intro i found
    obtain ⟨b, value⟩ := Option.isSome_iff_exists.1 found
    exact Option.isSome_iff_exists.2 ⟨b, above _ _ value⟩
  -- those with a value in `t` are split by whether they had it in `s`
  rw [countFixed_eq_countP, countFixed_eq_countP, countFixedSince, size,
    List.countP_eq_countP_filter_add _ _ fun i => (s.known ⟨i⟩).isSome, List.countP_filter,
    List.countP_filter]
  congr 1
  · apply List.countP_congr
    intro i _
    simpa using kept i
  · simp

theorem countFixed_of_fix (h : s.fix d v = .ok (r, t)) :
    t.countFixed + s.numFixed = s.countFixed + t.numFixed := by
  rcases fix_cases h with ⟨rfl, -⟩ | ⟨-, -, rfl⟩ | ⟨-, -, rfl⟩
  · obtain ⟨free, stored, counted⟩ := values_of_fix_changed h
    obtain ⟨front, back, before, after⟩ := Table.split_of_get? free
    rw [countFixed, countFixed, before, after stored, counted]
    simp only [List.countP_append, List.countP_cons, Option.isSome_some, Option.isSome_none]
    simp only [if_true, Bool.false_eq_true, if_false]
    omega
  · rfl
  · rfl

theorem LeadsTo.countFixed (h : LeadsTo s t) :
    t.countFixed + s.numFixed = s.countFixed + t.numFixed := by
  induction h with
  | refl => rfl
  | fix step _ ih =>
    have first := countFixed_of_fix step
    omega

theorem countFixed_congr (h : t.values = s.values) : t.countFixed = s.countFixed := by
  rw [countFixed, countFixed, h]

theorem countFixedSince_of_known (same : t.known = s.known) : s.countFixedSince t = 0 := by
  rw [countFixedSince, List.countP_eq_zero]
  intro i _
  rw [same]
  cases s.known ⟨i⟩ <;> simp

end Domains

def Operation.fixes {κ : Type} [PropagatorKinds κ] : Operation κ → Bool
  | assign _ _ => true
  | op => op.posted?.isSome

namespace State
variable {κ : Type} [PropagatorKinds κ] {s t u : State κ} {id : PropagatorId}
  {outside conflicts : Nat}

/-- What the counters say, where `outside` domains were fixed by others than the propagators. -/
structure Accounts (s : State κ) (outside conflicts : Nat) : Prop where
  places : s.roster.size =
    s.roster.numActive + s.statistics.subsumptions + s.statistics.replacements
  active : s.roster.numActive = s.roster.active.length
  fixed : s.domains.numFixed = s.domains.countFixed
  fixings : s.domains.numFixed = outside + s.statistics.propagations
  notices : s.statistics.notifications = s.entries.countP Entry.isNotice
  runs : s.statistics.runs = s.entries.countP Entry.isRun
  conflicts : s.statistics.conflicts = conflicts

theorem accounts_new (limits : Limits) : (State.new (κ := κ) limits).Accounts 0 0 := by
  constructor <;> rfl

theorem Accounts.of_same (h : s.Accounts outside conflicts) (roster : t.roster = s.roster)
    (statistics : t.statistics = s.statistics) (entries : t.entries = s.entries)
    (numFixed : t.domains.numFixed = s.domains.numFixed)
    (countFixed : t.domains.countFixed = s.domains.countFixed) :
    t.Accounts outside conflicts := by
  constructor
  case places => rw [roster, statistics, h.places]
  case active => rw [roster, h.active]
  case fixed => rw [numFixed, countFixed, h.fixed]
  case fixings => rw [numFixed, statistics, h.fixings]
  case notices => rw [statistics, entries, h.notices]
  case runs => rw [statistics, entries, h.runs]
  case conflicts => rw [statistics, h.conflicts]

theorem Accounts.newLiteral (h : s.Accounts outside conflicts) :
    s.newLiteral.2.Accounts outside conflicts :=
  h.of_same rfl rfl rfl rfl (Domains.countFixed_grow _)

theorem Accounts.remark (h : s.Accounts outside conflicts) (r : Remark) :
    (s.remark r).Accounts outside conflicts where
  places := h.places
  active := h.active
  fixed := h.fixed
  fixings := h.fixings
  notices := by
    rw [entries_remark, List.countP_append]
    exact h.notices
  runs := by
    rw [entries_remark, List.countP_append]
    exact h.runs
  conflicts := h.conflicts

theorem Accounts.fail (h : s.Accounts outside conflicts) (i : Inconsistency) :
    (s.fail i).Accounts outside conflicts := h.of_same rfl rfl rfl rfl rfl

theorem Accounts.addPropagator {b : AnyBlueprint κ} (h : s.Accounts outside conflicts)
    (added : s.addPropagator b = .ok (id, t)) : t.Accounts outside conflicts := by
  obtain ⟨p, registrations, added⟩ := added_addPropagator added
  have more : t.roster.numActive = s.roster.numActive + 1 := by rw [added.roster]; rfl
  constructor
  case places =>
    have places := h.places
    rw [added.size, added.statistics, more]
    omega
  case active =>
    rw [more, added.roster, Roster.active_add, List.length_append, h.active]
    rfl
  case fixed => rw [added.domains, h.fixed]
  case fixings => rw [added.domains, added.statistics, h.fixings]
  case notices =>
    rw [added.statistics, added.entries, List.countP_append]
    exact h.notices
  case runs =>
    rw [added.statistics, added.entries, List.countP_append]
    exact h.runs
  case conflicts => rw [added.statistics, h.conflicts]

theorem Accounts.deliver {e : Event} {d : DomainId} {who : Subscriber}
    (h : s.Accounts outside conflicts) (delivered : s.deliver e d who = .ok t) :
    t.Accounts outside conflicts := by
  rcases deliver_eq delivered with
    ⟨-, rfl⟩ | ⟨p, q, decision, roster, agenda, found, -, replaced, -, rfl⟩
  · exact h
  obtain ⟨before, after, -, same, -⟩ := Roster.active_split found
  have numActive : roster.numActive = s.roster.numActive := (same replaced).2
  constructor
  case places =>
    change roster.size = roster.numActive + s.statistics.subsumptions + s.statistics.replacements
    rw [Roster.size_of_replace replaced, numActive, h.places]
  case active => exact Roster.counted_of_replace h.active found replaced
  case fixed => exact h.fixed
  case fixings => exact h.fixings
  case notices =>
    rw [entries_enter, List.countP_append]
    exact congrArg (· + 1) h.notices
  case runs =>
    rw [entries_enter, List.countP_append]
    exact h.runs
  case conflicts => exact h.conflicts

theorem Accounts.deliverPending (h : s.Accounts outside conflicts)
    (delivered : s.deliverPending = .ok t) : t.Accounts outside conflicts := by
  refine deliverPending_induction (P := fun u : State κ => u.Accounts outside conflicts) ?_
    Accounts.deliver delivered
  intro events domains drained
  obtain ⟨-, values, -, numFixed, -⟩ := Domains.frame_of_drain drained
  exact h.of_same rfl rfl rfl numFixed (Domains.countFixed_congr values)

section run
variable {p q : AnyPropagator κ} {outcome : Except Inconsistency (Verdict (AnyBlueprint κ))}
  {r : Except Inconsistency Unit}

theorem Accounts.ran (h : s.Accounts outside conflicts) (found : s.roster.get? id = some p)
    (ran : s.RanTo id q outcome u) : u.Accounts outside conflicts := by
  obtain ⟨before, after, -, same, -⟩ := Roster.active_split found
  have numActive : u.roster.numActive = s.roster.numActive := (same ran.replaced).2
  constructor
  case places => rw [ran.statistics, Roster.size_of_replace ran.replaced, numActive, h.places]
  case active => exact Roster.counted_of_replace h.active found ran.replaced
  case fixed =>
    have counted := ran.fixings.countFixed
    have before := h.fixed
    omega
  case fixings =>
    have more := ran.fixings.numFixed_le
    have before := h.fixings
    rw [ran.statistics]
    dsimp only
    omega
  case notices =>
    rw [ran.statistics, ran.entries, List.countP_append]
    exact h.notices
  case runs =>
    rw [ran.statistics, ran.entries, List.countP_append]
    exact congrArg (· + 1) h.runs
  case conflicts => rw [ran.statistics, h.conflicts]

theorem Accounts.retire (h : s.Accounts outside conflicts) (found : s.roster.get? id = some p)
    {subsumptions replacements : Nat}
    (one : subsumptions + replacements =
      s.statistics.subsumptions + s.statistics.replacements + 1)
    (gone : retire { s with statistics :=
      { s.statistics with subsumptions, replacements } } id = .ok t) :
    t.Accounts outside conflicts := by
  obtain ⟨roster, subscriptions, emptied, -, rfl⟩ := retire_eq gone
  obtain ⟨before, after, -, -, fewer⟩ := Roster.active_split found
  constructor
  case places =>
    -- one active propagator less is one subsumption or replacement more
    have places := h.places
    have less : roster.numActive + 1 = s.roster.numActive := (fewer emptied).2
    have size : roster.size = s.roster.size := Roster.size_of_retire emptied
    dsimp only
    omega
  case active => exact Roster.counted_of_retire h.active emptied
  case fixed => exact h.fixed
  case fixings => exact h.fixings
  case notices => exact h.notices
  case runs => exact h.runs
  case conflicts => exact h.conflicts

theorem Accounts.conclude {verdict : Verdict (AnyBlueprint κ)} (h : s.Accounts outside conflicts)
    (found : s.roster.get? id = some p) (concluded : s.conclude id verdict = .ok t) :
    t.Accounts outside conflicts := by
  cases verdict with
  | atFixpoint =>
    rw [← pure_eq_ok_iff.1 concluded]
    exact h
  | subsumed =>
    obtain ⟨u, gone, rfl⟩ := retire_remark concluded
    exact (h.retire found (by omega) gone).remark _
  | replaceBy b =>
    obtain ⟨u, gone, concluded⟩ := bind_eq_ok_iff.1 concluded
    obtain ⟨⟨replacement, v⟩, added, concluded⟩ := bind_eq_ok_iff.1 concluded
    rw [← pure_eq_ok_iff.1 concluded]
    exact ((h.retire found (by omega) gone).addPropagator added).remark _

theorem Accounts.runPropagator (h : s.Accounts outside conflicts)
    (done : s.runPropagator id = .ok (r, t)) : t.Accounts outside conflicts := by
  rcases runPropagator_eq done with
    ⟨-, -, rfl⟩ | ⟨p, q, outcome, u, found, -, ran, ⟨i, -, -, rfl⟩ | ⟨verdict, -, -, concluded⟩⟩
  · exact h
  · exact h.ran found ran
  · have now : u.roster.get? id = some q := by
      rw [Roster.get?_of_replace ran.replaced, if_pos rfl]
    exact (h.ran found ran).conclude now concluded

theorem Accounts.pop (h : s.Accounts outside conflicts) (agenda : Agenda) :
    ({ s with agenda } : State κ).Accounts outside conflicts := h.of_same rfl rfl rfl rfl rfl

theorem Accounts.roundAt (h : s.Accounts outside conflicts) (round : s.RoundAt u) :
    u.Accounts outside conflicts := by
  induction round with
  | first => exact h
  | next _ delivered popped ran ih =>
    exact ((ih.deliverPending delivered).pop _).runPropagator ran

theorem Accounts.propagate (h : s.Accounts outside conflicts) (done : s.propagate = .ok (r, t)) :
    (s.failure = none ∧ (∃ i, r = .error i ∧ t.failure = some i) ∧
      t.Accounts outside (conflicts + 1)) ∨
      ¬ (s.failure = none ∧ ∃ i, r = .error i) ∧ t.Accounts outside conflicts := by
  rcases last_round_of_propagate done with
    ⟨i, failed, -, rfl⟩ | ⟨u, v, first, agenda, round, delivered, popped, last⟩
  · refine .inr ⟨?_, h⟩
    rintro ⟨sound, -⟩
    rw [failed] at sound
    cases sound
  have waiting := ((h.roundAt round).deliverPending delivered).pop agenda
  rcases last with ⟨-, rfl, rfl⟩ | ⟨id, w, i, -, ran, rfl, rfl⟩
  · exact .inr ⟨nofun, waiting⟩
  · have after := waiting.runPropagator ran
    refine .inl ⟨round.start_sound, ⟨i, rfl, rfl⟩, Accounts.fail ?_ i⟩
    exact ⟨after.places, after.active, after.fixed, after.fixings, after.notices, after.runs,
      congrArg (· + 1) after.conflicts⟩

end run

theorem Accounts.fixed_outside (h : s.Accounts outside conflicts) {domains : Domains}
    (fixings : s.domains.LeadsTo domains) :
    ∃ more, ({ s with domains } : State κ).Accounts more conflicts := by
  refine ⟨outside + (domains.numFixed - s.domains.numFixed), h.places, h.active, ?_, ?_,
    h.notices, h.runs, h.conflicts⟩
  · have counted := fixings.countFixed
    have before := h.fixed
    dsimp only
    omega
  · have more := fixings.numFixed_le
    have before := h.fixings
    dsimp only
    omega

theorem leadsTo_of_edit (h : s.Edit t) :
    s.domains.LeadsTo t.domains ∧ t.statistics = s.statistics := by
  cases h with
  | remarked r => exact ⟨.refl _, rfl⟩
  | fixed fixed => exact ⟨.of_fix fixed, rfl⟩
  | failed i => exact ⟨.refl _, rfl⟩
  | added done =>
    obtain ⟨p, registrations, added⟩ := added_addPropagator done
    rw [added.domains]
    exact ⟨.refl _, added.statistics⟩

theorem Accounts.edit (h : s.Accounts outside conflicts) (edit : s.Edit t) :
    ∃ more, t.Accounts more conflicts := by
  cases edit with
  | remarked r => exact ⟨outside, h.remark r⟩
  | fixed fixed => exact h.fixed_outside (.of_fix fixed)
  | failed i => exact ⟨outside, h.fail i⟩
  | added added => exact ⟨outside, h.addPropagator added⟩

theorem Accounts.edits (h : s.Accounts outside conflicts) (edits : s.Edits t) :
    t.Accounts (outside + s.domains.countFixedSince t.domains) conflicts := by
  have kept : s.domains.LeadsTo t.domains ∧ t.statistics = s.statistics ∧
      ∃ more, t.Accounts more conflicts := by
    induction edits with
    | refl => exact ⟨.refl _, rfl, outside, h⟩
    | tail _ last ih =>
      obtain ⟨fixings, statistics, more, accounts⟩ := ih
      obtain ⟨later, same⟩ := leadsTo_of_edit last
      exact ⟨fixings.trans later, same.trans statistics, accounts.edit last⟩
  obtain ⟨fixings, statistics, more, accounts⟩ := kept
  have since := Domains.countFixed_add_since fixings.extends fixings.size
  have before := h.fixings
  have after := accounts.fixings
  rw [statistics] at after
  -- what the edits fixed is found by comparing the domains before and after
  have same : more = outside + s.domains.countFixedSince t.domains := by
    have first := h.fixed
    have last := accounts.fixed
    omega
  exact same ▸ accounts

section operations
variable [HoldsStandard κ] {op : Operation κ} {ops rest : List (Operation κ)} {a : Answer}
  {answers : List Answer}

theorem known_of_not_fixes (idle : op.fixes = false) (other : op ≠ .propagate)
    (done : op.apply s = .ok (a, t)) : t.domains.known = s.domains.known := by
  cases op with
  | newLiteral =>
    obtain ⟨-, rfl⟩ := pure_pair_eq_ok_iff.1 done
    exact Domains.known_grow _
  | giveUp =>
    obtain ⟨-, rfl⟩ := pure_pair_eq_ok_iff.1 done
    rfl
  | value l =>
    obtain ⟨b, -, done⟩ := bind_eq_ok_iff.1 done
    obtain ⟨-, rfl⟩ := pure_pair_eq_ok_iff.1 done
    rfl
  | addPropagator b =>
    obtain ⟨id, done, -⟩ := Operation.answered_eq_ok done
    obtain ⟨p, registrations, added⟩ := added_addPropagator done
    rw [added.domains]
  | propagate => exact absurd rfl other
  | assign | post | imply | reify | postAll | implyAll => cases idle

/-- How many domains the operations of a run fix by assigning and by posting. -/
def fixedOutside (s : State κ) : List (Operation κ) → Nat
  | [] => 0
  | op :: rest =>
    match op.apply s with
    | .ok (_, t) =>
      (if op.fixes then s.domains.countFixedSince t.domains else 0) + t.fixedOutside rest
    | .error _ => 0

inductive FailsPropagating : State κ → List (Operation κ) → Prop where
  | now {s t : State κ} {i : Inconsistency} {rest : List (Operation κ)} : s.failure = none →
      s.propagate = .ok (.error i, t) → FailsPropagating s (.propagate :: rest)
  | later {s t : State κ} {op : Operation κ} {a : Answer} {rest : List (Operation κ)} :
      op.apply s = .ok (a, t) → FailsPropagating t rest → FailsPropagating s (op :: rest)

theorem fixedOutside_cons (done : op.apply s = .ok (a, t)) : s.fixedOutside (op :: rest) =
    (if op.fixes then s.domains.countFixedSince t.domains else 0) + t.fixedOutside rest := by
  rw [fixedOutside, done]

theorem not_failsPropagating {i : Inconsistency} (failed : s.failure = some i) :
    ¬ s.FailsPropagating ops := by
  intro fails
  induction fails with
  | now sound =>
    rw [sound] at failed
    cases failed
  | later first _ ih => exact ih ((still_of_apply failed first).failure.trans failed)

theorem failsPropagating_singleton_iff : s.FailsPropagating [op] ↔
    op = .propagate ∧ s.failure = none ∧ ∃ i t, s.propagate = .ok (.error i, t) := by
  constructor
  · intro fails
    cases fails with
    | now sound propagated => exact ⟨rfl, sound, _, _, propagated⟩
    | later _ others => cases others
  · rintro ⟨rfl, sound, i, t, propagated⟩
    exact .now sound propagated

theorem failsPropagating_cons_iff (done : op.apply s = .ok (a, t)) :
    s.FailsPropagating (op :: rest) ↔ s.FailsPropagating [op] ∨ t.FailsPropagating rest := by
  constructor
  · intro fails
    cases fails with
    | now sound propagated => exact .inl (.now sound propagated)
    | later first others =>
      cases first.symm.trans done
      exact .inr others
  · rintro (fails | others)
    · obtain ⟨rfl, sound, i, t, propagated⟩ := failsPropagating_singleton_iff.1 fails
      exact .now sound propagated
    · exact .later done others

theorem Accounts.apply (h : s.Accounts outside conflicts) (done : op.apply s = .ok (a, t)) :
    let now := outside + if op.fixes then s.domains.countFixedSince t.domains else 0
    (s.FailsPropagating [op] ∧ (∃ i, t.failure = some i) ∧ t.Accounts now (conflicts + 1)) ∨
      ¬ s.FailsPropagating [op] ∧ t.Accounts now conflicts := by
  intro now
  rw [failsPropagating_singleton_iff]
  rcases apply_cases done with ⟨rfl, rfl⟩ | ⟨rfl, r, propagated, rfl⟩ | ⟨-, other, edits⟩
  · exact .inr ⟨nofun, h.newLiteral⟩
  · rcases h.propagate propagated with ⟨sound, ⟨i, rfl, failed⟩, after⟩ | ⟨calm, after⟩
    · exact .inl ⟨⟨rfl, sound, i, t, propagated⟩, ⟨i, failed⟩, after⟩
    · refine .inr ⟨?_, after⟩
      rintro ⟨-, sound, i, u, again⟩
      cases again.symm.trans propagated
      exact calm ⟨sound, i, rfl⟩
  · refine .inr ⟨fun fails => other fails.1, ?_⟩
    unfold now
    cases kind : op.fixes with
    | true => exact h.edits edits
    | false =>
      have none_ := Domains.countFixedSince_of_known (known_of_not_fixes kind other done)
      exact none_ ▸ h.edits edits

/-- There is one conflict more if a propagation made the state fail, and never a second one. -/
theorem Accounts.run (h : s.Accounts outside conflicts) (done : s.run ops = .ok (answers, t)) :
    (s.FailsPropagating ops ∧ t.Accounts (outside + s.fixedOutside ops) (conflicts + 1)) ∨
      ¬ s.FailsPropagating ops ∧ t.Accounts (outside + s.fixedOutside ops) conflicts := by
  induction ops generalizing s outside conflicts answers with
  | nil =>
    obtain ⟨-, rfl⟩ := pure_pair_eq_ok_iff.1 done
    exact .inr ⟨nofun, h⟩
  | cons op rest ih =>
    obtain ⟨⟨a, u⟩, first, done⟩ := bind_eq_ok_iff.1 done
    obtain ⟨⟨others, w⟩, later, done⟩ := bind_eq_ok_iff.1 done
    obtain ⟨-, rfl⟩ := pure_pair_eq_ok_iff.1 done
    rw [failsPropagating_cons_iff first, fixedOutside_cons first, ← Nat.add_assoc]
    rcases h.apply first with ⟨fails, ⟨i, failed⟩, after⟩ | ⟨calm, after⟩
    · rcases ih after later with ⟨again, -⟩ | ⟨-, accounts⟩
      · exact absurd again (not_failsPropagating failed)
      · exact .inl ⟨.inl fails, accounts⟩
    · rcases ih after later with ⟨fails, accounts⟩ | ⟨sound, accounts⟩
      · exact .inl ⟨.inr fails, accounts⟩
      · exact .inr ⟨not_or.2 ⟨calm, sound⟩, accounts⟩

/-- The counters account for everything that happened in a run. Every propagator that was added is
    active, subsumed or replaced; every domain with a value was fixed by an assignment or a posting,
    or by a propagator, even if that ended in an inconsistency; every notice and every run of a
    propagator is counted, and each of them is a call that led the roster to where it is; and a
    conflict is counted at most once, if it is a propagation that makes the state fail. -/
theorem accounts_of_run {limits : Limits} (done : (State.new limits).run ops = .ok (answers, t)) :
    t.roster.size =
      t.roster.numActive + t.statistics.subsumptions + t.statistics.replacements ∧
    t.roster.numActive = t.roster.places.toList.countP Option.isSome ∧
    t.domains.numFixed = t.domains.countFixed ∧
    t.domains.numFixed = (State.new limits).fixedOutside ops + t.statistics.propagations ∧
    t.statistics.notifications = t.entries.countP Entry.isNotice ∧
    t.statistics.runs = t.entries.countP Entry.isRun ∧
    t.statistics.conflicts ≤ 1 ∧
    (t.statistics.conflicts = 1 ↔ (State.new limits).FailsPropagating ops) ∧ t.Documented := by
  have result := (accounts_new limits).run done
  have accounts : ∃ conflicts, t.Accounts ((State.new limits).fixedOutside ops) conflicts := by
    rw [Nat.zero_add] at result
    rcases result with ⟨-, accounts⟩ | ⟨-, accounts⟩
    · exact ⟨_, accounts⟩
    · exact ⟨_, accounts⟩
  have counted : t.statistics.conflicts ≤ 1 ∧
      (t.statistics.conflicts = 1 ↔ (State.new limits).FailsPropagating ops) := by
    rcases result with ⟨fails, accounts⟩ | ⟨calm, accounts⟩
    · rw [accounts.conflicts]
      exact ⟨Nat.le_refl 1, fun _ => fails, fun _ => rfl⟩
    · rw [accounts.conflicts]
      exact ⟨Nat.zero_le 1, fun one => absurd one Nat.zero_ne_one, fun fails => absurd fails calm⟩
  have documented : t.Documented := Reachable.documented ⟨limits, leadsTo_of_run done⟩
  obtain ⟨conflicts, accounts⟩ := accounts
  refine ⟨accounts.places, ?_, accounts.fixed, accounts.fixings, accounts.notices, accounts.runs,
    counted.1, counted.2, documented⟩
  rw [accounts.active, Roster.active, List.length_filterMap_eq_countP]
  rfl

end operations

/-- One propagator is replaced, its replacement is subsumed, and the last one fixes a domain before
    it finds that it cannot be satisfied. -/
theorem accounts_of_run_conflict :
    let x : Literal := .positive ⟨0⟩
    let y : Literal := .positive ⟨1⟩
    let z : Literal := .positive ⟨2⟩
    let w : Literal := .positive ⟨3⟩
    let ops : List (Operation Standard.Kind) := [.newLiteral, .newLiteral, .newLiteral,
      .newLiteral,
      .addPropagator ⟨.impliedAtLeast .literals, ImpliedAtLeast.Blueprint.mk z [x, y] 1⟩,
      .post ⟨[1], [z], .atLeast, 1⟩, .propagate, .assign x false, .propagate,
      .addPropagator ⟨.atLeast .literals, AtLeast.Blueprint.mk [w, w.complement] 2⟩, .propagate]
    ∃ answers t, (State.new .standard).run ops = .ok (answers, t) ∧
      t.statistics = {
        runs := 4, propagations := 2, notifications := 2
        conflicts := 1, subsumptions := 1, replacements := 1 } ∧
      t.roster.numActive = 1 ∧ t.roster.size = 3 ∧
      t.domains.countFixed = 4 ∧ (State.new .standard).fixedOutside ops = 2 ∧
      t.entries.countP Entry.isNotice = 2 ∧ t.entries.countP Entry.isRun = 4 ∧
      (State.new .standard).FailsPropagating ops ∧ t.Documented := by
  intro x y z w ops
  obtain ⟨t, ⟨answers, ran, -⟩, checked⟩ := accepts_of_reaches (State.new .standard) ops
    (fun t => decide (t.statistics = ⟨4, 2, 2, 1, 1, 1⟩ ∧ t.roster.numActive = 1 ∧
      t.domains.numFixed = 4)) (by decide +kernel)
  obtain ⟨statistics, numActive, numFixed⟩ := of_decide_eq_true checked
  obtain ⟨places, -, fixed, fixings, notices, runs, -, conflict, documented⟩ := accounts_of_run ran
  rw [statistics] at places fixings notices runs conflict
  refine ⟨answers, t, ran, statistics, numActive, ?_, fixed.symm.trans numFixed, ?_, notices.symm,
    runs.symm, conflict.1 rfl, documented⟩
  · rw [numActive] at places
    exact places
  · rw [numFixed] at fixings
    dsimp only at fixings
    omega

end State
end PseudoBoolean
