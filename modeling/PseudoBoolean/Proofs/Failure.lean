import PseudoBoolean.Proofs.Deliveries
import PseudoBoolean.Proofs.RunBound

/-!
Failed states. Whatever makes a state fail takes everybody off the agenda, and from then on every
operation finds the failure first: nothing is fixed, delivered or run, and a posting only compares
the sizes of its arguments.
-/
namespace PseudoBoolean

def Operation.posted? {κ : Type} [PropagatorKinds κ] : Operation κ → Option (List LinearConstraint)
  | post c | imply _ c | reify _ c => some [c]
  | postAll cs | implyAll _ cs => some cs
  | _ => none

theorem LinearConstraint.forM_checkSizes_eq_ok_iff {cs : List LinearConstraint} :
    forM cs checkSizes = .ok () ↔ ∀ c ∈ cs, c.coefficients.length = c.literals.length := by
  induction cs with
  | nil => simp [pure, Except.pure]
  | cons c rest ih =>
    rw [List.forM_cons, List.forall_mem_cons, ← ih]
    by_cases same : c.coefficients.length = c.literals.length
    · rw [show c.checkSizes = .ok () from if_pos same]
      simp [same, bind, Except.bind]
    · rw [show c.checkSizes = .error _ from if_neg same]
      simp [same, bind, Except.bind]

namespace State
variable {κ : Type} [PropagatorKinds κ] {s t u : State κ} {i : Inconsistency} {id : PropagatorId}

section idle

def Idle (s : State κ) : Prop := ∀ i, s.failure = some i → s.agenda.waiting = []

theorem idle_of_sound (sound : s.failure = none) : s.Idle := by
  intro i failed
  rw [sound] at failed
  cases failed

theorem failure_of_conclude {verdict : Verdict (AnyBlueprint κ)}
    (h : s.conclude id verdict = .ok t) : t.failure = s.failure := by
  rcases conclude_eq h with
    ⟨-, rfl⟩ | ⟨-, statistics, gone⟩ | ⟨b, statistics, replacement, u, v, -, gone, built, rfl⟩
  · rfl
  · obtain ⟨roster, subscriptions, -, -, rfl⟩ := retire_eq gone
    rfl
  · obtain ⟨roster, subscriptions, -, -, rfl⟩ := retire_eq gone
    obtain ⟨p, registrations, added⟩ := added_addPropagator built
    exact added.failure

theorem failure_of_runPropagator {r : Except Inconsistency Unit}
    (h : s.runPropagator id = .ok (r, t)) : t.failure = s.failure := by
  rcases runPropagator_eq h with
    ⟨-, -, rfl⟩ | ⟨p, q, outcome, u, -, -, ran, ⟨i, -, -, rfl⟩ | ⟨verdict, -, -, concluded⟩⟩
  · rfl
  · exact ran.failure
  · exact (failure_of_conclude concluded).trans ran.failure

theorem RoundAt.start_sound (h : s.RoundAt u) : s.failure = none := by
  induction h with
  | first sound => exact sound
  | next _ _ _ _ ih => exact ih

theorem RoundAt.sound (h : s.RoundAt u) : u.failure = none := by
  induction h with
  | first sound => exact sound
  | next _ delivered _ ran ih =>
    exact (failure_of_runPropagator ran).trans ((failure_deliverPending delivered).trans ih)

theorem idle_of_propagate {r : Except Inconsistency Unit} (idle : s.Idle)
    (h : s.propagate = .ok (r, t)) : t.Idle := by
  rcases last_round_of_propagate h with
    ⟨-, -, -, rfl⟩ | ⟨u, v, first, agenda, round, delivered, -, last⟩
  · exact idle
  rcases last with ⟨-, -, rfl⟩ | ⟨-, w, i, -, -, -, rfl⟩
  · exact idle_of_sound ((failure_deliverPending delivered).trans round.sound)
  · exact fun _ _ => Agenda.waiting_clear _

theorem Idle.of_change (idle : s.Idle) (h : s.Change t) : t.Idle := by
  cases h with
  | remarked r => exact idle
  | fixed _ => exact idle
  | failed i => exact fun _ _ => Agenda.waiting_clear _
  | propagated done => exact idle_of_propagate idle done
  | added done =>
    obtain ⟨p, registrations, added⟩ := added_addPropagator done
    intro i failed
    rw [added.failure] at failed
    rcases added.queued with ⟨-, same⟩ | ⟨sound, -⟩
    · rw [same, idle i failed]
    · simp [isFailed, failed] at sound

theorem Reachable.idle [HoldsStandard κ] (h : s.Reachable) : s.Idle :=
  h.keeps (P := fun s : State κ => s.Idle) (fun _ => idle_of_sound rfl) (fun idle => idle)
    fun idle change => idle.of_change change

end idle

section postings
variable [HoldsStandard κ] (failed : s.isFailed = true) (control : Literal) (c : LinearConstraint)
include failed

theorem post_of_failed : s.post c = .ok (c.checkSizes, s) := by
  unfold post
  cases c.checkSizes with
  | error e => rfl
  | ok done => simp [failed, pure, Except.pure]

theorem imply_of_failed : s.imply control c = .ok (c.checkSizes, s) := by
  unfold imply
  cases c.checkSizes with
  | error e => rfl
  | ok done => simp [failed, pure, Except.pure]

theorem reify_of_failed : s.reify control c = .ok (c.checkSizes, s) := by
  unfold reify
  rw [imply_of_failed failed]
  cases sizes : c.checkSizes with
  | error e => rfl
  | ok done =>
    -- the second half has the sizes of the first
    refine (imply_of_failed failed control.complement c.negation).trans ?_
    rw [c.checkSizes_negation, sizes]

omit failed [HoldsStandard κ] in
theorem postEach_of_unmoved
    {one : State κ → LinearConstraint → Checked (Except ConstraintError Unit × State κ)}
    (unmoved : ∀ c, one s c = .ok (c.checkSizes, s)) (cs : List LinearConstraint) :
    s.postEach one cs = .ok (forM cs LinearConstraint.checkSizes, s) := by
  induction cs with
  | nil => rfl
  | cons c rest ih =>
    rw [List.forM_cons, postEach, unmoved]
    cases c.checkSizes with
    | error e => rfl
    | ok done => exact ih

theorem posted_of_failed {op : Operation κ} {cs : List LinearConstraint}
    (posts : op.posted? = some cs) :
    op.apply s = .ok (.posted (forM cs LinearConstraint.checkSizes), s) := by
  have single : ∀ c : LinearConstraint, forM [c] LinearConstraint.checkSizes = c.checkSizes := by
    intro c
    rw [List.forM_cons]
    cases c.checkSizes <;> rfl
  cases op with
  | post c =>
    cases posts
    rw [Operation.apply, post_of_failed failed, single]
    rfl
  | imply control c =>
    cases posts
    rw [Operation.apply, imply_of_failed failed, single]
    rfl
  | reify control c =>
    cases posts
    rw [Operation.apply, reify_of_failed failed, single]
    rfl
  | postAll cs =>
    cases posts
    rw [Operation.apply, postAll, postEach_of_unmoved (post_of_failed failed)]
    rfl
  | implyAll control cs =>
    cases posts
    rw [Operation.apply, implyAll, postEach_of_unmoved (imply_of_failed failed control)]
    rfl
  | newLiteral | value | assign | propagate | giveUp | addPropagator => cases posts

end postings

/-- From `s` to `t` nothing happened but that domains without a value, propagators that do not wait
    and entries about neither notices nor runs may have been added. -/
structure Still (s t : State κ) : Prop where
  failure : t.failure = s.failure
  agenda : t.agenda = s.agenda
  statistics : t.statistics = s.statistics
  size : s.domains.size ≤ t.domains.size
  known : t.domains.known = s.domains.known
  numFixed : t.domains.numFixed = s.domains.numFixed
  pending : t.domains.pending.events = s.domains.pending.events
  propagators : ∀ {id p}, s.roster.get? id = some p → t.roster.get? id = some p
  entries : ∃ more, t.entries = s.entries ++ more ∧
    ∀ x ∈ more, x.isNotice = false ∧ x.isRun = false

theorem still_refl (s : State κ) : s.Still s := by
  constructor
  case size => exact Nat.le_refl _
  case propagators => exact fun found => found
  case entries => exact ⟨[], (List.append_nil _).symm, nofun⟩
  all_goals rfl

theorem Still.trans (h : s.Still t) (k : t.Still u) : s.Still u where
  failure := k.failure.trans h.failure
  agenda := k.agenda.trans h.agenda
  statistics := k.statistics.trans h.statistics
  size := Nat.le_trans h.size k.size
  known := k.known.trans h.known
  numFixed := k.numFixed.trans h.numFixed
  pending := k.pending.trans h.pending
  propagators found := k.propagators (h.propagators found)
  entries := by
    obtain ⟨first, written, silent⟩ := h.entries
    obtain ⟨second, more, silentThen⟩ := k.entries
    refine ⟨first ++ second, by rw [more, written, List.append_assoc], ?_⟩
    intro x member
    rcases List.mem_append.1 member with old | new
    · exact silent x old
    · exact silentThen x new

theorem still_newLiteral (s : State κ) : s.Still s.newLiteral.2 := by
  constructor
  case size =>
    exact Nat.le_of_lt (Nat.lt_of_lt_of_eq (Nat.lt_succ_self _) (Table.size_push _ _).symm)
  case known => exact Domains.known_grow _
  case entries => exact ⟨[], (List.append_nil _).symm, nofun⟩
  case propagators => exact fun found => found
  all_goals rfl

theorem still_giveUp (s : State κ) : s.Still s.giveUp := by
  constructor
  case size => exact Nat.le_refl _
  case propagators => exact fun found => found
  case entries =>
    refine ⟨[.remarked .constraintUnused], entries_remark s _, ?_⟩
    simp [Entry.isNotice, Entry.notice?, Entry.isRun]
  all_goals rfl

theorem still_addPropagator {b : AnyBlueprint κ} (failed : s.isFailed = true)
    (h : s.addPropagator b = .ok (id, t)) : s.Still t := by
  obtain ⟨p, registrations, added⟩ := added_addPropagator h
  -- the new propagator is put off for ever
  have agenda : t.agenda = s.agenda := by
    rcases added.queued with ⟨-, same⟩ | ⟨sound, -⟩
    · exact same
    · rw [failed] at sound
      cases sound
  constructor
  case failure => exact added.failure
  case agenda => exact agenda
  case statistics => exact added.statistics
  case size => exact Nat.le_of_eq (congrArg Domains.size added.domains.symm)
  case known | numFixed | pending => rw [added.domains]
  case entries =>
    refine ⟨_, added.entries, ?_⟩
    simp [Entry.isNotice, Entry.notice?, Entry.isRun]
  case propagators =>
    intro j q found
    have other : j ≠ s.roster.nextId := by
      rintro rfl
      rw [get?_nextId] at found
      cases found
    rw [added.roster, Roster.get?_add, if_neg other, found]

theorem isFailed_of_failure (failed : s.failure = some i) : s.isFailed = true := by
  rw [isFailed, failed]
  rfl

theorem assign_of_failed (failed : s.failure = some i) (l : Literal) (v : Bool) :
    s.assign l v = .ok (.error i, s) := by
  rw [assign, failed]
  rfl

theorem propagate_of_failed (failed : s.failure = some i) : s.propagate = .ok (.error i, s) := by
  rw [propagate, failed]
  rfl

section operations
variable [HoldsStandard κ] {op : Operation κ} {a : Answer}

/-- An operation on a failed state fixes nothing, tells nobody and runs nobody. -/
theorem still_of_apply (failed : s.failure = some i) (h : op.apply s = .ok (a, t)) :
    s.Still t := by
  have isFailed := isFailed_of_failure failed
  have posted : ∀ {cs}, op.posted? = some cs → s.Still t := by
    intro cs posts
    rw [posted_of_failed isFailed posts] at h
    cases h
    exact still_refl s
  cases op with
  | newLiteral =>
    obtain ⟨-, rfl⟩ := pure_pair_eq_ok_iff.1 h
    exact still_newLiteral s
  | giveUp =>
    obtain ⟨-, rfl⟩ := pure_pair_eq_ok_iff.1 h
    exact still_giveUp s
  | value l =>
    obtain ⟨b, -, h⟩ := bind_eq_ok_iff.1 h
    obtain ⟨-, rfl⟩ := pure_pair_eq_ok_iff.1 h
    exact still_refl s
  | assign l v =>
    obtain ⟨r, done, -⟩ := Operation.answered_eq_ok h
    rw [assign_of_failed failed] at done
    cases done
    exact still_refl s
  | propagate =>
    obtain ⟨r, done, -⟩ := Operation.answered_eq_ok h
    rw [propagate_of_failed failed] at done
    cases done
    exact still_refl s
  | addPropagator b =>
    obtain ⟨j, done, -⟩ := Operation.answered_eq_ok h
    exact still_addPropagator isFailed done
  | post c | imply control c | reify control c | postAll cs | implyAll control cs =>
    exact posted rfl

theorem still_of_leadsTo (failed : s.failure = some i) (h : LeadsTo s t) : s.Still t := by
  induction h with
  | refl s => exact still_refl s
  | step first _ ih =>
    have still := still_of_apply failed first
    exact still.trans (ih (still.failure.trans failed))

/-- Failure is for good: after it the state only takes domains without a value and propagators that
    never wait. Every later assignment and propagation is answered with the inconsistency, and a
    posting leaves the state exactly as it is and is refused for the sizes of its constraints
    only. -/
theorem still_of_failed (reachable : s.Reachable) (failed : s.failure = some i)
    (later : LeadsTo s t) :
    t.failure = some i ∧ t.agenda.waiting = [] ∧ t.agenda.numQueued = 0 ∧ s.Still t ∧
      (∀ l v, t.assign l v = .ok (.error i, t)) ∧ t.propagate = .ok (.error i, t) ∧
      ∀ (op : Operation κ) cs, op.posted? = some cs → ∃ r, op.apply t = .ok (.posted r, t) ∧
        (r = .ok () ↔ ∀ c ∈ cs, c.coefficients.length = c.literals.length) := by
  have still := still_of_leadsTo failed later
  have failedStill : t.failure = some i := still.failure.trans failed
  have nobody : s.agenda.waiting = [] := reachable.idle i failed
  have none_ : s.agenda.numQueued = 0 := by
    rw [reachable.orderly.tallied.numQueued, nobody]
    rfl
  refine ⟨failedStill, still.agenda ▸ nobody, still.agenda ▸ none_, still,
    assign_of_failed failedStill, propagate_of_failed failedStill, ?_⟩
  intro op cs posts
  exact ⟨_, posted_of_failed (isFailed_of_failure failedStill) posts,
    LinearConstraint.forM_checkSizes_eq_ok_iff⟩

/-- The first of two propagators finds a conflict, and the second never runs; neither does one that
    is added later. -/
theorem still_of_failed_conflict :
    let least : AnyBlueprint Standard.Kind :=
      ⟨.atLeast .literals, AtLeast.Blueprint.mk [.positive ⟨0⟩, .positive ⟨1⟩] 1⟩
    let ops : List (Operation Standard.Kind) := [.newLiteral, .newLiteral, .addPropagator least,
      .post ⟨[1, 1], [.positive ⟨0⟩, .positive ⟨1⟩], .atMost, 1⟩,
      .assign (.positive ⟨0⟩) false, .assign (.positive ⟨1⟩) false, .propagate]
    let more : List (Operation Standard.Kind) := [.newLiteral, .addPropagator least,
      .reify (.positive ⟨2⟩) ⟨[1], [.positive ⟨0⟩], .equal, 1⟩, .assign (.positive ⟨2⟩) true]
    ∃ s t, (State.new .standard).Accepts ops s ∧ s.failure = some (.conflict ⟨0⟩) ∧
      s.Accepts more t ∧ t.failure = some (.conflict ⟨0⟩) ∧ t.agenda.waiting = [] ∧
      s.Still t ∧ t.propagate = .ok (.error (.conflict ⟨0⟩), t) ∧
      ∃ r, t.post ⟨[1], [], .equal, 1⟩ = .ok (.error r, t) := by
  intro least ops more
  obtain ⟨s, first, checked⟩ := accepts_of_reaches (State.new .standard) ops
    (fun s => decide (s.failure = some (.conflict ⟨0⟩)) && s.reaches more fun _ => true)
    (by decide +kernel)
  obtain ⟨failed, returned⟩ := Bool.and_eq_true_iff.1 checked
  obtain ⟨t, second, -⟩ := accepts_of_reaches s more _ returned
  have ⟨_, ran, _⟩ := first
  have ⟨_, ranOn, _⟩ := second
  have failed := of_decide_eq_true failed
  have reachable : s.Reachable := ⟨.standard, leadsTo_of_run ran⟩
  obtain ⟨failure, nobody, -, still, -, propagated, posts⟩ :=
    still_of_failed reachable failed (leadsTo_of_run ranOn)
  refine ⟨s, t, first, failed, second, failure, nobody, still, propagated, ?_⟩
  obtain ⟨r, posted, sizes⟩ := posts (.post ⟨[1], [], .equal, 1⟩) _ rfl
  obtain ⟨b, posted, same⟩ := Operation.answered_eq_ok posted
  cases same
  cases r with
  | error reason => exact ⟨reason, posted⟩
  | ok done => exact absurd (sizes.1 rfl) (by decide)

end operations

end State
end PseudoBoolean
