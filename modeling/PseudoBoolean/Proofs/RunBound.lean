import PseudoBoolean.Proofs.Quiescence
import PseudoBoolean.Proofs.Rounds

/-!
How often propagators run in a propagation. A run takes somebody off the agenda, and somebody comes
onto it only by an answer to a notice or by taking over from a propagator that was replaced; so the
runs are paid for by those who waited at the start, the notices and the replacements.
-/
namespace PseudoBoolean

namespace Entry
variable {κ : Type} [PropagatorKinds κ]

def isRun : Entry κ → Bool
  | ran _ _ _ => true
  | _ => false

def isNotice (x : Entry κ) : Bool := x.notice?.isSome

def isReplacement : Entry κ → Bool
  | remarked (.replaced _ _) => true
  | _ => false

theorem not_run_of_notice {x : Entry κ} (h : x.isNotice = true) :
    x.isRun = false ∧ x.isReplacement = false := by
  cases x with
  | notified => exact ⟨rfl, rfl⟩
  | created | ran | remarked => cases h

end Entry

namespace State
section balance
variable {κ : Type} [PropagatorKinds κ] {s t u v w : State κ} {id : PropagatorId}
  {work more : List (Entry κ)}

/-- What was written from one state to another, and that it pays for the runs and the replacements
    in it. -/
structure Balanced (s : State κ) (work : List (Entry κ)) (t : State κ) : Prop where
  entries : t.entries = s.entries ++ work
  runs : work.countP Entry.isRun + t.agenda.numQueued ≤
    s.agenda.numQueued + work.countP Entry.isNotice + work.countP Entry.isReplacement
  replacements : work.countP Entry.isReplacement + t.replacementsLeft ≤ s.replacementsLeft

theorem balanced_refl (s : State κ) : s.Balanced [] s := by
  constructor <;> simp

theorem Balanced.trans (h : s.Balanced work t) (k : t.Balanced more u) :
    s.Balanced (work ++ more) u := by
  constructor
  · rw [k.entries, h.entries, List.append_assoc]
  · have first := h.runs
    have second := k.runs
    simp only [List.countP_append]
    omega
  · have first := h.replacements
    have second := k.replacements
    simp only [List.countP_append]
    omega

section pieces
variable [Semantics κ] {agenda : Agenda} {r : Except Inconsistency Unit}

theorem balanced_deliverPending [Contract κ] [Progress κ] (h : s.Intact)
    (delivered : s.deliverPending = .ok t) :
    ∃ work, s.Balanced work t := by
  obtain ⟨domains, written, drained, told, noticed⟩ := delivered_deliverPending delivered
  obtain ⟨_, again, intact, -⟩ := told_deliverPending h delivered
  cases drained.symm.trans again
  have notices : ∀ x ∈ written, x.isNotice = true := isSome_of_map noticed
  have none_ : written.countP Entry.isReplacement = 0 :=
    List.countP_eq_zero.2 fun x member => by simp [Entry.not_run_of_notice (notices x member)]
  have unrun : written.countP Entry.isRun = 0 :=
    List.countP_eq_zero.2 fun x member => by simp [Entry.not_run_of_notice (notices x member)]
  have all : written.countP Entry.isNotice = written.length := List.countP_eq_length.2 notices
  refine ⟨written, told.entries, ?_, ?_⟩
  · rw [none_, unrun, all]
    have queued : t.agenda.numQueued ≤ s.agenda.numQueued + written.length := told.numQueued
    omega
  · rw [none_, intact.replacementsLeft]
    exact Nat.le_of_eq (Nat.zero_add _)

omit [Semantics κ] in
theorem balanced_conclude {q : AnyPropagator κ} {verdict : Verdict (AnyBlueprint κ)}
    (active : s.roster.get? id = some q)
    (builds : ∀ b, verdict = .replaceBy b →
      Buildable b s.domains fun r => r.replacementsLeft < q.replacementsLeft)
    (concluded : s.conclude id verdict = .ok t) : ∃ work, s.Balanced work t := by
  rcases conclude_eq concluded with
    ⟨-, rfl⟩ | ⟨-, statistics, gone⟩ | ⟨b, statistics, replacement, u, v, rfl, gone, added, rfl⟩
  · exact ⟨[], balanced_refl t⟩
  · have fewer : t.replacementsLeft + q.replacementsLeft = s.replacementsLeft :=
      replacementsLeft_of_retire (s := State.remark { s with statistics } (.subsumed id))
        active gone
    obtain ⟨roster, subscriptions, -, -, same⟩ := retire_eq gone
    refine ⟨[.remarked (.subsumed id)], ?_, ?_, ?_⟩
    · rw [same]
      exact entries_remark _ _
    · rw [same]
      exact Nat.le_of_eq (Nat.zero_add _)
    · change 0 + t.replacementsLeft ≤ s.replacementsLeft
      omega
  · have fewer : u.replacementsLeft + q.replacementsLeft = s.replacementsLeft :=
      replacementsLeft_of_retire (s := { s with statistics }) active gone
    obtain ⟨p, registrations, created, -, -, more⟩ := replacementsLeft_of_add added
    obtain ⟨p', registrations', added⟩ := added_addPropagator added
    obtain ⟨roster, kept, -, -, rfl⟩ := retire_eq gone
    cases added.created.symm.trans created
    obtain ⟨p', registrations', built, less, -⟩ := builds b rfl
    cases built.symm.trans created
    refine ⟨[.created replacement b s.domains p, .remarked (.replaced id replacement)], ?_, ?_, ?_⟩
    · rw [entries_remark, added.entries, List.append_assoc]
      rfl
    · have longer : v.agenda.numQueued ≤ s.agenda.numQueued + 1 := by
        rcases added.queued with ⟨-, same⟩ | ⟨-, enqueued⟩
        · rw [same]
          exact Nat.le_succ _
        · have counted := Agenda.numQueued_of_enqueue enqueued
          dsimp only at counted
          split at counted <;> omega
      change 0 + v.agenda.numQueued ≤ s.agenda.numQueued + 0 + 1
      omega
    · change 1 + v.replacementsLeft ≤ s.replacementsLeft
      omega

/-- A round takes one off the agenda, and that one runs. -/
theorem balanced_runPropagator [Contract κ] [Progress κ] (h : s.Intact)
    (popped : s.agenda.pop = .ok (some id, agenda))
    (ran : ({ s with agenda } : State κ).runPropagator id = .ok (r, t)) :
    ∃ work, s.Balanced work t := by
  have fewer := (h.agenda.pop popped).2
  rcases runPropagator_eq ran with
    ⟨-, -, rfl⟩ | ⟨p, q, outcome, u, active, attempted, left, concluded⟩
  · refine ⟨[], by simp [entries], ?_, ?_⟩
    · simp only [List.countP_nil]
      omega
    · exact Nat.le_of_eq (Nat.zero_add _)
  obtain ⟨q', outcome', domains, again, follows, builds⟩ :=
    Progress.ran id h.domains (h.grounded active)
  cases attempted.symm.trans again
  have same : u.replacementsLeft = s.replacementsLeft :=
    replacementsLeft_of_replace (s := { s with agenda }) active left.replaced
      follows.replacementsLeft
  have first : s.Balanced [.ran id outcome q] u := by
    refine ⟨left.entries, ?_, ?_⟩
    · have queued : u.agenda.numQueued = agenda.numQueued := congrArg Agenda.numQueued left.agenda
      change 1 + u.agenda.numQueued ≤ s.agenda.numQueued + 0 + 0
      omega
    · rw [same]
      exact Nat.le_of_eq (Nat.zero_add _)
  rcases concluded with ⟨i, rfl, rfl, rfl⟩ | ⟨verdict, rfl, rfl, concluded⟩
  · exact ⟨_, first⟩
  · have now : u.roster.get? id = some q := by
      rw [Roster.get?_of_replace left.replaced, if_pos rfl]
    obtain ⟨work, rest⟩ := balanced_conclude now (by
      intro b asked
      rw [follows.replacementsLeft]
      exact builds b (congrArg Except.ok asked)) concluded
    exact ⟨_, first.trans rest⟩

theorem balanced_roundAt [Contract κ] [Progress κ] (h : s.Intact) (round : s.RoundAt u) :
    u.Intact ∧ ∃ work, s.Balanced work u := by
  induction round with
  | first => exact ⟨h, [], balanced_refl s⟩
  | @next u v w id agenda _ delivered popped ran ih =>
    obtain ⟨intact, work, before⟩ := ih
    obtain ⟨told, notices⟩ := balanced_deliverPending intact delivered
    obtain ⟨_, -, settled, -⟩ := told_deliverPending intact delivered
    obtain ⟨ran_, run⟩ := balanced_runPropagator settled.intact popped ran
    exact ⟨(potential_of_round intact delivered popped ran).1, _,
      (before.trans notices).trans run⟩

theorem balanced_of_propagate [Contract κ] [Progress κ] (h : s.Intact)
    (propagated : s.propagate = .ok (r, t)) : ∃ work, s.Balanced work t := by
  rcases last_round_of_propagate propagated with
    ⟨-, -, -, rfl⟩ | ⟨u, v, first, agenda, round, delivered, popped, last⟩
  · exact ⟨[], balanced_refl t⟩
  obtain ⟨intact, work, before⟩ := balanced_roundAt h round
  obtain ⟨told, notices⟩ := balanced_deliverPending intact delivered
  obtain ⟨_, -, settled, -⟩ := told_deliverPending intact delivered
  rcases last with ⟨rfl, -, rfl⟩ | ⟨id, w, i, rfl, ran, -, rfl⟩
  · rw [Agenda.eq_of_pop_none popped]
    exact ⟨_, before.trans notices⟩
  · obtain ⟨ran_, run⟩ := balanced_runPropagator settled.intact popped ran
    -- nobody waits in a failed state
    have cleared := (before.trans notices).trans run
    refine ⟨_, cleared.entries, ?_, cleared.replacements⟩
    exact Nat.le_trans (Nat.add_le_add_left (Nat.zero_le _) _) cleared.runs

end pieces

theorem fixpointWithin_mono {result : Except Inconsistency Unit × State κ} {rounds enough : Nat}
    (h : fixpointWithin rounds s = .ok result) (bound : rounds ≤ enough) :
    fixpointWithin enough s = .ok result := by
  induction rounds generalizing s enough with
  | zero => cases h
  | succ rounds ih =>
    obtain ⟨enough, rfl⟩ : ∃ n, enough = n + 1 := ⟨enough - 1, by omega⟩
    obtain ⟨u, delivered, h⟩ := bind_eq_ok_iff.1 h
    obtain ⟨⟨first, agenda⟩, popped, h⟩ := bind_eq_ok_iff.1 h
    refine bind_eq_ok_iff.2 ⟨u, delivered, bind_eq_ok_iff.2 ⟨(first, agenda), popped, ?_⟩⟩
    cases first with
    | none => exact h
    | some id =>
      obtain ⟨⟨outcome, w⟩, ran, h⟩ := bind_eq_ok_iff.1 h
      refine bind_eq_ok_iff.2 ⟨(outcome, w), ran, ?_⟩
      cases outcome with
      | error i => exact h
      | ok done => exact ih h (by omega)

end balance

section standard
open Standard

def isImplied (p : AnyPropagator Kind) : Bool :=
  match p.1 with
  | .impliedAtLeast _ => true
  | .atLeast _ | .weightedSum _ => false

theorem replacementsLeft_eq_countP (s : State Kind) :
    s.replacementsLeft = s.roster.active.countP isImplied := by
  rw [replacementsLeft_eq_sum]
  induction s.roster.active with
  | nil => rfl
  | cons p rest ih =>
    obtain ⟨kind, p⟩ := p
    rw [List.map_cons, List.sum_cons, List.countP_cons, ih, Nat.add_comm]
    cases kind <;> rfl

/-- Propagation comes to an answer, the same under every bound on the rounds that is high enough.
    The runs in it are no more than those who waited, the notices and the replacements together, and
    the replacements no more than the implied counts that were active. -/
theorem runs_le_of_propagate {s : State Kind} (reachable : s.Reachable) :
    ∃ r t work, s.propagate = .ok (r, t) ∧
      (s.failure = none → ∀ rounds, s.maxRounds ≤ rounds →
        fixpointWithin rounds s = .ok (r, t)) ∧
      t.entries = s.entries ++ work ∧
      work.countP Entry.isRun ≤ s.agenda.waiting.length + work.countP Entry.isNotice +
        work.countP Entry.isReplacement ∧
      work.countP Entry.isReplacement ≤ s.roster.active.countP isImplied := by
  have intact := reachable.intact
  obtain ⟨⟨r, t⟩, propagated⟩ := returns_propagate intact
  obtain ⟨work, balanced⟩ := balanced_of_propagate intact propagated
  refine ⟨r, t, work, propagated, ?_, balanced.entries, ?_, ?_⟩
  · intro sound rounds enough
    rw [propagate, sound] at propagated
    exact fixpointWithin_mono propagated enough
  · have runs := balanced.runs
    rw [← intact.agenda.numQueued]
    omega
  · have replacements := balanced.replacements
    rw [← replacementsLeft_eq_countP]
    omega

/-- Two wait, and one of them is replaced. -/
theorem runs_le_of_propagate_two :
    let ops : List (Operation Kind) := [.newLiteral, .newLiteral, .newLiteral,
      .addPropagator ⟨.impliedAtLeast .literals, ImpliedAtLeast.Blueprint.mk (.positive ⟨0⟩)
        [.positive ⟨1⟩, (Literal.positive ⟨2⟩).complement] 1⟩,
      .addPropagator ⟨.weightedSum .domains, WeightedSum.Blueprint.mk [2, -1] [⟨1⟩, ⟨2⟩]
        .notEqual 1 none⟩,
      .assign (.positive ⟨0⟩) true]
    ∃ s r t work, (State.new .standard).Accepts ops s ∧ s.agenda.waiting.length = 2 ∧
      s.propagate = .ok (r, t) ∧ t.entries = s.entries ++ work ∧
      work.countP Entry.isRun ≤ 2 + work.countP Entry.isNotice +
        work.countP Entry.isReplacement ∧
      work.countP Entry.isReplacement ≤ 1 := by
  intro ops
  obtain ⟨s, run, checked⟩ := accepts_of_reaches (State.new .standard) ops
    (fun s => decide (s.agenda.waiting.length = 2 ∧ s.roster.active.countP isImplied = 1))
    (by decide +kernel)
  obtain ⟨two, one⟩ := of_decide_eq_true checked
  have ⟨_, ran, _⟩ := run
  have reachable : s.Reachable := ⟨.standard, leadsTo_of_run ran⟩
  obtain ⟨r, t, work, propagated, -, entries, runs, replacements⟩ :=
    runs_le_of_propagate reachable
  exact ⟨s, r, t, work, run, two, propagated, entries, two ▸ runs, one ▸ replacements⟩

end standard

end State
end PseudoBoolean
