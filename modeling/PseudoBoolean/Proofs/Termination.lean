import PseudoBoolean.Proofs.Progress

/-!
Propagation ends. Between two turns, which a fixed domain or a replacement begins, no propagator
runs twice; so the turns that are left, each of the length of a lap, and those who are queued are
a bound on the rounds. Every round lowers it, and `maxRounds` is above it from the start.
-/
namespace PseudoBoolean
namespace State
variable {κ : Type} [PropagatorKinds κ] [Semantics κ] [Contract κ]
variable {s t u : State κ} {id : PropagatorId} {p q : AnyPropagator κ}
open Semantics

/-- The turns that may still begin. Events that are pending will begin one. -/
def turnsLeft (s : State κ) : Nat :=
  s.domains.numOpen + s.replacementsLeft + if s.domains.pending.events = [] then 0 else 1

/-- More than the rounds of one turn, also after replacements. -/
def lap (s : State κ) : Nat := s.roster.size + s.replacementsLeft + 1

def potential (s : State κ) : Nat := s.turnsLeft * s.lap + s.agenda.numQueued

omit [Contract κ] in
theorem Intact.numQueued_lt_lap (h : s.Intact) : s.agenda.numQueued < s.lap := by
  have bound := h.agenda.numQueued_le
  unfold lap
  omega

omit [Contract κ] in
theorem potential_lt_maxRounds (h : s.Intact) : s.potential < s.maxRounds := by
  have turns : s.turnsLeft + 1 ≤ s.domains.size + s.replacementsLeft + 2 := by
    have open_ : s.domains.numOpen ≤ s.domains.size := List.countP_le_length
    unfold turnsLeft
    split <;> omega
  have queued := h.numQueued_lt_lap
  calc s.potential ≤ (s.turnsLeft + 1) * s.lap := by
        rw [potential, Nat.succ_mul]
        omega
    _ ≤ (s.domains.size + s.replacementsLeft + 2) * s.lap := Nat.mul_le_mul_right _ turns
    _ < s.maxRounds := Nat.lt_succ_self _

omit [Contract κ] in
/-- A turn is over, or somebody was taken off the agenda. -/
theorem potential_lt (intact : t.Intact) (lap : t.lap ≤ s.lap)
    (less : t.turnsLeft < s.turnsLeft ∨
      t.turnsLeft ≤ s.turnsLeft ∧ t.agenda.numQueued < s.agenda.numQueued) :
    t.potential < s.potential := by
  have queued := intact.numQueued_lt_lap
  unfold potential
  rcases less with ended | ⟨turns, fewer⟩
  · have turn : (t.turnsLeft + 1) * t.lap ≤ s.turnsLeft * s.lap := Nat.mul_le_mul ended lap
    rw [Nat.succ_mul] at turn
    omega
  · have turn : t.turnsLeft * t.lap ≤ s.turnsLeft * s.lap := Nat.mul_le_mul turns lap
    omega

structure Spent (s t : State κ) : Prop where
  intact : t.Intact
  fixings : s.domains.LeadsTo t.domains
  lap : t.lap ≤ s.lap
  replaced : t.replacementsLeft < s.replacementsLeft ∨
    t.replacementsLeft ≤ s.replacementsLeft ∧ t.agenda = s.agenda

section run
variable {b : AnyBlueprint κ} {r : Except Inconsistency Unit}

omit [Semantics κ] [Contract κ] in
theorem replacementsLeft_of_retire (active : s.roster.get? id = some p)
    (retired : s.retire id = .ok t) :
    t.replacementsLeft + p.replacementsLeft = s.replacementsLeft := by
  obtain ⟨before, after, whole, -, removed⟩ := Roster.active_split active
  rw [replacementsLeft_eq_sum, replacementsLeft_eq_sum, whole, (removed (retire_cases retired).1).1]
  simp only [List.map_append, List.map_cons, List.sum_append, List.sum_cons]
  omega

omit [Semantics κ] [Contract κ] in
theorem replacementsLeft_of_add (added : s.addPropagator b = .ok (id, t)) :
    ∃ p registrations, b.create s.domains = .ok (p, registrations) ∧ t.roster = s.roster.add p ∧
      t.domains = s.domains ∧ t.replacementsLeft = s.replacementsLeft + p.replacementsLeft := by
  obtain ⟨-, p, registrations, created, -, roster, domains, -⟩ := addPropagator_cases added
  refine ⟨p, registrations, created, roster, domains, ?_⟩
  rw [replacementsLeft_eq_sum, replacementsLeft_eq_sum, roster, Roster.active_add]
  simp only [List.map_append, List.map_cons, List.map_nil, List.sum_append, List.sum_cons,
    List.sum_nil, Nat.add_zero]

theorem spent_conclude (h : u.Intact) (active : u.roster.get? id = some q)
    {verdict : Verdict (AnyBlueprint κ)}
    (builds : ∀ b, verdict = .replaceBy b →
      Buildable b u.domains fun r => r.replacementsLeft < q.replacementsLeft)
    (concluded : u.conclude id verdict = .ok t) : u.Spent t := by
  cases verdict with
  | atFixpoint =>
    obtain rfl := pure_eq_ok_iff.1 concluded
    exact ⟨h, .refl _, Nat.le_refl _, Or.inr ⟨Nat.le_refl _, rfl⟩⟩
  | subsumed =>
    have counted : (State.remark { u with statistics := { u.statistics with
      subsumptions := u.statistics.subsumptions + 1 } } (.subsumed id)).Intact :=
      h.of_same rfl rfl rfl rfl
    have fewer : t.replacementsLeft + q.replacementsLeft = u.replacementsLeft :=
      replacementsLeft_of_retire (s := State.remark { u with statistics := { u.statistics with
        subsumptions := u.statistics.subsumptions + 1 } } (.subsumed id)) active concluded
    obtain ⟨retired, -, domains, agenda, -⟩ := retire_cases concluded
    have size : t.roster.size = u.roster.size := Roster.size_of_retire retired
    have same : t.domains = u.domains := domains
    refine ⟨counted.retire concluded, same ▸ .refl _, ?_, Or.inr ⟨by omega, agenda⟩⟩
    rw [lap, lap, size]
    omega
  | replaceBy b =>
    obtain ⟨v, gone, concluded⟩ := bind_eq_ok_iff.1 concluded
    obtain ⟨⟨replacement, w⟩, added, concluded⟩ := bind_eq_ok_iff.1 concluded
    obtain rfl := pure_eq_ok_iff.1 concluded
    have counted : ({ u with statistics := { u.statistics with
      replacements := u.statistics.replacements + 1 } } : State κ).Intact :=
      h.of_same rfl rfl rfl rfl
    have fewer : v.replacementsLeft + q.replacementsLeft = u.replacementsLeft :=
      replacementsLeft_of_retire (s := { u with statistics := { u.statistics with
        replacements := u.statistics.replacements + 1 } }) active gone
    obtain ⟨retired, -, domains, -⟩ := retire_cases gone
    have size : v.roster.size = u.roster.size := Roster.size_of_retire retired
    have same : v.domains = u.domains := domains
    obtain ⟨p, registrations, created, roster, unmoved, more⟩ := replacementsLeft_of_add added
    have grown : w.roster.size = v.roster.size + 1 := by
      rw [show w.roster = v.roster.add p from roster]
      exact Table.size_push _ _
    obtain ⟨p', registrations', again, less, -⟩ := builds b rfl
    rw [same, again] at created
    cases created
    have total : w.replacementsLeft < u.replacementsLeft := by omega
    have intact := (counted.retire gone).addPropagator added
    refine ⟨intact.of_same rfl rfl rfl rfl, ?_, ?_, Or.inl total⟩
    · change u.domains.LeadsTo w.domains
      rw [unmoved, same]
      exact .refl _
    · change w.roster.size + w.replacementsLeft + 1 ≤ u.lap
      rw [grown, size, lap]
      omega

theorem spent_runPropagator [Progress κ] (h : s.Intact) (ran : s.runPropagator id = .ok (r, t)) :
    s.Spent t := by
  rcases runPropagator_cases ran with
    ⟨-, -, rfl⟩ | ⟨p, q, outcome, u, active, attempted, left, concluded⟩
  · exact ⟨h, .refl _, Nat.le_refl _, Or.inr ⟨Nat.le_refl _, rfl⟩⟩
  obtain ⟨q', outcome', domains, again, follows, builds⟩ :=
    Progress.ran id h.domains (h.grounded active)
  rw [attempted] at again
  cases again
  have intact : u.Intact := h.of_follows active follows left.fixings left.subscriptions
    left.replaced (left.agenda ▸ h.agenda)
  have replacements : u.replacementsLeft = s.replacementsLeft :=
    replacementsLeft_of_replace active left.replaced follows.replacementsLeft
  have size : u.roster.size = s.roster.size := Roster.size_of_replace left.replaced
  have same : u.lap = s.lap := by rw [lap, lap, size, replacements]
  rcases concluded with ⟨i, rfl, rfl, rfl⟩ | ⟨verdict, rfl, rfl, concluded⟩
  · exact ⟨intact, left.fixings, Nat.le_of_eq same,
      Or.inr ⟨Nat.le_of_eq replacements, left.agenda⟩⟩
  · have now : u.roster.get? id = some q := by
      rw [Roster.get?_of_replace left.replaced, if_pos rfl]
    have spent : u.Spent t := by
      apply spent_conclude intact now _ concluded
      intro b asked
      rw [follows.replacementsLeft]
      exact builds b (congrArg Except.ok asked)
    have replaced := spent.replaced
    rw [replacements, left.agenda] at replaced
    exact ⟨spent.intact, left.fixings.trans spent.fixings, same ▸ spent.lap, replaced⟩

end run

section round
variable {agenda : Agenda} {r : Except Inconsistency Unit}

omit [Semantics κ] [Contract κ] in
theorem turnsLeft_le_of_leadsTo (fixings : u.domains.LeadsTo t.domains)
    (quiet : u.domains.pending.events = []) :
    t.turnsLeft ≤ u.domains.numOpen + t.replacementsLeft := by
  unfold turnsLeft
  -- fixing a domain uses up the turn that its event begins
  rcases fixings.eq_or_fewer with same | ⟨fewer, -⟩
  · rw [same, if_pos quiet]
    omega
  · split <;> omega

/-- Every round lowers the potential. -/
theorem potential_of_round [Progress κ] (h : s.Intact) (delivered : s.deliverPending = .ok u)
    (popped : u.agenda.pop = .ok (some id, agenda))
    (ran : ({ u with agenda } : State κ).runPropagator id = .ok (r, t)) :
    t.Intact ∧ t.domains.size = s.domains.size ∧ t.potential < s.potential := by
  obtain ⟨domains, drained, told, undisturbed⟩ := told_deliverPending h delivered
  obtain ⟨-, values, quiet, -⟩ := Domains.frame_of_drain drained
  have domains_eq : u.domains = domains := told.domains
  have replacements : u.replacementsLeft = s.replacementsLeft := told.replacementsLeft
  have lap_eq : u.lap = s.lap := by rw [lap, lap, told.size, replacements]
  have open_eq : u.domains.numOpen = s.domains.numOpen := by
    rw [domains_eq, Domains.numOpen, values, Domains.numOpen]
  have fewer : agenda.numQueued < u.agenda.numQueued :=
    (numQueued_of_pop told.intact.agenda popped).2.resolve_left (Option.some_ne_none id)
  have spent := spent_runPropagator (told.intact.pop popped) ran
  have turns : t.turnsLeft ≤ s.domains.numOpen + t.replacementsLeft := by
    rw [← open_eq]
    exact turnsLeft_le_of_leadsTo spent.fixings (domains_eq ▸ quiet)
  have replaced : t.replacementsLeft < s.replacementsLeft ∨
      t.replacementsLeft ≤ s.replacementsLeft ∧ t.agenda = agenda := replacements ▸ spent.replaced
  refine ⟨spent.intact, ?_, potential_lt spent.intact (lap_eq ▸ spent.lap) ?_⟩
  · rw [spent.fixings.size]
    change u.domains.size = _
    rw [domains_eq, Domains.size, values, Domains.size]
  unfold turnsLeft at turns ⊢
  by_cases pending : s.domains.pending.events = []
  · rw [undisturbed pending] at fewer
    rw [if_pos pending]
    rcases replaced with less | ⟨bound, same⟩
    · exact Or.inl (by omega)
    · refine Or.inr ⟨by omega, ?_⟩
      rw [same]
      exact fewer
  · rw [if_neg pending]
    exact Or.inl (by omega)

theorem returns_fixpointWithin [Progress κ] {rounds : Nat} (h : s.Intact)
    (enough : s.potential < rounds) : Returns (fixpointWithin rounds s) := by
  induction rounds generalizing s with
  | zero => exact absurd enough (Nat.not_lt_zero _)
  | succ rounds ih =>
    apply (returns_deliverPending h).bind
    intro u delivered
    obtain ⟨domains, -, told, -⟩ := told_deliverPending h delivered
    apply (Agenda.returns_pop told.intact.agenda).bind
    intro ⟨first, agenda⟩ popped
    cases first with
    | none => exact returns_pure _
    | some id =>
      apply (returns_runPropagator (told.intact.pop popped) id).bind
      intro ⟨outcome, w⟩ ran
      cases outcome with
      | error i => exact returns_pure _
      | ok done =>
        obtain ⟨intact, -, lower⟩ := potential_of_round h delivered popped ran
        exact ih intact (by omega)

theorem intact_of_fixpointWithin [Progress κ] {rounds : Nat} (h : s.Intact)
    (run : fixpointWithin rounds s = .ok (r, t)) :
    t.Intact ∧ t.domains.size = s.domains.size := by
  induction rounds generalizing s with
  | zero => cases run
  | succ rounds ih =>
    obtain ⟨u, delivered, run⟩ := bind_eq_ok_iff.1 run
    obtain ⟨⟨first, agenda⟩, popped, run⟩ := bind_eq_ok_iff.1 run
    cases first with
    | none =>
      obtain ⟨-, rfl⟩ := pure_pair_eq_ok_iff.1 run
      obtain ⟨domains, drained, told, -⟩ := told_deliverPending h delivered
      refine ⟨told.intact.pop popped, ?_⟩
      rw [told.domains, Domains.size, (Domains.frame_of_drain drained).2.1, Domains.size]
    | some id =>
      obtain ⟨⟨outcome, w⟩, ran, run⟩ := bind_eq_ok_iff.1 run
      obtain ⟨intact, size, -⟩ := potential_of_round h delivered popped ran
      cases outcome with
      | ok done =>
        obtain ⟨intactEnd, sizeEnd⟩ := ih intact run
        exact ⟨intactEnd, sizeEnd.trans size⟩
      | error i =>
        obtain ⟨-, rfl⟩ := pure_pair_eq_ok_iff.1 run
        exact ⟨(intact.fail i).of_same rfl rfl rfl rfl, size⟩

theorem returns_propagate [Progress κ] (h : s.Intact) : Returns s.propagate := by
  unfold propagate
  cases s.failure with
  | some i => exact returns_pure _
  | none => exact returns_fixpointWithin h (potential_lt_maxRounds h)

theorem intact_of_propagate [Progress κ] (h : s.Intact) (propagated : s.propagate = .ok (r, t)) :
    t.Intact ∧ t.domains.size = s.domains.size := by
  unfold propagate at propagated
  cases failure : s.failure with
  | some i =>
    rw [failure] at propagated
    obtain ⟨-, rfl⟩ := pure_pair_eq_ok_iff.1 propagated
    exact ⟨h, rfl⟩
  | none =>
    rw [failure] at propagated
    exact intact_of_fixpointWithin h propagated

end round

end State
end PseudoBoolean
