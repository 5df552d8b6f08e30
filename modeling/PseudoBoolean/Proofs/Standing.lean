import PseudoBoolean.Proofs.Failure
import PseudoBoolean.Proofs.Hearing
import PseudoBoolean.Proofs.Quiescence

/-!
What the propagators stand for. As long as a state has not failed, each of its active propagators
has, above the store, the stable points that the blueprint asked for from which it was built. So a
run of a propagator is justified by the constraint as it was given, however the propagator has
changed since.
-/
namespace PseudoBoolean
namespace State

section standing
variable {κ : Type} [PropagatorKinds κ] [Semantics κ] {s t u : State κ} {id : PropagatorId}
  {more : List (Entry κ)}
open Semantics

/-- Whatever was told to them, the propagators are as good as new. -/
structure Standing (s : State κ) : Prop where
  within : ∀ {id b seen made}, .created id b seen made ∈ s.entries → id.index < s.roster.size
  stands : ∀ {id b seen made p}, .created id b seen made ∈ s.entries →
    s.roster.get? id = some p →
      ∀ e, e.Extends s.domains.known → (Semantics.StableAt p e ↔ AsksFor b e)

theorem standing_new (limits : Limits) : (State.new (κ := κ) limits).Standing := by
  constructor <;> simp [State.new, entries]

theorem Standing.of_unbuilt (h : s.Standing) (size : t.roster.size = s.roster.size)
    (above : t.domains.known.Extends s.domains.known)
    (roster : ∀ id p, t.roster.get? id = some p → ∃ q, s.roster.get? id = some q ∧
      ∀ e, e.Extends t.domains.known → (Semantics.StableAt p e ↔ Semantics.StableAt q e))
    (entries : t.entries = s.entries ++ more) (unbuilt : ∀ x ∈ more, x.built? = none) :
    t.Standing := by
  have old := mem_entries_of_unbuilt entries unbuilt
  constructor
  case within => exact fun member => size ▸ h.within ((old rfl).1 member)
  case stands =>
    intro id b seen made p member active e extends_
    obtain ⟨q, before, same⟩ := roster id p active
    rw [same e extends_]
    exact h.stands ((old rfl).1 member) before e (PartialValuation.extends_trans extends_ above)

theorem Standing.of_unwritten (h : s.Standing) (roster : t.roster = s.roster)
    (above : t.domains.known.Extends s.domains.known) (entries : t.entries = s.entries) :
    t.Standing := by
  refine h.of_unbuilt (congrArg Roster.size roster) above ?_
    (entries.trans (List.append_nil _).symm) (by simp)
  exact fun id p active => ⟨p, roster ▸ active, fun _ _ => Iff.rfl⟩

theorem Standing.remark (h : s.Standing) (r : Remark) : (s.remark r).Standing :=
  h.of_unbuilt rfl (PartialValuation.extends_refl _)
    (fun _ _ active => ⟨_, active, fun _ _ => Iff.rfl⟩)
    (entries_remark s r) (by simp [Entry.built?])

theorem Standing.of_retired {q : AnyPropagator κ} (h : s.Standing) (left : s.RunLeft id q u)
    (retired : u.roster.retire id = .ok t.roster) (domains : t.domains = u.domains)
    (entries : t.entries = s.entries ++ more) (unbuilt : ∀ x ∈ more, x.built? = none) :
    t.Standing := by
  have size := (Roster.size_of_retire retired).trans (Roster.size_of_replace left.replaced)
  refine h.of_unbuilt size (domains ▸ left.fixings.extends) ?_ entries unbuilt
  intro j r found
  rw [Roster.get?_of_retire retired, Roster.get?_of_replace left.replaced] at found
  split at found
  · cases found
  · exact ⟨r, found, fun _ _ => Iff.rfl⟩

theorem Standing.newLiteral (h : s.Standing) : s.newLiteral.2.Standing := by
  refine h.of_unwritten rfl ?_ rfl
  exact (Domains.known_grow s.domains).symm ▸ PartialValuation.extends_refl _

variable [Contract κ]

theorem Standing.addPropagator (h : s.Standing) {b : AnyBlueprint κ}
    (added : s.addPropagator b = .ok (id, t)) : t.Standing := by
  obtain ⟨p, registrations, added⟩ := added_addPropagator added
  obtain rfl := added.own
  have mem : ∀ {x}, x ∈ t.entries ↔
      x ∈ s.entries ∨ x = .created s.roster.nextId b s.domains p := by simp [added.entries]
  constructor
  case within =>
    intro id c seen made member
    rw [added.size]
    rcases mem.1 member with old | new
    · exact Nat.lt_succ_of_lt (h.within old)
    · cases new
      exact Nat.lt_succ_self _
  case stands =>
    intro id c seen made q member active
    rw [added.roster, Roster.get?_add] at active
    rw [added.domains]
    rcases mem.1 member with old | new
    · have other : id ≠ s.roster.nextId := by
        rintro rfl
        exact Nat.lt_irrefl _ (h.within old)
      rw [if_neg other] at active
      exact h.stands old active
    · cases new
      rw [if_pos rfl] at active
      cases active
      exact (Contract.created added.created).stable

theorem Standing.deliver {due : Due} {running : Option PropagatorId} {e : Event} {d : DomainId}
    {who : Subscriber} (h : s.Standing) (coherent : s.Coherent due running) (told : due e d who)
    (delivered : s.deliver e d who = .ok t) : t.Standing := by
  rcases deliver_eq delivered with
    ⟨-, rfl⟩ | ⟨p, q, decision, roster, agenda, active, notified, replaced, -, rfl⟩
  · exact h
  have attended := coherent.attended active
  have ⟨value, heard⟩ := coherent.due_true told
  have notified := Contract.notified attended.consistent
    (fun c watched => ((attended.hears watched e d).1 heard) ▸ value) notified
  refine h.of_unbuilt (Roster.size_of_replace replaced) (PartialValuation.extends_refl _) ?_
    (entries_enter _ _) (by simp [Entry.built?])
  intro j r found
  simp only [enter, Roster.get?_of_replace replaced] at found
  split at found
  · next own =>
    cases found
    exact ⟨p, own ▸ active, notified.stable⟩
  · exact ⟨r, found, fun _ _ => Iff.rfl⟩

theorem Standing.runPropagator {running : Option PropagatorId}
    (h : s.Standing) (coherent : s.Coherent nothingDue running)
    (ran : s.runPropagator id = .ok (.ok (), t)) : t.Standing := by
  rcases runPropagator_eq ran with ⟨-, -, rfl⟩ | ⟨p, q, outcome, u, active, done, left, ended⟩
  · exact h
  rcases ended with ⟨i, -, never, -⟩ | ⟨verdict, rfl, -, concluded⟩
  · cases never
  rcases conclude_eq concluded with
    ⟨rfl, rfl⟩ | ⟨-, statistics, gone⟩ | ⟨b, statistics, replacement, v, w, -, gone, built, rfl⟩
  -- a propagator that stays has not changed, and one that takes over is built anew
  · obtain rfl := (Contract.ran (coherent.attended active).consistent done).unchanged rfl
    refine h.of_unbuilt (Roster.size_of_replace left.replaced) left.fixings.extends ?_ left.entries
      (by simp [Entry.built?])
    intro j r found
    exact ⟨r, get?_of_runLeft active left.toRunLeft j ▸ found, fun _ _ => Iff.rfl⟩
  · obtain ⟨roster, subscriptions, retired, -, rfl⟩ := retire_eq gone
    have entries : (State.remark { u with statistics } (.subsumed id)).entries =
        s.entries ++ [.ran id (.ok verdict) q, .remarked (.subsumed id)] := by
      rw [entries_remark]
      change u.entries ++ _ = _
      rw [left.entries, List.append_assoc]
      rfl
    exact h.of_retired left.toRunLeft retired rfl entries (by simp [Entry.built?])
  · obtain ⟨roster, subscriptions, retired, -, rfl⟩ := retire_eq gone
    have rest := h.of_retired (t := { u with statistics, roster, subscriptions }) left.toRunLeft
      retired rfl left.entries (by simp [Entry.built?])
    exact (rest.addPropagator built).remark _

theorem Standing.of_works (h : s.Standing) (works : s.Works t) : t.Standing := by
  induction works with
  | refl => exact h
  | tail _ last ih =>
    cases last with
    | drained _ values =>
      exact ih.of_unwritten rfl (Domains.known_congr values ▸ PartialValuation.extends_refl _) rfl
    | told coherent told delivered => exact ih.deliver coherent told delivered
    | popped _ => exact ih.of_unwritten rfl (PartialValuation.extends_refl _) rfl
    | ran coherent _ ran => exact ih.runPropagator coherent ran

theorem WellFormed.of_change (wf : s.WellFormed) (change : s.Change t) : t.WellFormed := by
  cases change with
  | remarked r => exact (gains_remark s r wf).1
  | fixed fixed => exact fun sound => (wf sound).fix fixed
  | failed i => exact fun sound => by cases sound
  | added added => exact (gains_addPropagator added wf).1
  | propagated done => exact (gains_propagate done wf).1

theorem Standing.of_change (wf : s.WellFormed) (h : s.failure = none → s.Standing)
    (change : s.Change t) (sound : t.failure = none) : t.Standing := by
  cases change with
  | remarked r => exact (h sound).remark r
  | fixed fixed => exact (h sound).of_unwritten rfl (Domains.extends_of_fix fixed) rfl
  | failed i => cases sound
  | added added =>
    obtain ⟨-, -, -, -, -, -, -, failure, -⟩ := addPropagator_cases added
    exact (h (failure ▸ sound)).addPropagator added
  | propagated done =>
    rcases propagate_cases wf done with ⟨rfl, -, works⟩ | ⟨i, -, failed, -⟩
    · refine (h ?_).of_works works
      by_contra failed
      obtain ⟨i, failed⟩ := Option.ne_none_iff_exists'.1 failed
      simp [propagate, failed, pure, Except.pure] at done
    · rw [sound] at failed
      cases failed

theorem Reachable.standing [HoldsStandard κ] (h : s.Reachable) (sound : s.failure = none) :
    s.Standing := by
  refine (h.keeps (P := fun s => s.WellFormed ∧ (s.failure = none → s.Standing)) ?_ ?_ ?_).2 sound
  · exact fun limits => ⟨fun _ => coherent_new limits, fun _ => standing_new limits⟩
  · exact fun kept => ⟨(gains_newLiteral _ kept.1).1, fun sound => (kept.2 sound).newLiteral⟩
  · exact fun kept change => ⟨kept.1.of_change change, Standing.of_change kept.1 kept.2 change⟩

end standing

section running
variable {κ : Type} [PropagatorKinds κ] {s v : State κ} {id : PropagatorId} {p : AnyPropagator κ}

/-- A propagation of `s` has come to the state `v`, in which all events are delivered and the
    propagator `p` has been taken off the agenda to run. -/
inductive AboutToRun (s : State κ) (id : PropagatorId) (p : AnyPropagator κ) : State κ → Prop where
  | intro {u w : State κ} {agenda : Agenda} :
      s.RoundAt u → u.deliverPending = .ok w → w.agenda.pop = .ok (some id, agenda) →
        w.roster.get? id = some p → AboutToRun s id p { w with agenda }

theorem AboutToRun.active (h : s.AboutToRun id p v) : v.roster.get? id = some p := by
  obtain ⟨-, -, -, active⟩ := h
  exact active

theorem AboutToRun.sound (h : s.AboutToRun id p v) : v.failure = none := by
  obtain ⟨round, delivered, -, -⟩ := h
  exact (failure_deliverPending delivered).trans round.sound

theorem AboutToRun.start_sound (h : s.AboutToRun id p v) : s.failure = none := by
  obtain ⟨round, -, -, -⟩ := h
  exact round.start_sound

theorem AboutToRun.quiet (h : s.AboutToRun id p v) : v.domains.pending.events = [] := by
  obtain ⟨-, delivered, -, -⟩ := h
  have quiet := pending_of_deliverPending delivered
  exact quiet

def runsFirst (s : State κ) (id : PropagatorId) (check : State κ → AnyPropagator κ → Bool) : Bool :=
  match s.failure, s.deliverPending with
  | none, .ok w =>
    match w.agenda.pop with
    | .ok (some first, agenda) =>
      decide (first = id) && (w.roster.get? id).any (check { w with agenda })
    | _ => false
  | _, _ => false

theorem aboutToRun_of_runsFirst {check : State κ → AnyPropagator κ → Bool}
    (h : s.runsFirst id check = true) : ∃ v p, s.AboutToRun id p v ∧ check v p = true := by
  unfold runsFirst at h
  split at h
  case h_2 => cases h
  next w sound delivered =>
  split at h
  case h_2 => cases h
  next first agenda popped =>
  obtain ⟨own, checked⟩ := Bool.and_eq_true_iff.1 h
  obtain rfl := of_decide_eq_true own
  obtain ⟨p, active, checked⟩ := (Option.any_eq_true ..).mp checked
  exact ⟨_, p, .intro (.first sound) delivered popped active, checked⟩

theorem Kept.aboutToRun {P : State κ → Prop} (kept : Kept P) (start : P s)
    (h : s.AboutToRun id p v) : P v := by
  obtain ⟨round, delivered, popped, -⟩ := h
  exact kept.popped (kept.delivered (kept.roundAt start round) delivered) popped

variable [Semantics κ] [Contract κ]

theorem RoundAt.works {u : State κ} (wf : s.WellFormed) (h : s.RoundAt u) :
    u.Coherent nothingDue none ∧ s.Works u := by
  induction h with
  | first sound => exact ⟨wf sound, .refl⟩
  | next round delivered popped ran ih =>
    obtain ⟨coherent, -, works⟩ := deliverPending_keeps ih.1 delivered
    have running := coherent.pop popped
    have sound := (failure_deliverPending delivered).trans round.sound
    rcases runPropagator_keeps running sound ran with ⟨-, kept⟩ | ⟨i, never, -⟩
    · have works := (ih.2.trans works).tail (.popped popped)
      exact ⟨kept.coherent, works.tail (.ran running sound ran)⟩
    · cases never

theorem AboutToRun.works (wf : s.WellFormed) (h : s.AboutToRun id p v) :
    v.Coherent nothingDue (some id) ∧ s.Works v := by
  obtain ⟨round, delivered, popped, -⟩ := h
  obtain ⟨coherent, works⟩ := round.works wf
  obtain ⟨coherent, -, more⟩ := deliverPending_keeps coherent delivered
  exact ⟨coherent.pop popped, (works.trans more).tail (.popped popped)⟩

theorem AboutToRun.intact [Progress κ] (intact : s.Intact) (h : s.AboutToRun id p v) :
    v.Intact := by
  obtain ⟨round, delivered, popped, -⟩ := h
  have start : ∀ {u : State κ}, s.RoundAt u → u.Intact := by
    intro u round
    induction round with
    | first => exact intact
    | next _ delivered popped ran ih => exact (potential_of_round ih delivered popped ran).1
  obtain ⟨domains, -, told, -⟩ := told_deliverPending (start round) delivered
  exact told.intact.pop popped

end running
end State
end PseudoBoolean
