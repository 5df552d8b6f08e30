import PseudoBoolean.Proofs.Fates

/-!
Who is left in the end. The names of the propagators that will be left, as a function of the values
to come, are carried along by everything that a search does until the state fails, and are those of
the active propagators at a fixpoint.
-/
namespace PseudoBoolean
namespace Standard
variable {p q r : AnyPropagator Kind} {before after : List (AnyPropagator Kind)}
  {e : PartialValuation}

/-- The names of those that stay at `e`, and then one for each count that takes over. -/
def namesLeft (active : List (AnyPropagator Kind)) (e : PartialValuation) : List String :=
  (active.filter fun p => fate p e = .stays).map AnyPropagator.name ++
    List.replicate (active.countP fun p => fate p e = .replaced) (Kind.atLeast .literals).name

theorem namesLeft_exchanged (name : q.name = p.name) (same : fate q e = fate p e) :
    namesLeft (before ++ q :: after) e = namesLeft (before ++ p :: after) e := by
  unfold namesLeft
  simp only [List.filter_append, List.filter_cons, List.countP_append, List.countP_cons, same]
  split <;> simp [name]

theorem namesLeft_retired (gone : fate p e = .retires) :
    namesLeft (before ++ after) e = namesLeft (before ++ p :: after) e := by
  simp [namesLeft, List.countP_append, gone]

theorem namesLeft_replaced (name : r.name = (Kind.atLeast .literals).name)
    (fates : (fate p e = .replaced ∧ fate r e = .stays) ∨
      (fate p e = .retires ∧ fate r e = .retires)) :
    namesLeft (before ++ after ++ [r]) e = namesLeft (before ++ p :: after) e := by
  rcases fates with ⟨going, staying⟩ | ⟨gone, useless⟩
  · simp [namesLeft, List.countP_append, going, staying, name, ← Nat.add_assoc,
      List.replicate_succ]
  · have last : namesLeft (before ++ after ++ []) e = namesLeft (before ++ after ++ [r]) e :=
      namesLeft_retired useless
    rw [← last, List.append_nil]
    exact namesLeft_retired gone

theorem namesLeft_of_all_stay {active : List (AnyPropagator Kind)}
    (stay : ∀ p ∈ active, fate p e = .stays) :
    namesLeft active e = active.map AnyPropagator.name := by
  have nobody : active.countP (fun p => fate p e = .replaced) = 0 := by
    apply List.countP_eq_zero.2
    intro p member
    simp [stay p member]
  have everybody : (active.filter fun p => fate p e = .stays) = active := by
    apply List.filter_eq_self.2
    intro p member
    simp [stay p member]
  rw [namesLeft, nobody, everybody, List.replicate_zero, List.append_nil]

end Standard

namespace State
open Standard Semantics
variable {s t u : State Kind} {id : PropagatorId} {p q : AnyPropagator Kind} {e : PartialValuation}

def namesAt (s : State Kind) (e : PartialValuation) : List String := namesLeft s.roster.active e

def Admits (s : State Kind) (e : PartialValuation) : Prop :=
  s.failure = none ∧ e.Extends s.domains.known

theorem not_admits_of_failure {i : Inconsistency} (h : s.failure = some i) (e : PartialValuation) :
    ¬ s.Admits e := by
  rintro ⟨sound, -⟩
  rw [h] at sound
  cases sound

theorem Admits.of_grown (h : t.Admits e) (failure : t.failure = s.failure)
    (grown : t.domains.known.Extends s.domains.known) : s.Admits e :=
  ⟨failure ▸ h.1, PartialValuation.extends_trans h.2 grown⟩

def Carries (s t : State Kind) : Prop := ∀ e, t.Admits e → s.Admits e ∧ t.namesAt e = s.namesAt e

theorem carries_refl (s : State Kind) : s.Carries s := fun _ admitted => ⟨admitted, rfl⟩

theorem Carries.trans (h : s.Carries t) (k : t.Carries u) : s.Carries u := by
  intro e admitted
  have ⟨between, names⟩ := k e admitted
  have ⟨before, names'⟩ := h e between
  exact ⟨before, names.trans names'⟩

theorem carries_of_failure {i : Inconsistency} (h : t.failure = some i) : s.Carries t :=
  fun e admitted => absurd admitted (not_admits_of_failure h e)

theorem carries_of_roster (roster : t.roster = s.roster) (failure : t.failure = s.failure)
    (grown : t.domains.known.Extends s.domains.known) : s.Carries t :=
  fun _ admitted => ⟨admitted.of_grown failure grown, by rw [namesAt, namesAt, roster]⟩

theorem carries_of_exchange (active : s.roster.get? id = some p)
    (replaced : s.roster.replace id q = .ok t.roster) (failure : t.failure = s.failure)
    (grown : t.domains.known.Extends s.domains.known)
    (matching : Matches t.domains.known q p) : s.Carries t := by
  obtain ⟨before, after, whole, exchanged, -⟩ := Roster.active_split active
  intro e admitted
  refine ⟨admitted.of_grown failure grown, ?_⟩
  rw [namesAt, namesAt, whole, (exchanged replaced).1]
  exact namesLeft_exchanged matching.name (matching.fate e admitted.2)

theorem carries_of_deliver {due : Due} {running : Option PropagatorId} {event : Event}
    {d : DomainId} {who : Subscriber} (h : s.Coherent due running) (told : due event d who)
    (delivered : s.deliver event d who = .ok t) : s.Carries t := by
  rcases deliver_cases delivered with
    ⟨-, rfl⟩ | ⟨p, q, decision, active, notified, replaced, -, domains, -, failure⟩
  · exact carries_refl t
  have attended := h.attended active
  have ⟨value, heard⟩ := h.due_true told
  have matching := matches_of_notify attended.consistent (fun c watched =>
    ((attended.hears watched event d).1 heard) ▸ value) notified
  apply carries_of_exchange active replaced failure
  · rw [domains]
    exact PartialValuation.extends_refl _
  · rw [domains]
    exact matching

/-- A run leaves the propagator, retires it, or has a count take over, as its fate wants it. -/
theorem carries_of_conclude {verdict : Verdict (AnyBlueprint Kind)} (consistent : Consistent p)
    (active : s.roster.get? id = some p)
    (ran : (p.propagate id).run s.domains = .ok ((q, .ok verdict), u.domains))
    (left : s.RunLeft id q u) (concluded : u.conclude id verdict = .ok t) : s.Carries t := by
  obtain ⟨before, after, whole, exchanged, removed⟩ := Roster.active_split active
  have grown := left.fixings.extends
  cases verdict with
  | atFixpoint =>
    obtain rfl := pure_eq_ok_iff.1 concluded
    have same : q = p := (ran_of_run consistent ran).unchanged rfl
    exact carries_of_exchange active left.replaced left.failure grown
      ⟨congrArg _ same, fun e _ => same ▸ rfl⟩
  | subsumed =>
    obtain ⟨retired, -, domains, -, failure⟩ := retire_cases concluded
    have rest := (removed (Roster.retire_of_replace active left.replaced retired)).1
    have domains : t.domains = u.domains := domains
    intro e admitted
    refine ⟨admitted.of_grown (failure.trans left.failure) (domains ▸ grown), ?_⟩
    rw [namesAt, namesAt, whole, rest]
    exact namesLeft_retired (fate_of_subsumed ran (domains ▸ admitted.2))
  | replaceBy b =>
    obtain ⟨v, gone, concluded⟩ := bind_eq_ok_iff.1 concluded
    obtain ⟨⟨replacement, w⟩, added, concluded⟩ := bind_eq_ok_iff.1 concluded
    obtain ⟨retired, -, domains, -, failure⟩ := retire_cases gone
    have rest := (removed (Roster.retire_of_replace active left.replaced retired)).1
    have domains : v.domains = u.domains := domains
    obtain ⟨-, r, registrations, created, -, roster, unchanged, unfailed, -⟩ :=
      addPropagator_cases added
    rw [domains] at created unchanged
    rw [← pure_eq_ok_iff.1 concluded]
    intro e admitted
    have admitted : w.Admits e := admitted
    have above : e.Extends u.domains.known := unchanged ▸ admitted.2
    refine ⟨?_, ?_⟩
    · exact admitted.of_grown ((unfailed.trans failure).trans left.failure) (unchanged ▸ grown)
    have now : (w.remark (.replaced id replacement)).roster.active = before ++ after ++ [r] := by
      change w.roster.active = _
      rw [roster, Roster.active_add, rest]
    rw [namesAt, namesAt, whole, now]
    obtain ⟨name, fates⟩ := fate_of_replaced ran created above
    exact namesLeft_replaced name fates

theorem carries_of_work (work : s.Work t) : s.Carries t := by
  cases work with
  | drained _ values =>
    intro e admitted
    refine ⟨admitted.of_grown rfl ?_, rfl⟩
    rw [Domains.known_congr values]
    exact PartialValuation.extends_refl _
  | told coherent told delivered => exact carries_of_deliver coherent told delivered
  | popped => exact fun e admitted => ⟨admitted, rfl⟩
  | ran coherent _ ran =>
    rcases runPropagator_cases ran with
      ⟨-, -, rfl⟩ | ⟨p, q, outcome, u, active, attempted, left, stopped | concluded⟩
    · exact carries_refl t
    · obtain ⟨i, -, outcome, -⟩ := stopped
      cases outcome
    · obtain ⟨verdict, rfl, -, concluded⟩ := concluded
      exact carries_of_conclude (coherent.attended active).consistent active attempted left
        concluded

theorem carries_of_works (works : s.Works t) : s.Carries t := by
  induction works with
  | refl => exact carries_refl s
  | tail _ last ih => exact ih.trans (carries_of_work last)

theorem activeNames_of_fixpoint (h : s.AtFixpoint) :
    s.activeNames = s.namesAt s.domains.known := by
  refine (namesLeft_of_all_stay ?_).symm
  intro p member
  obtain ⟨id, active⟩ := Roster.exists_get? member
  obtain ⟨current, settled⟩ := h.settled active
  exact fate_of_settled (h.coherent.attended active).consistent current settled

section moves
variable {op : Operation Kind} {moves : List (Operation Kind)} {a : Answer} {answers : List Answer}

theorem InOrder.of_move (h : s.InOrder) (move : op.IsMove s.domains)
    (applied : op.apply s = .ok (a, t)) : t.InOrder ∧ t.domains.size = s.domains.size := by
  have evolved : s.Evolves t := by
    cases op with
    | assign l v =>
      obtain ⟨r, assigned, -⟩ := Operation.answered_eq_ok applied
      exact evolves_assign assigned
    | propagate =>
      obtain ⟨r, propagated, -⟩ := Operation.answered_eq_ok applied
      exact .single (.propagated propagated)
    | _ => exact move.elim
  obtain ⟨⟨Q, gained⟩, -⟩ := gains_apply applied
  exact ⟨h.of_gains gained evolved, (evolved.intact h.intact).2⟩

theorem carries_of_move (wf : s.WellFormed) (move : op.IsMove s.domains)
    (applied : op.apply s = .ok (a, t)) : s.Carries t := by
  cases op with
  | assign l v =>
    obtain ⟨r, assigned, -⟩ := Operation.answered_eq_ok applied
    rcases assign_cases assigned with
      ⟨i, failure, -, rfl⟩ | ⟨-, fixing, domains, fixed, ⟨-, -, rfl⟩ | ⟨-, -, rfl⟩⟩
    · exact carries_refl t
    · exact carries_of_roster rfl rfl (Domains.extends_of_fix fixed)
    · exact carries_of_failure rfl
  | propagate =>
    obtain ⟨r, propagated, -⟩ := Operation.answered_eq_ok applied
    rcases propagate_cases wf propagated with ⟨-, -, works⟩ | ⟨i, -, failed, -⟩
    · exact carries_of_works works
    · exact carries_of_failure failed
  | _ => exact move.elim

theorem carries_of_run (h : s.InOrder) (each : ∀ op ∈ moves, op.IsMove s.domains)
    (run : s.run moves = .ok (answers, t)) : s.Carries t := by
  induction moves generalizing s answers with
  | nil =>
    obtain ⟨-, rfl⟩ := pure_pair_eq_ok_iff.1 run
    exact carries_refl s
  | cons op rest ih =>
    obtain ⟨⟨a, u⟩, first, run⟩ := bind_eq_ok_iff.1 run
    obtain ⟨⟨others, w⟩, later, run⟩ := bind_eq_ok_iff.1 run
    obtain ⟨-, rfl⟩ := pure_pair_eq_ok_iff.1 run
    have move := each op List.mem_cons_self
    obtain ⟨inOrder, size⟩ := h.of_move move first
    refine (carries_of_move h.wellFormed move first).trans (ih inOrder (fun op member => ?_) later)
    exact Operation.IsMove.of_size size (each op (List.mem_cons_of_mem _ member))

/-- Which propagators a successful propagation leaves is told by the values that it leaves. -/
theorem activeNames_of_run (h : s.InOrder) (each : ∀ op ∈ moves, op.IsMove s.domains)
    (run : s.run moves = .ok (answers, t)) (wf : t.WellFormed)
    (propagated : t.propagate = .ok (.ok (), u)) :
    s.Admits u.domains.known ∧ u.activeNames = s.namesAt u.domains.known := by
  rcases propagate_cases wf propagated with ⟨-, fixpoint, works⟩ | ⟨i, outcome, -⟩
  · have carried := (carries_of_run h each run).trans (carries_of_works works)
    rw [activeNames_of_fixpoint fixpoint]
    exact carried _ ⟨fixpoint.sound, PartialValuation.extends_refl _⟩
  · cases outcome

end moves

end State
end PseudoBoolean
