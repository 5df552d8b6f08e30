import PseudoBoolean.State.Fixpoint

/-!
What each piece of the engine's work does to a state, with what it writes into the journal. The
theory of the engine reads every step off these descriptions.
-/
namespace PseudoBoolean
namespace State
variable {κ : Type} [PropagatorKinds κ] {s t u : State κ} {id : PropagatorId}

def entries (s : State κ) : List (Entry κ) := s.journal.toList

@[simp] theorem entries_enter (s : State κ) (x : Entry κ) :
    (s.enter x).entries = s.entries ++ [x] := Array.toList_push

@[simp] theorem entries_remark (s : State κ) (r : Remark) :
    (s.remark r).entries = s.entries ++ [.remarked r] := entries_enter s _

def isActive (s : State κ) (id : PropagatorId) : Bool := (s.roster.get? id).isSome

theorem isActive_of_get? {p : AnyPropagator κ} (h : s.roster.get? id = some p) :
    s.isActive id = true := by
  rw [isActive, h]
  rfl

theorem isActive_eq_false_iff : s.isActive id = false ↔ s.roster.get? id = none := by
  simp [isActive]

/-- The propagator `p` is built for `b`, registered and added, and waits if the state is sound. -/
structure Added (s : State κ) (b : AnyBlueprint κ) (id : PropagatorId) (p : AnyPropagator κ)
    (registrations : List Registration) (t : State κ) : Prop where
  own : id = s.roster.nextId
  created : b.create s.domains = .ok (p, registrations)
  registered : registrations.foldlM (Subscriptions.register · id) s.subscriptions =
    .ok t.subscriptions
  queued : s.isFailed = true ∧ t.agenda = s.agenda ∨
    s.isFailed = false ∧ s.agenda.enqueue id p.priority = .ok t.agenda
  domains : t.domains = s.domains
  limits : t.limits = s.limits
  failure : t.failure = s.failure
  statistics : t.statistics = s.statistics
  roster : t.roster = s.roster.add p
  entries : t.entries = s.entries ++ [.created id b s.domains p]

theorem added_addPropagator {b : AnyBlueprint κ} (h : s.addPropagator b = .ok (id, t)) :
    ∃ p registrations, s.Added b id p registrations t := by
  obtain ⟨⟨p, registrations⟩, created, h⟩ := bind_eq_ok_iff.1 h
  obtain ⟨subscriptions, registered, h⟩ := bind_eq_ok_iff.1 h
  dsimp only at h
  by_cases failed : s.isFailed = true
  · rw [if_pos failed] at h
    obtain ⟨rfl, rfl⟩ := pure_pair_eq_ok_iff.1 h
    exact ⟨p, registrations, rfl, created, registered, .inl ⟨failed, rfl⟩, rfl, rfl, rfl, rfl, rfl,
      entries_enter _ _⟩
  · rw [if_neg failed] at h
    obtain ⟨agenda, enqueued, h⟩ := bind_eq_ok_iff.1 h
    obtain ⟨rfl, rfl⟩ := pure_pair_eq_ok_iff.1 h
    exact ⟨p, registrations, rfl, created, registered, .inr ⟨Bool.eq_false_iff.2 failed, enqueued⟩,
      rfl, rfl, rfl, rfl, rfl, entries_enter _ _⟩

section added
variable {b : AnyBlueprint κ} {p : AnyPropagator κ} {registrations : List Registration}

theorem Added.size (added : s.Added b id p registrations t) :
    t.roster.size = s.roster.size + 1 := by
  rw [added.roster]
  exact Table.size_push _ _

theorem Added.isActive_eq (added : s.Added b id p registrations t) (j : PropagatorId) :
    t.isActive j = (decide (j = id) || s.isActive j) := by
  simp only [isActive, added.roster, Roster.get?_add, ← added.own]
  by_cases new : j = id <;> simp [new]

end added

theorem deliver_eq {e : Event} {d : DomainId} {who : Subscriber} (h : s.deliver e d who = .ok t) :
    (s.isActive who.propagator = false ∧ t = s) ∨
      ∃ p q decision roster agenda, s.roster.get? who.propagator = some p ∧
        p.notify s.domains who.localId e = .ok (q, decision) ∧
        s.roster.replace who.propagator q = .ok roster ∧
        (decision = .skip ∧ agenda = s.agenda ∨
          decision = .enqueue ∧ s.agenda.enqueue who.propagator q.priority = .ok agenda) ∧
        t = State.enter { s with
          roster, agenda
          statistics := { s.statistics with notifications := s.statistics.notifications + 1 } }
          (.notified who e d decision q) := by
  unfold deliver at h
  cases found : s.roster.get? who.propagator with
  | none =>
    rw [found] at h
    exact .inl ⟨isActive_eq_false_iff.2 found, (pure_eq_ok_iff.1 h).symm⟩
  | some p =>
    rw [found] at h
    obtain ⟨⟨q, decision⟩, notified, h⟩ := bind_eq_ok_iff.1 h
    obtain ⟨roster, replaced, h⟩ := bind_eq_ok_iff.1 h
    cases decision with
    | skip =>
      rw [← pure_eq_ok_iff.1 h]
      exact .inr ⟨p, q, .skip, roster, s.agenda, rfl, notified, replaced, .inl ⟨rfl, rfl⟩, rfl⟩
    | enqueue =>
      obtain ⟨agenda, enqueued, h⟩ := bind_eq_ok_iff.1 h
      rw [← pure_eq_ok_iff.1 h]
      exact .inr ⟨p, q, .enqueue, roster, agenda, rfl, notified, replaced, .inr ⟨rfl, enqueued⟩,
        rfl⟩

theorem deliverPending_induction {P : State κ → Prop}
    (drained : ∀ {events domains}, s.domains.drain = .ok (events, domains) → P { s with domains })
    (told : ∀ {u w : State κ} {e : Event} {d : DomainId} {who : Subscriber},
      P u → u.deliver e d who = .ok w → P w)
    (h : s.deliverPending = .ok t) : P t := by
  obtain ⟨⟨events, domains⟩, taken, h⟩ := bind_eq_ok_iff.1 h
  refine foldlM_keeps (fun _ u => P u) ?_ (drained taken) h
  intro event rest u w kept step
  obtain ⟨audience, -, step⟩ := bind_eq_ok_iff.1 step
  exact foldlM_keeps (fun _ u => P u) told kept step

theorem retire_eq (h : s.retire id = .ok t) :
    ∃ roster subscriptions, s.roster.retire id = .ok roster ∧
      s.subscriptions.unsubscribe id = .ok subscriptions ∧
      t = { s with roster, subscriptions } := by
  obtain ⟨roster, retired, h⟩ := bind_eq_ok_iff.1 h
  obtain ⟨subscriptions, unsubscribed, h⟩ := bind_eq_ok_iff.1 h
  exact ⟨roster, subscriptions, retired, unsubscribed, (pure_eq_ok_iff.1 h).symm⟩

theorem retire_remark {r : Remark} (h : (s.remark r).retire id = .ok t) :
    ∃ u, s.retire id = .ok u ∧ t = u.remark r := by
  obtain ⟨roster, subscriptions, retired, unsubscribed, rfl⟩ := retire_eq h
  refine ⟨{ s with roster, subscriptions }, ?_, rfl⟩
  exact bind_eq_ok_iff.2 ⟨roster, retired, bind_eq_ok_iff.2 ⟨subscriptions, unsubscribed, rfl⟩⟩

theorem isActive_of_retire (gone : s.retire id = .ok t) (j : PropagatorId) :
    t.isActive j = (decide (j ≠ id) && s.isActive j) := by
  obtain ⟨roster, subscriptions, retired, -, rfl⟩ := retire_eq gone
  simp only [isActive, Roster.get?_of_retire retired]
  by_cases same : j = id <;> simp [same]

/-- What a run leaves before a conclusion is drawn from it: the propagator fixed some domains and
    became `q`. -/
structure RunLeft (s : State κ) (id : PropagatorId) (q : AnyPropagator κ) (u : State κ) : Prop where
  fixings : s.domains.LeadsTo u.domains
  replaced : s.roster.replace id q = .ok u.roster
  subscriptions : u.subscriptions = s.subscriptions
  agenda : u.agenda = s.agenda
  failure : u.failure = s.failure

structure RanTo (s : State κ) (id : PropagatorId) (q : AnyPropagator κ)
    (outcome : Except Inconsistency (Verdict (AnyBlueprint κ))) (u : State κ) : Prop
    extends s.RunLeft id q u where
  statistics : u.statistics = { s.statistics with
    runs := s.statistics.runs + 1
    propagations := s.statistics.propagations + (u.domains.numFixed - s.domains.numFixed) }
  entries : u.entries = s.entries ++ [.ran id outcome q]

theorem RanTo.isActive_eq {q : AnyPropagator κ}
    {outcome : Except Inconsistency (Verdict (AnyBlueprint κ))} (ran : s.RanTo id q outcome u)
    (active : s.isActive id = true) (j : PropagatorId) : u.isActive j = s.isActive j := by
  simp only [isActive, Roster.get?_of_replace ran.replaced]
  split
  · next same =>
    rw [isActive] at active
    rw [same, active]
    rfl
  · rfl

theorem runPropagator_eq {r : Except Inconsistency Unit} (h : s.runPropagator id = .ok (r, t)) :
    (s.isActive id = false ∧ r = .ok () ∧ t = s) ∨
      ∃ p q outcome u, s.roster.get? id = some p ∧
        (p.propagate id).run s.domains = .ok ((q, outcome), u.domains) ∧ s.RanTo id q outcome u ∧
        ((∃ i, outcome = .error i ∧ r = .error i ∧ t = u) ∨
          ∃ verdict, outcome = .ok verdict ∧ r = .ok () ∧ u.conclude id verdict = .ok t) := by
  unfold runPropagator at h
  cases active : s.roster.get? id with
  | none =>
    rw [active] at h
    obtain ⟨rfl, rfl⟩ := pure_pair_eq_ok_iff.1 h
    exact .inl ⟨isActive_eq_false_iff.2 active, rfl, rfl⟩
  | some p =>
    rw [active] at h
    obtain ⟨⟨⟨q, outcome⟩, domains⟩, ran, h⟩ := bind_eq_ok_iff.1 h
    obtain ⟨gained, counted, h⟩ := bind_eq_ok_iff.1 h
    obtain ⟨-, rfl⟩ := decrease_eq_ok_iff.1 counted
    obtain ⟨roster, replaced, h⟩ := bind_eq_ok_iff.1 h
    refine .inr ⟨p, q, outcome, State.enter { s with
      domains, roster
      statistics := { s.statistics with
        runs := s.statistics.runs + 1
        propagations := s.statistics.propagations + (domains.numFixed - s.domains.numFixed) } }
      (.ran id outcome q), rfl, ran,
      ⟨⟨(p.propagate id).leadsTo ran, replaced, rfl, rfl, rfl⟩, rfl, entries_enter _ _⟩, ?_⟩
    cases outcome with
    | error i =>
      obtain ⟨rfl, rfl⟩ := pure_pair_eq_ok_iff.1 h
      exact .inl ⟨i, rfl, rfl, rfl⟩
    | ok verdict =>
      obtain ⟨w, concluded, h⟩ := bind_eq_ok_iff.1 h
      obtain ⟨rfl, rfl⟩ := pure_pair_eq_ok_iff.1 h
      exact .inr ⟨verdict, rfl, rfl, concluded⟩

/-- The three conclusions. What is counted on the way is left open. -/
theorem conclude_eq {verdict : Verdict (AnyBlueprint κ)} (h : s.conclude id verdict = .ok t) :
    (verdict = .atFixpoint ∧ t = s) ∨
      (verdict = .subsumed ∧ ∃ statistics : Statistics,
        (State.remark { s with statistics } (.subsumed id)).retire id = .ok t) ∨
      ∃ b statistics replacement u v, verdict = .replaceBy b ∧
        State.retire { s with statistics } id = .ok u ∧
        u.addPropagator b = .ok (replacement, v) ∧ t = v.remark (.replaced id replacement) := by
  cases verdict with
  | atFixpoint => exact .inl ⟨rfl, (pure_eq_ok_iff.1 h).symm⟩
  | subsumed => exact .inr (.inl ⟨rfl, _, h⟩)
  | replaceBy b =>
    obtain ⟨u, retired, h⟩ := bind_eq_ok_iff.1 h
    obtain ⟨⟨replacement, v⟩, added, h⟩ := bind_eq_ok_iff.1 h
    exact .inr (.inr ⟨b, _, replacement, u, v, rfl, retired, added, (pure_eq_ok_iff.1 h).symm⟩)

end State
end PseudoBoolean
