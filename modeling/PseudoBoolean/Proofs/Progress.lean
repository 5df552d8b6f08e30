import Mathlib.Algebra.GroupWithZero.Nat
import PseudoBoolean.Proofs.Bookkeeping
import PseudoBoolean.Proofs.Fixpoint

/-!
The engine comes to an answer. An intact state has balanced books, and its propagators stand on
domains that exist. The laws of `Progress` say that a propagator on such a store never faults, and
that one which takes over may be replaced less often; then every step of the engine on an intact
state comes to an answer and leaves the state intact.
-/
namespace PseudoBoolean

section laws
variable {κ : Type} [PropagatorKinds κ] [Semantics κ]
open Semantics

structure Grounded (p : AnyPropagator κ) (s : Domains) : Prop where
  consistent : Consistent p
  watching : ∀ {n d}, watch p n = some d → s.Has d

structure Follows (p q : AnyPropagator κ) : Prop where
  consistent : Consistent q
  watched : ∀ {n d}, watch q n = some d → watch p n = some d
  replacementsLeft : q.replacementsLeft = p.replacementsLeft

theorem Follows.grounded {p q : AnyPropagator κ} {s : Domains} (h : Follows p q)
    (grounded : Grounded p s) : Grounded q s :=
  ⟨h.consistent, fun watched => grounded.watching (h.watched watched)⟩

theorem Grounded.of_size {p : AnyPropagator κ} {s t : Domains} (h : Grounded p s)
    (size : s.size ≤ t.size) : Grounded p t :=
  ⟨h.consistent, fun watched => Nat.lt_of_lt_of_le (h.watching watched) size⟩

def Buildable (b : AnyBlueprint κ) (s : Domains) (P : AnyPropagator κ → Prop) : Prop :=
  ∃ p registrations, b.create s = .ok (p, registrations) ∧ P p ∧
    ∀ r ∈ registrations, s.Has r.literal

end laws

open Semantics in
class Progress (κ : Type) [PropagatorKinds κ] [Semantics κ] : Prop where
  notified : ∀ {p : AnyPropagator κ} (s : Domains) (n : LocalId) (e : Event), Consistent p →
    ∃ q decision, p.notify s n e = .ok (q, decision) ∧ Follows p q
  ran : ∀ {s : Domains} {p : AnyPropagator κ} (self : PropagatorId), s.Tracked → Grounded p s →
    ∃ q outcome t, (p.propagate self).run s = .ok ((q, outcome), t) ∧ Follows p q ∧
      ∀ b, outcome = .ok (.replaceBy b) →
        Buildable b t fun r => r.replacementsLeft < p.replacementsLeft

namespace State
variable {κ : Type} [PropagatorKinds κ] [Semantics κ]
variable {s t u : State κ} {id : PropagatorId} {p q : AnyPropagator κ}
open Semantics

structure Intact (s : State κ) : Prop where
  domains : s.domains.Tracked
  subscriptions : s.subscriptions.Within s.domains.size
  agenda : s.agenda.Tallied s.roster.size
  counted : s.roster.numActive = s.roster.active.length
  grounded : ∀ {id p}, s.roster.get? id = some p → Grounded p s.domains

/-- What fixing and watching domains needs of a state. -/
structure Sturdy (s : State κ) : Prop where
  domains : s.domains.Tracked
  subscriptions : s.subscriptions.Within s.domains.size

theorem Intact.sturdy (h : s.Intact) : s.Sturdy := ⟨h.domains, h.subscriptions⟩

theorem intact_new (limits : Limits) : (State.new (κ := κ) limits).Intact := by
  refine ⟨⟨rfl, fun member => by cases member⟩, ⟨rfl, ?_⟩, ?_, rfl, ?_⟩
  · intro id domains found
    simp [State.new, Table.get?] at found
  · exact Agenda.tallied_empty 0
  · intro id p found
    simp [State.new, Roster.get?, Table.get?] at found

theorem Intact.of_same (h : s.Intact) (domains : t.domains = s.domains)
    (subs : t.subscriptions = s.subscriptions) (roster : t.roster = s.roster)
    (agenda : t.agenda = s.agenda) : t.Intact := by
  refine ⟨domains ▸ h.domains, ?_, ?_, roster ▸ h.counted, ?_⟩
  · rw [subs, domains]
    exact h.subscriptions
  · rw [agenda, roster]
    exact h.agenda
  · intro id p active
    rw [roster] at active
    rw [domains]
    exact h.grounded active

theorem Intact.of_domains (h : s.Intact) {domains : Domains} (tracked : domains.Tracked)
    (size : domains.size = s.domains.size) : ({ s with domains } : State κ).Intact := by
  refine ⟨tracked, ?_, h.agenda, h.counted, ?_⟩
  · rw [size]
    exact h.subscriptions
  · exact fun active => (h.grounded active).of_size (Nat.le_of_eq size.symm)

theorem Intact.leadsTo (h : s.Intact) {domains : Domains} (fixings : s.domains.LeadsTo domains) :
    ({ s with domains } : State κ).Intact :=
  h.of_domains (fixings.tracked h.domains) fixings.size

theorem Intact.newLiteral (h : s.Intact) : s.newLiteral.2.Intact := by
  have size : s.domains.grow.size = s.domains.size + 1 := Table.size_push _ _
  refine ⟨h.domains.grow, ?_, h.agenda, h.counted, ?_⟩
  · change s.subscriptions.grow.Within s.domains.grow.size
    rw [size]
    exact h.subscriptions.grow
  · exact fun active => (h.grounded active).of_size (size ▸ Nat.le_succ _)

theorem Intact.fail (h : s.Intact) (i : Inconsistency) : (s.fail i).Intact :=
  ⟨h.domains, h.subscriptions, Agenda.tallied_clear _ _, h.counted, h.grounded⟩

section pop
variable {first : Option PropagatorId} {agenda : Agenda}

omit [Semantics κ] in
theorem numQueued_of_pop (tallied : s.agenda.Tallied s.roster.size)
    (popped : s.agenda.pop = .ok (first, agenda)) :
    agenda.Tallied s.roster.size ∧ (first = none ∨ agenda.numQueued < s.agenda.numQueued) := by
  cases first with
  | none =>
    rw [Agenda.eq_of_pop_none popped]
    exact ⟨tallied, Or.inl rfl⟩
  | some id =>
    obtain ⟨after, fewer⟩ := tallied.pop popped
    exact ⟨after, Or.inr (by omega)⟩

theorem Intact.pop (h : s.Intact) (popped : s.agenda.pop = .ok (first, agenda)) :
    ({ s with agenda } : State κ).Intact :=
  ⟨h.domains, h.subscriptions, (numQueued_of_pop h.agenda popped).1, h.counted, h.grounded⟩

end pop

theorem Intact.of_follows (h : s.Intact) (active : s.roster.get? id = some p)
    (follows : Follows p q)
    (fixings : s.domains.LeadsTo t.domains) (subs : t.subscriptions = s.subscriptions)
    (replaced : s.roster.replace id q = .ok t.roster)
    (agenda : t.agenda.Tallied s.roster.size) : t.Intact := by
  have moved := h.leadsTo fixings
  refine ⟨moved.domains, subs ▸ moved.subscriptions, ?_, ?_, ?_⟩
  · rw [Roster.size_of_replace replaced]
    exact agenda
  · exact Roster.counted_of_replace h.counted active replaced
  · intro j r found
    rw [Roster.get?_of_replace replaced] at found
    split at found
    · cases found
      exact follows.grounded (moved.grounded active)
    · exact moved.grounded found

section deliver
variable [Progress κ] {e : Event} {d : DomainId} {who : Subscriber}

theorem returns_deliver (h : s.Intact) (e : Event) (d : DomainId) (who : Subscriber) :
    Returns (s.deliver e d who) := by
  unfold deliver
  cases active : s.roster.get? who.propagator with
  | none => exact returns_pure s
  | some p =>
    obtain ⟨q, decision, notified, -⟩ :=
      Progress.notified s.domains who.localId e (h.grounded active).consistent
    apply Returns.bind ⟨(q, decision), notified⟩
    intro ⟨next, decided⟩ _
    apply (Roster.returns_replace active next).bind
    intro roster _
    cases decided with
    | enqueue => exact (Agenda.returns_enqueue _ _ _).bind fun _ _ => returns_pure _
    | skip => exact returns_pure _

structure Told (s t : State κ) : Prop where
  intact : t.Intact
  domains : t.domains = s.domains
  subscriptions : t.subscriptions = s.subscriptions
  size : t.roster.size = s.roster.size
  replacementsLeft : t.replacementsLeft = s.replacementsLeft

omit [Semantics κ] [Progress κ] in
theorem replacementsLeft_eq_sum (s : State κ) :
    s.replacementsLeft = (s.roster.active.map AnyPropagator.replacementsLeft).sum := by
  rw [replacementsLeft, List.sum_eq_foldr, List.foldr_map]

omit [Semantics κ] [Progress κ] in
theorem replacementsLeft_of_replace (active : s.roster.get? id = some p)
    (replaced : s.roster.replace id q = .ok t.roster)
    (same : q.replacementsLeft = p.replacementsLeft) :
    t.replacementsLeft = s.replacementsLeft := by
  obtain ⟨before, after, whole, exchanged, -⟩ := Roster.active_split active
  rw [replacementsLeft_eq_sum, replacementsLeft_eq_sum, whole, (exchanged replaced).1]
  simp only [List.map_append, List.map_cons, same]

theorem told_deliver (h : s.Intact) (delivered : s.deliver e d who = .ok t) : s.Told t := by
  rcases deliver_cases delivered with
    ⟨-, rfl⟩ | ⟨p, q, decision, active, notified, replaced, decided, domains, subs, -⟩
  · exact ⟨h, rfl, rfl, rfl, rfl⟩
  obtain ⟨r, other, again, follows⟩ :=
    Progress.notified s.domains who.localId e (h.grounded active).consistent
  rw [notified] at again
  cases again
  have agenda : t.agenda.Tallied s.roster.size := by
    rcases decided with ⟨-, same⟩ | enqueued
    · rw [same]
      exact h.agenda
    · exact h.agenda.enqueue enqueued (Roster.index_lt_of_get? active)
  have fixings : s.domains.LeadsTo t.domains := domains ▸ .refl s.domains
  exact ⟨h.of_follows active follows fixings subs replaced agenda, domains, subs,
    Roster.size_of_replace replaced, replacementsLeft_of_replace active replaced
      follows.replacementsLeft⟩

omit [Progress κ] in
theorem Told.trans (h : s.Told t) (k : t.Told u) : s.Told u :=
  ⟨k.intact, k.domains.trans h.domains, k.subscriptions.trans h.subscriptions, k.size.trans h.size,
    k.replacementsLeft.trans h.replacementsLeft⟩

omit [Progress κ] in
theorem told_refl (h : s.Intact) : s.Told s := ⟨h, rfl, rfl, rfl, rfl⟩

theorem returns_deliverAll (h : s.Intact) (has : s.domains.Has d) (e : Event) :
    Returns (s.deliverAll e d) := by
  apply (Subscriptions.returns_subscribers h.subscriptions has e).bind
  intro audience _
  apply returns_foldlM fun _ (u : State κ) => u.Intact
  · intro who rest u intact
    obtain ⟨w, delivered⟩ := returns_deliver intact e d who
    exact ⟨w, delivered, (told_deliver intact delivered).intact⟩
  · exact h

theorem told_deliverAll (h : s.Intact) (delivered : s.deliverAll e d = .ok t) : s.Told t := by
  obtain ⟨audience, -, delivered⟩ := bind_eq_ok_iff.1 delivered
  exact foldlM_keeps (fun _ (u : State κ) => s.Told u)
    (fun told step => told.trans (told_deliver told.intact step)) (told_refl h) delivered

omit [Progress κ] in
theorem Intact.drain (h : s.Intact) {events : List (Event × DomainId)} {domains : Domains}
    (drained : s.domains.drain = .ok (events, domains)) :
    ({ s with domains } : State κ).Intact := by
  apply h.of_domains (h.domains.of_drain drained)
  rw [Domains.size, (Domains.frame_of_drain drained).2.1, Domains.size]

theorem returns_deliverPending (h : s.Intact) : Returns s.deliverPending := by
  obtain ⟨⟨events, domains⟩, drained⟩ := Domains.returns_drain h.domains
  apply Returns.bind ⟨(events, domains), drained⟩
  intro ⟨events, domains⟩ drained
  obtain ⟨rfl, values, -⟩ := Domains.frame_of_drain drained
  apply returns_foldlM fun (rest : List (Event × DomainId)) (u : State κ) =>
    u.Intact ∧ ∀ event ∈ rest, u.domains.Has event.2
  · intro ⟨e, d⟩ rest u kept
    obtain ⟨w, delivered⟩ := returns_deliverAll kept.1 (kept.2 _ List.mem_cons_self) e
    have told := told_deliverAll kept.1 delivered
    refine ⟨w, delivered, told.intact, ?_⟩
    intro event member
    rw [told.domains]
    exact kept.2 event (List.mem_cons_of_mem _ member)
  · refine ⟨h.drain drained, fun event member => ?_⟩
    apply (Domains.has_iff_of_size _ event.2).2 (h.domains.pending member)
    rw [Domains.size, values, Domains.size]

theorem told_deliverPending (h : s.Intact) (delivered : s.deliverPending = .ok t) :
    ∃ domains, s.domains.drain = .ok (s.domains.pending.events, domains) ∧
      ({ s with domains } : State κ).Told t ∧
      (s.domains.pending.events = [] → t.agenda = s.agenda) := by
  obtain ⟨⟨events, domains⟩, drained, delivered⟩ := bind_eq_ok_iff.1 delivered
  obtain ⟨rfl, -⟩ := Domains.frame_of_drain drained
  refine ⟨domains, drained, ?_, ?_⟩
  · exact foldlM_keeps (fun _ (u : State κ) => ({ s with domains } : State κ).Told u)
      (fun told step => told.trans (told_deliverAll told.intact step)) (told_refl (h.drain drained))
      delivered
  · intro nothing
    rw [nothing] at delivered
    rw [← pure_eq_ok_iff.1 delivered]

end deliver

section addPropagator
variable {b : AnyBlueprint κ}

omit [Semantics κ] in
theorem Sturdy.returns_addPropagator {registrations : List Registration} (h : s.Sturdy)
    (created : b.create s.domains = .ok (p, registrations))
    (inside : ∀ r ∈ registrations, s.domains.Has r.literal) : Returns (s.addPropagator b) := by
  apply Returns.bind ⟨(p, registrations), created⟩
  intro ⟨p, registrations⟩ created'
  rw [created] at created'
  cases created'
  apply (Subscriptions.returns_registerAll h.subscriptions inside _).bind
  intro subscriptions _
  dsimp only
  split
  · exact returns_pure _
  · exact (Agenda.returns_enqueue _ _ _).bind fun _ _ => returns_pure _

theorem returns_addPropagator (h : s.Intact) {P : AnyPropagator κ → Prop}
    (buildable : Buildable b s.domains P) :
    ∃ id t, s.addPropagator b = .ok (id, t) := by
  obtain ⟨p, registrations, created, -, inside⟩ := buildable
  obtain ⟨⟨id, t⟩, added⟩ := h.sturdy.returns_addPropagator created inside
  exact ⟨id, t, added⟩

variable [Contract κ]

omit [Semantics κ] [Contract κ] in
theorem agenda_addPropagator (failed : s.isFailed = true)
    (added : s.addPropagator b = .ok (id, t)) : t.agenda = s.agenda := by
  obtain ⟨⟨p, registrations⟩, -, added⟩ := bind_eq_ok_iff.1 added
  obtain ⟨subscriptions, -, added⟩ := bind_eq_ok_iff.1 added
  dsimp only at added
  rw [if_pos failed] at added
  rw [← (pure_pair_eq_ok_iff.1 added).2]
  rfl

theorem Intact.addPropagator (h : s.Intact) (added : s.addPropagator b = .ok (id, t)) :
    t.Intact := by
  obtain ⟨rfl, p, registrations, built, registered, roster, domains, -, enqueued⟩ :=
    addPropagator_cases added
  have created := Contract.created built
  obtain ⟨within, inside⟩ := h.subscriptions.registerAll registered
  have size : t.roster.size = s.roster.size + 1 := by
    rw [roster]
    exact Table.size_push _ _
  refine ⟨domains ▸ h.domains, domains ▸ within, ?_, ?_, ?_⟩
  · have grown := h.agenda.mono (Nat.le_succ s.roster.size)
    rw [size]
    cases failed : s.isFailed with
    | true =>
      rw [agenda_addPropagator failed added]
      exact grown
    | false =>
      apply grown.enqueue (enqueued _) (Nat.lt_succ_self _)
      rwa [isFailed, Option.isSome_eq_false_iff, Option.isNone_iff_eq_none] at failed
  · rw [roster, Roster.active_add, List.length_append, ← h.counted]
    rfl
  · intro j r found
    rw [roster, Roster.get?_add] at found
    rw [domains]
    split at found
    · cases found
      refine ⟨created.consistent, fun watched => ?_⟩
      obtain ⟨r, member, -, same⟩ := created.registered.1 watched
      rw [← same]
      exact inside r member
    · exact h.grounded found

end addPropagator

theorem returns_retire (h : s.Intact) (id : PropagatorId) : Returns (s.retire id) := by
  apply (Roster.returns_retire h.counted id).bind
  intro roster _
  exact (Subscriptions.returns_unsubscribe h.subscriptions id).bind fun _ _ => returns_pure _

theorem Intact.retire (h : s.Intact) (retired : s.retire id = .ok t) : t.Intact := by
  obtain ⟨retired, unsubscribed, domains, agenda, -⟩ := retire_cases retired
  refine ⟨domains ▸ h.domains, ?_, ?_, Roster.counted_of_retire h.counted retired, ?_⟩
  · rw [domains]
    exact h.subscriptions.unsubscribe unsubscribed
  · rw [agenda, Roster.size_of_retire retired]
    exact h.agenda
  · intro j r found
    rw [Roster.get?_of_retire retired] at found
    split at found
    · cases found
    · rw [domains]
      exact h.grounded found

theorem returns_conclude (h : u.Intact) {verdict : Verdict (AnyBlueprint κ)}
    (builds : ∀ b, verdict = .replaceBy b → ∃ P, Buildable b u.domains P) (id : PropagatorId) :
    Returns (u.conclude id verdict) := by
  cases verdict with
  | atFixpoint => exact returns_pure u
  | subsumed =>
    have counted : (State.remark { u with statistics := { u.statistics with
      subsumptions := u.statistics.subsumptions + 1 } } (.subsumed id)).Intact :=
      h.of_same rfl rfl rfl rfl
    exact returns_retire counted id
  | replaceBy b =>
    have counted : ({ u with statistics := { u.statistics with
      replacements := u.statistics.replacements + 1 } } : State κ).Intact :=
      h.of_same rfl rfl rfl rfl
    apply (returns_retire counted id).bind
    intro t retired
    have domains := (retire_cases retired).2.2.1
    obtain ⟨P, buildable⟩ := builds b rfl
    rw [← show t.domains = u.domains from domains] at buildable
    obtain ⟨replacement, w, added⟩ := returns_addPropagator (counted.retire retired) buildable
    exact Returns.bind ⟨_, added⟩ fun _ _ => returns_pure _

theorem returns_runPropagator [Progress κ] (h : s.Intact) (id : PropagatorId) :
    Returns (s.runPropagator id) := by
  unfold runPropagator
  cases active : s.roster.get? id with
  | none => exact returns_pure _
  | some p =>
    obtain ⟨q, outcome, domains, ran, follows, builds⟩ :=
      Progress.ran id h.domains (h.grounded active)
    apply Returns.bind ⟨_, ran⟩
    intro result again
    rw [ran] at again
    cases again
    have fixings := (p.propagate id).leadsTo ran
    apply Returns.bind ⟨_, decrease_of_le fixings.numFixed_le⟩
    intro gained _
    apply (Roster.returns_replace active q).bind
    intro roster replaced
    cases outcome with
    | error i => exact returns_pure _
    | ok verdict =>
      apply (returns_conclude _ _ id).bind
      · exact fun _ _ => returns_pure _
      · exact h.of_follows active follows fixings rfl replaced h.agenda
      · intro b same
        exact ⟨_, builds b (congrArg Except.ok same)⟩

end State
end PseudoBoolean
