import PseudoBoolean.Proofs.Domains
import PseudoBoolean.Proofs.Pieces

/-!
What the entries of a journal stand for. An entry about a propagator that was built, told or run is
one call: of the propagator that the roster held just then, with the answer that it gave, and the
roster goes on with what the call left. `Called` reads a list of entries in this way, from the
roster before the first to the roster after the last.
-/
namespace PseudoBoolean
variable {κ : Type} [PropagatorKinds κ]

def endsLife {β : Type} : Except Inconsistency (Verdict β) → Bool
  | .ok .subsumed | .ok (.replaceBy _) => true
  | _ => false

/-- The call that an entry stands for, made when the store was `seen`, and the roster after it. -/
inductive Entry.Calls (seen : Domains) : Roster κ → Entry κ → Roster κ → Prop where
  | created {roster : Roster κ} {b : AnyBlueprint κ} {p : AnyPropagator κ}
      {registrations : List Registration} :
      b.create seen = .ok (p, registrations) →
        Calls seen roster (.created roster.nextId b seen p) (roster.add p)
  | notified {roster next : Roster κ} {who : Subscriber} {e : Event} {d : DomainId}
      {p q : AnyPropagator κ} {decision : Decision} :
      roster.get? who.propagator = some p →
      p.notify seen who.localId e = .ok (q, decision) →
      roster.replace who.propagator q = .ok next →
        Calls seen roster (.notified who e d decision q) next
  | ran {roster left next : Roster κ} {id : PropagatorId} {p q : AnyPropagator κ}
      {outcome : Except Inconsistency (Verdict (AnyBlueprint κ))} {after : Domains} :
      roster.get? id = some p →
      (p.propagate id).run seen = .ok ((q, outcome), after) →
      roster.replace id q = .ok left →
      (if endsLife outcome then left.retire id else .ok left) = .ok next →
        Calls seen roster (.ran id outcome q) next
  | remarked {roster : Roster κ} {r : Remark} : Calls seen roster (.remarked r) roster

/-- The calls of a list of entries, one after the other, each when the store was one that `Seen`
    admits. -/
inductive Called (Seen : Domains → Prop) : Roster κ → List (Entry κ) → Roster κ → Prop where
  | nil (roster : Roster κ) : Called Seen roster [] roster
  | cons {seen : Domains} {before between after : Roster κ} {x : Entry κ} {rest : List (Entry κ)} :
      Seen seen → x.Calls seen before between → Called Seen between rest after →
        Called Seen before (x :: rest) after

section called
variable {Seen Wider : Domains → Prop} {before between after : Roster κ} {x : Entry κ}
  {written more : List (Entry κ)}

theorem called_singleton {seen : Domains} (admitted : Seen seen)
    (call : x.Calls seen before after) : Called Seen before [x] after :=
  .cons admitted call (.nil after)

theorem Called.append (first : Called Seen before written between)
    (later : Called Seen between more after) : Called Seen before (written ++ more) after := by
  induction first with
  | nil => exact later
  | cons admitted call _ ih => exact .cons admitted call (ih later)

theorem Called.mono (h : Called Seen before written after)
    (wider : ∀ seen, Seen seen → Wider seen) : Called Wider before written after := by
  induction h with
  | nil => exact .nil _
  | cons admitted call _ ih => exact .cons (wider _ admitted) call ih

end called

namespace State
variable {s t u : State κ} {id : PropagatorId} {more : List (Entry κ)}

/-- The journal documents the calls of the whole run: from the empty roster they lead to the present
    one, and none was made with a value that the store does not have. -/
def Documented (s : State κ) : Prop :=
  Called (fun seen => s.domains.known.Extends seen.known) {} s.entries s.roster

theorem documented_new (limits : Limits) : (State.new (κ := κ) limits).Documented := .nil _

namespace Documented

theorem extend (h : s.Documented) (above : t.domains.known.Extends s.domains.known)
    (entries : t.entries = s.entries ++ more)
    (called : Called (fun seen => t.domains.known.Extends seen.known) s.roster more t.roster) :
    t.Documented := by
  have before := h.mono fun seen admitted => PartialValuation.extends_trans above admitted
  unfold Documented
  rw [entries]
  exact before.append called

theorem of_unwritten (h : s.Documented) (above : t.domains.known.Extends s.domains.known)
    (roster : t.roster = s.roster) (entries : t.entries = s.entries) : t.Documented := by
  apply h.extend above (entries.trans (List.append_nil _).symm)
  rw [roster]
  exact .nil _

theorem remark (h : s.Documented) (r : Remark) : (s.remark r).Documented :=
  h.extend (PartialValuation.extends_refl _) (entries_remark s r)
    (called_singleton (PartialValuation.extends_refl s.domains.known) .remarked)

theorem newLiteral (h : s.Documented) : s.newLiteral.2.Documented := by
  refine h.of_unwritten ?_ rfl rfl
  rw [show s.newLiteral.2.domains.known = s.domains.known from Domains.known_grow s.domains]
  exact PartialValuation.extends_refl _

theorem addPropagator {b : AnyBlueprint κ} (h : s.Documented)
    (added : s.addPropagator b = .ok (id, t)) : t.Documented := by
  obtain ⟨p, registrations, added⟩ := added_addPropagator added
  have above : t.domains.known.Extends s.domains.known := by
    rw [added.domains]
    exact PartialValuation.extends_refl _
  refine h.extend above added.entries (called_singleton above ?_)
  rw [added.own, added.roster]
  exact .created added.created

/-- The entry of the last run of a propagator also stands for its retirement. -/
theorem ran {p q : AnyPropagator κ} {outcome : Except Inconsistency (Verdict (AnyBlueprint κ))}
    (h : s.Documented) (active : s.roster.get? id = some p)
    (called : (p.propagate id).run s.domains = .ok ((q, outcome), u.domains))
    (ran : s.RanTo id q outcome u)
    (ended : (if endsLife outcome then u.roster.retire id else .ok u.roster) = .ok t.roster)
    (domains : t.domains = u.domains) (entries : t.entries = u.entries) : t.Documented := by
  have above : t.domains.known.Extends s.domains.known := domains ▸ ran.fixings.extends
  exact h.extend above (entries.trans ran.entries)
    (called_singleton above (.ran active called ran.replaced ended))

theorem runPropagator {r : Except Inconsistency Unit} (h : s.Documented)
    (done : s.runPropagator id = .ok (r, t)) : t.Documented := by
  rcases runPropagator_eq done with ⟨-, -, rfl⟩ | ⟨p, q, outcome, u, active, called, ran, ended⟩
  · exact h
  rcases ended with ⟨i, rfl, -, rfl⟩ | ⟨verdict, rfl, -, rest⟩
  · exact h.ran active called ran rfl rfl rfl
  rcases conclude_eq rest with
    ⟨rfl, rfl⟩ | ⟨rfl, statistics, gone⟩ | ⟨b, statistics, replacement, v, w, rfl, gone, built, rfl⟩
  · exact h.ran active called ran rfl rfl rfl
  · obtain ⟨v, out, rfl⟩ := retire_remark gone
    obtain ⟨roster, subscriptions, retired, -, rfl⟩ := retire_eq out
    have left : Documented { u with statistics, roster, subscriptions } :=
      h.ran active called ran retired rfl rfl
    exact left.remark _
  · obtain ⟨roster, subscriptions, retired, -, rfl⟩ := retire_eq gone
    have left : Documented { u with statistics, roster, subscriptions } :=
      h.ran active called ran retired rfl rfl
    exact (left.addPropagator built).remark _

end Documented
end State
end PseudoBoolean
