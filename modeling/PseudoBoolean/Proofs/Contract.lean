import PseudoBoolean.Propagator
import PseudoBoolean.Proofs.Domains
import PseudoBoolean.Proofs.Stability

/-!
What the engine may rely on. A propagator stands for a set of stable points. It may neglect a
variable only as long as nothing happened to it: everything that did is either dealt with or news
that is still on its way under the variable's number. The laws say that each of the three things
that a propagator does keeps this up, so that a propagator without news and without a reason to
run has the store itself among its stable points.
-/
namespace PseudoBoolean

def Reported (watch : LocalId → Option DomainId) (known known' : PartialValuation)
    (news news' : LocalId → Prop) : Prop :=
  ∀ n d, watch n = some d → news' n ∨ (known' d = known d ∧ ¬ news n)

theorem reported_of_subset {watch : LocalId → Option DomainId} {known : PartialValuation}
    {news news' : LocalId → Prop} (more : ∀ n, news n → news' n) :
    Reported watch known known news news' := by
  intro n d _
  by_cases fresh : news n
  · exact Or.inl (more n fresh)
  · exact Or.inr ⟨rfl, fresh⟩

theorem Reported.trans {watch : LocalId → Option DomainId} {k₁ k₂ k₃ : PartialValuation}
    {n₁ n₂ n₃ : LocalId → Prop} (h : Reported watch k₁ k₂ n₁ n₂) (k : Reported watch k₂ k₃ n₂ n₃) :
    Reported watch k₁ k₃ n₁ n₃ := by
  intro n d watched
  rcases k n d watched with fresh | ⟨later, old⟩
  · exact Or.inl fresh
  · rcases h n d watched with fresh | ⟨first, older⟩
    · exact absurd fresh old
    · exact Or.inr ⟨later.trans first, older⟩

class Semantics (κ : Type) [PropagatorKinds κ] where
  StableAt : AnyPropagator κ → PartialValuation → Prop
  /-- The stable points of the propagator that a blueprint describes. -/
  AsksFor : AnyBlueprint κ → PartialValuation → Prop
  /-- The domain that a number stands for, as long as the propagator cares. -/
  watch : AnyPropagator κ → LocalId → Option DomainId
  /-- The parts of the propagator agree with each other. -/
  Consistent : AnyPropagator κ → Prop
  /-- The propagator knows all values but those that are news. -/
  Current : AnyPropagator κ → PartialValuation → (LocalId → Prop) → Prop
  /-- The propagator has no reason to run before it gets news. -/
  Settled : AnyPropagator κ → PartialValuation → (LocalId → Prop) → Prop

section
variable {κ : Type} [PropagatorKinds κ] [Semantics κ]
open Semantics

structure Created (b : AnyBlueprint κ) (known : PartialValuation) (p : AnyPropagator κ)
    (registrations : List Registration) : Prop where
  consistent : Consistent p
  stable : ∀ e, e.Extends known → (StableAt p e ↔ AsksFor b e)
  fixing : ∀ r ∈ registrations, r.events = .fixing
  registered : ∀ {n d}, watch p n = some d ↔
    ∃ r ∈ registrations, r.localId = n ∧ r.literal.domain = d
  current : Current p known fun _ => False

structure Notified (p : AnyPropagator κ) (known : PartialValuation) (n : LocalId)
    (q : AnyPropagator κ) (decision : Decision) : Prop where
  consistent : Consistent q
  watched : ∀ {m d}, watch q m = some d → watch p m = some d
  stable : ∀ e, e.Extends known → (StableAt q e ↔ StableAt p e)
  current : ∀ {news news' : LocalId → Prop}, (∀ m, m ≠ n → news m → news' m) →
    Current p known news → Current q known news'
  settled : ∀ {news news' : LocalId → Prop}, (∀ m, m ≠ n → news m → news' m) →
    decision = .skip → Settled p known news → Settled q known news'

structure Ran (p : AnyPropagator κ) (before after : PartialValuation) (q : AnyPropagator κ)
    (outcome : Except Inconsistency (Verdict (AnyBlueprint κ))) : Prop where
  justified : Justified (StableAt p) AsksFor before after outcome
  unchanged : outcome = .ok .atFixpoint → q = p
  settled : outcome = .ok .atFixpoint → ∀ {news : LocalId → Prop},
    Reported (watch p) before after (fun _ => False) news → Settled p after news

end

open Semantics in
class Contract (κ : Type) [PropagatorKinds κ] [Semantics κ] : Prop where
  created : ∀ {b : AnyBlueprint κ} {s : Domains} {p : AnyPropagator κ} {registrations},
    b.create s = .ok (p, registrations) → Created b s.known p registrations
  notified : ∀ {p q : AnyPropagator κ} {s : Domains} {n : LocalId} {e : Event}
    {decision : Decision}, Consistent p → (∀ d, watch p n = some d → s.known d = some e.value) →
      p.notify s n e = .ok (q, decision) → Notified p s.known n q decision
  ran : ∀ {p q : AnyPropagator κ} {self : PropagatorId} {s t : Domains}
    {outcome : Except Inconsistency (Verdict (AnyBlueprint κ))}, Consistent p →
      (p.propagate self).run s = .ok ((q, outcome), t) → Ran p s.known t.known q outcome
  current_of_reported : ∀ {p : AnyPropagator κ} {known known' : PartialValuation}
    {news news' : LocalId → Prop}, Consistent p → Reported (watch p) known known' news news' →
      Current p known news → Current p known' news'
  settled_of_reported : ∀ {p : AnyPropagator κ} {known known' : PartialValuation}
    {news news' : LocalId → Prop}, Reported (watch p) known known' news news' →
      Settled p known news → Settled p known' news'
  stableAt_of_settled : ∀ {p : AnyPropagator κ} {known : PartialValuation}, Consistent p →
    Current p known (fun _ => False) → Settled p known (fun _ => False) → StableAt p known

theorem Justified.map {β γ : Type} {stable : PartialValuation → Prop}
    (asks : γ → PartialValuation → Prop) {f : β → γ} {before after : PartialValuation}
    {verdict : Verdict β} (h : Justified stable (fun b => asks (f b)) before after (.ok verdict)) :
    Justified stable asks before after (.ok (verdict.map f)) := by
  cases verdict <;> exact h

end PseudoBoolean
