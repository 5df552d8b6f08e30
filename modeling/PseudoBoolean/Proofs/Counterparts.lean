import PseudoBoolean.Proofs.Hosting
import PseudoBoolean.Proofs.Lockstep

/-!
Different ways to ask for the same. A count may be left to the propagators that keep counters, to
a weighted sum with all weights 1, or settled when it is posted as far as that can be done;
whichever way is taken, the state has the same stable points afterwards.
-/
namespace PseudoBoolean

namespace Standard
open Semantics
variable {o : Over} {control : Option Literal} {xs : List o.Var} {threshold : Int} {s : Domains}

def counted (o : Over) (control : Option Literal) (vars : List o.Var) (threshold : Int) :
    AnyBlueprint Kind :=
  match control with
  | none => ⟨.atLeast o, AtLeast.Blueprint.mk vars threshold⟩
  | some c => ⟨.impliedAtLeast o, ImpliedAtLeast.Blueprint.mk c vars threshold⟩

/-- The same as a sum whose weights are 1. -/
def summed (o : Over) (control : Option Literal) (vars : List o.Var) (threshold : Int) :
    AnyBlueprint Kind :=
  ⟨.weightedSum o,
    WeightedSum.Blueprint.mk (List.replicate vars.length 1) vars .atLeast threshold control⟩

theorem asksFor_counted : AsksFor (counted o control xs threshold) =
    (WeightedSum.count control xs threshold).StableAt := by
  cases control <;> rfl

theorem asksFor_summed : AsksFor (summed o control xs threshold) =
    (WeightedSum.count control xs threshold).StableAt := by
  have terms : (List.replicate xs.length (1 : Int)).zip xs = xs.map ((1 : Int), ·) := by
    induction xs with
    | nil => rfl
    | cons x rest ih => rw [List.length_cons, List.replicate_succ, List.zip_cons_cons, ih]; rfl
  have same : WeightedSum.Blueprint.asSum (WeightedSum.Blueprint.mk (List.replicate xs.length 1) xs
      .atLeast threshold control) = WeightedSum.count control xs threshold := by
    simp only [WeightedSum.Blueprint.asSum, terms]
    rfl
  exact congrArg WeightedSum.StableAt same

theorem fits_counted (threshold : Int) (hasControl : ∀ c ∈ control, s.Has c)
    (has : ∀ x ∈ xs, s.Has x) :
    Fits s (counted o control xs threshold) := by
  cases control with
  | none => exact has
  | some c => exact ⟨hasControl c rfl, has⟩

theorem fits_summed (threshold : Int) (hasControl : ∀ c ∈ control, s.Has c)
    (has : ∀ x ∈ xs, s.Has x) :
    Fits s (summed o control xs threshold) :=
  ⟨List.length_replicate, hasControl, has⟩

end Standard

namespace State
open Standard
variable {s t u : State Kind}

/-- Both have failed, or neither has and the values are the same. -/
def Agree (s t : State Kind) : Prop :=
  (s.isFailed = true ∧ t.isFailed = true) ∨
    (s.isFailed = false ∧ t.isFailed = false ∧ s.domains.known = t.domains.known)

section added
variable {b c : AnyBlueprint Kind} {i j : PropagatorId}

theorem InOrder.returns_addPropagator (h : s.InOrder) (fits : Fits s.domains b) :
    Returns (s.addPropagator b) := by
  obtain ⟨id, t, added⟩ := State.returns_addPropagator h.intact (buildable_of_fits fits)
  exact ⟨_, added⟩

theorem twins_of_added (h : s.InOrder) (first : s.addPropagator b = .ok (i, t))
    (second : s.addPropagator c = .ok (j, u))
    (same : ∀ e, Semantics.AsksFor b e ↔ Semantics.AsksFor c e) : t.Twins u := by
  have left : t.InOrder := h.of_gains (gains_addPropagator first) (.single (.added first))
  have right : u.InOrder := h.of_gains (gains_addPropagator second) (.single (.added second))
  obtain ⟨-, -, -, -, -, -, domains, failure, -⟩ := addPropagator_cases first
  obtain ⟨-, -, -, -, -, -, domains', failure', -⟩ := addPropagator_cases second
  refine ⟨⟨left, right, by rw [domains, domains'], fun e => ?_⟩, ?_, fun _ => ?_⟩
  · rw [stableAt_addPropagator first, stableAt_addPropagator second, same]
  · rw [isFailed, isFailed, failure, failure']
  · rw [domains, domains']

end added

/-- A count by counters and the count as a sum agree after every propagation, whatever decisions and
    propagations came before. -/
theorem agree_of_counted_summed (reachable : s.Reachable) (o : Over)
    (control : Option Literal) (xs : List o.Var) (threshold : Int)
    (hasControl : ∀ c ∈ control, s.domains.Has c) (has : ∀ x ∈ xs, s.domains.Has x) :
    ∃ i t j u, s.addPropagator (counted o control xs threshold) = .ok (i, t) ∧
      s.addPropagator (summed o control xs threshold) = .ok (j, u) ∧
      ∀ moves, (∀ op ∈ moves, Operation.IsMove s.domains op) →
        ∃ answers t' others u', t.run (moves ++ [.propagate]) = .ok (answers, t') ∧
          u.run (moves ++ [.propagate]) = .ok (others, u') ∧ t'.Agree u' := by
  have inOrder := reachable.inOrder
  obtain ⟨⟨i, t⟩, first⟩ :=
    inOrder.returns_addPropagator (fits_counted threshold hasControl has)
  obtain ⟨⟨j, u⟩, second⟩ :=
    inOrder.returns_addPropagator (fits_summed threshold hasControl has)
  refine ⟨i, t, j, u, first, second, ?_⟩
  intro moves each
  have twins := twins_of_added inOrder first second fun e => by rw [asksFor_counted, asksFor_summed]
  have size : t.domains.size = s.domains.size := by
    obtain ⟨-, -, -, -, -, -, domains, -⟩ := addPropagator_cases first
    rw [domains]
  have all : ∀ op ∈ moves ++ [.propagate], op.IsMove t.domains := by
    intro op member
    rcases List.mem_append.1 member with inner | final
    · exact (each op inner).of_size size
    · rw [List.mem_singleton.1 final]
      trivial
  obtain ⟨answers, t', others, u', run, run', -, last⟩ := twins.run all
  exact ⟨answers, t', others, u', run, run', last.cases⟩

/-- The control is one of the literals, another literal occurs with its complement, and the implied
    count is replaced on the way. -/
theorem agree_of_counted_summed_replaced :
    let b : Literal := .positive ⟨0⟩
    let x : Literal := .positive ⟨1⟩
    let y : Literal := .positive ⟨2⟩
    let moves : List (Operation Kind) := [.assign b true, .propagate, .assign y false]
    ∃ s, (State.new .standard).Accepts [.newLiteral, .newLiteral, .newLiteral] s ∧
      ∃ i t j u, s.addPropagator (counted .literals (some b) [b, x, x.complement, x, y] 4) =
          .ok (i, t) ∧
        s.addPropagator (summed .literals (some b) [b, x, x.complement, x, y] 4) = .ok (j, u) ∧
        ∃ answers t' others u', t.run (moves ++ [.propagate]) = .ok (answers, t') ∧
          u.run (moves ++ [.propagate]) = .ok (others, u') ∧ t'.Agree u' := by
  intro b x y moves
  obtain ⟨s, run, exist⟩ := accepts_of_reaches (State.new .standard)
    [.newLiteral, .newLiteral, .newLiteral] (fun s => decide ((∀ c ∈ [b], s.domains.Has c) ∧
      (∀ l ∈ [b, x, x.complement, x, y], s.domains.Has l) ∧
      ∀ op ∈ moves, Operation.IsMove s.domains op)) (by decide +kernel)
  obtain ⟨hasControl, has, each⟩ := of_decide_eq_true exist
  have ⟨_, ran, _⟩ := run
  obtain ⟨i, t, j, u, first, second, alike⟩ :=
    agree_of_counted_summed ⟨.standard, leadsTo_of_run ran⟩ .literals (some b)
      [b, x, x.complement, x, y] 4 (by simpa using hasControl) has
  exact ⟨s, run, i, t, j, u, first, second, alike moves each⟩

section posting
variable {c : AtLeast.Blueprint Literal}

def postCounted (s : State Kind) (control : Option Literal) (c : AtLeast.Blueprint Literal) :
    Checked (State Kind) :=
  match control with
  | none => s.postCount c
  | some b => s.postImpliedCount b c

theorem returns_postCounted {control : Option Literal} (h : s.Intact)
    (hasControl : ∀ b ∈ control, s.domains.Has b) (has : ∀ x ∈ c.vars, s.domains.Has x) :
    Returns (s.postCounted control c) := by
  cases control with
  | none => exact returns_postCount h.sturdy has
  | some b => exact returns_postImpliedCount h.sturdy (hasControl b rfl) has

theorem evolves_postCounted {control : Option Literal} (h : s.postCounted control c = .ok t) :
    s.Evolves t := by
  cases control with
  | none => exact evolves_postCount h
  | some b => exact evolves_postImpliedCount h

theorem gains_postCounted {control : Option Literal} (h : s.postCounted control c = .ok t) :
    s.Gains t (countOf control c).StableAt := by
  cases control with
  | none => exact gains_postCount h
  | some b => exact gains_postImpliedCount h

/-- What is settled when a count is posted agrees, after a propagation, with what the propagator
    that it would have been makes of it. -/
theorem agree_of_posted_counted (reachable : s.Reachable) (o : Over) (control : Option Literal)
    (xs : List o.Var) (threshold : Int) (hasControl : ∀ b ∈ control, s.domains.Has b)
    (has : ∀ x ∈ xs, s.domains.Has x) :
    ∃ t i u, s.postCounted control ⟨xs.map Variable.literal, threshold⟩ = .ok t ∧
      s.addPropagator (counted o control xs threshold) = .ok (i, u) ∧
      ∃ r t' q u', t.propagate = .ok (r, t') ∧ u.propagate = .ok (q, u') ∧ t'.Agree u' := by
  have inOrder := reachable.inOrder
  have hasEach : ∀ l ∈ xs.map Variable.literal, s.domains.Has l := by
    intro l member
    obtain ⟨x, inside, rfl⟩ := List.mem_map.1 member
    exact has x inside
  obtain ⟨t, posted⟩ := returns_postCounted (c := ⟨xs.map Variable.literal, threshold⟩)
    inOrder.intact hasControl hasEach
  obtain ⟨⟨i, u⟩, added⟩ :=
    inOrder.returns_addPropagator (fits_counted threshold hasControl has)
  refine ⟨t, i, u, posted, added, ?_⟩
  have left : t.InOrder := inOrder.of_gains (gains_postCounted posted) (evolves_postCounted posted)
  have right : u.InOrder := inOrder.of_gains (gains_addPropagator added) (.single (.added added))
  have size : t.domains.size = u.domains.size := by
    obtain ⟨-, -, -, -, -, -, domains, -⟩ := addPropagator_cases added
    rw [((evolves_postCounted posted).intact inOrder.intact).2, domains]
  have stable : ∀ e, t.StableAt e ↔ u.StableAt e := by
    intro e
    rw [(gains_postCounted posted inOrder.wellFormed).2, stableAt_addPropagator added,
      asksFor_counted, countOf, WeightedSum.count_alike_literal.stableAt]
  obtain ⟨r, t', q, u', first, second, -, -, twins⟩ :=
    Peers.propagate ⟨left, right, size, stable⟩
  exact ⟨r, t', q, u', first, second, twins.cases⟩

/-- A control that was just made true, and as many variables as have to be true. -/
theorem agree_of_posted_counted_tight :
    let b : Literal := .positive ⟨0⟩
    let xs : List DomainId := [⟨1⟩, ⟨2⟩]
    ∃ s, (State.new .standard).Accepts [.newLiteral, .newLiteral, .newLiteral, .assign b true] s ∧
      ∃ t i u, s.postImpliedCount b ⟨[.positive ⟨1⟩, .positive ⟨2⟩], 2⟩ = .ok t ∧
        s.addPropagator (counted .domains (some b) xs 2) = .ok (i, u) ∧
        ∃ r t' q u', t.propagate = .ok (r, t') ∧ u.propagate = .ok (q, u') ∧ t'.Agree u' := by
  intro b xs
  obtain ⟨s, run, exist⟩ := accepts_of_reaches (State.new .standard)
    [.newLiteral, .newLiteral, .newLiteral, .assign b true]
    (fun s => decide ((∀ c ∈ [b], s.domains.Has c) ∧ ∀ x ∈ xs, s.domains.Has x))
    (by decide +kernel)
  obtain ⟨hasControl, has⟩ := of_decide_eq_true exist
  have ⟨_, ran, _⟩ := run
  exact ⟨s, run, agree_of_posted_counted ⟨.standard, leadsTo_of_run ran⟩ .domains (some b) xs 2
    (by simpa using hasControl) has⟩

end posting

end State
end PseudoBoolean
