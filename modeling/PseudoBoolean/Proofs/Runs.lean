import PseudoBoolean.Proofs.Posting
import PseudoBoolean.Run

/-!
What a run adds to a state. Every operation asks for something, and a run in which no constraint is
refused leads to a state whose stable points are those at the start that have all of it.
-/
namespace PseudoBoolean

def Answer.isRefusal : Answer → Bool
  | .posted (.error _) => true
  | _ => false

theorem WeightedSum.count_stableAt_ofTotal {ν : Type} [Variable ν] {control : Option Literal}
    {xs : List ν} {threshold : Int} {v : Valuation} :
    (count control xs threshold).StableAt (PartialValuation.ofTotal v) ↔
      ((∀ c ∈ control, v.eval c = true) → threshold ≤ v.numTrue xs) := by
  rw [stableAt_ofTotal]
  simp only [count, Valuation.sum_ones]
  rfl

namespace Operation
open Standard PartialValuation

def isPropagate : Operation Kind → Bool
  | propagate => true
  | _ => false

def SatisfiedBy (v : Valuation) : Operation Kind → Prop
  | assign l b => v.eval l = b
  | post c => c.SatisfiedBy v
  | imply control c => v.eval control = true → c.SatisfiedBy v
  | reify control c => v.eval control = true ↔ c.SatisfiedBy v
  | postAll cs => ∀ c ∈ cs, c.SatisfiedBy v
  | implyAll control cs => v.eval control = true → ∀ c ∈ cs, c.SatisfiedBy v
  | addPropagator b => Standard.SatisfiedBy v b
  | newLiteral | value _ | propagate | giveUp => True

/-- What an operation asks of a stable point. -/
def AsksFor : Operation Kind → PartialValuation → Prop
  | assign l b, e => e.read l = some b
  | post c, e => (c.asSum none).StableAt e
  | imply control c, e => (c.asSum (some control)).StableAt e
  | reify control c, e => State.reifiedStableAt control c e
  | postAll cs, e => ∀ c ∈ cs, (c.asSum none).StableAt e
  | implyAll control cs, e => ∀ c ∈ cs, (c.asSum (some control)).StableAt e
  | addPropagator b, e => Semantics.AsksFor b e
  | newLiteral, _ | value _, _ | propagate, _ | giveUp, _ => True

theorem blueprint_asksFor_ofTotal (b : AnyBlueprint Kind) (v : Valuation) :
    Semantics.AsksFor b (ofTotal v) ↔ Standard.SatisfiedBy v b := by
  obtain ⟨kind, b⟩ := b
  cases kind with
  | atLeast o =>
    apply WeightedSum.count_stableAt_ofTotal.trans
    simp [Standard.SatisfiedBy, AtLeast.Blueprint.SatisfiedBy]
  | impliedAtLeast o =>
    apply WeightedSum.count_stableAt_ofTotal.trans
    simp [Standard.SatisfiedBy, ImpliedAtLeast.Blueprint.SatisfiedBy]
  | weightedSum o =>
    apply WeightedSum.stableAt_ofTotal.trans
    simp only [WeightedSum.Blueprint.asSum, Relation.holds_nonStrict]
    rfl

theorem asksFor_ofTotal (op : Operation Kind) (v : Valuation) :
    op.AsksFor (ofTotal v) ↔ op.SatisfiedBy v := by
  cases op with
  | assign l b => simp [AsksFor, SatisfiedBy]
  | post c => simp [AsksFor, SatisfiedBy, LinearConstraint.asSum_stableAt_ofTotal]
  | imply control c => simp [AsksFor, SatisfiedBy, LinearConstraint.asSum_stableAt_ofTotal]
  | reify control c =>
    simp only [AsksFor, SatisfiedBy, State.reifiedStableAt,
      LinearConstraint.asSum_stableAt_ofTotal, LinearConstraint.satisfiedBy_negation]
    cases value : v.eval control <;> simp [value]
  | postAll cs => simp [AsksFor, SatisfiedBy, LinearConstraint.asSum_stableAt_ofTotal]
  | implyAll control cs =>
    simp only [AsksFor, SatisfiedBy, LinearConstraint.asSum_stableAt_ofTotal]
    simp
    tauto
  | addPropagator b => exact blueprint_asksFor_ofTotal b v
  | newLiteral | value | propagate | giveUp => exact Iff.rfl

theorem asksFor_without_propagate {ops : List (Operation Kind)} {e : PartialValuation} :
    (∀ op ∈ ops.filter (!·.isPropagate), op.AsksFor e) ↔ ∀ op ∈ ops, op.AsksFor e := by
  constructor
  · intro asked op member
    cases kind : op.isPropagate with
    | false => exact asked op (List.mem_filter.2 ⟨member, by simp [kind]⟩)
    | true =>
      cases op with
      | propagate => trivial
      | _ => cases kind
  · intro asked op member
    exact asked op (List.mem_filter.1 member).1

end Operation

namespace State
open Standard PartialValuation
variable {s t u : State Kind} {op : Operation Kind} {ops rest : List (Operation Kind)}

theorem gains_apply {a : Answer} (h : op.apply s = .ok (a, t)) :
    (∃ Q, s.Gains t Q) ∧ (a.isRefusal = false → s.Gains t op.AsksFor) := by
  have always : ∀ {t P}, s.Gains t P → (∃ Q, s.Gains t Q) ∧ (a.isRefusal = false → s.Gains t P) :=
    fun gained => ⟨⟨_, gained⟩, fun _ => gained⟩
  have posted : ∀ {t r P}, s.Responds t r P →
      (∃ Q, s.Gains t Q) ∧ ((Answer.posted r).isRefusal = false → s.Gains t P) := by
    intro t r P responds
    refine ⟨responds.some_gain, fun kept => responds.accepted ?_⟩
    cases r with
    | error e => cases kept
    | ok _ => rfl
  cases op with
  | newLiteral =>
    obtain ⟨-, rfl⟩ := pure_pair_eq_ok_iff.1 h
    exact always (gains_newLiteral s)
  | value l =>
    obtain ⟨b, -, h⟩ := bind_eq_ok_iff.1 h
    obtain ⟨-, rfl⟩ := pure_pair_eq_ok_iff.1 h
    exact always (gains_refl s)
  | giveUp =>
    obtain ⟨-, rfl⟩ := pure_pair_eq_ok_iff.1 h
    exact always (gains_remark s _)
  | assign l b =>
    obtain ⟨r, done, rfl⟩ := Operation.answered_eq_ok h
    exact always (gains_assign done)
  | propagate =>
    obtain ⟨r, done, rfl⟩ := Operation.answered_eq_ok h
    exact always (gains_propagate done)
  | addPropagator b =>
    obtain ⟨r, done, rfl⟩ := Operation.answered_eq_ok h
    exact always (gains_addPropagator done)
  | post c =>
    obtain ⟨r, done, rfl⟩ := Operation.answered_eq_ok h
    exact posted (responds_post done)
  | imply control c =>
    obtain ⟨r, done, rfl⟩ := Operation.answered_eq_ok h
    exact posted (responds_imply done)
  | reify control c =>
    obtain ⟨r, done, rfl⟩ := Operation.answered_eq_ok h
    exact posted (responds_reify done)
  | postAll cs =>
    obtain ⟨r, done, rfl⟩ := Operation.answered_eq_ok h
    exact posted (responds_postAll done)
  | implyAll control cs =>
    obtain ⟨r, done, rfl⟩ := Operation.answered_eq_ok h
    exact posted (responds_implyAll done)

theorem wellFormed_new (limits : Limits) : (State.new (κ := Kind) limits).WellFormed :=
  fun _ => coherent_new limits

theorem wellFormed_of_leadsTo (h : LeadsTo s t) (wf : s.WellFormed) : t.WellFormed := by
  induction h with
  | refl => exact wf
  | step first _ ih =>
    obtain ⟨Q, gained⟩ := (gains_apply first).1
    exact ih (gained wf).1

theorem Reachable.wellFormed (h : s.Reachable) : s.WellFormed := by
  obtain ⟨limits, run⟩ := h
  exact wellFormed_of_leadsTo run (wellFormed_new limits)

/-- A run from `s` to `t` in which no constraint is refused. -/
def Accepts (s : State Kind) (ops : List (Operation Kind)) (t : State Kind) : Prop :=
  ∃ answers, s.run ops = .ok (answers, t) ∧ ∀ a ∈ answers, a.isRefusal = false

theorem accepts_nil_iff : s.Accepts [] t ↔ s = t := by
  constructor
  · intro ⟨answers, run, _⟩
    exact (pure_pair_eq_ok_iff.1 run).2
  · intro same
    exact ⟨[], congrArg (fun t => Except.ok ([], t)) same, by simp⟩

theorem accepts_cons_iff : s.Accepts (op :: rest) t ↔
    ∃ a u, op.apply s = .ok (a, u) ∧ a.isRefusal = false ∧ u.Accepts rest t := by
  constructor
  · intro ⟨answers, run, accepted⟩
    obtain ⟨⟨a, u⟩, first, run⟩ := bind_eq_ok_iff.1 run
    obtain ⟨⟨others, w⟩, later, run⟩ := bind_eq_ok_iff.1 run
    obtain ⟨rfl, rfl⟩ := pure_pair_eq_ok_iff.1 run
    exact ⟨a, u, first, accepted a List.mem_cons_self, others, later,
      fun b member => accepted b (List.mem_cons_of_mem a member)⟩
  · intro ⟨a, u, first, kept, others, later, accepted⟩
    refine ⟨a :: others, ?_, ?_⟩
    · simp [run, first, later, bind, Except.bind, pure, Except.pure]
    · intro b member
      rcases List.mem_cons.1 member with rfl | inner
      · exact kept
      · exact accepted b inner

theorem accepts_append_iff :
    s.Accepts (ops ++ rest) t ↔ ∃ u, s.Accepts ops u ∧ u.Accepts rest t := by
  induction ops generalizing s with
  | nil => simp [accepts_nil_iff]
  | cons op others ih =>
    simp only [List.cons_append, accepts_cons_iff, ih]
    constructor
    · intro ⟨a, w, first, kept, u, later, last⟩
      exact ⟨u, ⟨a, w, first, kept, later⟩, last⟩
    · intro ⟨u, ⟨a, w, first, kept, later⟩, last⟩
      exact ⟨a, w, first, kept, u, later, last⟩

theorem accepts_propagate_iff :
    s.Accepts [.propagate] t ↔ ∃ r, s.propagate = .ok (r, t) := by
  rw [accepts_cons_iff]
  constructor
  · intro ⟨a, u, first, _, last⟩
    obtain ⟨r, done, -⟩ := Operation.answered_eq_ok first
    exact ⟨r, accepts_nil_iff.1 last ▸ done⟩
  · intro ⟨r, done⟩
    refine ⟨.outcome r, t, ?_, rfl, accepts_nil_iff.2 rfl⟩
    exact bind_eq_ok_iff.2 ⟨(r, t), done, rfl⟩

theorem imply_of_accepts {b : Literal} {c : LinearConstraint} (h : s.Accepts [.imply b c] t) :
    s.imply b c = .ok (.ok (), t) := by
  obtain ⟨a, u, first, kept, last⟩ := accepts_cons_iff.1 h
  obtain rfl := accepts_nil_iff.1 last
  obtain ⟨r, done, rfl⟩ := Operation.answered_eq_ok first
  cases r with
  | error e => cases kept
  | ok _ => exact done

/-- The stable points at the end of a run are those at the start that have what was asked for. -/
theorem gains_run (h : s.Accepts ops t) : s.Gains t fun e => ∀ op ∈ ops, op.AsksFor e := by
  induction ops generalizing s with
  | nil =>
    rw [← accepts_nil_iff.1 h]
    exact (gains_refl s).congr fun e _ => by simp
  | cons op rest ih =>
    obtain ⟨a, u, first, kept, later⟩ := accepts_cons_iff.1 h
    have gained := (gains_apply first).2 kept
    exact (gained.trans (ih later)).congr fun e _ => by simp

/-- Evaluates a run: no constraint is refused, and the last state passes a check. -/
def reaches (s : State Kind) (ops : List (Operation Kind)) (check : State Kind → Bool) : Bool :=
  match s.run ops with
  | .ok (answers, t) => answers.all (!·.isRefusal) && check t
  | .error _ => false

theorem accepts_of_reaches (s : State Kind) (ops : List (Operation Kind))
    (check : State Kind → Bool) (h : s.reaches ops check = true) :
    ∃ t, s.Accepts ops t ∧ check t = true := by
  unfold reaches at h
  cases run : s.run ops with
  | error e =>
    rw [run] at h
    cases h
  | ok result =>
    obtain ⟨answers, t⟩ := result
    rw [run] at h
    obtain ⟨accepted, passed⟩ := (Bool.and_eq_true _ _).mp h
    refine ⟨t, ⟨answers, run, ?_⟩, passed⟩
    intro a member
    simpa using List.all_eq_true.1 accepted a member

def settles (s : State Kind) (check : State Kind → Bool) : Bool :=
  match s.propagate with
  | .ok (.ok (), t) => check t
  | _ => false

theorem propagate_of_settles (s : State Kind) (check : State Kind → Bool)
    (h : s.settles check = true) : ∃ t, s.propagate = .ok (.ok (), t) ∧ check t = true := by
  unfold settles at h
  split at h
  · next t propagated => exact ⟨t, propagated, h⟩
  · cases h

end State
end PseudoBoolean
