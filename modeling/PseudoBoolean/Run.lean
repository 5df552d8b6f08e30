import PseudoBoolean.Constraint.Posting
import PseudoBoolean.State.Fixpoint

/-!
Runs. An operation is one use of a state by a search; a run is a list of operations, each applied
to the state that the one before it left.
-/
namespace PseudoBoolean

inductive Operation (κ : Type) [PropagatorKinds κ] where
  | newLiteral
  | value (l : Literal)
  | assign (l : Literal) (v : Bool)
  | propagate
  | post (c : LinearConstraint)
  | imply (control : Literal) (c : LinearConstraint)
  | reify (control : Literal) (c : LinearConstraint)
  | postAll (cs : List LinearConstraint)
  | implyAll (control : Literal) (cs : List LinearConstraint)
  | giveUp
  | addPropagator (b : AnyBlueprint κ)

inductive Answer where
  | literal (l : Literal)
  | value (v : Option Bool)
  | outcome (o : Except Inconsistency Unit)
  | posted (o : Except ConstraintError Unit)
  | added (id : PropagatorId)
  | done
deriving Repr

variable {κ : Type} [PropagatorKinds κ] [HoldsStandard κ]

def Operation.apply (s : State κ) : Operation κ → Checked (Answer × State κ)
  | newLiteral => return (.literal s.newLiteral.1, s.newLiteral.2)
  | value l => return (.value (← s.value l), s)
  | assign l v => answered .outcome (s.assign l v)
  | propagate => answered .outcome s.propagate
  | post c => answered .posted (s.post c)
  | imply control c => answered .posted (s.imply control c)
  | reify control c => answered .posted (s.reify control c)
  | postAll cs => answered .posted (s.postAll cs)
  | implyAll control cs => answered .posted (s.implyAll control cs)
  | giveUp => return (.done, s.giveUp)
  | addPropagator b => answered .added (s.addPropagator b)
where
  answered {α : Type} (answer : α → Answer) (r : Checked (α × State κ)) :
      Checked (Answer × State κ) := do
    let (a, s) ← r
    return (answer a, s)

def State.run (s : State κ) : List (Operation κ) → Checked (List Answer × State κ)
  | [] => return ([], s)
  | op :: rest => do
    let (answer, s) ← op.apply s
    let (answers, s) ← s.run rest
    return (answer :: answers, s)

inductive State.LeadsTo : State κ → State κ → Prop where
  | refl (s : State κ) : LeadsTo s s
  | step {s t u : State κ} {op : Operation κ} {a : Answer} :
      op.apply s = .ok (a, t) → LeadsTo t u → LeadsTo s u

/-- A state that a search can be in. -/
def State.Reachable (s : State κ) : Prop := ∃ limits, LeadsTo (State.new limits) s

theorem State.LeadsTo.trans {s t u : State κ} (h : LeadsTo s t) (k : LeadsTo t u) :
    LeadsTo s u := by
  induction h with
  | refl => exact k
  | step first _ ih => exact .step first (ih k)

omit [HoldsStandard κ] in
theorem Operation.answered_eq_ok {α : Type} {answer : α → Answer} {r : Checked (α × State κ)}
    {a : Answer} {t : State κ} (h : apply.answered answer r = .ok (a, t)) :
    ∃ b, r = .ok (b, t) ∧ a = answer b := by
  obtain ⟨⟨b, u⟩, done, h⟩ := bind_eq_ok_iff.1 h
  obtain ⟨rfl, rfl⟩ := pure_pair_eq_ok_iff.1 h
  exact ⟨b, done, rfl⟩

theorem State.leadsTo_of_run {s t : State κ} {ops : List (Operation κ)} {answers : List Answer}
    (h : s.run ops = .ok (answers, t)) : LeadsTo s t := by
  induction ops generalizing s answers with
  | nil =>
    obtain ⟨-, rfl⟩ := pure_pair_eq_ok_iff.1 h
    exact .refl s
  | cons op rest ih =>
    obtain ⟨⟨a, u⟩, first, h⟩ := bind_eq_ok_iff.1 h
    obtain ⟨⟨others, w⟩, later, h⟩ := bind_eq_ok_iff.1 h
    obtain ⟨-, rfl⟩ := pure_pair_eq_ok_iff.1 h
    exact .step first (ih later)

end PseudoBoolean
