import PseudoBoolean.Domains

/-!
What a propagator may do while it runs. A `Propagation` reads and fixes variables and nothing
else: with its `run` function it carries the proof that the store it leaves is one that fixing
domains leads to. An `Attempt` may also stop on an inconsistency, keeping what it had fixed.
-/
namespace PseudoBoolean

inductive Inconsistency where
  /-- A variable was to get the opposite of its value. -/
  | emptyDomain
  /-- A propagator found its constraint violated. -/
  | conflict (propagator : PropagatorId)
  /-- A constraint could not be satisfied when it was posted. -/
  | infeasibleConstraint
deriving DecidableEq, Repr

instance : ToString Inconsistency where
  toString
    | .emptyDomain => "EmptyDomain"
    | .conflict p => "Conflict(" ++ toString p ++ ")"
    | .infeasibleConstraint => "InfeasibleConstraint"

structure Propagation (α : Type) where
  run : Domains → Checked (α × Domains)
  leadsTo : ∀ {s t : Domains} {a : α}, run s = .ok (a, t) → s.LeadsTo t

namespace Propagation
variable {α β : Type}

@[ext] theorem ext {x y : Propagation α} (h : ∀ s, x.run s = y.run s) : x = y := by
  obtain ⟨f, _⟩ := x
  obtain ⟨g, _⟩ := y
  obtain rfl : f = g := funext h
  rfl

protected def pure (a : α) : Propagation α where
  run s := .ok (a, s)
  leadsTo h := by
    cases h
    exact .refl _

protected def bind (x : Propagation α) (f : α → Propagation β) : Propagation β where
  run s :=
    match x.run s with
    | .ok (a, t) => (f a).run t
    | .error fault => .error fault
  leadsTo h := by
    split at h
    · next first => exact (x.leadsTo first).trans ((f _).leadsTo h)
    · cases h

instance : Monad Propagation where
  pure := Propagation.pure
  bind := Propagation.bind

@[simp] theorem run_pure (a : α) (s : Domains) : (pure a : Propagation α).run s = .ok (a, s) := rfl

theorem run_bind (x : Propagation α) (f : α → Propagation β) (s : Domains) :
    (x >>= f).run s =
      match x.run s with
      | .ok (a, t) => (f a).run t
      | .error fault => .error fault := rfl

theorem bind_pure_id (x : Propagation α) : (x >>= fun a => pure (id a)) = x := by
  ext s
  rw [run_bind]
  rcases x.run s with _ | ⟨_, _⟩ <;> rfl

theorem bind_bind {γ : Type} (x : Propagation α) (f : α → Propagation β)
    (g : β → Propagation γ) : x >>= f >>= g = x >>= fun a => f a >>= g := by
  ext s
  simp only [run_bind]
  rcases x.run s with _ | ⟨_, _⟩ <;> rfl

instance : LawfulMonad Propagation :=
  LawfulMonad.mk' Propagation bind_pure_id (fun _ _ => rfl) bind_bind

def read {ν : Type} [Variable ν] (x : ν) : Propagation (Option Bool) where
  run s := (s.read x).map (·, s)
  leadsTo {s t a} h := by
    cases hr : s.read x with
    | error _ => simp [hr, Except.map] at h
    | ok b =>
      obtain rfl : s = t := by simpa [hr, Except.map] using congrArg (Except.map Prod.snd) h
      exact .refl s

def fix {ν : Type} [Variable ν] (x : ν) (v : Bool) : Propagation Fixing where
  run s := s.fixVariable x v
  leadsTo h := .of_fix h

@[simp] theorem run_read {ν : Type} [Variable ν] (x : ν) (s : Domains) :
    (read x).run s = (s.read x).map (·, s) := rfl

@[simp] theorem run_fix {ν : Type} [Variable ν] (x : ν) (v : Bool) (s : Domains) :
    (fix x v).run s = s.fixVariable x v := rfl

end Propagation

abbrev Attempt := ExceptT Inconsistency Propagation

namespace Attempt
variable {α : Type} {ν : Type} [Variable ν]

def read (x : ν) : Attempt (Option Bool) := ExceptT.lift (Propagation.read x)

def require (x : ν) (v : Bool) : Attempt Unit := do
  match ← ExceptT.lift (Propagation.fix x v) with
  | .changed | .unchanged => return
  | .contradicted => throw .emptyDomain

def requireAll (xs : List ν) (v : Bool) : Attempt Unit :=
  match xs with
  | [] => return
  | x :: rest => do
    require x v
    requireAll rest v

/-- An attempt that produces the next state of something; when it stops, `m` stays. -/
def keeping {μ : Type} (m : μ) (x : Attempt (μ × α)) :
    Propagation (μ × Except Inconsistency α) := do
  match ← x.run with
  | .ok (next, a) => return (next, .ok a)
  | .error i => return (m, .error i)

def exec (x : Attempt α) (s : Domains) : Checked (Except Inconsistency α × Domains) :=
  (ExceptT.run x).run s

@[simp] theorem exec_pure (a : α) (s : Domains) : exec (pure a) s = .ok (.ok a, s) := rfl

@[simp] theorem exec_throw (i : Inconsistency) (s : Domains) :
    exec (throw i : Attempt α) s = .ok (.error i, s) := rfl

theorem exec_bind {β : Type} (x : Attempt α) (f : α → Attempt β) (s : Domains) :
    exec (x >>= f) s =
      match exec x s with
      | .ok (.ok a, t) => exec (f a) t
      | .ok (.error i, t) => .ok (.error i, t)
      | .error fault => .error fault := by
  unfold exec
  rw [ExceptT.run_bind, Propagation.run_bind]
  rcases (ExceptT.run x).run s with _ | ⟨_ | _, _⟩ <;> rfl

theorem exec_read (x : ν) (s : Domains) :
    exec (read x) s = (s.read x).map fun value => (.ok value, s) := by
  unfold exec read
  rw [ExceptT.run_lift, map_eq_pure_bind, Propagation.run_bind, Propagation.run_read]
  cases s.read x <;> rfl

theorem exec_require {x : ν} {v : Bool} {s t : Domains} {fixing : Fixing}
    (h : s.fixVariable x v = .ok (fixing, t)) :
    exec (require x v) s =
      .ok (if fixing = .contradicted then .error .emptyDomain else .ok (), t) := by
  have lifted : exec (ExceptT.lift (Propagation.fix x v) : Attempt Fixing) s =
      .ok (.ok fixing, t) := by
    unfold exec
    rw [ExceptT.run_lift, map_eq_pure_bind, Propagation.run_bind, Propagation.run_fix, h]
    rfl
  rw [require, exec_bind, lifted]
  cases fixing <;> rfl

theorem leadsTo_of_exec {x : Attempt α} {s t : Domains} {r : Except Inconsistency α}
    (h : exec x s = .ok (r, t)) : s.LeadsTo t := (ExceptT.run x).leadsTo h

end Attempt
end PseudoBoolean
