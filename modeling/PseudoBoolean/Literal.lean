import PseudoBoolean.Key

/-!
Literals and the events seen through them. A literal is a domain with a polarity: a negated one
reads, fixes and observes the opposite of its domain. `Literal.view` takes a value from the one
side to the other, and is its own inverse.
-/
namespace PseudoBoolean

inductive Event where
  | fixedTrue
  | fixedFalse
deriving DecidableEq, Repr

namespace Event

def ofValue : Bool → Event
  | true => fixedTrue
  | false => fixedFalse

def value : Event → Bool
  | fixedTrue => true
  | fixedFalse => false

def complement : Event → Event
  | fixedTrue => fixedFalse
  | fixedFalse => fixedTrue

instance : ToString Event where
  toString
    | fixedTrue => "[Event::True]"
    | fixedFalse => "[Event::False]"

@[simp] theorem value_ofValue (v : Bool) : (ofValue v).value = v := by cases v <;> rfl

@[simp] theorem ofValue_value (e : Event) : ofValue e.value = e := by cases e <;> rfl

@[simp] theorem value_complement (e : Event) : e.complement.value = !e.value := by cases e <;> rfl

@[simp] theorem complement_complement (e : Event) : e.complement.complement = e := by
  cases e <;> rfl

end Event

structure EventSet where
  onTrue : Bool
  onFalse : Bool
deriving DecidableEq, Repr

namespace EventSet

def empty : EventSet := ⟨false, false⟩

def fixing : EventSet := ⟨true, true⟩

def contains (s : EventSet) : Event → Bool
  | .fixedTrue => s.onTrue
  | .fixedFalse => s.onFalse

def insert (s : EventSet) : Event → EventSet
  | .fixedTrue => { s with onTrue := true }
  | .fixedFalse => { s with onFalse := true }

def erase (s : EventSet) : Event → EventSet
  | .fixedTrue => { s with onTrue := false }
  | .fixedFalse => { s with onFalse := false }

def complement (s : EventSet) : EventSet := ⟨s.onFalse, s.onTrue⟩

@[simp] theorem contains_empty (e : Event) : empty.contains e = false := by cases e <;> rfl

@[simp] theorem contains_fixing (e : Event) : fixing.contains e = true := by cases e <;> rfl

theorem contains_insert (s : EventSet) (e f : Event) :
    (s.insert e).contains f = (decide (f = e) || s.contains f) := by
  cases e <;> cases f <;> simp [insert, contains]

theorem contains_erase (s : EventSet) (e f : Event) :
    (s.erase e).contains f = (!decide (f = e) && s.contains f) := by
  cases e <;> cases f <;> simp [erase, contains]

theorem contains_complement (s : EventSet) (e : Event) :
    s.complement.contains e = s.contains e.complement := by cases e <;> rfl

end EventSet

structure Literal where
  domain : DomainId
  negated : Bool
deriving DecidableEq, Repr

namespace Literal

def positive (d : DomainId) : Literal := ⟨d, false⟩

def complement (l : Literal) : Literal := ⟨l.domain, !l.negated⟩

/-- The literal's value for a value of its domain, and back. -/
def view (l : Literal) (v : Bool) : Bool := v != l.negated

def observe (l : Literal) (e : Event) : Event := if l.negated then e.complement else e

def domainEvents (l : Literal) (s : EventSet) : EventSet := if l.negated then s.complement else s

instance : ToString Literal := ⟨fun l => (if l.negated then "!" else "") ++ toString l.domain⟩

@[simp] theorem complement_complement (l : Literal) : l.complement.complement = l := by
  simp [complement]

@[simp] theorem view_view (l : Literal) (v : Bool) : l.view (l.view v) = v := by
  cases v <;> cases h : l.negated <;> simp [view, h]

theorem view_inj {l : Literal} {v w : Bool} : l.view v = l.view w ↔ v = w := by
  cases v <;> cases w <;> cases h : l.negated <;> simp [view, h]

@[simp] theorem view_positive (d : DomainId) (v : Bool) : (positive d).view v = v := by
  cases v <;> rfl

theorem view_complement (l : Literal) (v : Bool) : l.complement.view v = !l.view v := by
  cases v <;> cases h : l.negated <;> simp [view, complement, h]

theorem view_not (l : Literal) (v : Bool) : l.view (!v) = !l.view v := by simp [view]

theorem value_observe (l : Literal) (e : Event) : (l.observe e).value = l.view e.value := by
  cases e <;> cases h : l.negated <;> simp [observe, view, Event.value, Event.complement, h]

theorem contains_domainEvents (l : Literal) (s : EventSet) (e : Event) :
    (l.domainEvents s).contains e = s.contains (l.observe e) := by
  unfold domainEvents observe
  split
  · exact EventSet.contains_complement s e
  · rfl

end Literal

/-- Something that stands for a truth value by way of one literal. -/
class Variable (ν : Type) where
  literal : ν → Literal

instance : Variable Literal := ⟨id⟩

instance : Variable DomainId := ⟨Literal.positive⟩

@[simp] theorem variable_literal (l : Literal) : Variable.literal l = l := rfl

@[simp] theorem variable_domain (d : DomainId) : Variable.literal d = Literal.positive d := rfl

end PseudoBoolean
