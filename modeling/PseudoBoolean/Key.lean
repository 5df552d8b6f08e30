/-!
Identifiers. Domains, propagators and the variables of one propagator are numbered from 0 in
the order in which they are made, and the number is the position in the tables indexed by them.
-/
namespace PseudoBoolean

class Key (κ : Type) where
  index : κ → Nat
  ofIndex : Nat → κ

def idRange : Nat := 4294967296

structure DomainId where
  index : Nat
deriving DecidableEq, Repr

structure LocalId where
  index : Nat
deriving DecidableEq, Repr

structure PropagatorId where
  index : Nat
deriving DecidableEq, Repr

-- an identifier made from a position keeps its low 32 bits
instance : Key DomainId := ⟨DomainId.index, fun i => ⟨i % idRange⟩⟩

instance : Key LocalId := ⟨LocalId.index, fun i => ⟨i % idRange⟩⟩

instance : Key PropagatorId := ⟨PropagatorId.index, fun i => ⟨i % idRange⟩⟩

instance : Key Nat := ⟨id, id⟩

instance : ToString DomainId := ⟨fun d => "x" ++ toString d.index⟩

instance : ToString LocalId := ⟨fun l => toString l.index⟩

instance : ToString PropagatorId := ⟨fun p => "PropagatorId(" ++ toString p.index ++ ")"⟩

instance : Ord DomainId := ⟨fun d e => compare d.index e.index⟩

@[simp] theorem key_index_domain (d : DomainId) : Key.index d = d.index := rfl

@[simp] theorem key_index_local (l : LocalId) : Key.index l = l.index := rfl

@[simp] theorem key_index_propagator (p : PropagatorId) : Key.index p = p.index := rfl

theorem DomainId.index_inj {c d : DomainId} : Key.index c = Key.index d ↔ c = d :=
  ⟨fun h => congrArg DomainId.mk h, fun h => congrArg DomainId.index h⟩

theorem LocalId.index_inj {k l : LocalId} : Key.index k = Key.index l ↔ k = l :=
  ⟨fun h => congrArg LocalId.mk h, fun h => congrArg LocalId.index h⟩

theorem PropagatorId.index_inj {p q : PropagatorId} : Key.index p = Key.index q ↔ p = q :=
  ⟨fun h => congrArg PropagatorId.mk h, fun h => congrArg PropagatorId.index h⟩

theorem DomainId.index_ofIndex {i : Nat} (h : i < idRange) :
    (Key.ofIndex i : DomainId).index = i := Nat.mod_eq_of_lt h

end PseudoBoolean
