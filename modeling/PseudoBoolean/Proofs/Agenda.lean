import PseudoBoolean.Agenda

/-!
The agenda forgets nobody. Whoever is queued waits in some lane, and a lane in which somebody waits
is listed in `present`; so an agenda from which nothing can be popped has nobody queued.
-/
namespace PseudoBoolean
namespace Agenda

structure WellFormed (a : Agenda) : Prop where
  listed : ∀ p, p ∈ a.present ↔ a.lane p ≠ []
  ascending : a.present.Pairwise fun p q => p.code < q.code
  waits : ∀ {id}, a.contains id = true → ∃ p, id ∈ a.lane p

theorem mem_insertPriority {p q : Priority} {l : List Priority} :
    q ∈ insertPriority p l ↔ q = p ∨ q ∈ l := by
  induction l with
  | nil => simp [insertPriority]
  | cons r rest ih =>
    unfold insertPriority
    split
    · simp
    · simp only [List.mem_cons, ih]
      exact or_left_comm

theorem ascending_insertPriority {p : Priority} {l : List Priority} (new : p ∉ l)
    (h : l.Pairwise fun p q => p.code < q.code) :
    (insertPriority p l).Pairwise fun p q => p.code < q.code := by
  induction l with
  | nil => exact List.pairwise_singleton _ p
  | cons r rest ih =>
    have ⟨first, later⟩ := List.pairwise_cons.1 h
    have apart : p.code ≠ r.code := fun same =>
      new (List.mem_cons.2 (Or.inl (Priority.code_injective same)))
    unfold insertPriority
    split
    · next before =>
      have strict : p.code < r.code := by omega
      refine List.pairwise_cons.2 ⟨?_, h⟩
      intro q member
      rcases List.mem_cons.1 member with rfl | inner
      · exact strict
      · have := first q inner
        omega
    · refine List.pairwise_cons.2 ⟨?_, ih (fun inner => new (List.mem_cons_of_mem r inner)) later⟩
      intro q member
      rcases mem_insertPriority.1 member with rfl | inner
      · omega
      · exact first q inner

theorem wellFormed_empty : ({} : Agenda).WellFormed := by
  constructor
  · intro p
    cases p <;> simp [lane, Priority.code]
  · exact List.Pairwise.nil
  · intro id queued
    simp [contains, Table.get?] at queued

theorem wellFormed_clear (a : Agenda) : a.clear.WellFormed := by
  constructor
  · intro p
    rw [lane_clear]
    simp [clear]
  · exact List.Pairwise.nil
  · intro id queued
    rw [contains_clear] at queued
    cases queued

theorem lane_set (a : Agenda) (p q : Priority) (l : List PropagatorId)
    {isQueued : Table PropagatorId Bool} {n : Nat} {present : List Priority} :
    lane { lanes := a.lanes.set p.code l p.code.isLt, isQueued, numQueued := n, present } q =
      if q = p then l else a.lane q := by
  have same : (p.code : Nat) = q.code ↔ q = p :=
    ⟨fun e => (Priority.code_injective (Fin.ext e)).symm, fun e => by rw [e]⟩
  unfold lane
  simp only [Fin.getElem_fin, Vector.getElem_set, same]

theorem enqueue_cases {a b : Agenda} {id : PropagatorId} {p : Priority}
    (h : a.enqueue id p = .ok b) :
    (a.contains id = true ∧ b = a) ∨
      (a.contains id = false ∧
        (∀ q, b.lane q = if q = p then a.lane p ++ [id] else a.lane q) ∧
        (∀ j, b.contains j = (decide (j = id) || a.contains j)) ∧
        b.present = if (a.lane p).isEmpty then insertPriority p a.present else a.present) := by
  cases queued : a.contains id with
  | true =>
    rw [enqueue_of_contains queued] at h
    cases h
    exact Or.inl ⟨rfl, rfl⟩
  | false =>
    unfold enqueue at h
    rw [if_neg (by simp [queued])] at h
    obtain ⟨isQueued, marked, h⟩ := bind_eq_ok_iff.1 h
    rw [← pure_eq_ok_iff.1 h]
    refine Or.inr ⟨rfl, fun q => lane_set a p q _, ?_, rfl⟩
    intro j
    have extended : ((a.isQueued.extendTo id false).get? j).getD false = a.contains j := by
      rw [Table.get?_extendTo]
      split
      · rfl
      · next outside =>
        have absent : a.isQueued.get? j = none :=
          (Table.get?_eq_none_iff _ _).2 (Nat.le_of_not_lt outside)
        rw [contains, absent]
        split <;> rfl
    simp only [contains, Table.get?_of_set marked, PropagatorId.index_inj]
    by_cases same : j = id
    · simp [same]
    · rw [if_neg same, extended]
      simp [same, contains]

theorem contains_enqueue {a b : Agenda} {id : PropagatorId} {p : Priority}
    (h : a.enqueue id p = .ok b) (j : PropagatorId) :
    b.contains j = (decide (j = id) || a.contains j) := by
  rcases enqueue_cases h with ⟨queued, rfl⟩ | ⟨-, -, contained, -⟩
  · by_cases same : j = id
    · simp [same, queued]
    · simp [same]
  · exact contained j

theorem WellFormed.enqueue {a b : Agenda} {id : PropagatorId} {p : Priority} (wf : a.WellFormed)
    (h : a.enqueue id p = .ok b) : b.WellFormed := by
  rcases enqueue_cases h with ⟨-, rfl⟩ | ⟨-, lanes, contained, present⟩
  · exact wf
  have opened : ∀ q, q ∈ b.present ↔ q = p ∨ q ∈ a.present := by
    intro q
    rw [present]
    split
    · exact mem_insertPriority
    · next open_ =>
      constructor
      · exact Or.inr
      · rintro (rfl | old)
        · exact (wf.listed q).2 (by simpa using open_)
        · exact old
  constructor
  · intro q
    rw [opened, lanes]
    by_cases same : q = p
    · simp [same]
    · simp [same, wf.listed]
  · rw [present]
    split
    · next closed =>
      apply ascending_insertPriority _ wf.ascending
      intro member
      exact (wf.listed p).1 member (by simpa using closed)
    · exact wf.ascending
  · intro j queued
    rw [contained, Bool.or_eq_true, decide_eq_true_eq] at queued
    rcases queued with rfl | old
    · refine ⟨p, ?_⟩
      rw [lanes, if_pos rfl]
      simp
    · obtain ⟨q, member⟩ := wf.waits old
      refine ⟨q, ?_⟩
      rw [lanes]
      split
      · next same => exact List.mem_append_left _ (same ▸ member)
      · exact member

theorem pop_none {a b : Agenda} (wf : a.WellFormed) (h : a.pop = .ok (none, b)) :
    b = a ∧ ∀ id, a.contains id = false := by
  have nobody : a.present = [] := by
    cases present : a.present with
    | nil => rfl
    | cons p later =>
      unfold pop at h
      rw [present] at h
      dsimp only at h
      cases waiting : a.lane p with
      | nil => exact absurd waiting ((wf.listed p).1 (present ▸ List.mem_cons_self))
      | cons id rest =>
        rw [waiting] at h
        obtain ⟨isQueued, -, h⟩ := bind_eq_ok_iff.1 h
        obtain ⟨numQueued, -, h⟩ := bind_eq_ok_iff.1 h
        cases pure_eq_ok_iff.1 h
  constructor
  · unfold pop at h
    rw [nobody] at h
    exact (pure_pair_eq_ok_iff.1 h).2.symm
  · intro id
    cases queued : a.contains id with
    | false => rfl
    | true =>
      obtain ⟨p, member⟩ := wf.waits queued
      have listed := (wf.listed p).2 (List.ne_nil_of_mem member)
      rw [nobody] at listed
      cases listed

theorem pop_some {a b : Agenda} {id : PropagatorId} (h : a.pop = .ok (some id, b)) :
    ∃ p later rest, a.present = p :: later ∧ a.lane p = id :: rest ∧
      (∀ q, b.lane q = if q = p then rest else a.lane q) ∧
      (∀ j, b.contains j = (!decide (j = id) && a.contains j)) ∧
      b.present = if rest.isEmpty then later else p :: later := by
  unfold pop at h
  cases present : a.present with
  | nil =>
    rw [present] at h
    cases pure_eq_ok_iff.1 h
  | cons p later =>
  rw [present] at h
  dsimp only at h
  cases waiting : a.lane p with
  | nil =>
    rw [waiting] at h
    cases pure_eq_ok_iff.1 h
  | cons first rest =>
  rw [waiting] at h
  obtain ⟨isQueued, unmarked, h⟩ := bind_eq_ok_iff.1 h
  obtain ⟨numQueued, -, h⟩ := bind_eq_ok_iff.1 h
  obtain ⟨same, rfl⟩ := pure_pair_eq_ok_iff.1 h
  cases same
  refine ⟨p, later, rest, rfl, waiting, fun q => lane_set a p q rest, ?_, rfl⟩
  intro j
  simp only [contains, Table.get?_of_set unmarked, PropagatorId.index_inj]
  by_cases same : j = id <;> simp [same]

theorem contains_pop {a b : Agenda} {id : PropagatorId} (h : a.pop = .ok (some id, b))
    (j : PropagatorId) : b.contains j = (!decide (j = id) && a.contains j) := by
  obtain ⟨-, -, -, -, -, -, contained, -⟩ := pop_some h
  exact contained j

theorem WellFormed.pop {a b : Agenda} {id : PropagatorId} (wf : a.WellFormed)
    (h : a.pop = .ok (some id, b)) : b.WellFormed := by
  obtain ⟨p, later, rest, present, waiting, lanes, contained, after⟩ := pop_some h
  have ascending := wf.ascending
  rw [present] at ascending
  have ⟨first, sorted⟩ := List.pairwise_cons.1 ascending
  have gone : p ∉ later := fun member => by
    have := first p member
    omega
  constructor
  · intro q
    have old := wf.listed q
    rw [present, List.mem_cons] at old
    rw [lanes, after]
    by_cases same : q = p
    · subst same
      cases rest with
      | nil => simp [gone]
      | cons next more => simp
    · rw [if_neg same, ← old]
      cases rest <;> simp [same]
  · rw [after]
    split
    · exact sorted
    · exact ascending
  · intro j queued
    rw [contained, Bool.and_eq_true] at queued
    obtain ⟨q, member⟩ := wf.waits queued.2
    refine ⟨q, ?_⟩
    rw [lanes]
    split
    · next same =>
      rw [same, waiting] at member
      rcases List.mem_cons.1 member with rfl | inner
      · simp at queued
      · exact inner
    · exact member

end Agenda
end PseudoBoolean
