import Mathlib.Data.List.Nodup
import PseudoBoolean.Proofs.Agenda
import PseudoBoolean.Proofs.Returns
import PseudoBoolean.Proofs.Subscriptions

/-!
The books of the engine. The agenda counts whom it lists, and lists nobody twice; the lists of
watched domains name domains that exist; the count of active propagators is the number of places
that are taken. Books that balance are what the engine needs never to stop on a fault.
-/
namespace PseudoBoolean

namespace Agenda
variable {a b : Agenda} {id : PropagatorId} {p : Priority} {n m : Nat}

structure Tallied (a : Agenda) (n : Nat) : Prop where
  numQueued : a.numQueued = a.waiting.length
  distinct : a.waiting.Nodup
  flagged : ∀ {id}, id ∈ a.waiting → a.contains id = true
  below : ∀ {id}, id ∈ a.waiting → id.index < n

theorem mem_waiting : id ∈ a.waiting ↔ ∃ p, id ∈ a.lane p := by
  simp only [waiting, List.mem_append]
  constructor
  · rintro (((high | medium) | low) | veryLow)
    · exact ⟨.high, high⟩
    · exact ⟨.medium, medium⟩
    · exact ⟨.low, low⟩
    · exact ⟨.veryLow, veryLow⟩
  · rintro ⟨p, member⟩
    cases p <;> simp [member]

theorem waiting_perm_cons {l : List PropagatorId} (longer : (a.lane p).Perm (id :: l))
    (lanes : ∀ q, b.lane q = if q = p then l else a.lane q) :
    a.waiting.Perm (id :: b.waiting) := by
  rw [List.perm_iff_count] at longer ⊢
  intro j
  have more := longer j
  have count : ∀ q, (b.lane q).count j = if q = p then l.count j else (a.lane q).count j := by
    intro q
    rw [lanes]
    split <;> rfl
  simp only [waiting, List.count_append, List.count_cons, count] at more ⊢
  cases p <;> simp only [reduceCtorEq, if_false, if_true] <;> omega

theorem tallied_empty (n : Nat) : ({} : Agenda).Tallied n := by
  constructor <;> simp [waiting, lane, Priority.code]

theorem tallied_clear (a : Agenda) (n : Nat) : a.clear.Tallied n := by
  constructor <;> simp [clear, waiting, lane, Priority.code]

theorem Tallied.mono (h : a.Tallied n) (more : n ≤ m) : a.Tallied m :=
  ⟨h.numQueued, h.distinct, h.flagged, fun member => Nat.lt_of_lt_of_le (h.below member) more⟩

theorem Tallied.numQueued_le (h : a.Tallied n) : a.numQueued ≤ n := by
  have distinct : (a.waiting.map PropagatorId.index).Nodup :=
    List.Nodup.map (fun _ _ same => PropagatorId.index_inj.1 same) h.distinct
  have subset : a.waiting.map PropagatorId.index ⊆ List.range n := by
    intro i member
    obtain ⟨id, waits, rfl⟩ := List.mem_map.1 member
    exact List.mem_range.2 (h.below waits)
  have bound := distinct.length_le_of_subset subset
  rw [List.length_map, List.length_range] at bound
  rw [h.numQueued]
  exact bound

theorem returns_enqueue (a : Agenda) (id : PropagatorId) (p : Priority) :
    Returns (a.enqueue id p) := by
  unfold enqueue
  split
  · exact returns_pure a
  · apply (Table.returns_set _ true).bind
    · exact fun _ _ => returns_pure _
    · rw [Table.size_extendTo]
      omega

theorem numQueued_of_enqueue (h : a.enqueue id p = .ok b) :
    b.numQueued = if a.contains id then a.numQueued else a.numQueued + 1 := by
  unfold enqueue at h
  split at h
  · next queued => rw [← pure_eq_ok_iff.1 h, if_pos queued]
  · next new =>
    obtain ⟨isQueued, -, h⟩ := bind_eq_ok_iff.1 h
    rw [← pure_eq_ok_iff.1 h, if_neg new]

theorem Tallied.enqueue (tallied : a.Tallied n) (h : a.enqueue id p = .ok b)
    (below : id.index < n) : b.Tallied n := by
  have counted := numQueued_of_enqueue h
  rcases enqueue_cases h with ⟨-, rfl⟩ | ⟨new, lanes, contained, -⟩
  · exact tallied
  have listed : b.waiting.Perm (id :: a.waiting) := by
    apply waiting_perm_cons (p := p)
    · rw [lanes, if_pos rfl]
      exact List.perm_append_singleton id (a.lane p)
    · intro q
      rw [lanes]
      by_cases same : q = p
      · rw [if_pos same, same]
      · rw [if_neg same, if_neg same]
  have absent : id ∉ a.waiting := by
    intro member
    rw [tallied.flagged member] at new
    cases new
  constructor
  · rw [counted, new, listed.length_eq, tallied.numQueued]
    rfl
  · exact listed.nodup_iff.2 (List.nodup_cons.2 ⟨absent, tallied.distinct⟩)
  · intro j member
    rw [contained]
    rcases List.mem_cons.1 (listed.mem_iff.1 member) with rfl | old
    · simp
    · rw [tallied.flagged old, Bool.or_true]
  · intro j member
    rcases List.mem_cons.1 (listed.mem_iff.1 member) with rfl | old
    · exact below
    · exact tallied.below old

theorem returns_pop (tallied : a.Tallied n) : Returns a.pop := by
  unfold pop
  cases present : a.present with
  | nil => exact returns_pure _
  | cons p later =>
    dsimp only
    cases waits : a.lane p with
    | nil => exact returns_pure _
    | cons id rest =>
      have member : id ∈ a.waiting := mem_waiting.2 ⟨p, waits ▸ List.mem_cons_self⟩
      have flagged := tallied.flagged member
      have inside : Key.index id < a.isQueued.size := by
        rw [Table.index_lt_iff]
        rw [contains] at flagged
        cases found : a.isQueued.get? id with
        | none => simp [found] at flagged
        | some flag => exact ⟨flag, rfl⟩
      have some_ : 1 ≤ a.numQueued := by
        rw [tallied.numQueued]
        exact List.length_pos_of_mem member
      apply (Table.returns_set inside false).bind
      intro isQueued _
      apply Returns.bind ⟨_, decrease_of_le some_⟩
      exact fun _ _ => returns_pure _

theorem Tallied.pop (tallied : a.Tallied n) (h : a.pop = .ok (some id, b)) :
    b.Tallied n ∧ b.numQueued + 1 = a.numQueued := by
  obtain ⟨p, later, rest, -, waits, lanes, contained, -⟩ := pop_some h
  have listed : a.waiting.Perm (id :: b.waiting) :=
    waiting_perm_cons (p := p) (List.Perm.of_eq waits) lanes
  have counted : b.numQueued + 1 = a.numQueued := by
    unfold Agenda.pop at h
    split at h
    · cases pure_eq_ok_iff.1 h
    split at h
    · cases pure_eq_ok_iff.1 h
    obtain ⟨isQueued, -, h⟩ := bind_eq_ok_iff.1 h
    obtain ⟨numQueued, less, h⟩ := bind_eq_ok_iff.1 h
    obtain ⟨positive, rfl⟩ := decrease_eq_ok_iff.1 less
    rw [← (pure_pair_eq_ok_iff.1 h).2]
    exact Nat.sub_add_cancel positive
  have distinct := List.nodup_cons.1 (listed.nodup_iff.1 tallied.distinct)
  refine ⟨⟨?_, distinct.2, ?_, ?_⟩, counted⟩
  · have length := listed.length_eq
    rw [← tallied.numQueued, ← counted, List.length_cons] at length
    omega
  · intro j member
    have apart : j ≠ id := by
      intro same
      subst same
      exact distinct.1 member
    rw [contained, tallied.flagged (listed.mem_iff.2 (List.mem_cons_of_mem id member))]
    simp [apart]
  · intro j member
    exact tallied.below (listed.mem_iff.2 (List.mem_cons_of_mem id member))

theorem eq_of_pop_none (h : a.pop = .ok (none, b)) : b = a := by
  unfold pop at h
  split at h
  · exact (pure_pair_eq_ok_iff.1 h).2.symm
  split at h
  · exact (pure_pair_eq_ok_iff.1 h).2.symm
  obtain ⟨isQueued, -, h⟩ := bind_eq_ok_iff.1 h
  obtain ⟨numQueued, -, h⟩ := bind_eq_ok_iff.1 h
  cases (pure_pair_eq_ok_iff.1 h).1

end Agenda

namespace Subscriptions
variable {s t : Subscriptions} {id : PropagatorId} {n : Nat}

structure Within (s : Subscriptions) (n : Nat) : Prop where
  audiences : s.audiences.size = n
  watched : ∀ {id domains}, s.watched.get? id = some domains → ∀ d ∈ domains, d.index < n

theorem Within.grow (h : s.Within n) : s.grow.Within (n + 1) := by
  constructor
  · rw [← h.audiences]
    exact Table.size_push _ _
  · intro id domains found d member
    exact Nat.lt_succ_of_lt (h.watched found d member)

theorem returns_subscribers (h : s.Within n) {d : DomainId} (inside : d.index < n) (e : Event) :
    Returns (s.subscribers e d) := by
  rw [← h.audiences] at inside
  exact (Table.returns_get inside).bind fun a _ => returns_pure _

section register
variable {r : Registration}

theorem returns_register (h : s.Within n) (inside : r.literal.domain.index < n)
    (id : PropagatorId) : Returns (s.register id r) := by
  rw [← h.audiences] at inside
  apply (Table.returns_update _ _).bind
  · intro watched _
    exact (Table.returns_update inside _).bind fun _ _ => returns_pure _
  · rw [Table.size_extendTo]
    exact Nat.lt_of_lt_of_le (Nat.lt_succ_self _) (Nat.le_max_right _ _)

theorem Within.register (h : s.Within n) (done : s.register id r = .ok t) :
    t.Within n ∧ r.literal.domain.index < n := by
  obtain ⟨watched, listed, done⟩ := bind_eq_ok_iff.1 done
  obtain ⟨audiences, enlisted, done⟩ := bind_eq_ok_iff.1 done
  rw [← pure_eq_ok_iff.1 done]
  obtain ⟨inside, size⟩ := Table.size_of_update enlisted
  rw [h.audiences] at inside size
  refine ⟨⟨size, ?_⟩, inside⟩
  obtain ⟨before, found, after⟩ := Table.get?_of_update listed
  have known : ∀ {j domains}, (s.watched.extendTo id []).get? j = some domains →
      ∀ d ∈ domains, d.index < n := by
    intro j domains found d member
    rw [Table.get?_extendTo] at found
    split at found
    · exact h.watched found d member
    split at found <;> cases found
    cases member
  intro j domains listed d member
  rw [after] at listed
  split at listed
  · cases listed
    split at member
    · exact known found d member
    · rcases List.mem_append.1 member with old | new
      · exact known found d old
      · rw [List.mem_singleton.1 new]
        exact inside
  · exact known listed d member

theorem returns_registerAll {rs : List Registration} (h : s.Within n)
    (inside : ∀ r ∈ rs, r.literal.domain.index < n) (id : PropagatorId) :
    Returns (rs.foldlM (register · id) s) := by
  apply returns_foldlM fun (rest : List Registration) (u : Subscriptions) =>
    u.Within n ∧ ∀ r ∈ rest, r.literal.domain.index < n
  · intro r rest u kept
    obtain ⟨v, done⟩ := returns_register kept.1 (kept.2 r List.mem_cons_self) id
    refine ⟨v, done, (kept.1.register done).1, ?_⟩
    exact fun q member => kept.2 q (List.mem_cons_of_mem r member)
  · exact ⟨h, inside⟩

theorem Within.registerAll {rs : List Registration} (h : s.Within n)
    (done : rs.foldlM (Subscriptions.register · id) s = .ok t) :
    t.Within n ∧ ∀ r ∈ rs, r.literal.domain.index < n := by
  induction rs generalizing s with
  | nil =>
    rw [← pure_eq_ok_iff.1 done]
    exact ⟨h, by simp⟩
  | cons r rest ih =>
    rw [List.foldlM_cons] at done
    obtain ⟨u, first, later⟩ := bind_eq_ok_iff.1 done
    obtain ⟨within, inside⟩ := h.register first
    obtain ⟨last, others⟩ := ih within later
    refine ⟨last, ?_⟩
    intro q member
    rcases List.mem_cons.1 member with rfl | inner
    · exact inside
    · exact others q inner

end register

theorem returns_unsubscribe (h : s.Within n) (id : PropagatorId) : Returns (s.unsubscribe id) := by
  unfold unsubscribe
  split
  · exact returns_pure s
  · next domains found =>
    apply Returns.bind
    · apply returns_foldlM fun (rest : List DomainId) (audiences : Table DomainId Audience) =>
        audiences.size = n ∧ ∀ d ∈ rest, d.index < n
      · intro d rest audiences kept
        have inside : Key.index d < audiences.size := kept.1 ▸ kept.2 d List.mem_cons_self
        obtain ⟨next, done⟩ := Table.returns_update inside (·.dismiss id)
        refine ⟨next, done, (Table.size_of_update done).2.trans kept.1, ?_⟩
        exact fun c member => kept.2 c (List.mem_cons_of_mem d member)
      · exact ⟨h.audiences, h.watched found⟩
    · intro audiences _
      exact (Table.returns_set (Table.index_lt_iff.2 ⟨domains, found⟩) []).bind
        fun _ _ => returns_pure _

theorem Within.unsubscribe (h : s.Within n) (done : s.unsubscribe id = .ok t) : t.Within n := by
  unfold Subscriptions.unsubscribe at done
  split at done
  · rw [← pure_eq_ok_iff.1 done]
    exact h
  · obtain ⟨audiences, dismissed, done⟩ := bind_eq_ok_iff.1 done
    obtain ⟨watched, cleared, done⟩ := bind_eq_ok_iff.1 done
    rw [← pure_eq_ok_iff.1 done]
    constructor
    · exact foldlM_keeps (fun _ (u : Table DomainId Audience) => u.size = n)
        (fun same step => (Table.size_of_update step).2.trans same) h.audiences dismissed
    · intro j domains found d member
      dsimp only at found
      rw [Table.get?_of_set cleared] at found
      split at found
      · cases found
        cases member
      · exact h.watched found d member

end Subscriptions

namespace Roster
variable {κ : Type} [PropagatorKinds κ] {r t : Roster κ} {who : PropagatorId}
  {p q : AnyPropagator κ}

theorem index_lt_of_get? (h : r.get? who = some p) : who.index < r.size :=
  Table.index_lt_iff.2 ⟨_, Option.join_eq_some_iff.1 h⟩

theorem returns_replace (h : r.get? who = some p) (q : AnyPropagator κ) :
    Returns (r.replace who q) :=
  (Table.returns_set (index_lt_of_get? h) _).bind fun _ _ => returns_pure _

theorem exists_get? (member : p ∈ r.active) : ∃ who, r.get? who = some p := by
  obtain ⟨place, inside, rfl⟩ := List.mem_filterMap.1 member
  obtain ⟨i, found⟩ := List.mem_iff_getElem?.1 inside
  refine ⟨⟨i⟩, Option.join_eq_some_iff.2 ?_⟩
  rw [Table.get?_eq_getElem?]
  exact found

theorem active_split (h : r.get? who = some p) :
    ∃ before after, r.active = before ++ p :: after ∧
      (∀ {q t}, r.replace who q = .ok t →
        t.active = before ++ q :: after ∧ t.numActive = r.numActive) ∧
      ∀ {t}, r.retire who = .ok t → t.active = before ++ after ∧ t.numActive + 1 = r.numActive := by
  obtain ⟨front, back, whole, written⟩ := Table.split_of_get? (Option.join_eq_some_iff.1 h)
  refine ⟨front.filterMap id, back.filterMap id, ?_, ?_, ?_⟩
  · rw [active, whole, List.filterMap_append]
    rfl
  · intro q t done
    obtain ⟨places, stored, done⟩ := bind_eq_ok_iff.1 done
    rw [← pure_eq_ok_iff.1 done]
    refine ⟨?_, rfl⟩
    rw [active, written stored, List.filterMap_append]
    rfl
  · intro t done
    unfold retire at done
    rw [h] at done
    obtain ⟨places, stored, done⟩ := bind_eq_ok_iff.1 done
    obtain ⟨numActive, less, done⟩ := bind_eq_ok_iff.1 done
    obtain ⟨positive, rfl⟩ := decrease_eq_ok_iff.1 less
    rw [← pure_eq_ok_iff.1 done]
    refine ⟨?_, Nat.sub_add_cancel positive⟩
    rw [active, written stored, List.filterMap_append]
    rfl

theorem retire_of_absent (h : r.get? who = none) : r.retire who = .ok r := by
  unfold retire
  rw [h]
  rfl

theorem retire_of_replace {u : Roster κ} (found : r.get? who = some p)
    (replaced : r.replace who q = .ok t) (retired : t.retire who = .ok u) :
    r.retire who = .ok u := by
  have now : t.get? who = some q := by rw [get?_of_replace replaced, if_pos rfl]
  obtain ⟨places, stored, replaced⟩ := bind_eq_ok_iff.1 replaced
  obtain rfl := pure_eq_ok_iff.1 replaced
  unfold retire at retired ⊢
  rw [now] at retired
  rw [found]
  obtain ⟨emptied, stored', retired⟩ := bind_eq_ok_iff.1 retired
  refine bind_eq_ok_iff.2 ⟨emptied, ?_, retired⟩
  obtain ⟨inside, rfl⟩ := Table.set_eq_ok_iff.1 stored
  obtain ⟨-, rfl⟩ := Table.set_eq_ok_iff.1 stored'
  refine Table.set_eq_ok_iff.2 ⟨inside, ?_⟩
  rw [Array.setIfInBounds_setIfInBounds]

theorem returns_retire (counted : r.numActive = r.active.length) (who : PropagatorId) :
    Returns (r.retire who) := by
  cases found : r.get? who with
  | none => exact ⟨r, retire_of_absent found⟩
  | some p =>
    obtain ⟨before, after, active, -, -⟩ := active_split found
    have positive : 1 ≤ r.numActive := by
      rw [counted, active, List.length_append, List.length_cons]
      omega
    unfold retire
    rw [found]
    apply (Table.returns_set (index_lt_of_get? found) none).bind
    intro places _
    exact Returns.bind ⟨_, decrease_of_le positive⟩ fun _ _ => returns_pure _

theorem counted_of_replace (counted : r.numActive = r.active.length) (found : r.get? who = some p)
    (h : r.replace who q = .ok t) : t.numActive = t.active.length := by
  obtain ⟨before, after, active, replaced, -⟩ := active_split found
  obtain ⟨now, same⟩ := replaced h
  rw [same, counted, active, now, List.length_append, List.length_append]
  rfl

theorem counted_of_retire (counted : r.numActive = r.active.length) (h : r.retire who = .ok t) :
    t.numActive = t.active.length := by
  cases found : r.get? who with
  | none =>
    rw [retire_of_absent found] at h
    cases h
    exact counted
  | some p =>
    obtain ⟨before, after, active, -, retired⟩ := active_split found
    obtain ⟨now, fewer⟩ := retired h
    rw [active, List.length_append, List.length_cons] at counted
    rw [now, List.length_append]
    omega

end Roster
end PseudoBoolean
