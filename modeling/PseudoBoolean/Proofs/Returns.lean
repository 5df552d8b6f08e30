import PseudoBoolean.Proofs.Propagation

/-!
Answers. A computation that asks only for what exists comes to one. A tracked store has flags for
each of its domains and no event of a domain that it does not have; reading, fixing and draining it,
and attempts on variables whose domains it has, are no faults and leave a tracked store.
-/
namespace PseudoBoolean

def Returns {α : Type} (x : Checked α) : Prop := ∃ a, x = .ok a

theorem Returns.bind {α β : Type} {x : Checked α} {f : α → Checked β} (first : Returns x)
    (later : ∀ a, x = .ok a → Returns (f a)) : Returns (x >>= f) := by
  obtain ⟨a, done⟩ := first
  obtain ⟨b, last⟩ := later a done
  exact ⟨b, bind_eq_ok_iff.2 ⟨a, done, last⟩⟩

theorem returns_pure {α : Type} (a : α) : Returns (pure a) := ⟨a, rfl⟩

theorem returns_foldlM {α β : Type} {f : β → α → Checked β} (Keeps : List α → β → Prop)
    (step : ∀ {a rest b}, Keeps (a :: rest) b → ∃ c, f b a = .ok c ∧ Keeps rest c) {xs : List α}
    {b : β} (start : Keeps xs b) : Returns (xs.foldlM f b) := by
  induction xs generalizing b with
  | nil => exact returns_pure b
  | cons a rest ih =>
    obtain ⟨c, done, kept⟩ := step start
    rw [List.foldlM_cons, done]
    exact ih kept

namespace Table
variable {κ α : Type} [Key κ] {t u : Table κ α} {k : κ} {a : α}

theorem index_lt_iff : Key.index k < t.size ↔ ∃ a, t.get? k = some a := by
  rw [← Option.isSome_iff_exists, ← Option.ne_none_iff_isSome, ne_eq, get?_eq_none_iff]
  omega

theorem returns_get (h : Key.index k < t.size) : Returns (t.get k) := by
  obtain ⟨a, found⟩ := index_lt_iff.1 h
  exact ⟨a, get_eq_ok_iff.2 found⟩

theorem returns_set (h : Key.index k < t.size) (a : α) : Returns (t.set k a) :=
  ⟨_, set_eq_ok_iff.2 ⟨h, rfl⟩⟩

theorem returns_update (h : Key.index k < t.size) (f : α → α) : Returns (t.update k f) :=
  (returns_get h).bind fun a _ => returns_set h (f a)

theorem size_of_update {f : α → α} (h : t.update k f = .ok u) :
    Key.index k < t.size ∧ u.size = t.size := by
  obtain ⟨a, got, stored⟩ := bind_eq_ok_iff.1 h
  exact ⟨(set_eq_ok_iff.1 stored).1, size_of_set stored⟩

end Table

namespace Domains
variable {ν : Type} [Variable ν] {s t : Domains}

def Has (s : Domains) (x : ν) : Prop := (Variable.literal x).domain.index < s.size

instance (s : Domains) (x : ν) : Decidable (s.Has x) :=
  inferInstanceAs (Decidable ((Variable.literal x).domain.index < s.size))

structure Tracked (s : Domains) : Prop where
  flagged : s.pending.present.size = s.size
  pending : ∀ {e d}, (e, d) ∈ s.pending.events → s.Has d

def numOpen (s : Domains) : Nat := s.values.toList.countP Option.isNone

theorem has_iff_of_size (same : t.size = s.size) (x : ν) : t.Has x ↔ s.Has x := by
  unfold Has
  rw [same]

theorem read_eq_known {x : ν} (h : s.Has x) : s.read x = .ok (s.known.read x) := by
  obtain ⟨stored, got⟩ : Returns (s.value (Variable.literal x).domain) := Table.returns_get h
  have read : s.read x = .ok (stored.map (Variable.literal x).view) :=
    bind_eq_ok_iff.2 ⟨stored, got, rfl⟩
  rw [read, known_of_read read]

theorem returns_separate {xs : List ν} (h : ∀ x ∈ xs, s.Has x) : Returns (s.separate xs) := by
  induction xs with
  | nil => exact returns_pure ([], 0)
  | cons x rest ih =>
    apply Returns.bind ⟨_, read_eq_known (h x List.mem_cons_self)⟩
    intro value _
    apply (ih fun y member => h y (List.mem_cons_of_mem x member)).bind
    intro ⟨unfixed, numTrue⟩ _
    exact returns_pure _

section fix
variable {d : DomainId} {v : Bool} {r : Fixing}

theorem returns_fix (tracked : s.Tracked) (h : s.Has d) (v : Bool) : Returns (s.fix d v) := by
  have flagged : Key.index d < s.pending.present.size := tracked.flagged ▸ h
  apply (Table.returns_get h).bind
  intro current _
  cases current with
  | some b => exact returns_pure _
  | none =>
    apply (Table.returns_set h _).bind
    intro values _
    apply Returns.bind
    · apply (Table.returns_get flagged).bind
      intro flags _
      split
      · exact returns_pure _
      · exact (Table.returns_set flagged _).bind fun _ _ => returns_pure _
    · exact fun _ _ => returns_pure _

theorem returns_fixVariable (tracked : s.Tracked) {x : ν} (h : s.Has x) (v : Bool) :
    Returns (s.fixVariable x v) := returns_fix tracked h _

theorem size_of_record {p q : PendingEvents} {e : Event} (h : p.record e d = .ok q) :
    q.present.size = p.present.size := by
  obtain ⟨flags, -, h⟩ := bind_eq_ok_iff.1 h
  split at h
  · rw [← pure_eq_ok_iff.1 h]
  · obtain ⟨present, stored, h⟩ := bind_eq_ok_iff.1 h
    rw [← pure_eq_ok_iff.1 h]
    exact Table.size_of_set stored

theorem mem_of_record {p q : PendingEvents} {e f : Event} {c : DomainId}
    (h : p.record e d = .ok q) (member : (f, c) ∈ q.events) : (f, c) ∈ p.events ∨ c = d := by
  obtain ⟨flags, -, h⟩ := bind_eq_ok_iff.1 h
  split at h
  · rw [← pure_eq_ok_iff.1 h] at member
    exact Or.inl member
  · obtain ⟨present, -, h⟩ := bind_eq_ok_iff.1 h
    rw [← pure_eq_ok_iff.1 h] at member
    rcases List.mem_append.1 member with old | new
    · exact Or.inl old
    · cases List.mem_singleton.1 new
      exact Or.inr rfl

theorem size_of_fix (h : s.fix d v = .ok (r, t)) : t.size = s.size := by
  rcases fix_cases h with ⟨rfl, -⟩ | ⟨-, -, rfl⟩ | ⟨-, -, rfl⟩
  · exact Table.size_of_set (values_of_fix_changed h).2.1
  · rfl
  · rfl

theorem Tracked.of_fix (tracked : s.Tracked) (h : s.fix d v = .ok (r, t)) : t.Tracked := by
  have size := size_of_fix h
  rcases fix_cases h with ⟨rfl, -, -, recorded⟩ | ⟨-, -, rfl⟩ | ⟨-, -, rfl⟩
  · constructor
    · rw [size_of_record recorded, tracked.flagged, size]
    · intro e c member
      rw [has_iff_of_size size]
      rcases mem_of_record recorded member with old | rfl
      · exact tracked.pending old
      · exact Table.index_lt_iff.2 ⟨_, (values_of_fix_changed h).1⟩
  · exact tracked
  · exact tracked

theorem numOpen_of_fix (h : s.fix d v = .ok (r, t)) :
    t = s ∨ t.numOpen < s.numOpen ∧ t.numFixed = s.numFixed + 1 := by
  rcases fix_cases h with ⟨rfl, -⟩ | ⟨-, -, same⟩ | ⟨-, -, same⟩
  · obtain ⟨free, stored, counted⟩ := values_of_fix_changed h
    refine Or.inr ⟨?_, counted⟩
    obtain ⟨front, back, before, after⟩ := Table.split_of_get? free
    simp [numOpen, before, after stored]
  · exact Or.inl same
  · exact Or.inl same

end fix

theorem LeadsTo.size (h : LeadsTo s t) : t.size = s.size := by
  induction h with
  | refl => rfl
  | fix step _ ih => exact ih.trans (size_of_fix step)

theorem LeadsTo.tracked (h : LeadsTo s t) (tracked : s.Tracked) : t.Tracked := by
  induction h with
  | refl => exact tracked
  | fix step _ ih => exact ih (tracked.of_fix step)

theorem LeadsTo.has (h : LeadsTo s t) {x : ν} (has : s.Has x) : t.Has x :=
  (has_iff_of_size h.size x).2 has

theorem LeadsTo.eq_or_fewer (h : LeadsTo s t) :
    t = s ∨ t.numOpen < s.numOpen ∧ s.numFixed ≤ t.numFixed := by
  induction h with
  | refl => exact Or.inl rfl
  | @fix s _ _ _ _ _ step _ ih =>
    rcases numOpen_of_fix step with rfl | ⟨fewer, more⟩
    · exact ih
    · rcases ih with rfl | ⟨later, laterMore⟩
      · exact Or.inr ⟨fewer, by omega⟩
      · exact Or.inr ⟨by omega, by omega⟩

theorem LeadsTo.numFixed_le (h : LeadsTo s t) : s.numFixed ≤ t.numFixed := by
  rcases h.eq_or_fewer with rfl | ⟨-, more⟩
  · exact Nat.le_refl _
  · exact more

theorem LeadsTo.eq_of_extends (h : LeadsTo s t) (same : s.known.Extends t.known) : t = s := by
  induction h with
  | refl => rfl
  | @fix s u t _ _ _ step later ih =>
    have between : s.known.Extends u.known := PartialValuation.extends_trans same later.extends
    have first : u = s := by
      rcases fix_cases step with ⟨-, free, learnt, -⟩ | ⟨-, -, rfl⟩ | ⟨-, -, rfl⟩
      · rw [learnt, PartialValuation.extends_learn_iff free] at between
        rw [free] at between
        cases between.2
      · rfl
      · rfl
    rw [first] at ih
    exact ih same

theorem returns_drain (tracked : s.Tracked) : Returns s.drain := by
  apply Returns.bind
  · apply Returns.bind
    · apply returns_foldlM fun rest (present : Table DomainId EventSet) =>
        present.size = s.size ∧ ∀ event ∈ rest, s.Has event.2
      · intro ⟨e, d⟩ rest present kept
        have inside : Key.index d < present.size := kept.1 ▸ kept.2 (e, d) List.mem_cons_self
        obtain ⟨next, erased⟩ := Table.returns_update inside (·.erase e)
        refine ⟨next, erased, (Table.size_of_update erased).2.trans kept.1, ?_⟩
        exact fun event member => kept.2 event (List.mem_cons_of_mem _ member)
      · exact ⟨tracked.flagged, fun event member => tracked.pending member⟩
    · exact fun present _ => returns_pure _
  · exact fun drained _ => returns_pure _

theorem frame_of_drain {events : List (Event × DomainId)} (h : s.drain = .ok (events, t)) :
    events = s.pending.events ∧ t.values = s.values ∧ t.pending.events = [] ∧
      t.numFixed = s.numFixed ∧ t.pending.present.size = s.pending.present.size := by
  obtain ⟨⟨handed, pending⟩, drained, h⟩ := bind_eq_ok_iff.1 h
  obtain ⟨rfl, rfl⟩ := pure_pair_eq_ok_iff.1 h
  obtain ⟨present, erased, drained⟩ := bind_eq_ok_iff.1 drained
  obtain ⟨rfl, rfl⟩ := pure_pair_eq_ok_iff.1 drained
  have size := foldlM_keeps
    (fun _ (present : Table DomainId EventSet) => present.size = s.pending.present.size)
    (fun same step => (Table.size_of_update step).2.trans same) rfl erased
  exact ⟨rfl, rfl, rfl, rfl, size⟩

theorem Tracked.of_drain (tracked : s.Tracked) {events : List (Event × DomainId)}
    (h : s.drain = .ok (events, t)) : t.Tracked := by
  obtain ⟨-, values, emptied, -, present⟩ := frame_of_drain h
  constructor
  · rw [present, tracked.flagged, size, size, values]
  · intro e d member
    rw [emptied] at member
    cases member

theorem Tracked.grow (tracked : s.Tracked) : s.grow.Tracked := by
  have size : s.grow.size = s.size + 1 := Table.size_push _ _
  constructor
  · rw [size, ← tracked.flagged]
    exact Table.size_push _ _
  · intro e d member
    have old : s.Has d := tracked.pending member
    unfold Has at old ⊢
    omega

end Domains

namespace Attempt
variable {α β : Type} {ν : Type} [Variable ν] {s : Domains}

theorem returns_exec_bind {x : Attempt α} {f : α → Attempt β} (first : Returns (exec x s))
    (later : ∀ a t, exec x s = .ok (.ok a, t) → Returns (exec (f a) t)) :
    Returns (exec (x >>= f) s) := by
  rw [exec_bind]
  obtain ⟨⟨r, t⟩, done⟩ := first
  rw [done]
  cases r with
  | ok a => exact later a t done
  | error i => exact ⟨_, rfl⟩

theorem returns_exec_pure (a : α) : Returns (exec (pure a) s) := ⟨_, exec_pure a s⟩

theorem exec_read_eq {x : ν} (h : s.Has x) : exec (read x) s = .ok (.ok (s.known.read x), s) := by
  rw [exec_read, Domains.read_eq_known h]
  rfl

theorem returns_exec_read_bind {x : ν} {f : Option Bool → Attempt β} (h : s.Has x)
    (later : Returns (exec (f (s.known.read x)) s)) : Returns (exec (read x >>= f) s) := by
  rw [exec_bind, exec_read_eq h]
  exact later

theorem returns_require (tracked : s.Tracked) {x : ν} (h : s.Has x) (v : Bool) :
    Returns (exec (require x v) s) := by
  obtain ⟨⟨r, t⟩, fixed⟩ := Domains.returns_fixVariable tracked h v
  exact ⟨_, exec_require fixed⟩

theorem returns_requireAll (tracked : s.Tracked) {xs : List ν} (h : ∀ x ∈ xs, s.Has x) (v : Bool) :
    Returns (exec (requireAll xs v) s) := by
  induction xs generalizing s with
  | nil => exact returns_exec_pure ()
  | cons x rest ih =>
    apply returns_exec_bind (returns_require tracked (h x List.mem_cons_self) v)
    intro _ t first
    have moved := leadsTo_of_exec first
    exact ih (moved.tracked tracked) fun y member => moved.has (h y (List.mem_cons_of_mem x member))

theorem returns_keeping {μ : Type} {m : μ} {x : Attempt (μ × α)} (h : Returns (exec x s)) :
    Returns ((keeping m x).run s) := by
  obtain ⟨⟨r, t⟩, done⟩ := h
  unfold exec at done
  unfold keeping
  rw [Propagation.run_bind, done]
  cases r with
  | ok next => exact ⟨_, rfl⟩
  | error i => exact ⟨_, rfl⟩

end Attempt
end PseudoBoolean
