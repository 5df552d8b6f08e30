import PseudoBoolean.Proofs.PartialValuation

/-!
What fixing does to the store. A request either teaches the store one value, or finds the value
there already, or contradicts it. Every value taught since the last drain is among the pending
events: `Faithful`.
-/
namespace PseudoBoolean
namespace Domains
variable {ν : Type} [Variable ν]

/-- The values of the store; a domain that does not exist has none. -/
def known (s : Domains) : PartialValuation := fun d => (s.values.get? d).join

theorem known_eq_some_iff {s : Domains} {d : DomainId} {b : Bool} :
    s.known d = some b ↔ s.values.get? d = some (some b) := Option.join_eq_some_iff

theorem completes_iff {s : Domains} {v : Valuation} :
    v.Completes s ↔ (PartialValuation.ofTotal v).Extends s.known :=
  PartialValuation.completes_iff_extends fun _ _ => known_eq_some_iff

theorem completes_filled (s : Domains) : s.known.filled.Completes s :=
  completes_iff.2 (PartialValuation.extends_filled s.known)

theorem known_of_read {s : Domains} {x : ν} {value : Option Bool} (h : s.read x = .ok value) :
    s.known.read x = value := by
  obtain ⟨stored, got, h⟩ := bind_eq_ok_iff.1 h
  rw [← pure_eq_ok_iff.1 h, PartialValuation.read, known, Table.get_eq_ok_iff.1 got]
  rfl

theorem read_of_known {s : Domains} {x : ν} {b : Bool} (h : s.known.read x = some b) :
    s.read x = .ok (some b) := by
  have stored := known_eq_some_iff.1 (PartialValuation.read_eq_some_iff.1 h)
  unfold read value
  rw [Table.get_eq_ok_iff.2 stored]
  simp [bind, Except.bind, pure, Except.pure]

theorem separate_eq {s : Domains} {xs rest : List ν} {n : Nat}
    (h : s.separate xs = .ok (rest, n)) :
    rest = xs.filter (fun x => (s.known.read x).isNone) ∧
      n = xs.countP fun x => s.known.read x = some true := by
  induction xs generalizing rest n with
  | nil =>
    obtain ⟨rfl, rfl⟩ := pure_pair_eq_ok_iff.1 h
    exact ⟨rfl, rfl⟩
  | cons x others ih =>
    obtain ⟨value, got, h⟩ := bind_eq_ok_iff.1 h
    obtain ⟨⟨unfixed, numTrue⟩, later, h⟩ := bind_eq_ok_iff.1 h
    obtain ⟨rfl, rfl⟩ := ih later
    have same := known_of_read got
    cases value with
    | none =>
      obtain ⟨rfl, rfl⟩ := pure_pair_eq_ok_iff.1 h
      simp [same]
    | some b =>
      cases b <;> obtain ⟨rfl, rfl⟩ := pure_pair_eq_ok_iff.1 h <;> simp [same]

theorem separate_perm {s : Domains} {xs ys left right : List ν} {m n : Nat} (same : xs.Perm ys)
    (first : s.separate xs = .ok (left, m)) (second : s.separate ys = .ok (right, n)) :
    left.Perm right ∧ m = n := by
  obtain ⟨rfl, rfl⟩ := separate_eq first
  obtain ⟨rfl, rfl⟩ := separate_eq second
  exact ⟨same.filter _, same.countP_eq _⟩

theorem fix_cases {s t : Domains} {d : DomainId} {v : Bool} {r : Fixing}
    (h : s.fix d v = .ok (r, t)) :
    (r = .changed ∧ s.known d = none ∧ t.known = s.known.learn d v ∧
        s.pending.record (.ofValue v) d = .ok t.pending) ∨
      (r = .unchanged ∧ s.known d = some v ∧ t = s) ∨
      (r = .contradicted ∧ s.known d = some (!v) ∧ t = s) := by
  obtain ⟨current, got, h⟩ := bind_eq_ok_iff.1 h
  have stored := Table.get_eq_ok_iff.1 got
  cases current with
  | some b =>
    have value : s.known d = some b := known_eq_some_iff.2 stored
    obtain ⟨outcome, rfl⟩ := pure_pair_eq_ok_iff.1 h
    by_cases same : b = v
    · rw [if_pos same] at outcome
      exact Or.inr (Or.inl ⟨outcome.symm, same ▸ value, rfl⟩)
    · rw [if_neg same] at outcome
      have opposite : b = !v := by cases b <;> cases v <;> simp_all
      exact Or.inr (Or.inr ⟨outcome.symm, opposite ▸ value, rfl⟩)
  | none =>
    obtain ⟨values, written, h⟩ := bind_eq_ok_iff.1 h
    obtain ⟨pending, recorded, h⟩ := bind_eq_ok_iff.1 h
    obtain ⟨rfl, rfl⟩ := pure_pair_eq_ok_iff.1 h
    refine Or.inl ⟨rfl, ?_, ?_, recorded⟩
    · rw [known, stored]
      rfl
    · funext e
      simp only [known, PartialValuation.learn, Table.get?_of_set written e, DomainId.index_inj]
      split <;> rfl

theorem known_of_fix_changed {s t : Domains} {d : DomainId} {v : Bool}
    (h : s.fix d v = .ok (.changed, t)) :
    s.known d = none ∧ t.known = s.known.learn d v ∧
      s.pending.record (.ofValue v) d = .ok t.pending := by
  rcases fix_cases h with ⟨-, changed⟩ | ⟨never, -⟩ | ⟨never, -⟩
  · exact changed
  · cases never
  · cases never

theorem extends_after_fix {s t : Domains} {d : DomainId} {v : Bool} {r : Fixing}
    (h : s.fix d v = .ok (r, t)) (met : r ≠ .contradicted) (e : PartialValuation) :
    e.Extends t.known ↔ e.Extends s.known ∧ e d = some v := by
  rcases fix_cases h with ⟨-, new, learnt, -⟩ | ⟨-, value, rfl⟩ | ⟨outcome, -, -⟩
  · rw [learnt, PartialValuation.extends_learn_iff new]
  · exact ⟨fun k => ⟨k, k d v value⟩, And.left⟩
  · exact absurd outcome met

theorem not_extends_of_contradicted {s t : Domains} {d : DomainId} {v : Bool}
    (h : s.fix d v = .ok (.contradicted, t)) (e : PartialValuation) :
    ¬ (e.Extends s.known ∧ e d = some v) := by
  intro ⟨k, value⟩
  rcases fix_cases h with ⟨outcome, -⟩ | ⟨outcome, -⟩ | ⟨-, stored, -⟩
  · cases outcome
  · cases outcome
  · rw [k d _ stored] at value
    cases v <;> simp at value

theorem extends_of_fix {s t : Domains} {d : DomainId} {v : Bool} {r : Fixing}
    (h : s.fix d v = .ok (r, t)) : t.known.Extends s.known := by
  rcases fix_cases h with ⟨-, new, learnt, -⟩ | ⟨-, -, rfl⟩ | ⟨-, -, rfl⟩
  · rw [learnt]
    exact ((PartialValuation.extends_learn_iff new).1 (PartialValuation.extends_refl _)).1
  · exact PartialValuation.extends_refl _
  · exact PartialValuation.extends_refl _

theorem LeadsTo.extends {s t : Domains} (h : LeadsTo s t) : t.known.Extends s.known := by
  induction h with
  | refl s => exact PartialValuation.extends_refl _
  | fix step _ ih => exact PartialValuation.extends_trans ih (extends_of_fix step)

/-- The pending events are values of the store, and a flag stands for a pending event. -/
structure Faithful (s : Domains) : Prop where
  value_of_event : ∀ {e d}, (e, d) ∈ s.pending.events → s.known d = some e.value
  event_of_flag : ∀ {e d flags}, s.pending.present.get? d = some flags → flags.contains e →
    (e, d) ∈ s.pending.events

theorem mem_events_of_record {p q : PendingEvents} {e : Event} {d : DomainId}
    (h : p.record e d = .ok q)
    (flagged : ∀ flags, p.present.get? d = some flags → flags.contains e → (e, d) ∈ p.events)
    (f : Event) (c : DomainId) :
    (f, c) ∈ q.events ↔ (f, c) ∈ p.events ∨ (f = e ∧ c = d) := by
  obtain ⟨flags, got, h⟩ := bind_eq_ok_iff.1 h
  by_cases present : flags.contains e = true
  · rw [if_pos present] at h
    rw [← pure_eq_ok_iff.1 h]
    have member := flagged flags (Table.get_eq_ok_iff.1 got) present
    constructor
    · exact Or.inl
    · rintro (old | ⟨rfl, rfl⟩)
      · exact old
      · exact member
  · rw [if_neg present] at h
    obtain ⟨written, _, h⟩ := bind_eq_ok_iff.1 h
    rw [← pure_eq_ok_iff.1 h]
    simp

theorem flag_of_record {p q : PendingEvents} {e f : Event} {c d : DomainId} {flags : EventSet}
    (h : p.record e d = .ok q) (found : q.present.get? c = some flags) (up : flags.contains f) :
    (f = e ∧ c = d) ∨ ∃ before, p.present.get? c = some before ∧ before.contains f := by
  obtain ⟨before, got, h⟩ := bind_eq_ok_iff.1 h
  by_cases present : before.contains e = true
  · rw [if_pos present] at h
    rw [← pure_eq_ok_iff.1 h] at found
    exact Or.inr ⟨flags, found, up⟩
  · rw [if_neg present] at h
    obtain ⟨written, put, h⟩ := bind_eq_ok_iff.1 h
    rw [← pure_eq_ok_iff.1 h] at found
    simp only [Table.get?_of_set put, DomainId.index_inj] at found
    split at found
    · next same =>
      rw [← Option.some.inj found, EventSet.contains_insert, Bool.or_eq_true,
        decide_eq_true_eq] at up
      rcases up with new | old
      · exact Or.inl ⟨new, same⟩
      · exact Or.inr ⟨before, same ▸ Table.get_eq_ok_iff.1 got, old⟩
    · exact Or.inr ⟨flags, found, up⟩

theorem mem_events_of_fix {s t : Domains} (faithful : s.Faithful) {d : DomainId} {v : Bool}
    {r : Fixing} (h : s.fix d v = .ok (r, t)) (f : Event) (c : DomainId) :
    (f, c) ∈ t.pending.events ↔
      (f, c) ∈ s.pending.events ∨ (r = .changed ∧ f = .ofValue v ∧ c = d) := by
  rcases fix_cases h with ⟨rfl, -, -, recorded⟩ | ⟨rfl, -, rfl⟩ | ⟨rfl, -, rfl⟩
  · simp [mem_events_of_record recorded (fun _ => faithful.event_of_flag)]
  · simp
  · simp

theorem Faithful.of_fix {s t : Domains} (faithful : s.Faithful) {d : DomainId} {v : Bool}
    {r : Fixing} (h : s.fix d v = .ok (r, t)) : t.Faithful := by
  constructor
  · intro f c member
    rcases (mem_events_of_fix faithful h f c).1 member with old | ⟨rfl, rfl, rfl⟩
    · exact extends_of_fix h _ _ (faithful.value_of_event old)
    · have met := (extends_after_fix h (by simp) t.known).1 (PartialValuation.extends_refl _)
      rw [Event.value_ofValue]
      exact met.2
  · intro f c flags found up
    rcases fix_cases h with ⟨rfl, -, -, recorded⟩ | ⟨-, -, rfl⟩ | ⟨-, -, rfl⟩
    · apply (mem_events_of_fix faithful h f c).2
      rcases flag_of_record recorded found up with ⟨rfl, rfl⟩ | ⟨before, old, stood⟩
      · exact Or.inr ⟨rfl, rfl, rfl⟩
      · exact Or.inl (faithful.event_of_flag old stood)
    · exact faithful.event_of_flag found up
    · exact faithful.event_of_flag found up

theorem drain_cases {s t : Domains} (faithful : s.Faithful) {events : List (Event × DomainId)}
    (h : s.drain = .ok (events, t)) :
    events = s.pending.events ∧ t.values = s.values ∧ t.pending.events = [] ∧ t.Faithful := by
  obtain ⟨⟨handed, pending⟩, drained, h⟩ := bind_eq_ok_iff.1 h
  obtain ⟨rfl, rfl⟩ := pure_pair_eq_ok_iff.1 h
  obtain ⟨present, erased, h⟩ := bind_eq_ok_iff.1 drained
  obtain ⟨rfl, rfl⟩ := pure_pair_eq_ok_iff.1 h
  have flagged := foldlM_keeps
    (fun rest (present : Table DomainId EventSet) => ∀ e d flags,
      present.get? d = some flags → flags.contains e = true → (e, d) ∈ rest)
    ?_ (fun _ _ _ => faithful.event_of_flag) erased
  · refine ⟨rfl, rfl, rfl, ?_, ?_⟩
    · intro e d member
      cases member
    · intro e d flags found up
      exact absurd (flagged e d flags found up) List.not_mem_nil
  · intro ⟨f, c⟩ rest before after kept step e d flags found up
    obtain ⟨stored, put, h⟩ := bind_eq_ok_iff.1 step
    simp only [Table.get?_of_set h, DomainId.index_inj] at found
    split at found
    · next same =>
      rw [← Option.some.inj found, EventSet.contains_erase, Bool.and_eq_true] at up
      have member := kept e d stored (same ▸ Table.get_eq_ok_iff.1 put) up.2
      rcases List.mem_cons.1 member with first | later
      · cases first
        simp at up
      · exact later
    · next other =>
      rcases List.mem_cons.1 (kept e d flags found up) with first | later
      · cases first
        exact absurd rfl other
      · exact later

theorem known_congr {s t : Domains} (h : t.values = s.values) : t.known = s.known := by
  funext d
  rw [known, known, h]

@[simp] theorem known_grow (s : Domains) : s.grow.known = s.known := by
  funext d
  simp only [known, grow, Table.get?_push]
  split
  · next new =>
    rw [(Table.get?_eq_none_iff _ _).2 (Nat.le_of_eq new.symm)]
    rfl
  · rfl

theorem Faithful.grow {s : Domains} (faithful : s.Faithful) : s.grow.Faithful := by
  constructor
  · intro e d member
    rw [known_grow]
    exact faithful.value_of_event member
  · intro e d flags found up
    simp only [Domains.grow, PendingEvents.grow, Table.get?_push] at found
    split at found
    · cases found
      simp at up
    · exact faithful.event_of_flag found up

end Domains
end PseudoBoolean
