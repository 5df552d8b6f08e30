import PseudoBoolean.Propagator

/-!
Who hears of what, as a relation. Each operation on the subscriptions is described by what it adds
to the relation or takes from it.
-/
namespace PseudoBoolean

theorem Table.get?_of_update {κ α : Type} [Key κ] {t u : Table κ α} {k : κ} {f : α → α}
    (h : t.update k f = .ok u) :
    ∃ a, t.get? k = some a ∧
      ∀ j, u.get? j = if Key.index j = Key.index k then some (f a) else t.get? j := by
  obtain ⟨a, got, stored⟩ := bind_eq_ok_iff.1 h
  exact ⟨a, Table.get_eq_ok_iff.1 got, Table.get?_of_set stored⟩

namespace Subscriptions

def Hears (s : Subscriptions) (e : Event) (d : DomainId) (w : Subscriber) : Prop :=
  ∃ a, s.audiences.get? d = some a ∧ w ∈ a.hearing e

theorem mem_subscribers {s : Subscriptions} {e : Event} {d : DomainId} {l : List Subscriber}
    (h : s.subscribers e d = .ok l) (w : Subscriber) : w ∈ l ↔ s.Hears e d w := by
  obtain ⟨a, got, h⟩ := bind_eq_ok_iff.1 h
  have stored := Table.get_eq_ok_iff.1 got
  rw [← pure_eq_ok_iff.1 h]
  constructor
  · intro member
    exact ⟨a, stored, member⟩
  · intro ⟨b, found, member⟩
    rw [stored] at found
    cases found
    exact member

theorem hears_empty {e : Event} {d : DomainId} {w : Subscriber} :
    ¬ ({} : Subscriptions).Hears e d w := by
  rintro ⟨a, found, -⟩
  simp [Table.get?] at found

theorem hears_grow {s : Subscriptions} {e : Event} {d : DomainId} {w : Subscriber} :
    s.grow.Hears e d w ↔ s.Hears e d w := by
  unfold Hears grow
  simp only [Table.get?_push]
  split
  · next new =>
    have absent : s.audiences.get? d = none :=
      (Table.get?_eq_none_iff _ _).2 (Nat.le_of_eq new.symm)
    rw [absent]
    cases e <;> simp [Audience.hearing]
  · rfl

theorem hears_subscribe {s t : Subscriptions} {who : Subscriber} {d : DomainId} {events : EventSet}
    (h : s.subscribe who d events = .ok t) {e : Event} {c : DomainId} {w : Subscriber} :
    t.Hears e c w ↔ s.Hears e c w ∨ (c = d ∧ w = who ∧ events.contains e = true) := by
  obtain ⟨watched, -, h⟩ := bind_eq_ok_iff.1 h
  obtain ⟨audiences, enlisted, h⟩ := bind_eq_ok_iff.1 h
  rw [← pure_eq_ok_iff.1 h]
  obtain ⟨a, found, others⟩ := Table.get?_of_update enlisted
  simp only [Hears, others, DomainId.index_inj]
  by_cases same : c = d
  · subst same
    rw [if_pos rfl, found]
    simp only [Option.some.injEq, exists_eq_left', Audience.hearing_enlist, true_and]
    split
    · next asked => rw [Audience.mem_join, or_comm, and_iff_left asked]
    · next unasked => simp [unasked]
  · rw [if_neg same]
    simp [same]

theorem hears_register {s t : Subscriptions} {id : PropagatorId} {r : Registration}
    (fixing : r.events = .fixing) (h : s.register id r = .ok t) {e : Event} {c : DomainId}
    {w : Subscriber} :
    t.Hears e c w ↔ s.Hears e c w ∨ (c = r.literal.domain ∧ w = ⟨id, r.localId⟩) := by
  have h := hears_subscribe h (e := e) (c := c) (w := w)
  rw [Literal.contains_domainEvents, fixing, EventSet.contains_fixing] at h
  simpa using h

theorem hears_registerAll {s t : Subscriptions} {id : PropagatorId} {rs : List Registration}
    (fixing : ∀ r ∈ rs, r.events = .fixing)
    (h : rs.foldlM (register · id) s = .ok t) {e : Event} {d : DomainId} {w : Subscriber} :
    t.Hears e d w ↔ s.Hears e d w ∨ ∃ r ∈ rs, r.literal.domain = d ∧ w = ⟨id, r.localId⟩ := by
  induction rs generalizing s with
  | nil =>
    rw [← pure_eq_ok_iff.1 h]
    simp
  | cons r rest ih =>
    rw [List.foldlM_cons] at h
    obtain ⟨u, first, later⟩ := bind_eq_ok_iff.1 h
    rw [ih (fun q member => fixing q (List.mem_cons_of_mem r member)) later,
      hears_register (fixing r List.mem_cons_self) first, or_assoc]
    simp only [List.mem_cons, exists_eq_or_imp, eq_comm (a := d)]

theorem hears_unsubscribe {s t : Subscriptions} {p : PropagatorId} (h : s.unsubscribe p = .ok t)
    {e : Event} {d : DomainId} {w : Subscriber} :
    (t.Hears e d w → s.Hears e d w) ∧ (w.propagator ≠ p → (t.Hears e d w ↔ s.Hears e d w)) := by
  cases known : s.watched.get? p with
  | none =>
    rw [unsubscribe_of_unknown known] at h
    cases h
    exact ⟨id, fun _ => Iff.rfl⟩
  | some domains =>
    unfold unsubscribe at h
    rw [known] at h
    obtain ⟨audiences, dismissed, h⟩ := bind_eq_ok_iff.1 h
    obtain ⟨watched, -, h⟩ := bind_eq_ok_iff.1 h
    rw [← pure_eq_ok_iff.1 h]
    unfold Hears
    have kept := foldlM_keeps (fun _ (u : Table DomainId Audience) =>
      ((∃ a, u.get? d = some a ∧ w ∈ a.hearing e) →
          ∃ a, s.audiences.get? d = some a ∧ w ∈ a.hearing e) ∧
        (w.propagator ≠ p → ((∃ a, u.get? d = some a ∧ w ∈ a.hearing e) ↔
          ∃ a, s.audiences.get? d = some a ∧ w ∈ a.hearing e))) ?_ ⟨id, fun _ => Iff.rfl⟩ dismissed
    · exact kept
    · intro c rest u v ⟨fewer, others⟩ step
      obtain ⟨a, found, after⟩ := Table.get?_of_update step
      simp only [after, DomainId.index_inj]
      by_cases same : d = c
      · subst same
        rw [if_pos rfl]
        simp only [found, Option.some.injEq, exists_eq_left'] at fewer others ⊢
        simp only [Audience.hearing_dismiss, List.mem_filter, decide_eq_true_eq]
        refine ⟨fun member => fewer member.1, ?_⟩
        intro other
        rw [← others other, and_iff_left other]
      · rw [if_neg same]
        exact ⟨fewer, others⟩

end Subscriptions
end PseudoBoolean
