import Mathlib.Data.List.Induction
import PseudoBoolean.Proofs.Subscriptions

/-!
The lists of subscribers in full: who is told of an event on a domain, and in which order. A list
holds everybody who asked and has not been taken out, once, in the order of the first requests.
-/
namespace PseudoBoolean

section eraseDups
variable {α : Type} [DecidableEq α]

theorem eraseDups_concat (l : List α) (a : α) :
    (l ++ [a]).eraseDups = if a ∈ l then l.eraseDups else l.eraseDups ++ [a] := by
  rw [List.eraseDups_append]
  by_cases old : a ∈ l <;> simp [old, List.removeAll, List.eraseDups_cons]

theorem nodup_eraseDups (l : List α) : l.eraseDups.Nodup := by
  induction l using List.reverseRecOn with
  | nil => simp
  | append_singleton l a ih =>
    rw [eraseDups_concat]
    split
    · exact ih
    · next new =>
      rw [List.nodup_append]
      refine ⟨ih, by simp, ?_⟩
      intro v member x single same
      rw [List.mem_singleton.1 single] at same
      exact new (List.mem_eraseDups.1 (same ▸ member))

end eraseDups

namespace Audience

theorem eraseDups_append_singleton (l : List Subscriber) (w : Subscriber) :
    (l ++ [w]).eraseDups = join w l.eraseDups := by
  simp only [eraseDups_concat, join, List.mem_eraseDups]

theorem foldl_join_eraseDups (l more : List Subscriber) :
    more.foldl (fun l w => join w l) l.eraseDups = (l ++ more).eraseDups := by
  induction more generalizing l with
  | nil => simp
  | cons w rest ih =>
    rw [List.foldl_cons, ← eraseDups_append_singleton, ih, List.append_assoc,
      List.singleton_append]

theorem foldl_join_filter {p : Subscriber → Bool} {l more : List Subscriber}
    (stay : ∀ w ∈ more, p w = true) :
    more.foldl (fun l w => join w l) (l.filter p) =
      (more.foldl (fun l w => join w l) l).filter p := by
  induction more generalizing l with
  | nil => rfl
  | cons w rest ih =>
    have first : join w (l.filter p) = (join w l).filter p := by
      have stays := stay w List.mem_cons_self
      by_cases asked : w ∈ l <;> simp [join, asked, stays]
    rw [List.foldl_cons, List.foldl_cons, first, ih fun v later => stay v (.tail w later)]

end Audience

namespace Registration

def asksFor (r : Registration) (e : Event) (d : DomainId) : Bool :=
  r.literal.domain = d && (r.literal.domainEvents r.events).contains e

def naming (id : PropagatorId) (rs : List Registration) (e : Event) (d : DomainId) :
    List Subscriber :=
  (rs.filter (·.asksFor e d)).map fun r => ⟨id, r.localId⟩

theorem propagator_of_mem_naming {id : PropagatorId} {rs : List Registration} {e : Event}
    {d : DomainId} {w : Subscriber} (h : w ∈ naming id rs e d) : w.propagator = id := by
  obtain ⟨r, -, rfl⟩ := List.mem_map.1 h
  rfl

end Registration

namespace Subscriptions
variable {s t : Subscriptions} {e : Event} {c d : DomainId} {w : Subscriber} {id : PropagatorId}

/-- Who is told of the event on the domain, in order; a domain that does not exist has nobody. -/
def audience (s : Subscriptions) (e : Event) (d : DomainId) : List Subscriber :=
  ((s.audiences.get? d).map (·.hearing e)).getD []

theorem audience_of_subscribers {l : List Subscriber} (h : s.subscribers e d = .ok l) :
    l = s.audience e d := by
  obtain ⟨a, got, h⟩ := bind_eq_ok_iff.1 h
  rw [← pure_eq_ok_iff.1 h, audience, Table.get_eq_ok_iff.1 got]
  rfl

@[simp] theorem audience_empty : ({} : Subscriptions).audience e d = [] := by
  simp [audience, Table.get?]

@[simp] theorem audience_grow : s.grow.audience e d = s.audience e d := by
  unfold audience grow
  simp only [Table.get?_push]
  split
  · next new =>
    rw [(Table.get?_eq_none_iff _ _).2 (Nat.le_of_eq new.symm)]
    cases e <;> rfl
  · rfl

theorem audience_register {r : Registration} (h : s.register id r = .ok t) :
    t.audience e c = if r.asksFor e c then Audience.join ⟨id, r.localId⟩ (s.audience e c)
      else s.audience e c := by
  obtain ⟨watched, -, h⟩ := bind_eq_ok_iff.1 h
  obtain ⟨audiences, enlisted, h⟩ := bind_eq_ok_iff.1 h
  rw [← pure_eq_ok_iff.1 h]
  obtain ⟨a, found, others⟩ := Table.get?_of_update enlisted
  simp only [audience, others, DomainId.index_inj, Registration.asksFor, Bool.and_eq_true,
    decide_eq_true_eq]
  by_cases same : c = (Variable.literal r.literal).domain
  · subst same
    rw [if_pos rfl, found]
    simp only [Option.map_some, Option.getD_some, Audience.hearing_enlist]
    split
    · next asked => rw [if_pos ⟨rfl, asked⟩]
    · next unasked => rw [if_neg fun both => unasked both.2]
  · rw [if_neg same, if_neg fun both => same both.1.symm]

theorem audience_registerAll {rs : List Registration}
    (h : rs.foldlM (register · id) s = .ok t) :
    t.audience e d =
      (Registration.naming id rs e d).foldl (fun l w => Audience.join w l) (s.audience e d) := by
  induction rs generalizing s with
  | nil =>
    rw [← pure_eq_ok_iff.1 h]
    rfl
  | cons r rest ih =>
    rw [List.foldlM_cons] at h
    obtain ⟨u, first, later⟩ := bind_eq_ok_iff.1 h
    rw [ih later, audience_register first]
    by_cases asked : r.asksFor e d = true <;> simp [Registration.naming, asked]

/-- Whoever is in a list is in one of a domain that is listed with the propagator. -/
def Covered (s : Subscriptions) : Prop :=
  ∀ ⦃e d w⦄, w ∈ s.audience e d →
    ∃ domains, s.watched.get? w.propagator = some domains ∧ d ∈ domains

theorem covered_empty : ({} : Subscriptions).Covered := by
  intro e d w member
  simp at member

theorem Covered.grow (covered : s.Covered) : s.grow.Covered := by
  intro e d w member
  rw [audience_grow] at member
  exact covered member

theorem watched_register {r : Registration} (h : s.register id r = .ok t) :
    (∃ domains, t.watched.get? id = some domains ∧ r.literal.domain ∈ domains) ∧
      ∀ {p domains}, s.watched.get? p = some domains →
        ∃ more, t.watched.get? p = some more ∧ domains ⊆ more := by
  obtain ⟨watched, listed, h⟩ := bind_eq_ok_iff.1 h
  obtain ⟨audiences, -, h⟩ := bind_eq_ok_iff.1 h
  rw [← pure_eq_ok_iff.1 h]
  obtain ⟨before, found, after⟩ := Table.get?_of_update listed
  simp only [after, PropagatorId.index_inj]
  constructor
  · rw [if_pos trivial]
    refine ⟨_, rfl, ?_⟩
    split
    · next inside => exact inside
    · exact List.mem_append_right _ (List.mem_singleton.2 rfl)
  · intro p domains stored
    have present : Key.index p < s.watched.size := by
      apply Nat.lt_of_not_le
      intro outside
      rw [(Table.get?_eq_none_iff _ _).2 outside] at stored
      cases stored
    by_cases same : p = id
    · subst same
      rw [Table.get?_extendTo, if_pos present, stored] at found
      cases found
      rw [if_pos rfl]
      refine ⟨_, rfl, ?_⟩
      split
      · exact List.Subset.refl _
      · exact List.subset_append_left _ _
    · rw [if_neg same, Table.get?_extendTo, if_pos present]
      exact ⟨domains, stored, List.Subset.refl _⟩

theorem Covered.register {r : Registration} (covered : s.Covered) (h : s.register id r = .ok t) :
    t.Covered := by
  intro e d w member
  obtain ⟨own, others⟩ := watched_register h
  have old : w ∈ s.audience e d →
      ∃ domains, t.watched.get? w.propagator = some domains ∧ d ∈ domains := by
    intro earlier
    obtain ⟨domains, stored, inside⟩ := covered earlier
    obtain ⟨more, listed, subset⟩ := others stored
    exact ⟨more, listed, subset inside⟩
  rw [audience_register h] at member
  split at member
  · next asked =>
    rcases Audience.mem_join.1 member with rfl | earlier
    · have here : r.literal.domain = d := of_decide_eq_true (Bool.and_eq_true_iff.1 asked).1
      exact here ▸ own
    · exact old earlier
  · exact old member

theorem Covered.registerAll {rs : List Registration} (covered : s.Covered)
    (h : rs.foldlM (Subscriptions.register · id) s = .ok t) : t.Covered :=
  foldlM_keeps (fun _ (u : Subscriptions) => u.Covered)
    (fun kept step => Covered.register kept step) covered h

theorem audience_unsubscribe (covered : s.Covered) (h : s.unsubscribe id = .ok t) :
    t.audience e d = (s.audience e d).filter (·.propagator ≠ id) := by
  cases known : s.watched.get? id with
  | none =>
    rw [unsubscribe_of_unknown known] at h
    cases h
    apply Eq.symm
    apply List.filter_eq_self.2
    intro w member
    obtain ⟨domains, stored, -⟩ := covered member
    apply decide_eq_true
    intro same
    rw [same, known] at stored
    cases stored
  | some domains =>
    unfold unsubscribe at h
    rw [known] at h
    obtain ⟨audiences, dismissed, h⟩ := bind_eq_ok_iff.1 h
    obtain ⟨watched, -, h⟩ := bind_eq_ok_iff.1 h
    rw [← pure_eq_ok_iff.1 h]
    -- the domains that were visited are clean; only those still to be visited can have the rest
    have visited := foldlM_keeps (fun rest (u : Table DomainId Audience) =>
      ((u.get? d).map (·.hearing e)).getD [] = s.audience e d ∧
          (d ∈ domains → d ∈ rest) ∨
        ((u.get? d).map (·.hearing e)).getD [] = (s.audience e d).filter (·.propagator ≠ id))
      ?step (Or.inl ⟨rfl, fun inside => inside⟩) dismissed
    · rcases visited with ⟨same, gone⟩ | clean
      · have absent : d ∉ domains := fun inside => List.not_mem_nil (gone inside)
        apply same.trans
        apply Eq.symm
        apply List.filter_eq_self.2
        intro w member
        obtain ⟨listed, stored, inside⟩ := covered member
        apply decide_eq_true
        intro own
        rw [own, known] at stored
        cases stored
        exact absent inside
      · exact clean
    case step =>
      intro c rest u v kept step
      obtain ⟨a, found, after⟩ := Table.get?_of_update step
      simp only [after, DomainId.index_inj]
      by_cases same : d = c
      · subst same
        rw [found] at kept
        simp only [if_true, Option.map_some, Option.getD_some, Audience.hearing_dismiss] at kept ⊢
        rcases kept with ⟨all, -⟩ | clean
        · exact Or.inr (by rw [all])
        · refine Or.inr ?_
          rw [clean, List.filter_filter]
          simp
      · rw [if_neg same]
        rcases kept with ⟨all, left⟩ | clean
        · exact Or.inl ⟨all, fun inside => (List.mem_cons.1 (left inside)).resolve_left same⟩
        · exact Or.inr clean

theorem Covered.unsubscribe (covered : s.Covered) (h : s.unsubscribe id = .ok t) : t.Covered := by
  intro e d w member
  rw [audience_unsubscribe covered h, List.mem_filter] at member
  obtain ⟨before, other⟩ := member
  obtain ⟨domains, stored, inside⟩ := covered before
  cases known : s.watched.get? id with
  | none =>
    rw [unsubscribe_of_unknown known] at h
    cases h
    exact ⟨domains, stored, inside⟩
  | some listed =>
    unfold Subscriptions.unsubscribe at h
    rw [known] at h
    obtain ⟨audiences, -, h⟩ := bind_eq_ok_iff.1 h
    obtain ⟨watched, cleared, h⟩ := bind_eq_ok_iff.1 h
    rw [← pure_eq_ok_iff.1 h]
    refine ⟨domains, ?_, inside⟩
    have apart : w.propagator ≠ id := of_decide_eq_true other
    simp only [Table.get?_of_set cleared, PropagatorId.index_inj, if_neg apart]
    exact stored

end Subscriptions
end PseudoBoolean
