import PseudoBoolean.Proofs.Returns

/-!
The record of assignments. A domain gets a value at most once, and when it does the event is
recorded whatever the flags say; so the pending events of a store are the assignments that made it
since it was last drained, each once and in their order.
-/
namespace PseudoBoolean
namespace Domains
variable {s t : Domains} {l : List (Event × DomainId)}

/-- `l` lists the values that domains of the store were given since it was last drained, oldest
    first. -/
inductive Assigned : List (Event × DomainId) → Domains → Prop where
  | empty : Assigned [] {}
  | grown {l : List (Event × DomainId)} {s : Domains} : Assigned l s → Assigned l s.grow
  | fixed {l : List (Event × DomainId)} {s t : Domains} {d : DomainId} {v : Bool} :
      Assigned l s → s.fix d v = .ok (.changed, t) → Assigned (l ++ [(.ofValue v, d)]) t
  | drained {l events : List (Event × DomainId)} {s t : Domains} :
      Assigned l s → s.drain = .ok (events, t) → Assigned [] t

theorem Assigned.tracked (h : Assigned l s) : s.Tracked := by
  induction h with
  | empty => constructor <;> simp [size, Table.size]
  | grown _ ih => exact ih.grow
  | fixed _ fixed ih => exact ih.of_fix fixed
  | drained _ drained ih => exact ih.of_drain drained

theorem Assigned.faithful (h : Assigned l s) : s.Faithful := by
  induction h with
  | empty => constructor <;> simp [Table.get?]
  | grown _ ih => exact ih.grow
  | fixed _ fixed ih => exact ih.of_fix fixed
  | drained _ drained ih => exact (drain_cases ih drained).2.2.2

/-- The flags never hide an assignment from the record. -/
theorem Assigned.events_eq (h : Assigned l s) : s.pending.events = l := by
  induction h with
  | empty => rfl
  | grown _ ih => exact ih
  | drained _ drained _ => exact (frame_of_drain drained).2.2.1
  | @fixed l s t d v before fixed ih =>
    obtain ⟨unknown, -, recorded⟩ := known_of_fix_changed fixed
    obtain ⟨flags, got, recorded⟩ := bind_eq_ok_iff.1 recorded
    split at recorded
    · next up =>
      -- a flag stands for an event, and that for a value
      have member := before.faithful.event_of_flag (Table.get_eq_ok_iff.1 got) up
      rw [before.faithful.value_of_event member] at unknown
      cases unknown
    · obtain ⟨written, -, recorded⟩ := bind_eq_ok_iff.1 recorded
      rw [← pure_eq_ok_iff.1 recorded, ih]

theorem Assigned.known_eq (h : Assigned l s) {e : Event} {d : DomainId} (member : (e, d) ∈ l) :
    s.known d = some e.value := by
  rw [← h.events_eq] at member
  exact h.faithful.value_of_event member

theorem Assigned.distinct (h : Assigned l s) : (l.map Prod.snd).Nodup := by
  induction h with
  | empty => simp
  | grown _ ih => exact ih
  | drained _ _ _ => simp
  | @fixed l s t d v before fixed ih =>
    have unknown := (known_of_fix_changed fixed).1
    rw [List.map_append, List.nodup_append]
    refine ⟨ih, by simp, ?_⟩
    intro c member c' single same
    obtain ⟨⟨e, c⟩, recorded, rfl⟩ := List.mem_map.1 member
    rw [List.map_singleton, List.mem_singleton] at single
    have again : c = d := same.trans single
    rw [again] at recorded
    rw [before.known_eq recorded] at unknown
    cases unknown

theorem Assigned.fix (h : Assigned l s) {d : DomainId} {v : Bool} {r : Fixing}
    (fixed : s.fix d v = .ok (r, t)) :
    ∃ more, Assigned (l ++ more) t ∧ ∀ event ∈ more, s.known event.2 = none := by
  rcases fix_cases fixed with ⟨rfl, unknown, -⟩ | ⟨-, -, rfl⟩ | ⟨-, -, rfl⟩
  · refine ⟨[(.ofValue v, d)], h.fixed fixed, ?_⟩
    intro event member
    rw [List.mem_singleton.1 member]
    exact unknown
  · exact ⟨[], by simpa using h, by simp⟩
  · exact ⟨[], by simpa using h, by simp⟩

theorem Assigned.leadsTo (h : Assigned l s) (fixings : s.LeadsTo t) :
    ∃ more, Assigned (l ++ more) t ∧ ∀ event ∈ more, s.known event.2 = none := by
  induction fixings generalizing l with
  | refl s => exact ⟨[], by simpa using h, by simp⟩
  | @fix s u t d v r step _ ih =>
    obtain ⟨first, recorded, open_⟩ := h.fix step
    obtain ⟨rest, recorded, later⟩ := ih recorded
    refine ⟨first ++ rest, by rwa [List.append_assoc] at recorded, ?_⟩
    intro event member
    rcases List.mem_append.1 member with early | late
    · exact open_ event early
    · -- what has no value later had none before
      have still := later event late
      cases before : s.known event.2 with
      | none => rfl
      | some b =>
        rw [extends_of_fix step _ _ before] at still
        cases still

end Domains
end PseudoBoolean
