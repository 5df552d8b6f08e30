import PseudoBoolean.Proofs.Bookkeeping
import PseudoBoolean.Proofs.Histories

/-!
The agenda as a stable priority queue. Whatever was enqueued, popped and cleared before, a
propagator is on the agenda if it was enqueued and has neither been popped nor cleared away since;
it waits in the lane of the priority that it came with, behind those that came earlier. So what is
popped is the one that came first among those of the highest priority.
-/
namespace PseudoBoolean
namespace Agenda

inductive Request where
  | enqueue (id : PropagatorId) (p : Priority)
  | pop
  | clear
deriving DecidableEq, Repr

def serve (a : Agenda) : Request → Checked (Option PropagatorId × Agenda)
  | .enqueue id p => do return (none, ← a.enqueue id p)
  | .pop => a.pop
  | .clear => return (none, a.clear)

def attendance : Traffic (Request × Option PropagatorId) PropagatorId where
  brings x id := ∃ p, x.1 = .enqueue id p
  takes x id := x = (.pop, some id) ∨ x.1 = .clear
  apart := by
    rintro ⟨request, answer⟩ id ⟨p, rfl⟩ (popped | cleared)
    · cases popped
    · cases cleared

variable {h : List (Request × Option PropagatorId)} {x : Request × Option PropagatorId}
  {a b : Agenda} {id j : PropagatorId} {p q : Priority} {answer : Option PropagatorId} {m n : Nat}

theorem brings_enqueue : attendance.brings (.enqueue id p, answer) j ↔ j = id := by
  constructor
  · rintro ⟨q, same⟩
    cases same
    rfl
  · rintro rfl
    exact ⟨p, rfl⟩

theorem not_takes_enqueue : ¬ attendance.takes (.enqueue id p, answer) j := by
  rintro (popped | cleared)
  · cases popped
  · cases cleared

theorem not_brings_pop : ¬ attendance.brings (.pop, answer) j := by
  rintro ⟨p, same⟩
  cases same

theorem takes_pop : attendance.takes (.pop, answer) j ↔ answer = some j := by
  constructor
  · rintro (popped | cleared)
    · cases popped
      rfl
    · cases cleared
  · rintro rfl
    exact Or.inl rfl

def JoinedAt (h : List (Request × Option PropagatorId)) (id : PropagatorId) (p : Priority)
    (n : Nat) : Prop :=
  attendance.CameAt h id n ∧ ∃ answer, h[n]? = some (.enqueue id p, answer)

theorem JoinedAt.stands (joined : JoinedAt h id p n) : attendance.Stands h id :=
  Traffic.stands_of_cameAt joined.1

theorem JoinedAt.concat (joined : JoinedAt h id p n) (kept : ¬ attendance.takes x id) :
    JoinedAt (h ++ [x]) id p n := by
  obtain ⟨came, answer, entry⟩ := joined
  refine ⟨Traffic.cameAt_concat.2 (Or.inl ⟨came, kept⟩), answer, ?_⟩
  rw [List.getElem?_append_left (Traffic.lt_of_cameAt came)]
  exact entry

theorem joinedAt_of_new (new : ¬ attendance.Stands h id) (p : Priority)
    (answer : Option PropagatorId) : JoinedAt (h ++ [(.enqueue id p, answer)]) id p h.length :=
  ⟨Traffic.cameAt_concat.2 (Or.inr ⟨rfl, ⟨p, rfl⟩, new⟩), answer, List.getElem?_concat_length⟩

theorem JoinedAt.unique (first : JoinedAt h id p m) (second : JoinedAt h id q n) :
    p = q ∧ m = n := by
  obtain ⟨came, answer, entry⟩ := first
  obtain ⟨came', answer', entry'⟩ := second
  obtain rfl := Traffic.cameAt_unique came came'
  rw [entry] at entry'
  cases entry'
  exact ⟨rfl, rfl⟩

structure InLine (h : List (Request × Option PropagatorId)) (p : Priority)
    (l : List PropagatorId) : Prop where
  joined : ∀ {id}, id ∈ l → ∃ n, JoinedAt h id p n
  ordered : l.Pairwise (attendance.Before h)

theorem inLine_nil : InLine h p [] := ⟨by simp, List.Pairwise.nil⟩

theorem InLine.concat {l : List PropagatorId} (line : InLine h p l)
    (kept : ∀ {id}, id ∈ l → ¬ attendance.takes x id) : InLine (h ++ [x]) p l := by
  constructor
  · intro id member
    obtain ⟨n, joined⟩ := line.joined member
    exact ⟨n, joined.concat (kept member)⟩
  · apply List.Pairwise.imp_of_mem _ line.ordered
    intro id j first second before
    exact before.concat (kept first) (kept second)

theorem InLine.tail {l : List PropagatorId} (line : InLine h p (id :: l)) : InLine h p l :=
  ⟨fun member => line.joined (List.mem_cons_of_mem id member), line.ordered.of_cons⟩

theorem InLine.join {l : List PropagatorId} (line : InLine h p l)
    (new : ¬ attendance.Stands h id) : InLine (h ++ [(.enqueue id p, answer)]) p (l ++ [id]) := by
  have before := line.concat (x := (.enqueue id p, answer)) fun _ => not_takes_enqueue
  constructor
  · intro j member
    rcases List.mem_append.1 member with old | last
    · exact before.joined old
    · obtain rfl := List.mem_singleton.1 last
      exact ⟨h.length, joinedAt_of_new new p answer⟩
  · rw [List.pairwise_append]
    refine ⟨before.ordered, List.pairwise_singleton _ _, ?_⟩
    intro j old i last
    obtain rfl := List.mem_singleton.1 last
    obtain ⟨n, joined⟩ := line.joined old
    exact Traffic.before_of_new joined.stands not_takes_enqueue (brings_enqueue.2 rfl) new

structure Ranked (h : List (Request × Option PropagatorId)) (a : Agenda) : Prop where
  stands : ∀ {id}, a.contains id = true ↔ attendance.Stands h id
  inLine : ∀ p, InLine h p (a.lane p)
  wellFormed : a.WellFormed
  tallied : ∃ n, a.Tallied n

theorem ranked_empty : Ranked [] {} where
  stands := by
    intro id
    simp [Traffic.not_stands_nil, contains, Table.get?]
  inLine := by
    intro p
    cases p <;> exact inLine_nil
  wellFormed := wellFormed_empty
  tallied := ⟨0, tallied_empty 0⟩

namespace Ranked

theorem enqueue (ranked : Ranked h a) (done : a.enqueue id p = .ok b) :
    Ranked (h ++ [(.enqueue id p, answer)]) b := by
  constructor
  · intro j
    rw [contains_enqueue done, Bool.or_eq_true, decide_eq_true_eq, ranked.stands,
      Traffic.stands_concat, brings_enqueue, and_iff_left not_takes_enqueue]
  · intro q
    have kept := (ranked.inLine q).concat (x := (.enqueue id p, answer)) fun _ => not_takes_enqueue
    rcases enqueue_cases done with ⟨-, rfl⟩ | ⟨new, lanes, -, -⟩
    · exact kept
    · rw [lanes]
      split
      · next same =>
        subst same
        exact (ranked.inLine q).join (by rw [← ranked.stands, new]; decide)
      · exact kept
  · exact ranked.wellFormed.enqueue done
  · obtain ⟨n, tallied⟩ := ranked.tallied
    have below : id.index < max n (id.index + 1) := by omega
    exact ⟨_, (tallied.mono (Nat.le_max_left _ _)).enqueue done below⟩

theorem pop_none (ranked : Ranked h a) (done : a.pop = .ok (none, b)) :
    Ranked (h ++ [(.pop, none)]) b ∧ ∀ id, ¬ attendance.Stands h id := by
  obtain ⟨rfl, nobody⟩ := Agenda.pop_none ranked.wellFormed done
  have idle : ∀ j, ¬ attendance.takes (.pop, none) j := fun j taken => by cases takes_pop.1 taken
  constructor
  · constructor
    · intro j
      rw [ranked.stands, Traffic.stands_concat, or_iff_right not_brings_pop,
        and_iff_left (idle j)]
    · exact fun p => (ranked.inLine p).concat fun _ => idle _
    · exact ranked.wellFormed
    · exact ranked.tallied
  · intro id stands
    rw [← ranked.stands, nobody] at stands
    cases stands

theorem pop_some (ranked : Ranked h a) (done : a.pop = .ok (some id, b)) :
    Ranked (h ++ [(.pop, some id)]) b := by
  obtain ⟨p, later, rest, -, waits, lanes, contained, -⟩ := Agenda.pop_some done
  obtain ⟨n, tallied⟩ := ranked.tallied
  have after := (tallied.pop done).1
  have others : ∀ {q j}, j ∈ b.lane q → ¬ attendance.takes (.pop, some id) j := by
    intro q j member taken
    have here := after.flagged (mem_waiting.2 ⟨q, member⟩)
    rw [← Option.some.inj (takes_pop.1 taken), contained] at here
    simp at here
  constructor
  · intro j
    rw [contained, Traffic.stands_concat, or_iff_right not_brings_pop, takes_pop, Bool.and_eq_true,
      ranked.stands, and_comm, Option.some.injEq, eq_comm (a := id)]
    simp
  · intro q
    apply InLine.concat _ others
    rw [lanes]
    split
    · next same =>
      have whole := ranked.inLine p
      rw [waits] at whole
      exact same ▸ whole.tail
    · exact ranked.inLine q
  · exact ranked.wellFormed.pop done
  · exact ⟨n, after⟩

end Ranked

theorem ranked_clear (h : List (Request × Option PropagatorId)) (a : Agenda) :
    Ranked (h ++ [(.clear, answer)]) a.clear := by
  constructor
  · intro j
    have idle : ¬ attendance.brings (.clear, answer) j := by
      rintro ⟨p, same⟩
      cases same
    have taken : attendance.takes (.clear, answer) j := Or.inr rfl
    rw [contains_clear, Traffic.stands_concat]
    simp [idle, taken]
  · intro p
    rw [lane_clear]
    exact inLine_nil
  · exact wellFormed_clear a
  · exact ⟨0, tallied_clear a 0⟩

theorem Ranked.serve (ranked : Ranked h a) (x : Request) :
    ∃ answer b, a.serve x = .ok (answer, b) ∧ Ranked (h ++ [(x, answer)]) b := by
  cases x with
  | enqueue id p =>
    obtain ⟨b, done⟩ := returns_enqueue a id p
    refine ⟨none, b, ?_, ranked.enqueue done⟩
    rw [Agenda.serve, done]
    rfl
  | pop =>
    obtain ⟨n, tallied⟩ := ranked.tallied
    obtain ⟨⟨answer, b⟩, done⟩ := returns_pop tallied
    cases answer with
    | none => exact ⟨none, b, done, (ranked.pop_none done).1⟩
    | some id => exact ⟨some id, b, done, ranked.pop_some done⟩
  | clear => exact ⟨none, a.clear, rfl, ranked_clear h a⟩

def FirstOfHighest (h : List (Request × Option PropagatorId)) (id : PropagatorId) : Prop :=
  ∃ p n, JoinedAt h id p n ∧
    ∀ j q m, JoinedAt h j q m → j ≠ id → p.code < q.code ∨ (p = q ∧ n < m)

theorem Ranked.firstOfHighest (ranked : Ranked h a) (done : a.pop = .ok (some id, b)) :
    FirstOfHighest h id := by
  obtain ⟨p, later, rest, present, waits, -⟩ := Agenda.pop_some done
  have line := ranked.inLine p
  rw [waits] at line
  obtain ⟨n, joined⟩ := line.joined List.mem_cons_self
  refine ⟨p, n, joined, ?_⟩
  intro j q m other apart
  obtain ⟨r, waiting⟩ := ranked.wellFormed.waits (ranked.stands.2 other.stands)
  obtain ⟨k, same⟩ := (ranked.inLine r).joined waiting
  obtain ⟨rfl, rfl⟩ := same.unique other
  by_cases here : r = p
  · subst here
    rw [waits] at waiting
    have behind := (List.mem_cons.1 waiting).resolve_left apart
    have before := (List.pairwise_cons.1 line.ordered).1 j behind
    exact Or.inr ⟨rfl, before.lt joined.1 other.1⟩
  · have listed := (ranked.wellFormed.listed r).2 (List.ne_nil_of_mem waiting)
    have ascending := ranked.wellFormed.ascending
    rw [present] at listed ascending
    have further := (List.mem_cons.1 listed).resolve_left here
    exact Or.inl ((List.pairwise_cons.1 ascending).1 r further)

def CanJoin (a : Agenda) (id : PropagatorId) : Prop :=
  ∀ p, ∃ b, a.enqueue id p = .ok b ∧ b.contains id = true ∧ b.numQueued = a.numQueued + 1

theorem canJoin_of_absent (absent : a.contains id = false) : a.CanJoin id := by
  intro p
  obtain ⟨b, done⟩ := returns_enqueue a id p
  refine ⟨b, done, ?_, ?_⟩
  · rw [contains_enqueue done]
    simp
  · rw [numQueued_of_enqueue done, absent]
    rfl

/-- What an agenda does, told from its history alone. -/
structure StableQueue (h : List (Request × Option PropagatorId)) (a : Agenda) : Prop where
  contains_iff : ∀ id, a.contains id = true ↔ attendance.Stands h id
  counts : ∃ ids : List PropagatorId, ids.Nodup ∧ (∀ id, id ∈ ids ↔ attendance.Stands h id) ∧
    a.numQueued = ids.length
  ignores : ∀ id p, attendance.Stands h id → a.enqueue id p = .ok a
  admits : ∀ id, ¬ attendance.Stands h id → a.CanJoin id
  clears : ∀ id, a.clear.contains id = false ∧ a.clear.CanJoin id
  pops : ∃ popped b, a.pop = .ok (popped, b) ∧
    (popped = none ↔ ∀ id, ¬ attendance.Stands h id) ∧
    ∀ id, popped = some id → FirstOfHighest h id ∧ b.contains id = false ∧ b.CanJoin id

theorem Ranked.stableQueue (ranked : Ranked h a) : a.StableQueue h := by
  obtain ⟨n, tallied⟩ := ranked.tallied
  constructor
  · exact fun id => ranked.stands
  · refine ⟨a.waiting, tallied.distinct, ?_, tallied.numQueued⟩
    intro id
    rw [← ranked.stands]
    exact ⟨tallied.flagged, fun here => mem_waiting.2 (ranked.wellFormed.waits here)⟩
  · exact fun id p stands => enqueue_of_contains (ranked.stands.2 stands) p
  · intro id absent
    apply canJoin_of_absent
    rw [← Bool.not_eq_true, ranked.stands]
    exact absent
  · exact fun id => ⟨contains_clear a id, canJoin_of_absent (contains_clear a id)⟩
  · obtain ⟨⟨popped, b⟩, done⟩ := returns_pop tallied
    refine ⟨popped, b, done, ?_, ?_⟩
    · cases popped with
      | none => exact iff_of_true rfl (ranked.pop_none done).2
      | some id =>
        obtain ⟨p, n, joined, -⟩ := ranked.firstOfHighest done
        exact iff_of_false (by simp) fun nobody => nobody id joined.stands
    · rintro id rfl
      have gone : b.contains id = false := by simp [contains_pop done]
      exact ⟨ranked.firstOfHighest done, gone, canJoin_of_absent gone⟩

/-- Every sequence of requests to the empty agenda is served, and leaves a stable queue. -/
theorem stableQueue_of_serveAll (requests : List Request) :
    ∃ answers a, serveAll serve {} requests = .ok (answers, a) ∧
      a.StableQueue (requests.zip answers) := by
  let Keeps (h : List (Request × Option PropagatorId)) (_ : List Request) (a : Agenda) : Prop :=
    Ranked h a
  have start : Keeps [] requests {} := ranked_empty
  obtain ⟨answers, a, served, ranked⟩ := serveAll_keeps Keeps (fun ranked => ranked.serve _) start
  exact ⟨answers, a, served, ranked.stableQueue⟩

example :
    (serveAll serve {} [.enqueue ⟨4⟩ .low, .enqueue ⟨2⟩ .medium, .enqueue ⟨4⟩ .high,
      .enqueue ⟨7⟩ .medium, .pop, .enqueue ⟨2⟩ .low, .pop, .pop, .pop, .pop]).map Prod.fst =
    .ok [none, none, none, none, some ⟨2⟩, none, some ⟨7⟩, some ⟨4⟩, some ⟨2⟩, none] := by
  decide +kernel

end Agenda
end PseudoBoolean
