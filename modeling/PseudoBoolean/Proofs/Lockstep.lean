import PseudoBoolean.Proofs.Confluence
import PseudoBoolean.Proofs.Evolution
import PseudoBoolean.Proofs.StandardProgress

/-!
Two states that are used in the same way. States with the same stable points cannot be told apart by
what propagation makes of them: either both fail, or both come to have the same values. States that
have the same values as well stay so under every decision, and answer alike.
-/
namespace PseudoBoolean
open Standard

def Answer.isSuccess : Answer → Bool
  | .outcome (.error _) | .posted (.error _) => false
  | _ => true

def Operation.IsMove (s : Domains) : Operation Kind → Prop
  | assign l _ => s.Has l
  | propagate => True
  | _ => False

instance (s : Domains) : DecidablePred (Operation.IsMove s)
  | .assign l _ => inferInstanceAs (Decidable (s.Has l))
  | .propagate => isTrue trivial
  | .newLiteral | .value _ | .post _ | .imply _ _ | .reify _ _ | .postAll _ | .implyAll _ _
  | .giveUp | .addPropagator _ => isFalse id

theorem Operation.IsMove.of_size {op : Operation Kind} {s t : Domains} (same : t.size = s.size)
    (move : op.IsMove s) : op.IsMove t := by
  cases op with
  | assign l v => exact (Domains.has_iff_of_size same l).2 move
  | _ => exact move

namespace State
variable {s t u w : State Kind} {l : Literal} {v : Bool} {op : Operation Kind}
  {moves : List (Operation Kind)} {r : Except Inconsistency Unit}

structure InOrder (s : State Kind) : Prop where
  wellFormed : s.WellFormed
  intact : s.Intact

theorem Reachable.inOrder (h : s.Reachable) : s.InOrder := ⟨h.wellFormed, h.intact⟩

theorem InOrder.of_gains (h : s.InOrder) {P : PartialValuation → Prop} (gained : s.Gains t P)
    (evolved : s.Evolves t) : t.InOrder :=
  ⟨(gained h.wellFormed).1, (evolved.intact h.intact).1⟩

theorem returns_assign (h : s.Intact) (has : s.domains.Has l) (v : Bool) :
    Returns (s.assign l v) := by
  unfold assign
  split
  · exact returns_pure _
  · apply (Domains.returns_fixVariable h.domains has v).bind
    intro ⟨fixing, domains⟩ _
    exact returns_pure _

theorem known_of_assign (sound : s.failure = none) (h : s.assign l v = .ok (r, t)) :
    (s.domains.known l.domain ≠ some (!l.view v) ∧ r = .ok () ∧ t.failure = none ∧
        t.domains.known = s.domains.known.learn l.domain (l.view v)) ∨
      (s.domains.known l.domain = some (!l.view v) ∧ r = .error .emptyDomain ∧
        t.failure = some .emptyDomain) := by
  rcases assign_cases h with ⟨i, failure, -⟩ | ⟨-, fixing, domains, fixed, outcome⟩
  · rw [sound] at failure
    cases failure
  have fixed : s.domains.fix l.domain (l.view v) = .ok (fixing, domains) := fixed
  rcases Domains.fix_cases fixed with ⟨rfl, free, learnt, -⟩ | ⟨rfl, value, rfl⟩ | ⟨rfl, value, rfl⟩
  · obtain ⟨-, rfl, rfl⟩ | ⟨never, -⟩ := outcome
    · refine Or.inl ⟨?_, rfl, sound, learnt⟩
      rw [free]
      exact nofun
    · cases never
  · obtain ⟨-, rfl, rfl⟩ | ⟨never, -⟩ := outcome
    · refine Or.inl ⟨?_, rfl, sound, ?_⟩
      · rw [value]
        simp
      · funext d
        unfold PartialValuation.learn
        split
        · next same => exact same ▸ value
        · rfl
    · cases never
  · obtain ⟨met, -⟩ | ⟨-, rfl, rfl⟩ := outcome
    · exact absurd rfl met
    · exact Or.inr ⟨value, rfl, rfl⟩

structure Peers (s t : State Kind) : Prop where
  left : s.InOrder
  right : t.InOrder
  size : s.domains.size = t.domains.size
  stable : ∀ e, s.StableAt e ↔ t.StableAt e

/-- Peers with the same values, unless both have failed. -/
structure Twins (s t : State Kind) : Prop extends Peers s t where
  failed : s.isFailed = t.isFailed
  known : s.isFailed = false → s.domains.known = t.domains.known

theorem Twins.cases (h : s.Twins t) : (s.isFailed = true ∧ t.isFailed = true) ∨
    (s.isFailed = false ∧ t.isFailed = false ∧ s.domains.known = t.domains.known) := by
  cases failed : s.isFailed with
  | true => exact Or.inl ⟨rfl, h.failed ▸ failed⟩
  | false => exact Or.inr ⟨rfl, h.failed ▸ failed, h.known failed⟩

theorem Peers.of_failed (left : s.InOrder) (right : t.InOrder)
    (size : s.domains.size = t.domains.size) (first : s.isFailed = true)
    (second : t.isFailed = true) : s.Twins t := by
  obtain ⟨i, failure⟩ := failure_of_isFailed first
  obtain ⟨j, failure'⟩ := failure_of_isFailed second
  refine ⟨⟨left, right, size, fun e => ?_⟩, first.trans second.symm, fun sound => ?_⟩
  · exact iff_of_false (not_stableAt_of_failure failure e) (not_stableAt_of_failure failure' e)
  · rw [first] at sound
    cases sound

theorem Peers.propagate (h : s.Peers t) :
    ∃ r u q w, s.propagate = .ok (r, u) ∧ t.propagate = .ok (q, w) ∧
      (r = .ok () ↔ q = .ok ()) ∧ (r = .ok () ↔ u.isFailed = false) ∧ u.Twins w := by
  obtain ⟨⟨r, u⟩, first⟩ := returns_propagate h.left.intact
  obtain ⟨⟨q, w⟩, second⟩ := returns_propagate h.right.intact
  have left : u.InOrder := h.left.of_gains (gains_propagate first) (.single (.propagated first))
  have right : w.InOrder := h.right.of_gains (gains_propagate second) (.single (.propagated second))
  have size : u.domains.size = w.domains.size := by
    rw [(intact_of_propagate h.left.intact first).2, (intact_of_propagate h.right.intact second).2,
      h.size]
  refine ⟨r, u, q, w, first, second, ?_⟩
  rcases propagate_cases h.left.wellFormed first with
    ⟨rfl, fixpoint, works⟩ | ⟨i, rfl, failed, never⟩
  · rcases propagate_cases h.right.wellFormed second with
      ⟨rfl, fixpoint', works'⟩ | ⟨j, rfl, failed', never'⟩
    · have same : ∀ e, u.StableAt e ↔ w.StableAt e := by
        intro e
        rw [stableAt_of_works works, stableAt_of_works works', h.stable]
      have sound := isFailed_eq_false_iff.2 fixpoint.sound
      have sound' := isFailed_eq_false_iff.2 fixpoint'.sound
      exact ⟨Iff.rfl, iff_of_true rfl sound, ⟨left, right, size, same⟩, sound.trans sound'.symm,
        fun _ => known_eq_of_stableAt same fixpoint.stableAt fixpoint'.stableAt⟩
    · exact absurd ((h.stable _).1 ((stableAt_of_works works _).1 fixpoint.stableAt)) (never' _)
  · rcases propagate_cases h.right.wellFormed second with
      ⟨rfl, fixpoint', works'⟩ | ⟨j, rfl, failed', never'⟩
    · exact absurd ((h.stable _).2 ((stableAt_of_works works' _).1 fixpoint'.stableAt)) (never _)
    · have failure : u.isFailed = true := Option.isSome_iff_exists.2 ⟨i, failed⟩
      have failure' : w.isFailed = true := Option.isSome_iff_exists.2 ⟨j, failed'⟩
      refine ⟨by simp, by simp [failure], ?_⟩
      exact Peers.of_failed left right size failure failure'

theorem assign_of_isFailed (failed : s.isFailed = true) (h : s.assign l v = .ok (r, t)) :
    r ≠ .ok () ∧ t = s := by
  rcases assign_cases h with ⟨i, -, rfl, rfl⟩ | ⟨sound, -⟩
  · exact ⟨nofun, rfl⟩
  · rw [isFailed_eq_false_iff.2 sound] at failed
    cases failed

theorem Twins.assign (h : s.Twins t) (has : s.domains.Has l) (v : Bool) :
    ∃ r u q w, s.assign l v = .ok (r, u) ∧ t.assign l v = .ok (q, w) ∧
      (r = .ok () ↔ q = .ok ()) ∧ u.Twins w := by
  obtain ⟨⟨r, u⟩, first⟩ := returns_assign h.left.intact has v
  obtain ⟨⟨q, w⟩, second⟩ :=
    returns_assign h.right.intact ((Domains.has_iff_of_size h.size.symm l).2 has) v
  have left : u.InOrder := h.left.of_gains (gains_assign first) (evolves_assign first)
  have right : w.InOrder := h.right.of_gains (gains_assign second) (evolves_assign second)
  have size : u.domains.size = w.domains.size := by
    rw [((evolves_assign first).intact h.left.intact).2,
      ((evolves_assign second).intact h.right.intact).2, h.size]
  refine ⟨r, u, q, w, first, second, ?_⟩
  rcases h.cases with ⟨failed, failed'⟩ | ⟨sound, sound', known⟩
  · obtain ⟨refused, rfl⟩ := assign_of_isFailed failed first
    obtain ⟨refused', rfl⟩ := assign_of_isFailed failed' second
    exact ⟨iff_of_false refused refused', h⟩
  have stable : ∀ e, u.StableAt e ↔ w.StableAt e := by
    intro e
    rw [(gains_assign first h.left.wellFormed).2, (gains_assign second h.right.wellFormed).2,
      h.stable]
  have outcome := known_of_assign (isFailed_eq_false_iff.1 sound) first
  have outcome' := known_of_assign (isFailed_eq_false_iff.1 sound') second
  rw [← known] at outcome'
  rcases outcome with ⟨possible, rfl, unfailed, learnt⟩ | ⟨impossible, rfl, failure⟩
  · obtain ⟨-, rfl, unfailed', learnt'⟩ := outcome'.resolve_right fun other => possible other.1
    refine ⟨Iff.rfl, ⟨left, right, size, stable⟩, ?_, ?_⟩
    · rw [isFailed_eq_false_iff.2 unfailed, isFailed_eq_false_iff.2 unfailed']
    · exact fun _ => learnt.trans learnt'.symm
  · obtain ⟨-, rfl, failure'⟩ := outcome'.resolve_left fun other => other.1 impossible
    refine ⟨Iff.rfl, Peers.of_failed left right size ?_ ?_⟩
    · exact Option.isSome_iff_exists.2 ⟨_, failure⟩
    · exact Option.isSome_iff_exists.2 ⟨_, failure'⟩

theorem isSuccess_outcome_iff {r : Except Inconsistency Unit} :
    (Answer.outcome r).isSuccess = true ↔ r = .ok () := by
  cases r <;> simp [Answer.isSuccess]

theorem Twins.apply (h : s.Twins t) (move : op.IsMove s.domains) :
    ∃ a u b w, op.apply s = .ok (a, u) ∧ op.apply t = .ok (b, w) ∧ a.isSuccess = b.isSuccess ∧
      u.Twins w ∧ u.domains.size = s.domains.size := by
  cases op with
  | assign l v =>
    obtain ⟨r, u, q, w, first, second, alike, twins⟩ := h.assign move v
    refine ⟨.outcome r, u, .outcome q, w, bind_eq_ok_iff.2 ⟨_, first, rfl⟩,
      bind_eq_ok_iff.2 ⟨_, second, rfl⟩, ?_, twins,
      ((evolves_assign first).intact h.left.intact).2⟩
    rw [Bool.eq_iff_iff, isSuccess_outcome_iff, isSuccess_outcome_iff, alike]
  | propagate =>
    obtain ⟨r, u, q, w, first, second, alike, -, twins⟩ := h.toPeers.propagate
    refine ⟨.outcome r, u, .outcome q, w, bind_eq_ok_iff.2 ⟨_, first, rfl⟩,
      bind_eq_ok_iff.2 ⟨_, second, rfl⟩, ?_, twins, (intact_of_propagate h.left.intact first).2⟩
    rw [Bool.eq_iff_iff, isSuccess_outcome_iff, isSuccess_outcome_iff, alike]
  | _ => exact move.elim

/-- Twins stay twins, and answer alike. -/
theorem Twins.run (h : s.Twins t) (each : ∀ op ∈ moves, op.IsMove s.domains) :
    ∃ answers u others w, s.run moves = .ok (answers, u) ∧ t.run moves = .ok (others, w) ∧
      answers.map Answer.isSuccess = others.map Answer.isSuccess ∧ u.Twins w := by
  induction moves generalizing s t with
  | nil => exact ⟨[], s, [], t, rfl, rfl, rfl, h⟩
  | cons op rest ih =>
    obtain ⟨a, s', b, t', first, second, alike, twins, size⟩ := h.apply (each op List.mem_cons_self)
    obtain ⟨answers, u, others, w, run, run', same, last⟩ := ih twins fun op member =>
      Operation.IsMove.of_size size (each op (List.mem_cons_of_mem _ member))
    refine ⟨a :: answers, u, b :: others, w, ?_, ?_, ?_, last⟩
    · exact bind_eq_ok_iff.2 ⟨_, first, bind_eq_ok_iff.2 ⟨_, run, rfl⟩⟩
    · exact bind_eq_ok_iff.2 ⟨_, second, bind_eq_ok_iff.2 ⟨_, run', rfl⟩⟩
    · rw [List.map_cons, List.map_cons, alike, same]

end State
end PseudoBoolean
