import Mathlib.Data.List.Induction
import PseudoBoolean.Proofs.Returns

/-!
Histories. Requests are served one after the other; an entry of the history may bring something in
or take something away. What was brought and has not been taken away since stands, and it stands in
the place of the entry that brought it while it was not there. `Lists` says that a list holds what
stands, in the order in which it came.
-/
namespace PseudoBoolean

section serving
variable {σ τ ρ : Type} {serve : σ → τ → Checked (ρ × σ)}

def serveAll (serve : σ → τ → Checked (ρ × σ)) (s : σ) : List τ → Checked (List ρ × σ)
  | [] => return ([], s)
  | x :: rest => do
    let (answer, s) ← serve s x
    let (answers, s) ← serveAll serve s rest
    return (answer :: answers, s)

theorem serveAll_cons {s between t : σ} {x : τ} {rest : List τ} {answer : ρ} {answers : List ρ}
    (first : serve s x = .ok (answer, between))
    (others : serveAll serve between rest = .ok (answers, t)) :
    serveAll serve s (x :: rest) = .ok (answer :: answers, t) := by
  simp only [serveAll, first, others, bind, Except.bind, pure, Except.pure]

/-- What holds of the history so far and of the requests still to come, kept by each request that
    is served, holds of the whole history in the end. -/
theorem serveAll_keeps (Keeps : List (τ × ρ) → List τ → σ → Prop)
    (step : ∀ {done x rest s}, Keeps done (x :: rest) s →
      ∃ answer t, serve s x = .ok (answer, t) ∧ Keeps (done ++ [(x, answer)]) rest t)
    {done : List (τ × ρ)} {xs : List τ} {s : σ} (start : Keeps done xs s) :
    ∃ answers t, serveAll serve s xs = .ok (answers, t) ∧ Keeps (done ++ xs.zip answers) [] t := by
  induction xs generalizing done s with
  | nil =>
    refine ⟨[], s, rfl, ?_⟩
    rw [List.zip_nil_right, List.append_nil]
    exact start
  | cons x rest ih =>
    obtain ⟨answer, between, first, kept⟩ := step start
    obtain ⟨answers, t, others, last⟩ := ih kept
    refine ⟨answer :: answers, t, serveAll_cons first others, ?_⟩
    rw [List.append_assoc] at last
    exact last

/-- How each request moves the state is how all of them move it, if such moves can be chained. -/
theorem serveAll_moves (Moves : σ → σ → Prop) (rest : ∀ s, Moves s s)
    (chain : ∀ {s u t}, Moves s u → Moves u t → Moves s t)
    (step : ∀ {s x answer t}, serve s x = .ok (answer, t) → Moves s t)
    {xs : List τ} {s t : σ} {answers : List ρ} (done : serveAll serve s xs = .ok (answers, t)) :
    Moves s t := by
  induction xs generalizing s answers with
  | nil =>
    obtain ⟨-, rfl⟩ := pure_pair_eq_ok_iff.1 done
    exact rest s
  | cons x others ih =>
    obtain ⟨⟨answer, between⟩, first, done⟩ := bind_eq_ok_iff.1 done
    obtain ⟨⟨later, last⟩, served, done⟩ := bind_eq_ok_iff.1 done
    obtain ⟨-, rfl⟩ := pure_pair_eq_ok_iff.1 done
    exact chain (step first) (ih served)

theorem foldlM_history {step : σ → τ → Checked σ} (Keeps : List τ → List τ → σ → Prop)
    (kept : ∀ {done x rest s}, Keeps done (x :: rest) s →
      ∃ t, step s x = .ok t ∧ Keeps (done ++ [x]) rest t)
    {done xs : List τ} {s : σ} (start : Keeps done xs s) :
    ∃ t, xs.foldlM step s = .ok t ∧ Keeps (done ++ xs) [] t := by
  induction xs generalizing done s with
  | nil =>
    refine ⟨s, rfl, ?_⟩
    rw [List.append_nil]
    exact start
  | cons x rest ih =>
    obtain ⟨between, first, next⟩ := kept start
    obtain ⟨t, others, last⟩ := ih next
    refine ⟨t, ?_, ?_⟩
    · rw [List.foldlM_cons, first]
      exact others
    · rw [List.append_assoc] at last
      exact last

end serving

inductive AnyVariable where
  | literal (l : Literal)
  | domain (d : DomainId)
deriving DecidableEq, Repr

instance : Variable AnyVariable where
  literal
    | .literal l => Variable.literal l
    | .domain d => Variable.literal d

/-- Every domain that a request is about was made before, by one of those that make domains. -/
def GrownFirst {τ : Type} (grows : τ → Bool) (about : τ → Option DomainId) :
    Nat → List τ → Prop
  | _, [] => True
  | n, x :: rest =>
    (∀ d ∈ about x, d.index < n) ∧ GrownFirst grows about (if grows x then n + 1 else n) rest

instance GrownFirst.decidable {τ : Type} (grows : τ → Bool) (about : τ → Option DomainId) :
    (n : Nat) → (l : List τ) → Decidable (GrownFirst grows about n l)
  | _, [] => isTrue trivial
  | n, x :: rest =>
    have := decidable grows about (if grows x then n + 1 else n) rest
    inferInstanceAs (Decidable ((∀ d ∈ about x, d.index < n) ∧ GrownFirst grows about _ rest))

theorem GrownFirst.step {τ : Type} {grows : τ → Bool} {about : τ → Option DomainId}
    {done rest : List τ} {x : τ} (h : GrownFirst grows about (done.countP grows) (x :: rest)) :
    (∀ d ∈ about x, d.index < done.countP grows) ∧
      GrownFirst grows about ((done ++ [x]).countP grows) rest := by
  refine ⟨h.1, ?_⟩
  rw [List.countP_append, List.countP_singleton]
  have later := h.2
  split at later
  · next grown => simpa [grown] using later
  · next idle => simpa [idle] using later

/-- What the entries of a history bring and take; none does both with the same thing. -/
structure Traffic (τ κ : Type) where
  brings : τ → κ → Prop
  takes : τ → κ → Prop
  apart : ∀ {x k}, brings x k → ¬ takes x k

namespace Traffic
variable {τ κ : Type} {t : Traffic τ κ} {h : List τ} {x : τ} {j k : κ} {m n : Nat}
  {l : List κ}

def Stands (t : Traffic τ κ) (h : List τ) (k : κ) : Prop :=
  ∃ before x after, h = before ++ x :: after ∧ t.brings x k ∧ ∀ y ∈ after, ¬ t.takes y k

def CameAt (t : Traffic τ κ) (h : List τ) (k : κ) (n : Nat) : Prop :=
  ∃ before x after, h = before ++ x :: after ∧ before.length = n ∧ t.brings x k ∧
    ¬ t.Stands before k ∧ ∀ y ∈ after, ¬ t.takes y k

def Before (t : Traffic τ κ) (h : List τ) (j k : κ) : Prop :=
  ∃ m n, t.CameAt h j m ∧ t.CameAt h k n ∧ m < n

/-- The list holds what stands, each once, in the order in which it came. -/
structure Lists (t : Traffic τ κ) (h : List τ) (l : List κ) : Prop where
  mem_iff : ∀ {k}, k ∈ l ↔ t.Stands h k
  ordered : l.Pairwise (t.Before h)

theorem split_concat {before after : List τ} {y : τ} :
    h ++ [x] = before ++ y :: after ↔
      (h = before ∧ x = y ∧ after = []) ∨ ∃ between, h = before ++ y :: between ∧
        after = between ++ [x] := by
  constructor
  · intro split
    rcases List.eq_nil_or_concat after with rfl | ⟨between, last, rfl⟩
    · obtain ⟨rfl, same⟩ := List.append_inj' split rfl
      exact Or.inl ⟨rfl, List.head_eq_of_cons_eq same, rfl⟩
    · rw [List.concat_eq_append, ← List.cons_append, ← List.append_assoc] at split
      obtain ⟨rfl, same⟩ := List.append_inj' split rfl
      rw [List.head_eq_of_cons_eq same]
      exact Or.inr ⟨between, rfl, List.concat_eq_append⟩
  · rintro (⟨rfl, rfl, rfl⟩ | ⟨between, rfl, rfl⟩)
    · rfl
    · simp

theorem untaken_concat {after : List τ} :
    (∀ y ∈ after ++ [x], ¬ t.takes y k) ↔ (∀ y ∈ after, ¬ t.takes y k) ∧ ¬ t.takes x k := by
  rw [List.forall_mem_append, List.forall_mem_singleton]

theorem not_stands_nil : ¬ t.Stands [] k := by
  rintro ⟨before, x, after, split, -⟩
  simp at split

theorem stands_concat : t.Stands (h ++ [x]) k ↔ t.brings x k ∨ (t.Stands h k ∧ ¬ t.takes x k) := by
  constructor
  · rintro ⟨before, y, after, split, brings, stays⟩
    rcases split_concat.1 split with ⟨rfl, rfl, rfl⟩ | ⟨between, rfl, rfl⟩
    · exact Or.inl brings
    · obtain ⟨early, last⟩ := untaken_concat.1 stays
      exact Or.inr ⟨⟨before, y, between, rfl, brings, early⟩, last⟩
  · rintro (brings | ⟨⟨before, y, after, rfl, brings, stays⟩, kept⟩)
    · exact ⟨h, x, [], rfl, brings, by simp⟩
    · exact ⟨before, y, after ++ [x], by simp, brings, untaken_concat.2 ⟨stays, kept⟩⟩

theorem cameAt_concat : t.CameAt (h ++ [x]) k n ↔
    (t.CameAt h k n ∧ ¬ t.takes x k) ∨ (n = h.length ∧ t.brings x k ∧ ¬ t.Stands h k) := by
  constructor
  · rintro ⟨before, y, after, split, rfl, brings, new, stays⟩
    rcases split_concat.1 split with ⟨rfl, rfl, rfl⟩ | ⟨between, rfl, rfl⟩
    · exact Or.inr ⟨rfl, brings, new⟩
    · obtain ⟨early, last⟩ := untaken_concat.1 stays
      exact Or.inl ⟨⟨before, y, between, rfl, rfl, brings, new, early⟩, last⟩
  · rintro (⟨⟨before, y, after, rfl, rfl, brings, new, stays⟩, kept⟩ | ⟨rfl, brings, new⟩)
    · exact ⟨before, y, after ++ [x], by simp, rfl, brings, new,
        untaken_concat.2 ⟨stays, kept⟩⟩
    · exact ⟨h, x, [], rfl, rfl, brings, new, by simp⟩

theorem stands_of_cameAt (came : t.CameAt h k n) : t.Stands h k := by
  obtain ⟨before, y, after, split, -, brings, -, stays⟩ := came
  exact ⟨before, y, after, split, brings, stays⟩

theorem lt_of_cameAt (came : t.CameAt h k n) : n < h.length := by
  obtain ⟨before, y, after, rfl, rfl, -⟩ := came
  simp

theorem exists_cameAt (stands : t.Stands h k) : ∃ n, t.CameAt h k n := by
  induction h using List.reverseRecOn with
  | nil => exact absurd stands not_stands_nil
  | append_singleton h x ih =>
    by_cases old : t.Stands h k
    · have kept : ¬ t.takes x k := by
        rcases stands_concat.1 stands with brings | ⟨-, kept⟩
        · exact t.apart brings
        · exact kept
      obtain ⟨n, came⟩ := ih old
      exact ⟨n, cameAt_concat.2 (Or.inl ⟨came, kept⟩)⟩
    · rcases stands_concat.1 stands with brings | ⟨still, -⟩
      · exact ⟨h.length, cameAt_concat.2 (Or.inr ⟨rfl, brings, old⟩)⟩
      · exact absurd still old

theorem cameAt_unique (first : t.CameAt h k m) (second : t.CameAt h k n) : m = n := by
  induction h using List.reverseRecOn with
  | nil => exact absurd (stands_of_cameAt first) not_stands_nil
  | append_singleton h x ih =>
    rcases cameAt_concat.1 first with ⟨early, -⟩ | ⟨rfl, -, new⟩
    · rcases cameAt_concat.1 second with ⟨early', -⟩ | ⟨-, -, new⟩
      · exact ih early early'
      · exact absurd (stands_of_cameAt early) new
    · rcases cameAt_concat.1 second with ⟨early, -⟩ | ⟨rfl, -⟩
      · exact absurd (stands_of_cameAt early) new
      · rfl

theorem Before.ne (before : t.Before h j k) : j ≠ k := by
  obtain ⟨m, n, first, second, less⟩ := before
  rintro rfl
  have := cameAt_unique first second
  omega

theorem Before.lt (before : t.Before h j k) (first : t.CameAt h j m) (second : t.CameAt h k n) :
    m < n := by
  obtain ⟨m', n', first', second', less⟩ := before
  rw [cameAt_unique first first', cameAt_unique second second']
  exact less

theorem Before.concat (before : t.Before h j k) (keepsFirst : ¬ t.takes x j)
    (keepsSecond : ¬ t.takes x k) : t.Before (h ++ [x]) j k := by
  obtain ⟨m, n, first, second, less⟩ := before
  exact ⟨m, n, cameAt_concat.2 (Or.inl ⟨first, keepsFirst⟩),
    cameAt_concat.2 (Or.inl ⟨second, keepsSecond⟩), less⟩

theorem before_of_new (stands : t.Stands h j) (kept : ¬ t.takes x j) (brings : t.brings x k)
    (new : ¬ t.Stands h k) : t.Before (h ++ [x]) j k := by
  obtain ⟨m, came⟩ := exists_cameAt stands
  exact ⟨m, h.length, cameAt_concat.2 (Or.inl ⟨came, kept⟩),
    cameAt_concat.2 (Or.inr ⟨rfl, brings, new⟩), lt_of_cameAt came⟩

namespace Lists

theorem nil : t.Lists [] [] := by
  constructor
  · intro k
    simp [not_stands_nil]
  · exact List.Pairwise.nil

theorem nodup (lists : t.Lists h l) : l.Nodup := lists.ordered.imp Before.ne

theorem take {stays : κ → Bool} (lists : t.Lists h l) (brings : ∀ k, ¬ t.brings x k)
    (takes : ∀ k, stays k = true ↔ ¬ t.takes x k) : t.Lists (h ++ [x]) (l.filter stays) := by
  constructor
  · intro k
    rw [List.mem_filter, lists.mem_iff, takes, stands_concat, or_iff_right (brings k)]
  · apply List.Pairwise.imp_of_mem _ (lists.ordered.filter stays)
    intro j k first second before
    exact before.concat ((takes j).1 (List.mem_filter.1 first).2)
      ((takes k).1 (List.mem_filter.1 second).2)

theorem idle (lists : t.Lists h l) (brings : ∀ k, ¬ t.brings x k) (takes : ∀ k, ¬ t.takes x k) :
    t.Lists (h ++ [x]) l := by
  have all : l.filter (fun _ => true) = l := List.filter_eq_self.2 fun _ _ => rfl
  rw [← all]
  exact lists.take brings fun k => iff_of_true rfl (takes k)

theorem bring [DecidableEq κ] (lists : t.Lists h l) (brings : ∀ j, t.brings x j ↔ j = k)
    (takes : ∀ j, ¬ t.takes x j) : t.Lists (h ++ [x]) (if k ∈ l then l else l ++ [k]) := by
  have mem : ∀ j, t.Stands (h ++ [x]) j ↔ j = k ∨ j ∈ l := by
    intro j
    rw [stands_concat, brings, and_iff_left (takes j), lists.mem_iff]
  have kept : l.Pairwise (t.Before (h ++ [x])) :=
    lists.ordered.imp fun before => before.concat (takes _) (takes _)
  split
  · next old =>
    constructor
    · intro j
      rw [mem]
      constructor
      · exact Or.inr
      · rintro (rfl | member)
        · exact old
        · exact member
    · exact kept
  · next new =>
    constructor
    · intro j
      rw [mem, List.mem_append, List.mem_singleton, or_comm]
    · rw [List.pairwise_append]
      refine ⟨kept, List.pairwise_singleton _ _, ?_⟩
      intro j member i single
      rw [List.mem_singleton.1 single]
      exact before_of_new (lists.mem_iff.1 member) (takes j) ((brings k).2 rfl)
        (mt lists.mem_iff.2 new)

end Lists
end Traffic
end PseudoBoolean
