import PseudoBoolean.Proofs.StandardProgress

/-!
The order of notifications does not matter. A counting propagator keeps a ledger: the variables it
waits for, by number, and how many of them have to be true. A notification strikes its number off
and may lower the threshold. That commutes with every notification under another number, though the
variables that are left can end up in another order, and a propagator that has something to do keeps
having something to do.
-/
namespace PseudoBoolean
variable {π ν : Type}

structure Notification where
  number : LocalId
  event : Event
deriving DecidableEq, Repr

def notifyAll (notify : π → LocalId → Event → Checked (π × Decision)) (p : π) :
    List Notification → Checked (π × List Decision)
  | [] => return (p, [])
  | x :: rest => do
    let (next, decision) ← notify p x.number x.event
    let (last, decisions) ← notifyAll notify next rest
    return (last, decision :: decisions)

/-- The propagators that come out of `create` and any number of notifications. -/
inductive Arises {β : Type} (create : β → Domains → Checked (π × List Registration))
    (notify : π → LocalId → Event → Checked (π × Decision)) : π → Prop where
  | created {b : β} {s : Domains} {p : π} {registrations : List Registration}
      (built : create b s = .ok (p, registrations)) : Arises create notify p
  | notified {p q : π} {number : LocalId} {event : Event} {decision : Decision}
      (before : Arises create notify p) (told : notify p number event = .ok (q, decision)) :
      Arises create notify q

def OneEventEach (xs : List Notification) : Prop :=
  ∀ x ∈ xs, ∀ y ∈ xs, x.number = y.number → x.event = y.event

theorem OneEventEach.mono {xs ys : List Notification} (h : OneEventEach xs) (fewer : ys ⊆ xs) :
    OneEventEach ys :=
  fun x hx y hy => h x (fewer hx) y (fewer hy)

/-- The part of a counting propagator that its notifications read and change. -/
structure Ledger (ν : Type) where
  unfixed : OpenVariables ν
  threshold : Int
  control : Option LocalId
  /-- There is something to do once fewer than `threshold + margin` variables are left. -/
  margin : Int

def loweredBy [Variable ν] (x : Option ν) (e : Event) (t : Int) : Int :=
  if x.any fun x => ((Variable.literal x).observe e).value then saturatingSub t 1 else t

theorem loweredBy_comm [Variable ν] (x y : Option ν) (e f : Event) (t : Int) :
    loweredBy x e (loweredBy y f t) = loweredBy y f (loweredBy x e t) := by
  unfold loweredBy
  split <;> split <;> rfl

namespace Ledger
variable {l l' m m' k : Ledger ν}

def IsDecided (l : Ledger ν) : Prop :=
  l.threshold ≤ 0 ∨ (l.unfixed.size : Int) < l.threshold + l.margin

structure Alike (l m : Ledger ν) : Prop where
  at? : ∀ k, l.unfixed.at? k = m.unfixed.at? k
  perm : l.unfixed.toList.Perm m.unfixed.toList
  threshold : l.threshold = m.threshold

theorem Alike.refl (l : Ledger ν) : l.Alike l := ⟨fun _ => rfl, .refl _, rfl⟩

theorem Alike.trans (h : l.Alike m) (h' : m.Alike k) : l.Alike k :=
  ⟨fun i => (h.at? i).trans (h'.at? i), h.perm.trans h'.perm, h.threshold.trans h'.threshold⟩

theorem Alike.size_eq (h : l.Alike m) : l.unfixed.size = m.unfixed.size := h.perm.length_eq

/-- What never happens to a ledger as time goes by: that a variable comes back, that the threshold
    rises above zero again, or that it falls faster than the variables get fewer. -/
structure Later (l m : Ledger ν) : Prop where
  control : m.control = l.control
  margin : m.margin = l.margin
  removed : ∃ removed, l.unfixed.toList.Perm (removed ++ m.unfixed.toList)
  reached : l.threshold ≤ 0 → m.threshold ≤ 0
  lowered : l.threshold + m.unfixed.size ≤ m.threshold + l.unfixed.size
  unchanged : m.unfixed.size = l.unfixed.size → m.threshold = l.threshold

namespace Later

theorem refl (l : Ledger ν) : l.Later l :=
  ⟨rfl, rfl, ⟨[], .refl _⟩, fun reached => reached, Int.le_refl _, fun _ => rfl⟩

theorem size_le (h : l.Later m) : m.unfixed.size ≤ l.unfixed.size := by
  obtain ⟨removed, same⟩ := h.removed
  have length := same.length_eq
  rw [List.length_append, OpenVariables.length_toList, OpenVariables.length_toList] at length
  omega

theorem trans (h : l.Later m) (h' : m.Later k) : l.Later k where
  control := h'.control.trans h.control
  margin := h'.margin.trans h.margin
  removed := by
    obtain ⟨first, same⟩ := h.removed
    obtain ⟨second, same'⟩ := h'.removed
    refine ⟨first ++ second, ?_⟩
    rw [List.append_assoc]
    exact same.trans (same'.append_left first)
  reached := fun reached => h'.reached (h.reached reached)
  lowered := by
    have := h.lowered
    have := h'.lowered
    omega
  unchanged := by
    intro same
    have := h.size_le
    have := h'.size_le
    exact (h'.unchanged (by omega)).trans (h.unchanged (by omega))

theorem isDecided (h : l.Later m) (decided : l.IsDecided) : m.IsDecided := by
  rcases decided with reached | few
  · exact Or.inl (h.reached reached)
  · have := h.lowered
    have := h.margin
    right
    omega

theorem isDecided_iff_of_size_eq (h : l.Later m) (same : m.unfixed.size = l.unfixed.size) :
    m.IsDecided ↔ l.IsDecided := by
  rw [IsDecided, IsDecided, same, h.unchanged same, h.margin]

end Later

variable [Variable ν]

structure Hears (l : Ledger ν) (number : LocalId) (event : Event) (m : Ledger ν)
    (decision : Decision) : Prop where
  control : m.control = l.control
  margin : m.margin = l.margin
  at? : ∀ k, m.unfixed.at? k = if k = number then none else l.unfixed.at? k
  perm : l.unfixed.toList.Perm ((l.unfixed.at? number).toList ++ m.unfixed.toList)
  threshold : m.threshold = loweredBy (l.unfixed.at? number) event l.threshold
  wakes : decision = .enqueue ↔
    l.control = some number ∨ (m.unfixed.size < l.unfixed.size ∧ m.IsDecided)

theorem hears_unknown {number : LocalId} (unknown : l.unfixed.at? number = none) (event : Event)
    {decision : Decision} (wakes : decision = .enqueue ↔ l.control = some number) :
    l.Hears number event l decision where
  control := rfl
  margin := rfl
  at? := by
    intro k
    split
    · next same => rw [same, unknown]
    · rfl
  perm := by rw [unknown]; exact .refl _
  threshold := by rw [unknown]; rfl
  wakes := wakes.trans (or_iff_left fun shorter => absurd shorter.1 (Nat.lt_irrefl _)).symm

theorem hears_known {number : LocalId} {event : Event} {decision : Decision} {x : ν}
    (control : m.control = l.control) (margin : m.margin = l.margin)
    (known : l.unfixed.at? number = some x)
    (others : ∀ k, m.unfixed.at? k = if k = number then none else l.unfixed.at? k)
    (same : l.unfixed.toList.Perm (x :: m.unfixed.toList))
    (threshold : m.threshold = if ((Variable.literal x).observe event).value
      then saturatingSub l.threshold 1 else l.threshold)
    (other : l.control ≠ some number) (wakes : decision = .enqueue ↔ m.IsDecided) :
    l.Hears number event m decision where
  control := control
  margin := margin
  at? := others
  perm := by rw [known]; exact same
  threshold := by rw [known]; exact threshold
  wakes := by
    have shorter : m.unfixed.size < l.unfixed.size := Nat.le_of_eq same.length_eq.symm
    rw [wakes, or_iff_right other, and_iff_right shorter]

namespace Hears
variable {number : LocalId} {event : Event} {decision decision' : Decision}

theorem size_eq (h : l.Hears number event m decision) :
    l.unfixed.size = (l.unfixed.at? number).toList.length + m.unfixed.size := by
  rw [← OpenVariables.length_toList, h.perm.length_eq, List.length_append,
    OpenVariables.length_toList]

theorem later (h : l.Hears number event m decision) : l.Later m := by
  have size := h.size_eq
  have threshold := h.threshold
  cases known : l.unfixed.at? number with
  | none =>
    rw [known] at size threshold
    have same : m.threshold = l.threshold := threshold
    rw [Option.toList_none, List.length_nil] at size
    exact ⟨h.control, h.margin, ⟨_, h.perm⟩, by omega, by omega, fun _ => same⟩
  | some x =>
    rw [known] at size threshold
    rw [Option.toList_some, List.length_singleton] at size
    have floor : wordMin ≤ 0 := by decide
    have bounds : (l.threshold ≤ 0 → m.threshold ≤ 0) ∧ l.threshold ≤ m.threshold + 1 := by
      rw [threshold, loweredBy, saturatingSub]
      split <;> omega
    exact ⟨h.control, h.margin, ⟨_, h.perm⟩, bounds.1, by omega, by omega⟩

theorem alike (h : l.Hears number event m decision) (h' : l'.Hears number event m' decision')
    (same : l.Alike l') : m.Alike m' where
  at? := by
    intro k
    rw [h.at?, h'.at?, same.at?]
  perm := by
    have rest := h.perm.symm.trans (same.perm.trans h'.perm)
    rw [same.at?] at rest
    exact (List.perm_append_left_iff _).1 rest
  threshold := by rw [h.threshold, h'.threshold, same.at?, same.threshold]

/-- Notifications under two numbers strike off the same, whichever comes first. -/
theorem commute {i j : LocalId} {e f : Event} {d₁ d₂ d₃ d₄ : Decision} (apart : i ≠ j)
    (h₁ : l.Hears i e m d₁) (h₂ : m.Hears j f k d₂) (h₃ : l.Hears j f m' d₃)
    (h₄ : m'.Hears i e l' d₄) : k.Alike l' := by
  have second : m.unfixed.at? j = l.unfixed.at? j := by rw [h₁.at?, if_neg apart.symm]
  have fourth : m'.unfixed.at? i = l.unfixed.at? i := by rw [h₃.at?, if_neg apart]
  refine ⟨fun n => ?_, ?_, ?_⟩
  · rw [h₂.at?, h₁.at?, h₄.at?, h₃.at?]
    split <;> split <;> rfl
  · have oneWay := h₁.perm.trans (h₂.perm.append_left _)
    have otherWay := h₃.perm.trans (h₄.perm.append_left _)
    rw [second, ← List.append_assoc] at oneWay
    rw [fourth, ← List.append_assoc] at otherWay
    have swapped := otherWay.trans (List.perm_append_comm.append_right _)
    exact (List.perm_append_left_iff _).1 (oneWay.symm.trans swapped)
  · rw [h₂.threshold, h₁.threshold, h₄.threshold, h₃.threshold, second, fourth, loweredBy_comm]

end Hears
end Ledger

structure Counting (π ν : Type) [Variable ν] where
  notify : π → LocalId → Event → Checked (π × Decision)
  ledger : π → Ledger ν
  Consistent : π → Prop
  returns : ∀ {p}, Consistent p → ∀ number event, Returns (notify p number event)
  heard : ∀ {p q number event decision}, Consistent p → notify p number event = .ok (q, decision) →
    Consistent q ∧ (ledger p).Hears number event (ledger q) decision

namespace Counting
variable [Variable ν] {c : Counting π ν} {p p' q q' : π} {xs ys : List Notification}
  {ds es : List Decision}

theorem returns_notifyAll (consistent : c.Consistent p) (xs : List Notification) :
    Returns (notifyAll c.notify p xs) := by
  induction xs generalizing p with
  | nil => exact returns_pure _
  | cons x rest ih =>
    apply (c.returns consistent x.number x.event).bind
    intro ⟨next, decision⟩ told
    apply (ih (c.heard consistent told).1).bind
    intro ⟨last, decisions⟩ _
    exact returns_pure _

theorem notifyAll_cons {x : Notification} {rest : List Notification}
    (h : notifyAll c.notify p (x :: rest) = .ok (q, ds)) :
    ∃ next decision decisions, c.notify p x.number x.event = .ok (next, decision) ∧
      notifyAll c.notify next rest = .ok (q, decisions) ∧ ds = decision :: decisions := by
  obtain ⟨⟨next, decision⟩, told, h⟩ := bind_eq_ok_iff.1 h
  obtain ⟨⟨last, decisions⟩, others, h⟩ := bind_eq_ok_iff.1 h
  obtain ⟨rfl, rfl⟩ := pure_pair_eq_ok_iff.1 h
  exact ⟨next, decision, decisions, told, others, rfl⟩

/-- A whole run answers as one notification does: the control is among the numbers, or something was
    struck off and the ledger is decided by the end. -/
theorem heard_notifyAll (consistent : c.Consistent p)
    (h : notifyAll c.notify p xs = .ok (q, ds)) :
    c.Consistent q ∧ (c.ledger p).Later (c.ledger q) ∧
      (.enqueue ∈ ds ↔ (∃ x ∈ xs, (c.ledger p).control = some x.number) ∨
        ((c.ledger q).unfixed.size < (c.ledger p).unfixed.size ∧ (c.ledger q).IsDecided)) := by
  induction xs generalizing p ds with
  | nil =>
    obtain ⟨rfl, rfl⟩ := pure_pair_eq_ok_iff.1 h
    exact ⟨consistent, .refl _, by simp⟩
  | cons x rest ih =>
    obtain ⟨next, decision, decisions, told, others, rfl⟩ := notifyAll_cons h
    obtain ⟨still, hears⟩ := c.heard consistent told
    obtain ⟨last, later, answers⟩ := ih still others
    refine ⟨last, hears.later.trans later, ?_⟩
    rw [List.mem_cons, eq_comm, hears.wakes, answers, hears.control,
      List.exists_mem_cons_iff]
    constructor
    · rintro ((control | ⟨shorter, decided⟩) | control | ⟨shorter, decided⟩)
      · exact Or.inl (Or.inl control)
      · exact Or.inr ⟨Nat.lt_of_le_of_lt later.size_le shorter, later.isDecided decided⟩
      · exact Or.inl (Or.inr control)
      · exact Or.inr ⟨Nat.lt_of_lt_of_le shorter hears.later.size_le, decided⟩
    · rintro ((control | control) | ⟨shorter, decided⟩)
      · exact Or.inl (Or.inl control)
      · exact Or.inr (Or.inl control)
      -- The answer was given by the last notification that struck something off.
      · rcases Nat.lt_or_eq_of_le later.size_le with more | same
        · exact Or.inr (Or.inr ⟨more, decided⟩)
        · exact Or.inl (Or.inr ⟨same ▸ shorter, (later.isDecided_iff_of_size_eq same).1 decided⟩)

theorem alike_notifyAll (consistent : c.Consistent p) (consistent' : c.Consistent p')
    (same : (c.ledger p).Alike (c.ledger p')) (h : notifyAll c.notify p xs = .ok (q, ds))
    (h' : notifyAll c.notify p' xs = .ok (q', es)) : (c.ledger q).Alike (c.ledger q') := by
  induction xs generalizing p p' ds es with
  | nil =>
    obtain ⟨rfl, -⟩ := pure_pair_eq_ok_iff.1 h
    obtain ⟨rfl, -⟩ := pure_pair_eq_ok_iff.1 h'
    exact same
  | cons x rest ih =>
    obtain ⟨next, decision, decisions, told, others, -⟩ := notifyAll_cons h
    obtain ⟨next', decision', decisions', told', others', -⟩ := notifyAll_cons h'
    obtain ⟨still, hears⟩ := c.heard consistent told
    obtain ⟨still', hears'⟩ := c.heard consistent' told'
    exact ih still still' (hears.alike hears' same) others others'

theorem alike_swap (consistent : c.Consistent p) {x y : Notification}
    (one : x.number = y.number → x.event = y.event) {a b a' b' : π} {d₁ d₂ d₃ d₄ : Decision}
    (h₁ : c.notify p x.number x.event = .ok (a, d₁))
    (h₂ : c.notify a y.number y.event = .ok (b, d₂))
    (h₃ : c.notify p y.number y.event = .ok (a', d₃))
    (h₄ : c.notify a' x.number x.event = .ok (b', d₄)) : (c.ledger b).Alike (c.ledger b') := by
  obtain ⟨first, hears₁⟩ := c.heard consistent h₁
  obtain ⟨-, hears₂⟩ := c.heard first h₂
  obtain ⟨third, hears₃⟩ := c.heard consistent h₃
  obtain ⟨-, hears₄⟩ := c.heard third h₄
  by_cases equal : x.number = y.number
  -- under one number they are the same notification twice
  · rw [equal, one equal] at hears₁ hears₄
    exact hears₂.alike hears₄ (hears₁.alike hears₃ (.refl _))
  · exact hears₁.commute equal hears₂ hears₃ hears₄

theorem alike_of_perm (perm : xs.Perm ys) (one : OneEventEach xs) (consistent : c.Consistent p)
    (h : notifyAll c.notify p xs = .ok (q, ds)) (h' : notifyAll c.notify p ys = .ok (q', es)) :
    (c.ledger q).Alike (c.ledger q') := by
  induction perm generalizing p q q' ds es with
  | nil =>
    obtain ⟨rfl, -⟩ := pure_pair_eq_ok_iff.1 h
    obtain ⟨rfl, -⟩ := pure_pair_eq_ok_iff.1 h'
    exact .refl _
  | cons x _ ih =>
    obtain ⟨next, _, _, told, others, -⟩ := notifyAll_cons h
    obtain ⟨next', _, _, told', others', -⟩ := notifyAll_cons h'
    rw [told] at told'
    cases told'
    exact ih (one.mono (List.subset_cons_self _ _)) (c.heard consistent told).1 others others'
  | swap x y rest =>
    obtain ⟨a, _, _, h₁, others, -⟩ := notifyAll_cons h
    obtain ⟨b, _, _, h₂, others, -⟩ := notifyAll_cons others
    obtain ⟨a', _, _, h₃, others', -⟩ := notifyAll_cons h'
    obtain ⟨b', _, _, h₄, others', -⟩ := notifyAll_cons others'
    have same := alike_swap consistent (one y (by simp) x (by simp)) h₁ h₂ h₃ h₄
    have last := (c.heard (c.heard consistent h₁).1 h₂).1
    have last' := (c.heard (c.heard consistent h₃).1 h₄).1
    exact alike_notifyAll last last' same others others'
  | trans first _ ih ih' =>
    obtain ⟨⟨r, _⟩, between⟩ := returns_notifyAll consistent _
    have alike := ih one consistent h between
    exact alike.trans (ih' (one.mono first.symm.subset) consistent between h')

theorem consistent_of_arises {β : Type} {create : β → Domains → Checked (π × List Registration)}
    (created : ∀ {b s p registrations}, create b s = .ok (p, registrations) → c.Consistent p)
    (h : Arises create c.notify p) : c.Consistent p := by
  induction h with
  | created built => exact created built
  | notified _ told ih => exact (c.heard ih told).1

theorem agree_of_perm (consistent : c.Consistent p) (perm : xs.Perm ys) (one : OneEventEach xs) :
    ∃ q r ds es, notifyAll c.notify p xs = .ok (q, ds) ∧ notifyAll c.notify p ys = .ok (r, es) ∧
      c.Consistent q ∧ c.Consistent r ∧ (c.ledger q).Alike (c.ledger r) ∧
      (.enqueue ∈ ds ↔ .enqueue ∈ es) ∧
      ∃ removed, (c.ledger p).unfixed.toList.Perm (removed ++ (c.ledger q).unfixed.toList) ∧
        (.enqueue ∈ ds ↔ (∃ x ∈ xs, (c.ledger p).control = some x.number) ∨
          (removed ≠ [] ∧ (c.ledger q).IsDecided)) := by
  obtain ⟨⟨q, ds⟩, run⟩ := returns_notifyAll consistent xs
  obtain ⟨⟨r, es⟩, run'⟩ := returns_notifyAll consistent ys
  obtain ⟨last, later, answers⟩ := heard_notifyAll consistent run
  obtain ⟨last', later', answers'⟩ := heard_notifyAll consistent run'
  have alike := alike_of_perm perm one consistent run run'
  obtain ⟨removed, parts⟩ := later.removed
  have shorter : (c.ledger q).unfixed.size < (c.ledger p).unfixed.size ↔ removed ≠ [] := by
    rw [← OpenVariables.length_toList, ← OpenVariables.length_toList, parts.length_eq,
      List.length_append, ← List.length_pos_iff]
    omega
  have decided : (c.ledger q).IsDecided ↔ (c.ledger r).IsDecided := by
    rw [Ledger.IsDecided, Ledger.IsDecided, alike.size_eq, alike.threshold, later.margin,
      later'.margin]
  refine ⟨q, r, ds, es, run, run', last, last', alike, ?_, removed, parts, ?_⟩
  · rw [answers, answers', alike.size_eq, decided]
    simp only [perm.mem_iff]
  · rw [answers, shorter]

end Counting

namespace AtLeast
variable {p q : AtLeast ν} {number : LocalId} {event : Event} {decision : Decision}

def ledger (p : AtLeast ν) : Ledger ν where
  unfixed := p.unfixed
  threshold := p.threshold
  control := none
  margin := 1

theorem isDecided_ledger (p : AtLeast ν) : p.ledger.IsDecided ↔ p.IsReached ∨ p.IsTight :=
  or_congr_right Int.lt_add_one_iff

variable [Variable ν]

theorem hears_of_notify (consistent : p.unfixed.Consistent)
    (h : p.notify number event = .ok (q, decision)) :
    q.unfixed.Consistent ∧ p.ledger.Hears number event q.ledger decision := by
  rcases notify_cases consistent h with
    ⟨unknown, rfl, rfl⟩ | ⟨x, known, after, same, others, threshold, wakes⟩
  · exact ⟨consistent, Ledger.hears_unknown unknown event (by simp [ledger])⟩
  · exact ⟨after, Ledger.hears_known rfl rfl known others same threshold (by simp [ledger])
      (wakes.trans q.isDecided_ledger.symm)⟩

def counting : Counting (AtLeast ν) ν where
  notify := notify
  ledger := ledger
  Consistent p := p.unfixed.Consistent
  returns := returns_notify
  heard := hears_of_notify

end AtLeast

namespace ImpliedAtLeast
variable {p q : ImpliedAtLeast ν} {number : LocalId} {event : Event} {decision : Decision}

def ledger (p : ImpliedAtLeast ν) : Ledger ν where
  unfixed := p.unfixed
  threshold := p.threshold
  control := some p.controlNumber
  margin := 0

theorem isDecided_ledger (consistent : p.Consistent) :
    p.ledger.IsDecided ↔ p.IsReached ∨ p.IsUnreachable := by
  rw [Ledger.IsDecided, IsReached, IsUnreachable, consistent.numUnfixed]
  exact or_congr_right (by rw [ledger, Int.add_zero])

variable [Variable ν]

theorem hears_of_notify (consistent : p.Consistent)
    (h : p.notify number event = .ok (q, decision)) :
    q.Consistent ∧ p.ledger.Hears number event q.ledger decision := by
  rcases notify_cases consistent h with ⟨rfl, rfl, rfl⟩ | ⟨other, unknown, rfl, rfl⟩ |
    ⟨x, other, known, after, -, control, same, others, threshold, wakes⟩
  · exact ⟨consistent, Ledger.hears_unknown consistent.apart event (by simp [ledger])⟩
  · exact ⟨consistent, Ledger.hears_unknown unknown event (by simp [ledger, other.symm])⟩
  · refine ⟨after, Ledger.hears_known (congrArg some control) rfl known others same threshold
      (by simp [ledger, other.symm]) ?_⟩
    rw [wakes, isDecided_ledger after, or_comm]

def counting : Counting (ImpliedAtLeast ν) ν where
  notify := notify
  ledger := ledger
  Consistent := Consistent
  returns := returns_notify
  heard := hears_of_notify

end ImpliedAtLeast

/-- Notifications may arrive in any order, repeated or under numbers that stand for nothing. What is
    left to count is the same, and so is whether there was a reason to run: a fixed control, or a
    variable taken out and by the end the threshold reached or no choice left. -/
theorem notifyAll_perm [Variable ν] {xs ys : List Notification} (perm : xs.Perm ys)
    (one : OneEventEach xs) :
    (∀ p : AtLeast ν, Arises AtLeast.create AtLeast.notify p → ∃ q r ds es removed,
      notifyAll AtLeast.notify p xs = .ok (q, ds) ∧ notifyAll AtLeast.notify p ys = .ok (r, es) ∧
      q.threshold = r.threshold ∧ q.unfixed.size = r.unfixed.size ∧
      q.unfixed.toList.Perm r.unfixed.toList ∧
      p.unfixed.toList.Perm (removed ++ q.unfixed.toList) ∧
      (.enqueue ∈ ds ↔ .enqueue ∈ es) ∧
      (.enqueue ∈ ds ↔ removed ≠ [] ∧ (q.IsReached ∨ q.IsTight))) ∧
    (∀ p : ImpliedAtLeast ν, Arises ImpliedAtLeast.create ImpliedAtLeast.notify p →
      ∃ q r ds es removed,
      notifyAll ImpliedAtLeast.notify p xs = .ok (q, ds) ∧
      notifyAll ImpliedAtLeast.notify p ys = .ok (r, es) ∧
      q.threshold = r.threshold ∧ q.numUnfixed = r.numUnfixed ∧
      q.unfixed.toList.Perm r.unfixed.toList ∧
      p.unfixed.toList.Perm (removed ++ q.unfixed.toList) ∧
      (.enqueue ∈ ds ↔ .enqueue ∈ es) ∧
      (.enqueue ∈ ds ↔ (∃ x ∈ xs, x.number = p.controlNumber) ∨
        (removed ≠ [] ∧ (q.IsReached ∨ q.IsUnreachable)))) := by
  constructor
  · intro p arises
    have consistent := AtLeast.counting.consistent_of_arises AtLeast.consistent_of_create arises
    obtain ⟨q, r, ds, es, run, run', last, last', alike, agree, removed, parts, wakes⟩ :=
      Counting.agree_of_perm consistent perm one
    refine ⟨q, r, ds, es, removed, run, run', alike.threshold, alike.size_eq, alike.perm, parts,
      agree, ?_⟩
    rw [← q.isDecided_ledger]
    exact wakes.trans (or_iff_right (by rintro ⟨x, -, ⟨⟩⟩))
  · intro p arises
    have consistent :=
      ImpliedAtLeast.counting.consistent_of_arises ImpliedAtLeast.consistent_of_create arises
    obtain ⟨q, r, ds, es, run, run', last, last', alike, agree, removed, parts, wakes⟩ :=
      Counting.agree_of_perm consistent perm one
    have numUnfixed : q.numUnfixed = r.numUnfixed :=
      last.numUnfixed.trans (alike.size_eq.trans last'.numUnfixed.symm)
    refine ⟨q, r, ds, es, removed, run, run', alike.threshold, numUnfixed, alike.perm, parts,
      agree, ?_⟩
    rw [← ImpliedAtLeast.isDecided_ledger last, wakes]
    exact or_congr_left (exists_congr fun x => and_congr_right fun _ =>
      ⟨fun same => (Option.some.inj same).symm, fun same => congrArg some same.symm⟩)

/-- Number 9 stands for nothing, and number 4 for the control if there is one. -/
theorem notifyAll_perm_repeated :
    let s : Domains := ({} : Domains).grow.grow.grow.grow
    let vars : List DomainId := [⟨0⟩, ⟨1⟩, ⟨2⟩, ⟨3⟩]
    let xs : List Notification := [⟨⟨1⟩, .fixedTrue⟩, ⟨⟨9⟩, .fixedFalse⟩, ⟨⟨4⟩, .fixedFalse⟩,
      ⟨⟨0⟩, .fixedFalse⟩, ⟨⟨0⟩, .fixedFalse⟩]
    (∃ p registrations, AtLeast.create ⟨vars, 3⟩ s = .ok (p, registrations) ∧
      ∃ q r ds es, notifyAll AtLeast.notify p xs = .ok (q, ds) ∧
        notifyAll AtLeast.notify p xs.reverse = .ok (r, es) ∧
        q.unfixed.toList ≠ r.unfixed.toList ∧ q.unfixed.toList.Perm r.unfixed.toList ∧
        .enqueue ∈ es) ∧
    ∃ p registrations, ImpliedAtLeast.create ⟨.positive ⟨9⟩, vars, 2⟩ s = .ok (p, registrations) ∧
      ∃ q r ds es, notifyAll ImpliedAtLeast.notify p xs = .ok (q, ds) ∧
        notifyAll ImpliedAtLeast.notify p xs.reverse = .ok (r, es) ∧
        q.threshold = r.threshold ∧ .enqueue ∈ es := by
  intro s vars xs
  have perm : xs.Perm xs.reverse := (List.reverse_perm xs).symm
  have one : OneEventEach xs := by
    unfold OneEventEach
    decide
  obtain ⟨atLeast, implied⟩ := notifyAll_perm (ν := DomainId) perm one
  constructor
  · refine ⟨⟨.ofList vars, 3⟩, _, rfl, ?_⟩
    obtain ⟨q, r, ds, es, removed, run, run', -, -, same, -, agree, -⟩ :=
      atLeast ⟨.ofList vars, 3⟩ (.created (b := ⟨vars, 3⟩) (s := s) rfl)
    have seen : (notifyAll AtLeast.notify ⟨.ofList vars, 3⟩ xs).toOption.any (fun a =>
        decide (a.1.unfixed.toList = [⟨2⟩, ⟨3⟩] ∧ .enqueue ∈ a.2)) = true := by decide +kernel
    have seen' : (notifyAll AtLeast.notify ⟨.ofList vars, 3⟩ xs.reverse).toOption.any (fun a =>
        decide (a.1.unfixed.toList = [⟨3⟩, ⟨2⟩])) = true := by decide +kernel
    rw [run] at seen
    rw [run'] at seen'
    obtain ⟨first, woken⟩ := of_decide_eq_true seen
    have second := of_decide_eq_true seen'
    exact ⟨q, r, ds, es, run, run', by rw [first, second]; decide, same, agree.1 woken⟩
  · let p : ImpliedAtLeast DomainId := ⟨.positive ⟨9⟩, ⟨4⟩, .ofList vars, 2, 4⟩
    refine ⟨p, _, rfl, ?_⟩
    obtain ⟨q, r, ds, es, removed, run, run', threshold, -, -, -, agree, wakes⟩ :=
      implied p (.created (b := ⟨.positive ⟨9⟩, vars, 2⟩) (s := s) rfl)
    have control : ∃ x ∈ xs, x.number = p.controlNumber := by decide
    exact ⟨q, r, ds, es, run, run', threshold, agree.1 (wakes.2 (Or.inl control))⟩

end PseudoBoolean
