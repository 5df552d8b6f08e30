import PseudoBoolean.Valuation

/-!
Partial valuations: what is known of the domains at some moment. A weighted sum that is known in
part lies between a least and a greatest value, and learning more can only narrow the two. Each
term narrows them on its own: that is what makes fixing one variable at a time sound.
-/
namespace PseudoBoolean

abbrev PartialValuation := DomainId → Option Bool

/-- A sum in which a term contributes `value` of its weight and variable. -/
def total {ν : Type} (value : Int → ν → Int) : List (Int × ν) → Int
  | [] => 0
  | (w, x) :: rest => value w x + total value rest

section total
variable {ν : Type} {f g : Int → ν → Int}

theorem total_le_total (terms : List (Int × ν)) (le : ∀ w x, f w x ≤ g w x) :
    total f terms ≤ total g terms := by
  induction terms with
  | nil => exact Int.le_refl 0
  | cons t rest ih =>
    have first := le t.1 t.2
    simp only [total]
    omega

theorem total_gain {terms : List (Int × ν)} {w : Int} {x : ν} (le : ∀ w x, f w x ≤ g w x)
    (member : (w, x) ∈ terms) : total f terms + (g w x - f w x) ≤ total g terms := by
  induction terms with
  | nil => cases member
  | cons t rest ih =>
    obtain ⟨u, y⟩ := t
    have first := le u y
    have others := total_le_total rest le
    simp only [total]
    rcases List.mem_cons.1 member with same | later
    · cases same
      omega
    · have later := ih later
      omega

theorem total_congr {terms : List (Int × ν)} (same : ∀ t ∈ terms, f t.1 t.2 = g t.1 t.2) :
    total f terms = total g terms := by
  induction terms with
  | nil => rfl
  | cons t rest ih =>
    rw [total, total, same t List.mem_cons_self,
      ih fun u member => same u (List.mem_cons_of_mem _ member)]

theorem total_map {μ : Type} (g : μ → ν) (terms : List (Int × μ)) :
    total f (terms.map fun t => (t.1, g t.2)) = total (fun w x => f w (g x)) terms := by
  induction terms with
  | nil => rfl
  | cons t rest ih => rw [List.map_cons, total, total, ih]

theorem total_filter (p : Int × ν → Bool) (terms : List (Int × ν)) :
    total f terms = total f (terms.filter p) + total f (terms.filter fun t => !p t) := by
  induction terms with
  | nil => rfl
  | cons t rest ih =>
    rw [total, ih, List.filter_cons, List.filter_cons]
    cases p t <;> simp [total] <;> omega

theorem sum_eq_total [Variable ν] (v : Valuation) (terms : List (Int × ν)) :
    v.sum terms = total v.term terms := by
  induction terms with
  | nil => rfl
  | cons t rest ih => rw [Valuation.sum_cons, ih, total]

end total

namespace PartialValuation
variable {ν : Type} [Variable ν]

def read (e : PartialValuation) (x : ν) : Option Bool :=
  (e (Variable.literal x).domain).map (Variable.literal x).view

def Extends (e d : PartialValuation) : Prop := ∀ i b, d i = some b → e i = some b

def learn (e : PartialValuation) (i : DomainId) (b : Bool) : PartialValuation :=
  fun j => if j = i then some b else e j

def ofTotal (v : Valuation) : PartialValuation := fun i => some (v i)

def filled (e : PartialValuation) : Valuation := fun i => (e i).getD false

def leastTerm (e : PartialValuation) (w : Int) (x : ν) : Int :=
  match e.read x with
  | some true => w
  | some false => 0
  | none => min w 0

def greatestTerm (e : PartialValuation) (w : Int) (x : ν) : Int :=
  match e.read x with
  | some true => w
  | some false => 0
  | none => max w 0

def least (e : PartialValuation) (terms : List (Int × ν)) : Int := total e.leastTerm terms

def greatest (e : PartialValuation) (terms : List (Int × ν)) : Int := total e.greatestTerm terms

def free (e : PartialValuation) (terms : List (Int × ν)) : List (Int × ν) :=
  terms.filter fun t => (e.read t.2).isNone

theorem extends_refl (e : PartialValuation) : e.Extends e := fun _ _ h => h

theorem extends_trans {e d c : PartialValuation} (h : e.Extends d) (k : d.Extends c) :
    e.Extends c := fun i b known => h i b (k i b known)

theorem extends_antisymm {e d : PartialValuation} (h : e.Extends d) (k : d.Extends e) : e = d := by
  funext i
  cases known : d i with
  | some b => exact h i b known
  | none =>
    cases other : e i with
    | none => rfl
    | some b =>
      rw [k i b other] at known
      exact known

theorem extends_filled (e : PartialValuation) : (ofTotal e.filled).Extends e := by
  intro i b known
  simp only [ofTotal, filled, known, Option.getD_some]

theorem learn_eq_some_iff {e : PartialValuation} {i j : DomainId} {b c : Bool} (new : e i = none) :
    e.learn i b j = some c ↔ e j = some c ∨ (j = i ∧ c = b) := by
  unfold learn
  by_cases same : j = i
  · rw [if_pos same, same, new]
    simp [eq_comm]
  · simp [same]

theorem extends_learn_iff {e d : PartialValuation} {i : DomainId} {b : Bool} (new : d i = none) :
    e.Extends (d.learn i b) ↔ e.Extends d ∧ e i = some b := by
  constructor
  · intro h
    refine ⟨?_, h i b (if_pos rfl)⟩
    intro j c known
    apply h j c
    by_cases same : j = i
    · rw [same, new] at known
      cases known
    · rw [learn, if_neg same]
      exact known
  · intro ⟨h, value⟩ j c known
    unfold learn at known
    split at known
    · next same =>
      rw [same, value]
      exact known
    · exact h j c known

theorem completes_iff_extends {v : Valuation} {s : Domains} {d : PartialValuation}
    (known : ∀ i b, d i = some b ↔ s.values.get? i = some (some b)) :
    v.Completes s ↔ (ofTotal v).Extends d := by
  constructor
  · intro h i b at_i
    exact congrArg some (h i b ((known i b).1 at_i))
  · intro h i b stored
    exact Option.some.inj (h i b ((known i b).2 stored))

@[simp] theorem read_ofTotal (v : Valuation) (x : ν) : (ofTotal v).read x = some (v.eval x) := rfl

@[simp] theorem read_complement (e : PartialValuation) (l : Literal) :
    e.read l.complement = (e.read l).map not := by
  change (e l.domain).map l.complement.view = ((e l.domain).map l.view).map not
  cases e l.domain with
  | none => rfl
  | some b => exact congrArg some (Literal.view_complement l b)

theorem read_complement_eq_some_iff {e : PartialValuation} {l : Literal} {b : Bool} :
    e.read l.complement = some b ↔ e.read l = some (!b) := by
  rw [read_complement]
  cases e.read l with
  | none => simp
  | some c => cases b <;> cases c <;> simp

@[simp] theorem read_positive (e : PartialValuation) (d : DomainId) :
    e.read (Literal.positive d) = e d := by
  change (e d).map (Literal.positive d).view = e d
  cases e d with
  | none => rfl
  | some b => exact congrArg some (Literal.view_positive d b)

theorem read_domain (e : PartialValuation) (d : DomainId) : e.read d = e d := read_positive e d

theorem read_eq_none_iff {e : PartialValuation} {x : ν} :
    e.read x = none ↔ e (Variable.literal x).domain = none := Option.map_eq_none_iff

theorem read_eq_some_iff {e : PartialValuation} {x : ν} {b : Bool} :
    e.read x = some b ↔
      e (Variable.literal x).domain = some ((Variable.literal x).view b) := by
  unfold read
  cases e (Variable.literal x).domain with
  | none => simp
  | some c =>
    simp only [Option.map_some, Option.some.injEq]
    constructor
    · intro h
      rw [← h, Literal.view_view]
    · intro h
      rw [h, Literal.view_view]

theorem read_of_extends {e d : PartialValuation} (h : e.Extends d) {x : ν} {b : Bool}
    (known : d.read x = some b) : e.read x = some b :=
  read_eq_some_iff.2 (h _ _ (read_eq_some_iff.1 known))

theorem leastTerm_le_greatestTerm (e : PartialValuation) (w : Int) (x : ν) :
    e.leastTerm w x ≤ e.greatestTerm w x := by
  unfold leastTerm greatestTerm
  split <;> omega

theorem leastTerm_mono {e d : PartialValuation} (h : e.Extends d) (w : Int) (x : ν) :
    d.leastTerm w x ≤ e.leastTerm w x := by
  cases known : d.read x with
  | some b =>
    have same := read_of_extends h known
    simp only [leastTerm, known, same, Int.le_refl]
  | none =>
    simp only [leastTerm, known]
    split <;> omega

theorem greatestTerm_mono {e d : PartialValuation} (h : e.Extends d) (w : Int) (x : ν) :
    e.greatestTerm w x ≤ d.greatestTerm w x := by
  cases known : d.read x with
  | some b =>
    have same := read_of_extends h known
    simp only [greatestTerm, known, same, Int.le_refl]
  | none =>
    simp only [greatestTerm, known]
    split <;> omega

theorem least_le_greatest (e : PartialValuation) (terms : List (Int × ν)) :
    e.least terms ≤ e.greatest terms := total_le_total terms (leastTerm_le_greatestTerm e)

theorem least_mono {e d : PartialValuation} (h : e.Extends d) (terms : List (Int × ν)) :
    d.least terms ≤ e.least terms := total_le_total terms (leastTerm_mono h)

theorem greatest_mono {e d : PartialValuation} (h : e.Extends d) (terms : List (Int × ν)) :
    e.greatest terms ≤ d.greatest terms := total_le_total terms (greatestTerm_mono h)

theorem least_gain {e d : PartialValuation} (h : e.Extends d) {terms : List (Int × ν)} {w : Int}
    {x : ν} (member : (w, x) ∈ terms) :
    d.least terms + (e.leastTerm w x - d.leastTerm w x) ≤ e.least terms :=
  total_gain (leastTerm_mono h) member

theorem greatest_loss {e d : PartialValuation} (h : e.Extends d) {terms : List (Int × ν)} {w : Int}
    {x : ν} (member : (w, x) ∈ terms) :
    e.greatest terms + (d.greatestTerm w x - e.greatestTerm w x) ≤ d.greatest terms :=
  total_gain (greatestTerm_mono h) member

theorem leastTerm_ofTotal (v : Valuation) (w : Int) (x : ν) :
    (ofTotal v).leastTerm w x = v.term w x := by
  rw [leastTerm, read_ofTotal, Valuation.term]
  cases v.eval x <;> rfl

theorem greatestTerm_ofTotal (v : Valuation) (w : Int) (x : ν) :
    (ofTotal v).greatestTerm w x = v.term w x := by
  rw [greatestTerm, read_ofTotal, Valuation.term]
  cases v.eval x <;> rfl

theorem least_ofTotal (v : Valuation) (terms : List (Int × ν)) :
    (ofTotal v).least terms = v.sum terms :=
  (total_congr fun t _ => leastTerm_ofTotal v t.1 t.2).trans (sum_eq_total v terms).symm

theorem greatest_ofTotal (v : Valuation) (terms : List (Int × ν)) :
    (ofTotal v).greatest terms = v.sum terms :=
  (total_congr fun t _ => greatestTerm_ofTotal v t.1 t.2).trans (sum_eq_total v terms).symm

theorem least_congr {e d : PartialValuation} {terms : List (Int × ν)}
    (same : ∀ t ∈ terms, e.read t.2 = d.read t.2) : e.least terms = d.least terms := by
  apply total_congr
  intro t member
  rw [leastTerm, leastTerm, same t member]

theorem greatest_congr {e d : PartialValuation} {terms : List (Int × ν)}
    (same : ∀ t ∈ terms, e.read t.2 = d.read t.2) : e.greatest terms = d.greatest terms := by
  apply total_congr
  intro t member
  rw [greatestTerm, greatestTerm, same t member]

theorem mem_free_iff {e : PartialValuation} {terms : List (Int × ν)} {t : Int × ν} :
    t ∈ e.free terms ↔ t ∈ terms ∧ e.read t.2 = none := by
  simp [free]

end PartialValuation
end PseudoBoolean
