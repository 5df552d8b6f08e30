import PseudoBoolean.Proofs.Fates
import PseudoBoolean.Proofs.Hearing

/-!
The counters of a propagator against what it was told. Of the variables that had no value when it
was built, those whose numbers it was told of are taken out and counted, each once, and it holds
the others. Where being told of a number is the delivery of its domain's event, this determines the
counters from the two stores: the one at the building and the present one.
-/
namespace PseudoBoolean
open PartialValuation

theorem saturatingSub_saturatingSub (t : Int) (m n : Nat) :
    saturatingSub (saturatingSub t m) n = saturatingSub t (m + n : Nat) := by
  unfold saturatingSub
  omega

section tracks
variable {ν : Type} [Variable ν]

namespace PartialValuation

def freeOf (e : PartialValuation) (xs : List ν) : List ν := xs.filter fun x => (e.read x).isNone

@[simp] theorem freeOf_freeOf (e : PartialValuation) (xs : List ν) :
    e.freeOf (e.freeOf xs) = e.freeOf xs := by simp [freeOf]

@[simp] theorem numTrue_freeOf (e : PartialValuation) (xs : List ν) :
    e.numTrue (e.freeOf xs) = 0 := by
  rw [numTrue, List.countP_eq_zero]
  intro x member
  rw [freeOf, List.mem_filter, Option.isNone_iff_eq_none] at member
  simp [member.2]

theorem countP_out {e d : PartialValuation} (above : e.Extends d) (inside : ν → Bool)
    (xs : List ν) :
    (xs.countP fun x => decide (e.read x = some true) && !((d.read x).isNone && inside x)) =
      d.numTrue xs + e.numTrue ((d.freeOf xs).filter fun x => !inside x) := by
  induction xs with
  | nil => rfl
  | cons x rest ih =>
    unfold freeOf at ih ⊢
    rw [List.countP_cons, ih, numTrue_cons, List.filter_cons]
    cases value : d.read x with
    | none =>
      cases out : inside x with
      | true => simp [out]
      | false =>
        simp only [Option.isNone_none, out, Bool.not_false, if_true, List.filter_cons,
          numTrue_cons, reduceCtorEq, if_false]
        simp [Nat.add_assoc]
    | some b =>
      rw [read_of_extends above value]
      cases b <;> simp
      omega

end PartialValuation

/-- How the variables `vars` and the `threshold` that a propagator was built for at `seen` became
    what it holds and the threshold that is left, with the numbers that it was told of. -/
structure Tracks (seen known : PartialValuation) (told : LocalId → Prop) (vars : List ν)
    (threshold : Int) (o : OpenVariables ν) (left : Int) : Prop where
  consistent : o.Consistent
  held : ∀ {n x}, o.at? n = some x → (seen.freeOf vars)[n.index]? = some x ∧ ¬ told n
  counted : ∃ gone, (seen.freeOf vars).Perm (gone ++ o.toList) ∧
    (∀ x ∈ gone, known.read x ≠ none ∧ ∃ n, (seen.freeOf vars)[n.index]? = some x ∧ told n) ∧
    left = saturatingSub threshold (seen.numTrue vars + known.numTrue gone : Nat)

variable {seen known known' : PartialValuation} {told : LocalId → Prop} {vars : List ν}
  {t left : Int} {o q : OpenVariables ν} {n : LocalId}

theorem tracks_create {s : Domains} {rest : List ν} {m : Nat}
    (separated : s.separate vars = .ok (rest, m)) :
    Tracks s.known s.known (fun _ => False) vars t (.ofList rest) (saturatingSub t m) := by
  obtain ⟨rfl, rfl⟩ := Domains.separate_eq separated
  refine ⟨OpenVariables.consistent_ofList _, ?_, [], .refl _, by simp, rfl⟩
  intro n x found
  rw [OpenVariables.at?_ofList] at found
  exact ⟨found, id⟩

theorem numTrue_of_extends (above : known'.Extends known) {xs : List ν}
    (values : ∀ x ∈ xs, known.read x ≠ none) : known'.numTrue xs = known.numTrue xs := by
  apply List.countP_congr
  intro x member
  cases value : known.read x with
  | none => exact absurd value (values x member)
  | some b => rw [read_of_extends above value]

theorem Tracks.mono (h : Tracks seen known told vars t o left) (above : known'.Extends known) :
    Tracks seen known' told vars t o left := by
  obtain ⟨gone, split, out, counted⟩ := h.counted
  refine ⟨h.consistent, h.held, gone, split, ?_, ?_⟩
  · intro x member
    refine ⟨?_, (out x member).2⟩
    cases value : known.read x with
    | none => exact absurd value (out x member).1
    | some b => simp [read_of_extends above value]
  · rw [counted, numTrue_of_extends above fun x member => (out x member).1]

theorem Tracks.skip (h : Tracks seen known told vars t o left) (unheld : o.at? n = none) :
    Tracks seen known (fun m => told m ∨ m = n) vars t o left := by
  obtain ⟨gone, split, out, counted⟩ := h.counted
  refine ⟨h.consistent, ?_, gone, split, ?_, counted⟩
  · intro m x found
    obtain ⟨placed, untold⟩ := h.held found
    refine ⟨placed, not_or.2 ⟨untold, ?_⟩⟩
    intro same
    rw [same, unheld] at found
    cases found
  · intro x member
    obtain ⟨value, m, placed, heard⟩ := out x member
    exact ⟨value, m, placed, .inl heard⟩

theorem Tracks.remove (h : Tracks seen known told vars t o left) {x : ν} {b : Bool}
    (found : o.at? n = some x) (consistent : q.Consistent) (taken : o.toList.Perm (x :: q.toList))
    (others : ∀ k, q.at? k = if k = n then none else o.at? k) (value : known.read x = some b) :
    Tracks seen known (fun m => told m ∨ m = n) vars t q
      (if b then saturatingSub left 1 else left) := by
  obtain ⟨gone, split, out, counted⟩ := h.counted
  refine ⟨consistent, ?_, x :: gone, ?_, ?_, ?_⟩
  · intro m y kept
    rw [others] at kept
    split at kept
    · cases kept
    · next apart =>
      obtain ⟨placed, untold⟩ := h.held kept
      exact ⟨placed, not_or.2 ⟨untold, apart⟩⟩
  · exact (split.trans (taken.append_left gone)).trans List.perm_middle
  · intro y member
    rcases List.mem_cons.1 member with rfl | before
    · exact ⟨by simp [value], n, (h.held found).1, .inr rfl⟩
    · obtain ⟨known_, m, placed, heard⟩ := out y before
      exact ⟨known_, m, placed, .inl heard⟩
  · rw [numTrue_cons, value, counted]
    cases b with
    | true => exact saturatingSub_saturatingSub t _ 1
    | false => rfl

end tracks

structure Counters where
  held : List Literal
  numUnfixed : Nat
  threshold : Int
deriving DecidableEq, Repr

def isOpen (seen now : Domains) (l : Literal) : Bool :=
  (seen.known.read l).isNone && decide (now.Untold l.domain)

namespace Counters
variable {c c' : Counters} {seen seen' now later : Domains} {lits lits' : List Literal} {t t' : Int}

/-- The counters of a propagator that was built at `seen` to count `lits` up to `t`, in a state with
    the store `now`. -/
structure Exact (c : Counters) (seen now : Domains) (lits : List Literal) (t : Int) : Prop where
  held : c.held.Perm (lits.filter (isOpen seen now))
  numUnfixed : c.numUnfixed = c.held.length
  threshold : c.threshold = max wordMin
    (t - lits.countP fun l => decide (now.known.read l = some true) && !isOpen seen now l)

theorem exact_of_tracks {ν : Type} [Variable ν] {told : LocalId → Prop} {vars : List ν}
    {o : OpenVariables ν} {left : Int} (h : Tracks seen.known now.known told vars t o left)
    (before : seen.Before now)
    (heard : ∀ n x, (seen.known.freeOf vars)[n.index]? = some x →
      (told n ↔ ¬ now.Untold (Variable.literal x).domain)) :
    Exact ⟨o.toList.map Variable.literal, o.size, left⟩ seen now (vars.map Variable.literal) t := by
  obtain ⟨gone, split, out, counted⟩ := h.counted
  let inside (x : ν) : Bool := decide (now.Untold (Variable.literal x).domain)
  have isOpen_eq : ∀ x : ν, isOpen seen now (Variable.literal x) =
      ((seen.known.read x).isNone && inside x) := fun _ => rfl
  have held : ∀ x ∈ o.toList, inside x = true := by
    intro x member
    obtain ⟨n, found⟩ := OpenVariables.exists_at? h.consistent member
    obtain ⟨placed, untold⟩ := h.held found
    exact decide_eq_true (not_not.1 fun missing => untold ((heard n x placed).2 missing))
  have taken : ∀ x ∈ gone, inside x = false := by
    intro x member
    obtain ⟨-, n, placed, told⟩ := out x member
    exact decide_eq_false ((heard n x placed).1 told)
  have ins : ((seen.known.freeOf vars).filter inside).Perm o.toList := by
    have all := split.filter inside
    have first : gone.filter inside = [] := List.filter_eq_nil_iff.2 (by simpa using taken)
    rwa [List.filter_append, first, List.nil_append, List.filter_eq_self.2 held] at all
  have outs : ((seen.known.freeOf vars).filter fun x => !inside x).Perm gone := by
    have all := split.filter fun x => !inside x
    have first : (gone.filter fun x => !inside x) = gone :=
      List.filter_eq_self.2 (by simpa using taken)
    have second : (o.toList.filter fun x => !inside x) = [] :=
      List.filter_eq_nil_iff.2 (by simpa using held)
    rwa [List.filter_append, first, second, List.append_nil] at all
  constructor
  case numUnfixed => exact o.length_toList.symm.trans (List.length_map _).symm
  case held =>
    rw [List.filter_map]
    apply List.Perm.map
    rw [freeOf, List.filter_filter] at ins
    simpa only [Function.comp_def, isOpen_eq, Bool.and_comm] using ins.symm
  case threshold =>
    have total := countP_out before.known inside vars
    have counts : now.known.numTrue ((seen.known.freeOf vars).filter fun x => !inside x) =
        now.known.numTrue gone := outs.countP_eq _
    rw [counts] at total
    rw [List.countP_map]
    simp only [Function.comp_def, isOpen_eq]
    rw [counted, ← total]
    rfl

theorem Exact.mono (h : c.Exact seen now lits t) (k : c'.Exact seen later lits t)
    (before : now.Before later) : c'.numUnfixed ≤ c.numUnfixed ∧ c'.threshold ≤ c.threshold := by
  have open_ : ∀ l, isOpen seen later l = true → isOpen seen now l = true := by
    intro l inside
    rw [isOpen, Bool.and_eq_true, decide_eq_true_eq] at inside ⊢
    exact ⟨inside.1, before.untold _ inside.2⟩
  constructor
  · rw [h.numUnfixed, k.numUnfixed, h.held.length_eq, k.held.length_eq,
      ← List.countP_eq_length_filter, ← List.countP_eq_length_filter]
    exact List.countP_mono_left fun l _ => open_ l
  · have counts : (lits.countP fun l =>
          decide (now.known.read l = some true) && !isOpen seen now l) ≤
        lits.countP fun l => decide (later.known.read l = some true) && !isOpen seen later l := by
      apply List.countP_mono_left
      intro l _ counted
      rw [Bool.and_eq_true, decide_eq_true_eq, Bool.not_eq_true'] at counted ⊢
      refine ⟨read_of_extends before.known counted.1, ?_⟩
      exact Bool.eq_false_iff.2 fun inside => absurd (open_ l inside) (by simp [counted.2])
    rw [h.threshold, k.threshold]
    omega

theorem isOpen_of_quiet (before : seen.Before now) (quiet : now.pending.events = [])
    (l : Literal) : isOpen seen now l = (now.known.read l).isNone := by
  rw [isOpen, Bool.eq_iff_iff, Bool.and_eq_true, decide_eq_true_eq,
    Domains.untold_of_quiet quiet, Option.isNone_iff_eq_none, Option.isNone_iff_eq_none]
  have same : now.known.read l = none ↔ now.known l.domain = none := read_eq_none_iff
  rw [same]
  constructor
  · exact And.right
  · intro unknown
    refine ⟨?_, unknown⟩
    cases value : seen.known.read l with
    | none => rfl
    | some b =>
      have later := read_of_extends before.known value
      rw [same.2 unknown] at later
      cases later

/-- When nothing is pending, the counters are those of the present values. -/
theorem Exact.of_quiet (h : c.Exact seen now lits t) (before : seen.Before now)
    (quiet : now.pending.events = []) :
    c.held.Perm (now.known.freeOf lits) ∧
      c.threshold = saturatingSub t (now.known.numTrue lits) := by
  have same : isOpen seen now = fun l => (now.known.read l).isNone :=
    funext fun l => isOpen_of_quiet before quiet l
  constructor
  · rw [freeOf, ← same]
    exact h.held
  · rw [h.threshold, saturatingSub, numTrue]
    congr 3
    apply List.countP_congr
    intro l _
    rw [same]
    cases value : now.known.read l <;> simp [value]

structure Handover (seen : Domains) (lits : List Literal) (t : Int) (seen' : Domains)
    (lits' : List Literal) (t' : Int) : Prop where
  before : seen.Before seen'
  quiet : seen'.pending.events = []
  held : lits'.Perm (seen'.known.freeOf lits)
  threshold : t' = saturatingSub t (seen'.known.numTrue lits)

theorem isOpen_eq (before : seen.Before seen') (quiet : seen'.pending.events = [])
    (after : seen'.Before now) (l : Literal) : isOpen seen now l = isOpen seen' now l := by
  rw [Bool.eq_iff_iff, isOpen, isOpen, Bool.and_eq_true, Bool.and_eq_true]
  refine and_congr_left fun inside => ?_
  have untold := after.untold _ (of_decide_eq_true inside)
  have open_ : isOpen seen seen' l = (seen.known.read l).isNone := by simp [isOpen, untold]
  rw [← open_, isOpen_of_quiet before quiet]

theorem Exact.of_handover (h : c.Exact seen' now lits' t')
    (handed : Handover seen lits t seen' lits' t') (after : seen'.Before now) :
    c.Exact seen now lits t := by
  have same : isOpen seen now = isOpen seen' now :=
    funext fun l => isOpen_eq handed.before handed.quiet after l
  constructor
  case numUnfixed => exact h.numUnfixed
  case held =>
    have twice : ∀ l, (isOpen seen' now l && (seen'.known.read l).isNone) =
        isOpen seen' now l := by
      intro l
      unfold isOpen
      cases (seen'.known.read l).isNone <;> simp
    have held := h.held.trans (handed.held.filter (isOpen seen' now))
    rw [freeOf, List.filter_filter] at held
    simp only [twice] at held
    rwa [same]
  case threshold =>
    have whole := countP_out after.known (fun l : Literal => decide (now.Untold l.domain)) lits
    have part := countP_out after.known (fun l : Literal => decide (now.Untold l.domain))
      (seen'.known.freeOf lits)
    rw [numTrue_freeOf, freeOf_freeOf, Nat.zero_add] at part
    rw [← part, ← handed.held.countP_eq] at whole
    rw [h.threshold, handed.threshold, same]
    unfold saturatingSub isOpen
    rw [whole]
    omega

end Counters

theorem PartialValuation.freeOf_map {ν : Type} [Variable ν] (e : PartialValuation) (xs : List ν) :
    e.freeOf (xs.map Variable.literal) = (e.freeOf xs).map Variable.literal := by
  rw [freeOf, List.filter_map]
  rfl

theorem Registration.mem_naming_of_fixing {rs : List Registration} {id : PropagatorId}
    (fixing : ∀ r ∈ rs, r.events = .fixing) {n : LocalId} {e : Event} {d : DomainId} :
    ⟨id, n⟩ ∈ naming id rs e d ↔ ∃ r ∈ rs, r.localId = n ∧ r.literal.domain = d := by
  simp only [naming, List.mem_map, List.mem_filter, asksFor, Bool.and_eq_true, decide_eq_true_eq,
    Subscriber.mk.injEq, true_and, Literal.contains_domainEvents]
  constructor
  · rintro ⟨r, ⟨member, here, -⟩, numbered⟩
    exact ⟨r, member, numbered, here⟩
  · rintro ⟨r, member, numbered, here⟩
    exact ⟨r, ⟨member, here, by rw [fixing r member, EventSet.contains_fixing]⟩, numbered⟩

theorem Registration.mem_naming_withControl {ν : Type} [Variable ν] {xs : List ν}
    {control : Option Literal} {id : PropagatorId} {n : LocalId} {x : ν}
    (placed : xs[n.index]? = some x) {e : Event} {d : DomainId} :
    ⟨id, n⟩ ∈ naming id (withControl xs control) e d ↔ d = (Variable.literal x).domain := by
  have inner : n.index ≠ xs.length :=
    fun last => Nat.lt_irrefl _ (last ▸ (List.getElem?_eq_some_iff.1 placed).1)
  rw [mem_naming_of_fixing (fixing_withControl control), mem_withControl, if_neg inner, placed]
  simp [eq_comm]

section notified
variable {ν : Type} [Variable ν] {seen known : PartialValuation} {told : LocalId → Prop}
  {vars : List ν} {t : Int} {n : LocalId} {e : Event} {decision : Decision}

theorem AtLeast.tracks_notify {p q : AtLeast ν}
    (tracks : Tracks seen known told vars t p.unfixed p.threshold)
    (value : ∀ {x}, (seen.freeOf vars)[n.index]? = some x →
      known.read x = some ((Variable.literal x).observe e).value)
    (notified : p.notify n e = .ok (q, decision)) :
    Tracks seen known (fun m => told m ∨ m = n) vars t q.unfixed q.threshold := by
  rcases notify_cases tracks.consistent notified with
    ⟨unheld, rfl, -⟩ | ⟨x, found, after, taken, others, left, -⟩
  · exact tracks.skip unheld
  · rw [left]
    exact tracks.remove found after taken others (value (tracks.held found).1)

theorem ImpliedAtLeast.tracks_notify {p q : ImpliedAtLeast ν} (consistent : p.Consistent)
    (tracks : Tracks seen known told vars t p.unfixed p.threshold)
    (value : ∀ {x}, (seen.freeOf vars)[n.index]? = some x →
      known.read x = some ((Variable.literal x).observe e).value)
    (notified : p.notify n e = .ok (q, decision)) :
    q.Consistent ∧ Tracks seen known (fun m => told m ∨ m = n) vars t q.unfixed q.threshold := by
  rcases notify_cases consistent notified with
    ⟨rfl, rfl, -⟩ | ⟨-, unheld, rfl, -⟩ | ⟨x, -, found, after, -, -, taken, others, left, -⟩
  · exact ⟨consistent, tracks.skip consistent.apart⟩
  · exact ⟨consistent, tracks.skip unheld⟩
  · refine ⟨after, ?_⟩
    rw [left]
    exact tracks.remove found after.unfixed taken others (value (tracks.held found).1)

end notified

theorem ImpliedAtLeast.verdict_cases {ν : Type} {p q : ImpliedAtLeast ν} {s t : Domains}
    {verdict : Verdict (AtLeast.Blueprint ν)}
    (h : Attempt.exec p.propagate s = .ok (.ok (q, verdict), t)) :
    (q = p ∧ ∀ b, verdict ≠ .replaceBy b) ∨
      verdict = .replaceBy ⟨p.unfixed.toList, p.threshold⟩ ∧ t = s := by
  generalize ended : Except.ok (q, verdict) = r at h
  cases runsTo_of_exec h with
  | vacuous | reached | waiting =>
    cases ended
    exact .inl ⟨rfl, fun b => nofun⟩
  | @rejected required =>
    cases required <;> cases ended
    exact .inl ⟨rfl, fun b => nofun⟩
  | replaced =>
    cases ended
    exact .inr ⟨rfl, rfl⟩

theorem AtLeast.registrations_eq {ν : Type} [Variable ν] {b : Blueprint ν} {s : Domains}
    {p : AtLeast ν} {registrations : List Registration}
    (h : create b s = .ok (p, registrations)) :
    registrations = Registration.withControl (s.known.freeOf b.vars) none := by
  obtain ⟨⟨rest, m⟩, separated, h⟩ := bind_eq_ok_iff.1 h
  obtain ⟨-, rfl⟩ := pure_pair_eq_ok_iff.1 h
  obtain ⟨rfl, -⟩ := Domains.separate_eq separated
  exact (List.append_nil _).symm

theorem ImpliedAtLeast.registrations_eq {ν : Type} [Variable ν] {b : Blueprint ν} {s : Domains}
    {p : ImpliedAtLeast ν} {registrations : List Registration}
    (h : create b s = .ok (p, registrations)) :
    registrations = Registration.withControl (s.known.freeOf b.vars) (some b.control) := by
  obtain ⟨⟨rest, m⟩, separated, h⟩ := bind_eq_ok_iff.1 h
  obtain ⟨-, rfl⟩ := pure_pair_eq_ok_iff.1 h
  obtain ⟨rfl, -⟩ := Domains.separate_eq separated
  rfl

namespace Standard

def Kind.counters? : (k : Kind) → k.Member → Option Counters
  | .atLeast _, p => some ⟨p.unfixed.toList.map Variable.literal, p.unfixed.size, p.threshold⟩
  | .impliedAtLeast _, p => some ⟨p.unfixed.toList.map Variable.literal, p.numUnfixed, p.threshold⟩
  | .weightedSum _, _ => none

def Kind.counted? : (k : Kind) → k.Blueprint → Option (List Literal × Int)
  | .atLeast _, b => some (b.vars.map Variable.literal, b.threshold)
  | .impliedAtLeast _, b => some (b.vars.map Variable.literal, b.threshold)
  | .weightedSum _, _ => none

def countersOf (p : AnyPropagator Kind) : Option Counters := p.1.counters? p.2

def countedBy (b : AnyBlueprint Kind) : Option (List Literal × Int) := b.1.counted? b.2

inductive Became (seen known : PartialValuation) (told : LocalId → Prop) :
    AnyBlueprint Kind → AnyPropagator Kind → Prop where
  | atLeast {o : Over} {b : AtLeast.Blueprint o.Var} {p : AtLeast o.Var} :
      Tracks seen known told b.vars b.threshold p.unfixed p.threshold →
        Became seen known told ⟨.atLeast o, b⟩ ⟨.atLeast o, p⟩
  | impliedAtLeast {o : Over} {b : ImpliedAtLeast.Blueprint o.Var} {p : ImpliedAtLeast o.Var} :
      p.Consistent → Tracks seen known told b.vars b.threshold p.unfixed p.threshold →
        Became seen known told ⟨.impliedAtLeast o, b⟩ ⟨.impliedAtLeast o, p⟩
  | weightedSum {o : Over} {b : WeightedSum.Blueprint o.Var} {p : WeightedSum o.Var} :
      Became seen known told ⟨.weightedSum o, b⟩ ⟨.weightedSum o, p⟩

variable {seen known known' : PartialValuation} {told told' : LocalId → Prop} {n : LocalId}
  {b : AnyBlueprint Kind} {p q : AnyPropagator Kind} {s t : Domains} {e : Event}
  {registrations : List Registration} {lits : List Literal} {threshold : Int}

theorem became_create (created : b.create s = .ok (p, registrations)) :
    Became s.known s.known (fun _ => False) b p := by
  obtain ⟨k, b⟩ := b
  obtain ⟨⟨made, asked⟩, built, created⟩ := bind_eq_ok_iff.1 created
  obtain ⟨rfl, rfl⟩ := pure_pair_eq_ok_iff.1 created
  cases k with
  | atLeast o =>
    obtain ⟨⟨rest, m⟩, separated, built⟩ := bind_eq_ok_iff.1 built
    obtain ⟨rfl, -⟩ := pure_pair_eq_ok_iff.1 built
    exact .atLeast (tracks_create separated)
  | impliedAtLeast o =>
    have consistent := ImpliedAtLeast.consistent_of_create built
    obtain ⟨⟨rest, m⟩, separated, built⟩ := bind_eq_ok_iff.1 built
    obtain ⟨rfl, -⟩ := pure_pair_eq_ok_iff.1 built
    exact .impliedAtLeast consistent (tracks_create separated)
  | weightedSum o => exact .weightedSum

theorem mem_naming_iff (created : b.create s = .ok (p, registrations))
    (counted : countedBy b = some (lits, threshold)) {l : Literal}
    (placed : (s.known.freeOf lits)[n.index]? = some l) {id : PropagatorId} {d : DomainId} :
    ⟨id, n⟩ ∈ Registration.naming id registrations e d ↔ d = l.domain := by
  obtain ⟨k, b⟩ := b
  obtain ⟨⟨made, asked⟩, built, created⟩ := bind_eq_ok_iff.1 created
  obtain ⟨rfl, rfl⟩ := pure_pair_eq_ok_iff.1 created
  cases k with
  | atLeast o =>
    cases counted
    rw [freeOf_map, List.getElem?_map, Option.map_eq_some_iff] at placed
    obtain ⟨x, placed, rfl⟩ := placed
    rw [AtLeast.registrations_eq built]
    exact Registration.mem_naming_withControl placed
  | impliedAtLeast o =>
    cases counted
    rw [freeOf_map, List.getElem?_map, Option.map_eq_some_iff] at placed
    obtain ⟨x, placed, rfl⟩ := placed
    rw [ImpliedAtLeast.registrations_eq built]
    exact Registration.mem_naming_withControl placed
  | weightedSum o => cases counted

theorem Became.mono (h : Became seen known told b p) (above : known'.Extends known) :
    Became seen known' told b p := by
  cases h with
  | atLeast tracks => exact .atLeast (tracks.mono above)
  | impliedAtLeast consistent tracks => exact .impliedAtLeast consistent (tracks.mono above)
  | weightedSum => exact .weightedSum

theorem Became.congr (h : Became seen known told b p) (same : ∀ n, told' n ↔ told n) :
    Became seen known told' b p := by
  rwa [show told' = told from funext fun n => propext (same n)]

theorem Became.notify {decision : Decision} (h : Became seen known told b p)
    (value : ∀ lits t l, countedBy b = some (lits, t) → (seen.freeOf lits)[n.index]? = some l →
      known l.domain = some e.value)
    (notified : p.notify s n e = .ok (q, decision)) :
    Became seen known (fun m => told m ∨ m = n) b q := by
  have read : ∀ {o : Over} {vars : List o.Var} {t : Int},
      countedBy b = some (vars.map Variable.literal, t) → ∀ {x},
        (seen.freeOf vars)[n.index]? = some x →
          known.read x = some ((Variable.literal x).observe e).value := by
    intro o vars t counted x placed
    apply read_of_event (extends_refl known)
    apply value _ t _ counted
    rw [freeOf_map, List.getElem?_map, placed, Option.map_some]
  cases h with
  | atLeast tracks =>
    obtain ⟨⟨next, decided⟩, done, outcome⟩ := bind_eq_ok_iff.1 notified
    obtain ⟨rfl, rfl⟩ := pure_pair_eq_ok_iff.1 outcome
    exact .atLeast (AtLeast.tracks_notify tracks (read rfl) done)
  | impliedAtLeast consistent tracks =>
    obtain ⟨⟨next, decided⟩, done, outcome⟩ := bind_eq_ok_iff.1 notified
    obtain ⟨rfl, rfl⟩ := pure_pair_eq_ok_iff.1 outcome
    obtain ⟨after, followed⟩ := ImpliedAtLeast.tracks_notify consistent tracks (read rfl) done
    exact .impliedAtLeast after followed
  | weightedSum =>
    obtain ⟨⟨next, decided⟩, done, outcome⟩ := bind_eq_ok_iff.1 notified
    obtain ⟨rfl, rfl⟩ := pure_pair_eq_ok_iff.1 outcome
    exact .weightedSum

theorem exact_of_became {seen now : Domains} (h : Became seen.known now.known told b p)
    (counted : countedBy b = some (lits, threshold)) (before : seen.Before now)
    (heard : ∀ n l, (seen.known.freeOf lits)[n.index]? = some l →
      (told n ↔ ¬ now.Untold l.domain)) :
    ∃ c, countersOf p = some c ∧ c.Exact seen now lits threshold := by
  cases h with
  | atLeast tracks =>
    cases counted
    refine ⟨_, rfl, Counters.exact_of_tracks tracks before ?_⟩
    intro n x placed
    apply heard n
    rw [freeOf_map, List.getElem?_map, placed, Option.map_some]
  | impliedAtLeast consistent tracks =>
    cases counted
    refine ⟨_, rfl, ?_⟩
    rw [consistent.numUnfixed]
    refine Counters.exact_of_tracks tracks before ?_
    intro n x placed
    apply heard n
    rw [freeOf_map, List.getElem?_map, placed, Option.map_some]
  | weightedSum => cases counted

theorem counted_iff (h : Became seen known told b p) :
    (countersOf p).isSome ↔ (countedBy b).isSome := by
  cases h <;> exact Iff.rfl

/-- A run leaves the propagator as it is, or hands over what it holds with its threshold. -/
theorem run_cases {self : PropagatorId}
    {outcome : Except Inconsistency (Verdict (AnyBlueprint Kind))}
    (h : (p.propagate self).run s = .ok ((q, outcome), t)) :
    (q = p ∧ ∀ b, outcome ≠ .ok (.replaceBy b)) ∨
      ∃ c b, countersOf p = some c ∧ outcome = .ok (.replaceBy b) ∧
        countedBy b = some (c.held, c.threshold) ∧ t = s := by
  obtain ⟨k, p⟩ := p
  obtain ⟨next, rfl, done⟩ := run_own h
  cases k with
  | atLeast o =>
    obtain ⟨rfl, attempted⟩ := Attempt.run_keeping_pair done
    exact .inl ⟨rfl, fun b same => AtLeast.not_replaceBy (same ▸ attempted)⟩
  | weightedSum o =>
    obtain ⟨rfl, attempted⟩ := Attempt.run_keeping_pair done
    exact .inl ⟨rfl, fun b same => WeightedSum.not_replaceBy (same ▸ attempted)⟩
  | impliedAtLeast o =>
    rcases run_cases_impliedAtLeast done with ⟨verdict, attempted, rfl⟩ | ⟨i, -, rfl, rfl⟩
    · rcases ImpliedAtLeast.verdict_cases attempted with ⟨rfl, stays⟩ | ⟨rfl, rfl⟩
      · refine .inl ⟨rfl, fun b same => ?_⟩
        cases verdict with
        | replaceBy c => exact stays c rfl
        | atFixpoint | subsumed => cases same
      · exact .inr ⟨_, _, rfl, rfl, rfl, rfl⟩
    · exact .inl ⟨rfl, fun b same => by cases same⟩

end Standard
end PseudoBoolean
