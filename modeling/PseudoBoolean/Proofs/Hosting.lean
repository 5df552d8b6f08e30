import PseudoBoolean.Proofs.Encoding
import PseudoBoolean.Proofs.Evolution
import PseudoBoolean.Proofs.StandardProgress

/-!
Postings come to an answer, whatever kinds of propagator a state holds. Where the standard
propagators are built in their place as they are on their own, a posting whose literals exist never
faults: what it encodes is over domains of the constraint, so all that it builds can be built.
-/
namespace PseudoBoolean
open Standard

/-- The place for the standard propagators is faithful: what is built there from a blueprint is the
    standard propagator, and it asks to be told of the same. -/
class EmbedsStandard (κ : Type) [PropagatorKinds κ] [HoldsStandard κ] where
  member : AnyPropagator Kind → AnyPropagator κ
  create_eq : ∀ (b : AnyBlueprint Kind) (s : Domains),
    (HoldsStandard.blueprint b : AnyBlueprint κ).create s =
      (b.create s).map fun made => (member made.1, made.2)

instance : EmbedsStandard Kind where
  member := id
  create_eq b s := by
    change b.create s = _
    cases b.create s <;> rfl

section normalForm
variable {c : LinearConstraint} {s : Domains} {limits : Limits} {location : Location}
  {n : NormalSum}

theorem Residue.returns_gather {terms : List (Int × Literal)} (has : ∀ t ∈ terms, s.Has t.2)
    (r : Residue) : Returns (gather s r terms) := by
  induction terms generalizing r with
  | nil => exact returns_pure r
  | cons t rest ih =>
    obtain ⟨w, l⟩ := t
    have others : ∀ t ∈ rest, s.Has t.2 := fun t member => has t (.tail _ member)
    apply Returns.bind ⟨_, Domains.read_eq_known (has (w, l) List.mem_cons_self)⟩
    intro value _
    split
    · exact ih others _
    · exact ih others _
    · exact ih others _

namespace NormalSum

theorem returns_ofConstraint (has : ∀ l ∈ c.literals, s.Has l) (limits : Limits)
    (location : Location) : Returns (ofConstraint c s limits location) := by
  unfold ofConstraint
  split
  · exact returns_pure _
  · apply Returns.bind
    · exact Residue.returns_gather (fun t member => has t.2 (List.of_mem_zip member).2) _
    · exact fun _ _ => returns_pure _

theorem has_of_ofConstraint (has : ∀ l ∈ c.literals, s.Has l)
    (h : ofConstraint c s limits location = .ok (.ok n)) : ∀ t ∈ n.terms, s.Has t.2 := by
  intro t member
  have restricted := congrArg WeightedSum.terms (ofConstraint_ok h none).1
  have free : t ∈ s.known.free (c.asSum none).terms := by
    change t ∈ ((c.asSum none).restrict s.known).terms
    rw [← restricted]
    exact member
  obtain ⟨l, inside, same⟩ := LinearConstraint.literal_of_mem_asSum (List.mem_filter.1 free).1
  have here := has l inside
  unfold Domains.Has at here ⊢
  rw [variable_literal, same] at here
  exact here

theorem has_of_mem_literals (has : ∀ t ∈ n.terms, s.Has t.2) {f g : DomainId → Literal}
    (domain : ∀ d, (f d).domain = d ∧ (g d).domain = d) : ∀ l ∈ n.literals f g, s.Has l := by
  intro l member
  obtain ⟨t, inside, rfl⟩ := mem_literals.1 member
  have here := has t inside
  unfold Domains.Has at here ⊢
  rw [variable_literal]
  split
  · rw [(domain t.2).1]
    exact here
  · rw [(domain t.2).2]
    exact here

end NormalSum

def Encoding.FitsIn (s : Domains) : Encoding → Prop
  | counts all => ∀ b ∈ all, ∀ x ∈ b.vars, s.Has x
  | sum b => b.weights.length = b.vars.length ∧ ∀ x ∈ b.vars, s.Has x

namespace NormalSum

theorem has_of_atLeast (has : ∀ t ∈ n.terms, s.Has t.2) {b : AtLeast.Blueprint Literal}
    (h : n.atLeast limits location = .ok b) : ∀ x ∈ b.vars, s.Has x := by
  obtain ⟨threshold, -, h⟩ := bind_eq_ok_iff.1 h
  rw [← pure_eq_ok_iff.1 h]
  exact has_of_mem_literals has fun d => ⟨rfl, rfl⟩

theorem has_of_atMost (has : ∀ t ∈ n.terms, s.Has t.2) {b : AtLeast.Blueprint Literal}
    (h : n.atMost limits location = .ok b) : ∀ x ∈ b.vars, s.Has x := by
  obtain ⟨threshold, -, h⟩ := bind_eq_ok_iff.1 h
  rw [← pure_eq_ok_iff.1 h]
  exact has_of_mem_literals has fun d => ⟨rfl, rfl⟩

theorem fits_of_weighted (has : ∀ t ∈ n.terms, s.Has t.2) {b : WeightedSum.Blueprint Literal}
    (h : n.weighted limits location = .ok b) :
    b.weights.length = b.vars.length ∧ ∀ x ∈ b.vars, s.Has x := by
  obtain ⟨weights, admitted, h⟩ := bind_eq_ok_iff.1 h
  obtain ⟨rhs, -, h⟩ := bind_eq_ok_iff.1 h
  obtain rfl := check_all admitted
  rw [← pure_eq_ok_iff.1 h]
  refine ⟨by simp, ?_⟩
  intro x member
  obtain ⟨t, inside, rfl⟩ := List.mem_map.1 member
  exact has t inside

theorem fits_of_encode (has : ∀ t ∈ n.terms, s.Has t.2) {encoding : Encoding}
    (h : n.encode limits location = .ok encoding) : encoding.FitsIn s := by
  unfold encode at h
  split at h
  · obtain ⟨b, first, h⟩ := bind_eq_ok_iff.1 h
    obtain rfl := pure_eq_ok_iff.1 h
    simpa [Encoding.FitsIn] using has_of_atLeast has first
  · obtain ⟨b, first, h⟩ := bind_eq_ok_iff.1 h
    obtain rfl := pure_eq_ok_iff.1 h
    simpa [Encoding.FitsIn] using has_of_atMost has first
  · obtain ⟨b, first, h⟩ := bind_eq_ok_iff.1 h
    obtain ⟨b', second, h⟩ := bind_eq_ok_iff.1 h
    obtain rfl := pure_eq_ok_iff.1 h
    simpa [Encoding.FitsIn] using ⟨has_of_atLeast has first, has_of_atMost has second⟩
  · obtain ⟨b, first, h⟩ := bind_eq_ok_iff.1 h
    obtain rfl := pure_eq_ok_iff.1 h
    exact fits_of_weighted has first

end NormalSum
end normalForm

namespace State
variable {κ : Type} [PropagatorKinds κ] {s t : State κ}

theorem Sturdy.of_edit (h : s.Sturdy) (edit : s.Edit t) :
    t.Sturdy ∧ t.domains.size = s.domains.size := by
  cases edit with
  | remarked r => exact ⟨⟨h.domains, h.subscriptions⟩, rfl⟩
  | failed i => exact ⟨⟨h.domains, h.subscriptions⟩, rfl⟩
  | fixed fixed =>
    have size := Domains.size_of_fix fixed
    exact ⟨⟨h.domains.of_fix fixed, size ▸ h.subscriptions⟩, size⟩
  | added done =>
    obtain ⟨p, registrations, added⟩ := added_addPropagator done
    rw [added.domains]
    refine ⟨⟨added.domains ▸ h.domains, ?_⟩, rfl⟩
    rw [added.domains]
    exact (h.subscriptions.registerAll added.registered).1

theorem Sturdy.of_edits (h : s.Sturdy) (edits : s.Edits t) :
    t.Sturdy ∧ t.domains.size = s.domains.size := by
  induction edits with
  | refl => exact ⟨h, rfl⟩
  | tail _ last ih =>
    obtain ⟨sturdy, size⟩ := ih.1.of_edit last
    exact ⟨sturdy, size.trans ih.2⟩

theorem Sturdy.remark (h : s.Sturdy) (r : Remark) : (s.remark r).Sturdy :=
  (h.of_edit (.remarked s r)).1

section fixings
variable {l : Literal} {v : Bool}

theorem returns_fixAtPost (h : s.Sturdy) (has : s.domains.Has l) (v : Bool) :
    Returns (s.fixAtPost l v) := by
  unfold fixAtPost
  split
  · exact returns_pure s
  · apply (Domains.returns_fixVariable h.domains has v).bind
    intro ⟨fixing, domains⟩ _
    exact returns_pure _

theorem returns_fixAll {xs : List Literal} (h : s.Sturdy) (has : ∀ x ∈ xs, s.domains.Has x) :
    Returns (xs.foldlM (fixAtPost · · v) s) := by
  apply returns_foldlM fun (rest : List Literal) (u : State κ) =>
    u.Sturdy ∧ ∀ x ∈ rest, u.domains.Has x
  · intro x rest u kept
    obtain ⟨w, fixed⟩ := returns_fixAtPost kept.1 (kept.2 x List.mem_cons_self) v
    obtain ⟨sturdy, size⟩ := kept.1.of_edits (edits_fixAtPost fixed)
    refine ⟨w, fixed, sturdy, ?_⟩
    intro y member
    exact (Domains.has_iff_of_size size y).2 (kept.2 y (List.mem_cons_of_mem x member))
  · exact ⟨h, has⟩

theorem returns_refute {control : Option Literal} (h : s.Sturdy)
    (hasControl : ∀ b ∈ control, s.domains.Has b) : Returns (s.refute control) := by
  cases control with
  | none => exact returns_pure _
  | some b => exact returns_fixAtPost h (hasControl b rfl) false

end fixings

variable [HoldsStandard κ] [EmbedsStandard κ] {control : Literal}

theorem returns_addStandard {b : AnyBlueprint Kind} (h : s.Sturdy) (fits : Fits s.domains b) :
    Returns (s.addStandard b) := by
  obtain ⟨p, registrations, created, -, inside⟩ := buildable_of_fits fits
  have embedded : (HoldsStandard.blueprint b : AnyBlueprint κ).create s.domains =
      .ok (EmbedsStandard.member p, registrations) := by
    rw [EmbedsStandard.create_eq, created]
    rfl
  exact (h.returns_addPropagator embedded inside).bind fun _ _ => returns_pure _

section count
variable {c : AtLeast.Blueprint Literal}

theorem returns_postCount (h : s.Sturdy) (has : ∀ x ∈ c.vars, s.domains.Has x) :
    Returns (s.postCount c) := by
  unfold postCount
  split
  · exact returns_pure s
  apply (Domains.returns_separate has).bind
  intro ⟨rest, n⟩ separated
  have left : ∀ x ∈ rest, s.domains.Has x :=
    fun x member => has x (Domains.subset_of_separate separated member)
  dsimp only
  split
  · exact returns_pure _
  split
  · exact returns_pure _
  split
  · exact returns_fixAll h left
  · exact returns_addStandard h left

theorem returns_postImpliedCount (h : s.Sturdy) (hasControl : s.domains.Has control)
    (has : ∀ x ∈ c.vars, s.domains.Has x) : Returns (s.postImpliedCount control c) := by
  unfold postImpliedCount
  split
  · exact returns_pure s
  apply Returns.bind ⟨_, Domains.read_eq_known hasControl⟩
  intro value _
  split
  · exact returns_pure s
  · exact returns_postCount h has
  apply (Domains.returns_separate has).bind
  intro ⟨rest, n⟩ separated
  have left : ∀ x ∈ rest, s.domains.Has x :=
    fun x member => has x (Domains.subset_of_separate separated member)
  dsimp only
  split
  · exact returns_fixAtPost (h.remark _) hasControl false
  split
  · exact returns_pure _
  · exact returns_addStandard h ⟨hasControl, left⟩

end count

theorem returns_postEncoding {control : Option Literal} {encoding : Encoding} (h : s.Sturdy)
    (hasControl : ∀ b ∈ control, s.domains.Has b) (fits : encoding.FitsIn s.domains) :
    Returns (s.postEncoding control encoding) := by
  cases encoding with
  | sum b => exact returns_addStandard h ⟨fits.1, hasControl, fits.2⟩
  | counts all =>
    apply returns_foldlM fun rest (u : State κ) => u.Sturdy ∧
      u.domains.size = s.domains.size ∧ ∀ b ∈ rest, ∀ x ∈ b.vars, s.domains.Has x
    · intro b rest u ⟨sturdy, size, has⟩
      have exist : ∀ x ∈ b.vars, u.domains.Has x :=
        fun x member => (Domains.has_iff_of_size size x).2 (has b List.mem_cons_self x member)
      have later : ∀ b ∈ rest, ∀ x ∈ b.vars, s.domains.Has x :=
        fun b member => has b (List.mem_cons_of_mem _ member)
      cases control with
      | none =>
        obtain ⟨w, posted⟩ := returns_postCount sturdy exist
        obtain ⟨after, same⟩ := sturdy.of_edits (edits_postCount posted)
        exact ⟨w, posted, after, same.trans size, later⟩
      | some control =>
        have existControl := (Domains.has_iff_of_size size control).2 (hasControl control rfl)
        obtain ⟨w, posted⟩ := returns_postImpliedCount sturdy existControl exist
        obtain ⟨after, same⟩ := sturdy.of_edits (edits_postImpliedCount posted)
        exact ⟨w, posted, after, same.trans size, later⟩
    · exact ⟨h, rfl, fits⟩

section posting
variable {c : LinearConstraint}

theorem returns_enforce {control : Option Literal} (h : s.Sturdy)
    (hasControl : ∀ b ∈ control, s.domains.Has b) (has : ∀ l ∈ c.literals, s.domains.Has l)
    (location : Location) : Returns (s.enforce control location c) := by
  unfold enforce
  apply (NormalSum.returns_ofConstraint has s.limits location).bind
  intro normal normalised
  cases normal with
  | error e => exact returns_pure _
  | ok n =>
    have exist := NormalSum.has_of_ofConstraint has normalised
    dsimp only
    split
    · split
      · exact returns_pure _
      · exact (returns_refute (h.remark _) hasControl).bind fun _ _ => returns_pure _
    split
    · exact returns_pure _
    split
    · exact returns_pure _
    · next encoding encoded =>
      have fits := NormalSum.fits_of_encode exist encoded
      exact (returns_postEncoding (h.remark _) hasControl fits).bind fun _ _ => returns_pure _

theorem returns_post (h : s.Sturdy) (has : ∀ l ∈ c.literals, s.domains.Has l) :
    Returns (s.post c) := by
  unfold post
  split
  · exact returns_pure _
  split
  · exact returns_pure _
  · exact returns_enforce h (by simp) has .linear

theorem returns_imply (h : s.Sturdy) (hasControl : s.domains.Has control)
    (has : ∀ l ∈ c.literals, s.domains.Has l) : Returns (s.imply control c) := by
  unfold imply
  split
  · exact returns_pure _
  split
  · exact returns_pure _
  apply Returns.bind ⟨_, Domains.read_eq_known hasControl⟩
  intro value _
  split
  · exact returns_pure _
  · exact returns_post h has
  · refine returns_enforce h ?_ has .implyLinear
    intro b same
    cases same
    exact hasControl

end posting
end State
end PseudoBoolean
