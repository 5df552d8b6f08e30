import PseudoBoolean.Proofs.Accounts
import PseudoBoolean.Proofs.Histories
import PseudoBoolean.Proofs.Recording

/-!
The store and its record in step. Domains are made and fixed through variables of either polarity,
and the record is drained, in any order. A domain keeps the value that it is given first. The record
holds the domains that were given one since the last drain, in this order, and the flags are up for
these events only; so no domain is ever reported twice.
-/
namespace PseudoBoolean

namespace PendingEvents
variable {p q : PendingEvents} {e f : Event} {c d : DomainId}

def Flagged (p : PendingEvents) (e : Event) (d : DomainId) : Prop :=
  ∃ flags, p.present.get? d = some flags ∧ flags.contains e = true

theorem flagged_of_record (done : p.record e d = .ok q)
    (up : p.Flagged f c ∨ (f = e ∧ c = d)) : q.Flagged f c := by
  obtain ⟨flags, got, done⟩ := bind_eq_ok_iff.1 done
  have found := Table.get_eq_ok_iff.1 got
  split at done
  · next present =>
    rw [← pure_eq_ok_iff.1 done]
    rcases up with old | ⟨rfl, rfl⟩
    · exact old
    · exact ⟨flags, found, present⟩
  · obtain ⟨present, stored, done⟩ := bind_eq_ok_iff.1 done
    rw [← pure_eq_ok_iff.1 done]
    have after := Table.get?_of_set stored c
    by_cases same : c = d
    · subst same
      rw [if_pos rfl] at after
      refine ⟨flags.insert e, after, ?_⟩
      rw [EventSet.contains_insert]
      rcases up with ⟨before, old, stood⟩ | ⟨rfl, -⟩
      · rw [found] at old
        cases old
        simp [stood]
      · simp
    · rw [if_neg (mt DomainId.index_inj.1 same)] at after
      rcases up with ⟨before, old, stood⟩ | ⟨-, equal⟩
      · exact ⟨before, after.trans old, stood⟩
      · exact absurd equal same

theorem Flagged.grow (up : p.Flagged e d) : p.grow.Flagged e d := by
  obtain ⟨flags, found, stood⟩ := up
  have inside := Table.index_lt_iff.2 ⟨flags, found⟩
  refine ⟨flags, ?_, stood⟩
  rw [PendingEvents.grow, Table.get?_push, if_neg (Nat.ne_of_lt inside)]
  exact found

end PendingEvents

namespace Domains

inductive Request where
  | grow
  | fix (x : AnyVariable) (v : Bool)
  | drain
deriving DecidableEq, Repr

namespace Request

def grows : Request → Bool
  | grow => true
  | _ => false

def domain? : Request → Option DomainId
  | fix x _ => some (Variable.literal x).domain
  | _ => none

end Request

inductive Answer where
  | made (d : DomainId)
  | fixed (r : Fixing)
  | drained (events : List (Event × DomainId))
deriving DecidableEq, Repr

def Answer.events : Answer → List (Event × DomainId)
  | drained events => events
  | _ => []

def serve (s : Domains) : Request → Checked (Answer × Domains)
  | .grow => return (.made s.nextId, s.grow)
  | .fix (.literal l) v => do
    let (r, s) ← s.fixVariable l v
    return (.fixed r, s)
  | .fix (.domain d) v => do
    let (r, s) ← s.fixVariable d v
    return (.fixed r, s)
  | .drain => do
    let (events, s) ← s.drain
    return (.drained events, s)

def fixings : Traffic (Request × Answer) DomainId where
  brings entry d := ∃ x v, entry = (.fix x v, .fixed .changed) ∧ (Variable.literal x).domain = d
  takes entry _ := entry.1 = .drain
  apart := by
    rintro entry d ⟨x, v, rfl, -⟩ drained
    cases drained

def Given (h : List (Request × Answer)) (d : DomainId) (b : Bool) : Prop :=
  ∃ x v, (.fix x v, .fixed .changed) ∈ h ∧ (Variable.literal x).domain = d ∧
    (Variable.literal x).view v = b

def reported (h : List (Request × Answer)) : List (Event × DomainId) := h.flatMap (·.2.events)

variable {s t : Domains} {h : List (Request × Answer)} {request : Request} {answer : Answer}
  {x : AnyVariable} {v b : Bool} {r : Fixing} {d : DomainId} {e : Event}
  {l events : List (Event × DomainId)}

theorem reported_concat (h : List (Request × Answer)) (entry : Request × Answer) :
    reported (h ++ [entry]) = reported h ++ entry.2.events := by
  simp [reported]

theorem given_concat {entry : Request × Answer} : Given (h ++ [entry]) d b ↔
    Given h d b ∨ ∃ x v, entry = (.fix x v, .fixed .changed) ∧ (Variable.literal x).domain = d ∧
      (Variable.literal x).view v = b := by
  constructor
  · rintro ⟨x, v, member, same⟩
    rcases List.mem_append.1 member with old | last
    · exact Or.inl ⟨x, v, old, same⟩
    · exact Or.inr ⟨x, v, (List.mem_singleton.1 last).symm, same⟩
  · rintro (⟨x, v, old, same⟩ | ⟨x, v, rfl, same⟩)
    · exact ⟨x, v, List.mem_append_left _ old, same⟩
    · exact ⟨x, v, List.mem_append_right _ List.mem_cons_self, same⟩

theorem given_concat_of_idle {entry : Request × Answer} (idle : ∀ d, ¬ fixings.brings entry d) :
    Given (h ++ [entry]) d b ↔ Given h d b := by
  rw [given_concat, or_iff_left]
  rintro ⟨x, v, same, -⟩
  exact idle _ ⟨x, v, same, rfl⟩

theorem reported_fix : reported (h ++ [(.fix x v, .fixed r)]) = reported h := by
  simp [reported_concat, Answer.events]

theorem brings_fix : fixings.brings (.fix x v, .fixed r) d ↔
    r = .changed ∧ d = (Variable.literal x).domain := by
  constructor
  · rintro ⟨y, w, same, rfl⟩
    cases same
    exact ⟨rfl, rfl⟩
  · rintro ⟨rfl, rfl⟩
    exact ⟨x, v, rfl, rfl⟩

theorem not_takes_fix : ¬ fixings.takes (.fix x v, .fixed r) d := by
  intro taken
  cases taken

theorem serve_fix_eq_ok_iff : s.serve (.fix x v) = .ok (answer, t) ↔
    ∃ r, s.fixVariable x v = .ok (r, t) ∧ answer = .fixed r := by
  have served : s.serve (.fix x v) = do
      let (r, t) ← s.fixVariable x v
      return (.fixed r, t) := by cases x <;> rfl
  rw [served]
  constructor
  · intro done
    obtain ⟨⟨r, u⟩, fixed, done⟩ := bind_eq_ok_iff.1 done
    obtain ⟨rfl, rfl⟩ := pure_pair_eq_ok_iff.1 done
    exact ⟨r, fixed, rfl⟩
  · rintro ⟨r, fixed, rfl⟩
    exact bind_eq_ok_iff.2 ⟨(r, t), fixed, rfl⟩

theorem serve_drain_eq_ok_iff : s.serve .drain = .ok (answer, t) ↔
    ∃ events, s.drain = .ok (events, t) ∧ answer = .drained events := by
  constructor
  · intro done
    obtain ⟨⟨events, u⟩, drained, done⟩ := bind_eq_ok_iff.1 done
    obtain ⟨rfl, rfl⟩ := pure_pair_eq_ok_iff.1 done
    exact ⟨events, drained, rfl⟩
  · rintro ⟨events, drained, rfl⟩
    exact bind_eq_ok_iff.2 ⟨(events, t), drained, rfl⟩

theorem value_eq_some_iff : s.value d = .ok (some b) ↔ s.known d = some b := by
  rw [value, Table.get_eq_ok_iff, known_eq_some_iff]

theorem size_of_serve (done : s.serve request = .ok (answer, t)) :
    t.size = if request.grows then s.size + 1 else s.size := by
  cases request with
  | grow =>
    obtain ⟨-, rfl⟩ := pure_pair_eq_ok_iff.1 done
    exact Table.size_push _ _
  | fix x v =>
    obtain ⟨r, fixed, -⟩ := serve_fix_eq_ok_iff.1 done
    exact size_of_fix fixed
  | drain =>
    obtain ⟨events, drained, -⟩ := serve_drain_eq_ok_iff.1 done
    exact congrArg Table.size (frame_of_drain drained).2.1

theorem extends_of_serve (done : s.serve request = .ok (answer, t)) : t.known.Extends s.known := by
  cases request with
  | grow =>
    obtain ⟨-, rfl⟩ := pure_pair_eq_ok_iff.1 done
    rw [known_grow]
    exact PartialValuation.extends_refl _
  | fix x v =>
    obtain ⟨r, fixed, -⟩ := serve_fix_eq_ok_iff.1 done
    exact extends_of_fix fixed
  | drain =>
    obtain ⟨events, drained, -⟩ := serve_drain_eq_ok_iff.1 done
    rw [known_congr (frame_of_drain drained).2.1]
    exact PartialValuation.extends_refl _

theorem extends_of_serveAll {requests : List Request} {answers : List Answer}
    (done : serveAll serve s requests = .ok (answers, t)) : t.known.Extends s.known :=
  serveAll_moves (fun s t : Domains => t.known.Extends s.known)
    (fun s => PartialValuation.extends_refl s.known)
    (fun first later => PartialValuation.extends_trans later first) extends_of_serve done

theorem Assigned.flagged_iff (assigned : Assigned l s) :
    s.pending.Flagged e d ↔ (e, d) ∈ s.pending.events := by
  constructor
  · rintro ⟨flags, found, up⟩
    exact assigned.faithful.event_of_flag found up
  · intro member
    induction assigned with
    | empty => cases member
    | grown _ ih => exact (ih member).grow
    | drained _ drained _ =>
      rw [(frame_of_drain drained).2.2.1] at member
      cases member
    | fixed before fixed ih =>
      apply PendingEvents.flagged_of_record (known_of_fix_changed fixed).2.2
      rcases (mem_events_of_fix before.faithful fixed e d).1 member with old | ⟨-, new⟩
      · exact Or.inl (ih old)
      · exact Or.inr new

structure Chronicled (h : List (Request × Answer)) (s : Domains) : Prop where
  assigned : Assigned s.pending.events s
  listed : fixings.Lists h (s.pending.events.map Prod.snd)
  given_iff : ∀ {d b}, s.known d = some b ↔ Given h d b
  valued : ∀ {e d}, (e, d) ∈ reported h ++ s.pending.events → s.known d = some e.value
  distinct : ((reported h ++ s.pending.events).map Prod.snd).Nodup
  counted : s.numFixed = s.countFixed

theorem chronicled_empty : Chronicled [] {} where
  assigned := .empty
  listed := .nil
  given_iff := by
    intro d b
    simp [Given, known, Table.get?]
  valued := by
    intro e d member
    cases member
  distinct := List.nodup_nil
  counted := rfl

namespace Chronicled

theorem grow (chronicled : Chronicled h s) (id : DomainId) :
    Chronicled (h ++ [(.grow, .made id)]) s.grow := by
  have reports : reported (h ++ [(.grow, .made id)]) = reported h := by
    simp [reported_concat, Answer.events]
  have idle : ∀ d, ¬ fixings.brings (.grow, .made id) d := by
    rintro d ⟨x, v, same, -⟩
    cases same
  constructor
  · exact chronicled.assigned.grown
  · apply chronicled.listed.idle idle
    intro d taken
    cases taken
  · intro d b
    rw [known_grow, given_concat_of_idle idle]
    exact chronicled.given_iff
  · intro e d member
    rw [reports] at member
    rw [known_grow]
    exact chronicled.valued member
  · rw [reports]
    exact chronicled.distinct
  · exact chronicled.counted.trans (countFixed_grow s).symm

theorem drain (chronicled : Chronicled h s) (drained : s.drain = .ok (events, t)) :
    Chronicled (h ++ [(.drain, .drained events)]) t := by
  obtain ⟨rfl, values, emptied, numFixed, -⟩ := frame_of_drain drained
  have reports : reported (h ++ [(.drain, .drained s.pending.events)]) ++ t.pending.events =
      reported h ++ s.pending.events := by
    simp [reported_concat, emptied, Answer.events]
  have idle : ∀ d, ¬ fixings.brings (.drain, .drained s.pending.events) d := by
    rintro d ⟨x, v, same, -⟩
    cases same
  constructor
  · rw [emptied]
    exact chronicled.assigned.drained drained
  · have gone : (s.pending.events.map Prod.snd).filter (fun _ => false) = [] := by simp
    rw [emptied, List.map_nil, ← gone]
    apply chronicled.listed.take idle
    intro d
    simp [fixings]
  · intro d b
    rw [known_congr values, given_concat_of_idle idle]
    exact chronicled.given_iff
  · intro e d member
    rw [reports] at member
    rw [known_congr values]
    exact chronicled.valued member
  · rw [reports]
    exact chronicled.distinct
  · rw [numFixed, countFixed_congr values]
    exact chronicled.counted

theorem unreported (chronicled : Chronicled h s) (free : s.known d = none) :
    d ∉ (reported h ++ s.pending.events).map Prod.snd := by
  intro member
  obtain ⟨⟨e, d⟩, event, rfl⟩ := List.mem_map.1 member
  rw [chronicled.valued event] at free
  cases free

theorem refused (chronicled : Chronicled h s) (x : AnyVariable) (v : Bool) (idle : r ≠ .changed) :
    Chronicled (h ++ [(.fix x v, .fixed r)]) s := by
  have traceless : ∀ d, ¬ fixings.brings (.fix x v, .fixed r) d :=
    fun d brought => idle (brings_fix.1 brought).1
  refine ⟨chronicled.assigned, chronicled.listed.idle traceless fun _ => not_takes_fix, ?_, ?_, ?_,
    chronicled.counted⟩
  · intro d b
    rw [given_concat_of_idle traceless]
    exact chronicled.given_iff
  · rw [reported_fix]
    exact chronicled.valued
  · rw [reported_fix]
    exact chronicled.distinct

theorem changed (chronicled : Chronicled h s) (fixed : s.fixVariable x v = .ok (.changed, t)) :
    Chronicled (h ++ [(.fix x v, .fixed .changed)]) t := by
  have assigned := chronicled.assigned.fixed fixed
  have recorded := assigned.events_eq
  obtain ⟨free, learnt, -⟩ := known_of_fix_changed fixed
  have new := chronicled.unreported free
  constructor
  · rw [recorded]
    exact assigned
  · have brought := chronicled.listed.bring (x := (.fix x v, .fixed .changed))
      (fun d => brings_fix.trans (and_iff_right rfl)) fun _ => not_takes_fix
    rw [List.map_append, List.mem_append, not_or] at new
    rw [if_neg new.2] at brought
    rw [recorded, List.map_append]
    exact brought
  · intro d b
    rw [learnt, PartialValuation.learn_eq_some_iff free, given_concat, chronicled.given_iff]
    apply or_congr_right
    constructor
    · rintro ⟨rfl, rfl⟩
      exact ⟨x, v, rfl, rfl, rfl⟩
    · rintro ⟨y, w, same, rfl, rfl⟩
      cases same
      exact ⟨rfl, rfl⟩
  · intro e d member
    rw [reported_fix, recorded, ← List.append_assoc] at member
    rw [learnt, PartialValuation.learn_eq_some_iff free]
    rcases List.mem_append.1 member with old | last
    · exact Or.inl (chronicled.valued old)
    · cases List.mem_singleton.1 last
      rw [Event.value_ofValue]
      exact Or.inr ⟨rfl, rfl⟩
  · rw [reported_fix, recorded, ← List.append_assoc, List.map_append, List.map_singleton,
      ← List.concat_eq_append, List.nodup_concat]
    exact ⟨new, chronicled.distinct⟩
  · have counted := countFixed_of_fix fixed
    have before := chronicled.counted
    omega

theorem fix (chronicled : Chronicled h s) (fixed : s.fixVariable x v = .ok (r, t)) :
    Chronicled (h ++ [(.fix x v, .fixed r)]) t := by
  rcases fix_cases fixed with ⟨rfl, -⟩ | ⟨rfl, -, rfl⟩ | ⟨rfl, -, rfl⟩
  · exact chronicled.changed fixed
  · exact chronicled.refused x v (by simp)
  · exact chronicled.refused x v (by simp)

theorem serve (chronicled : Chronicled h s) (request : Request)
    (existing : ∀ d ∈ request.domain?, d.index < s.size) :
    ∃ answer t, s.serve request = .ok (answer, t) ∧ Chronicled (h ++ [(request, answer)]) t := by
  have tracked := chronicled.assigned.tracked
  cases request with
  | grow => exact ⟨.made s.nextId, s.grow, rfl, chronicled.grow _⟩
  | fix x v =>
    have has : s.Has x := existing _ rfl
    obtain ⟨⟨r, t⟩, fixed⟩ := returns_fixVariable tracked has v
    exact ⟨.fixed r, t, serve_fix_eq_ok_iff.2 ⟨r, fixed, rfl⟩, chronicled.fix fixed⟩
  | drain =>
    obtain ⟨⟨events, t⟩, drained⟩ := returns_drain tracked
    exact ⟨.drained events, t, serve_drain_eq_ok_iff.2 ⟨events, drained, rfl⟩,
      chronicled.drain drained⟩

end Chronicled

structure Decides (s : Domains) (x : AnyVariable) (v : Bool) (r : Fixing) (t : Domains) :
    Prop where
  changed_iff : r = .changed ↔ s.read x = .ok none
  unchanged_iff : r = .unchanged ↔ s.read x = .ok (some v)
  contradicted_iff : r = .contradicted ↔ s.read x = .ok (some !v)
  gives : r = .changed → t.read x = .ok (some v)
  keeps : r ≠ .changed → t = s

theorem decides_of_fixVariable (has : s.Has x) (fixed : s.fixVariable x v = .ok (r, t)) :
    s.Decides x v r t := by
  rcases fix_cases fixed with ⟨rfl, free, -⟩ | ⟨rfl, same, rfl⟩ | ⟨rfl, opposite, rfl⟩
  · have before : s.read x = .ok none := by
      rw [read_eq_known has, PartialValuation.read_eq_none_iff.2 free]
    have met := (extends_after_fix fixed (by simp) t.known).1 (PartialValuation.extends_refl _)
    have after : t.read x = .ok (some v) :=
      read_of_known (PartialValuation.read_eq_some_iff.2 met.2)
    constructor <;> simp [before, after]
  · have before : t.read x = .ok (some v) :=
      read_of_known (PartialValuation.read_eq_some_iff.2 same)
    constructor <;> simp [before]
  · have before : t.read x = .ok (some !v) := by
      apply read_of_known
      rw [PartialValuation.read_eq_some_iff, Literal.view_not]
      exact opposite
    constructor <;> simp [before]

/-- A store and its record, told from the history. -/
structure InStep (h : List (Request × Answer)) (s : Domains) : Prop where
  made : s.size = h.countP fun entry => entry.1.grows
  given_iff : ∀ d b, s.value d = .ok (some b) ↔ Given h d b
  keeps : ∀ d b, s.value d = .ok (some b) → ∀ requests answers t,
    serveAll serve s requests = .ok (answers, t) → t.value d = .ok (some b)
  decides : ∀ (x : AnyVariable) (v : Bool), s.Has x →
    ∃ r t, s.serve (.fix x v) = .ok (.fixed r, t) ∧ s.Decides x v r t
  pending : fixings.Lists h (s.pending.events.map Prod.snd)
  valued : ∀ e d, (e, d) ∈ reported h ++ s.pending.events → s.value d = .ok (some e.value)
  flagged_iff : ∀ e d, s.pending.Flagged e d ↔ (e, d) ∈ s.pending.events
  once : ((reported h ++ s.pending.events).map Prod.snd).Nodup
  counted : s.numFixed = s.countFixed
  drains : ∃ t, s.serve .drain = .ok (.drained s.pending.events, t) ∧ t.pending.events = []

theorem Chronicled.inStep (chronicled : Chronicled h s)
    (made : s.size = h.countP fun entry => entry.1.grows) : s.InStep h := by
  have tracked := chronicled.assigned.tracked
  constructor
  · exact made
  · exact fun d b => value_eq_some_iff.trans chronicled.given_iff
  · intro d b value requests answers t done
    rw [value_eq_some_iff] at value ⊢
    exact extends_of_serveAll done d b value
  · intro x v has
    obtain ⟨⟨r, t⟩, fixed⟩ := returns_fixVariable tracked has v
    exact ⟨r, t, serve_fix_eq_ok_iff.2 ⟨r, fixed, rfl⟩, decides_of_fixVariable has fixed⟩
  · exact chronicled.listed
  · exact fun e d member => value_eq_some_iff.2 (chronicled.valued member)
  · exact fun e d => chronicled.assigned.flagged_iff
  · exact chronicled.distinct
  · exact chronicled.counted
  · obtain ⟨⟨events, t⟩, drained⟩ := returns_drain tracked
    obtain ⟨rfl, -, emptied, -⟩ := frame_of_drain drained
    exact ⟨t, serve_drain_eq_ok_iff.2 ⟨_, drained, rfl⟩, emptied⟩

/-- Any requests about domains that exist are served, and the store and its record stay in step. -/
theorem inStep_of_grownFirst {requests : List Request}
    (existing : GrownFirst Request.grows Request.domain? 0 requests) :
    ∃ answers s, serveAll serve {} requests = .ok (answers, s) ∧
      s.InStep (requests.zip answers) := by
  let Keeps (h : List (Request × Answer)) (rest : List Request) (s : Domains) : Prop :=
    Chronicled h s ∧ s.size = (h.countP fun entry => entry.1.grows) ∧
      GrownFirst Request.grows Request.domain? s.size rest
  have step : ∀ {h request rest s}, Keeps h (request :: rest) s →
      ∃ answer t, s.serve request = .ok (answer, t) ∧ Keeps (h ++ [(request, answer)]) rest t := by
    rintro h request rest s ⟨chronicled, made, inside, later⟩
    obtain ⟨answer, t, served, chronicled⟩ := chronicled.serve request inside
    have size := size_of_serve served
    rw [← size] at later
    refine ⟨answer, t, served, chronicled, ?_, later⟩
    rw [size, made, List.countP_append, List.countP_singleton]
    split <;> rfl
  have start : Keeps [] requests {} := ⟨chronicled_empty, rfl, existing⟩
  obtain ⟨answers, s, served, chronicled, made, -⟩ := serveAll_keeps Keeps step start
  exact ⟨answers, s, served, chronicled.inStep made⟩

/-- A negated literal fixes its domain to the opposite value, which is reported once. -/
theorem inStep_of_grownFirst_negated :
    let negated : AnyVariable := .literal ⟨⟨1⟩, true⟩
    let requests : List Request := [.grow, .grow, .fix negated true, .fix (.domain ⟨0⟩) true,
      .drain, .fix (.domain ⟨1⟩) true, .fix negated true, .drain]
    GrownFirst Request.grows Request.domain? 0 requests ∧
      ∃ answers s, serveAll serve {} requests = .ok (answers, s) ∧
        s.InStep (requests.zip answers) ∧
        answers = [.made ⟨0⟩, .made ⟨1⟩, .fixed .changed, .fixed .changed,
          .drained [(.fixedFalse, ⟨1⟩), (.fixedTrue, ⟨0⟩)], .fixed .contradicted,
          .fixed .unchanged, .drained []] := by
  intro negated requests
  have existing : GrownFirst Request.grows Request.domain? 0 requests := by decide
  obtain ⟨answers, s, served, inStep⟩ := inStep_of_grownFirst existing
  have seen : (serveAll serve {} requests).map Prod.fst = .ok [.made ⟨0⟩, .made ⟨1⟩,
      .fixed .changed, .fixed .changed, .drained [(.fixedFalse, ⟨1⟩), (.fixedTrue, ⟨0⟩)],
      .fixed .contradicted, .fixed .unchanged, .drained []] := by decide +kernel
  rw [served] at seen
  exact ⟨existing, answers, s, served, inStep, Except.ok.inj seen⟩

end Domains
end PseudoBoolean
