import PseudoBoolean.Proofs.Audiences
import PseudoBoolean.Proofs.Bookkeeping
import PseudoBoolean.Proofs.Histories

/-!
The lists of subscribers as a relation. After any requests the list of an event on a domain holds
those who asked for it since they were last taken out, each once, in the order in which they first
asked; a negated literal asks for the opposite event. Taking a propagator out takes it off every
list, although only the domains recorded with it are visited.
-/
namespace PseudoBoolean

namespace Table
variable {κ α : Type} [Key κ] {t : Table κ α} {k : κ} {a : α}

theorem set_of_get? (found : t.get? k = some a) : t.set k a = .ok t := by
  obtain ⟨inside, same⟩ := Array.getElem?_eq_some_iff.1 found
  refine set_eq_ok_iff.2 ⟨inside, ?_⟩
  obtain ⟨elements⟩ := t
  subst same
  rw [Array.setIfInBounds_def, dif_pos inside, Array.set_getElem_self]

end Table

namespace Subscriptions

inductive Request where
  | grow
  | subscribe (who : Subscriber) (x : AnyVariable) (events : EventSet)
  | unsubscribe (p : PropagatorId)
deriving DecidableEq, Repr

namespace Request

def grows : Request → Bool
  | grow => true
  | _ => false

def domain? : Request → Option DomainId
  | subscribe _ x _ => some (Variable.literal x).domain
  | _ => none

end Request

def serve (s : Subscriptions) : Request → Checked Subscriptions
  | .grow => return s.grow
  | .subscribe who (.literal l) events => s.subscribeVariable who l events
  | .subscribe who (.domain d) events => s.subscribeVariable who d events
  | .unsubscribe p => s.unsubscribe p

/-- Who asks for an event on a domain, as the variable observes it, and who is taken out. -/
def enrolment (e : Event) (d : DomainId) : Traffic Request Subscriber where
  brings
    | .subscribe who x events, w => (Variable.literal x).domain = d ∧
        events.contains ((Variable.literal x).observe e) = true ∧ w = who
    | _, _ => False
  takes
    | .unsubscribe p, w => w.propagator = p
    | _, _ => False
  apart := by
    rintro (_ | _ | _) w brought taken
    · exact taken
    · exact taken
    · exact brought

def interest : Traffic Request PropagatorId where
  brings
    | .subscribe who _ _, p => p = who.propagator
    | _, _ => False
  takes
    | .unsubscribe q, p => p = q
    | _, _ => False
  apart := by
    rintro (_ | _ | _) p brought taken
    · exact taken
    · exact taken
    · exact brought

variable {s t : Subscriptions} {h : List Request} {e : Event} {d : DomainId} {w who : Subscriber}
  {x : AnyVariable} {events : EventSet} {id p : PropagatorId} {domains : List DomainId} {n : Nat}

def registration (who : Subscriber) (x : AnyVariable) (events : EventSet) : Registration :=
  ⟨Variable.literal x, events, who.localId⟩

theorem serve_subscribe (s : Subscriptions) (who : Subscriber) (x : AnyVariable)
    (events : EventSet) :
    s.serve (.subscribe who x events) =
      s.register who.propagator (registration who x events) := by
  cases x <;> rfl

theorem brings_subscribe : (enrolment e d).brings (.subscribe who x events) w ↔
    (registration who x events).asksFor e d = true ∧ w = who := by
  rw [Registration.asksFor, Bool.and_eq_true, decide_eq_true_eq, Literal.contains_domainEvents]
  exact and_assoc.symm

theorem subscribers_eq (within : s.Within n) (e : Event) (d : DomainId) :
    s.subscribers e d =
      if d.index < n then .ok (s.audience e d) else .error (.outOfRange d.index n) := by
  have size := within.audiences
  split
  · next inside =>
    obtain ⟨l, listed⟩ := returns_subscribers within inside e
    rw [listed, audience_of_subscribers listed]
  · next outside =>
    have absent : s.audiences.get? d = none :=
      (Table.get?_eq_none_iff _ _).2 (by rw [size]; exact Nat.le_of_not_lt outside)
    simp [subscribers, Table.get, absent, size, bind, Except.bind]

theorem watched_of_register {r : Registration} (done : s.register id r = .ok t)
    (found : t.watched.get? p = some domains) :
    p = id ∨ domains = [] ∨ s.watched.get? p = some domains := by
  obtain ⟨watched, listed, done⟩ := bind_eq_ok_iff.1 done
  obtain ⟨audiences, -, done⟩ := bind_eq_ok_iff.1 done
  rw [← pure_eq_ok_iff.1 done] at found
  obtain ⟨before, -, after⟩ := Table.get?_of_update listed
  by_cases own : p = id
  · exact Or.inl own
  · simp only [after, PropagatorId.index_inj, if_neg own, Table.get?_extendTo] at found
    split at found
    · exact Or.inr (Or.inr found)
    · split at found
      · cases found
        exact Or.inr (Or.inl rfl)
      · cases found

theorem watched_of_unsubscribe (done : s.unsubscribe id = .ok t)
    (found : t.watched.get? p = some domains) :
    domains = [] ∨ (p ≠ id ∧ s.watched.get? p = some domains) := by
  cases known : s.watched.get? id with
  | none =>
    rw [unsubscribe_of_unknown known] at done
    cases done
    refine Or.inr ⟨?_, found⟩
    rintro rfl
    rw [known] at found
    cases found
  | some listed =>
    unfold unsubscribe at done
    rw [known] at done
    obtain ⟨audiences, -, done⟩ := bind_eq_ok_iff.1 done
    obtain ⟨watched, cleared, done⟩ := bind_eq_ok_iff.1 done
    rw [← pure_eq_ok_iff.1 done] at found
    simp only [Table.get?_of_set cleared, PropagatorId.index_inj] at found
    split at found
    · cases found
      exact Or.inl rfl
    · next other => exact Or.inr ⟨other, found⟩

theorem unsubscribe_of_unlisted
    (unlisted : ∀ domains, s.watched.get? p = some domains → domains = []) :
    s.unsubscribe p = .ok s := by
  cases known : s.watched.get? p with
  | none => exact unsubscribe_of_unknown known
  | some domains =>
    obtain rfl := unlisted domains known
    simp [unsubscribe, known, Table.set_of_get? known, bind, Except.bind, pure, Except.pure]

structure Enrolled (h : List Request) (s : Subscriptions) : Prop where
  lists : ∀ e d, (enrolment e d).Lists h (s.audience e d)
  covered : s.Covered
  within : s.Within (h.countP Request.grows)
  interested : ∀ {p domains}, s.watched.get? p = some domains → domains = [] ∨ interest.Stands h p

theorem enrolled_empty : Enrolled [] {} where
  lists := by
    intro e d
    rw [audience_empty]
    exact .nil
  covered := covered_empty
  within := by
    constructor
    · rfl
    · intro id domains found
      simp [Table.get?] at found
  interested := by
    intro p domains found
    simp [Table.get?] at found

namespace Enrolled

theorem grow (enrolled : Enrolled h s) : Enrolled (h ++ [.grow]) s.grow := by
  constructor
  · intro e d
    rw [audience_grow]
    exact (enrolled.lists e d).idle (fun _ brought => brought) (fun _ taken => taken)
  · exact enrolled.covered.grow
  · rw [List.countP_append]
    exact enrolled.within.grow
  · intro p domains found
    rcases enrolled.interested found with none | stands
    · exact Or.inl none
    · exact Or.inr (Traffic.stands_concat.2 (Or.inr ⟨stands, fun taken => taken⟩))

theorem subscribe (enrolled : Enrolled h s) (done : s.serve (.subscribe who x events) = .ok t) :
    Enrolled (h ++ [.subscribe who x events]) t := by
  rw [serve_subscribe] at done
  have takes : ∀ e d w, ¬ (enrolment e d).takes (.subscribe who x events) w := by
    intro e d w taken
    exact taken
  constructor
  · intro e d
    rw [audience_register done]
    split
    · next asked =>
      apply (enrolled.lists e d).bring _ (takes e d)
      intro w
      rw [brings_subscribe]
      exact and_iff_right asked
    · next unasked =>
      apply (enrolled.lists e d).idle _ (takes e d)
      intro w brought
      exact unasked (brings_subscribe.1 brought).1
  · exact enrolled.covered.register done
  · rw [List.countP_append]
    exact (enrolled.within.register done).1
  · intro p domains found
    rcases watched_of_register done found with own | none | before
    · exact Or.inr (Traffic.stands_concat.2 (Or.inl own))
    · exact Or.inl none
    · rcases enrolled.interested before with none | stands
      · exact Or.inl none
      · exact Or.inr (Traffic.stands_concat.2 (Or.inr ⟨stands, fun taken => taken⟩))

theorem unsubscribe (enrolled : Enrolled h s) (done : s.unsubscribe id = .ok t) :
    Enrolled (h ++ [.unsubscribe id]) t := by
  constructor
  · intro e d
    rw [audience_unsubscribe enrolled.covered done]
    apply (enrolled.lists e d).take
    · exact fun _ brought => brought
    · intro w
      exact decide_eq_true_iff
  · exact enrolled.covered.unsubscribe done
  · rw [List.countP_append]
    exact enrolled.within.unsubscribe done
  · intro p domains found
    rcases watched_of_unsubscribe done found with none | ⟨other, before⟩
    · exact Or.inl none
    · rcases enrolled.interested before with none | stands
      · exact Or.inl none
      · exact Or.inr (Traffic.stands_concat.2 (Or.inr ⟨stands, other⟩))

theorem serve (enrolled : Enrolled h s) (request : Request)
    (existing : ∀ d ∈ request.domain?, d.index < h.countP Request.grows) :
    ∃ t, s.serve request = .ok t ∧ Enrolled (h ++ [request]) t := by
  cases request with
  | grow => exact ⟨s.grow, rfl, enrolled.grow⟩
  | subscribe who x events =>
    obtain ⟨t, done⟩ := returns_register (r := registration who x events) enrolled.within
      (existing _ rfl) who.propagator
    rw [← serve_subscribe] at done
    exact ⟨t, done, enrolled.subscribe done⟩
  | unsubscribe p =>
    obtain ⟨t, done⟩ := returns_unsubscribe enrolled.within p
    exact ⟨t, done, enrolled.unsubscribe done⟩

end Enrolled

/-- The lists, and what becomes of them when a propagator is taken out, told from the requests
    alone. -/
structure Reflects (h : List Request) (s : Subscriptions) : Prop where
  listed : ∀ e d, d.index < h.countP Request.grows → ∃ l, s.subscribers e d = .ok l ∧ l.Nodup ∧
    (∀ w, w ∈ l ↔ (enrolment e d).Stands h w) ∧ l.Pairwise ((enrolment e d).Before h)
  dismissed : ∀ p, ∃ t, s.unsubscribe p = .ok t ∧
    (∀ e d, t.subscribers e d = (s.subscribers e d).map (List.filter (·.propagator ≠ p))) ∧
    t.unsubscribe p = .ok t
  unlisted : ∀ p, (∀ e d w, (enrolment e d).Stands h w → w.propagator ≠ p) →
    ∀ t, s.unsubscribe p = .ok t → ∀ e d, t.subscribers e d = s.subscribers e d
  unknown : ∀ p, ¬ interest.Stands h p → s.unsubscribe p = .ok s

namespace Enrolled

theorem subscribers_of_unsubscribe (enrolled : Enrolled h s) (done : s.unsubscribe p = .ok t)
    (e : Event) (d : DomainId) :
    t.subscribers e d = (s.subscribers e d).map (List.filter (·.propagator ≠ p)) := by
  rw [subscribers_eq (enrolled.within.unsubscribe done), subscribers_eq enrolled.within,
    audience_unsubscribe enrolled.covered done]
  split <;> rfl

theorem reflects (enrolled : Enrolled h s) : s.Reflects h := by
  constructor
  · intro e d inside
    have lists := enrolled.lists e d
    refine ⟨s.audience e d, ?_, lists.nodup, fun _ => lists.mem_iff, lists.ordered⟩
    rw [subscribers_eq enrolled.within, if_pos inside]
  · intro p
    obtain ⟨t, done⟩ := returns_unsubscribe enrolled.within p
    refine ⟨t, done, enrolled.subscribers_of_unsubscribe done, unsubscribe_of_unlisted ?_⟩
    intro domains found
    rcases watched_of_unsubscribe done found with none | ⟨other, -⟩
    · exact none
    · exact absurd rfl other
  · intro p absent t done e d
    rw [enrolled.subscribers_of_unsubscribe done, subscribers_eq enrolled.within]
    split
    · have stay : (s.audience e d).filter (·.propagator ≠ p) = s.audience e d := by
        apply List.filter_eq_self.2
        intro w member
        exact decide_eq_true (absent e d w ((enrolled.lists e d).mem_iff.1 member))
      exact congrArg Except.ok stay
    · rfl
  · intro p absent
    apply unsubscribe_of_unlisted
    intro domains found
    exact (enrolled.interested found).resolve_right absent

end Enrolled

/-- Any requests about domains that exist are served, and the lists reflect them. -/
theorem reflects_of_grownFirst {requests : List Request}
    (existing : GrownFirst Request.grows Request.domain? 0 requests) :
    ∃ s, requests.foldlM serve {} = .ok s ∧ s.Reflects requests := by
  let Keeps (done rest : List Request) (s : Subscriptions) : Prop :=
    Enrolled done s ∧ GrownFirst Request.grows Request.domain? (done.countP Request.grows) rest
  have step : ∀ {done request rest s}, Keeps done (request :: rest) s →
      ∃ t, s.serve request = .ok t ∧ Keeps (done ++ [request]) rest t := by
    rintro done request rest s ⟨enrolled, existing⟩
    obtain ⟨inside, later⟩ := existing.step
    obtain ⟨t, served, enrolled⟩ := enrolled.serve request inside
    exact ⟨t, served, enrolled, later⟩
  have start : Keeps [] requests {} := ⟨enrolled_empty, existing⟩
  obtain ⟨s, served, enrolled, -⟩ := foldlM_history Keeps step start
  exact ⟨s, served, enrolled.reflects⟩

/-- Propagator 1 asks through a negated literal, is taken out and asks again, once in vain. -/
theorem reflects_of_grownFirst_again :
    let early : Subscriber := ⟨⟨1⟩, ⟨0⟩⟩
    let late : Subscriber := ⟨⟨2⟩, ⟨5⟩⟩
    let negated : AnyVariable := .literal ⟨⟨0⟩, true⟩
    let requests : List Request := [.grow, .grow, .subscribe early negated ⟨true, false⟩,
      .subscribe late (.domain ⟨0⟩) .fixing, .unsubscribe ⟨1⟩,
      .subscribe early (.domain ⟨0⟩) ⟨false, true⟩, .subscribe early negated ⟨true, false⟩]
    GrownFirst Request.grows Request.domain? 0 requests ∧
      ∃ s, requests.foldlM serve {} = .ok s ∧ s.Reflects requests ∧
        s.subscribers .fixedFalse ⟨0⟩ = .ok [late, early] ∧
        s.subscribers .fixedTrue ⟨0⟩ = .ok [late] := by
  intro early late negated requests
  have existing : GrownFirst Request.grows Request.domain? 0 requests := by decide
  obtain ⟨s, served, reflects⟩ := reflects_of_grownFirst existing
  have seen : (requests.foldlM serve {}).toOption.any (fun s => decide
      (s.subscribers .fixedFalse ⟨0⟩ = .ok [late, early] ∧
        s.subscribers .fixedTrue ⟨0⟩ = .ok [late])) = true := by decide +kernel
  rw [served] at seen
  exact ⟨existing, s, served, reflects, of_decide_eq_true seen⟩

end Subscriptions
end PseudoBoolean
