import PseudoBoolean.State
import PseudoBoolean.Text.Casing

/-!
Reports of statistics. A report is a text of lines `lead name=value`. Nothing is written until
the report is configured, and only the first configuration counts.
-/
namespace PseudoBoolean

structure ReportStyle where
  /-- The first word of every line. -/
  lead : String
  /-- The line that ends a block. -/
  closing : Option String := none
  casing : Option Text.Casing := none
deriving DecidableEq, Repr

def ReportStyle.line (style : ReportStyle) (name value : String) : String :=
  let cased := match style.casing with
    | none => name
    | some casing => casing.apply name
  style.lead ++ " " ++ cased ++ "=" ++ value ++ "\n"

def partName (whole part : String) : String := if whole.isEmpty then part else whole ++ "_" ++ part

structure Report where
  style : Option ReportStyle := none
  text : String := ""
deriving DecidableEq, Repr

namespace Report

def isConfigured (r : Report) : Bool := r.style.isSome

def configure (r : Report) (style : ReportStyle) : Report :=
  { r with style := some (r.style.getD style) }

def put (r : Report) (name value : String) : Report :=
  match r.style with
  | none => r
  | some style => { r with text := r.text ++ style.line name value }

def putClosing (r : Report) : Report :=
  match r.style.bind (·.closing) with
  | none => r
  | some line => { r with text := r.text ++ line ++ "\n" }

def putParts (r : Report) (whole : String) (parts : List (String × Nat)) : Report :=
  parts.foldl (fun r (part, n) => r.put (partName whole part) (toString n)) r

theorem configure_of_isConfigured {r : Report} (h : r.isConfigured) (style : ReportStyle) :
    r.configure style = r := by
  obtain ⟨_ | first, text⟩ := r
  · simp [isConfigured] at h
  · rfl

theorem put_of_not_isConfigured {r : Report} (h : r.isConfigured = false) (name value : String) :
    r.put name value = r := by
  obtain ⟨_ | first, text⟩ := r
  · rfl
  · simp [isConfigured] at h

end Report

def Statistics.parts (s : Statistics) : List (String × Nat) := [
  ("num_propagators_called", s.runs),
  ("num_propagations", s.propagations),
  ("num_notifications", s.notifications),
  ("num_conflicts", s.conflicts),
  ("num_subsumptions", s.subsumptions),
  ("num_rewrites", s.replacements)]

def State.report {κ : Type} [PropagatorKinds κ] (s : State κ) (r : Report) : Report :=
  r.putParts "state" s.statistics.parts

end PseudoBoolean
