import PseudoBoolean.Text.Tables.Marks
import PseudoBoolean.Text.Tables.Cases

/-!
Upper and lower case of a text. Each character is written in its other case on its own, except
for the sigma, which has a second small form at the end of a word.
-/
namespace PseudoBoolean.Text

def recase (spellings : List (Nat × List Nat)) (shifts : Shifts) (c : Char) : List Char :=
  match shifts.of c with
  | some d => [d]
  | none =>
    match spellings.lookup c.toNat with
    | some codes => codes.map Char.ofNat
    | none => [c]

def upperOf (c : Char) : List Char := recase upperSpellings upperShifts c

def lowerOf (c : Char) : List Char := recase lowerSpellings lowerShifts c

def isCased (c : Char) : Bool := upperOf c ≠ [c] || lowerOf c ≠ [c] || unpaired.covers c

def isIgnorable (c : Char) : Bool := nonspacing.covers c || ignorable.covers c

/-- Whether the nearest character that is not passed over is a letter with a case. -/
def meetsCase (text : List Char) : Bool :=
  match text.find? (!isIgnorable ·) with
  | some c => isCased c
  | none => false

def toUpper (text : List Char) : List Char := text.flatMap upperOf

def toLowerAfter (before : List Char) : List Char → List Char
  | [] => []
  | c :: rest =>
    let lower := if c = 'Σ' && meetsCase before && !meetsCase rest then ['ς'] else lowerOf c
    lower ++ toLowerAfter (c :: before) rest

def toLower (text : List Char) : List Char := toLowerAfter [] text

end PseudoBoolean.Text
