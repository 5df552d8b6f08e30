import PseudoBoolean.Text.LetterCase
import PseudoBoolean.Text.Cluster

/-!
Identifier casings. A text is split into words at underscores, hyphens and spaces, which are
dropped, and where one class of clusters meets another; the words are then written in the manner
of the casing and joined.
-/
namespace PseudoBoolean.Text

inductive Casing where
  | upper
  | lower
  | title
  | toggle
  | camel
  | pascal
  | snake
  | upperSnake
  | kebab
  | cobol
  | train
  | flat
  | upperFlat
deriving DecidableEq, Repr

namespace Cluster

def isSeparator (l : Cluster) : Bool := l = ['_'] || l = ['-'] || l = [' ']

def isUpper (l : Cluster) : Bool := toUpper l ≠ toLower l && toUpper l = l

def isLower (l : Cluster) : Bool := toUpper l ≠ toLower l && toLower l = l

def isDigit (l : Cluster) : Bool := l.all Char.isDigit

end Cluster

def beginsWord (a b : Cluster) : Bool :=
  (a.isLower && b.isUpper) ||
  ((a.isLower || a.isUpper) && b.isDigit) ||
  (a.isDigit && (b.isLower || b.isUpper))

/-- The last of several capitals begins the word that goes on in lower case. -/
def endsAcronym (a b c : Cluster) : Bool := a.isUpper && b.isUpper && c.isLower

/-- Splits a text given as the word so far, in reverse, and the rest. -/
def splitWords (word : List Cluster) : List Cluster → List (List Cluster)
  | [] => [word.reverse]
  | b :: rest =>
    if b.isSeparator then word.reverse :: splitWords [] rest
    else
      let splits := match word, rest with
        | [], _ => false
        | a :: _, [] => beginsWord a b
        | a :: _, c :: _ => beginsWord a b || endsAcronym a b c
      if splits then word.reverse :: splitWords [b] rest else splitWords (b :: word) rest

def words (text : List Char) : List (List Char) :=
  ((splitWords [] (clusters text)).map List.flatten).filter (!·.isEmpty)

def capitalize : List Char → List Char
  | [] => []
  | c :: rest => upperOf c ++ toLower rest

def capitalizeRest : List Char → List Char
  | [] => []
  | c :: rest => lowerOf c ++ toUpper rest

namespace Casing

def delimiter : Casing → String
  | upper | lower | title | toggle => " "
  | camel | pascal | flat | upperFlat => ""
  | snake | upperSnake => "_"
  | kebab | cobol | train => "-"

def write : Casing → List (List Char) → List (List Char)
  | upper, ws | upperSnake, ws | cobol, ws | upperFlat, ws => ws.map toUpper
  | lower, ws | snake, ws | kebab, ws | flat, ws => ws.map toLower
  | title, ws | pascal, ws | train, ws => ws.map capitalize
  | toggle, ws => ws.map capitalizeRest
  | camel, [] => []
  | camel, w :: ws => toLower w :: ws.map capitalize

def apply (c : Casing) (text : String) : String :=
  c.delimiter.intercalate ((c.write (words text.toList)).map String.ofList)

end Casing
end PseudoBoolean.Text
