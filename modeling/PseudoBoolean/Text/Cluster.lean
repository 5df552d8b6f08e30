import PseudoBoolean.Text.Tables.Marks
import PseudoBoolean.Text.Tables.Clusters

/-!
Clusters: what a reader takes for one character. A cluster is a character with the marks written
on it, a syllable of joined letters, a flag or a joined picture. A text is the concatenation of
its clusters.
-/
namespace PseudoBoolean.Text

abbrev Cluster := List Char

/-- What a character does to the end of a cluster. -/
inductive BreakClass where
  | carriageReturn
  | lineFeed
  | control
  | extender
  | joiner
  | spacing
  | prepended
  | leading
  | vowel
  | trailing
  | openSyllable
  | closedSyllable
  | conjoining
  | pictograph
  | regional
  | other
deriving DecidableEq, Repr

def breakClass (c : Char) : BreakClass :=
  if ' ' ≤ c && c ≤ '~' then .other
  else if c = '\r' then .carriageReturn
  else if c = '\n' then .lineFeed
  else if c = '\u200D' then .joiner
  else if controls.covers c then .control
  else if nonspacing.covers c || extenders.covers c then .extender
  else if spacing.covers c then .spacing
  else if prepended.covers c then .prepended
  else if hangulLeading.covers c then .leading
  else if hangulVowels.covers c then .vowel
  else if hangulTrailing.covers c then .trailing
  else if hangulSyllables.covers c then
    if (c.toNat - 0xAC00) % 28 = 0 then .openSyllable else .closedSyllable
  else if conjoining.covers c then .conjoining
  else if pictographs.covers c then .pictograph
  else if regional.covers c then .regional
  else .other

def isExtender (c : Char) : Bool := breakClass c = .extender

def isLink (c : Char) : Bool := (isExtender c && c ≠ '\u200C') || breakClass c = .joiner

def endsLinked (cluster : List Char) : Bool :=
  (cluster.takeWhile isLink).any (linkers.contains ·.toNat) &&
    (cluster.dropWhile isLink).head?.any (breakClass · = .conjoining)

def endsPictured (cluster : List Char) : Bool :=
  (cluster.tail.dropWhile isExtender).head?.any (breakClass · = .pictograph)

def endsHalfFlag (cluster : List Char) : Bool :=
  (cluster.takeWhile (breakClass · = .regional)).length % 2 = 1

def continues (cluster : List Char) (c : Char) : Bool :=
  match cluster with
  | [] => false
  | last :: _ =>
    match breakClass last, breakClass c with
    | .carriageReturn, after => after = .lineFeed
    | .lineFeed, _ | .control, _ => false
    | _, .carriageReturn | _, .lineFeed | _, .control => false
    | _, .extender | _, .joiner | _, .spacing => true
    | .prepended, _ => true
    | .leading, .leading | .leading, .vowel => true
    | .leading, .openSyllable | .leading, .closedSyllable => true
    | .openSyllable, .vowel | .openSyllable, .trailing => true
    | .vowel, .vowel | .vowel, .trailing => true
    | .closedSyllable, .trailing | .trailing, .trailing => true
    | _, .conjoining => endsLinked cluster
    | .joiner, .pictograph => endsPictured cluster
    | .regional, .regional => endsHalfFlag cluster
    | _, _ => false

/-- The clusters of a text that goes on from a cluster given in reverse. -/
def clustersFrom (cluster : List Char) : List Char → List Cluster
  | [] => [cluster.reverse]
  | c :: rest =>
    if continues cluster c then clustersFrom (c :: cluster) rest
    else cluster.reverse :: clustersFrom [c] rest

def clusters : List Char → List Cluster
  | [] => []
  | c :: rest => clustersFrom [c] rest

theorem flatten_clustersFrom (cluster text : List Char) :
    (clustersFrom cluster text).flatten = cluster.reverse ++ text := by
  induction text generalizing cluster with
  | nil => simp [clustersFrom]
  | cons c rest ih =>
    unfold clustersFrom
    split <;> simp [ih]

theorem flatten_clusters (text : List Char) : (clusters text).flatten = text := by
  cases text with
  | nil => rfl
  | cons c rest => simp [clusters, flatten_clustersFrom]

end PseudoBoolean.Text
