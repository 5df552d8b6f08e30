/-!
Why a constraint is refused, and the wording of the refusals.
-/
namespace PseudoBoolean

inductive Location where
  | linear
  | implyLinear
deriving DecidableEq, Repr

def Location.name : Location → String
  | linear => "linear"
  | implyLinear => "imply_linear"

inductive ConstraintError where
  | sizeMismatch (coefficients literals : Nat)
  | overflow (value : Int) (location : Location)
  | unknownRelation (code : Int)
deriving DecidableEq, Repr

def ConstraintError.message : ConstraintError → String
  | sizeMismatch coefficients literals =>
    "got " ++ toString coefficients ++ " coefficients for " ++ toString literals ++ " literals"
  | overflow value location =>
    "the value " ++ toString value ++ " in " ++ location.name ++
      " exceeds the supported integer range"
  | unknownRelation code => toString code ++ " does not identify a relation"

end PseudoBoolean
