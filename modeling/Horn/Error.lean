import Horn.Term.Display

/-!
# Errors

What a caller can get wrong, and the sentence that says so.
-/

namespace Horn

/-- The mistakes that are refused: a rule that has nothing to prove, and a query
that asks for no answers. -/
inductive Error where
  | emptyBody (head : Term)
  | invalidLimit (limit : Nat)
  deriving DecidableEq

namespace Error

/-- The error in words. -/
def message : Error → String
  | .emptyBody head =>
      "rule with head " ++ head.display ++
        " has an empty body; declare it as a fact instead"
  | .invalidLimit limit =>
      "query limit must be a positive integer, got " ++ toString limit

end Error

end Horn
