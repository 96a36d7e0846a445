import Horn.Subst
import Horn.Term.Json

/-!
# Solutions

What a proof says about the variables that were asked for: each variable once,
in the order in which it was first selected, with its value. A variable that is
selected again keeps its place, and its value is written again.
-/

namespace Horn

/-- The selected variables and their values. -/
structure Solution where
  values : List (Var × Term)

namespace Solution

/-- Put the value at the place of the variable, or behind all others if it has none yet. -/
def insert (solution : Solution) (v : Var) (value : Term) : Solution :=
  if solution.values.any fun entry => entry.1.same v then
    ⟨solution.values.map fun entry => if entry.1.same v then (entry.1, value) else entry⟩
  else
    ⟨solution.values ++ [(v, value)]⟩

/-- The values of the selected variables under a substitution, resolved all the
way down if `full`, else only at the top. -/
def project (subst : Subst) (selected : List Var) (full : Bool) : Solution :=
  selected.foldl (fun solution v =>
    solution.insert v (if full then subst.resolve (.var v) else subst.walk (.var v))) ⟨[]⟩

def size (solution : Solution) : Nat :=
  solution.values.length

def isEmpty (solution : Solution) : Bool :=
  solution.values.isEmpty

/-- The value of a variable, if it was selected. -/
def get? (solution : Solution) (v : Var) : Option Term :=
  (solution.values.find? fun entry => entry.1.same v).map Prod.snd

/-- The value of the first selected variable of a name. -/
def getNamed? (solution : Solution) (name : String) : Option Term :=
  (solution.values.find? fun entry => entry.1.name = name).map Prod.snd

/-- Whether both solutions give the same variables the same values. The order of
selection does not matter. -/
def agrees (left right : Solution) : Bool :=
  left.size = right.size &&
    left.values.all fun entry => (right.get? entry.1).any entry.2.same

/-- An object with a member for every variable, under its name. Variables of one
name have a member each. -/
def json (solution : Solution) : String :=
  Json.object (solution.values.map fun entry => (entry.1.name, entry.2.json))

end Solution

end Horn
