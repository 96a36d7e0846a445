import Horn.Clause

/-!
# Events

What happens while clauses are stored and queries run, as values. A log is a list
of events; the line written for an event is made from it on demand.
-/

namespace Horn

/-- How much detail an event is: `trace` events come once per attempted clause. -/
inductive Level where
  | debug
  | trace
  deriving DecidableEq

/-- Something that happened: clauses were stored or removed, a query began or ended, or a goal
was tried against a clause. Clauses are counted from the oldest where they are stored, and from
the newest where they are tried. -/
inductive Event where
  | stored (index : Nat) (clause : Clause)
  | cleared (count : Nat)
  | asked (goals vars : Nat) (limit : Option Nat)
  | attempted (goal : Term) (index : Nat) (clause : Clause) (unified : Bool)
  | answered (count : Nat)
  deriving DecidableEq

namespace Level

def name : Level → String
  | .debug => "DEBUG"
  | .trace => "TRACE"

end Level

namespace Event

/-- Attempts are details; everything else is a milestone. -/
def level : Event → Level
  | .attempted .. => .trace
  | _ => .debug

/-- How a limit is shown: absent, or present with its value. -/
def displayLimit : Option Nat → String
  | none => "None"
  | some limit => "Some(" ++ toString limit ++ ")"

def message : Event → String
  | .stored index clause => "adding clause #" ++ toString index ++ ": " ++ clause.display
  | .cleared count => "clearing " ++ toString count ++ " clauses"
  | .asked goals vars limit =>
      "query: " ++ toString goals ++ " goals, " ++ toString vars ++
        " selected variables, limit " ++ displayLimit limit
  | .attempted goal index clause unified =>
      "goal " ++ goal.display ++ " against clause #" ++ toString index ++ " " ++
        clause.display ++ ": " ++ if unified then "unified" else "failed"
  | .answered count => "query produced " ++ toString count ++ " solutions"

/-- The line written for the event: its level and its words. -/
def line (event : Event) : String :=
  event.level.name ++ " " ++ event.message

end Event

end Horn
