import Horn.Search
import Horn.Solution

/-!
# Queries

A query asks which values of some variables make a conjunction of goals hold. Its
answers come in the order in which the search finds them. A limit stops the
search at the last answer that is wanted, so a limited query ends also where the
search alone would not.

An engine holds the database that it is asked about, and hands changes on to it.
-/

namespace Horn

/-- Goals to prove from left to right, variables to report, the most solutions
to give, and whether to resolve their values all the way down. -/
structure Query where
  goals : List Term
  selected : List Var
  limit : Option Nat
  full : Bool

/-- A run of a query: its solutions in the order they were found, unless it was
refused, and whether it came to its end within the steps that it was given. -/
structure Query.Run where
  result : Except Error (List Solution)
  finished : Bool
  session : Session

namespace Query

/-- Run the query for at most `steps` steps of search. A limit of zero is refused
before anything else happens. -/
def run (query : Query) (database : Database) (steps : Nat) (session : Session) :
    Run :=
  if query.limit = some 0 then
    ⟨.error (.invalidLimit 0), true, session⟩
  else
    let session :=
      session.record (.asked query.goals.length query.selected.length query.limit)
    let found := (Search.all database query.goals .empty).collect steps query.limit session
    let solutions := found.answers.map fun answer =>
      Solution.project answer query.selected query.full
    if found.finished then
      ⟨.ok solutions, true, found.session.record (.answered solutions.length)⟩
    else
      ⟨.ok solutions, false, found.session⟩

/-- Whether the goals have a proof, looking no further than the first one.
Selection and limit play no part. There is no answer if the steps run out. -/
def ask (query : Query) (database : Database) (steps : Nat) (session : Session) :
    Option Bool × Session :=
  let first := (Search.all database query.goals .empty).pull steps session
  match first.outcome with
  | .found _ => (some true, first.session)
  | .exhausted => (some false, first.session)
  | .unfinished => (none, first.session)

end Query

/-- A database that is asked. -/
structure Engine where
  database : Database

namespace Engine

def empty : Engine :=
  ⟨.empty⟩

def add (engine : Engine) (clause : Clause) (session : Session) : Engine × Session :=
  let (database, session) := engine.database.add clause session
  (⟨database⟩, session)

def addFact (engine : Engine) (head : Term) (session : Session) : Engine × Session :=
  let (database, session) := engine.database.addFact head session
  (⟨database⟩, session)

/-- Store a rule, or refuse it and store nothing. -/
def addRule (engine : Engine) (head : Term) (body : List Term) (session : Session) :
    Except Error Unit × Engine × Session :=
  let (result, database, session) := engine.database.addRule head body session
  (result, ⟨database⟩, session)

def clear (engine : Engine) (session : Session) : Engine × Session :=
  let (database, session) := engine.database.clear session
  (⟨database⟩, session)

/-- The search for proofs of all goals. -/
def proveAll (engine : Engine) (goals : List Term) (subst : Subst) : Search :=
  .all engine.database goals subst

/-- The search for proofs of one goal. -/
def proveOne (engine : Engine) (goal : Term) (subst : Subst) : Search :=
  .one engine.database goal subst

/-- The solutions of the query. -/
def query (engine : Engine) (query : Query) (steps : Nat) (session : Session) : Query.Run :=
  query.run engine.database steps session

/-- Whether the query has a proof. -/
def ask (engine : Engine) (query : Query) (steps : Nat) (session : Session) :
    Option Bool × Session :=
  query.ask engine.database steps session

end Engine

end Horn
