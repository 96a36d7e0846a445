import Horn.Event

/-!
# Sessions

The two things that outlive every single operation: the supply of identities for
variables, and the log. Databases, searches and queries that share a session
never give two variables the same identity.
-/

namespace Horn

/-- The identity that the next variable gets, and what happened so far, newest
first. -/
structure Session where
  nextVar : Nat
  log : List Event

namespace Session

/-- Nothing has happened and no variable exists. -/
def start : Session :=
  ⟨0, []⟩

/-- A new variable of the given name. -/
def mint (session : Session) (name : String) : Var × Session :=
  (⟨session.nextVar, name⟩, { session with nextVar := session.nextVar + 1 })

/-- A term from its text: a question mark in front makes a new variable of the
rest, and anything else is a symbol. -/
def leaf (session : Session) (text : String) : Term × Session :=
  match text.toList with
  | '?' :: name =>
      let (v, session) := session.mint (String.ofList name)
      (.var v, session)
  | _ => (.symbol text, session)

/-- A copy of the clause in which every variable is new. -/
def rename (session : Session) (clause : Clause) : Clause × Session :=
  let (copy, next) := clause.rename session.nextVar
  (copy, { session with nextVar := next })

/-- Add an event to the log. -/
def record (session : Session) (event : Event) : Session :=
  { session with log := event :: session.log }

/-- What happened so far, oldest first. -/
def events (session : Session) : List Event :=
  session.log.reverse

@[simp] theorem nextVar_record (session : Session) (event : Event) :
    (session.record event).nextVar = session.nextVar := rfl

@[simp] theorem log_rename (session : Session) (clause : Clause) :
    (session.rename clause).2.log = session.log := rfl

end Session

end Horn
