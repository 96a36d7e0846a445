import Horn.Database
import Horn.Unify

/-!
# Search

Proof search, depth first, one step at a time. A search is a stack of pending
work: goals that are still to be proved, and goals that still have clauses to be
tried. The alternatives to a clause stay on the stack below what follows from it,
so going back is taking the next piece of work.

Each attempt copies the clause with new variables, unifies the goal with the head
of the copy, and puts the body of the copy in front of the goals that remain.

A search may go on for ever, so whoever runs one says how many steps it may take.
-/

namespace Horn

/-- A piece of work: prove goals from left to right, or resolve one goal with the
clauses from an index on and prove the rest. -/
inductive Frame where
  | prove (goals : List Term) (subst : Subst)
  | resolve (goal : Term) (rest : List Term) (subst : Subst) (index : Nat)

/-- A search over a database, with the work that is left. The first frame is next. -/
structure Search where
  database : Database
  frames : List Frame

/-- What one step comes to: there is no work, all goals are proved under the answer, or the
search goes on. -/
inductive Search.Step where
  | exhausted
  | found (answer : Subst) (search : Search)
  | working (search : Search) (session : Session)

namespace Search

/-- The search for proofs of all goals under a substitution. -/
def all (database : Database) (goals : List Term) (subst : Subst) : Search :=
  ⟨database, [.prove goals subst]⟩

def one (database : Database) (goal : Term) (subst : Subst) : Search :=
  ⟨database, [.resolve goal [] subst 0]⟩

/-- The work that follows an attempt at the clause of an index: the next clause,
if there is one. -/
def alternatives (database : Database) (goal : Term) (rest : List Term) (subst : Subst)
    (index : Nat) : List Frame :=
  if index + 1 < database.size then [.resolve goal rest subst (index + 1)] else []

def step (search : Search) (session : Session) : Step :=
  match search.frames with
  | [] => .exhausted
  | .prove [] subst :: below => .found subst { search with frames := below }
  | .prove (goal :: rest) subst :: below =>
      .working { search with frames := .resolve goal rest subst 0 :: below } session
  | .resolve goal rest subst index :: below =>
      match search.database.nthNewest? index with
      | none => .working { search with frames := below } session
      | some clause =>
          let (copy, session) := session.rename clause
          let unified := Subst.unify goal copy.head subst
          let session := session.record (.attempted goal index clause unified.isSome)
          let continuation := unified.toList.map (Frame.prove (copy.body ++ rest))
          let later := alternatives search.database goal rest subst index
          .working { search with frames := continuation ++ later ++ below } session

/-- How a run for one answer ended. It is unfinished if the steps were used up first. -/
inductive Outcome where
  | found (answer : Subst)
  | exhausted
  | unfinished

/-- A run for one answer: how it ended, and what is left to search. -/
structure Pull where
  outcome : Outcome
  search : Search
  session : Session

/-- Search for the next answer, taking at most `steps` steps. -/
def pull : Nat → Search → Session → Pull
  | 0, search, session => ⟨.unfinished, search, session⟩
  | steps + 1, search, session =>
      match search.step session with
      | .exhausted => ⟨.exhausted, search, session⟩
      | .found answer search => ⟨.found answer, search, session⟩
      | .working search session => pull steps search session

/-- A run for several answers: the answers in the order they were found, whether
the run came to its end, and what is left to search. -/
structure Collection where
  answers : List Subst
  finished : Bool
  search : Search
  session : Session

/-- Search for all answers, or for as many as the limit says, taking at most
`steps` steps. No step is taken after the last answer that the limit allows. -/
def collect : Nat → Option Nat → Search → Session → Collection
  | _, some 0, search, session => ⟨[], true, search, session⟩
  | 0, _, search, session => ⟨[], false, search, session⟩
  | steps + 1, limit, search, session =>
      match search.step session with
      | .exhausted => ⟨[], true, search, session⟩
      | .found answer search =>
          let later := collect steps (limit.map (· - 1)) search session
          { later with answers := answer :: later.answers }
      | .working search session => collect steps limit search session

end Search

end Horn
