import Horn.Error

/-!
# Clauses

Facts and rules, and the copy of a clause whose variables are all new. The copy
is made in one pass over head and body: a variable met for the first time gets
the next free identity, and one met again gets the copy it already has.

`Clause.vars` fixes the order in which the pass meets variables: it lists the
occurrences once each (`Clause.vars_eq`).
-/

namespace Horn

namespace Var

/-- The variable behind those that are listed, unless it is listed already. -/
def insert (listed : List Var) (v : Var) : List Var :=
  if listed.any v.same then listed else listed ++ [v]

/-- The variables of a list, each of them where it first occurs. -/
def listOnce (vars : List Var) : List Var :=
  vars.foldl insert []

end Var

/-- The variables of a term behind those that are listed, from left to right. -/
def Term.collect (listed : List Var) : Term → List Var
  | .var v => Var.insert listed v
  | .atom _ => listed
  | .pair head tail => tail.collect (head.collect listed)

theorem Term.collect_eq (listed : List Var) (term : Term) :
    term.collect listed = term.vars.foldl Var.insert listed := by
  induction term generalizing listed with
  | var v => rfl
  | atom a => rfl
  | pair head tail headIH tailIH => rw [collect, headIH, tailIH, vars, List.foldl_append]

/-- A fact holds outright; a rule holds once all goals of its body do. -/
inductive Clause where
  | fact (head : Term)
  | rule (head : Term) (body : List Term)
  deriving DecidableEq

namespace Clause

/-- What the clause concludes. -/
def head : Clause → Term
  | .fact head => head
  | .rule head _ => head

/-- The goals to prove for the head; a fact has none. -/
def body : Clause → List Term
  | .fact _ => []
  | .rule _ body => body

/-- Whether the clause holds without anything to prove. -/
def isFact : Clause → Bool
  | .fact _ => true
  | .rule _ _ => false

/-- A rule with the given body, which must not be empty. -/
def rule? (head : Term) (body : List Term) : Except Error Clause :=
  if body.isEmpty then .error (.emptyBody head) else .ok (.rule head body)

@[simp] theorem head_fact (head : Term) : (Clause.fact head).head = head := rfl

@[simp] theorem head_rule (head : Term) (body : List Term) :
    (Clause.rule head body).head = head := rfl

@[simp] theorem body_fact (head : Term) : (Clause.fact head).body = [] := rfl

@[simp] theorem body_rule (head : Term) (body : List Term) :
    (Clause.rule head body).body = body := rfl

/-- The variables of the clause without repetition, in the order of their first
occurrence in the head and then in the body. -/
def vars (clause : Clause) : List Var :=
  clause.body.foldl Term.collect (clause.head.collect [])

/-- The occurrences of variables in the head and then in the body, from left to right. -/
def occurrences (clause : Clause) : List Var :=
  clause.head.vars ++ clause.body.flatMap Term.vars

theorem vars_eq (clause : Clause) : clause.vars = Var.listOnce clause.occurrences := by
  have goals : ∀ (body : List Term) listed,
      body.foldl Term.collect listed = (body.flatMap Term.vars).foldl Var.insert listed := by
    intro body
    induction body with
    | nil => exact fun _ => rfl
    | cons goal rest ih =>
        intro listed
        rw [List.foldl_cons, ih, Term.collect_eq, List.flatMap_cons, List.foldl_append]
  rw [vars, goals, Term.collect_eq, Var.listOnce, occurrences, List.foldl_append]

/-- Whether two clauses are the same: both facts or both rules, of the same terms. -/
def same : Clause → Clause → Bool
  | .fact head, .fact other => head.same other
  | .rule head body, .rule other otherBody => head.same other && body.isEqv otherBody Term.same
  | _, _ => false

/-- A fact is shown as its head; a rule lists its goals after an arrow. -/
def display : Clause → String
  | .fact head => head.display
  | .rule head [] => head.display ++ " :-"
  | .rule head body => head.display ++ " :- " ++ ", ".intercalate (body.map Term.display)

end Clause

/-- The copies made so far by the identities of what they are copies of, newest first,
and the identity that the next copy gets. -/
structure Renaming where
  copies : List (Nat × Var)
  next : Nat

namespace Renaming

/-- No copies yet. -/
def start (next : Nat) : Renaming :=
  ⟨[], next⟩

/-- The copy of a variable, made now unless there is one already. A copy keeps
the name. -/
def copy (table : Renaming) (v : Var) : Var × Renaming :=
  match table.copies.lookup v.id with
  | some known => (known, table)
  | none =>
      let made : Var := ⟨table.next, v.name⟩
      (made, ⟨(v.id, made) :: table.copies, table.next + 1⟩)

/-- A term with every variable copied, from left to right. -/
def copyTerm (table : Renaming) : Term → Term × Renaming
  | .var v =>
      let (made, table) := table.copy v
      (.var made, table)
  | .atom a => (.atom a, table)
  | .pair head tail =>
      let (head, table) := table.copyTerm head
      let (tail, table) := table.copyTerm tail
      (.pair head tail, table)

/-- Goals with every variable copied, from the first goal to the last. -/
def copyGoals (table : Renaming) : List Term → List Term × Renaming
  | [] => ([], table)
  | goal :: rest =>
      let (goal, table) := table.copyTerm goal
      let (rest, table) := table.copyGoals rest
      (goal :: rest, table)

end Renaming

/-- A copy of the clause in which every variable is new, and the next free
identity after it. The variables of the copy are numbered from `next` on. -/
def Clause.rename (clause : Clause) (next : Nat) : Clause × Nat :=
  match clause with
  | .fact head =>
      let (head, table) := (Renaming.start next).copyTerm head
      (.fact head, table.next)
  | .rule head body =>
      let (head, table) := (Renaming.start next).copyTerm head
      let (body, table) := table.copyGoals body
      (.rule head body, table.next)

end Horn
