import Horn.Session

/-!
# Databases

The stored clauses. They are kept in the order in which they were declared and
tried in the opposite order, so that a later declaration takes precedence.

The lemmas state every operation through `Database.declared`, the clauses in the
order of declaration.
-/

namespace Horn

/-- Clauses in the order of their declaration. -/
structure Database where
  clauses : Array Clause

namespace Database

/-- No clauses. -/
def empty : Database :=
  ⟨#[]⟩

/-- The clauses, oldest first. -/
def declared (database : Database) : List Clause :=
  database.clauses.toList

/-- The clauses in the order in which goals are tried against them. -/
def newestFirst (database : Database) : List Clause :=
  database.declared.reverse

/-- The number of clauses. -/
def size (database : Database) : Nat :=
  database.clauses.size

/-- Whether there are no clauses. -/
def isEmpty (database : Database) : Bool :=
  database.clauses.isEmpty

/-- The clause at an index counted from the newest. -/
def nthNewest? (database : Database) (index : Nat) : Option Clause :=
  if index < database.size then database.clauses[database.size - (index + 1)]? else none

/-- Store a clause after all others. -/
def add (database : Database) (clause : Clause) (session : Session) : Database × Session :=
  (⟨database.clauses.push clause⟩, session.record (.stored database.size clause))

/-- Store a fact. -/
def addFact (database : Database) (head : Term) (session : Session) : Database × Session :=
  database.add (.fact head) session

/-- Store a rule, or refuse it and store nothing. -/
def addRule (database : Database) (head : Term) (body : List Term) (session : Session) :
    Except Error Unit × Database × Session :=
  match Clause.rule? head body with
  | .ok rule => (.ok (), database.add rule session)
  | .error error => (.error error, database, session)

/-- Store clauses one after another. -/
def addAll (database : Database) (clauses : List Clause) (session : Session) :
    Database × Session :=
  match clauses with
  | [] => (database, session)
  | clause :: rest =>
      let (database, session) := database.add clause session
      database.addAll rest session

/-- A database of the given clauses, declared in this order. -/
def ofList (clauses : List Clause) (session : Session) : Database × Session :=
  empty.addAll clauses session

/-- Remove every clause. -/
def clear (database : Database) (session : Session) : Database × Session :=
  (empty, session.record (.cleared database.size))

@[simp] theorem declared_empty : empty.declared = [] := rfl

@[simp] theorem length_declared (database : Database) :
    database.declared.length = database.size := rfl

@[simp] theorem declared_add (database : Database) (clause : Clause) (session : Session) :
    (database.add clause session).1.declared = database.declared ++ [clause] := by
  simp [add, declared]

@[simp] theorem declared_addFact (database : Database) (head : Term) (session : Session) :
    (database.addFact head session).1.declared = database.declared ++ [.fact head] :=
  declared_add database (.fact head) session

@[simp] theorem declared_addAll (database : Database) (clauses : List Clause)
    (session : Session) :
    (database.addAll clauses session).1.declared = database.declared ++ clauses := by
  induction clauses generalizing database session with
  | nil => simp [addAll]
  | cons clause rest ih => simp [addAll, ih]

@[simp] theorem declared_ofList (clauses : List Clause) (session : Session) :
    (ofList clauses session).1.declared = clauses := by
  simp [ofList]

@[simp] theorem declared_clear (database : Database) (session : Session) :
    (database.clear session).1.declared = [] := rfl

/-- Counting from the newest clause is indexing the clauses newest first. -/
theorem nthNewest?_eq (database : Database) (index : Nat) :
    database.nthNewest? index = database.newestFirst[index]? := by
  by_cases inBounds : index < database.size
  · have inDeclared : index < database.declared.length := inBounds
    simp only [nthNewest?, inBounds, if_true, newestFirst, List.getElem?_reverse inDeclared]
    simp only [declared, size, Array.getElem?_toList, Array.length_toList]
    congr 1
    omega
  · have outside : database.newestFirst.length ≤ index := by
      simpa [newestFirst] using Nat.le_of_not_lt inBounds
    simp [nthNewest?, inBounds, List.getElem?_eq_none outside]

/-- There is a clause at an index exactly if it is smaller than their number. -/
theorem nthNewest?_eq_none_iff {database : Database} {index : Nat} :
    database.nthNewest? index = none ↔ database.size ≤ index := by
  simp [nthNewest?_eq, newestFirst]

theorem lt_size_of_nthNewest? {database : Database} {index : Nat} {clause : Clause}
    (found : database.nthNewest? index = some clause) : index < database.size := by
  apply Nat.lt_of_not_le
  rw [← nthNewest?_eq_none_iff, found]
  exact Option.some_ne_none clause

end Database

end Horn
