import Horn.Proofs.JsonText
import Horn.Proofs.Reporting

/-!
# What JSON text keeps

The JSON text of a term keeps all of it: the sorts of its atoms, the identities and the names of its
variables, and the characters of every string, so that the term is read back from it. The text of a
solution keeps its entries in order, under the names of their variables, one for each of them even
where names coincide (`json_is_lossless`).

Reading is done in two steps. `Json.Value.ofText?` knows JSON and nothing of terms;
`Term.ofValue?` knows how terms are put in objects and nothing of text.
-/

namespace Horn

open Json (Value)

/-! ## Terms as values -/

/-- The value that a variable is written as. -/
def Var.toValue (v : Var) : Value :=
  .object [("id", .integer v.id), ("name", .string v.name)]

/-- The value that an atom is written as. -/
def Atom.toValue : Atom → Value
  | .nil => .string "Nil"
  | .symbol name => .object [("Symbol", .string name)]
  | .integer value => .object [("Integer", .integer value)]
  | .text content => .object [("Text", .string content)]

/-- The value that a term is written as. -/
def Term.toValue : Term → Value
  | .var v => .object [("Variable", v.toValue)]
  | .atom a => .object [("Atom", a.toValue)]
  | .pair head tail => .object [("Compound", .array [head.toValue, tail.toValue])]

/-- The variable that a value is for. -/
def Var.ofValue? : Value → Option Var
  | .object [("id", .integer (.ofNat id)), ("name", .string name)] => some ⟨id, name⟩
  | _ => none

/-- The atom that a value is for. -/
def Atom.ofValue? : Value → Option Atom
  | .string "Nil" => some .nil
  | .object [("Symbol", .string name)] => some (.symbol name)
  | .object [("Integer", .integer value)] => some (.integer value)
  | .object [("Text", .string content)] => some (.text content)
  | _ => none

/-- The term that a value is for. -/
def Term.ofValue? : Value → Option Term
  | .object [("Variable", v)] => (Var.ofValue? v).map .var
  | .object [("Atom", a)] => (Atom.ofValue? a).map .atom
  | .object [("Compound", .array [head, tail])] => do
      let head ← ofValue? head
      let tail ← ofValue? tail
      some (.pair head tail)
  | _ => none

@[simp] theorem Var.ofValue?_toValue (v : Var) : ofValue? v.toValue = some v := rfl

@[simp] theorem Atom.ofValue?_toValue (a : Atom) : ofValue? a.toValue = some a := by
  cases a <;> rfl

@[simp] theorem Term.ofValue?_toValue (term : Term) : ofValue? term.toValue = some term := by
  induction term with
  | var v => simp [toValue, ofValue?]
  | atom a => simp [toValue, ofValue?]
  | pair head tail headIH tailIH => simp [toValue, ofValue?, headIH, tailIH]

/-! ## Text as values -/

theorem Var.reads_json (v : Var) : Value.Reads v.json v.toValue :=
  Value.reads_object (.cons ⟨rfl, Value.reads_integer v.id⟩
    (.cons ⟨rfl, Value.reads_string v.name⟩ .nil))

theorem Atom.reads_json (a : Atom) : Value.Reads a.json a.toValue := by
  cases a with
  | nil => exact Value.reads_string "Nil"
  | symbol name => exact Value.reads_object (.cons ⟨rfl, Value.reads_string name⟩ .nil)
  | integer value => exact Value.reads_object (.cons ⟨rfl, Value.reads_integer value⟩ .nil)
  | text content => exact Value.reads_object (.cons ⟨rfl, Value.reads_string content⟩ .nil)

theorem Term.reads_json (term : Term) : Value.Reads term.json term.toValue := by
  induction term with
  | var v =>
      rw [json_var]
      exact Value.reads_object (.cons ⟨rfl, v.reads_json⟩ .nil)
  | atom a =>
      rw [json_atom]
      exact Value.reads_object (.cons ⟨rfl, a.reads_json⟩ .nil)
  | pair head tail headIH tailIH =>
      rw [json_pair]
      have parts := Value.reads_array (.cons headIH (.cons tailIH .nil))
      exact Value.reads_object (.cons ⟨rfl, parts⟩ .nil)

/-- A solution is written as an object with a member for every entry. -/
theorem Solution.reads_json (solution : Solution) :
    Value.Reads solution.json
      (.object (solution.values.map fun entry => (entry.1.name, entry.2.toValue))) := by
  apply Value.reads_object
  rw [List.forall₂_map_left_iff, List.forall₂_map_right_iff, List.forall₂_same]
  intro entry _
  exact ⟨rfl, entry.2.reads_json⟩

/-! ## Reading back -/

/-- The term that a text stands for. -/
def Term.ofJson? (text : String) : Option Term :=
  (Value.ofText? text).bind Term.ofValue?

/-- A member of an object as an entry of a solution: a name and a term. -/
def Solution.entryOfMember? (member : String × Value) : Option (String × Term) :=
  (Term.ofValue? member.2).map fun value => (member.1, value)

/-- The names and the values of the solution that a text stands for. -/
def Solution.entriesOfJson? (text : String) : Option (List (String × Term)) :=
  match Value.ofText? text with
  | some (.object members) => members.mapM entryOfMember?
  | _ => none

theorem Term.ofJson?_json (term : Term) : ofJson? term.json = some term := by
  rw [ofJson?, Value.ofText?_eq term.reads_json, Option.bind_some, ofValue?_toValue]

theorem Solution.entriesOfJson?_json (solution : Solution) :
    entriesOfJson? solution.json =
      some (solution.values.map fun entry => (entry.1.name, entry.2)) := by
  rw [entriesOfJson?, Value.ofText?_eq solution.reads_json]
  induction solution.values with
  | nil => rfl
  | cons entry values ih => simp_all [entryOfMember?]

/-- The text of a solution has a member for every selected variable, under its name. -/
theorem Solution.names_entriesOfJson?_project (subst : Subst) (selected : List Var) (full : Bool) :
    ∃ listed, Var.ListsOnce listed selected ∧
      (entriesOfJson? (project subst selected full).json).map (List.map Prod.fst) =
        some (listed.map Var.name) := by
  refine ⟨Var.listOnce selected, Var.listsOnce_listOnce selected, ?_⟩
  rw [entriesOfJson?_json, Option.map_some, List.map_map, ← vars_gather, ← project_eq, vars,
    List.map_map]
  rfl

/-- A term is read back from its JSON text, with all strings, identities and names in it, so that
different terms have different texts. From the JSON text of a solution, its entries are read back in
order, each as the name of its variable and its value. There is an entry for each of the different
variables that were selected, also where two of them share a name. -/
theorem json_is_lossless :
    (∀ term : Term, Term.ofJson? term.json = some term) ∧
    Function.Injective Term.json ∧
    (∀ solution : Solution, Solution.entriesOfJson? solution.json =
      some (solution.values.map fun entry => (entry.1.name, entry.2))) ∧
    ∀ (subst : Subst) (selected : List Var) (full : Bool), ∃ listed,
      Var.ListsOnce listed selected ∧
      (Solution.entriesOfJson? (Solution.project subst selected full).json).map
        (List.map Prod.fst) = some (listed.map Var.name) := by
  refine ⟨Term.ofJson?_json, ?_, Solution.entriesOfJson?_json,
    Solution.names_entriesOfJson?_project⟩
  intro one two same
  have read := two.ofJson?_json
  rw [← same, one.ofJson?_json] at read
  exact Option.some.inj read

end Horn
