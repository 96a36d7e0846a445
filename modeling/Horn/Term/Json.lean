import Horn.Json
import Horn.Term

/-!
# Terms as JSON

Terms as JSON text for other programs. Every node is an object with one member
that names what the node is, except the empty marker, which is a name alone; so
terms that look alike to a person still have different texts.
-/

namespace Horn

/-- A variable: its identity and its name. -/
def Var.json (v : Var) : String :=
  Json.object [("id", toString v.id), ("name", Json.string v.name)]

/-- An atom: its sort as the member, its content as the value. -/
def Atom.json : Atom → String
  | .nil => Json.string "Nil"
  | .symbol name => Json.object [("Symbol", Json.string name)]
  | .integer value => Json.object [("Integer", toString value)]
  | .text content => Json.object [("Text", Json.string content)]

namespace Term

/-- A term after a text, so that what is written only grows at its end. -/
def jsonAfter (before : String) : Term → String
  | .var v => before ++ Json.object [("Variable", v.json)]
  | .atom a => before ++ Json.object [("Atom", a.json)]
  | .pair head tail =>
      tail.jsonAfter (head.jsonAfter (before ++ "\x7b\"Compound\":[") ++ ",") ++ "]\x7d"

/-- A term: a variable, an atom, or the two parts of a pair in an array. -/
def json (term : Term) : String :=
  term.jsonAfter ""

/-- The text before a term has no effect on how the term is written. -/
theorem jsonAfter_eq (term : Term) (before : String) :
    term.jsonAfter before = before ++ term.json := by
  induction term generalizing before with
  | var v => simp [json, jsonAfter]
  | atom a => simp [json, jsonAfter]
  | pair head tail headIH tailIH =>
      simp only [json, jsonAfter]
      rw [tailIH, headIH, tailIH (head.jsonAfter _ ++ ","), headIH ("" ++ _)]
      simp [String.append_assoc]

@[simp] theorem json_var (v : Var) :
    (Term.var v).json = Json.object [("Variable", v.json)] := by
  simp [json, jsonAfter]

@[simp] theorem json_atom (a : Atom) :
    (Term.atom a).json = Json.object [("Atom", a.json)] := by
  simp [json, jsonAfter]

/-- A pair is an object with the array of its head and its tail. -/
@[simp] theorem json_pair (head tail : Term) :
    (Term.pair head tail).json =
      Json.object [("Compound", Json.array [head.json, tail.json])] := by
  have key : Json.string "Compound" = "\"Compound\"" := by decide
  have opening : "\x7b\"Compound\":[" = "\x7b" ++ ("\"Compound\"" ++ (":" ++ "[")) := by
    decide
  have closing : "]\x7d" = "]" ++ "\x7d" := by decide
  rw [json, jsonAfter, jsonAfter_eq, jsonAfter_eq, opening, closing]
  simp only [Json.object, Json.array, Json.member, List.map_cons, List.map_nil,
    String.intercalate_singleton, String.intercalate_cons_cons, key, String.append_assoc,
    String.empty_append]

end Term

end Horn
