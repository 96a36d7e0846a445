import Horn.Term
import Horn.Text.Quoted

/-!
# Terms for reading

How terms are shown to a person. A chain of pairs is a list in parentheses, with
a dot before the last tail unless that is the empty marker.

Variables carry their identity, so two variables of one name look different.
-/

namespace Horn

/-- A question mark, the name, and the identity after a number sign. -/
def Var.display (v : Var) : String :=
  "?" ++ v.name ++ "#" ++ toString v.id

/-- Symbols are shown as they are, texts in quotes, the empty marker as an empty
list. -/
def Atom.display : Atom → String
  | .nil => "()"
  | .symbol name => name
  | .integer value => toString value
  | .text content => Text.quote content

mutual

/-- A term after a text, so that what is written only grows at its end. -/
def Term.displayAfter (before : String) : Term → String
  | .var v => before ++ v.display
  | .atom a => before ++ a.display
  | .pair head tail => tail.displayTailAfter (head.displayAfter (before ++ "("))

/-- What follows an item of a list, up to and with the closing parenthesis, after
a text. -/
def Term.displayTailAfter (before : String) : Term → String
  | .var v => before ++ " . " ++ v.display ++ ")"
  | .atom .nil => before ++ ")"
  | .atom a => before ++ " . " ++ a.display ++ ")"
  | .pair head tail => tail.displayTailAfter (head.displayAfter (before ++ " "))

end

namespace Term

/-- A term as a person reads it. -/
def display (term : Term) : String :=
  term.displayAfter ""

/-- What follows an item of a list. -/
def displayTail (term : Term) : String :=
  term.displayTailAfter ""

/-- The text before a term has no effect on how the term is shown. -/
theorem displayAfter_eq_and_displayTailAfter_eq (term : Term) (before : String) :
    term.displayAfter before = before ++ term.display ∧
      term.displayTailAfter before = before ++ term.displayTail := by
  induction term generalizing before with
  | var v => simp [displayAfter, displayTailAfter, display, displayTail, String.append_assoc]
  | atom a =>
      cases a <;>
        simp [displayAfter, displayTailAfter, display, displayTail, String.append_assoc]
  | pair head tail headIH tailIH =>
      simp only [display, displayTail, displayAfter, displayTailAfter]
      simp [(tailIH _).2, (headIH _).1, String.append_assoc]

theorem displayAfter_eq (term : Term) (before : String) :
    term.displayAfter before = before ++ term.display :=
  (displayAfter_eq_and_displayTailAfter_eq term before).1

theorem displayTailAfter_eq (term : Term) (before : String) :
    term.displayTailAfter before = before ++ term.displayTail :=
  (displayAfter_eq_and_displayTailAfter_eq term before).2

@[simp] theorem display_var (v : Var) : (Term.var v).display = v.display := by
  simp [display, displayAfter]

@[simp] theorem display_atom (a : Atom) : (Term.atom a).display = a.display := by
  simp [display, displayAfter]

/-- A pair is shown as a list: its head, then what follows. -/
@[simp] theorem display_pair (head tail : Term) :
    (Term.pair head tail).display = "(" ++ head.display ++ tail.displayTail := by
  rw [display, displayAfter, displayTailAfter_eq, displayAfter_eq, String.empty_append]

@[simp] theorem displayTail_nil : Term.nil.displayTail = ")" := by
  simp [displayTail, displayTailAfter]

@[simp] theorem displayTail_var (v : Var) :
    (Term.var v).displayTail = " . " ++ v.display ++ ")" := by
  simp [displayTail, displayTailAfter]

/-- A dot stands before a last tail other than the empty marker. -/
theorem displayTail_atom {a : Atom} (notNil : a ≠ .nil) :
    (Term.atom a).displayTail = " . " ++ a.display ++ ")" := by
  cases a <;> simp_all [displayTail, displayTailAfter]

@[simp] theorem displayTail_pair (head tail : Term) :
    (Term.pair head tail).displayTail = " " ++ head.display ++ tail.displayTail := by
  rw [displayTail, displayTailAfter, displayTailAfter_eq, displayAfter_eq,
    String.empty_append]

end Term

end Horn
