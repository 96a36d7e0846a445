import Horn.Clause
import Horn.Proofs.Quotes

/-!
# Plain names

A symbol is plain if it is a word that looks like nothing else, and the name of a variable is if it
is a word. What is shown for a plain term starts as the term does, and a symbol, a variable or an
integer is known from what is shown for it where the word ends (`Term.Plain.eq_of_word`).
-/

namespace Horn

open Text (Ends ends_cons append_inj_of_ends)

/-! ## Plain names -/

/-- The characters that separate the parts of a text. Of all white space only the space does. -/
def Text.isSeparator (c : Char) : Bool :=
  [' ', '(', ')', '"', ','].contains c

/-- Whether a character may be part of a word. -/
def Text.inWord (c : Char) : Bool :=
  !isSeparator c

/-- A symbol that looks like nothing else: it is a word, and neither the dot before a last tail nor
a variable nor an integer. -/
structure Atom.PlainSymbol (name : String) : Prop where
  nonempty : name ≠ ""
  word : ∀ c ∈ name.toList, Text.inWord c = true
  noDot : name ≠ "."
  noVar : name.toList.head? ≠ some '?'
  noInteger : ∀ value : Int, name ≠ toString value

/-- Only a symbol has to be plain; other atoms are. -/
def Atom.Plain : Atom → Prop
  | .symbol name => PlainSymbol name
  | _ => True

/-- A term whose symbols are plain and whose variables have words for names. -/
def Term.Plain : Term → Prop
  | .var v => ∀ c ∈ v.name.toList, Text.inWord c = true
  | .atom a => a.Plain
  | .pair head tail => head.Plain ∧ tail.Plain

/-- A clause of plain terms. -/
structure Clause.Plain (clause : Clause) : Prop where
  head : clause.head.Plain
  body : ∀ goal ∈ clause.body, goal.Plain

/-! ## How texts start -/

/-- What a text starts with. -/
inductive Text.Start where
  | word
  | quote
  | opening
  | other
  deriving DecidableEq

/-- What a text starts with if this is its first character. -/
def Text.start (first : Char) : Start :=
  if first = '"' then .quote
  else if first = '(' then .opening
  else if inWord first then .word
  else .other

theorem Text.start_eq_word {c : Char} (word : inWord c = true) : start c = .word := by
  have noQuote : c ≠ '"' := by
    rintro rfl
    cases word
  have noOpening : c ≠ '(' := by
    rintro rfl
    cases word
  rw [start, if_neg noQuote, if_neg noOpening, if_pos word]

/-- What is shown for a term starts with this. -/
def Term.start : Term → Text.Start
  | .var _ => .word
  | .atom .nil => .opening
  | .atom (.symbol _) => .word
  | .atom (.integer _) => .word
  | .atom (.text _) => .quote
  | .pair _ _ => .opening

theorem Term.start_ne_other (term : Term) : term.start ≠ .other := by
  cases term with
  | var v => nofun
  | atom a => cases a <;> nofun
  | pair head tail => nofun

/-! ## Words -/

theorem Var.toList_display (v : Var) :
    v.display.toList = '?' :: (v.name.toList ++ '#' :: Nat.toDigits 10 v.id) := by
  have mark : "?".toList = ['?'] := rfl
  have sign : "#".toList = ['#'] := rfl
  simp [display, mark, sign]

/-- A variable is known from what is shown, whatever its name is: the last number sign is the one
before its identity. -/
theorem Var.display_injective : Function.Injective display := by
  intro v w same
  have texts := congrArg (fun text => text.toList.tail.reverse) same
  simp only [toList_display, List.tail_cons, List.reverse_append, List.reverse_cons,
    List.append_assoc, List.singleton_append] at texts
  have digits : ∀ n : Nat, ∀ c ∈ (Nat.toDigits 10 n).reverse, c.isDigit = true := by
    intro n c member
    exact Json.isDigit_of_mem_toDigits (List.mem_reverse.mp member)
  obtain ⟨ids, names⟩ := append_inj_of_ends (digits v.id) (digits w.id) (ends_cons rfl)
    (ends_cons rfl) texts
  have idsEqual := congrArg (Nat.ofDigitChars 10 · 0) (List.reverse_inj.mp ids)
  simp only [Nat.ofDigitChars_ten_toDigits] at idsEqual
  have namesEqual := String.toList_inj.mp (List.reverse_inj.mp (List.cons.inj names).2)
  cases v
  cases w
  cases idsEqual
  cases namesEqual
  rfl

theorem Text.inWord_of_isDigit {c : Char} (digit : c.isDigit = true) : inWord c = true := by
  have apart : ∀ separator ∈ [' ', '(', ')', '"', ','], (!separator.isDigit) = true :=
    List.all_eq_true.mp rfl
  cases separates : isSeparator c with
  | false => simp [inWord, separates]
  | true =>
      have noDigit := apart c (List.contains_iff_mem.mp separates)
      rw [digit] at noDigit
      cases noDigit

/-- Different integers are written differently. -/
theorem Text.toString_injective : Function.Injective (toString : Int → String) := by
  intro value other same
  have read := Json.readInteger_toString value Text.ends_nil
  rw [same, Json.readInteger_toString other Text.ends_nil] at read
  cases read
  rfl

/-- An integer starts with a digit or a sign. -/
theorem Text.head?_toString_ne (first : Char) (noDigit : first.isDigit = false)
    (noSign : first ≠ '-') (value : Int) : (toString value).toList.head? ≠ some first := by
  obtain ⟨c, rest, shown, numeric⟩ := Json.exists_toList_toString_eq_cons value
  rw [shown]
  rintro ⟨⟩
  rcases numeric with digit | sign
  · rw [noDigit] at digit
    cases digit
  · exact noSign sign

theorem Text.inWord_of_mem_toString {value : Int} {c : Char}
    (member : c ∈ (toString value).toList) : inWord c = true := by
  cases value with
  | ofNat n =>
      rw [Json.toList_toString_ofNat] at member
      exact inWord_of_isDigit (Json.isDigit_of_mem_toDigits member)
  | negSucc n =>
      rw [Json.toList_toString_negSucc] at member
      rcases List.mem_cons.mp member with rfl | digit
      · rfl
      · exact inWord_of_isDigit (Json.isDigit_of_mem_toDigits digit)

/-- A word is plain as a symbol if it does not start like a number, a dot or a variable. -/
theorem Atom.plainSymbol_of_first (first : Char) (rest : List Char)
    (noDigit : first.isDigit = false) (apart : first ∉ ['-', '.', '?'])
    (inside : ∀ c ∈ first :: rest, Text.inWord c = true) :
    PlainSymbol (String.ofList (first :: rest)) := by
  simp only [List.mem_cons, List.not_mem_nil, or_false, not_or] at apart
  obtain ⟨noSign, noDot, noMark⟩ := apart
  refine ⟨?_, ?_, ?_, ?_, ?_⟩
  · intro empty
    simpa using congrArg String.toList empty
  · simpa using inside
  · intro dot
    have single : first :: rest = ['.'] := by simpa using congrArg String.toList dot
    exact noDot (List.cons.inj single).1
  · simpa using noMark
  · intro value same
    apply Text.head?_toString_ne first noDigit noSign value
    rw [← same]
    simp

namespace Term

variable {term left right : Term} {rest restOther : List Char}

/-- What is shown for a word has no separator in it. -/
theorem Plain.inWord_of_mem_display (plain : term.Plain) (word : term.start = .word) {c : Char}
    (member : c ∈ term.display.toList) : Text.inWord c = true := by
  cases term with
  | var v =>
      rw [display_var, Var.toList_display] at member
      rcases List.mem_cons.mp member with rfl | member
      · rfl
      rcases List.mem_append.mp member with inName | member
      · exact plain c inName
      rcases List.mem_cons.mp member with rfl | digit
      · rfl
      · exact Text.inWord_of_isDigit (Json.isDigit_of_mem_toDigits digit)
  | atom a =>
      rw [display_atom] at member
      cases a with
      | nil => cases word
      | symbol name => exact Atom.PlainSymbol.word plain c member
      | integer value => exact Text.inWord_of_mem_toString member
      | text content => cases word
  | pair head tail => cases word

/-- What is shown for a plain term is not empty, and starts as the term does. -/
theorem Plain.exists_display_eq_cons (plain : term.Plain) :
    ∃ first shown, term.display.toList = first :: shown ∧ Text.start first = term.start := by
  have opens : "(".toList = ['('] := rfl
  cases term with
  | var v => exact ⟨_, _, by rw [display_var, Var.toList_display], rfl⟩
  | atom a =>
      cases a with
      | nil => exact ⟨'(', [')'], by rw [display_atom]; rfl, rfl⟩
      | symbol name =>
          have nonempty := Atom.PlainSymbol.nonempty plain
          rw [display_atom, Atom.display]
          cases shown : name.toList with
          | nil => exact absurd (String.toList_eq_nil_iff.mp shown) nonempty
          | cons first rest =>
              have inside := Atom.PlainSymbol.word plain first (by simp [shown])
              exact ⟨first, rest, rfl, Text.start_eq_word inside⟩
      | integer value =>
          obtain ⟨first, rest, shown, _⟩ := Json.exists_toList_toString_eq_cons value
          have member : first ∈ (toString value).toList := by
            rw [shown]
            exact List.mem_cons_self
          exact ⟨first, rest, by rw [display_atom, Atom.display, shown],
            Text.start_eq_word (Text.inWord_of_mem_toString member)⟩
      | text content => exact ⟨_, _, by rw [display_atom, Atom.display, Text.toList_quote], rfl⟩
  | pair head tail =>
      exact ⟨'(', _, by rw [display_pair, String.toList_append, String.toList_append, opens]; rfl,
        rfl⟩

theorem Plain.start_eq (leftPlain : left.Plain) (rightPlain : right.Plain)
    (same : left.display.toList ++ rest = right.display.toList ++ restOther) :
    left.start = right.start := by
  obtain ⟨first, shown, starts, kind⟩ := leftPlain.exists_display_eq_cons
  obtain ⟨firstToo, shownToo, startsToo, kindToo⟩ := rightPlain.exists_display_eq_cons
  rw [starts, startsToo] at same
  rw [← kind, ← kindToo, (List.cons.inj same).1]

/-- What is shown for a term does not start with a closing parenthesis. -/
theorem Plain.display_append_ne_close (plain : term.Plain) :
    term.display.toList ++ rest ≠ ')' :: restOther := by
  obtain ⟨first, shown, starts, kind⟩ := plain.exists_display_eq_cons
  rw [starts]
  intro same
  rw [(List.cons.inj same).1] at kind
  exact term.start_ne_other kind.symm

/-- Only a variable starts with a question mark. -/
theorem Plain.head?_display_eq_iff (plain : term.Plain) :
    term.display.toList.head? = some '?' ↔ ∃ v, term = .var v := by
  cases term with
  | var v => simp [Var.toList_display]
  | atom a =>
      cases a with
      | nil => simp [Atom.display]
      | symbol name => simpa [Atom.display] using Atom.PlainSymbol.noVar plain
      | integer value =>
          have noMark := Text.head?_toString_ne '?' rfl (by decide) value
          simpa [Atom.display] using noMark
      | text content => simp [Atom.display, Text.toList_quote]
  | pair head tail => simp

theorem Plain.eq_of_display_eq (leftPlain : left.Plain) (rightPlain : right.Plain)
    (leftWord : left.start = .word) (rightWord : right.start = .word)
    (same : left.display = right.display) : left = right := by
  have marks := leftPlain.head?_display_eq_iff
  rw [same, rightPlain.head?_display_eq_iff] at marks
  cases left with
  | var v =>
      obtain ⟨w, rfl⟩ := marks.mpr ⟨v, rfl⟩
      rw [display_var, display_var] at same
      rw [Var.display_injective same]
  | atom a =>
      cases right with
      | var w => exact absurd (marks.mp ⟨w, rfl⟩) (by simp)
      | atom b =>
          rw [display_atom, display_atom] at same
          cases a <;> cases b <;> try contradiction
          case symbol.symbol name other => rw [show name = other from same]
          case symbol.integer name value =>
            exact absurd same (Atom.PlainSymbol.noInteger leftPlain value)
          case integer.symbol value name =>
            exact absurd same.symm (Atom.PlainSymbol.noInteger rightPlain value)
          case integer.integer value other => rw [Text.toString_injective same]
      | pair head tail => cases rightWord
  | pair head tail => cases leftWord

/-- A word is known from a text that goes on with a separator behind it. -/
theorem Plain.eq_of_word (leftPlain : left.Plain) (rightPlain : right.Plain)
    (word : left.start = .word) (ends : Ends Text.inWord rest)
    (endsOther : Ends Text.inWord restOther)
    (same : left.display.toList ++ rest = right.display.toList ++ restOther) :
    left = right ∧ rest = restOther := by
  have wordToo := (leftPlain.start_eq rightPlain same).symm.trans word
  obtain ⟨shown, rests⟩ := append_inj_of_ends (fun c => leftPlain.inWord_of_mem_display word)
    (fun c => rightPlain.inWord_of_mem_display wordToo) ends endsOther same
  exact ⟨leftPlain.eq_of_display_eq rightPlain word wordToo (String.toList_inj.mp shown), rests⟩

/-- No term is shown as a dot. -/
theorem Plain.display_append_ne_dot (plain : term.Plain) (ends : Ends Text.inWord rest) :
    term.display.toList ++ rest ≠ '.' :: ' ' :: restOther := by
  intro same
  obtain ⟨first, shown, starts, kind⟩ := plain.exists_display_eq_cons
  have word : term.start = .word := by
    rw [starts] at same
    rw [← kind, (List.cons.inj same).1]
    rfl
  have dot : ∀ c ∈ ['.'], Text.inWord c = true := List.all_eq_true.mp rfl
  obtain ⟨single, _⟩ := append_inj_of_ends (fun c => plain.inWord_of_mem_display word) dot ends
    (ends_cons (rfl : Text.inWord ' ' = false)) same
  have shownDot : term.display = "." := String.toList_inj.mp single
  cases term with
  | var v => simp [Var.toList_display] at single
  | atom a =>
      cases a with
      | nil => cases word
      | symbol name =>
          rw [display_atom] at shownDot
          exact Atom.PlainSymbol.noDot plain shownDot
      | integer value =>
          apply Text.head?_toString_ne '.' rfl (by decide) value
          rw [← Atom.display, ← display_atom, single]
          rfl
      | text content => cases word
  | pair head tail => cases word

end Term

end Horn
