import Mathlib.Data.Set.Function
import Horn.Proofs.PlainNames

/-!
# What display keeps

A term or a clause is known from how it is shown, as long as its names are plain: no symbol looks
like anything else, and no name has a character that separates the parts of a text
(`display_is_unambiguous`). Texts between quotes may hold any characters.

What is shown for a term ends by itself, with a parenthesis or a quote, or where the word that it
is ends. So a term is known from a text that goes on behind it (`Term.KnownAlone`), and as the tail
of a list where it closes the list, goes on with it or stands behind a dot (`Term.KnownLast`). Both
hold of every plain term (`Term.Plain.known`), and the goals of a body are told apart by the first.
-/

namespace Horn

open Text (Ends ends_nil ends_cons quote_append_inj)

namespace Term

variable {term : Term} {rest restOther : List Char}

/-! ## Lists -/

theorem display_nil_append (rest : List Char) :
    nil.display.toList ++ rest = '(' :: ')' :: rest := by
  rw [display_atom]
  rfl

theorem display_pair_append (head tail : Term) (rest : List Char) :
    (pair head tail).display.toList ++ rest =
      '(' :: (head.display.toList ++ (tail.displayTail.toList ++ rest)) := by
  have opening : "(".toList = ['('] := rfl
  simp [opening]

/-- What stands behind an item of a list, with what follows the list. -/
inductive Follows (rest : List Char) : Term → List Char → Prop where
  | close : Follows rest nil (')' :: rest)
  | next {head tail : Term} : Follows rest (.pair head tail)
      (' ' :: (head.display.toList ++ (tail.displayTail.toList ++ rest)))
  | dot {last : Term} : last ≠ nil → last.kind ≠ .pair →
      Follows rest last (' ' :: '.' :: ' ' :: (last.display.toList ++ ')' :: rest))

theorem follows_displayTail (term : Term) (rest : List Char) :
    Follows rest term (term.displayTail.toList ++ rest) := by
  have dot : " . ".toList = [' ', '.', ' '] := rfl
  have close : ")".toList = [')'] := rfl
  have space : " ".toList = [' '] := rfl
  cases term with
  | var v =>
      have follows : Follows rest (.var v) _ := .dot nofun nofun
      simpa [dot, close] using follows
  | atom a =>
      by_cases last : a = .nil
      · subst last
        exact .close
      · have follows : Follows rest (.atom a) _ := .dot (by simpa using last) nofun
        simpa [displayTail_atom last, dot, close] using follows
  | pair head tail =>
      have follows : Follows rest (.pair head tail) _ := .next
      simpa [space] using follows

theorem ends_displayTail (term : Term) (rest : List Char) :
    Ends Text.inWord (term.displayTail.toList ++ rest) := by
  have follows := follows_displayTail term rest
  generalize term.displayTail.toList ++ rest = text at follows ⊢
  cases follows with
  | close => exact ends_cons rfl
  | next => exact ends_cons rfl
  | dot => exact ends_cons rfl

theorem eq_text_of_start (quote : term.start = .quote) : ∃ content, term = .text content := by
  cases term with
  | var v => cases quote
  | atom a =>
      cases a with
      | text content => exact ⟨content, rfl⟩
      | _ => cases quote
  | pair head tail => cases quote

theorem eq_list_of_start (opening : term.start = .opening) :
    term = nil ∨ ∃ head tail, term = .pair head tail := by
  cases term with
  | var v => cases opening
  | atom a =>
      cases a with
      | nil => exact .inl rfl
      | _ => cases opening
  | pair head tail => exact .inr ⟨head, tail, rfl⟩

/-! ## Terms -/

/-- The term is known from what is shown for it, among all plain terms and whatever stands behind
what is shown, as long as that does not go on with a word. -/
def KnownAlone (term : Term) : Prop :=
  ∀ ⦃other rest restOther⦄, other.Plain → Ends Text.inWord rest → Ends Text.inWord restOther →
    term.display.toList ++ rest = other.display.toList ++ restOther →
    term = other ∧ rest = restOther

/-- The term is known from what is shown for it as the tail of a list. -/
def KnownLast (term : Term) : Prop :=
  ∀ ⦃other rest restOther⦄, other.Plain →
    term.displayTail.toList ++ rest = other.displayTail.toList ++ restOther →
    term = other ∧ rest = restOther

theorem Plain.knownAlone_atom {a : Atom} (plain : (Term.atom a).Plain) :
    (Term.atom a).KnownAlone := by
  intro other rest restOther otherPlain ends endsOther same
  have starts := plain.start_eq otherPlain same
  cases a with
  | nil =>
      rcases eq_list_of_start starts.symm with rfl | ⟨head, tail, rfl⟩
      · exact ⟨rfl, List.append_cancel_left same⟩
      · rw [display_nil_append, display_pair_append] at same
        have inside := (List.cons.inj same).2.symm
        exact absurd inside otherPlain.1.display_append_ne_close
  | symbol name => exact plain.eq_of_word otherPlain rfl ends endsOther same
  | integer value => exact plain.eq_of_word otherPlain rfl ends endsOther same
  | text content =>
      obtain ⟨contentOther, rfl⟩ := eq_text_of_start starts.symm
      rw [display_atom, display_atom] at same
      obtain ⟨rfl, rests⟩ := quote_append_inj same
      exact ⟨rfl, rests⟩

/-- A last tail is known behind its dot. -/
theorem KnownAlone.knownLast (known : term.KnownAlone) (leaf : term.kind ≠ .pair) :
    term.KnownLast := by
  intro other rest restOther otherPlain same
  have follows := follows_displayTail term rest
  have followsOther := follows_displayTail other restOther
  generalize term.displayTail.toList ++ rest = text at follows same
  generalize other.displayTail.toList ++ restOther = textOther at followsOther same
  cases follows with
  | close =>
      cases followsOther with
      | close => exact ⟨rfl, (List.cons.inj same).2⟩
      | next => cases (List.cons.inj same).1
      | dot => cases (List.cons.inj same).1
  | next => exact absurd rfl leaf
  | dot =>
      cases followsOther with
      | close => cases (List.cons.inj same).1
      | @next head tail =>
          have shown := (List.cons.inj same).2.symm
          exact absurd shown (otherPlain.1.display_append_ne_dot (ends_displayTail tail _))
      | dot =>
          simp only [List.cons.injEq, true_and] at same
          obtain ⟨rfl, closed⟩ := known otherPlain (ends_cons rfl) (ends_cons rfl) same
          exact ⟨rfl, (List.cons.inj closed).2⟩

/-- A head is known before the tail, and the tail behind the head. -/
theorem KnownAlone.pair {head tail headOther tailOther : Term} (headKnown : head.KnownAlone)
    (tailKnown : tail.KnownLast) (plain : (Term.pair headOther tailOther).Plain)
    (same : head.display.toList ++ (tail.displayTail.toList ++ rest) =
      headOther.display.toList ++ (tailOther.displayTail.toList ++ restOther)) :
    Term.pair head tail = .pair headOther tailOther ∧ rest = restOther := by
  obtain ⟨rfl, tails⟩ := headKnown plain.1 (ends_displayTail tail rest)
    (ends_displayTail tailOther restOther) same
  obtain ⟨rfl, rests⟩ := tailKnown plain.2 tails
  exact ⟨rfl, rests⟩

theorem Plain.knownAlone_pair {head tail : Term} (plain : (Term.pair head tail).Plain)
    (headKnown : head.KnownAlone) (tailKnown : tail.KnownLast) :
    (Term.pair head tail).KnownAlone := by
  intro other rest restOther otherPlain _ _ same
  rcases eq_list_of_start (plain.start_eq otherPlain same).symm with rfl | ⟨_, _, rfl⟩
  · rw [display_nil_append, display_pair_append] at same
    exact absurd (List.cons.inj same).2 plain.1.display_append_ne_close
  · rw [display_pair_append, display_pair_append] at same
    exact headKnown.pair tailKnown otherPlain (List.cons.inj same).2

theorem Plain.knownLast_pair {head tail : Term} (plain : (Term.pair head tail).Plain)
    (headKnown : head.KnownAlone) (tailKnown : tail.KnownLast) :
    (Term.pair head tail).KnownLast := by
  intro other rest restOther otherPlain same
  have follows := follows_displayTail (.pair head tail) rest
  have followsOther := follows_displayTail other restOther
  generalize (Term.pair head tail).displayTail.toList ++ rest = text at follows same
  generalize other.displayTail.toList ++ restOther = textOther at followsOther same
  cases follows with
  | next =>
      cases followsOther with
      | close => cases (List.cons.inj same).1
      | next => exact headKnown.pair tailKnown otherPlain (List.cons.inj same).2
      | dot =>
          have shown := (List.cons.inj same).2
          exact absurd shown (plain.1.display_append_ne_dot (ends_displayTail tail _))
  | dot _ leaf => exact absurd rfl leaf

/-- A plain term is known from what is shown for it, alone and as the tail of a list. -/
theorem Plain.known (plain : term.Plain) : term.KnownAlone ∧ term.KnownLast := by
  induction term with
  | var v =>
      have alone : (Term.var v).KnownAlone := fun _ _ _ otherPlain =>
        plain.eq_of_word otherPlain rfl
      exact ⟨alone, alone.knownLast (by simp [kind])⟩
  | atom a =>
      have alone := plain.knownAlone_atom
      exact ⟨alone, alone.knownLast (by simp [kind])⟩
  | pair head tail headIH tailIH =>
      have headKnown := (headIH plain.1).1
      have tailKnown := (tailIH plain.2).2
      exact ⟨plain.knownAlone_pair headKnown tailKnown, plain.knownLast_pair headKnown tailKnown⟩

end Term

/-! ## Clauses -/

namespace Clause

/-- The goals of a body behind the first one, each behind a comma. -/
def displayMore (goals : List Term) : List Char :=
  goals.flatMap fun goal => ',' :: ' ' :: goal.display.toList

theorem ends_displayMore (goals : List Term) : Ends Text.inWord (displayMore goals) := by
  cases goals with
  | nil => exact ends_nil
  | cons goal rest => exact ends_cons rfl

/-- What is shown for a clause behind its head. -/
def displayBody : Clause → List Char
  | .fact _ => []
  | .rule _ [] => [' ', ':', '-']
  | .rule _ (goal :: rest) => ' ' :: ':' :: '-' :: ' ' :: (goal.display.toList ++ displayMore rest)

theorem toList_intercalate_display (goal : Term) (rest : List Term) :
    (", ".intercalate ((goal :: rest).map Term.display)).toList =
      goal.display.toList ++ displayMore rest := by
  have comma : ", ".toList = [',', ' '] := rfl
  induction rest generalizing goal with
  | nil => simp [displayMore]
  | cons second rest ih =>
      rw [List.map_cons, List.map_cons, String.intercalate_cons_cons, ← List.map_cons,
        String.toList_append, String.toList_append, ih, comma]
      simp [displayMore]

theorem toList_display (clause : Clause) :
    clause.display.toList = clause.head.display.toList ++ clause.displayBody := by
  have arrow : " :-".toList = [' ', ':', '-'] := rfl
  have arrowSpace : " :- ".toList = [' ', ':', '-', ' '] := rfl
  match clause with
  | .fact head => simp [display, displayBody]
  | .rule head [] => simp [display, displayBody, arrow]
  | .rule head (goal :: rest) =>
      rw [display, String.toList_append, String.toList_append, toList_intercalate_display,
        arrowSpace]
      · simp [displayBody]
      · nofun

theorem ends_displayBody (clause : Clause) : Ends Text.inWord clause.displayBody := by
  match clause with
  | .fact head => exact ends_nil
  | .rule head [] => exact ends_cons rfl
  | .rule head (goal :: rest) => exact ends_cons rfl

theorem eq_of_displayMore_eq {goals others : List Term} (plain : ∀ goal ∈ goals, goal.Plain)
    (plainOthers : ∀ goal ∈ others, goal.Plain) (same : displayMore goals = displayMore others) :
    goals = others := by
  induction goals generalizing others with
  | nil =>
      cases others with
      | nil => rfl
      | cons other others => cases same
  | cons goal goals ih =>
      rw [List.forall_mem_cons] at plain
      cases others with
      | nil => cases same
      | cons other others =>
          rw [List.forall_mem_cons] at plainOthers
          have shown : goal.display.toList ++ displayMore goals =
              other.display.toList ++ displayMore others := by simpa [displayMore] using same
          obtain ⟨rfl, more⟩ := plain.1.known.1 plainOthers.1 (ends_displayMore goals)
            (ends_displayMore others) shown
          rw [ih plain.2 plainOthers.2 more]

theorem eq_of_displayBody_eq {clause other : Clause} (plain : clause.Plain)
    (plainOther : other.Plain) (heads : clause.head = other.head)
    (same : clause.displayBody = other.displayBody) :
    clause = other := by
  match clause, other with
  | .fact _, .fact _ => exact congrArg fact heads
  | .fact _, .rule _ [] => cases same
  | .fact _, .rule _ (_ :: _) => cases same
  | .rule _ [], .fact _ => cases same
  | .rule _ [], .rule _ [] => exact congrArg (rule · []) heads
  | .rule _ [], .rule _ (_ :: _) => cases same
  | .rule _ (_ :: _), .fact _ => cases same
  | .rule _ (_ :: _), .rule _ [] => cases same
  | .rule head (goal :: goals), .rule headOther (other :: others) =>
      have bodies := eq_of_displayMore_eq plain.body plainOther.body (by
        simpa [displayBody, displayMore] using same)
      exact congrArg₂ rule heads bodies

end Clause

/-- Plain terms that are shown alike are the same, and so are plain clauses, of whatever form and
with whatever texts in them. -/
theorem display_is_unambiguous :
    Set.InjOn Term.display {term | term.Plain} ∧
      Set.InjOn Clause.display {clause | clause.Plain} := by
  constructor
  · intro left leftPlain right rightPlain same
    have texts := congrArg (fun text => text.toList ++ []) same
    exact (leftPlain.known.1 rightPlain ends_nil ends_nil texts).1
  · intro left leftPlain right rightPlain same
    have texts := congrArg String.toList same
    rw [Clause.toList_display, Clause.toList_display] at texts
    obtain ⟨heads, bodies⟩ := leftPlain.head.known.1 rightPlain.head left.ends_displayBody
      right.ends_displayBody texts
    exact Clause.eq_of_displayBody_eq leftPlain rightPlain heads bodies

/-- A text that looks like two goals is told from these two, and one that looks like the end of a
dotted list is told from it. -/
theorem display_is_unambiguous_texts :
    let x : Var := ⟨0, "x"⟩
    let p := Term.symbol "p"
    let a := Term.symbol "a"
    let b := Term.symbol "b"
    let quoted := Term.list [p, .var x, .text "a . b"]
    let dotted := Term.chain [p, .var x, a] b
    let one := Clause.rule quoted [.text "a, b"]
    let two := Clause.rule quoted [a, b]
    (quoted.Plain ∧ dotted.Plain ∧ one.Plain ∧ two.Plain) ∧
      quoted.display ≠ dotted.display ∧ one.display ≠ two.display ∧
      one.display = "(p ?x#0 \"a . b\") :- \"a, b\"" ∧
      two.display = "(p ?x#0 \"a . b\") :- a, b" := by
  intro x p a b quoted dotted one two
  have pPlain : p.Plain := Atom.plainSymbol_of_first 'p' [] rfl (by decide)
    (List.all_eq_true.mp rfl)
  have aPlain : a.Plain := Atom.plainSymbol_of_first 'a' [] rfl (by decide)
    (List.all_eq_true.mp rfl)
  have bPlain : b.Plain := Atom.plainSymbol_of_first 'b' [] rfl (by decide)
    (List.all_eq_true.mp rfl)
  have xWord : "x".toList.all Text.inWord = true := by decide
  have xPlain : (Term.var x).Plain := List.all_eq_true.mp xWord
  have quotedPlain : quoted.Plain := ⟨pPlain, xPlain, trivial, trivial⟩
  have dottedPlain : dotted.Plain := ⟨pPlain, xPlain, aPlain, bPlain⟩
  have onePlain : one.Plain := ⟨quotedPlain, by simp [one, Term.Plain, Atom.Plain]⟩
  have twoPlain : two.Plain := ⟨quotedPlain, by simpa [two] using ⟨aPlain, bPlain⟩⟩
  refine ⟨⟨quotedPlain, dottedPlain, onePlain, twoPlain⟩, ?_, ?_, by decide, by decide⟩
  · intro same
    have equal : quoted = dotted := display_is_unambiguous.1 quotedPlain dottedPlain same
    revert equal
    decide
  · intro same
    have equal : one = two := display_is_unambiguous.2 onePlain twoPlain same
    revert equal
    decide

-- A symbol with a space in it is not plain, and looks like two.
example : (Term.list [.symbol "a b"]).display = (Term.list [.symbol "a", .symbol "b"]).display := by
  decide

end Horn
