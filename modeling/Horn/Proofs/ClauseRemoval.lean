import Horn.Proofs.Finishing

/-!
# Removing clauses

Take clauses out of a database, and a search that comes to its end still does. It finds some
of the answers it found before, in the same order, and no others
(`answers_monotone_in_clauses`). So a clause that is added to a database takes no answer away
from a search that still comes to its end, nor does it change one.

A tree without some clauses is what is left of the whole tree when the branches of the other
clauses are cut off, wherever they are (`Branch.Explored.remove`).
-/

namespace Horn

namespace Branch

variable {clauses less : List Clause} {branch other : Branch} {copies : List Copy}
variable {answers : List Subst}

/-- With some of the clauses a branch is explored with some of the copies and some of the
answers. -/
theorem Explored.remove (explored : branch.Explored clauses copies answers)
    (fewer : less.Sublist clauses)
    (alike : branch.With (fun left others => others.Sublist left) other) :
    ∃ made given, other.Explored less made given ∧ made.Sublist copies ∧
      given.Sublist answers := by
  induction explored generalizing other with
  | answer =>
      cases alike
      exact ⟨_, _, .answer, .refl _, .refl _⟩
  | select _ ih =>
      cases alike
      obtain ⟨made, given, explored, someCopies, someAnswers⟩ := ih (.resolve fewer)
      exact ⟨made, given, .select explored, someCopies, someAnswers⟩
  | done =>
      cases alike with
      | resolve some =>
      cases some
      exact ⟨_, _, .done, .refl _, .refl _⟩
  | next _ _ attemptIH othersIH =>
      cases alike with
      | resolve some =>
      cases some with
      | cons _ some =>
          -- the branch of the clause is cut off
          obtain ⟨made, given, explored, someCopies, someAnswers⟩ := othersIH (.resolve some)
          exact ⟨made, given, explored, someCopies.trans (List.sublist_append_right _ _),
            someAnswers.trans (List.sublist_append_right _ _)⟩
      | cons_cons _ some =>
          obtain ⟨first, found, attempt, someFirst, someFound⟩ := attemptIH .attempt
          obtain ⟨made, given, explored, someCopies, someAnswers⟩ := othersIH (.resolve some)
          exact ⟨_, _, .next attempt explored, someFirst.append someCopies,
            someFound.append someAnswers⟩
  | enter unifies _ ih =>
      cases alike
      obtain ⟨made, given, explored, someCopies, someAnswers⟩ := ih .prove
      exact ⟨_, given, .enter unifies explored, someCopies.cons_cons _, someAnswers⟩
  | skip fails =>
      cases alike
      exact ⟨_, _, .skip fails, .refl _, .refl _⟩

end Branch

namespace Search

variable {database more : Database} {goals : List Term} {start : Subst}
variable {one two after : Session} {answers : List Subst}

/-- Clauses that are added take no answers away. Let a search over a database come to its end,
and run it again over a database that lacks some of the clauses and has the others in the same
order, each time from a session that has handed out the variables of its goals and its
substitution. Then it comes to its end, too, and its answers are some of those of the first
search in the same order, up to one injective renaming of variables that fixes those given to
the search and keeps names. -/
theorem answers_monotone_in_clauses (fewer : database.declared.Sublist more.declared)
    (inOne : ∀ id ∈ scope goals start, one.Has id)
    (inTwo : ∀ id ∈ scope goals start, two.Has id)
    (finishes : Finishes (all more goals start) one answers after) :
    (∃ others last, Finishes (all database goals start) two others last) ∧
    ∀ others last, Finishes (all database goals start) two others last →
      ∃ rename : Nat → Nat, rename.Injective ∧
        (∀ id ∈ scope goals start, rename id = id) ∧
        others.Sublist (answers.map (Subst.map (Var.withId rename) id)) := by
  obtain ⟨copies, serial, explored, _⟩ := finishes.exists_explored
  have newest : database.newestFirst.Sublist more.newestFirst := fewer.reverse
  obtain ⟨made, given, exploredToo, someCopies, someAnswers⟩ := explored.remove newest .prove
  obtain ⟨rename, last, fixed, finishesToo, _⟩ :=
    exploredToo.exists_finishes serial someCopies.subperm inOne inTwo
  refine ⟨⟨_, last, finishesToo⟩, ?_⟩
  intro others _ again
  obtain ⟨rfl, _⟩ := again.unique finishesToo
  exact ⟨rename, rename.injective, fixed, someAnswers.map _⟩

/-- Of three facts that are asked for `(p . y)` two are taken away. The answer that the other
one gives is found again, and `y` is bound to `x#2` in it where it was bound to `x#3`. -/
theorem answers_monotone_in_clauses_facts :
    let y : Var := ⟨1, "y"⟩
    let p := Term.symbol "p"
    let a := Term.symbol "a"
    let general : Clause := .fact (.pair p (.var ⟨0, "x"⟩))
    let single : Clause := .fact (.pair p a)
    let other : Clause := .fact (.pair (Term.symbol "q") (.var ⟨0, "z"⟩))
    let whole := all ⟨#[general, single, other]⟩ [.pair p (.var y)] .empty
    let answers := [Subst.empty.bind y a, Subst.empty.bind y (.var ⟨3, "x"⟩)]
    let others := [Subst.empty.bind y (.var ⟨2, "x"⟩)]
    ∃ after last, Finishes whole ⟨2, []⟩ answers after ∧
      Finishes (all ⟨#[general]⟩ [.pair p (.var y)] .empty) ⟨2, []⟩ others last ∧
      ∃ rename : Nat → Nat, rename.Injective ∧ rename y.id = y.id ∧
        others.Sublist (answers.map (Subst.map (Var.withId rename) id)) := by
  intro y p a general single other whole answers others
  have fewer : (Database.mk #[general]).declared.Sublist
      (Database.mk #[general, single, other]).declared := by decide
  have minted : ∀ id ∈ scope [Term.pair p (.var y)] .empty, (Session.mk 2 []).Has id := by
    simp [scope, p, y, Subst.ids, Subst.empty, Session.Has]
  have finishes : Finishes whole ⟨2, []⟩ answers _ :=
    ⟨9, _, show collect 9 none _ _ = ⟨_, true, _, _⟩ from rfl⟩
  have finishesToo : Finishes (all ⟨#[general]⟩ [.pair p (.var y)] .empty) ⟨2, []⟩ others _ :=
    ⟨9, _, show collect 9 none _ _ = ⟨_, true, _, _⟩ from rfl⟩
  obtain ⟨rename, injective, fixed, some⟩ :=
    (answers_monotone_in_clauses fewer minted minted finishes).2 _ _ finishesToo
  exact ⟨_, _, finishes, finishesToo, rename, injective, fixed y.id (by decide), some⟩

end Search

end Horn
