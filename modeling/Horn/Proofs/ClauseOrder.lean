import Horn.Proofs.Finishing

/-!
# The order of clauses

Clauses are tried from the newest to the oldest, and so the order in which they were declared
decides in which order answers come and which identities copies have. It decides neither
whether a search comes to its end, nor how many attempts it takes until then, nor what the
answers are (`answers_independent_of_clause_order`).

The trees that the two searches explore have the same branches in different orders. A branch
can be put anywhere among its neighbours (`Branch.Explored.insert`), as it is explored with
copies of its own.
-/

namespace Horn

namespace Branch

variable {clauses reordered before behind : List Clause} {branch other : Branch}
variable {goal : Term} {rest : List Term} {subst : Subst} {clause : Clause}
variable {copies first : List Copy} {answers found : List Subst}

/-- An attempt can be made at any time. -/
theorem Explored.insert
    (attempt : (Branch.attempt goal rest subst clause).Explored clauses first found)
    (explored : (Branch.resolve goal rest subst (before ++ behind)).Explored clauses copies
      answers) :
    ∃ made given, (Branch.resolve goal rest subst (before ++ clause :: behind)).Explored clauses
      made given ∧ made.Perm (first ++ copies) ∧ given.Perm (found ++ answers) := by
  induction before generalizing copies answers with
  | nil => exact ⟨_, _, .next attempt explored, .refl _, .refl _⟩
  | cons newer before ih =>
      cases explored with
      | @next _ _ _ _ _ earlier _ earlierFound _ earlierAttempt others =>
      obtain ⟨made, given, inserted, sameCopies, sameAnswers⟩ := ih others
      exact ⟨_, _, .next earlierAttempt inserted,
        (sameCopies.append_left earlier).trans (List.perm_append_comm_assoc _ _ _),
        (sameAnswers.append_left earlierFound).trans (List.perm_append_comm_assoc _ _ _)⟩

/-- With the clauses in another order a branch is explored with the same copies and the same
answers in another order. -/
theorem Explored.reorder (explored : branch.Explored clauses copies answers)
    (order : clauses.Perm reordered) (alike : branch.With List.Perm other) :
    ∃ made given, other.Explored reordered made given ∧ made.Perm copies ∧
      given.Perm answers := by
  induction explored generalizing other with
  | answer =>
      cases alike
      exact ⟨_, _, .answer, .refl _, .refl _⟩
  | select _ ih =>
      cases alike
      obtain ⟨made, given, explored, sameCopies, sameAnswers⟩ := ih (.resolve order)
      exact ⟨made, given, .select explored, sameCopies, sameAnswers⟩
  | done =>
      cases alike with
      | resolve same =>
      cases same.nil_eq
      exact ⟨_, _, .done, .refl _, .refl _⟩
  | @next _ _ _ clause _ _ _ _ _ _ _ attemptIH othersIH =>
      cases alike with
      | resolve same =>
      obtain ⟨before, behind, rfl⟩ := List.append_of_mem (same.subset List.mem_cons_self)
      have sameOthers := (same.trans List.perm_middle).cons_inv
      obtain ⟨first, found, attempt, sameFirst, sameFound⟩ := attemptIH .attempt
      obtain ⟨made, given, others, sameCopies, sameAnswers⟩ := othersIH (.resolve sameOthers)
      obtain ⟨allMade, allGiven, inserted, copied, answered⟩ := attempt.insert others
      exact ⟨allMade, allGiven, inserted, copied.trans (sameFirst.append sameCopies),
        answered.trans (sameFound.append sameAnswers)⟩
  | enter unifies _ ih =>
      cases alike
      obtain ⟨made, given, explored, sameCopies, sameAnswers⟩ := ih .prove
      exact ⟨_, given, .enter unifies explored, sameCopies.cons _, sameAnswers⟩
  | skip fails =>
      cases alike
      exact ⟨_, _, .skip fails, .refl _, .refl _⟩

end Branch

/-- The order of copies does not matter to what they cost. -/
theorem Session.Spends.of_perm {session after : Session} {copies made : List Copy}
    (spends : session.Spends made after) (same : made.Perm copies) :
    session.Spends copies after where
  nextVar := by
    have minted : (Copy.minted made).Perm (Copy.minted copies) := same.flatMap_right _
    rw [spends.nextVar, minted.length_eq]
  trials := by rw [spends.trials, same.length_eq]

namespace Search

variable {database reordered : Database} {goals : List Term} {start : Subst}
variable {one two after : Session} {answers : List Subst}

/-- Where a search comes to its end, so does one over the reordered clauses, at the same cost
and with the same answers, renamed and in another order. -/
theorem Finishes.reorder (finishes : Finishes (all database goals start) one answers after)
    (order : database.declared.Perm reordered.declared)
    (inOne : ∀ id ∈ scope goals start, one.Has id)
    (inTwo : ∀ id ∈ scope goals start, two.Has id) :
    ∃ (rename : Equiv.Perm Nat) (copies : List Copy) (others : List Subst) (last : Session),
      (∀ id ∈ scope goals start, rename id = id) ∧
      one.Spends copies after ∧ two.Spends copies last ∧
      Finishes (all reordered goals start) two others last ∧
      others.Perm (answers.map (Subst.map (Var.withId rename) id)) := by
  obtain ⟨copies, serial, explored, spends⟩ := finishes.exists_explored
  have newest : database.newestFirst.Perm reordered.newestFirst :=
    (List.reverse_perm _).trans (order.trans (List.reverse_perm _).symm)
  obtain ⟨made, given, exploredToo, sameCopies, sameAnswers⟩ := explored.reorder newest .prove
  obtain ⟨rename, last, fixed, finishesToo, spendsToo⟩ :=
    exploredToo.exists_finishes serial sameCopies.subperm inOne inTwo
  exact ⟨rename, copies, _, last, fixed, spends, spendsToo.of_perm sameCopies,
    finishesToo, sameAnswers.map _⟩

/-- The order of clauses does not decide what a search comes to. Let a search be run over a
database and over one with the same clauses in another order, from sessions that have handed
out the variables of its goals and its substitution. Then it comes to its end over one
database if and only if it does over the other. If so, it makes as many attempts and mints as
many variables over either, and its answers are the same, each as often, up to one injective
renaming of variables that fixes those given to the search and keeps names. -/
theorem answers_independent_of_clause_order
    (order : database.declared.Perm reordered.declared)
    (inOne : ∀ id ∈ scope goals start, one.Has id)
    (inTwo : ∀ id ∈ scope goals start, two.Has id) :
    let first := all database goals start
    let second := all reordered goals start
    ((∃ answers after, Finishes first one answers after) ↔
      ∃ others last, Finishes second two others last) ∧
    ∀ answers after others last, Finishes first one answers after →
      Finishes second two others last →
      (∃ attempts, after.trials.length = one.trials.length + attempts ∧
        last.trials.length = two.trials.length + attempts) ∧
      (∃ minted, after.nextVar = one.nextVar + minted ∧ last.nextVar = two.nextVar + minted) ∧
      ∃ rename : Nat → Nat, rename.Injective ∧
        (∀ id ∈ scope goals start, rename id = id) ∧
        others.Perm (answers.map (Subst.map (Var.withId rename) id)) := by
  intro first second
  refine ⟨⟨?_, ?_⟩, ?_⟩
  · rintro ⟨answers, after, finishes⟩
    obtain ⟨_, _, others, last, _, _, _, finishesToo, _⟩ := finishes.reorder order inOne inTwo
    exact ⟨others, last, finishesToo⟩
  · rintro ⟨others, last, finishes⟩
    obtain ⟨_, _, answers, after, _, _, _, finishesToo, _⟩ :=
      finishes.reorder order.symm inTwo inOne
    exact ⟨answers, after, finishesToo⟩
  · intro answers after others last finishes finishesToo
    obtain ⟨rename, copies, _, _, fixed, spends, spendsToo, again, same⟩ :=
      finishes.reorder order inOne inTwo
    obtain ⟨rfl, rfl⟩ := finishesToo.unique again
    exact ⟨⟨_, spends.trials, spendsToo.trials⟩, ⟨_, spends.nextVar, spendsToo.nextVar⟩,
      rename, rename.injective, fixed, same⟩

/-- Three facts are asked for `(p . y)`, from the first to the last and from the last to the
first. The fact `(q . z)` is tried in vain, after the variable `x` was copied or before, and
so `y` is bound to `x#2` in the first answer or to `x#3` in the last one. -/
theorem answers_independent_of_clause_order_facts :
    let y : Var := ⟨1, "y"⟩
    let p := Term.symbol "p"
    let a := Term.symbol "a"
    let general : Clause := .fact (.pair p (.var ⟨0, "x"⟩))
    let single : Clause := .fact (.pair p a)
    let other : Clause := .fact (.pair (Term.symbol "q") (.var ⟨0, "z"⟩))
    let first := all ⟨#[other, single, general]⟩ [.pair p (.var y)] .empty
    let second := all ⟨#[general, single, other]⟩ [.pair p (.var y)] .empty
    let answers := [Subst.empty.bind y (.var ⟨2, "x"⟩), Subst.empty.bind y a]
    let others := [Subst.empty.bind y a, Subst.empty.bind y (.var ⟨3, "x"⟩)]
    ∃ after last, Finishes first ⟨2, []⟩ answers after ∧ Finishes second ⟨2, []⟩ others last ∧
      after.trials.length = 3 ∧ last.trials.length = 3 ∧ after.nextVar = 4 ∧ last.nextVar = 4 ∧
      ∃ rename : Nat → Nat, rename.Injective ∧ rename y.id = y.id ∧
        others.Perm (answers.map (Subst.map (Var.withId rename) id)) := by
  intro y p a general single other first second answers others
  have order : (Database.mk #[other, single, general]).declared.Perm
      (Database.mk #[general, single, other]).declared := by decide
  have minted : ∀ id ∈ scope [Term.pair p (.var y)] .empty, (Session.mk 2 []).Has id := by
    simp [scope, p, y, Subst.ids, Subst.empty, Session.Has]
  have finishes : Finishes first ⟨2, []⟩ answers _ :=
    ⟨9, _, show collect 9 none _ _ = ⟨_, true, _, _⟩ from rfl⟩
  have finishesToo : Finishes second ⟨2, []⟩ others _ :=
    ⟨9, _, show collect 9 none _ _ = ⟨_, true, _, _⟩ from rfl⟩
  obtain ⟨_, _, rename, injective, fixed, same⟩ :=
    (answers_independent_of_clause_order order minted minted).2 _ _ _ _ finishes finishesToo
  exact ⟨_, _, finishes, finishesToo, rfl, rfl, rfl, rfl, rename, injective, fixed y.id (by decide),
    same⟩

end Search

end Horn
