import Horn.Proofs.Lockstep
import Horn.Proofs.Resolving
import Horn.Proofs.Variables

/-!
# Searches under a substitution

A search may be opened under a substitution, or with the goals that it resolves to and no
bindings. Nothing but the resolved goals matters: the two searches go in step, attempt by
attempt and call by call, and to resolve under an answer of the one is to resolve under the
substitution and then under the answer of the other (`search_sees_resolved_goals`).

`Subst.Factors` is what relates the substitutions of two frames. An attempt keeps it, since
unification asks of a substitution only what terms resolve to and the copy of a clause has no
variable that the substitution binds.
-/

namespace Horn

/-! ## Attempts -/

/-- The clause of an attempt and how the attempt ended, leaving out the goal. -/
def Event.trial? : Event → Option (Nat × Clause × Bool)
  | .attempted _ index clause unified => some (index, clause, unified)
  | _ => none

/-- The attempts that a session has recorded, newest first. -/
def Session.trials (session : Session) : List (Nat × Clause × Bool) :=
  session.log.filterMap Event.trial?

@[simp] theorem Session.trials_attempt (session : Session) (goal : Term) (index : Nat)
    (clause : Clause) (unified : Bool) :
    (session.attempt goal index clause unified).trials =
      (index, clause, unified) :: session.trials := rfl

/-- The same variables were minted and the same attempts were made, if for other goals. -/
structure Session.Alike (one two : Session) : Prop where
  nextVar : one.nextVar = two.nextVar
  trials : one.trials = two.trials

namespace Session.Alike

variable {one two : Session}

theorem refl (session : Session) : session.Alike session :=
  ⟨rfl, rfl⟩

theorem copyOf_eq (alike : one.Alike two) (clause : Clause) :
    one.copyOf clause = two.copyOf clause := by
  simp only [copyOf, alike.nextVar]

theorem attempt (alike : one.Alike two) (goal goalToo : Term) (index : Nat) (clause : Clause)
    (unified : Bool) :
    (one.attempt goal index clause unified).Alike (two.attempt goalToo index clause unified) where
  nextVar := congrArg (· + clause.vars.length) alike.nextVar
  trials := by rw [trials_attempt, trials_attempt, alike.trials]

end Session.Alike

/-! ## Frames of the two searches -/

variable {start : Subst}

/-- To resolve under the first substitution is to resolve under the start and then under the
second. -/
structure Subst.Factors (start first second : Subst) : Prop where
  acyclic : first.Acyclic
  acyclicToo : second.Acyclic
  resolve_eq : ∀ term, first.resolve term = second.resolve (start.resolve term)

theorem Subst.Acyclic.factors_empty (acyclic : start.Acyclic) : start.Factors start .empty :=
  ⟨acyclic, acyclic_empty, fun _ => rfl⟩

/-- A goal and the goal that it resolves to meet a term without bound variables alike. -/
theorem Subst.Factors.unify {first second : Subst} {head : Term}
    (factors : start.Factors first second) (goal : Term) (unbound : start.resolve head = head) :
    Option.Rel (start.Factors) (Subst.unify goal head first)
      (Subst.unify (start.resolve goal) head second) := by
  have sameHead := factors.resolve_eq head
  rw [unbound] at sameHead
  have alike := factors.acyclic.unify_alike factors.acyclicToo (factors.resolve_eq goal) sameHead
  generalize unifies : Subst.unify goal head first = result at alike ⊢
  generalize unifiesToo : Subst.unify (start.resolve goal) head second = resultToo at alike ⊢
  cases alike with
  | none => exact .none
  | some stay =>
      exact .some ⟨factors.acyclic.of_unify unifies, factors.acyclicToo.of_unify unifiesToo,
        fun term => stay (factors.resolve_eq term)⟩

/-- The copy of a clause has no variable that is bound in an older substitution. -/
theorem Session.resolve_copyOf {session : Session} (inStart : start.Only session.Has)
    (clause : Clause) :
    start.resolve (session.copyOf clause).head = (session.copyOf clause).head ∧
      (session.copyOf clause).body.map start.resolve = (session.copyOf clause).body := by
  have unbound : ∀ id ∈ (session.copyOf clause).ids, start.lookup id = none := by
    intro id member
    cases found : start.lookup id with
    | none => rfl
    | some value => exact absurd (inStart.lookup found).1 (not_has_copy id member)
  constructor
  · exact Subst.resolve_eq_self fun id member => unbound id (Clause.mem_ids.mpr (.inl member))
  · have same : ∀ goal ∈ (session.copyOf clause).body, start.resolve goal = goal := by
      intro goal inBody
      exact Subst.resolve_eq_self fun id member =>
        unbound id (Clause.mem_ids.mpr (.inr ⟨goal, inBody, member⟩))
    simpa using List.map_congr_left same

/-- The same work, for goals under a substitution and for those that the start resolves
them to. -/
inductive Frame.Alike (start : Subst) : Frame → Frame → Prop where
  | prove {goals : List Term} {first second : Subst} :
      start.Factors first second →
      Alike start (.prove goals first) (.prove (goals.map start.resolve) second)
  | resolve {goal : Term} {rest : List Term} {first second : Subst} {index : Nat} :
      start.Factors first second →
      Alike start (.resolve goal rest first index)
        (.resolve (start.resolve goal) (rest.map start.resolve) second index)

namespace Search

variable {database : Database} {frames framesToo later : List Frame}
variable {session sessionToo after : Session} {answer : Option Subst}

theorem alternatives_alike {first second : Subst} (factors : start.Factors first second)
    (database : Database) (goal : Term) (rest : List Term) (index : Nat) :
    List.Forall₂ (Frame.Alike start) (alternatives database goal rest first index)
      (alternatives database (start.resolve goal) (rest.map start.resolve) second index) := by
  by_cases more : index + 1 < database.size
  · simpa only [alternatives, more, if_true] using .cons (.resolve factors) .nil
  · simpa only [alternatives, more, if_false] using .nil

/-- A search makes the move that the other one makes. -/
theorem Move.exists_alike (move : Move database frames session answer later after)
    (same : List.Forall₂ (Frame.Alike start) frames framesToo) (alike : session.Alike sessionToo)
    (inStart : start.Only session.Has) :
    ∃ answerToo laterToo afterToo,
      Move database framesToo sessionToo answerToo laterToo afterToo ∧
      Option.Rel start.Factors answer answerToo ∧
      List.Forall₂ (Frame.Alike start) later laterToo ∧ after.Alike afterToo := by
  cases move with
  | answer =>
      cases same with
      | cons first below =>
      cases first with
      | prove factors => exact ⟨_, _, _, .answer, .some factors, below, alike⟩
  | select =>
      cases same with
      | cons first below =>
      cases first with
      | prove factors => exact ⟨_, _, _, .select, .none, .cons (.resolve factors) below, alike⟩
  | drop absent =>
      cases same with
      | cons first below =>
      cases first with
      | resolve => exact ⟨_, _, _, .drop absent, .none, below, alike⟩
  | @enter goal rest _ _ index _ _ clause found unifies =>
      cases same with
      | cons first below =>
      cases first with
      | resolve factors =>
      rcases Session.resolve_copyOf inStart clause with ⟨sameHead, sameBody⟩
      have unify := factors.unify goal sameHead
      rw [unifies, alike.copyOf_eq] at unify
      generalize unifiesToo : Subst.unify _ _ _ = resultToo at unify
      cases unify with
      | some unified =>
          have entered : Frame.Alike start (.prove ((session.copyOf clause).body ++ rest) _)
              (.prove (((session.copyOf clause).body ++ rest).map start.resolve) _) :=
            .prove unified
          rw [List.map_append, sameBody, alike.copyOf_eq] at entered
          rw [alike.copyOf_eq]
          exact ⟨_, _, _, .enter found unifiesToo, .none,
            .cons entered (List.rel_append (alternatives_alike factors _ _ _ _) below),
            alike.attempt _ _ index clause true⟩
  | @skip goal _ _ index _ _ clause found fails =>
      cases same with
      | cons first below =>
      cases first with
      | resolve factors =>
      have unify := factors.unify goal (Session.resolve_copyOf inStart clause).1
      rw [fails, alike.copyOf_eq] at unify
      generalize failsToo : Subst.unify _ _ _ = resultToo at unify
      cases unify with
      | none =>
          exact ⟨_, _, _, .skip found failsToo, .none,
            List.rel_append (alternatives_alike factors _ _ _ _) below,
            alike.attempt _ _ index clause false⟩

/-! ## Watching the two searches -/

/-- The same was found, the same work is left, and the same attempts were made. -/
structure Watch.Alike (start : Subst) (seen seenToo : Watch) : Prop where
  results : List.Forall₂ (fun known other => start.Factors known.1 other.1 ∧
    known.2.Alike other.2) seen.results seenToo.results
  frames : List.Forall₂ (Frame.Alike start) seen.search.frames seenToo.search.frames
  session : seen.session.Alike seenToo.session

/-- Searches for the same work go in step, as long as the start has no variables that a copy
could be given. -/
theorem lockstep_alike (start : Subst) (database : Database) :
    Lockstep database database start.Factors Session.Alike
      fun frames session framesToo sessionToo => List.Forall₂ (Frame.Alike start) frames framesToo ∧
        session.Alike sessionToo ∧ start.Only session.Has where
  alike related := related.2.1
  empty related := List.forall₂_nil_left_iff.mp related.1
  move := by
    rintro frames framesToo later session sessionToo after answer ⟨same, alike, inStart⟩ move
    rcases move.exists_alike same alike inStart with
      ⟨answerToo, laterToo, afterToo, moveToo, answers, sameLater, alikeLater⟩
    exact ⟨answerToo, laterToo, afterToo, moveToo, answers, sameLater, alikeLater,
      inStart.mono fun _ has => Nat.lt_of_lt_of_le has move.nextVar_le⟩

/-- A search sees its substitution only through what goals resolve to. The search for goals
under an acyclic substitution, all of whose variables were minted, and the search for the
resolved goals under no bindings return the same call by call: both an answer or both none,
with the same variables minted and the same attempts made by then, and to resolve under the
answer of the first is to resolve under the substitution and then under the answer of the
second. Also while no call returns they make the same attempts. -/
theorem search_sees_resolved_goals (acyclic : start.Acyclic) (inStart : start.Only session.Has)
    (database : Database) (goals : List Term) :
    let first := all database goals start
    let second := all database (goals.map start.resolve) .empty
    (∀ n result after, NthCall first session n result after →
      ∃ image other, NthCall second session n image other ∧
        Option.Rel start.Factors result image ∧ after.Alike other) ∧
    (∀ n image other, NthCall second session n image other →
      ∃ result after, NthCall first session n result after ∧
        Option.Rel start.Factors result image ∧ after.Alike other) ∧
    ∀ steps, (watch steps first session).Alike start (watch steps second session) := by
  intro first second
  have lockstep := lockstep_alike start database
  have begins : List.Forall₂ (Frame.Alike start) first.frames second.frames ∧
      session.Alike session ∧ start.Only session.Has :=
    ⟨.cons (.prove acyclic.factors_empty) .nil, .refl session, inStart⟩
  refine ⟨fun n => (lockstep.nthCall begins n).1, fun n => (lockstep.nthCall begins n).2, ?_⟩
  intro steps
  have related := lockstep.watch begins steps
  exact ⟨related.results, related.rest.1, related.rest.2.1⟩

/-- With `z` bound to `y`, the search for `(q . z)` asks a rule and then a fact. So does the
search for `(q . y)` under no bindings; it has the answer without the binding of `z`. -/
theorem search_sees_resolved_goals_rule :
    let x : Var := ⟨0, "x"⟩
    let y : Var := ⟨1, "y"⟩
    let z : Var := ⟨2, "z"⟩
    let copied : Var := ⟨3, "x"⟩
    let p := Term.symbol "p"
    let q := Term.symbol "q"
    let a := Term.symbol "a"
    let fact : Clause := .fact (.pair p a)
    let rule : Clause := .rule (.pair q (.var x)) [.pair p (.var x)]
    let database : Database := ⟨#[fact, rule]⟩
    let start := Subst.empty.bind z (.var y)
    let answer := (start.bind y (.var copied)).bind copied a
    start.Acyclic ∧ ∃ after, NthCall (all database [.pair q (.var z)] start) ⟨3, []⟩ 0
        (some answer) after ∧
      ∃ image other, NthCall (all database [.pair q (.var y)] .empty) ⟨3, []⟩ 0
          (some image) other ∧
        (∀ term, answer.resolve term = image.resolve (start.resolve term)) ∧
        other.trials = [(1, fact, true), (0, rule, false), (0, rule, true)] := by
  intro x y z copied p q a fact rule database start answer
  have acyclic : start.Acyclic := Subst.acyclic_empty.bind rfl (by decide)
  have inStart : start.Only (Session.Has ⟨3, []⟩) := by
    simp [start, Subst.Only, Subst.empty, Term.Only, Session.Has, y, z]
  have call : NthCall (all database [.pair q (.var z)] start) ⟨3, []⟩ 0 (some answer) _ :=
    .first (.found (show pull 9 _ _ = ⟨.found answer, _, _⟩ from rfl))
  rcases (search_sees_resolved_goals acyclic inStart database [.pair q (.var z)]).1 0 _ _ call with
    ⟨_, other, callToo, ⟨factors⟩, alike⟩
  exact ⟨acyclic, _, call, _, other, callToo, factors.resolve_eq, alike.trials.symm.trans rfl⟩

end Search

end Horn
