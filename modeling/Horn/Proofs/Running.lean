import Horn.Query
import Horn.Proofs.Copying

/-!
# Runs of a search

`Search.Move` lists what one step can do to the pending work, case by case, with all
that the step checked on the way. `Search.Run` puts moves one after another. Before
every move others who share the session may have taken identities from it, as several
searches over one database do, so what is proved of runs does not depend on who else
is at work.

`Run.invariant` is the one induction over runs: what a move preserves, a run
preserves. `Search.Pulls` is how a run looks from outside: a search that is pulled
for one answer after another.
-/

namespace Horn

/-- The copy of a clause that the next attempt is made with. -/
def Session.copyOf (session : Session) (clause : Clause) : Clause :=
  clause.instantiate fun v => .var (clause.copyVar session.nextVar v.id)

/-- The session after an attempt: the variables of the clause were minted, and the
attempt was recorded. -/
def Session.attempt (session : Session) (goal : Term) (index : Nat) (clause : Clause)
    (unified : Bool) : Session where
  nextVar := session.nextVar + clause.vars.length
  log := .attempted goal index clause unified :: session.log

theorem Session.rename_eq (session : Session) (clause : Clause) :
    session.rename clause =
      (session.copyOf clause,
        { session with nextVar := session.nextVar + clause.vars.length }) := by
  simp only [Session.rename, Clause.rename_eq, Session.copyOf]

/-- An instance of the copy is an instance of the clause. -/
theorem Session.exists_instance_of_copyOf (session : Session) (clause : Clause)
    (image : Nat → Term Nat) :
    ∃ original : Nat → Term Nat,
      (session.copyOf clause).head.bare.instantiate image =
        clause.head.bare.instantiate original ∧
      (session.copyOf clause).body.map (fun goal => goal.bare.instantiate image) =
        clause.body.map fun goal => goal.bare.instantiate original := by
  refine ⟨fun id => image (clause.copyVar session.nextVar id).id, ?_, ?_⟩
  · rw [copyOf, Clause.head_instantiate, Term.instantiate_bare_instantiate_var,
      Term.instantiate_bare]
  · rw [copyOf, Clause.body_instantiate, List.map_map]
    apply List.map_congr_left
    intro goal _
    rw [Function.comp_apply, Term.instantiate_bare_instantiate_var, Term.instantiate_bare]

/-- The goals that a piece of work has to prove. -/
def Frame.goals : Frame → List Term
  | .prove goals _ => goals
  | .resolve goal rest _ _ => goal :: rest

/-- The substitution that a piece of work starts from. -/
def Frame.subst : Frame → Subst
  | .prove _ subst => subst
  | .resolve _ _ subst _ => subst

namespace Search

/-- What a step does to the pending work: the frames before and after it, the session
before and after it, and the answer if one was found. A goal is selected and tried against
a clause whose head unifies with it or does not; if there is no such clause, it is
dropped. -/
inductive Move (database : Database) :
    List Frame → Session → Option Subst → List Frame → Session → Prop where
  | answer {subst : Subst} {below : List Frame} {session : Session} :
      Move database (.prove [] subst :: below) session (some subst) below session
  | select {goal : Term} {rest : List Term} {subst : Subst} {below : List Frame}
      {session : Session} :
      Move database (.prove (goal :: rest) subst :: below) session none
        (.resolve goal rest subst 0 :: below) session
  | drop {goal : Term} {rest : List Term} {subst : Subst} {index : Nat} {below : List Frame}
      {session : Session} :
      database.nthNewest? index = none →
      Move database (.resolve goal rest subst index :: below) session none below session
  | enter {goal : Term} {rest : List Term} {subst unified : Subst} {index : Nat}
      {below : List Frame} {session : Session} {clause : Clause} :
      database.nthNewest? index = some clause →
      Subst.unify goal (session.copyOf clause).head subst = some unified →
      Move database (.resolve goal rest subst index :: below) session none
        (.prove ((session.copyOf clause).body ++ rest) unified ::
          (alternatives database goal rest subst index ++ below))
        (session.attempt goal index clause true)
  | skip {goal : Term} {rest : List Term} {subst : Subst} {index : Nat} {below : List Frame}
      {session : Session} {clause : Clause} :
      database.nthNewest? index = some clause →
      Subst.unify goal (session.copyOf clause).head subst = none →
      Move database (.resolve goal rest subst index :: below) session none
        (alternatives database goal rest subst index ++ below)
        (session.attempt goal index clause false)

variable {database : Database} {frames later last : List Frame}
variable {session after final : Session}

theorem mem_alternatives {goal : Term} {rest : List Term} {subst : Subst} {index : Nat}
    {frame : Frame} :
    frame ∈ alternatives database goal rest subst index ↔
      index + 1 < database.size ∧ frame = .resolve goal rest subst (index + 1) := by
  by_cases more : index + 1 < database.size <;> simp [alternatives, more]

/-- A step is a move, and there is none only if no work is left. -/
theorem step_eq (search : Search) (session : Session) :
    (search.frames = [] ∧ search.step session = .exhausted) ∨
      (∃ answer later, search.step session = .found answer ⟨search.database, later⟩ ∧
        Move search.database search.frames session (some answer) later session) ∨
      ∃ later after, search.step session = .working ⟨search.database, later⟩ after ∧
        Move search.database search.frames session none later after := by
  obtain ⟨database, frames⟩ := search
  match frames with
  | [] => exact .inl ⟨rfl, rfl⟩
  | .prove [] subst :: below => exact .inr (.inl ⟨_, _, rfl, .answer⟩)
  | .prove (goal :: rest) subst :: below => exact .inr (.inr ⟨_, _, rfl, .select⟩)
  | .resolve goal rest subst index :: below =>
      right
      right
      cases found : database.nthNewest? index with
      | none => exact ⟨_, _, by simp [step, found], .drop found⟩
      | some clause =>
          cases ends : Subst.unify goal (session.copyOf clause).head subst with
          | none =>
              refine ⟨_, _, ?_, .skip found ends⟩
              simp [step, found, Session.rename_eq, Session.record, Session.attempt, ends]
          | some unified =>
              refine ⟨_, _, ?_, .enter found ends⟩
              simp [step, found, Session.rename_eq, Session.record, Session.attempt, ends]

theorem exists_move (database : Database) (session : Session) (work : frames ≠ []) :
    ∃ answer later after, Move database frames session answer later after := by
  rcases step_eq ⟨database, frames⟩ session with
    ⟨empty, _⟩ | ⟨answer, later, _, move⟩ | ⟨later, after, _, move⟩
  · exact absurd empty work
  · exact ⟨_, _, _, move⟩
  · exact ⟨_, _, _, move⟩

/-- A move is what the step does, so that there is one at most. -/
theorem Move.step {answer : Option Subst}
    (move : Move database frames session answer later after) :
    Search.step ⟨database, frames⟩ session =
      answer.elim (.working ⟨database, later⟩ after)
        fun found => .found found ⟨database, later⟩ := by
  cases move with
  | answer => rfl
  | select => rfl
  | drop absent => simp [Search.step, absent]
  | enter found unifies =>
      simp [Search.step, found, Session.rename_eq, Session.record, Session.attempt, unifies]
  | skip found fails =>
      simp [Search.step, found, Session.rename_eq, Session.record, Session.attempt, fails]

/-- An answer is found where nothing is left to prove. -/
theorem Move.frames_eq {found : Subst}
    (move : Move database frames session (some found) later after) :
    frames = .prove [] found :: later := by
  cases move
  rfl

theorem Move.unique {answer other : Option Subst}
    (move : Move database frames session answer later after)
    (again : Move database frames session other last final) :
    answer = other ∧ later = last ∧ after = final := by
  have same := move.step.symm.trans again.step
  cases answer with
  | none =>
      cases other with
      | none =>
          simp only [Option.elim, Step.working.injEq, Search.mk.injEq] at same
          exact ⟨rfl, same.1.2, same.2⟩
      | some found => cases same
  | some answer =>
      cases other with
      | none => cases same
      | some found =>
          cases move
          cases again
          exact ⟨rfl, rfl, rfl⟩

/-- The next step tries the clause. -/
def Attempts (database : Database) (frames : List Frame) (clause : Clause) : Prop :=
  ∃ goal rest subst index, frames.head? = some (.resolve goal rest subst index) ∧
    database.nthNewest? index = some clause

/-- A property of frames is kept by every move if it is kept when a goal is selected,
when a clause is passed over, and when one is entered. -/
theorem Move.preserves {motive : Frame → Prop} {answer : Option Subst}
    (move : Move database frames session answer later after)
    (select : ∀ {goal rest subst},
      motive (.prove (goal :: rest) subst) → motive (.resolve goal rest subst 0))
    (next : ∀ {goal rest subst index},
      motive (.resolve goal rest subst index) → motive (.resolve goal rest subst (index + 1)))
    (enter : ∀ {goal rest subst index clause unified},
      motive (.resolve goal rest subst index) → Attempts database frames clause →
      database.nthNewest? index = some clause →
      Subst.unify goal (session.copyOf clause).head subst = some unified →
      motive (.prove ((session.copyOf clause).body ++ rest) unified))
    (all : ∀ frame ∈ frames, motive frame) :
    (∀ frame ∈ later, motive frame) ∧ ∀ found ∈ answer, motive (.prove [] found) := by
  have alternatives : ∀ {goal rest subst index}, motive (.resolve goal rest subst index) →
      ∀ frame ∈ Search.alternatives database goal rest subst index, motive frame := by
    intro goal rest subst index first frame member
    obtain ⟨_, rfl⟩ := mem_alternatives.mp member
    exact next first
  cases move with
  | answer =>
      obtain ⟨first, below⟩ := List.forall_mem_cons.mp all
      refine ⟨below, ?_⟩
      rintro found ⟨⟩
      exact first
  | select =>
      obtain ⟨first, below⟩ := List.forall_mem_cons.mp all
      rw [List.forall_mem_cons]
      exact ⟨⟨select first, below⟩, by simp⟩
  | drop =>
      obtain ⟨_, below⟩ := List.forall_mem_cons.mp all
      exact ⟨below, by simp⟩
  | enter found unifies =>
      obtain ⟨first, below⟩ := List.forall_mem_cons.mp all
      rw [List.forall_mem_cons, List.forall_mem_append]
      have entered := enter first ⟨_, _, _, _, List.head?_cons, found⟩ found unifies
      exact ⟨⟨entered, alternatives first, below⟩, by simp⟩
  | skip =>
      obtain ⟨first, below⟩ := List.forall_mem_cons.mp all
      rw [List.forall_mem_append]
      exact ⟨⟨alternatives first, below⟩, by simp⟩

/-- A run of moves with the answers found on it. Identities may be taken from the
session, and events recorded in it, before every move. -/
inductive Run (database : Database) :
    List Frame → Session → List Subst → List Frame → Session → Prop where
  | done {frames : List Frame} {session : Session} : Run database frames session [] frames session
  | wait {frames last : List Frame} {session after final : Session} {answers : List Subst} :
      session.nextVar ≤ after.nextVar → Run database frames after answers last final →
      Run database frames session answers last final
  | move {frames later last : List Frame} {session after final : Session}
      {answer : Option Subst} {answers : List Subst} :
      Move database frames session answer later after →
      Run database later after answers last final →
      Run database frames session (answer.toList ++ answers) last final

theorem Run.trans {first second : List Subst}
    (run : Run database frames session first later after)
    (next : Run database later after second last final) :
    Run database frames session (first ++ second) last final := by
  induction run with
  | done => exact next
  | wait older _ ih => exact .wait older (ih next)
  | move move _ ih =>
      rw [List.append_assoc]
      exact .move move (ih next)

/-- What every move preserves holds along every run, and what every move says of its
answer holds of all answers. -/
theorem Run.invariant {motive : List Frame → Session → Prop} {good : Subst → Prop}
    (wait : ∀ {frames session after}, motive frames session →
      session.nextVar ≤ after.nextVar → motive frames after)
    (move : ∀ {frames session answer later after}, motive frames session →
      Move database frames session answer later after →
      motive later after ∧ ∀ found ∈ answer, good found)
    {answers : List Subst} (run : Run database frames session answers last final)
    (start : motive frames session) : motive last final ∧ ∀ found ∈ answers, good found := by
  induction run with
  | done => exact ⟨start, fun _ member => absurd member List.not_mem_nil⟩
  | wait older _ ih => exact ih (wait start older)
  | move step _ ih =>
      obtain ⟨kept, answer⟩ := move start step
      obtain ⟨ends, answers⟩ := ih kept
      refine ⟨ends, ?_⟩
      intro found member
      rcases List.mem_append.mp member with first | later
      · exact answer found (by simpa using first)
      · exact answers found later

/-! ## Pulling for answers -/

deriving instance DecidableEq for Outcome

def Outcome.answer? : Outcome → Option Subst
  | .found answer => some answer
  | _ => none

/-- A pull is a run, and it reports exhaustion only when no work is left. -/
theorem pull_run (steps : Nat) (search : Search) (session : Session) :
    (search.pull steps session).search.database = search.database ∧
      Run search.database search.frames session
        (search.pull steps session).outcome.answer?.toList
        (search.pull steps session).search.frames (search.pull steps session).session ∧
      ((search.pull steps session).outcome = .exhausted →
        (search.pull steps session).search.frames = []) := by
  induction steps generalizing search session with
  | zero => exact ⟨rfl, .done, fun ends => nomatch ends⟩
  | succ steps ih =>
      rcases step_eq search session with
        ⟨empty, step⟩ | ⟨answer, later, step, move⟩ | ⟨later, after, step, move⟩
      · simp only [pull, step]
        exact ⟨trivial, .done, fun _ => empty⟩
      · simp only [pull, step]
        exact ⟨trivial, .move move .done, fun ends => nomatch ends⟩
      · simp only [pull, step]
        obtain ⟨same, run, empty⟩ := ih ⟨search.database, later⟩ after
        exact ⟨same, .move move run, empty⟩

/-- A search is pulled for answers, each pull with as many steps as it takes. Between
two pulls the session may be used by others. -/
inductive Pulls (search : Search) (session : Session) :
    List Subst → Search → Session → Prop where
  | start : Pulls search session [] search session
  | found {between rest : Search} {after used final : Session} {answers : List Subst}
      {answer : Subst} {steps : Nat} :
      Pulls search session answers between after → after.nextVar ≤ used.nextVar →
      between.pull steps used = ⟨.found answer, rest, final⟩ →
      Pulls search session (answers ++ [answer]) rest final

/-- The next pull, without others in between. -/
theorem Pulls.next {search between : Search} {answers : List Subst} {answer : Subst} {steps : Nat}
    (pulls : Pulls search session answers between after)
    (found : (between.pull steps after).outcome = .found answer) :
    Pulls search session (answers ++ [answer]) (between.pull steps after).search
      (between.pull steps after).session :=
  .found pulls (Nat.le_refl _) (by rw [← found])

theorem Pulls.run {search rest : Search} {answers : List Subst}
    (pulls : Pulls search session answers rest final) :
    rest.database = search.database ∧
      Run search.database search.frames session answers rest.frames final := by
  induction pulls with
  | start => exact ⟨rfl, .done⟩
  | @found between _ _ used _ _ _ steps _ older pull ih =>
      obtain ⟨same, run⟩ := ih
      obtain ⟨sameNow, runNow, _⟩ := pull_run steps between used
      rw [pull] at sameNow runNow
      rw [same] at sameNow runNow
      exact ⟨sameNow, run.trans (.wait older runNow)⟩

/-- A search that is pulled for exactly these answers, and then reports that there are
no more. -/
def Exhausts (search : Search) (session : Session) (answers : List Subst) : Prop :=
  ∃ rest after used steps, Pulls search session answers rest after ∧
    after.nextVar ≤ used.nextVar ∧ (rest.pull steps used).outcome = .exhausted

/-- A search that is exhausted has run until no work was left. -/
theorem Exhausts.run {search : Search} {answers : List Subst}
    (exhausts : Exhausts search session answers) :
    ∃ final, Run search.database search.frames session answers [] final := by
  obtain ⟨rest, _, used, steps, pulls, older, exhausted⟩ := exhausts
  obtain ⟨same, run⟩ := pulls.run
  obtain ⟨_, lastRun, empty⟩ := pull_run steps rest used
  rw [empty exhausted, exhausted, same] at lastRun
  have whole := run.trans (.wait older lastRun)
  exact ⟨_, by simpa [Outcome.answer?] using whole⟩

/-- A search that was opened to prove goals under a substitution. -/
inductive Opens (database : Database) : List Term → Subst → Search → Prop where
  | all {goals : List Term} {subst : Subst} : Opens database goals subst (all database goals subst)
  | one {goal : Term} {subst : Subst} : Opens database [goal] subst (one database goal subst)

/-- There is one piece of work at first: to prove the goals, from the first clause on. -/
theorem Opens.eq_singleton {goals : List Term} {subst : Subst} {search : Search}
    (opens : Opens database goals subst search) :
    ∃ frame : Frame, search = ⟨database, [frame]⟩ ∧ frame.goals = goals ∧
      frame.subst = subst := by
  cases opens with
  | all => exact ⟨_, rfl, rfl, rfl⟩
  | one => exact ⟨_, rfl, rfl, rfl⟩

end Search

end Horn
