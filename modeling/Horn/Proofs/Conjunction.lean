import Horn.Proofs.Calls

/-!
# Conjunctions

A conjunction of goals and further goals is a join of two searches. `Join` is the lazy
loop: pull an answer to the goals, give every answer to the further goals under it, and
only then pull the next one. The search for the conjunction has one stack for both, on
which the body of a clause goes in front of the further goals. Call by call it gives what
the loop gives, in the same session (`conjunction_is_lazy_join`).

The stack of the conjunction is the work of the inner search on top of that of the outer
one, with the further goals put behind (`Join.work`). A move of either search is a move
of that stack, and where the outer search has an answer the stack begins the inner search
without a move.
-/

namespace Horn

/-- The work with further goals behind those that it has to prove. -/
def Frame.append (further : List Term) : Frame → Frame
  | .prove goals subst => .prove (goals ++ further) subst
  | .resolve goal rest subst index => .resolve goal (rest ++ further) subst index

namespace Search

/-- A loop over the answers of the outer search, with an inner search for proofs of the goals
under the last answer that was pulled. The two share a database, and each has its work. -/
structure Join where
  database : Database
  outer : List Frame
  goals : List Term
  inner : Option (List Frame)

/-- The loop over the proofs of goals, for the proofs of further goals. -/
def Join.all (database : Database) (goals further : List Term) (subst : Subst) : Join :=
  ⟨database, (Search.all database goals subst).frames, further, none⟩

/-- A call for the next answer of the loop returns. The inner search yields it, if it has
one, and is left if it has no more. Then an answer of the outer search is pulled and a new
inner search is entered, until there is none. -/
inductive Join.Call : Join → Session → Option Subst → Join → Session → Prop where
  | yield {database : Database} {outer inner later : List Frame} {goals : List Term}
      {session after : Session} {answer : Subst} :
      Search.Call ⟨database, inner⟩ session (some answer) ⟨database, later⟩ after →
      Join.Call ⟨database, outer, goals, some inner⟩ session (some answer)
        ⟨database, outer, goals, some later⟩ after
  | leave {database : Database} {outer inner later : List Frame} {goals : List Term}
      {session between after : Session} {result : Option Subst} {rest : Join} :
      Search.Call ⟨database, inner⟩ session none ⟨database, later⟩ between →
      Join.Call ⟨database, outer, goals, none⟩ between result rest after →
      Join.Call ⟨database, outer, goals, some inner⟩ session result rest after
  | enter {database : Database} {outer later : List Frame} {goals : List Term}
      {session between after : Session} {found : Subst} {result : Option Subst} {rest : Join} :
      Search.Call ⟨database, outer⟩ session (some found) ⟨database, later⟩ between →
      Join.Call ⟨database, later, goals, some (Search.all database goals found).frames⟩ between
        result rest after →
      Join.Call ⟨database, outer, goals, none⟩ session result rest after
  | done {database : Database} {outer later : List Frame} {goals : List Term}
      {session after : Session} :
      Search.Call ⟨database, outer⟩ session none ⟨database, later⟩ after →
      Join.Call ⟨database, outer, goals, none⟩ session none ⟨database, later, goals, none⟩ after

/-- What the call of a number, counted from zero, returns, and the session after it. -/
inductive Join.NthCall : Join → Session → Nat → Option Subst → Session → Prop where
  | first {join rest : Join} {session after : Session} {result : Option Subst} :
      Join.Call join session result rest after → Join.NthCall join session 0 result after
  | later {join rest : Join} {session after last : Session}
      {result final : Option Subst} {n : Nat} :
      Join.Call join session result rest after → Join.NthCall rest after n final last →
      Join.NthCall join session (n + 1) final last

variable {database : Database} {frames later last rest : List Frame}
variable {session between after : Session} {answer result : Option Subst}

/-! ## Calls as moves -/

/-- Moves that find no answer. -/
inductive Silent (database : Database) :
    List Frame → Session → List Frame → Session → Prop where
  | done {frames : List Frame} {session : Session} : Silent database frames session frames session
  | move {frames later last : List Frame} {session between after : Session} :
      Move database frames session none later between →
      Silent database later between last after → Silent database frames session last after

/-- A call ends where an answer is next, or where no work is left. -/
inductive Ends : List Frame → Option Subst → List Frame → Prop where
  | found {answer : Subst} {below : List Frame} :
      Ends (.prove [] answer :: below) (some answer) below
  | exhausted : Ends [] none []

theorem Silent.call (silent : Silent database frames session later between) {left : Search}
    (call : Call ⟨database, later⟩ between result left after) :
    Call ⟨database, frames⟩ session result left after := by
  induction silent with
  | done => exact call
  | move move _ ih => exact (ih call).of_working move.step

theorem Ends.call (ends : Ends frames result rest) (database : Database) (session : Session) :
    Call ⟨database, frames⟩ session result ⟨database, rest⟩ session := by
  cases ends with
  | found => exact .found (show pull 1 _ session = _ from rfl)
  | exhausted => exact .exhausted (show pull 1 _ session = _ from rfl)

/-- A pull that ends has taken silent moves. -/
theorem exists_silent_of_pull {steps : Nat} {search left : Search} {outcome : Outcome}
    (pulled : search.pull steps session = ⟨outcome, left, after⟩)
    (ended : outcome ≠ .unfinished) :
    left.database = search.database ∧
      ∃ last, Silent search.database search.frames session last after ∧
        Ends last outcome.answer? left.frames := by
  induction steps generalizing search session with
  | zero =>
      cases pulled
      exact absurd rfl ended
  | succ steps ih =>
      rcases step_eq search session with
        ⟨empty, step⟩ | ⟨answer, later, step, move⟩ | ⟨later, between, step, move⟩
      · simp only [pull, step] at pulled
        cases pulled
        exact ⟨rfl, _, .done, by rw [empty]; exact .exhausted⟩
      · simp only [pull, step] at pulled
        cases pulled
        exact ⟨rfl, _, .done, by rw [move.frames_eq]; exact .found⟩
      · simp only [pull, step] at pulled
        obtain ⟨same, last, silent, ends⟩ := ih pulled
        exact ⟨same, last, .move move silent, ends⟩

theorem Call.exists_silent {search left : Search} (call : Call search session result left after) :
    left.database = search.database ∧
      ∃ last, Silent search.database search.frames session last after ∧
        Ends last result left.frames := by
  cases call with
  | found pulled => exact exists_silent_of_pull pulled fun ended => nomatch ended
  | exhausted pulled => exact exists_silent_of_pull pulled fun ended => nomatch ended

/-! ## Work on top of other work -/

/-- What is below the work that a move does stays as it is. -/
theorem Move.append_below (move : Move database frames session answer later after)
    (below : List Frame) :
    Move database (frames ++ below) session answer (later ++ below) after := by
  cases move with
  | answer => exact .answer
  | select => exact .select
  | drop absent => exact .drop absent
  | enter found unifies => simpa using Move.enter found unifies
  | skip found fails => simpa using Move.skip found fails

theorem Silent.append_below (silent : Silent database frames session later after)
    (below : List Frame) : Silent database (frames ++ below) session (later ++ below) after := by
  induction silent with
  | done => exact .done
  | move move _ ih => exact .move (move.append_below below) ih

/-! ## Goals behind other goals -/

@[simp] theorem map_append_alternatives (database : Database) (goal : Term) (rest : List Term)
    (subst : Subst) (index : Nat) (further : List Term) :
    (alternatives database goal rest subst index).map (Frame.append further) =
      alternatives database goal (rest ++ further) subst index := by
  by_cases more : index + 1 < database.size <;> simp [alternatives, more, Frame.append]

/-- Goals behind those that a silent move is about stay behind them. With an answer it is
not so, since the further goals are then to be proved. -/
theorem Move.append_goals (move : Move database frames session none later after)
    (further : List Term) :
    Move database (frames.map (Frame.append further)) session none
      (later.map (Frame.append further)) after := by
  cases move with
  | select => exact .select
  | drop absent => exact .drop absent
  | enter found unifies => simpa [Frame.append] using Move.enter found unifies
  | skip found fails => simpa [Frame.append] using Move.skip found fails

theorem Silent.append_goals (silent : Silent database frames session later after)
    (further : List Term) :
    Silent database (frames.map (Frame.append further)) session
      (later.map (Frame.append further)) after := by
  induction silent with
  | done => exact .done
  | move move _ ih => exact .move (move.append_goals further) ih

/-! ## The work of a join -/

/-- The work of a join as one stack: that of the inner search is done first, and under
the answers of the outer search the goals of the join are to be proved. -/
def Join.work (join : Join) : List Frame :=
  join.inner.getD [] ++ join.outer.map (Frame.append join.goals)

/-- What the loop returns, the search with the one stack returns. -/
theorem Join.Call.search {join left : Join} (call : Join.Call join session result left after) :
    left.database = join.database ∧
      Search.Call ⟨join.database, join.work⟩ session result
        ⟨join.database, left.work⟩ after := by
  induction call with
  | yield call =>
      obtain ⟨_, _, silent, ends⟩ := call.exists_silent
      cases ends
      exact ⟨rfl, (silent.append_below _).call (Ends.found.call _ _)⟩
  | leave call _ ih =>
      obtain ⟨_, _, silent, ends⟩ := call.exists_silent
      cases ends
      exact ⟨ih.1, (silent.append_below _).call ih.2⟩
  | enter call _ ih =>
      obtain ⟨_, _, silent, ends⟩ := call.exists_silent
      cases ends
      exact ⟨ih.1, (silent.append_goals _).call ih.2⟩
  | done call =>
      obtain ⟨_, _, silent, ends⟩ := call.exists_silent
      cases ends
      exact ⟨rfl, (silent.append_goals _).call (Ends.exhausted.call _ _)⟩

/-- How a join goes on, compared with the search with the one stack: both are at the end,
or both have an answer, or the search makes a silent move to the work of a join whose
calls are those of this one. -/
inductive Join.Progress (join : Join) (session : Session) : Prop where
  | ended (left : Join) :
      join.work = [] → left.work = [] → Join.Call join session none left session →
      Progress join session
  | found (answer : Subst) (left : Join) :
      join.work = .prove [] answer :: left.work →
      Join.Call join session (some answer) left session → Progress join session
  | working (next : Join) (between : Session) :
      next.database = join.database →
      Move join.database join.work session none next.work between →
      (∀ {result left after}, Join.Call next between result left after →
        Join.Call join session result left after) →
      Progress join session

/-- A join with the same work goes on in the same way if its calls go over to the other. -/
theorem Join.Progress.before {join other : Join} (progress : Join.Progress join session)
    (sameDatabase : join.database = other.database) (sameWork : join.work = other.work)
    (goesOver : ∀ {result left after}, Join.Call join session result left after →
      Join.Call other session result left after) : Join.Progress other session := by
  cases progress with
  | ended left empty done call => exact .ended left (sameWork ▸ empty) done (goesOver call)
  | found answer left first call => exact .found answer left (sameWork ▸ first) (goesOver call)
  | working next between same move goesOn =>
      rw [sameDatabase] at same
      rw [sameDatabase, sameWork] at move
      exact .working next between same move fun call => goesOver (goesOn call)

/-- Work of the inner search is done first. -/
theorem Join.progress_inner (database : Database) (outer : List Frame) (goals : List Term)
    (frame : Frame) (below : List Frame) (session : Session) :
    Join.Progress ⟨database, outer, goals, some (frame :: below)⟩ session := by
  obtain ⟨answer, later, between, move⟩ :=
    exists_move database session (List.cons_ne_nil frame below)
  have onTop := move.append_below (outer.map (Frame.append goals))
  cases answer with
  | some answer =>
      have call : Search.Call ⟨database, frame :: below⟩ session (some answer)
          ⟨database, later⟩ session := by
        rw [move.frames_eq]
        exact Ends.found.call database session
      exact .found answer ⟨database, outer, goals, some later⟩ onTop.frames_eq (.yield call)
  | none =>
      refine .working ⟨database, outer, goals, some later⟩ between rfl onTop ?_
      intro result left after call
      cases call with
      | yield call => exact .yield (call.of_working move.step)
      | leave call rest => exact .leave (call.of_working move.step) rest

theorem Join.progress_outer (database : Database) (outer : List Frame) (goals : List Term)
    (session : Session) : Join.Progress ⟨database, outer, goals, none⟩ session := by
  by_cases work : outer = []
  · rw [work]
    exact .ended ⟨database, [], goals, none⟩ rfl rfl (.done (Ends.exhausted.call database session))
  · obtain ⟨answer, later, between, move⟩ := exists_move database session work
    cases answer with
    | some found =>
        -- the work is already that of a search under the answer
        rw [move.frames_eq]
        have inside := progress_inner database later goals (.prove goals found) [] session
        exact inside.before rfl rfl (.enter (Ends.found.call database session))
    | none =>
        refine .working ⟨database, later, goals, none⟩ between rfl (move.append_goals goals) ?_
        intro result left after call
        cases call with
        | enter call rest => exact .enter (call.of_working move.step) rest
        | done call => exact .done (call.of_working move.step)

/-- A join goes on as the search with the one stack does. -/
theorem Join.progress (join : Join) (session : Session) : Join.Progress join session := by
  obtain ⟨database, outer, goals, inner⟩ := join
  match inner with
  | none => exact progress_outer database outer goals session
  | some [] =>
      have outside := progress_outer database outer goals session
      exact outside.before rfl rfl (.leave (Ends.exhausted.call database session))
  | some (frame :: below) => exact progress_inner database outer goals frame below session

/-- What the search with the one stack returns, the loop returns. -/
theorem Join.Call.of_silent (silent : Silent database frames session last after)
    (ends : Ends last result rest) {join : Join} (sameDatabase : join.database = database)
    (sameWork : join.work = frames) :
    ∃ left, left.work = rest ∧ Join.Call join session result left after := by
  -- what is next on the stack tells which way the join goes on
  induction silent generalizing join with
  | @done _ session =>
      cases join.progress session with
      | ended left empty done call =>
          cases sameWork.symm.trans empty
          cases ends
          exact ⟨left, done, call⟩
      | found answer left first call =>
          cases sameWork.symm.trans first
          cases ends
          exact ⟨left, rfl, call⟩
      | working next between same move goesOn =>
          rw [sameWork] at move
          cases ends with
          | found => nomatch move
          | exhausted => nomatch move
  | @move _ _ _ session _ _ move _ ih =>
      cases join.progress session with
      | ended left empty done call =>
          cases sameWork.symm.trans empty
          nomatch move
      | found answer left first call =>
          cases sameWork.symm.trans first
          nomatch move
      | working next between same moveToo goesOn =>
          rw [sameDatabase, sameWork] at moveToo
          obtain ⟨_, sameLater, rfl⟩ := move.unique moveToo
          obtain ⟨left, sameRest, call⟩ := ih ends (same.trans sameDatabase) sameLater.symm
          exact ⟨left, sameRest, goesOn call⟩

/-- Calls of the search with the one stack are those of the loop. -/
theorem Join.nthCall_work_iff (join : Join) {n : Nat} :
    Search.NthCall ⟨join.database, join.work⟩ session n result after ↔
      Join.NthCall join session n result after := by
  constructor
  · intro nth
    induction n generalizing join session with
    | zero =>
        cases nth with
        | first call =>
            obtain ⟨_, _, silent, ends⟩ := call.exists_silent
            obtain ⟨_, _, call⟩ := Join.Call.of_silent silent ends rfl rfl
            exact .first call
    | succ n ih =>
        cases nth with
        | @later _ middle _ _ _ _ _ _ call nth =>
            obtain ⟨same, _, silent, ends⟩ := call.exists_silent
            obtain ⟨left, sameWork, call⟩ := Join.Call.of_silent silent ends rfl rfl
            have sameDatabase : left.database = middle.database := call.search.1.trans same.symm
            have isMiddle : middle = ⟨left.database, left.work⟩ := by rw [sameDatabase, sameWork]
            rw [isMiddle] at nth
            exact .later call (ih left nth)
  · intro nth
    induction nth with
    | first call => exact .first call.search.2
    | later call _ ih =>
        obtain ⟨same, call⟩ := call.search
        rw [same] at ih
        exact .later call ih

/-- Conjunction is the lazy join. The calls of the search for goals and further goals
return what those of the loop do that pulls an answer to the goals, gives every answer to
the further goals under it, and only then pulls the next one: the same answers, and the
same session after each call, with the variables minted and the attempts made by then. -/
theorem conjunction_is_lazy_join (database : Database) (goals further : List Term)
    (subst : Subst) (session : Session) (n : Nat) (result : Option Subst) (after : Session) :
    NthCall (all database (goals ++ further) subst) session n result after ↔
      Join.NthCall (Join.all database goals further subst) session n result after :=
  Join.nthCall_work_iff (.all database goals further subst)

end Search

end Horn
