import Mathlib.Algebra.Order.Ring.Nat
import Mathlib.Data.List.Forall2
import Horn.Proofs.Interleaving

/-!
# Accounting for attempts

Every clause is attempted once for every goal that is selected. The attempts for one goal are
spread over the search, with all that follows from a clause in between, and those that are still
to come are spread over the stack. To tell whose they are, an `Audit` numbers the selected goals
and marks each piece of work with the number of the goal that it goes back to. The search does
not see the marks.

The attempts that were made and those that the stack still calls for are together the `ledger`.
A step moves an attempt from one part to the other, so the ledger stays as it is until a goal is
selected, and then grows by one attempt for each clause (`Audit.Balanced.turn`). A search without
work left has made all attempts of its ledger.
-/

namespace Horn

/-! ## Attempts -/

/-- A clause that is tried for a goal, by its index, and the number of the goal among those
that were selected. -/
structure Attempt where
  selection : Nat
  goal : Term
  index : Nat
  clause : Clause

namespace Attempt

variable {database : Database} {selection index : Nat} {goal : Term}

/-- The event is the one recorded for the attempt, however that ended. -/
def Recorded (attempt : Attempt) (event : Event) : Prop :=
  ∃ unified, event = .attempted attempt.goal attempt.index attempt.clause unified

/-- All clauses are tried for a goal, from the newest to the oldest. -/
def all (database : Database) (selection : Nat) (goal : Term) : List Attempt :=
  database.newestFirst.zipIdx.map fun (clause, index) => ⟨selection, goal, index, clause⟩

theorem length_all : (all database selection goal).length = database.size := by
  simp [all, Database.newestFirst]

theorem selection_of_mem_all {attempt : Attempt} (member : attempt ∈ all database selection goal) :
    attempt.selection = selection := by
  obtain ⟨_, _, rfl⟩ := List.mem_map.mp member
  rfl

theorem map_index_all :
    (all database selection goal).map Attempt.index = List.range database.size := by
  simp [all, Function.comp_def, List.range_eq_range', Database.newestFirst]

theorem map_clause_all :
    (all database selection goal).map Attempt.clause = database.newestFirst := by
  simp [all, Function.comp_def]

theorem getElem?_all : (all database selection goal)[index]? =
    (database.nthNewest? index).map (Attempt.mk selection goal index) := by
  simp [all, Database.nthNewest?_eq, Function.comp_def]

end Attempt

namespace Frame

variable {database : Database} {selection index : Nat} {goal : Term} {rest : List Term}
variable {subst : Subst}

/-- The goal that is selected when this piece of work is taken up. -/
def selects? : Frame → Option Term
  | .prove (goal :: _) _ => some goal
  | _ => none

/-- The goal that was selected for this piece of work already. -/
def selected? : Frame → Option Term
  | .resolve goal _ _ _ => some goal
  | .prove .. => none

/-- The attempt that is made when this piece of work is taken up, if it goes back to the goal
of this number. -/
def attempt? (database : Database) (selection : Nat) : Frame → Option Attempt
  | .resolve goal _ _ index => (database.nthNewest? index).map (Attempt.mk selection goal index)
  | .prove .. => none

/-- The attempts that a piece of work calls for, not counting those for goals that are yet to
be selected. -/
def pending (database : Database) (selection : Nat) : Frame → List Attempt
  | .resolve goal _ _ index => (Attempt.all database selection goal).drop index
  | .prove .. => []

theorem pending_resolve : (resolve goal rest subst index).pending database selection =
    ((resolve goal rest subst index).attempt? database selection).toList ++
      (Attempt.all database selection goal).drop (index + 1) := by
  rw [attempt?, ← Attempt.getElem?_all]
  exact List.drop_eq_getElem?_toList_append

theorem pending_of_absent (absent : database.nthNewest? index = none) :
    (resolve goal rest subst index).pending database selection = [] := by
  rw [pending, List.drop_eq_nil_iff, Attempt.length_all]
  exact Database.nthNewest?_eq_none_iff.mp absent

theorem flatMap_pending_alternatives :
    (Search.alternatives database goal rest subst index).flatMap (pending database selection) =
      (Attempt.all database selection goal).drop (index + 1) := by
  by_cases more : index + 1 < database.size
  · simp [Search.alternatives, more, pending]
  · have none : (Attempt.all database selection goal).drop (index + 1) = [] := by
      rw [List.drop_eq_nil_iff, Attempt.length_all]
      exact Nat.le_of_not_lt more
    simp [Search.alternatives, more, none]

end Frame

namespace Search

/-! ## Audits -/

/-- A search that is accounted for: each piece of work with the number of the selected goal that
it goes back to, the goals that were selected, and the attempts that were made. -/
structure Audit where
  work : List (Nat × Frame)
  session : Session
  selected : List Term
  attempts : List Attempt

namespace Audit

/-- The pending work of the search. -/
def frames (audit : Audit) : List Frame :=
  audit.work.map Prod.snd

/-- The audit of a search that begins, with the goals of the work at hand selected. -/
def start (search : Search) (session : Session) : Audit :=
  ⟨search.frames.map (Prod.mk 0), session, search.frames.filterMap Frame.selected?, []⟩

/-- Take up the first piece of work. A goal that is selected gets the next number, and what
comes of an attempt goes back to the goal that the attempt was made for. -/
def step (database : Database) (audit : Audit) : Audit :=
  match audit.work with
  | [] => audit
  | (mark, frame) :: below =>
      match Search.step ⟨database, [frame]⟩ audit.session with
      | .working rest after =>
          let number := if frame.selects?.isSome then audit.selected.length else mark
          ⟨rest.frames.map (Prod.mk number) ++ below, after,
            audit.selected ++ frame.selects?.toList,
            audit.attempts ++ (frame.attempt? database mark).toList⟩
      | _ => { audit with work := below }

/-- All attempts for the goals selected so far, those that were made and those to come. -/
def ledger (database : Database) (audit : Audit) : List Attempt :=
  audit.attempts ++ audit.work.flatMap fun (mark, frame) => frame.pending database mark

/-- What a step of an audit can do. -/
inductive Turn (database : Database) : Audit → Audit → Prop where
  | answer {mark : Nat} {subst : Subst} {below : List (Nat × Frame)} {session : Session}
      {selected : List Term} {attempts : List Attempt} :
      Turn database ⟨(mark, .prove [] subst) :: below, session, selected, attempts⟩
        ⟨below, session, selected, attempts⟩
  | select {mark : Nat} {goal : Term} {rest : List Term} {subst : Subst}
      {below : List (Nat × Frame)} {session : Session} {selected : List Term}
      {attempts : List Attempt} :
      Turn database ⟨(mark, .prove (goal :: rest) subst) :: below, session, selected, attempts⟩
        ⟨(selected.length, .resolve goal rest subst 0) :: below, session, selected ++ [goal],
          attempts⟩
  | drop {mark : Nat} {goal : Term} {rest : List Term} {subst : Subst} {index : Nat}
      {below : List (Nat × Frame)} {session : Session} {selected : List Term}
      {attempts : List Attempt} :
      database.nthNewest? index = none →
      Turn database ⟨(mark, .resolve goal rest subst index) :: below, session, selected, attempts⟩
        ⟨below, session, selected, attempts⟩
  | attempt {mark : Nat} {goal : Term} {rest : List Term} {subst : Subst} {index : Nat}
      {below : List (Nat × Frame)} {session : Session} {selected : List Term}
      {attempts : List Attempt} {clause : Clause} {unified : Option Subst} :
      database.nthNewest? index = some clause →
      Subst.unify goal (session.copyOf clause).head subst = unified →
      Turn database ⟨(mark, .resolve goal rest subst index) :: below, session, selected, attempts⟩
        ⟨(unified.toList.map (Frame.prove ((session.copyOf clause).body ++ rest)) ++
            alternatives database goal rest subst index).map (Prod.mk mark) ++ below,
          session.attempt goal index clause unified.isSome, selected,
          attempts ++ [⟨mark, goal, index, clause⟩]⟩

variable {database : Database} {audit later : Audit}

/-- A step without work changes nothing, and every other is a turn. -/
theorem step_cases (database : Database) (audit : Audit) :
    (audit.work = [] ∧ audit.step database = audit) ∨
      Turn database audit (audit.step database) := by
  obtain ⟨work, session, selected, attempts⟩ := audit
  match work with
  | [] => exact .inl ⟨rfl, rfl⟩
  | (mark, .prove [] subst) :: below => exact .inr .answer
  | (mark, .prove (goal :: rest) subst) :: below =>
      right
      simpa [step, Search.step, Frame.selects?, Frame.attempt?] using Turn.select
  | (mark, .resolve goal rest subst index) :: below =>
      right
      cases found : database.nthNewest? index with
      | none =>
          simpa [step, Search.step, Frame.selects?, Frame.attempt?, found] using Turn.drop found
      | some clause =>
          simpa [step, Search.step, Frame.selects?, Frame.attempt?, found, Session.rename_eq,
            Session.record, Session.attempt] using Turn.attempt found rfl

/-- Without the marks a turn is a move of the search. -/
theorem Turn.move (turn : Turn database audit later) :
    ∃ answer, Move database audit.frames audit.session answer later.frames later.session := by
  cases turn with
  | answer => exact ⟨_, .answer⟩
  | select => exact ⟨_, .select⟩
  | drop absent => exact ⟨_, .drop absent⟩
  | @attempt _ _ _ _ _ _ _ _ _ _ unified found unifies =>
      cases unified with
      | none => exact ⟨_, by simpa [frames, Function.comp_def] using Move.skip found unifies⟩
      | some unified =>
          exact ⟨_, by simpa [frames, Function.comp_def] using Move.enter found unifies⟩

/-- The ledger changes only when a goal is selected, and then all attempts for it are called
for. -/
theorem Turn.ledger_cases (turn : Turn database audit later) :
    (later.ledger database = audit.ledger database ∧ later.selected = audit.selected) ∨
      ∃ goal made pending, audit.ledger database = made ++ pending ∧
        later.ledger database =
          made ++ (Attempt.all database audit.selected.length goal ++ pending) ∧
        later.selected = audit.selected ++ [goal] := by
  cases turn with
  | answer => exact .inl ⟨by simp [ledger, Frame.pending], rfl⟩
  | @select _ goal _ _ below _ _ attempts =>
      exact .inr ⟨goal, attempts, _, rfl, by simp [ledger, Frame.pending], rfl⟩
  | drop absent =>
      left
      simp only [ledger, List.flatMap_cons, Frame.pending_of_absent absent, List.nil_append,
        and_self]
  | @attempt mark goal rest subst index below session _ attempts clause unified found _ =>
      left
      have marked : ∀ frames : List Frame,
          (frames.map (Prod.mk mark)).flatMap (fun work => work.2.pending database work.1) =
            frames.flatMap (Frame.pending database mark) := by
        intro frames
        rw [List.flatMap_map]
      have entered : (unified.toList.map
          (Frame.prove ((session.copyOf clause).body ++ rest))).flatMap
            (Frame.pending database mark) = [] := by
        simp [List.flatMap_map, Frame.pending]
      simp only [ledger, List.flatMap_append, List.flatMap_cons, marked, entered,
        Frame.flatMap_pending_alternatives, Frame.pending_resolve, Frame.attempt?, found]
      simp

/-- The ledger has the attempts for every selected goal, each clause once from the newest to the
oldest, and no others. -/
structure Balanced (database : Database) (selected : List Term) (ledger : List Attempt) :
    Prop where
  numbered : ∀ attempt ∈ ledger, attempt.selection < selected.length
  whole : ∀ n (inside : n < selected.length),
    ledger.filter (fun attempt => attempt.selection = n) = Attempt.all database n selected[n]
  sum : ∀ weight : Clause → Nat, (ledger.map fun attempt => weight attempt.clause).sum =
    selected.length * (database.newestFirst.map weight).sum

theorem Balanced.select {selected : List Term} {made pending : List Attempt}
    (balanced : Balanced database selected (made ++ pending)) (goal : Term) :
    Balanced database (selected ++ [goal])
      (made ++ (Attempt.all database selected.length goal ++ pending)) where
  numbered := by
    intro attempt member
    rw [List.length_append]
    rcases List.mem_append.mp member with inMade | later
    · exact Nat.lt_succ_of_lt (balanced.numbered attempt (List.mem_append_left _ inMade))
    · rcases List.mem_append.mp later with inNew | inPending
      · rw [Attempt.selection_of_mem_all inNew]
        exact Nat.lt_succ_self _
      · exact Nat.lt_succ_of_lt (balanced.numbered attempt (List.mem_append_right _ inPending))
  whole := by
    intro n inside
    rw [List.length_append, List.length_singleton] at inside
    simp only [List.filter_append]
    rcases Nat.eq_or_lt_of_le (Nat.le_of_lt_succ inside) with rfl | earlier
    · have apart : ∀ attempts : List Attempt, (∀ attempt ∈ attempts, attempt ∈ made ++ pending) →
          attempts.filter (fun attempt => attempt.selection = selected.length) = [] := by
        intro attempts listed
        rw [List.filter_eq_nil_iff]
        intro attempt member
        simpa using Nat.ne_of_lt (balanced.numbered attempt (listed attempt member))
      have new : (Attempt.all database selected.length goal).filter
          (fun attempt => attempt.selection = selected.length) =
            Attempt.all database selected.length goal := by
        rw [List.filter_eq_self]
        intro attempt member
        simpa using Attempt.selection_of_mem_all member
      rw [apart made fun _ => List.mem_append_left _,
        apart pending fun _ => List.mem_append_right _,
        new]
      simp
    · have other : (Attempt.all database selected.length goal).filter
          (fun attempt => attempt.selection = n) = [] := by
        rw [List.filter_eq_nil_iff]
        intro attempt member
        simpa [Attempt.selection_of_mem_all member] using Nat.ne_of_gt earlier
      rw [other, List.nil_append, ← List.filter_append, balanced.whole n earlier]
      simp [earlier]
  sum := by
    intro weight
    have before := balanced.sum weight
    have new : ((Attempt.all database selected.length goal).map
        fun attempt => weight attempt.clause).sum = (database.newestFirst.map weight).sum := by
      rw [← Attempt.map_clause_all, List.map_map]
      rfl
    simp only [List.map_append, List.sum_append, List.length_append, List.length_singleton,
      Nat.add_mul, Nat.one_mul] at before ⊢
    omega

theorem Balanced.turn (turn : Turn database audit later)
    (balanced : Balanced database audit.selected (audit.ledger database)) :
    Balanced database later.selected (later.ledger database) := by
  rcases turn.ledger_cases with ⟨ledger, selected⟩ | ⟨goal, made, pending, before, ledger, selected⟩
  · rwa [ledger, selected]
  · rw [ledger, selected]
    rw [before] at balanced
    exact balanced.select goal

/-- The session has grown by the attempts that were made: they are in the log, one after
another, and each has minted the variables of its clause. -/
structure Paid (session : Session) (audit : Audit) : Prop where
  nextVar : audit.session.nextVar =
    session.nextVar + (audit.attempts.map fun attempt => attempt.clause.vars.length).sum
  log : ∃ events, audit.session.log = events ++ session.log ∧
    List.Forall₂ Attempt.Recorded audit.attempts events.reverse

theorem Paid.turn {session : Session} (turn : Turn database audit later)
    (paid : Paid session audit) : Paid session later := by
  cases turn with
  | answer => exact ⟨paid.nextVar, paid.log⟩
  | select => exact ⟨paid.nextVar, paid.log⟩
  | drop => exact ⟨paid.nextVar, paid.log⟩
  | @attempt mark goal _ _ index _ before _ attempts clause unified =>
      rcases paid.log with ⟨events, log, recorded⟩
      refine ⟨?_, .attempted goal index clause unified.isSome :: events, ?_, ?_⟩
      · have minted := paid.nextVar
        simp only [Session.attempt, List.map_append, List.sum_append] at minted ⊢
        simp [minted, Nat.add_assoc]
      · simpa [Session.attempt] using log
      · rw [List.reverse_cons]
        exact List.rel_append recorded (.cons ⟨_, rfl⟩ .nil)

theorem Turn.selected_eq (turn : Turn database audit later) :
    later.selected = audit.selected ++ (audit.frames.head?.bind Frame.selects?).toList := by
  cases turn <;> simp [frames, Frame.selects?]

end Audit

/-- A search that is accounted for over a number of steps. -/
def audit (search : Search) (session : Session) : Nat → Audit
  | 0 => .start search session
  | steps + 1 => (audit search session steps).step search.database

variable {database : Database} {goals : List Term} {start : Subst} {search : Search}

/-- An audit goes along with the search. -/
theorem audit_eq_watch (search : Search) (session : Session) (steps : Nat) :
    (audit search session steps).frames = (watch steps search session).search.frames ∧
      (audit search session steps).session = (watch steps search session).session := by
  rw [← watchAmong_nobody]
  induction steps with
  | zero => exact ⟨by simp [audit, Audit.start, Audit.frames, watchAmong, Function.comp_def], rfl⟩
  | succ steps ih =>
      rcases ih with ⟨frames, reached⟩
      simp only [audit]
      rcases Audit.step_cases search.database (audit search session steps) with
        ⟨empty, idle⟩ | turn
      · have none : (watchAmong .nobody search session steps).search.frames = [] := by
          simp [← frames, Audit.frames, empty]
        rw [idle, watchAmong_succ_of_nil none]
        exact ⟨frames, reached⟩
      · rcases turn.move with ⟨answer, move⟩
        rw [frames, reached] at move
        rw [watchAmong_succ_of_move move]
        exact ⟨rfl, rfl⟩

/-- The selected goals are those of the work that was taken up to select them, behind those that
were selected when the search began. -/
theorem selected_audit (search : Search) (session : Session) (steps : Nat) :
    (audit search session steps).selected = search.frames.filterMap Frame.selected? ++
      (List.range steps).filterMap fun earlier =>
        (watch earlier search session).search.frames.head?.bind Frame.selects? := by
  induction steps with
  | zero => simp [audit, Audit.start]
  | succ steps ih =>
      have frames := (audit_eq_watch search session steps).1
      have next : ([steps].filterMap fun earlier =>
          (watch earlier search session).search.frames.head?.bind Frame.selects?) =
            ((audit search session steps).frames.head?.bind Frame.selects?).toList := by
        rw [frames, List.filterMap_cons]
        cases (watch steps search session).search.frames.head?.bind Frame.selects? <;> rfl
      rw [List.range_succ, List.filterMap_append, ← List.append_assoc, ← ih, next]
      rcases Audit.step_cases search.database (audit search session steps) with
        ⟨empty, idle⟩ | turn
      · simp [audit, idle, Audit.frames, empty]
      · exact turn.selected_eq

theorem Opens.balanced (opens : Opens database goals start search) (session : Session) :
    Audit.Balanced database (Audit.start search session).selected
      ((Audit.start search session).ledger database) := by
  have nothing : Audit.Balanced database [] ([] ++ []) :=
    ⟨by simp, fun n inside => absurd inside (Nat.not_lt_zero n), by simp⟩
  cases opens with
  | all => exact nothing
  | @one goal _ =>
      have single := nothing.select goal
      simpa [Audit.start, Audit.ledger, Search.one, Frame.selected?, Frame.pending] using single

/-- The books are right after every step. -/
theorem Opens.audited (opens : Opens database goals start search) (session : Session)
    (steps : Nat) :
    Audit.Paid session (audit search session steps) ∧
      Audit.Balanced database (audit search session steps).selected
        ((audit search session steps).ledger database) := by
  have same : search.database = database := by cases opens <;> rfl
  induction steps with
  | zero => exact ⟨⟨rfl, [], rfl, .nil⟩, opens.balanced session⟩
  | succ steps ih =>
      simp only [audit, same]
      rcases Audit.step_cases database (audit search session steps) with ⟨_, idle⟩ | turn
      · rwa [idle]
      · exact ⟨ih.1.turn turn, ih.2.turn turn⟩

/-- A search tries every clause once for every goal that it selects. Let a search be opened to
prove goals under a substitution. After any number of steps its attempts are those in the log,
each made for a goal that was selected, and the next free identity is ahead of where it was by
the variables of the clauses that were tried. When no work is left, the attempts for each
selected goal were made at all clauses, in the order from the newest to the oldest, so that
there were as many attempts as clauses for each selected goal, and as many variables minted as
the clauses have. -/
theorem clauses_attempted_once (opens : Opens database goals start search) (session : Session)
    (steps : Nat) :
    let seen := watch steps search session
    let books := audit search session steps
    (books.frames = seen.search.frames ∧ books.session = seen.session ∧
      books.selected = search.frames.filterMap Frame.selected? ++
        (List.range steps).filterMap fun earlier =>
          (watch earlier search session).search.frames.head?.bind Frame.selects?) ∧
    ((∃ events, seen.session.log = events ++ session.log ∧
        List.Forall₂ Attempt.Recorded books.attempts events.reverse) ∧
      ∀ attempt ∈ books.attempts, attempt.selection < books.selected.length) ∧
    seen.session.nextVar =
      session.nextVar + (books.attempts.map fun attempt => attempt.clause.vars.length).sum ∧
    (seen.search.frames = [] →
      (∀ n (inside : n < books.selected.length),
        let made := books.attempts.filter fun attempt => attempt.selection = n
        made = Attempt.all database n books.selected[n] ∧
          made.map Attempt.index = List.range database.size) ∧
      books.attempts.length = books.selected.length * database.size ∧
      seen.session.nextVar = session.nextVar +
        books.selected.length * (database.declared.map fun clause => clause.vars.length).sum) := by
  intro seen books
  rcases audit_eq_watch search session steps with ⟨frames, reached⟩
  rcases opens.audited session steps with ⟨paid, balanced⟩
  refine ⟨⟨frames, reached, selected_audit search session steps⟩, ⟨?_, ?_⟩, ?_, ?_⟩
  · exact reached ▸ paid.log
  · intro attempt member
    exact balanced.numbered attempt (List.mem_append_left _ member)
  · exact reached ▸ paid.nextVar
  · intro empty
    have none : books.work = [] := List.map_eq_nil_iff.mp (frames.trans empty)
    have ledger : books.ledger database = books.attempts := by simp [Audit.ledger, none]
    rw [ledger] at balanced
    refine ⟨?_, ?_, ?_⟩
    · intro n inside made
      have whole : made = _ := balanced.whole n inside
      exact ⟨whole, whole ▸ Attempt.map_index_all⟩
    · have counted := balanced.sum fun _ => 1
      simpa [Database.newestFirst] using counted
    · have minted := balanced.sum fun clause => clause.vars.length
      have order : (database.newestFirst.map fun clause => clause.vars.length).sum =
          (database.declared.map fun clause => clause.vars.length).sum := by
        rw [Database.newestFirst, List.map_reverse, List.sum_reverse]
      rw [← order, ← minted]
      exact reached ▸ paid.nextVar

/-- The search for `(q . y)` selects this goal and then `(p . x)` with the variable of a copied
rule. For each of them it tries the rule and both facts, and copies the one variable of the
rule. -/
theorem clauses_attempted_once_rule :
    let x : Var := ⟨0, "x"⟩
    let y : Var := ⟨1, "y"⟩
    let p := Term.symbol "p"
    let q := Term.symbol "q"
    let database : Database := ⟨#[.fact (.pair p (.symbol "a")), .fact (.pair p (.symbol "b")),
      .rule (.pair q (.var x)) [.pair p (.var x)]]⟩
    let search := one database (.pair q (.var y)) .empty
    let books := audit search ⟨2, []⟩ 10
    (watch 10 search ⟨2, []⟩).search.frames = [] ∧
      books.selected = [.pair q (.var y), .pair p (.var ⟨2, "x"⟩)] ∧
      (∀ n < 2, (books.attempts.filter fun attempt => attempt.selection = n).map Attempt.index =
        [0, 1, 2]) ∧
      books.attempts.length = 6 ∧ (watch 10 search ⟨2, []⟩).session.nextVar = 4 := by
  intro x y p q database search books
  have empty : (watch 10 search ⟨2, []⟩).search.frames = [] := rfl
  have selected : books.selected = [.pair q (.var y), .pair p (.var ⟨2, "x"⟩)] := by
    decide +kernel
  have once := clauses_attempted_once (.one : Opens database [.pair q (.var y)] .empty search)
    ⟨2, []⟩ 10
  rcases once.2.2.2 empty with ⟨each, counted, minted⟩
  refine ⟨empty, selected, ?_, ?_, ?_⟩
  · intro n inside
    have within : n < books.selected.length := selected ▸ inside
    exact (each n within).2
  · rw [counted, selected]
    rfl
  · rw [minted, selected]
    rfl

end Search

end Horn
