import Horn.Proofs.Accounting
import Horn.Proofs.Limits

/-!
# The order of attempts

For every goal that a search selects, the first attempt is at the newest clause, the second at the
one before it, and so on, wherever the search stops (`Opens.triesInOrder`). A query takes the first
steps of its search, as many as `Search.taken` counts, so that this holds of queries as well
(`Query.triesInOrder_found`, `Query.triesInOrder_ask`).
-/

namespace Horn

namespace Search

variable {database : Database} {goals : List Term} {start : Subst} {search : Search}

/-- For every selected goal, the attempts made so far are at the clauses from the first one on. -/
def Audit.InOrder (clauses : List Clause) (audit : Audit) : Prop :=
  ∀ (n m : Nat) (attempt : Attempt),
    (audit.attempts.filter fun attempt => attempt.selection = n)[m]? = some attempt →
    audit.selected[n]? = some attempt.goal ∧ attempt.index = m ∧ clauses[m]? = some attempt.clause

/-- The first steps of the search, so many of them, find these answers and leave this session: what
was minted and recorded is due to the attempts made in them, and these are at the clauses from the
first one on for every goal. -/
structure TriesInOrder (clauses : List Clause) (search : Search) (before : Session) (steps : Nat)
    (answers : List Subst) (after : Session) : Prop where
  answers_eq : (search.watch steps before).results.map Prod.fst = answers
  session_eq : (audit search before steps).session = after
  paid : (audit search before steps).Paid before
  inOrder : (audit search before steps).InOrder clauses

/-- The attempts that were made are the first ones of those in the ledger. -/
theorem Audit.Balanced.inOrder {audit : Audit}
    (balanced : Balanced database audit.selected (audit.ledger database)) :
    audit.InOrder database.newestFirst := by
  intro n m attempt found
  obtain ⟨made, chosen⟩ := List.mem_filter.mp (List.mem_of_getElem? found)
  have inside : n < audit.selected.length :=
    of_decide_eq_true chosen ▸ balanced.numbered attempt (List.mem_append_left _ made)
  have whole := balanced.whole n inside
  rw [ledger, List.filter_append] at whole
  have within := (List.getElem?_eq_some_iff.mp found).1
  have known : (Attempt.all database n audit.selected[n])[m]? = some attempt := by
    rw [← whole, List.getElem?_append_left within, found]
  rw [Attempt.getElem?_all, Option.map_eq_some_iff] at known
  obtain ⟨clause, tried, rfl⟩ := known
  exact ⟨List.getElem?_eq_getElem inside, rfl, Database.nthNewest?_eq database m ▸ tried⟩

/-- A search tries the clauses from the newest to the oldest for every goal. -/
theorem Opens.triesInOrder (opens : Opens database goals start search) (session : Session)
    (steps : Nat) :
    TriesInOrder database.newestFirst search session steps
      ((watch steps search session).results.map Prod.fst) (watch steps search session).session := by
  obtain ⟨paid, balanced⟩ := opens.audited session steps
  exact ⟨rfl, (audit_eq_watch search session steps).2, paid, balanced.inOrder⟩

/-! ## The steps that collecting takes -/

/-- The number of steps taken to collect answers, which ends with the last one that the limit
allows, without work, or with the steps that may be taken. -/
def taken : Nat → Option Nat → Search → Session → Nat
  | _, some 0, _, _ => 0
  | 0, _, _, _ => 0
  | steps + 1, limit, search, session =>
      match search.step session with
      | .exhausted => 0
      | .found _ search => taken steps (limit.map (· - 1)) search session + 1
      | .working search session => taken steps limit search session + 1

@[simp] theorem taken_zero (steps : Nat) (search : Search) (session : Session) :
    taken steps (some 0) search session = 0 := by
  cases steps <;> rfl

/-- No more steps are taken than may be. -/
theorem taken_le (steps : Nat) (limit : Option Nat) (search : Search) (session : Session) :
    taken steps limit search session ≤ steps := by
  by_cases enough : limit = some 0
  · simp [enough]
  induction steps generalizing limit search session with
  | zero => simp [taken]
  | succ steps ih =>
      simp only [taken]
      cases search.step session with
      | exhausted => exact Nat.zero_le _
      | found answer rest =>
          by_cases last : limit.map (· - 1) = some 0
          · simp [last]
          · exact Nat.succ_le_succ (ih _ rest session last)
      | working rest after => exact Nat.succ_le_succ (ih limit rest after enough)

/-- Collecting answers is to take that many steps and to see what they find. -/
theorem watch_taken (steps : Nat) (limit : Option Nat) (search : Search) (session : Session) :
    let seen := watch (taken steps limit search session) search session
    let collected := collect steps limit search session
    seen.results.map Prod.fst = collected.answers ∧ seen.search = collected.search ∧
      seen.session = collected.session := by
  by_cases enough : limit = some 0
  · simp [enough, watch]
  induction steps generalizing limit search session with
  | zero => simp [taken, watch, collect]
  | succ steps ih =>
      simp only [taken, collect]
      cases step : search.step session with
      | exhausted => simp [watch]
      | found answer rest =>
          simp only [watch, step, List.map_cons]
          by_cases last : limit.map (· - 1) = some 0
          · simp [last, watch]
          · obtain ⟨answers, left, reached⟩ := ih _ rest session last
            exact ⟨congrArg (List.cons answer) answers, left, reached⟩
      | working rest after =>
          simp only [watch, step]
          exact ih limit rest after enough

/-- To search for the next answer is to collect one. -/
theorem session_collect_one (steps : Nat) (search : Search) (session : Session) :
    (collect steps (some 1) search session).session = (pull steps search session).session := by
  induction steps generalizing search session with
  | zero => rfl
  | succ steps ih =>
      simp only [collect, pull]
      cases search.step session with
      | exhausted => rfl
      | found answer rest => simp
      | working rest after => exact ih rest after

theorem Opens.triesInOrder_collect (opens : Opens database goals start search) (steps : Nat)
    (limit : Option Nat) (session : Session) :
    TriesInOrder database.newestFirst search session (taken steps limit search session)
      (collect steps limit search session).answers
      (collect steps limit search session).session := by
  obtain ⟨answers, _, reached⟩ := watch_taken steps limit search session
  have tries := opens.triesInOrder session (taken steps limit search session)
  rwa [answers, reached] at tries

end Search

namespace Query

variable {query : Query} {database : Database} {steps : Nat} {session : Session}

/-- What is found for a query is found in the steps that its search takes up to the limit. -/
theorem triesInOrder_found (query : Query) (database : Database) (steps : Nat)
    (session : Session) :
    let search := query.search database
    let found := query.found database steps session
    search.TriesInOrder database.newestFirst (query.opened session)
      (search.taken steps query.limit (query.opened session)) found.answers found.session :=
  have opens : Search.Opens database query.goals .empty (query.search database) := .all
  opens.triesInOrder_collect steps query.limit (query.opened session)

/-- To ask takes the steps up to the first answer, and leaves what they leave. -/
theorem triesInOrder_ask (query : Query) (database : Database) (steps : Nat) (session : Session) :
    let search := query.search database
    search.TriesInOrder database.newestFirst session (search.taken steps (some 1) session)
      (search.collect steps (some 1) session).answers (query.ask database steps session).2 := by
  intro search
  have opens : Search.Opens database query.goals .empty search := .all
  have left : (query.ask database steps session).2 = (search.pull steps session).session := by
    simp only [ask]
    split <;> rfl
  rw [left, ← Search.session_collect_one]
  exact opens.triesInOrder_collect steps (some 1) session

end Query

end Horn
