import Mathlib.Data.List.DropRight
import Horn.Proofs.TryingOrder

/-!
# Changes of a database

What a database holds after any changes, refused ones among them: the clauses that were accepted
since it was last cleared, in the order of their declaration (`Change.declared_afterAll`). The log
names each of them under its index (`Change.events_afterAll`), and goals are tried against them in
the opposite order, as in a database that is newly made of them
(`Database.holds_what_was_declared`).

A database may be handed to an engine and taken back at any time. An engine hands changes on to the
database that it holds, so that it does not matter who is asked for them
(`Change.after_of_ne_clear`).
-/

namespace Horn

/-! ## Changes -/

/-- Where clauses are kept: in a database, or in an engine that holds one. -/
inductive Store where
  | alone (database : Database)
  | held (engine : Engine)

namespace Store

/-- The database of the store. -/
def database : Store → Database
  | .alone database => database
  | .held engine => engine.database

/-- A database newly made of clauses, with the session as it is then. -/
def ofList (clauses : List Clause) (session : Session) : Store × Session :=
  let (database, session) := Database.ofList clauses session
  (.alone database, session)

/-- What was done to a store and is not refused. -/
def done {α : Type} (store : α → Store) (changed : α × Session) :
    Except Error Unit × Store × Session :=
  (.ok (), store changed.1, changed.2)

/-- What was tried with a store. -/
def tried {α : Type} (store : α → Store) (changed : Except Error Unit × α × Session) :
    Except Error Unit × Store × Session :=
  (changed.1, store changed.2.1, changed.2.2)

end Store

/-- Something to do to a store: to change what it holds, to hand its database to an engine, or to
take the database back. -/
inductive Change where
  | add (clause : Clause)
  | addFact (head : Term)
  | addRule (head : Term) (body : List Term)
  | addAll (clauses : List Clause)
  | clear
  | enclose
  | release
  deriving DecidableEq

namespace Change

open Store (done tried)

/-- Do it, or refuse it. -/
def perform (change : Change) (store : Store) (session : Session) :
    Except Error Unit × Store × Session :=
  match change, store with
  | .add clause, .alone database => done .alone (database.add clause session)
  | .add clause, .held engine => done .held (engine.add clause session)
  | .addFact head, .alone database => done .alone (database.addFact head session)
  | .addFact head, .held engine => done .held (engine.addFact head session)
  | .addRule head body, .alone database => tried .alone (database.addRule head body session)
  | .addRule head body, .held engine => tried .held (engine.addRule head body session)
  | .addAll clauses, .alone database => done .alone (database.addAll clauses session)
  -- an engine has no way of its own to store several clauses
  | .addAll clauses, .held engine =>
      done (fun database => .held ⟨database⟩) (engine.database.addAll clauses session)
  | .clear, .alone database => done .alone (database.clear session)
  | .clear, .held engine => done .held (engine.clear session)
  | .enclose, store => done .held (⟨store.database⟩, session)
  | .release, store => done .alone (store.database, session)

/-- The store and the session afterwards. -/
def after (change : Change) (state : Store × Session) : Store × Session :=
  (change.perform state.1 state.2).2

/-- The store and the session after changes, one after another. -/
def afterAll (changes : List Change) (state : Store × Session) : Store × Session :=
  changes.foldl (fun state change => change.after state) state

/-- The clauses that are handed in as such, to be stored as they are. -/
def given : Change → List Clause
  | .add clause => [clause]
  | .addAll clauses => clauses
  | _ => []

/-- The clauses that are accepted. -/
def accepted : Change → List Clause
  | .add clause => [clause]
  | .addFact head => [.fact head]
  | .addRule _ [] => []
  | .addRule head body => [.rule head body]
  | .addAll clauses => clauses
  | .clear | .enclose | .release => []

/-- The clauses that were accepted since the last time that the database was cleared. -/
def kept (changes : List Change) : List Clause :=
  (changes.rtakeWhile (· ≠ .clear)).flatMap accepted

theorem kept_concat (changes : List Change) (change : Change) :
    kept (changes ++ [change]) =
      if change = .clear then [] else kept changes ++ change.accepted := by
  by_cases cleared : change = .clear <;> simp [kept, cleared]

theorem kept_singleton (start : List Clause) : kept [.addAll start] = start := by
  simp [kept, accepted, List.rtakeWhile]

end Change

/-- The lines for clauses that are stored one after another, the first of them under this index. -/
def Event.declarations (first : Nat) (clauses : List Clause) : List Event :=
  (clauses.zipIdx first).map fun (clause, index) => .stored index clause

theorem Event.declarations_append (first : Nat) (clauses more : List Clause) :
    declarations first (clauses ++ more) =
      declarations first clauses ++ declarations (first + clauses.length) more := by
  simp [declarations, List.zipIdx_append]

/-- What a change writes to the log when so many clauses are stored. -/
def Change.lines (size : Nat) : Change → List Event
  | .clear => [.cleared size]
  | change => Event.declarations size change.accepted

@[simp] theorem Session.events_record (session : Session) (event : Event) :
    (session.record event).events = session.events ++ [event] := by
  simp [events, record]

namespace Database

variable {database : Database} {session : Session}

/-- A database is determined by its clauses. -/
@[ext] theorem ext {one two : Database} (same : one.declared = two.declared) : one = two := by
  cases one
  cases two
  exact congrArg mk (Array.toList_inj.mp same)

theorem events_addAll (database : Database) (clauses : List Clause) (session : Session) :
    (database.addAll clauses session).2.events =
      session.events ++ Event.declarations database.size clauses := by
  induction clauses generalizing database session with
  | nil => simp [addAll, Event.declarations]
  | cons clause clauses ih =>
      have grown : (database.add clause session).1.size = database.size + 1 := by
        simp [← length_declared]
      have stored : (database.add clause session).2.events =
          session.events ++ [.stored database.size clause] := by
        simp [add]
      simp only [addAll, ih, grown, stored]
      simp [Event.declarations]

theorem nextVar_addAll (database : Database) (clauses : List Clause) (session : Session) :
    (database.addAll clauses session).2.nextVar = session.nextVar := by
  induction clauses generalizing database session with
  | nil => rfl
  | cons clause clauses ih => simp [addAll, ih, add]

/-- The database is, for all that can be read from it, a list of clauses, the oldest first. -/
structure Lists (database : Database) (clauses : List Clause) : Prop where
  declared_eq : database.declared = clauses
  newestFirst_eq : database.newestFirst = clauses.reverse
  size_eq : database.size = clauses.length
  nthNewest?_eq : ∀ n, database.nthNewest? n = clauses.reverse[n]?
  nthNewest?_eq_none_iff : ∀ n, database.nthNewest? n = none ↔ clauses.length ≤ n

theorem lists_declared (database : Database) : database.Lists database.declared where
  declared_eq := rfl
  newestFirst_eq := rfl
  size_eq := rfl
  nthNewest?_eq := database.nthNewest?_eq
  nthNewest?_eq_none_iff _ := nthNewest?_eq_none_iff

end Database

namespace Change

variable {change : Change} {store : Store} {session : Session} {error : Error}
variable {state : Store × Session}

/-! ## One change -/

/-- All that is refused is a rule that has nothing to prove. -/
theorem perform_eq_error_iff :
    (change.perform store session).1 = .error error ↔
      ∃ head, change = .addRule head [] ∧ error = .emptyBody head := by
  cases change with
  | addRule head body =>
      cases store <;> cases body <;>
        simp [perform, Store.tried, Engine.addRule, Database.addRule, Clause.rule?, eq_comm]
  | _ => cases store <;> simp [perform, Store.done]

/-- What is refused leaves the store and the session as they were. -/
theorem after_of_error (refused : (change.perform state.1 state.2).1 = .error error) :
    change.after state = state := by
  obtain ⟨head, rfl, rfl⟩ := perform_eq_error_iff.mp refused
  obtain ⟨_ | _, session⟩ := state <;> rfl

/-- To change a database is to clear it or to store what is accepted, be it nothing. -/
theorem after_of_ne_clear (kind : change ≠ .clear) (state : Store × Session) :
    let stored := state.1.database.addAll change.accepted state.2
    (change.after state).1.database = stored.1 ∧ (change.after state).2 = stored.2 := by
  obtain ⟨_ | _, session⟩ := state <;> cases change with
  | addRule head body => cases body <;> exact ⟨rfl, rfl⟩
  | clear => exact absurd rfl kind
  | _ => exact ⟨rfl, rfl⟩

theorem after_clear (state : Store × Session) :
    (Change.clear.after state).1.database = .empty ∧
      (Change.clear.after state).2 = state.2.record (.cleared state.1.database.size) := by
  obtain ⟨_ | _, session⟩ := state <;> exact ⟨rfl, rfl⟩

theorem lines_of_ne_clear (kind : change ≠ .clear) (size : Nat) :
    change.lines size = Event.declarations size change.accepted := by
  cases change with
  | clear => exact absurd rfl kind
  | _ => rfl

theorem declared_after (change : Change) (state : Store × Session) :
    (change.after state).1.database.declared =
      if change = .clear then [] else state.1.database.declared ++ change.accepted := by
  split
  next cleared =>
    subst cleared
    rw [(after_clear state).1, Database.declared_empty]
  next kind => rw [(after_of_ne_clear kind state).1, Database.declared_addAll]

theorem events_after (change : Change) (state : Store × Session) :
    (change.after state).2.events = state.2.events ++ change.lines state.1.database.size := by
  by_cases kind : change = .clear
  · subst kind
    rw [(after_clear state).2]
    exact state.2.events_record _
  · rw [(after_of_ne_clear kind state).2, Database.events_addAll, lines_of_ne_clear kind]

theorem nextVar_after (change : Change) (state : Store × Session) :
    (change.after state).2.nextVar = state.2.nextVar := by
  by_cases kind : change = .clear
  · subst kind
    rw [(after_clear state).2, Session.nextVar_record]
  · rw [(after_of_ne_clear kind state).2, Database.nextVar_addAll]

/-- A clause has the index under which it is logged. -/
theorem getElem?_declared_after {index : Nat} {clause : Clause}
    (logged : .stored index clause ∈ change.lines state.1.database.size) :
    (change.after state).1.database.declared[index]? = some clause := by
  by_cases kind : change = .clear
  · subst kind
    cases List.mem_singleton.mp logged
  · rw [lines_of_ne_clear kind, Event.declarations, List.mem_map] at logged
    obtain ⟨⟨_, _⟩, member, ⟨⟩⟩ := logged
    obtain ⟨beyond, found⟩ := List.mk_mem_zipIdx_iff_le_and_getElem?_sub.mp member
    rw [declared_after, if_neg kind, List.getElem?_append_right (by simpa using beyond)]
    simpa using found

/-! ## All changes -/

theorem afterAll_concat (changes : List Change) (change : Change) (state : Store × Session) :
    afterAll (changes ++ [change]) state = change.after (afterAll changes state) := by
  simp [afterAll]

/-- A database holds what was accepted since it was last cleared. -/
theorem declared_afterAll (start : List Clause) (session : Session) (changes : List Change) :
    (afterAll changes (Store.ofList start session)).1.database.declared =
      kept (.addAll start :: changes) := by
  induction changes using List.reverseRecOn with
  | nil =>
      rw [kept_singleton]
      exact Database.declared_ofList start session
  | append_singleton changes change ih =>
      rw [afterAll_concat, declared_after, ih, ← List.cons_append, kept_concat]

theorem nextVar_afterAll (start : List Clause) (session : Session) (changes : List Change) :
    (afterAll changes (Store.ofList start session)).2.nextVar = session.nextVar := by
  induction changes using List.reverseRecOn with
  | nil => exact Database.nextVar_addAll _ _ _
  | append_singleton changes change ih => rw [afterAll_concat, nextVar_after, ih]

/-- The log ends with the clauses that are kept, each under its index. Nothing stands before them,
or a line that the database was cleared. -/
theorem events_afterAll (start : List Clause) (session : Session) (changes : List Change) :
    ∃ earlier, (afterAll changes (Store.ofList start session)).2.events =
        session.events ++ (earlier ++ Event.declarations 0 (kept (.addAll start :: changes))) ∧
      (earlier = [] ∨ ∃ before size, earlier = before ++ [.cleared size]) := by
  induction changes using List.reverseRecOn with
  | nil =>
      refine ⟨[], ?_, .inl rfl⟩
      rw [kept_singleton, List.nil_append]
      exact Database.events_addAll .empty start session
  | append_singleton changes change ih =>
      obtain ⟨earlier, events, opened⟩ := ih
      have size := congrArg List.length (declared_afterAll start session changes)
      rw [Database.length_declared] at size
      rw [afterAll_concat, events_after, events, size, ← List.cons_append, kept_concat]
      generalize kept (.addAll start :: changes) = before
      by_cases kind : change = .clear
      · subst kind
        refine ⟨earlier ++ Event.declarations 0 before ++ [.cleared before.length], ?_,
          .inr ⟨_, _, rfl⟩⟩
        simp [lines, Event.declarations]
      · refine ⟨earlier, ?_, opened⟩
        rw [if_neg kind, lines_of_ne_clear kind, Event.declarations_append, Nat.zero_add]
        simp only [List.append_assoc]

end Change

/-! ## Rules with a body -/

/-- The clauses that can be made: facts, rules that are not refused, and copies. -/
inductive Clause.Made : Clause → Prop where
  | fact (head : Term) : Made (.fact head)
  | rule {head : Term} {body : List Term} {clause : Clause} :
      rule? head body = .ok clause → Made clause
  | rename {clause : Clause} (next : Nat) : Made clause → Made (clause.rename next).1

theorem Clause.Made.ne_rule_nil {clause : Clause} (made : clause.Made) (head : Term) :
    clause ≠ .rule head [] := by
  induction made generalizing head with
  | fact => nofun
  | @rule _ body _ accepted =>
      cases body with
      | nil => cases accepted
      | cons goal rest =>
          cases accepted
          nofun
  | @rename clause next _ ih =>
      rw [rename_eq]
      cases clause with
      | fact => nofun
      | rule head body =>
          intro same
          have empty : body = [] := by simpa [instantiate] using congrArg Clause.body same
          exact ih head (by rw [empty])

namespace Change

/-- What is accepted was handed in, or is made of the parts that were. -/
theorem made_of_mem_accepted {change : Change} (given : ∀ clause ∈ change.given, clause.Made)
    {clause : Clause} (member : clause ∈ change.accepted) : clause.Made := by
  cases change with
  | add _ => exact given clause member
  | addFact head =>
      cases List.mem_singleton.mp member
      exact .fact head
  | addRule head body =>
      cases body with
      | nil => cases member
      | cons goal rest =>
          cases List.mem_singleton.mp member
          have accepted : Clause.rule? head (goal :: rest) = .ok (.rule head (goal :: rest)) := rfl
          exact .rule accepted
  | addAll _ => exact given clause member
  | clear | enclose | release => cases member

theorem made_of_mem_kept {changes : List Change}
    (given : ∀ change ∈ changes, ∀ clause ∈ change.given, clause.Made) {clause : Clause}
    (member : clause ∈ kept changes) : clause.Made := by
  obtain ⟨change, recent, accepted⟩ := List.mem_flatMap.mp member
  have done := (List.rtakeWhile_suffix _ _).subset recent
  exact made_of_mem_accepted (given change done) accepted

end Change

/-! ## Histories -/

namespace Database

/-- Let a database be made of some clauses, or of none, and changed in any ways, by itself or
through engines that it is handed to. It lists the clauses that were accepted since it was last
cleared, in the order of their declaration. No identity was minted, and the log ends with these
clauses under their indices, back to where the database was cleared or made.

Whatever is done next, a clause that is accepted is logged under the index that it has then. All
that is refused is a rule that has nothing to prove, and this leaves the database and the session
as they were; there is no such rule in the database if clauses come from where they can be made.

The database is the one that is newly made of what it lists, so that an engine over it cannot be
told from one over that. Searches try its clauses from the newest to the oldest for every goal, and
so do queries in the steps that their searches take. -/
theorem holds_what_was_declared (start : List Clause) (session : Session)
    (changes : List Change) :
    let state := Change.afterAll changes (Store.ofList start session)
    let database := state.1.database
    let kept := Change.kept (.addAll start :: changes)
    database.Lists kept ∧
    (state.2.nextVar = session.nextVar ∧ ∃ earlier,
      state.2.events = session.events ++ (earlier ++ Event.declarations 0 kept) ∧
      (earlier = [] ∨ ∃ before size, earlier = before ++ [.cleared size])) ∧
    (∀ change : Change,
      (change.after state).2.nextVar = session.nextVar ∧
      (change.after state).2.events = state.2.events ++ change.lines database.size ∧
      (∀ index clause, .stored index clause ∈ change.lines database.size →
        (change.after state).1.database.declared[index]? = some clause) ∧
      ∀ error, (change.perform state.1 state.2).1 = .error error ↔
        ∃ head, change = .addRule head [] ∧ error = .emptyBody head) ∧
    (∀ head, (Change.addRule head []).perform state.1 state.2 =
      (.error (.emptyBody head), state)) ∧
    ((∀ clause ∈ start, clause.Made) →
      (∀ change ∈ changes, ∀ clause ∈ change.given, clause.Made) →
      ∀ head, .rule head [] ∉ database.declared) ∧
    (∀ other, (ofList database.declared other).1 = database ∧
      ∀ engine : Engine, engine.database = database →
        ∀ (query : Query) (steps : Nat) (later : Session),
          engine.query query steps later =
            (Engine.mk (ofList database.declared other).1).query query steps later ∧
          engine.ask query steps later =
            (Engine.mk (ofList database.declared other).1).ask query steps later) ∧
    (∀ {goals subst search}, Search.Opens database goals subst search →
      ∀ steps later, search.TriesInOrder kept.reverse later steps
        ((search.watch steps later).results.map Prod.fst) (search.watch steps later).session) ∧
    ∀ engine : Engine, engine.database = database →
      ∀ (query : Query) (steps : Nat) (later : Session),
        let search := query.search database
        let found := query.found database steps later
        let opened := query.opened later
        (query.limit ≠ some 0 →
          engine.query query steps later =
            ⟨.ok (found.answers.map query.report), found.finished,
              if found.finished then found.session.record (.answered found.answers.length)
              else found.session⟩ ∧
          search.TriesInOrder kept.reverse opened (search.taken steps query.limit opened)
            found.answers found.session) ∧
        search.TriesInOrder kept.reverse later (search.taken steps (some 1) later)
          (search.collect steps (some 1) later).answers (engine.ask query steps later).2 := by
  intro state database kept
  have declared : database.declared = kept := Change.declared_afterAll start session changes
  have minted := Change.nextVar_afterAll start session changes
  have order : database.newestFirst = kept.reverse := congrArg List.reverse declared
  have fresh : ∀ other, (ofList database.declared other).1 = database := by
    intro other
    apply ext
    rw [declared_ofList]
  have logged := Change.events_afterAll start session changes
  have lists : database.Lists kept := declared ▸ database.lists_declared
  refine ⟨lists, ⟨minted, logged⟩, ?_, ?_, ?_, ?_, ?_, ?_⟩
  · intro change
    exact ⟨(Change.nextVar_after change state).trans minted, Change.events_after change state,
      fun _ _ => Change.getElem?_declared_after, fun _ => Change.perform_eq_error_iff⟩
  · intro head
    have refused : ((Change.addRule head []).perform state.1 state.2).1 =
        .error (.emptyBody head) := Change.perform_eq_error_iff.mpr ⟨head, rfl, rfl⟩
    exact Prod.ext refused (Change.after_of_error refused)
  · intro startMade givenMade head member
    have made : ∀ change ∈ Change.addAll start :: changes, ∀ clause ∈ change.given, clause.Made :=
      List.forall_mem_cons.mpr ⟨startMade, givenMade⟩
    rw [declared] at member
    exact (Change.made_of_mem_kept made member).ne_rule_nil head rfl
  · intro other
    refine ⟨fresh other, ?_⟩
    rintro ⟨held⟩ same query steps later
    rw [fresh other, ← same]
    exact ⟨rfl, rfl⟩
  · intro goals subst search opens steps later
    exact order ▸ opens.triesInOrder later steps
  · rintro ⟨held⟩ rfl query steps later search found opened
    constructor
    · intro positive
      exact ⟨Query.run_of_limit_ne_zero positive database steps later,
        order ▸ query.triesInOrder_found database steps later⟩
    · exact order ▸ query.triesInOrder_ask database steps later

/-- A database of the fact `a` gets the fact `b`, is handed to an engine and cleared there, and
gets the fact `c`, and, taken back, `a` again and the rule that `b` holds if `a` does. Two rules
without a body are refused in between. The search for `b` tries the rule first, and then `a` and
`c`, in nine steps. -/
theorem holds_what_was_declared_cleared :
    let a := Term.symbol "a"
    let b := Term.symbol "b"
    let c := Term.symbol "c"
    let rule := Clause.rule b [a]
    let changes : List Change := [.addRule a [], .add (.fact b), .enclose, .clear, .addFact c,
      .addRule b [], .release, .addAll [.fact a, rule]]
    let state := Change.afterAll changes (Store.ofList [.fact a] ⟨5, []⟩)
    let database := state.1.database
    let engine : Engine := ⟨database⟩
    let query : Query := ⟨[b], [], none, true⟩
    let search := query.search database
    let found := query.found database 10 state.2
    database.Lists [.fact c, .fact a, rule] ∧ state.2.nextVar = 5 ∧
      state.2.events = [.stored 0 (.fact a), .stored 1 (.fact b), .cleared 2, .stored 0 (.fact c),
        .stored 1 (.fact a), .stored 2 rule] ∧
      (Change.addRule b []).perform state.1 state.2 = (.error (.emptyBody b), state) ∧
      (∀ head, .rule head [] ∉ database.declared) ∧
      engine.query query 10 state.2 =
        (Engine.mk (ofList database.declared .start).1).query query 10 state.2 ∧
      engine.query query 10 state.2 =
        ⟨.ok [⟨[]⟩], true, found.session.record (.answered 1)⟩ ∧
      search.TriesInOrder [rule, .fact a, .fact c] (query.opened state.2) 9 found.answers
        found.session := by
  intro a b c rule changes state database engine query search found
  have accepted : Clause.rule? b [a] = .ok rule := rfl
  have startMade : ∀ clause ∈ [Clause.fact a], clause.Made :=
    List.forall_mem_singleton.mpr (.fact a)
  have givenMade : ∀ change ∈ changes, ∀ clause ∈ change.given, clause.Made := by
    simp [changes, Change.given, Clause.Made.fact, Clause.Made.rule accepted]
  obtain ⟨lists, ⟨minted, _⟩, _, refuses, bodies, fresh, _, tries⟩ :=
    holds_what_was_declared [.fact a] ⟨5, []⟩ changes
  have same := ((fresh .start).2 engine rfl query 10 state.2).1
  obtain ⟨ran, inOrder⟩ := (tries engine rfl query 10 state.2).1 (by simp [query])
  exact ⟨lists, minted, rfl, refuses b, bodies startMade givenMade, same, ran, inOrder⟩

end Database

end Horn
