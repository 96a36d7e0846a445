import Horn.Proofs.Finishing

/-!
# Limits

A query with a limit takes the first answers of the lazy search and stops with the last one
that is wanted. What it leaves behind is what the call for that answer left: nothing is tried
after it, so that a limited query ends also where the search alone would not. To ask whether
there is a proof is to look for the first answer only.

`limits_cut_lazily` says so call by call. A run with a limit ends where the call of that number
is known (`collects_iff_watch`), and the lines that a query writes before and after the search
change nothing in between (`Collects.since`).
-/

namespace Horn

/-- The query returns these solutions, given enough steps, and leaves this session. -/
def Query.Returns (query : Query) (database : Database) (session : Session)
    (solutions : List Solution) (after : Session) : Prop :=
  ∃ steps, query.run database steps session = ⟨.ok solutions, true, after⟩

/-- Asking returns, given enough steps, whether there is a proof, and leaves this session. -/
def Query.Decides (query : Query) (database : Database) (session : Session) (proved : Bool)
    (after : Session) : Prop :=
  ∃ steps, query.ask database steps session = (some proved, after)

/-- A query leaves what the calls for its answers leave, and around the attempts recorded by
them the line with which it begins and the line with which it ends. -/
structure Query.Leaves (query : Query) (session called : Session) (count : Nat)
    (after : Session) : Prop where
  nextVar : after.nextVar = called.nextVar
  log : ∃ attempts, called.log = attempts ++ session.log ∧
    after.log = .answered count :: (attempts ++
      .asked query.goals.length query.selected.length query.limit :: session.log)

/-- Since the logs were these, the same events were recorded, and the same identities are
left. -/
structure Session.Since (older olderToo : List Event) (one two : Session) : Prop where
  nextVar : two.nextVar = one.nextVar
  log : ∃ events, one.log = events ++ older ∧ two.log = events ++ olderToo

namespace Listing

variable {listing : Listing} {n m : Nat} {answer : Subst} {after : Session}

theorem nth?_eq_found_iff :
    listing.nth? n = some (some answer, after) ↔ listing.results[n]? = some (answer, after) := by
  cases found : listing.results[n]? with
  | none => by_cases complete : listing.complete <;> simp [nth?, found, complete]
  | some result => simp [nth?, found, Prod.ext_iff]

theorem nth?_eq_none_iff :
    listing.nth? n = some (none, after) ↔
      listing.complete = true ∧ listing.results.length ≤ n ∧ listing.session = after := by
  cases found : listing.results[n]? with
  | none =>
      have beyond := List.getElem?_eq_none_iff.mp found
      by_cases complete : listing.complete <;> simp [nth?, complete, beyond]
  | some result =>
      have within := (List.getElem?_eq_some_iff.mp found).1
      simp [nth?, within]

/-- Once all results are known, so are all calls. -/
theorem exists_nth?_of_complete (complete : listing.complete = true) (n : Nat) :
    ∃ call, listing.nth? n = some call := by
  cases found : listing.results[n]? with
  | some result => exact ⟨(some result.1, result.2), by simp [nth?, found]⟩
  | none => exact ⟨(none, listing.session), by simp [nth?, found, complete]⟩

/-- If a call is known then so are those before it. -/
theorem exists_nth?_of_le {known : Option Subst × Session} (seen : listing.nth? m = some known)
    (before : n ≤ m) : ∃ call, listing.nth? n = some call := by
  rcases known with ⟨_ | answer, after⟩
  · exact exists_nth?_of_complete (nth?_eq_none_iff.mp seen).1 n
  · have within := (List.getElem?_eq_some_iff.mp (nth?_eq_found_iff.mp seen)).1
    have found := List.getElem?_eq_getElem (before.trans_lt within)
    exact ⟨_, nth?_eq_found_iff.mpr found⟩

end Listing

namespace Session.Since

variable {older olderToo : List Event} {one two : Session}

theorem copyOf_eq (since : Since older olderToo one two) (clause : Clause) :
    two.copyOf clause = one.copyOf clause := by
  simp only [copyOf, since.nextVar]

theorem symm (since : Since older olderToo one two) : Since olderToo older two one := by
  rcases since.log with ⟨events, log, logToo⟩
  exact ⟨since.nextVar.symm, events, logToo, log⟩

theorem attempt (since : Since older olderToo one two) (goal : Term) (index : Nat)
    (clause : Clause) (unified : Bool) :
    Since older olderToo (one.attempt goal index clause unified)
      (two.attempt goal index clause unified) := by
  rcases since.log with ⟨events, log, logToo⟩
  exact ⟨congrArg (· + clause.vars.length) since.nextVar,
    .attempted goal index clause unified :: events, by simp [Session.attempt, log],
    by simp [Session.attempt, logToo]⟩

end Session.Since

namespace Search

variable {database : Database} {search : Search} {frames later : List Frame}
variable {session sessionToo after afterToo : Session} {answer result : Option Subst}
variable {answers : List Subst} {n : Nat}

/-! ## Collecting with a limit -/

@[simp] theorem Watch.results_listing (seen : Watch) : seen.listing.results = seen.results := rfl

/-- Collecting at most as many answers as the limit says comes to its end with these. -/
def Collects (limit : Option Nat) (search : Search) (session : Session) (answers : List Subst)
    (after : Session) : Prop :=
  ∃ steps rest, collect steps limit search session = ⟨answers, true, rest, after⟩

@[simp] theorem collect_zero (steps : Nat) (search : Search) (session : Session) :
    collect steps (some 0) search session = ⟨[], true, search, session⟩ := by
  cases steps <;> rfl

/-- Where collecting with a limit has come to its end, the result of the last call that is
wanted is known. -/
theorem Collects.exists_watch (collects : Collects (some (n + 1)) search session answers after) :
    ∃ steps result, (watch steps search session).listing.nth? n = some (result, after) ∧
      answers = ((watch steps search session).results.take (n + 1)).map Prod.fst := by
  rcases collects with ⟨steps, rest, collected⟩
  induction steps generalizing search session answers n with
  | zero => cases collected
  | succ steps ih =>
      simp only [collect] at collected
      cases step : search.step session with
      | exhausted =>
          simp only [step] at collected
          cases collected
          have empty := frames_eq_nil_of_step step
          exact ⟨0, none, by simp [watch, Watch.listing, Listing.nth?, empty], by simp [watch]⟩
      | found first left =>
          cases n with
          | zero =>
              simp only [step, Option.map_some, Nat.zero_add, Nat.sub_self,
                collect_zero] at collected
              cases collected
              exact ⟨1, some first, by simp [watch, step, Watch.listing, Listing.nth?],
                by simp [watch, step]⟩
          | succ n =>
              cases others : collect steps (some (n + 1)) left session with
              | mk found finished last final =>
              simp only [step, Option.map_some, Nat.add_sub_cancel, others] at collected
              cases collected
              rcases ih others with ⟨more, result, seen, same⟩
              refine ⟨more + 1, result, ?_, ?_⟩
              · simp only [watch, step]
                exact seen
              · simp [watch, step, same]
      | working left next =>
          simp only [step] at collected
          rcases ih collected with ⟨more, result, seen, same⟩
          exact ⟨more + 1, result, by simpa only [watch, step] using seen,
            by simpa only [watch, step] using same⟩

/-- Where the result of a call is known, collecting up to that call comes to its end. -/
theorem collects_of_watch {steps : Nat}
    (seen : (watch steps search session).listing.nth? n = some (answer, after)) :
    Collects (some (n + 1)) search session
      (((watch steps search session).results.take (n + 1)).map Prod.fst) after := by
  induction steps generalizing search session n with
  | zero =>
      cases left : search.frames with
      | nil =>
          simp only [watch, Watch.listing, Listing.nth?, left] at seen
          cases seen
          exact ⟨1, search, by simp [collect, step, left, watch]⟩
      | cons frame below => simp [watch, Watch.listing, Listing.nth?, left] at seen
  | succ steps ih =>
      cases step : search.step session with
      | exhausted =>
          have empty := frames_eq_nil_of_step step
          simp only [watch_of_frames_eq_nil empty, Watch.listing, Listing.nth?, empty] at seen ⊢
          cases seen
          exact ⟨1, search, by simp [collect, step]⟩
      | found first left =>
          simp only [watch, step] at seen ⊢
          cases n with
          | zero =>
              cases seen
              exact ⟨1, left, by simp [collect, step]⟩
          | succ n =>
              rcases ih seen with ⟨more, rest, collected⟩
              exact ⟨more + 1, rest, by simp [collect, step, collected]⟩
      | working left next =>
          simp only [watch, step] at seen ⊢
          rcases ih seen with ⟨more, rest, collected⟩
          exact ⟨more + 1, rest, by simpa only [collect, step] using collected⟩

/-- With a limit, collecting ends as soon as the result of the last call that is wanted is
known. -/
theorem collects_iff_watch :
    Collects (some (n + 1)) search session answers after ↔
      ∃ steps result, (watch steps search session).listing.nth? n = some (result, after) ∧
        answers = ((watch steps search session).results.take (n + 1)).map Prod.fst := by
  constructor
  · exact Collects.exists_watch
  · rintro ⟨steps, result, seen, rfl⟩
    exact collects_of_watch seen

/-- Once collecting has come to its end, more steps change nothing. -/
theorem collect_add_of_finished {steps : Nat} {limit : Option Nat}
    (finished : (collect steps limit search session).finished = true) (more : Nat) :
    collect (steps + more) limit search session = collect steps limit search session := by
  by_cases enough : limit = some 0
  · subst enough
    simp only [collect_zero]
  induction steps generalizing limit search session with
  | zero => simp [collect] at finished
  | succ steps ih =>
      rw [Nat.succ_add]
      simp only [collect] at finished ⊢
      cases step : search.step session with
      | exhausted => rfl
      | found first left =>
          simp only [step] at finished ⊢
          by_cases last : limit.map (· - 1) = some 0
          · simp only [last, collect_zero]
          · simp only [ih finished last]
      | working left next =>
          simp only [step] at finished ⊢
          exact ih finished enough

theorem Collects.unique {limit : Option Nat} {others : List Subst} {last : Session}
    (collects : Collects limit search session answers after)
    (again : Collects limit search session others last) : answers = others ∧ after = last := by
  rcases collects with ⟨steps, rest, collected⟩
  rcases again with ⟨more, left, collectedToo⟩
  have longer := collect_add_of_finished (congrArg Collection.finished collected) more
  have longerToo := collect_add_of_finished (congrArg Collection.finished collectedToo) steps
  rw [Nat.add_comm, longer, collected, collectedToo] at longerToo
  cases longerToo
  exact ⟨rfl, rfl⟩

/-! ## The log does not matter -/

variable {older olderToo : List Event}

/-- A move does not look at the log. -/
theorem Move.since (move : Move database frames session answer later after)
    (since : Session.Since older olderToo session sessionToo) :
    ∃ afterToo, Move database frames sessionToo answer later afterToo ∧
      Session.Since older olderToo after afterToo := by
  cases move with
  | answer => exact ⟨_, .answer, since⟩
  | select => exact ⟨_, .select, since⟩
  | drop absent => exact ⟨_, .drop absent, since⟩
  | @enter goal _ _ _ index _ _ clause found unifies =>
      rw [← since.copyOf_eq] at unifies ⊢
      exact ⟨_, .enter found unifies, since.attempt goal index clause true⟩
  | @skip goal _ _ index _ _ clause found fails =>
      rw [← since.copyOf_eq] at fails
      exact ⟨_, .skip found fails, since.attempt goal index clause false⟩

/-- From sessions that differ in their logs the same answers are collected. -/
theorem collect_since (steps : Nat) (limit : Option Nat) (search : Search)
    (since : Session.Since older olderToo session sessionToo) :
    (collect steps limit search sessionToo).answers = (collect steps limit search session).answers ∧
      (collect steps limit search sessionToo).finished =
        (collect steps limit search session).finished ∧
      Session.Since older olderToo (collect steps limit search session).session
        (collect steps limit search sessionToo).session := by
  by_cases enough : limit = some 0
  · subst enough
    simp only [collect_zero]
    exact ⟨trivial, trivial, since⟩
  induction steps generalizing limit search session sessionToo with
  | zero => simpa [collect] using since
  | succ steps ih =>
      rcases step_eq search session with
        ⟨empty, step⟩ | ⟨found, left, step, move⟩ | ⟨left, between, step, move⟩
      · have stepToo : search.step sessionToo = .exhausted := by simp only [Search.step, empty]
        simpa only [collect, step, stepToo, true_and] using since
      · rcases move.since since with ⟨_, moveToo, _⟩
        have stepToo : search.step sessionToo = .found found ⟨search.database, left⟩ :=
          moveToo.step
        simp only [collect, step, stepToo]
        by_cases last : limit.map (· - 1) = some 0
        · simpa only [last, collect_zero, true_and] using since
        · rcases ih (limit.map (· - 1)) ⟨search.database, left⟩ since last with
            ⟨answers, finished, sinceToo⟩
          exact ⟨congrArg (List.cons found) answers, finished, sinceToo⟩
      · rcases move.since since with ⟨betweenToo, moveToo, sinceToo⟩
        have stepToo : search.step sessionToo = .working ⟨search.database, left⟩ betweenToo :=
          moveToo.step
        simp only [collect, step, stepToo]
        exact ih limit ⟨search.database, left⟩ sinceToo enough

theorem Collects.since {limit : Option Nat}
    (collects : Collects limit search session answers after)
    (since : Session.Since older olderToo session sessionToo) :
    ∃ afterToo, Collects limit search sessionToo answers afterToo ∧
      Session.Since older olderToo after afterToo := by
  rcases collects with ⟨steps, rest, collected⟩
  have same := collect_since steps limit search since
  rw [collected] at same
  rcases same with ⟨answersToo, finished, sinceToo⟩
  refine ⟨_, ⟨steps, (collect steps limit search sessionToo).search, ?_⟩, sinceToo⟩
  generalize collect steps limit search sessionToo = two at answersToo finished ⊢
  cases two
  cases answersToo
  cases finished
  rfl

/-! ## Calls and collections -/

/-- The first calls for an answer return these, one each. -/
def FirstAnswers (search : Search) (session : Session) (answers : List Subst) : Prop :=
  ∀ i (inside : i < answers.length), ∃ between, NthCall search session i (some answers[i]) between

theorem firstAnswers_of_watch (steps wanted : Nat) (search : Search) (session : Session) :
    FirstAnswers search session
      (((watch steps search session).results.take wanted).map Prod.fst) := by
  intro i inside
  have within : i < (watch steps search session).results.length := by
    simp only [List.length_map, List.length_take] at inside
    omega
  refine ⟨(watch steps search session).results[i].2, nthCall_iff_watch.mpr ⟨steps, ?_⟩⟩
  simp [Listing.nth?, Watch.listing, List.getElem?_eq_getElem within]

/-- Where a call has an answer, collecting up to it gives the answers of all calls so far and
leaves what the call leaves. -/
theorem NthCall.collects {found : Subst} (call : NthCall search session n (some found) after) :
    ∃ answers, answers.length = n + 1 ∧ FirstAnswers search session answers ∧
      Collects (some (n + 1)) search session answers after := by
  rcases call.exists_watch with ⟨steps, seen⟩
  have within : n < (watch steps search session).results.length :=
    (List.getElem?_eq_some_iff.mp (Listing.nth?_eq_found_iff.mp seen)).1
  refine ⟨_, ?_, firstAnswers_of_watch steps (n + 1) search session,
    collects_of_watch seen⟩
  rw [List.length_map, List.length_take_of_le (Nat.succ_le_of_lt within)]

/-- Where a call has no answer, the calls before it gave all that there are, and collecting
gives them under every limit that is greater than the number of the call. -/
theorem NthCall.collects_all (call : NthCall search session n none after) :
    ∃ answers, answers.length ≤ n ∧ FirstAnswers search session answers ∧
      NthCall search session answers.length none after ∧
      ∀ limit : Option Nat, (∀ wanted ∈ limit, n < wanted) →
        Collects limit search session answers after := by
  rcases call.exists_watch with ⟨steps, seen⟩
  rcases Listing.nth?_eq_none_iff.mp seen with ⟨complete, few, final⟩
  have first := firstAnswers_of_watch steps n search session
  rw [Watch.results_listing] at few
  rw [List.take_of_length_le few] at first
  refine ⟨_, by simpa using few, first, ?_, ?_⟩
  · rw [List.length_map]
    exact .of_watch (Listing.nth?_eq_none_iff.mpr ⟨complete, Nat.le_refl _, final⟩)
  · intro limit unreached
    cases limit with
    | none => exact finishes_iff_watch.mpr ⟨steps, complete, rfl, final⟩
    | some wanted =>
        have beyond := unreached wanted rfl
        obtain ⟨last, rfl⟩ := Nat.exists_eq_add_one_of_ne_zero (Nat.ne_zero_of_lt beyond)
        have later := few.trans (Nat.le_of_lt_succ beyond)
        refine collects_iff_watch.mpr
          ⟨steps, none, Listing.nth?_eq_none_iff.mpr ⟨complete, later, final⟩, ?_⟩
        rw [List.take_of_length_le (Nat.le_succ_of_le later)]

theorem NthCall.exists_collects (call : NthCall search session n result after) :
    ∃ answers, Collects (some (n + 1)) search session answers after := by
  rcases call.exists_watch with ⟨steps, seen⟩
  exact ⟨_, collects_of_watch seen⟩

theorem Collects.exists_nthCall (collects : Collects (some (n + 1)) search session answers after) :
    ∃ result, NthCall search session n result after := by
  rcases collects_iff_watch.mp collects with ⟨steps, result, seen, _⟩
  exact ⟨result, .of_watch seen⟩

/-- The first call has an answer if one is collected. -/
theorem NthCall.isSome_eq {last : Session} (call : NthCall search session 0 result after)
    (collects : Collects (some 1) search session answers last) :
    result.isSome = !answers.isEmpty := by
  cases result with
  | some found =>
      rcases call.collects with ⟨first, length, _, collectsToo⟩
      rcases collects.unique collectsToo with ⟨rfl, _⟩
      cases answers with
      | nil => cases length
      | cons => rfl
  | none =>
      rcases call.collects_all with ⟨all, few, _, _, collectsToo⟩
      rcases collects.unique (collectsToo (some 1) (by simp)) with ⟨rfl, _⟩
      cases List.eq_nil_of_length_eq_zero (Nat.le_zero.mp few)
      rfl

/-- A smaller limit cuts the answers off. -/
theorem Collects.take {limit : Option Nat} (collects : Collects limit search session answers after)
    (within : ∀ wanted ∈ limit, n + 1 ≤ wanted) :
    ∃ earlier, Collects (some (n + 1)) search session (answers.take (n + 1)) earlier := by
  cases limit with
  | none =>
      rcases finishes_iff_watch.mp collects with ⟨steps, complete, rfl, final⟩
      rcases Listing.exists_nth?_of_complete complete n with ⟨⟨result, earlier⟩, seen⟩
      exact ⟨earlier, collects_iff_watch.mpr ⟨steps, result, seen, List.map_take.symm⟩⟩
  | some wanted =>
      have enough := within wanted rfl
      obtain ⟨last, rfl⟩ := Nat.exists_eq_add_one_of_ne_zero (Nat.ne_zero_of_lt enough)
      rcases collects_iff_watch.mp collects with ⟨steps, result, seen, rfl⟩
      rcases Listing.exists_nth?_of_le seen (Nat.le_of_succ_le_succ enough) with
        ⟨⟨other, earlier⟩, seenEarlier⟩
      refine ⟨earlier, collects_iff_watch.mpr ⟨steps, other, seenEarlier, ?_⟩⟩
      rw [← List.map_take, List.take_take, Nat.min_eq_left enough]

end Search

/-! ## Queries -/

namespace Query

variable {query : Query} {database : Database} {session after last called : Session}
variable {solutions others : List Solution} {answers : List Subst} {proved : Bool}

/-- The search that the query runs. -/
def search (query : Query) (database : Database) : Search :=
  .all database query.goals .empty

/-- What the query reports of an answer. -/
def report (query : Query) (answer : Subst) : Solution :=
  .project answer query.selected query.full

/-- The query with another limit. -/
def limited (query : Query) (limit : Option Nat) : Query :=
  { query with limit }

theorem limited_limit_ne_zero (query : Query) (n : Nat) :
    (query.limited (some (n + 1))).limit ≠ some 0 := by
  simp [limited]

/-- The session in which the query searches. -/
def opened (query : Query) (session : Session) : Session :=
  session.record (.asked query.goals.length query.selected.length query.limit)

/-- What the search finds for the query. -/
def found (query : Query) (database : Database) (steps : Nat) (session : Session) :
    Search.Collection :=
  (query.search database).collect steps query.limit (query.opened session)

/-- A query with a limit of zero is refused and does nothing. -/
theorem run_of_limit_zero (zero : query.limit = some 0) (database : Database) (steps : Nat)
    (session : Session) :
    query.run database steps session = ⟨.error (.invalidLimit 0), true, session⟩ := by
  rw [run, if_pos zero]

/-- Any other query reports what is found, and writes one more line once the search has come to
its end. -/
theorem run_of_limit_ne_zero (positive : query.limit ≠ some 0) (database : Database) (steps : Nat)
    (session : Session) :
    let found := query.found database steps session
    query.run database steps session =
      ⟨.ok (found.answers.map query.report), found.finished,
        if found.finished then found.session.record (.answered found.answers.length)
        else found.session⟩ := by
  intro found
  have reports : (fun answer => Solution.project answer query.selected query.full) =
      query.report := rfl
  have same : (Search.all database query.goals .empty).collect steps query.limit
      (session.record (.asked query.goals.length query.selected.length query.limit)) = found := rfl
  simp only [run, if_neg positive, same, reports, List.length_map]
  cases found.finished <;> rfl

/-- A query with a limit that is not zero returns what is collected. -/
theorem returns_iff (positive : query.limit ≠ some 0) :
    query.Returns database session solutions after ↔
      ∃ answers found,
        Search.Collects query.limit (query.search database) (query.opened session) answers found ∧
        solutions = answers.map query.report ∧
        after = found.record (.answered solutions.length) := by
  constructor
  · rintro ⟨steps, returned⟩
    rw [run_of_limit_ne_zero positive] at returned
    cases collected : query.found database steps session with
    | mk answers finished rest found =>
    simp only [collected, Run.mk.injEq, Except.ok.injEq] at returned
    rcases returned with ⟨rfl, rfl, left⟩
    exact ⟨answers, found, ⟨steps, rest, collected⟩, rfl, by simpa using left.symm⟩
  · rintro ⟨answers, found, ⟨steps, rest, collected⟩, rfl, rfl⟩
    refine ⟨steps, ?_⟩
    have same : query.found database steps session = ⟨answers, true, rest, found⟩ := collected
    rw [run_of_limit_ne_zero positive, same, List.length_map]
    rfl

theorem Returns.limit_ne_zero (returns : query.Returns database session solutions after) :
    query.limit ≠ some 0 := by
  rintro zero
  rcases returns with ⟨steps, returned⟩
  rw [run_of_limit_zero zero] at returned
  cases returned

theorem since_opened (query : Query) (session : Session) :
    Session.Since session.log (query.opened session).log session (query.opened session) :=
  ⟨rfl, [], rfl, rfl⟩

theorem Leaves.of_since {found : Session} {count : Nat}
    (since : Session.Since session.log (query.opened session).log called found) :
    query.Leaves session called count (found.record (.answered count)) := by
  rcases since.log with ⟨attempts, log, logToo⟩
  exact ⟨since.nextVar, attempts, log, by simp [Session.record, logToo, opened]⟩

/-- A query returns what is collected where it is asked. -/
theorem exists_returns (positive : query.limit ≠ some 0)
    (collects : Search.Collects query.limit (query.search database) session answers called) :
    ∃ after, query.Returns database session (answers.map query.report) after ∧
      query.Leaves session called answers.length after := by
  rcases collects.since (query.since_opened session) with ⟨found, collectsToo, since⟩
  refine ⟨_, (returns_iff positive).mpr ⟨answers, found, collectsToo, rfl, rfl⟩, ?_⟩
  rw [List.length_map]
  exact .of_since since

theorem Returns.exists_collects (returns : query.Returns database session solutions after) :
    ∃ answers called, Search.Collects query.limit (query.search database) session answers called ∧
      solutions = answers.map query.report ∧
      query.Leaves session called solutions.length after := by
  rcases (returns_iff returns.limit_ne_zero).mp returns with ⟨answers, found, collects, same, rfl⟩
  rcases collects.since (query.since_opened session).symm with ⟨called, collectsToo, since⟩
  exact ⟨answers, called, collectsToo, same, .of_since since.symm⟩

theorem Returns.unique (returns : query.Returns database session solutions after)
    (again : query.Returns database session others last) : solutions = others ∧ after = last := by
  have positive := returns.limit_ne_zero
  rcases (returns_iff positive).mp returns with ⟨answers, found, collects, rfl, rfl⟩
  rcases (returns_iff positive).mp again with ⟨answersToo, foundToo, collectsToo, rfl, rfl⟩
  rcases collects.unique collectsToo with ⟨rfl, rfl⟩
  exact ⟨rfl, rfl⟩

/-- To ask is to call once. -/
theorem decides_iff :
    query.Decides database session proved called ↔
      ∃ result, Search.NthCall (query.search database) session 0 result called ∧
        proved = result.isSome := by
  constructor
  · rintro ⟨steps, asked⟩
    cases pulled : (query.search database).pull steps session with
    | mk outcome rest final =>
    simp only [search] at pulled
    simp only [ask, pulled] at asked
    cases outcome with
    | found answer =>
        cases asked
        exact ⟨some answer, .first (.found pulled), rfl⟩
    | exhausted =>
        cases asked
        exact ⟨none, .first (.exhausted pulled), rfl⟩
    | unfinished => cases asked
  · rintro ⟨result, call, rfl⟩
    cases call with
    | first call =>
    cases call with
    | @found steps _ _ _ pulled =>
        simp only [search] at pulled
        exact ⟨steps, by simp [ask, pulled]⟩
    | @exhausted steps _ _ pulled =>
        simp only [search] at pulled
        exact ⟨steps, by simp [ask, pulled]⟩

/-- There is a proof exactly if something is collected with the limit one, and both leave the
same session. -/
theorem decides_iff_collects :
    query.Decides database session proved called ↔
      ∃ answers, Search.Collects (some 1) (query.search database) session answers called ∧
        proved = !answers.isEmpty := by
  rw [decides_iff]
  constructor
  · rintro ⟨result, call, rfl⟩
    rcases call.exists_collects with ⟨answers, collects⟩
    exact ⟨answers, collects, call.isSome_eq collects⟩
  · rintro ⟨answers, collects, rfl⟩
    rcases collects.exists_nthCall with ⟨result, call⟩
    exact ⟨result, call, (call.isSome_eq collects).symm⟩

/-- A query gives the first answers of the lazy search, and no more than its limit allows. Where
the call for the last answer that is wanted has an answer, the query with this limit reports
the answers of the calls so far and leaves what that call leaves, whatever the search would do
after it. Where a call before it has none, the limit makes no difference: the query reports all
answers, as it does without a limit. So what a query with a smaller limit returns is cut off
from what a query with a greater one returns. To ask returns whether a query with the limit one
has a solution, and leaves what that query leaves, whatever limit there is; and a limit of zero
is refused before the search takes a step and before a line is written. -/
theorem limits_cut_lazily (query : Query) (database : Database) (session : Session) :
    let search := Search.all database query.goals .empty
    (∀ n answer called, Search.NthCall search session n (some answer) called →
      ∃ answers after, answers.length = n + 1 ∧ Search.FirstAnswers search session answers ∧
        (query.limited (some (n + 1))).Returns database session (answers.map query.report) after ∧
        (query.limited (some (n + 1))).Leaves session called (n + 1) after) ∧
    (∀ n called, Search.NthCall search session n none called →
      ∃ answers, answers.length ≤ n ∧ Search.FirstAnswers search session answers ∧
        Search.NthCall search session answers.length none called ∧
        ∀ limit : Option Nat, (∀ wanted ∈ limit, n < wanted) →
          ∃ after,
            (query.limited limit).Returns database session (answers.map query.report) after ∧
            (query.limited limit).Leaves session called answers.length after) ∧
    (∀ (limit : Option Nat) (n : Nat) solutions after, (∀ wanted ∈ limit, n + 1 ≤ wanted) →
      (query.limited limit).Returns database session solutions after →
      ∃ earlier, (query.limited (some (n + 1))).Returns database session
        (solutions.take (n + 1)) earlier) ∧
    (∀ (limit : Option Nat) solutions others after last,
      (query.limited limit).Returns database session solutions after →
      (query.limited limit).Returns database session others last →
      solutions = others ∧ after = last) ∧
    (∀ proved called, query.Decides database session proved called →
      ∃ solutions after,
        (query.limited (some 1)).Returns database session solutions after ∧
        proved = !solutions.isEmpty ∧
        (query.limited (some 1)).Leaves session called solutions.length after) ∧
    (∀ solutions after, (query.limited (some 1)).Returns database session solutions after →
      ∃ called, query.Decides database session (!solutions.isEmpty) called ∧
        (query.limited (some 1)).Leaves session called solutions.length after) ∧
    ∀ steps, (query.limited (some 0)).run database steps session =
      ⟨.error (.invalidLimit 0), true, session⟩ := by
  intro search
  refine ⟨?_, ?_, ?_, ?_, ?_, ?_, fun steps => run_of_limit_zero rfl database steps session⟩
  · intro n answer called call
    rcases call.collects with ⟨answers, length, first, collects⟩
    rcases exists_returns (query.limited_limit_ne_zero n) collects with ⟨after, returns, leaves⟩
    exact ⟨answers, after, length, first, returns, length ▸ leaves⟩
  · intro n called call
    rcases call.collects_all with ⟨answers, few, first, none, collects⟩
    refine ⟨answers, few, first, none, ?_⟩
    intro limit unreached
    have positive : (query.limited limit).limit ≠ some 0 := by
      intro zero
      exact absurd (unreached 0 zero) (Nat.not_lt_zero n)
    exact exists_returns positive (collects limit unreached)
  · intro limit n solutions after within returns
    rcases returns.exists_collects with ⟨answers, called, collects, rfl, _⟩
    rcases collects.take within with ⟨earlier, cut⟩
    rcases exists_returns (query.limited_limit_ne_zero n) cut with ⟨last, returnsCut, _⟩
    rw [← List.map_take]
    exact ⟨last, returnsCut⟩
  · intro limit solutions others after last returns again
    exact returns.unique again
  · intro proved called decides
    rcases decides_iff_collects.mp decides with ⟨answers, collects, rfl⟩
    rcases exists_returns (query.limited_limit_ne_zero 0) collects with ⟨after, returns, leaves⟩
    refine ⟨_, after, returns, by simp, ?_⟩
    rwa [List.length_map]
  · intro solutions after returns
    rcases returns.exists_collects with ⟨answers, called, collects, rfl, leaves⟩
    exact ⟨called, decides_iff_collects.mpr ⟨answers, collects, by simp⟩, leaves⟩

/-- There is no end to the answers for `(n . y)` over the fact `(n . z)` and the rule that
`(n . (s . x))` holds if `(n . x)` does. With the limit two the query returns the first two of
them, and leaves what the second call leaves. To ask is to be told that there is one, although
the limit is zero. -/
theorem limits_cut_lazily_endless :
    let x : Var := ⟨0, "x"⟩
    let y : Var := ⟨1, "y"⟩
    let copied : Var := ⟨2, "x"⟩
    let n := Term.symbol "n"
    let s := Term.symbol "s"
    let z := Term.symbol "z"
    let database : Database :=
      ⟨#[.rule (.pair n (.pair s (.var x))) [.pair n (.var x)], .fact (.pair n z)]⟩
    let query : Query := ⟨[.pair n (.var y)], [y], some 0, true⟩
    let search := Search.all database query.goals .empty
    let second := (Subst.empty.bind y (.pair s (.var copied))).bind copied z
    ∃ called after decided, Search.NthCall search ⟨2, []⟩ 1 (some second) called ∧
      (query.limited (some 2)).Returns database ⟨2, []⟩
        [⟨[(y, z)]⟩, ⟨[(y, .pair s z)]⟩] after ∧
      (query.limited (some 2)).Leaves ⟨2, []⟩ called 2 after ∧ called.nextVar = 3 ∧
      query.Decides database ⟨2, []⟩ true decided ∧ decided.nextVar = 2 := by
  intro x y copied n s z database query search second
  have call : Search.NthCall search ⟨2, []⟩ 1 (some second) _ :=
    Search.nthCall_iff_watch.mpr ⟨7, rfl⟩
  have lazily := limits_cut_lazily query database ⟨2, []⟩
  rcases lazily.1 1 second _ call with ⟨answers, after, _, _, returns, leaves⟩
  have run : (query.limited (some 2)).Returns database ⟨2, []⟩
      [⟨[(y, z)]⟩, ⟨[(y, .pair s z)]⟩] _ := ⟨8, rfl⟩
  rw [(lazily.2.2.2.1 (some 2) _ _ _ _ returns run).1] at returns
  have single : (query.limited (some 1)).Returns database ⟨2, []⟩ [⟨[(y, z)]⟩] _ := ⟨4, rfl⟩
  rcases lazily.2.2.2.2.2.1 _ _ single with ⟨decided, decides, left⟩
  exact ⟨_, after, decided, call, returns, leaves, rfl, decides, left.nextVar.symm⟩

end Query
end Horn
