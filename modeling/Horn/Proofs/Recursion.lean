import Horn.Proofs.Calls

/-!
# The search as a recursion

Written as a recursion, a search needs no stack. No goals have one proof, the
substitution at hand; a goal with others behind it has, for each clause from the newest
on, the proofs of the body of a copy and of the other goals under the unifier. The
session is handed on from one clause to the next.

The recursion need not come to an end, so `proofs` cuts it off at a depth. The results
that it defines are those that some depth lists; greater depths list the same
(`nth?_proofs_of_le`).

The main result is `calls_refine_recursion`: call by call the search gives these results.
A frame simulates a listing if watching it, with any work below, shows the listing and
arrives at the work below. A listing that is cut off leaves work, and takes at least as
many steps as it is deep, so that a search that goes on for ever has no end in the
recursion either.
-/

namespace Horn

/-- Go on with what comes next, unless the first listing is cut off. -/
def Listing.andThen (first : Listing) (next : Session → Listing) : Listing :=
  if first.complete then
    let second := next first.session
    { second with results := first.results ++ second.results }
  else first

namespace Search

/-- Resolve a goal with clauses in this order, the first at the given index, and prove
what follows from each before the next is copied. -/
def resolveWith (prove : List Term → Subst → Session → Listing) (goal : Term)
    (rest : List Term) (subst : Subst) : List Clause → Nat → Session → Listing
  | [], _, session => .nothing session
  | clause :: older, index, session =>
      let (copy, session) := session.rename clause
      let unified := Subst.unify goal copy.head subst
      let session := session.record (.attempted goal index clause unified.isSome)
      let results := match unified with
        | some unified => prove (copy.body ++ rest) unified session
        | none => .nothing session
      results.andThen (resolveWith prove goal rest subst older (index + 1))

/-- The recursion, for a clause and those behind it. -/
theorem resolveWith_cons {prove : List Term → Subst → Session → Listing} {goal : Term}
    {rest : List Term} {subst : Subst} {clause : Clause} {older : List Clause} {index : Nat}
    {session : Session} :
    resolveWith prove goal rest subst (clause :: older) index session =
      let unified := Subst.unify goal (session.rename clause).1.head subst
      let attempted := (session.rename clause).2.record
        (.attempted goal index clause unified.isSome)
      Listing.andThen
        (match unified with
          | some unified => prove ((session.rename clause).1.body ++ rest) unified attempted
          | none => .nothing attempted)
        (resolveWith prove goal rest subst older (index + 1)) := rfl

/-- The proofs of goals under a substitution, at most `depth` goals deep. -/
def proofs (database : Database) : Nat → List Term → Subst → Session → Listing
  | _, [], subst, session => ⟨[(subst, session)], true, session⟩
  | 0, _ :: _, _, session => ⟨[], false, session⟩
  | depth + 1, goal :: rest, subst, session =>
      resolveWith (proofs database depth) goal rest subst database.newestFirst 0 session

end Search

/-! ## The limit of the recursion -/

/-- The longer listing has all that the shorter one has, and is the same if the shorter
one is complete. -/
def Listing.Prefix (shorter longer : Listing) : Prop :=
  if shorter.complete then longer = shorter else shorter.results <+: longer.results

namespace Listing.Prefix

variable {shorter longer : Listing}

theorem refl (listing : Listing) : listing.Prefix listing := by
  unfold Listing.Prefix
  split
  next => rfl
  next => exact List.prefix_rfl

/-- What is known of a call stays so. -/
theorem nth? (known : shorter.Prefix longer) {n : Nat} {result : Option Subst × Session}
    (found : shorter.nth? n = some result) : longer.nth? n = some result := by
  unfold Listing.Prefix at known
  split at known
  next => rwa [known]
  next unfinished =>
      rcases known with ⟨others, append⟩
      simp only [Listing.nth?] at found ⊢
      cases listed : shorter.results[n]? with
      | none => simp [listed, unfinished] at found
      | some first =>
          have inside := (List.getElem?_eq_some_iff.mp listed).1
          rw [← append, List.getElem?_append_left inside, listed]
          simpa only [listed] using found

/-- Going on preserves the order, in the first listing and in what comes next. -/
theorem andThen {next later : Session → Listing} (first : shorter.Prefix longer)
    (second : ∀ session, (next session).Prefix (later session)) :
    (shorter.andThen next).Prefix (longer.andThen later) := by
  unfold Listing.Prefix at first
  split at first
  next complete =>
      subst first
      have after := second longer.session
      unfold Listing.Prefix at after ⊢
      simp only [Listing.andThen, complete, if_true]
      split at after
      next finished => simp only [after, finished, if_true]
      next unfinished =>
          simp only [unfinished]
          exact (List.prefix_append_right_inj longer.results).mpr after
  next unfinished =>
      simp only [Listing.Prefix, Listing.andThen, unfinished]
      by_cases complete : longer.complete
      · simpa [complete, unfinished] using first.trans (List.prefix_append _ _)
      · simpa [complete, unfinished] using first

end Listing.Prefix

namespace Search

theorem prefix_resolveWith {prove further : List Term → Subst → Session → Listing}
    (longer : ∀ goals subst session,
      (prove goals subst session).Prefix (further goals subst session))
    (goal : Term) (rest : List Term) (subst : Subst) (clauses : List Clause) (index : Nat)
    (session : Session) :
    (resolveWith prove goal rest subst clauses index session).Prefix
      (resolveWith further goal rest subst clauses index session) := by
  induction clauses generalizing index session with
  | nil => exact .refl _
  | cons clause older ih =>
      rw [resolveWith_cons, resolveWith_cons]
      apply Listing.Prefix.andThen
      · cases Subst.unify goal (session.rename clause).1.head subst with
        | none => exact .refl _
        | some unified => exact longer _ unified _
      · exact fun session => ih (index + 1) session

/-- A greater depth lists the same results and possibly more. -/
theorem proofs_prefix_succ (database : Database) (depth : Nat) (goals : List Term) (subst : Subst)
    (session : Session) :
    (proofs database depth goals subst session).Prefix
      (proofs database (depth + 1) goals subst session) := by
  induction depth generalizing goals subst session with
  | zero =>
      cases goals with
      | nil => exact .refl _
      | cons goal rest => exact List.nil_prefix
  | succ depth ih =>
      cases goals with
      | nil => exact .refl _
      | cons goal rest =>
          exact prefix_resolveWith ih goal rest subst database.newestFirst 0 session

/-- What is listed at a depth is listed at all greater depths, so that the recursion
defines at most one result for every call. -/
theorem nth?_proofs_of_le {database : Database} {less depth : Nat} (le : less ≤ depth)
    {goals : List Term} {subst : Subst} {session : Session} {n : Nat}
    {result : Option Subst × Session}
    (listed : (proofs database less goals subst session).nth? n = some result) :
    (proofs database depth goals subst session).nth? n = some result := by
  induction le with
  | refl => exact listed
  | step _ ih => exact (proofs_prefix_succ database _ goals subst session).nth? ih

/-! ## The search simulates the recursion -/

/-- Watching the frames shows the listing and arrives at the work below them. If the
listing is cut off then work is left, and at least `depth` steps were taken. -/
def Simulates (database : Database) (depth : Nat) (frames : List Frame) (session : Session)
    (listing : Listing) : Prop :=
  ∀ below, ∃ steps last,
    watch steps ⟨database, frames ++ below⟩ session =
      ⟨listing.results, ⟨database, last⟩, listing.session⟩ ∧
    (listing.complete = true → last = below) ∧
    (listing.complete = false → depth ≤ steps ∧ last ≠ [])

variable {database : Database} {depth : Nat} {frames more : List Frame}
variable {session after : Session} {listing : Listing}

theorem Simulates.nothing : Simulates database depth [] session (.nothing session) :=
  fun below => ⟨0, below, rfl, fun _ => rfl, fun unfinished => nomatch unfinished⟩

theorem Simulates.mono {less : Nat} (simulates : Simulates database depth frames session listing)
    (smaller : less ≤ depth) : Simulates database less frames session listing := by
  intro below
  rcases simulates below with ⟨steps, last, seen, finished, unfinished⟩
  refine ⟨steps, last, seen, finished, ?_⟩
  intro cut
  exact ⟨Nat.le_trans smaller (unfinished cut).1, (unfinished cut).2⟩

/-- A step without an answer comes before what the new frames simulate. -/
theorem Simulates.of_working
    (step : ∀ below, Search.step ⟨database, frames ++ below⟩ session =
      .working ⟨database, more ++ below⟩ after)
    (simulates : Simulates database depth more after listing) :
    Simulates database (depth + 1) frames session listing := by
  intro below
  rcases simulates below with ⟨steps, last, seen, finished, unfinished⟩
  refine ⟨steps + 1, last, by simpa only [watch, step] using seen, finished, ?_⟩
  intro cut
  exact ⟨Nat.succ_le_succ (unfinished cut).1, (unfinished cut).2⟩

/-- Frames on top of others simulate what one listing and then the other show. -/
theorem Simulates.andThen {next : Session → Listing}
    (first : Simulates database depth frames session listing)
    (second : Simulates database depth more listing.session (next listing.session)) :
    Simulates database depth (frames ++ more) session (listing.andThen next) := by
  intro below
  rw [List.append_assoc]
  rcases first (more ++ below) with ⟨steps, middle, seen, finished, unfinished⟩
  cases complete : listing.complete with
  | false =>
      simp only [Listing.andThen, complete]
      refine ⟨steps, middle, seen, ?_, fun _ => unfinished complete⟩
      intro whole
      cases complete.symm.trans whole
  | true =>
      cases finished complete
      rcases second below with ⟨others, last, later, finishedLater, unfinishedLater⟩
      simp only [Listing.andThen, complete, if_true]
      refine ⟨steps + others, last, ?_, finishedLater, ?_⟩
      · simp only [watch_add, seen, later]
      · intro cut
        exact ⟨Nat.le_trans (unfinishedLater cut).1 (Nat.le_add_left _ _), (unfinishedLater cut).2⟩

variable {goal : Term} {rest : List Term} {subst : Subst} {index : Nat} {clause : Clause}

theorem simulates_answer (database : Database) (depth : Nat) (subst : Subst) (session : Session) :
    Simulates database depth [.prove [] subst] session ⟨[(subst, session)], true, session⟩ :=
  fun below => ⟨1, below, rfl, fun _ => rfl, fun unfinished => nomatch unfinished⟩

/-- An attempt goes on with what follows from the clause, if the goal unifies with the
head of the copy, and then with the next clause. -/
theorem step_attempt (found : database.nthNewest? index = some clause) (below : List Frame) :
    let unified := Subst.unify goal (session.rename clause).1.head subst
    step ⟨database, [.resolve goal rest subst index] ++ below⟩ session =
      .working
        ⟨database, unified.toList.map (Frame.prove ((session.rename clause).1.body ++ rest)) ++
          alternatives database goal rest subst index ++ below⟩
        ((session.rename clause).2.record (.attempted goal index clause unified.isSome)) := by
  simp [step, found]

/-- The goal is resolved with the clauses from the index on as in the recursion, if that
is so of everything that an attempt goes on with. -/
theorem simulates_resolveWith {prove : List Term → Subst → Session → Listing}
    (proves : ∀ goals subst session,
      Simulates database depth [.prove goals subst] session (prove goals subst session))
    (goal : Term) (rest : List Term) (subst : Subst) {clauses : List Clause}
    (older : database.newestFirst.drop index = clauses) (session : Session) :
    Simulates database (depth + 1) [.resolve goal rest subst index] session
      (resolveWith prove goal rest subst clauses index session) := by
  induction clauses generalizing index session with
  | nil =>
      have absent : database.nthNewest? index = none := by
        rw [Database.nthNewest?_eq, List.getElem?_eq_none (List.drop_eq_nil_iff.mp older)]
      have drops : ∀ below, step ⟨database, [.resolve goal rest subst index] ++ below⟩ session =
          .working ⟨database, [] ++ below⟩ session := by
        intro below
        simp [step, absent]
      exact .of_working drops .nothing
  | cons clause clauses ih =>
      have found : database.nthNewest? index = some clause := by
        rw [Database.nthNewest?_eq, ← List.head?_drop, older, List.head?_cons]
      have next : database.newestFirst.drop (index + 1) = clauses := by
        rw [← List.tail_drop, older, List.tail_cons]
      have alternative : ∀ session, Simulates database (depth + 1)
          (alternatives database goal rest subst index) session
          (resolveWith prove goal rest subst clauses (index + 1) session) := by
        intro session
        by_cases more : index + 1 < database.size
        · simpa only [alternatives, more, if_true] using ih next session
        · have empty : clauses = [] := by
            rw [← next, List.drop_eq_nil_iff]
            simpa [Database.newestFirst] using Nat.le_of_not_lt more
          subst empty
          simpa only [alternatives, more, if_false, resolveWith] using Simulates.nothing
      rw [resolveWith_cons]
      apply Simulates.of_working (step_attempt found)
      apply Simulates.andThen
      · cases Subst.unify goal (session.rename clause).1.head subst with
        | none => exact .nothing
        | some unified => exact proves _ unified _
      · exact (alternative _).mono (Nat.le_succ depth)

/-- The search simulates its recursion at every depth. -/
theorem simulates_proofs (database : Database) (depth : Nat) (goals : List Term) (subst : Subst)
    (session : Session) :
    Simulates database depth [.prove goals subst] session
      (proofs database depth goals subst session) := by
  induction depth generalizing goals subst session with
  | zero =>
      cases goals with
      | nil => exact simulates_answer database 0 subst session
      | cons goal rest =>
          intro below
          exact ⟨0, .prove (goal :: rest) subst :: below, rfl, fun whole => (nomatch whole),
            fun _ => ⟨Nat.le_refl 0, List.cons_ne_nil _ _⟩⟩
  | succ depth ih =>
      cases goals with
      | nil => exact simulates_answer database (depth + 1) subst session
      | cons goal rest =>
          have resolves := simulates_resolveWith ih goal rest subst (List.drop_zero) session
          have selects : ∀ below, step ⟨database, [.prove (goal :: rest) subst] ++ below⟩ session =
              .working ⟨database, [.resolve goal rest subst 0] ++ below⟩ session :=
            fun _ => rfl
          exact (resolves.of_working selects).mono (Nat.le_succ _)

/-- Watching a search for enough steps shows what its recursion lists at a depth. -/
theorem exists_watch_proofs (database : Database) (depth : Nat) (goals : List Term)
    (subst : Subst) (session : Session) :
    ∃ steps, depth ≤ steps ∧ (watch steps (all database goals subst) session).listing =
      proofs database depth goals subst session := by
  rcases simulates_proofs database depth goals subst session [] with
    ⟨steps, last, seen, finished, unfinished⟩
  generalize proofs database depth goals subst session = listing at *
  have shown : watch steps (all database goals subst) session =
      ⟨listing.results, ⟨database, last⟩, listing.session⟩ := seen
  cases complete : listing.complete with
  | false =>
      rcases unfinished complete with ⟨enough, left⟩
      refine ⟨steps, enough, ?_⟩
      have more : last.isEmpty = false := by simpa using left
      simp only [shown, Watch.listing, more, ← complete]
  | true =>
      -- the search has ended, so it may as well be watched for longer
      cases finished complete
      refine ⟨steps + depth, Nat.le_add_left _ _, ?_⟩
      rw [watch_add, shown]
      simp [watch_of_frames_eq_nil, Watch.listing, ← complete]

/-- Call by call a search gives the results of its recursion, with the substitutions, the
next free identity and the log of attempts as they are in the recursion, and returns
nothing from its end on. As long as a call does not return, the search goes through what
the recursion comes to at greater and greater depths. A search for one goal gives what
the search for this goal alone gives. -/
theorem calls_refine_recursion (database : Database) (goals : List Term) (subst : Subst)
    (session : Session) :
    (∀ n result after, NthCall (all database goals subst) session n result after ↔
      ∃ depth, (proofs database depth goals subst session).nth? n = some (result, after)) ∧
    (∀ depth, ∃ steps, depth ≤ steps ∧
      (watch steps (all database goals subst) session).listing =
        proofs database depth goals subst session) ∧
    ∀ goal n result after, NthCall (one database goal subst) session n result after ↔
      NthCall (all database [goal] subst) session n result after := by
  refine ⟨?_, fun depth => exists_watch_proofs database depth goals subst session, ?_⟩
  · intro n result after
    rw [nthCall_iff_watch]
    constructor
    · rintro ⟨steps, seen⟩
      rcases exists_watch_proofs database steps goals subst session with ⟨longer, enough, shown⟩
      refine ⟨steps, ?_⟩
      rw [← shown, ← Nat.add_sub_of_le enough]
      exact nth?_watch_add seen (longer - steps)
    · rintro ⟨depth, listed⟩
      rcases exists_watch_proofs database depth goals subst session with ⟨steps, _, shown⟩
      exact ⟨steps, by rw [shown, listed]⟩
  · intro goal n result after
    rw [nthCall_iff_watch, nthCall_iff_watch]
    constructor
    · rintro ⟨steps, seen⟩
      exact ⟨steps + 1, seen⟩
    · rintro ⟨steps, seen⟩
      cases steps with
      | zero => cases seen
      | succ steps => exact ⟨steps, seen⟩

end Search

end Horn
