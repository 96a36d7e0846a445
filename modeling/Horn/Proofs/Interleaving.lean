import Horn.Proofs.Calls

/-!
# Searches among others

Searches over one database share a session, with each other and with all who mint
variables. To one search the rest of the world is `Others`: whatever they do to the
session, they have done it before the next turn of the search, and no identity is
handed out twice.

`watchAmong` watches a search turn by turn. A turn is a move in the session that the
others left (`watchAmong_succ_of_move`), so that what moves preserve holds after any
number of turns (`run_watchAmong`), and with nobody else about it is the search of
`watch` (`nthPull_nobody_iff`).
-/

namespace Horn

/-- What others do to the session before each turn of a search. They may mint variables
and record events, and they give back no identities. -/
structure Others where
  act : Nat → Session → Session
  nextVar_le : ∀ turn session, session.nextVar ≤ (act turn session).nextVar

/-- There are no others. -/
def Others.nobody : Others :=
  ⟨fun _ session => session, fun _ _ => Nat.le_refl _⟩

@[simp] theorem Others.act_nobody (turn : Nat) (session : Session) :
    nobody.act turn session = session := rfl

namespace Search

/-- Take a number of turns, each of them after the others have had theirs, and note the
answers with the sessions in which they were found. -/
def watchAmong (others : Others) (search : Search) (session : Session) : Nat → Watch
  | 0 => ⟨[], search, session⟩
  | turn + 1 =>
      let seen := watchAmong others search session turn
      let shared := others.act turn seen.session
      match seen.search.step shared with
      | .exhausted => { seen with session := shared }
      | .found answer rest => ⟨seen.results ++ [(answer, shared)], rest, shared⟩
      | .working rest after => { seen with search := rest, session := after }

/-- The session that the others leave for a turn. -/
def sharedSession (others : Others) (search : Search) (session : Session) (turn : Nat) :
    Session :=
  others.act turn (watchAmong others search session turn).session

/-- The pull of a number, counted from zero, returns this result after some number of
turns. A search is pulled on until its end, and a pull that does not return has no
result. -/
def NthPull (others : Others) (search : Search) (session : Session) (n : Nat)
    (result : Option Subst) : Prop :=
  ∃ turns after, (watchAmong others search session turns).listing.nth? n = some (result, after)

variable {others : Others} {search : Search} {session after : Session} {turn : Nat}
variable {later : List Frame} {answer : Option Subst}

theorem nextVar_le_sharedSession :
    (watchAmong others search session turn).session.nextVar ≤
      (sharedSession others search session turn).nextVar :=
  others.nextVar_le turn _

theorem database_watchAmong (others : Others) (search : Search) (session : Session)
    (turn : Nat) : (watchAmong others search session turn).search.database = search.database := by
  induction turn with
  | zero => rfl
  | succ turn ih =>
      simp only [watchAmong]
      rcases step_eq (watchAmong others search session turn).search
          (others.act turn (watchAmong others search session turn).session) with
        ⟨_, step⟩ | ⟨_, _, step, _⟩ | ⟨_, _, step, _⟩
      · simpa only [step] using ih
      · simpa only [step] using ih
      · simpa only [step] using ih

/-- A turn without work left changes nothing but the session. -/
theorem watchAmong_succ_of_nil
    (empty : (watchAmong others search session turn).search.frames = []) :
    watchAmong others search session (turn + 1) =
      { watchAmong others search session turn with
        session := sharedSession others search session turn } := by
  simp only [watchAmong, step, empty, sharedSession]

/-- A turn is a move in the session that the others left. -/
theorem watchAmong_succ_of_move
    (move : Move search.database (watchAmong others search session turn).search.frames
      (sharedSession others search session turn) answer later after) :
    watchAmong others search session (turn + 1) =
      ⟨(watchAmong others search session turn).results ++
          answer.toList.map fun found => (found, after),
        ⟨search.database, later⟩, after⟩ := by
  have same := database_watchAmong others search session turn
  simp only [watchAmong]
  rw [sharedSession] at move
  generalize watchAmong others search session turn = seen at move same ⊢
  obtain ⟨results, ⟨database, frames⟩, reached⟩ := seen
  cases same
  simp only [move.step]
  cases answer with
  | none => simp
  | some found =>
      cases move
      simp

/-- A turn finds no work left, or it is a move. -/
theorem turn_cases (others : Others) (search : Search) (session : Session) (turn : Nat) :
    (watchAmong others search session turn).search.frames = [] ∨
      ∃ answer later after, Move search.database
        (watchAmong others search session turn).search.frames
        (sharedSession others search session turn) answer later after := by
  by_cases empty : (watchAmong others search session turn).search.frames = []
  · exact .inl empty
  · exact .inr (exists_move search.database _ empty)

/-- A search among others makes a run. -/
theorem run_watchAmong (others : Others) (search : Search) (session : Session) (turn : Nat) :
    Run search.database search.frames session
      ((watchAmong others search session turn).results.map Prod.fst)
      (watchAmong others search session turn).search.frames
      (watchAmong others search session turn).session := by
  induction turn with
  | zero => exact .done
  | succ turn ih =>
      rcases turn_cases others search session turn with empty | ⟨answer, later, after, move⟩
      · rw [watchAmong_succ_of_nil empty]
        simpa using ih.trans (.wait nextVar_le_sharedSession .done)
      · rw [watchAmong_succ_of_move move]
        have next := ih.trans (.wait nextVar_le_sharedSession (.move move .done))
        simpa [Function.comp_def] using next

/-! ## Pulls -/

/-- The result of a pull, once known, stays the same. -/
theorem nth?_watchAmong_succ {n : Nat} {result : Option Subst}
    (seen : (watchAmong others search session turn).listing.nth? n = some (result, after)) :
    ∃ later, (watchAmong others search session (turn + 1)).listing.nth? n =
      some (result, later) := by
  simp only [Listing.nth?, Watch.listing] at seen ⊢
  rcases turn_cases others search session turn with empty | ⟨answer, later, next, move⟩
  · rw [watchAmong_succ_of_nil empty]
    cases found : (watchAmong others search session turn).results[n]? with
    | some known => exact ⟨after, by simpa only [found] using seen⟩
    | none =>
        simp only [found, empty] at seen ⊢
        cases seen
        exact ⟨_, rfl⟩
  · rw [watchAmong_succ_of_move move]
    cases found : (watchAmong others search session turn).results[n]? with
    | some known =>
        refine ⟨after, ?_⟩
        rw [List.getElem?_append_left (List.getElem?_eq_some_iff.mp found).1]
        simpa only [found] using seen
    | none =>
        simp only [found] at seen
        cases left : (watchAmong others search session turn).search.frames with
        | nil =>
            rw [left] at move
            cases move
        | cons frame below => simp [left] at seen

theorem nth?_watchAmong_add {n : Nat} {result : Option Subst}
    (seen : (watchAmong others search session turn).listing.nth? n = some (result, after))
    (more : Nat) :
    ∃ later, (watchAmong others search session (turn + more)).listing.nth? n =
      some (result, later) := by
  induction more with
  | zero => exact ⟨after, seen⟩
  | succ more ih =>
      obtain ⟨_, seen⟩ := ih
      exact nth?_watchAmong_succ seen

/-- A pull returns one result. -/
theorem NthPull.unique {n : Nat} {result other : Option Subst}
    (pulled : NthPull others search session n result)
    (again : NthPull others search session n other) : result = other := by
  obtain ⟨turns, _, seen⟩ := pulled
  obtain ⟨more, _, seenAgain⟩ := again
  obtain ⟨_, known⟩ := nth?_watchAmong_add seen more
  obtain ⟨_, knownToo⟩ := nth?_watchAmong_add seenAgain turns
  rw [Nat.add_comm more turns, known] at knownToo
  exact congrArg Prod.fst (Option.some_inj.mp knownToo)

/-! ## Alone -/

theorem watchAmong_nobody (search : Search) (session : Session) (turn : Nat) :
    watchAmong .nobody search session turn = watch turn search session := by
  induction turn with
  | zero => rfl
  | succ turn ih =>
      rw [watch_add turn 1]
      simp only [watchAmong, ih, Others.act_nobody, watch]
      cases (watch turn search session).search.step (watch turn search session).session with
      | exhausted => simp
      | found answer rest => rfl
      | working rest after => simp

/-- Among nobody else a pull returns what a call does. -/
theorem nthPull_nobody_iff {n : Nat} {result : Option Subst} :
    NthPull .nobody search session n result ↔ ∃ after, NthCall search session n result after := by
  simp only [NthPull, watchAmong_nobody, nthCall_iff_watch]
  exact exists_comm

end Search

end Horn
