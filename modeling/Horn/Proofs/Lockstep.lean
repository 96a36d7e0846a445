import Horn.Proofs.Calls

/-!
# Searches in lockstep

Two searches go in step if a relation between them outlasts every move: where the one makes
a move, the other makes one too, with an answer if and only if the first has one, and the
two are related again. Call by call they then return the same, as far as the relation tells
answers and sessions apart (`Lockstep.nthCall`). So what is to be shown of two such searches
is about single moves.
-/

namespace Horn

namespace Search

/-- A relation between searches over two databases, each with its session, that outlasts
every move. Answers that are found at the same time are the same, and so are the sessions,
each for what is asked of it. -/
structure Lockstep (one two : Database) (same : Subst → Subst → Prop)
    (alike : Session → Session → Prop)
    (related : List Frame → Session → List Frame → Session → Prop) : Prop where
  alike : ∀ {frames framesToo session sessionToo},
    related frames session framesToo sessionToo → alike session sessionToo
  empty : ∀ {framesToo session sessionToo},
    related [] session framesToo sessionToo → framesToo = []
  move : ∀ {frames framesToo later session sessionToo after answer},
    related frames session framesToo sessionToo → Move one frames session answer later after →
    ∃ answerToo laterToo afterToo,
      Move two framesToo sessionToo answerToo laterToo afterToo ∧
      Option.Rel same answer answerToo ∧ related later after laterToo afterToo

/-- The same was found so far, and the searches are still related. -/
structure Watch.Related (same : Subst → Subst → Prop) (alike : Session → Session → Prop)
    (related : List Frame → Session → List Frame → Session → Prop) (seen seenToo : Watch) :
    Prop where
  results : List.Forall₂ (fun known other => same known.1 other.1 ∧ alike known.2 other.2)
    seen.results seenToo.results
  rest : related seen.search.frames seen.session seenToo.search.frames seenToo.session

namespace Lockstep

variable {one two : Database} {same : Subst → Subst → Prop}
variable {alike : Session → Session → Prop}
variable {related : List Frame → Session → List Frame → Session → Prop}
variable {frames framesToo : List Frame} {session sessionToo : Session}

/-- The searches stay in step for any number of steps. -/
theorem watch (lockstep : Lockstep one two same alike related)
    (begins : related frames session framesToo sessionToo) (steps : Nat) :
    (Search.watch steps ⟨one, frames⟩ session).Related same alike related
      (Search.watch steps ⟨two, framesToo⟩ sessionToo) := by
  induction steps generalizing frames framesToo session sessionToo with
  | zero => exact ⟨.nil, begins⟩
  | succ steps ih =>
      by_cases work : frames = []
      · subst work
        cases lockstep.empty begins
        rw [watch_of_frames_eq_nil rfl, watch_of_frames_eq_nil rfl]
        exact ⟨.nil, begins⟩
      · rcases exists_move one session work with ⟨answer, later, after, move⟩
        rcases lockstep.move begins move with
          ⟨answerToo, laterToo, afterToo, moveToo, answers, continues⟩
        have rest := ih continues
        cases answers with
        | none =>
            simp only [Search.watch, move.step, moveToo.step, Option.elim]
            exact rest
        | some found =>
            -- a move with an answer leaves the session as it is
            cases move
            cases moveToo
            exact ⟨.cons ⟨found, lockstep.alike continues⟩ rest.results, rest.rest⟩

theorem nil_iff (lockstep : Lockstep one two same alike related)
    (relate : related frames session framesToo sessionToo) : frames = [] ↔ framesToo = [] := by
  constructor
  · rintro rfl
    exact lockstep.empty relate
  · rintro rfl
    by_contra work
    rcases exists_move one session work with ⟨_, _, _, move⟩
    rcases lockstep.move relate move with ⟨_, _, _, moveToo, _⟩
    cases moveToo

/-- A call returned the same in both searches, or not yet. -/
theorem nth? (lockstep : Lockstep one two same alike related)
    (begins : related frames session framesToo sessionToo) (steps n : Nat) :
    Option.Rel (fun known other => Option.Rel same known.1 other.1 ∧ alike known.2 other.2)
      ((Search.watch steps ⟨one, frames⟩ session).listing.nth? n)
      ((Search.watch steps ⟨two, framesToo⟩ sessionToo).listing.nth? n) := by
  have related := lockstep.watch begins steps
  have ends := lockstep.nil_iff related.rest
  apply Listing.rel_nth? related.results _ (lockstep.alike related.rest)
  rw [Bool.eq_iff_iff, Watch.listing, Watch.listing, List.isEmpty_iff, List.isEmpty_iff]
  exact ends.symm

/-- Call by call both searches return the same. -/
theorem nthCall (lockstep : Lockstep one two same alike related)
    (begins : related frames session framesToo sessionToo) (n : Nat) :
    (∀ result after, NthCall ⟨one, frames⟩ session n result after →
      ∃ image other, NthCall ⟨two, framesToo⟩ sessionToo n image other ∧
        Option.Rel same result image ∧ alike after other) ∧
    ∀ image other, NthCall ⟨two, framesToo⟩ sessionToo n image other →
      ∃ result after, NthCall ⟨one, frames⟩ session n result after ∧
        Option.Rel same result image ∧ alike after other := by
  constructor
  · intro result after call
    rcases nthCall_iff_watch.mp call with ⟨steps, seen⟩
    have returned := lockstep.nth? begins steps n
    rw [seen] at returned
    generalize seenToo : (Search.watch steps ⟨two, framesToo⟩ sessionToo).listing.nth? n = known
      at returned
    cases returned with
    | some related => exact ⟨_, _, nthCall_iff_watch.mpr ⟨steps, seenToo⟩, related⟩
  · intro image other call
    rcases nthCall_iff_watch.mp call with ⟨steps, seenToo⟩
    have returned := lockstep.nth? begins steps n
    rw [seenToo] at returned
    generalize seen : (Search.watch steps ⟨one, frames⟩ session).listing.nth? n = known
      at returned
    cases returned with
    | some related => exact ⟨_, _, nthCall_iff_watch.mpr ⟨steps, seen⟩, related⟩

end Lockstep

end Search

end Horn
