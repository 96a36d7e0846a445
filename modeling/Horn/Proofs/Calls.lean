import Mathlib.Data.List.Forall2
import Horn.Proofs.Running

/-!
# Calls for the next answer

A caller sees a search through its calls: each gives an answer, or says that there is
none, and leaves the session behind. A call that never returns has no result.

`watch` takes the steps of a search regardless of calls and notes the answers with the
sessions in which they were found. What the calls return can be read off from it
(`nthCall_iff_watch`), so that properties of calls come down to single steps.
-/

namespace Horn

/-- A result that is the image of another where there is one is its image. -/
theorem eq_map_of_rel {image : Subst → Subst} {one two : Option Subst}
    (related : Option.Rel (fun answer other => other = image answer) one two) :
    two = one.map image := by
  cases related with
  | some same => exact congrArg some same
  | none => rfl

/-- The results of a search as far as they are known, each with the session in which it
was found. -/
structure Listing where
  results : List (Subst × Session)
  /-- Whether these are all results. -/
  complete : Bool
  /-- The session behind the last result: at the end, or as far as was looked. -/
  session : Session

namespace Listing

/-- What the call of a number, counted from zero, returns, and the session after it. The
calls after the last result return nothing and leave the session alone. -/
def nth? (listing : Listing) (n : Nat) : Option (Option Subst × Session) :=
  match listing.results[n]? with
  | some (answer, session) => some (some answer, session)
  | none => if listing.complete then some (none, listing.session) else none

/-- Listings that have the same results, one by one, and end alike say the same of a call. -/
theorem rel_nth? {same : Subst → Subst → Prop} {alike : Session → Session → Prop}
    {one two : Listing}
    (results : List.Forall₂ (fun known other => same known.1 other.1 ∧ alike known.2 other.2)
      one.results two.results)
    (complete : two.complete = one.complete) (session : alike one.session two.session) (n : Nat) :
    Option.Rel (fun known other => Option.Rel same known.1 other.1 ∧ alike known.2 other.2)
      (one.nth? n) (two.nth? n) := by
  have sameLength := results.length_eq
  simp only [nth?, complete]
  by_cases inside : n < one.results.length
  · have insideToo : n < two.results.length := sameLength ▸ inside
    have found := results.get inside insideToo
    rw [List.getElem?_eq_getElem inside, List.getElem?_eq_getElem insideToo]
    exact .some ⟨.some found.1, found.2⟩
  · have outside := Nat.le_of_not_lt inside
    rw [List.getElem?_eq_none outside, List.getElem?_eq_none (sameLength ▸ outside)]
    cases one.complete with
    | true => exact .some ⟨.none, session⟩
    | false => exact .none

def nothing (session : Session) : Listing :=
  ⟨[], true, session⟩

end Listing

namespace Search

/-- A search that is watched: the answers so far, each with the session in which it was
found, and what is left to search. -/
structure Watch where
  results : List (Subst × Session)
  search : Search
  session : Session

/-- Take at most `steps` steps, beyond all answers. -/
def watch : Nat → Search → Session → Watch
  | 0, search, session => ⟨[], search, session⟩
  | steps + 1, search, session =>
      match search.step session with
      | .exhausted => ⟨[], search, session⟩
      | .found answer search =>
          let later := watch steps search session
          { later with results := (answer, session) :: later.results }
      | .working search session => watch steps search session

def Watch.listing (seen : Watch) : Listing :=
  ⟨seen.results, seen.search.frames.isEmpty, seen.session⟩

/-- A call for the next answer returns, if some number of steps is enough. -/
inductive Call (search : Search) (session : Session) :
    Option Subst → Search → Session → Prop where
  | found {steps : Nat} {answer : Subst} {rest : Search} {after : Session} :
      search.pull steps session = ⟨.found answer, rest, after⟩ →
      Call search session (some answer) rest after
  | exhausted {steps : Nat} {rest : Search} {after : Session} :
      search.pull steps session = ⟨.exhausted, rest, after⟩ →
      Call search session none rest after

/-- What the call of a number, counted from zero, returns, and the session after it, if
no one else uses the session. -/
inductive NthCall : Search → Session → Nat → Option Subst → Session → Prop where
  | first {search rest : Search} {session after : Session} {result : Option Subst} :
      Call search session result rest after → NthCall search session 0 result after
  | later {search rest : Search} {session after last : Session}
      {result final : Option Subst} {n : Nat} :
      Call search session result rest after → NthCall rest after n final last →
      NthCall search session (n + 1) final last

variable {search rest : Search} {session after : Session} {result : Option Subst} {n : Nat}

/-! ## Watching a search -/

theorem frames_eq_nil_of_step (exhausted : search.step session = .exhausted) :
    search.frames = [] := by
  rcases step_eq search session with ⟨empty, _⟩ | ⟨_, _, step, _⟩ | ⟨_, _, step, _⟩
  · exact empty
  · cases exhausted.symm.trans step
  · cases exhausted.symm.trans step

theorem watch_of_frames_eq_nil (empty : search.frames = []) (steps : Nat) (session : Session) :
    watch steps search session = ⟨[], search, session⟩ := by
  cases steps with
  | zero => rfl
  | succ steps => simp only [watch, step, empty]

/-- Watching for a while and then again is watching for both times. -/
theorem watch_add (first second : Nat) (search : Search) (session : Session) :
    watch (first + second) search session =
      let seen := watch first search session
      let later := watch second seen.search seen.session
      { later with results := seen.results ++ later.results } := by
  induction first generalizing search session with
  | zero => simp [watch]
  | succ first ih =>
      rw [Nat.succ_add]
      simp only [watch]
      cases step : search.step session with
      | exhausted =>
          have empty := frames_eq_nil_of_step step
          simp only [watch_of_frames_eq_nil empty, List.append_nil]
      | found answer rest => simp only [ih rest session, List.cons_append]
      | working rest after => exact ih rest after

/-- What was seen of the results stays so. -/
theorem nth?_watch_add {first : Nat} {known : Option Subst × Session}
    (seen : (watch first search session).listing.nth? n = some known) (second : Nat) :
    (watch (first + second) search session).listing.nth? n = some known := by
  rw [watch_add]
  generalize watch first search session = earlier at seen ⊢
  simp only [Listing.nth?, Watch.listing] at seen ⊢
  cases found : earlier.results[n]? with
  | some result =>
      rw [List.getElem?_append_left (List.getElem?_eq_some_iff.mp found).1]
      simpa only [found] using seen
  | none =>
      simp only [found] at seen
      cases left : earlier.search.frames with
      | nil => simpa [watch_of_frames_eq_nil left, found, left] using seen
      | cons frame below => simp [left] at seen

/-- A pull is seen as the answer it found, if any. -/
theorem exists_watch_pull (steps : Nat) (search : Search) (session : Session) :
    ∃ taken, watch taken search session =
      ⟨(search.pull steps session).outcome.answer?.toList.map fun answer =>
          (answer, (search.pull steps session).session),
        (search.pull steps session).search, (search.pull steps session).session⟩ := by
  induction steps generalizing search session with
  | zero => exact ⟨0, rfl⟩
  | succ steps ih =>
      simp only [pull]
      cases step : search.step session with
      | exhausted => exact ⟨0, rfl⟩
      | found answer rest => exact ⟨1, by simp [watch, step, Outcome.answer?]⟩
      | working rest after =>
          rcases ih rest after with ⟨taken, seen⟩
          exact ⟨taken + 1, by simpa only [watch, step] using seen⟩

theorem Call.exists_watch (call : Call search session result rest after) :
    ∃ taken, watch taken search session =
        ⟨result.toList.map fun answer => (answer, after), rest, after⟩ ∧
      (result = none → rest.frames = []) := by
  cases call with
  | @found steps _ _ _ pulled =>
      rcases exists_watch_pull steps search session with ⟨taken, seen⟩
      rw [pulled] at seen
      exact ⟨taken, seen, fun absent => nomatch absent⟩
  | @exhausted steps _ _ pulled =>
      rcases exists_watch_pull steps search session with ⟨taken, seen⟩
      have empty := (pull_run steps search session).2.2
      rw [pulled] at seen empty
      exact ⟨taken, seen, fun _ => empty rfl⟩

theorem NthCall.exists_watch (nth : NthCall search session n result after) :
    ∃ steps, (watch steps search session).listing.nth? n = some (result, after) := by
  induction nth with
  | first call =>
      rcases call.exists_watch with ⟨steps, seen, empty⟩
      refine ⟨steps, ?_⟩
      rw [seen]
      cases call with
      | found => rfl
      | exhausted => simp [Listing.nth?, Watch.listing, empty rfl]
  | later call _ ih =>
      rcases call.exists_watch with ⟨steps, seen, empty⟩
      rcases ih with ⟨more, later⟩
      refine ⟨steps + more, ?_⟩
      rw [watch_add, seen]
      cases call with
      | found => exact later
      | exhausted =>
          -- all calls from here on return the same
          simp only [watch_of_frames_eq_nil (empty rfl)] at later ⊢
          exact later

theorem nthCall_of_frames_eq_nil (empty : search.frames = [])
    (seen : (Watch.mk [] search session).listing.nth? n = some (result, after)) :
    NthCall search session n result after := by
  have same : none = result ∧ session = after := by
    simpa [Watch.listing, Listing.nth?, empty] using seen
  rcases same with ⟨rfl, rfl⟩
  have call : Call search session none search session :=
    .exhausted (show search.pull 1 session = _ by simp only [pull, step, empty])
  clear seen
  induction n with
  | zero => exact .first call
  | succ n ih => exact .later call ih

/-- A step without an answer belongs to the call that follows it. -/
theorem Call.of_working (working : search.step session = .working rest after)
    {left : Search} {last : Session} (call : Call rest after result left last) :
    Call search session result left last := by
  have taken : ∀ steps, search.pull (steps + 1) session = rest.pull steps after := by
    intro steps
    simp only [pull, working]
  cases call with
  | found pulled => exact .found ((taken _).trans pulled)
  | exhausted pulled => exact .exhausted ((taken _).trans pulled)

theorem NthCall.of_working (working : search.step session = .working rest after)
    {last : Session} (nth : NthCall rest after n result last) :
    NthCall search session n result last := by
  cases nth with
  | first call => exact .first (call.of_working working)
  | later call nth => exact .later (call.of_working working) nth

theorem NthCall.of_watch {steps : Nat}
    (seen : (watch steps search session).listing.nth? n = some (result, after)) :
    NthCall search session n result after := by
  induction steps generalizing search session n with
  | zero =>
      cases left : search.frames with
      | nil => exact nthCall_of_frames_eq_nil left seen
      | cons frame below => simp [watch, Watch.listing, Listing.nth?, left] at seen
  | succ steps ih =>
      cases step : search.step session with
      | exhausted =>
          have empty := frames_eq_nil_of_step step
          rw [watch_of_frames_eq_nil empty] at seen
          exact nthCall_of_frames_eq_nil empty seen
      | found answer rest =>
          have call : Call search session (some answer) rest session :=
            .found (show search.pull 1 session = _ by simp only [pull, step])
          simp only [watch, step] at seen
          cases n with
          | zero =>
              cases seen
              exact .first call
          | succ n => exact .later call (ih seen)
      | working rest next =>
          simp only [watch, step] at seen
          exact (ih seen).of_working step

/-- What a call returns is what is seen of the search after enough steps. -/
theorem nthCall_iff_watch :
    NthCall search session n result after ↔
      ∃ steps, (watch steps search session).listing.nth? n = some (result, after) :=
  ⟨NthCall.exists_watch, fun ⟨_, seen⟩ => .of_watch seen⟩

end Search

end Horn
