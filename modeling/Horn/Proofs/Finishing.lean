import Mathlib.Data.List.Flatten
import Mathlib.Data.List.Perm.Subperm
import Horn.Proofs.Environments
import Horn.Proofs.Exploring
import Horn.Proofs.Recursion

/-!
# Searches that come to their end

A search that has a session for itself and comes to its end has explored the tree below its
goals, with copies made one after another (`Finishes.exists_explored`). Another tree that is
explored with some of these copies, in whatever order, is one that a search goes through, too,
with the variables of the copies renamed (`Branch.Explored.exists_finishes`). So what is to be
shown of two such searches comes down to explored trees.

The recursion stands between the two: its listings are complete exactly where a tree is
explored (`isExplored_proofs`, `Branch.Explored.finds`), and where the search comes to its end
(`finishes_iff_proofs`).
-/

namespace Horn

/-! ## The recursion explores -/

/-- These copies were made in one attempt each, and no other variables were minted. -/
structure Session.Spends (session : Session) (copies : List Copy) (after : Session) : Prop where
  nextVar : after.nextVar = session.nextVar + (Copy.minted copies).length
  trials : after.trials.length = session.trials.length + copies.length

theorem Session.Spends.trans {session between after : Session} {first others : List Copy}
    (spends : session.Spends first between) (more : between.Spends others after) :
    session.Spends (first ++ others) after where
  nextVar := by
    rw [more.nextVar, spends.nextVar, Copy.minted_append, List.length_append, Nat.add_assoc]
  trials := by rw [more.trials, spends.trials, List.length_append, Nat.add_assoc]

/-- An attempt makes one copy. -/
theorem Session.spends_attempt (session : Session) (goal : Term) (index : Nat) (clause : Clause)
    (unified : Bool) :
    session.Spends [⟨clause, session.nextVar⟩] (session.attempt goal index clause unified) where
  nextVar := by simp [attempt, Copy.ids, Clause.length_ids]
  trials := by simp

/-- The listing is complete and has these answers, and these copies were made for it. -/
structure Listing.Finds (listing : Listing) (session : Session) (copies : List Copy)
    (answers : List Subst) : Prop where
  complete : listing.complete = true
  answers : listing.results.map Prod.fst = answers
  spends : session.Spends copies listing.session

/-- What the listing has is found by exploring the branch, with copies made in series. -/
def Listing.IsExplored (listing : Listing) (clauses : List Clause) (branch : Branch)
    (session : Session) : Prop :=
  ∃ copies answers, Copy.Serial session.nextVar copies ∧
    branch.Explored clauses copies answers ∧ listing.Finds session copies answers

theorem Listing.andThen_nothing (listing : Listing) : listing.andThen .nothing = listing := by
  obtain ⟨results, complete, session⟩ := listing
  cases complete with
  | false => rfl
  | true => simp [andThen, nothing]

theorem Listing.complete_of_andThen {first : Listing} {next : Session → Listing}
    (complete : (first.andThen next).complete = true) :
    first.complete = true ∧ (next first.session).complete = true := by
  unfold andThen at complete
  split at complete
  next whole => exact ⟨whole, complete⟩
  next cut => exact absurd complete cut

theorem Listing.Finds.andThen {first : Listing} {next : Session → Listing} {session : Session}
    {copies others : List Copy} {found answers : List Subst}
    (finds : first.Finds session copies found)
    (more : (next first.session).Finds first.session others answers) :
    (first.andThen next).Finds session (copies ++ others) (found ++ answers) := by
  simp only [Listing.andThen, finds.complete, if_true]
  exact ⟨more.complete, by rw [List.map_append, finds.answers, more.answers],
    finds.spends.trans more.spends⟩

namespace Search

variable {database : Database} {clauses older : List Clause} {copies : List Copy}
variable {prove : List Term → Subst → Session → Listing}
variable {goal : Term} {rest : List Term} {subst unified : Subst} {clause : Clause}
variable {session : Session} {index : Nat} {answers : List Subst}

theorem resolveWith_of_unify
    (unifies : Subst.unify goal (session.copyOf clause).head subst = some unified) :
    resolveWith prove goal rest subst [clause] index session =
      prove ((session.copyOf clause).body ++ rest) unified
        (session.attempt goal index clause true) := by
  simp only [resolveWith_cons, Session.rename_eq, unifies, Option.isSome]
  exact Listing.andThen_nothing _

theorem resolveWith_of_not_unify
    (fails : Subst.unify goal (session.copyOf clause).head subst = none) :
    resolveWith prove goal rest subst [clause] index session =
      .nothing (session.attempt goal index clause false) := by
  simp only [resolveWith_cons, Session.rename_eq, fails, Option.isSome]
  exact Listing.andThen_nothing _

/-- Clauses are resolved with one by one. -/
theorem resolveWith_cons_eq_andThen (prove : List Term → Subst → Session → Listing) (goal : Term)
    (rest : List Term) (subst : Subst) (clause : Clause) (older : List Clause) (index : Nat)
    (session : Session) :
    resolveWith prove goal rest subst (clause :: older) index session =
      (resolveWith prove goal rest subst [clause] index session).andThen
        (resolveWith prove goal rest subst older (index + 1)) := by
  have single : ∀ listing : Listing,
      listing.andThen (resolveWith prove goal rest subst [] (index + 1)) = listing :=
    Listing.andThen_nothing
  simp only [resolveWith_cons, single]

/-- A complete listing of an attempt is found by exploring, if that is so of the goals that
the attempt goes on with. -/
theorem isExplored_attempt
    (proves : ∀ goals subst session, (prove goals subst session).complete = true →
      (prove goals subst session).IsExplored clauses (.prove goals subst) session)
    (complete : (resolveWith prove goal rest subst [clause] index session).complete = true) :
    (resolveWith prove goal rest subst [clause] index session).IsExplored clauses
      (.attempt goal rest subst clause) session := by
  let copy : Copy := ⟨clause, session.nextVar⟩
  cases unifies : Subst.unify goal (session.copyOf clause).head subst with
  | none =>
      rw [resolveWith_of_not_unify unifies]
      have explored : (Branch.attempt goal rest subst copy.original).Explored clauses [copy] [] :=
        .skip unifies
      exact ⟨[copy], [], ⟨rfl, trivial⟩, explored, rfl, rfl,
        session.spends_attempt goal index clause false⟩
  | some unified =>
      rw [resolveWith_of_unify unifies] at complete ⊢
      obtain ⟨copies, answers, serial, explored, finds⟩ := proves _ _ _ complete
      have explored : (Branch.attempt goal rest subst copy.original).Explored clauses
          (copy :: copies) answers := .enter unifies explored
      have spends := session.spends_attempt goal index clause true
      have serial : Copy.Serial session.nextVar ([copy] ++ copies) :=
        Copy.serial_append.mpr ⟨⟨rfl, trivial⟩, spends.nextVar ▸ serial⟩
      exact ⟨copy :: copies, answers, serial, explored, finds.complete, finds.answers,
        spends.trans finds.spends⟩

theorem isExplored_resolve
    (proves : ∀ goals subst session, (prove goals subst session).complete = true →
      (prove goals subst session).IsExplored clauses (.prove goals subst) session)
    {left : List Clause}
    (complete : (resolveWith prove goal rest subst left index session).complete = true) :
    (resolveWith prove goal rest subst left index session).IsExplored clauses
      (.resolve goal rest subst left) session := by
  induction left generalizing index session with
  | nil => exact ⟨[], [], trivial, .done, rfl, rfl, rfl, rfl⟩
  | cons clause left ih =>
      rw [resolveWith_cons_eq_andThen] at complete ⊢
      obtain ⟨completeFirst, completeRest⟩ := Listing.complete_of_andThen complete
      obtain ⟨copies, found, serial, explored, finds⟩ := isExplored_attempt proves completeFirst
      obtain ⟨others, answers, serialRest, exploredRest, findsRest⟩ := ih completeRest
      rw [finds.spends.nextVar] at serialRest
      exact ⟨copies ++ others, found ++ answers, Copy.serial_append.mpr ⟨serial, serialRest⟩,
        .next explored exploredRest, finds.andThen findsRest⟩

/-- A complete listing of proofs is found by exploring. -/
theorem isExplored_proofs {depth : Nat} {goals : List Term}
    (complete : (proofs database depth goals subst session).complete = true) :
    (proofs database depth goals subst session).IsExplored database.newestFirst
      (.prove goals subst) session := by
  induction depth generalizing goals subst session with
  | zero =>
      cases goals with
      | nil => exact ⟨[], [subst], trivial, .answer, rfl, rfl, rfl, rfl⟩
      | cons goal rest => cases complete
  | succ depth ih =>
      cases goals with
      | nil => exact ⟨[], [subst], trivial, .answer, rfl, rfl, rfl, rfl⟩
      | cons goal rest =>
          obtain ⟨copies, answers, serial, explored, finds⟩ :=
            isExplored_resolve (fun _ _ _ => ih) complete
          exact ⟨copies, answers, serial, .select explored, finds⟩

end Search

/-- What the recursion lists for a branch, with clauses numbered from the index on. Goals are
one deeper than an attempt that goes on with them. -/
def Branch.listing (database : Database) (depth index : Nat) : Branch → Session → Listing
  | .prove goals subst => Search.proofs database (depth + 1) goals subst
  | .resolve goal rest subst clauses =>
      Search.resolveWith (Search.proofs database depth) goal rest subst clauses index
  | .attempt goal rest subst clause =>
      Search.resolveWith (Search.proofs database depth) goal rest subst [clause] index

/-- A branch that is explored with copies made in series is listed by the recursion. -/
theorem Branch.Explored.finds {database : Database} {branch : Branch} {copies : List Copy}
    {answers : List Subst} {session : Session} {depth : Nat}
    (explored : branch.Explored database.newestFirst copies answers)
    (serial : Copy.Serial session.nextVar copies) (deep : copies.length ≤ depth) (index : Nat) :
    (branch.listing database depth index session).Finds session copies answers := by
  induction explored generalizing session depth index with
  | answer => exact ⟨rfl, rfl, rfl, rfl⟩
  | select _ ih => exact ih serial deep 0
  | done => exact ⟨rfl, rfl, rfl, rfl⟩
  | @next _ _ _ _ _ first others _ _ _ _ firstIH restIH =>
      obtain ⟨serialFirst, serialRest⟩ := Copy.serial_append.mp serial
      rw [List.length_append] at deep
      have finds := firstIH serialFirst (Nat.le_of_add_right_le deep) index
      rw [← finds.spends.nextVar] at serialRest
      rw [listing, Search.resolveWith_cons_eq_andThen]
      exact finds.andThen (restIH serialRest (Nat.le_of_add_left_le deep) (index + 1))
  | @enter goal _ _ _ copy copies _ unifies _ ih =>
      obtain ⟨clause, next⟩ := copy
      obtain ⟨rfl, serial⟩ := serial
      obtain ⟨depth, rfl⟩ := Nat.exists_eq_add_one_of_ne_zero (Nat.ne_zero_of_lt deep)
      have spends := session.spends_attempt goal index clause true
      have serial : Copy.Serial (session.attempt goal index clause true).nextVar copies := by
        rw [spends.nextVar]
        simpa using serial
      have finds := ih serial (Nat.le_of_succ_le_succ deep) 0
      rw [listing, Search.resolveWith_of_unify unifies]
      exact ⟨finds.complete, finds.answers, spends.trans finds.spends⟩
  | @skip goal _ _ copy fails =>
      obtain ⟨clause, next⟩ := copy
      obtain ⟨rfl, _⟩ := serial
      rw [listing, Search.resolveWith_of_not_unify fails]
      exact ⟨rfl, rfl, session.spends_attempt goal index clause false⟩

/-! ## Searches that come to their end -/

/-- The listing is complete, with these answers, and has this session behind it. -/
structure Listing.EndsWith (listing : Listing) (answers : List Subst) (after : Session) : Prop where
  complete : listing.complete = true
  answers : listing.results.map Prod.fst = answers
  session : listing.session = after

namespace Search

variable {database : Database} {goals : List Term} {start : Subst}
variable {search : Search} {session after last : Session} {answers others : List Subst}
variable {copies : List Copy}

/-- Alone with its session, the search comes to its end with these answers. -/
def Finishes (search : Search) (session : Session) (answers : List Subst) (after : Session) :
    Prop :=
  ∃ steps rest, collect steps none search session = ⟨answers, true, rest, after⟩

/-- A search comes to its end if it is seen to have no work left. -/
theorem finishes_iff_watch :
    Finishes search session answers after ↔
      ∃ steps, (watch steps search session).listing.EndsWith answers after := by
  constructor
  · rintro ⟨steps, rest, collected⟩
    induction steps generalizing search session answers with
    | zero => cases collected
    | succ steps ih =>
        simp only [collect] at collected
        cases step : search.step session with
        | exhausted =>
            simp only [step] at collected
            cases collected
            exact ⟨0, List.isEmpty_iff.mpr (frames_eq_nil_of_step step), rfl, rfl⟩
        | found answer later =>
            cases found : collect steps none later session with
            | mk others finished left final =>
            simp only [step, Option.map_none, found] at collected
            cases collected
            obtain ⟨more, complete, same, final⟩ := ih found
            refine ⟨more + 1, ?_⟩
            simp only [watch, step]
            exact ⟨complete, congrArg (List.cons answer) same, final⟩
        | working later next =>
            simp only [step] at collected
            obtain ⟨more, ends⟩ := ih collected
            exact ⟨more + 1, by simpa only [watch, step] using ends⟩
  · rintro ⟨steps, complete, rfl, rfl⟩
    induction steps generalizing search session with
    | zero =>
        have empty : search.frames = [] := List.isEmpty_iff.mp complete
        exact ⟨1, search, by simp [collect, Search.step, empty, watch, Watch.listing]⟩
    | succ steps ih =>
        simp only [watch] at complete ⊢
        cases step : search.step session with
        | exhausted => exact ⟨1, search, by simp [collect, step, Watch.listing]⟩
        | found answer later =>
            simp only [step] at complete
            obtain ⟨more, rest, collected⟩ := ih complete
            refine ⟨more + 1, rest, ?_⟩
            simp only [collect, step, Option.map_none, collected]
            rfl
        | working later next =>
            simp only [step] at complete
            obtain ⟨more, rest, collected⟩ := ih complete
            exact ⟨more + 1, rest, by simpa only [collect, step] using collected⟩

/-- A search that has come to its end stays there. -/
theorem watch_add_of_complete {steps : Nat}
    (complete : (watch steps search session).listing.complete = true) (more : Nat) :
    watch (steps + more) search session = watch steps search session := by
  have empty := List.isEmpty_iff.mp complete
  simp only [watch_add, watch_of_frames_eq_nil empty, List.append_nil]

theorem Finishes.unique (finishes : Finishes search session answers after)
    (again : Finishes search session others last) : answers = others ∧ after = last := by
  obtain ⟨steps, complete, rfl, rfl⟩ := finishes_iff_watch.mp finishes
  obtain ⟨more, completeToo, rfl, rfl⟩ := finishes_iff_watch.mp again
  rw [← watch_add_of_complete complete more, Nat.add_comm, watch_add_of_complete completeToo]
  exact ⟨rfl, rfl⟩

/-- A search comes to its end if its recursion does. -/
theorem finishes_iff_proofs :
    Finishes (all database goals start) session answers after ↔
      ∃ depth, (proofs database depth goals start session).EndsWith answers after := by
  rw [finishes_iff_watch]
  constructor
  · rintro ⟨steps, ends⟩
    obtain ⟨longer, enough, shown⟩ := exists_watch_proofs database steps goals start session
    refine ⟨steps, ?_⟩
    rwa [← shown, ← Nat.add_sub_of_le enough, watch_add_of_complete ends.complete]
  · rintro ⟨depth, ends⟩
    obtain ⟨steps, _, shown⟩ := exists_watch_proofs database depth goals start session
    exact ⟨steps, by rwa [shown]⟩

/-- A search that comes to its end has explored the tree below its goals. -/
theorem Finishes.exists_explored
    (finishes : Finishes (all database goals start) session answers after) :
    ∃ copies, Copy.Serial session.nextVar copies ∧
      (Branch.prove goals start).Explored database.newestFirst copies answers ∧
      session.Spends copies after := by
  obtain ⟨depth, complete, rfl, rfl⟩ := finishes_iff_proofs.mp finishes
  obtain ⟨copies, answers, serial, explored, finds⟩ := isExplored_proofs complete
  exact ⟨copies, serial, finds.answers ▸ explored, finds.spends⟩

end Search

namespace Branch

open Search

variable {database : Database} {goals : List Term} {start : Subst}
variable {session one two : Session} {copies made : List Copy} {answers : List Subst}

/-- A tree that is explored with copies in series is one that a search goes through. -/
theorem Explored.finishes
    (explored : (Branch.prove goals start).Explored database.newestFirst copies answers)
    (serial : Copy.Serial session.nextVar copies) :
    ∃ after, Finishes (all database goals start) session answers after ∧
      session.Spends copies after := by
  have finds := explored.finds serial (Nat.le_refl _) 0
  exact ⟨_, finishes_iff_proofs.mpr ⟨_, finds.complete, finds.answers, rfl⟩, finds.spends⟩

/-- If a tree is explored with some of the copies that were made in one session, in whatever
order, then a search goes through it in another session, with the variables of the copies
renamed. -/
theorem Explored.exists_finishes
    (explored : (Branch.prove goals start).Explored database.newestFirst made answers)
    (serial : Copy.Serial one.nextVar copies) (some : made.Subperm copies)
    (inOne : ∀ id ∈ scope goals start, one.Has id)
    (inTwo : ∀ id ∈ scope goals start, two.Has id) :
    ∃ (rename : Equiv.Perm Nat) (last : Session), (∀ id ∈ scope goals start, rename id = id) ∧
      Finishes (all database goals start) two
        (answers.map (Subst.map (Var.withId rename) id)) last ∧
      two.Spends made last := by
  obtain ⟨among, same, included⟩ := some
  have minted : (Copy.minted made).Subperm (Copy.minted copies) :=
    ⟨_, same.flatMap_right _, included.flatMap _⟩
  have apart : (Copy.minted made).Nodup :=
    (same.flatMap_right _).nodup_iff.mp (serial.nodup.sublist (included.flatMap _))
  obtain ⟨rename, images, serialToo, become, kept⟩ := Copy.exists_serial apart two.nextVar
  have fixed : ∀ id ∈ scope goals start, rename id = id := by
    intro id member
    have old : id ∉ Copy.minted made :=
      fun inMade => serial.not_mem_of_has (inOne id member) (minted.subset inMade)
    exact kept id old (inTwo id member)
  have renamed := explored.map rename.injective become
  rw [map_eq_self fixed] at renamed
  obtain ⟨last, finishes, spends⟩ := renamed.finishes serialToo
  refine ⟨rename, last, fixed, finishes, ?_⟩
  exact ⟨by rw [spends.nextVar, Copy.length_minted_of_becomes become],
    by rw [spends.trials, become.length_eq]⟩

end Branch

end Horn
