import Horn.Proofs.Interleaving
import Horn.Proofs.Variables

/-!
# Standardizing apart

A search keeps its variables apart from all others. Those that come up in it were given
to it, in the goals or the substitution, or were minted for a copy that it made itself,
whatever others mint in between. The variables of the next copy come up nowhere yet, and
the variables of stored clauses never do unless they were given
(`copies_standardized_apart`).

The invariant of a turn is `Known`. Only copies bring variables in, and a copy is made of
identities that the session has not reached.
-/

namespace Horn

variable {test : Nat → Prop}

/-- The identities of all variables of the bindings, bound or in a value. -/
def Subst.ids (subst : Subst) : List Nat :=
  subst.bindings.flatMap fun binding => binding.var.id :: binding.value.bare.vars

theorem Subst.only_iff {subst : Subst} : subst.Only test ↔ ∀ id ∈ subst.ids, test id := by
  simp only [Only, Term.Only, ids, List.forall_mem_flatMap, List.forall_mem_cons]

/-- The identities of all variables of the goals and of the substitution. -/
def Frame.ids (frame : Frame) : List Nat :=
  (frame.goals.flatMap fun goal => goal.bare.vars) ++ frame.subst.ids

theorem Frame.only_iff {frame : Frame} : frame.Only test ↔ ∀ id ∈ frame.ids, test id := by
  rw [ids, List.forall_mem_append, List.forall_mem_flatMap, ← Subst.only_iff]
  exact ⟨fun only => ⟨only.goals, only.subst⟩, fun only => ⟨only.1, only.2⟩⟩

namespace Search

/-- The identities of all variables that a search for goals under a substitution is given. -/
def scope (goals : List Term) (start : Subst) : List Nat :=
  (goals.flatMap fun goal => goal.bare.vars) ++ start.ids

variable {database : Database} {goals : List Term} {start : Subst} {search : Search}
variable {others : Others} {session : Session} {turn id : Nat}

/-- The variable belongs to a copy that the search made before the turn. -/
def Minted (others : Others) (search : Search) (session : Session) (turn id : Nat) : Prop :=
  ∃ earlier < turn, ∃ clause,
    Attempts search.database (watchAmong others search session earlier).search.frames clause ∧
      id ∈ ((sharedSession others search session earlier).rename clause).1.ids

/-- The variable was handed out, to whoever opened the search or to the search itself. -/
def Known (others : Others) (search : Search) (session : Session) (given : List Nat)
    (turn id : Nat) : Prop :=
  (watchAmong others search session turn).session.Has id ∧
    (id ∈ given ∨ Minted others search session turn id)

theorem nextVar_le_succ (others : Others) (search : Search) (session : Session) (turn : Nat) :
    (watchAmong others search session turn).session.nextVar ≤
      (watchAmong others search session (turn + 1)).session.nextVar := by
  rcases turn_cases others search session turn with empty | ⟨answer, later, after, move⟩
  · rw [watchAmong_succ_of_nil empty]
    exact nextVar_le_sharedSession
  · rw [watchAmong_succ_of_move move]
    exact nextVar_le_sharedSession.trans move.nextVar_le

theorem nextVar_le_watchAmong (others : Others) (search : Search) (session : Session)
    (turn : Nat) :
    session.nextVar ≤ (watchAmong others search session turn).session.nextVar := by
  induction turn with
  | zero => exact Nat.le_refl _
  | succ turn ih => exact ih.trans (nextVar_le_succ others search session turn)

/-- A copy is made of identities beyond those that were there when the search began. -/
theorem not_has_of_minted (minted : Minted others search session turn id) :
    ¬session.Has id := by
  obtain ⟨earlier, _, clause, _, member⟩ := minted
  rw [Session.rename_eq] at member
  intro has
  apply Session.not_has_copy id member
  exact Nat.lt_of_lt_of_le has
    ((nextVar_le_watchAmong others search session earlier).trans nextVar_le_sharedSession)

/-- What is known stays known. -/
theorem Known.succ {given : List Nat} (known : Known others search session given turn id) :
    Known others search session given (turn + 1) id := by
  refine ⟨Nat.lt_of_lt_of_le known.1 (nextVar_le_succ others search session turn),
    known.2.imp_right ?_⟩
  rintro ⟨earlier, before, copied⟩
  exact ⟨earlier, Nat.lt_succ_of_lt before, copied⟩

/-- After any number of turns the work that is left and the answers so far have only
known variables, if that is so of the work at first. -/
theorem only_known {given : List Nat} (others : Others)
    (first : ∀ frame ∈ search.frames, frame.Only (Known others search session given 0))
    (turn : Nat) :
    (∀ frame ∈ (watchAmong others search session turn).search.frames,
      frame.Only (Known others search session given turn)) ∧
      ∀ result ∈ (watchAmong others search session turn).results,
        result.1.Only (Known others search session given turn) := by
  induction turn with
  | zero => exact ⟨first, fun _ member => absurd member List.not_mem_nil⟩
  | succ turn ih =>
      have inFrames : ∀ frame ∈ (watchAmong others search session turn).search.frames,
          frame.Only (Known others search session given (turn + 1)) :=
        fun frame member => (ih.1 frame member).mono fun _ known => known.succ
      have inResults : ∀ result ∈ (watchAmong others search session turn).results,
          result.1.Only (Known others search session given (turn + 1)) :=
        fun result member => (ih.2 result member).mono fun _ known => known.succ
      rcases turn_cases others search session turn with empty | ⟨answer, later, after, move⟩
      · rw [watchAmong_succ_of_nil empty]
        exact ⟨inFrames, inResults⟩
      · have next := watchAmong_succ_of_move move
        have copies : ∀ clause, Attempts search.database
            (watchAmong others search session turn).search.frames clause →
            ∀ id ∈ ((sharedSession others search session turn).copyOf clause).ids,
              Known others search session given (turn + 1) id := by
          intro clause attempts id member
          refine ⟨?_, .inr ⟨turn, Nat.lt_succ_self turn, clause, attempts, ?_⟩⟩
          · rw [next]
            exact move.has_copy attempts id member
          · rwa [Session.rename_eq]
        have moved := move.only copies inFrames
        rw [next]
        refine ⟨moved.1, List.forall_mem_append.mpr ⟨inResults, List.forall_mem_map.mpr ?_⟩⟩
        intro found isAnswer
        exact (moved.2 found (by simpa using isAnswer)).subst

/-- A search opened when all variables of the database, the goals and the substitution
were minted keeps its variables apart. After any number of turns among others, every
variable in its frames and answers was handed out, and was given to the search or minted
for one of its own copies; the variables of the copy made next are in no frame and in no
stored clause; and no variable of a stored clause is in an answer unless it was given. -/
theorem copies_standardized_apart (opens : Opens database goals start search)
    (inDatabase : ∀ clause ∈ database.declared, ∀ id ∈ clause.ids, session.Has id)
    (inGoals : ∀ goal ∈ goals, goal.Only session.Has) (inStart : start.Only session.Has)
    (others : Others) (turn : Nat) :
    let seen := watchAmong others search session turn
    let given := scope goals start
    (∀ id, (∃ frame ∈ seen.search.frames, id ∈ frame.ids) ∨
        (∃ result ∈ seen.results, id ∈ result.1.ids) →
      seen.session.Has id ∧ (id ∈ given ∨ Minted others search session turn id)) ∧
    (∀ clause, Attempts database seen.search.frames clause →
      ∀ id ∈ ((sharedSession others search session turn).rename clause).1.ids,
        (∀ frame ∈ seen.search.frames, id ∉ frame.ids) ∧
        ∀ stored ∈ database.declared, id ∉ stored.ids) ∧
    ∀ stored ∈ database.declared, ∀ id ∈ stored.ids, ∀ result ∈ seen.results,
      id ∈ result.1.ids → id ∈ given := by
  intro seen given
  have first : ∀ frame ∈ search.frames, frame.Only (Known others search session given 0) := by
    obtain ⟨frame, rfl, rfl, rfl⟩ := opens.eq_singleton
    rw [List.forall_mem_singleton, Frame.only_iff]
    have has : frame.Only session.Has := ⟨inGoals, inStart⟩
    exact fun id member => ⟨Frame.only_iff.mp has id member, .inl member⟩
  obtain ⟨inFrames, inResults⟩ := only_known others first turn
  have known : ∀ id, (∃ frame ∈ seen.search.frames, id ∈ frame.ids) ∨
      (∃ result ∈ seen.results, id ∈ result.1.ids) →
      Known others search session given turn id := by
    rintro id (⟨frame, member, inside⟩ | ⟨result, member, inside⟩)
    · exact Frame.only_iff.mp (inFrames frame member) id inside
    · exact Subst.only_iff.mp (inResults result member) id inside
  refine ⟨known, ?_, ?_⟩
  · intro clause _ id inCopy
    rw [Session.rename_eq] at inCopy
    have new := Session.not_has_copy id inCopy
    constructor
    · intro frame member inside
      have has := (known id (.inl ⟨frame, member, inside⟩)).1
      exact new (Nat.lt_of_lt_of_le has nextVar_le_sharedSession)
    · intro stored member inside
      have has := inDatabase stored member id inside
      exact new (Nat.lt_of_lt_of_le has
        ((nextVar_le_watchAmong others search session turn).trans nextVar_le_sharedSession))
  · intro stored declared id inStored result member inside
    rcases (known id (.inr ⟨result, member, inside⟩)).2 with isGiven | minted
    · exact isGiven
    · exact absurd (inDatabase stored declared id inStored) (not_has_of_minted minted)

/-- Others mint three variables before every turn. The search for `(p . y)` binds `y` to
the variable of a copy of the only fact, which is new at the turn that makes the copy; the
variable of the fact itself is not in the answer. -/
theorem copies_standardized_apart_fact :
    let x : Var := ⟨0, "x"⟩
    let y : Var := ⟨1, "y"⟩
    let copied : Var := ⟨8, "x"⟩
    let p := Term.symbol "p"
    let fact : Clause := .fact (.pair p (.var x))
    let database : Database := ⟨#[fact]⟩
    let search := all database [.pair p (.var y)] .empty
    let session : Session := ⟨2, []⟩
    let others : Others := ⟨fun _ session => ⟨session.nextVar + 3, session.log⟩,
      fun _ _ => Nat.le_add_right _ _⟩
    let seen := watchAmong others search session
    Attempts database (seen 1).search.frames fact ∧
      (∀ frame ∈ (seen 1).search.frames, copied.id ∉ frame.ids) ∧
      (seen 3).results.map Prod.fst = [Subst.empty.bind y (.var copied)] ∧
      Minted others search session 3 copied.id ∧
      ∀ result ∈ (seen 3).results, x.id ∉ result.1.ids := by
  intro x y copied p fact database search session others seen
  have inDatabase : ∀ clause ∈ database.declared, ∀ id ∈ clause.ids, session.Has id := by
    simp [database, Database.declared, fact, Clause.mem_ids, p, Term.vars, session,
      Session.Has, x]
  have inGoals : ∀ goal ∈ [Term.pair p (.var y)], goal.Only session.Has := by
    simp [Term.Only, p, Term.vars, session, Session.Has, y]
  have attempts : Attempts database (seen 1).search.frames fact :=
    ⟨.pair p (.var y), [], .empty, 0, rfl, rfl⟩
  have apart := copies_standardized_apart .all inDatabase inGoals Subst.only_empty others
  have ends : (seen 3).results.map Prod.fst = [Subst.empty.bind y (.var copied)] := rfl
  have answer : Subst.empty.bind y (.var copied) ∈ (seen 3).results.map Prod.fst := by
    simp [ends]
  obtain ⟨result, member, same⟩ := List.mem_map.mp answer
  refine ⟨attempts, ?_, ends, ?_, ?_⟩
  · exact ((apart 1).2.1 fact attempts copied.id (by decide)).1
  · have known := (apart 3).1 copied.id (.inr ⟨result, member, by rw [same]; decide⟩)
    exact known.2.resolve_left (by decide)
  · intro result member inside
    have stored : fact ∈ database.declared := List.mem_singleton_self fact
    exact absurd ((apart 3).2.2 fact stored x.id (by decide) result member inside) (by decide)

end Search

end Horn
