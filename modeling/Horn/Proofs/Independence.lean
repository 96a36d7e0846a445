import Mathlib.Logic.Equiv.Basic
import Horn.Proofs.Relabeling
import Horn.Proofs.StandardizedApart

/-!
# Independence of others

What others do to the session changes the identities of the variables that a search
mints, and nothing else: pull by pull two runs of one search find the same, up to a
renaming of variables that fixes those given to the search and keeps names
(`pulls_independent_of_others`).

The runs go in step. At any turn one renaming takes the work and the answers of one run to
those of the other (`Mirrors`). An attempt makes a copy in each run, and the renaming is
changed on the variables of the copies by swapping: on all variables that came up before
it stays as it is, because the copies are new in both runs.
-/

namespace Horn

variable {test : Nat → Prop} {first second : Var → Var} {onAtom : Atom → Atom}

/-- A permutation can be changed to take given numbers to others, and need not be changed
elsewhere. -/
theorem exists_perm_of_pairs (rename : Equiv.Perm Nat) (pairs : List (Nat × Nat))
    (sources : (pairs.map Prod.fst).Nodup) (targets : (pairs.map Prod.snd).Nodup) :
    ∃ changed : Equiv.Perm Nat, (∀ pair ∈ pairs, changed pair.1 = pair.2) ∧
      ∀ id, id ∉ pairs.map Prod.fst → rename id ∉ pairs.map Prod.snd →
        changed id = rename id := by
  induction pairs with
  | nil => exact ⟨rename, by simp, fun _ _ _ => rfl⟩
  | cons pair pairs ih =>
      obtain ⟨source, target⟩ := pair
      simp only [List.map_cons, List.nodup_cons] at sources targets
      obtain ⟨changed, taken, kept⟩ := ih sources.2 targets.2
      -- the image of the source and the target change places
      refine ⟨changed.trans (Equiv.swap (changed source) target), ?_, ?_⟩
      · rw [List.forall_mem_cons]
        refine ⟨by simp, ?_⟩
        intro other member
        rw [Equiv.trans_apply, taken other member]
        apply Equiv.swap_apply_of_ne_of_ne
        · rw [← taken other member]
          intro same
          exact sources.1 (changed.injective same ▸ List.mem_map_of_mem member)
        · intro same
          exact targets.1 (same ▸ List.mem_map_of_mem member)
      · intro id notSource notTarget
        simp only [List.map_cons, List.mem_cons, not_or] at notSource notTarget
        rw [Equiv.trans_apply, kept id notSource.2 notTarget.2]
        apply Equiv.swap_apply_of_ne_of_ne
        · rw [← kept id notSource.2 notTarget.2]
          exact fun same => notSource.1 (changed.injective same)
        · exact notTarget.1

/-- Without repetitions a list has no two equal members. -/
theorem Clause.nodup_ids (clause : Clause) : clause.ids.Nodup := by
  rw [ids_eq]
  exact Var.nodup_eraseDups _

/-- The copies of the variables of a clause are all different. -/
theorem Clause.nodup_copies (clause : Clause) (next : Nat) :
    (clause.ids.map fun id => (clause.copyVar next id).id).Nodup := by
  apply List.Nodup.map_on
  · intro id member other _ same
    exact (List.idxOf_inj member).mp (Nat.add_left_cancel same)
  · exact clause.nodup_ids

/-- A renaming that takes the copies made in one session to those made in another takes
the copy of the clause to the other copy. -/
theorem Session.map_copyOf {session other : Session} {clause : Clause} {rename : Nat → Nat}
    (copies : ∀ id ∈ clause.ids,
      rename (clause.copyVar session.nextVar id).id = (clause.copyVar other.nextVar id).id) :
    (session.copyOf clause).head.map (Var.withId rename) id = (other.copyOf clause).head ∧
      (session.copyOf clause).body.map (Term.map (Var.withId rename) id) =
        (other.copyOf clause).body := by
  have same : ∀ term : Term, (∀ id ∈ term.bare.vars, id ∈ clause.ids) →
      (term.instantiate fun v => .var (clause.copyVar session.nextVar v.id)).map
        (Var.withId rename) id =
        term.instantiate fun v => .var (clause.copyVar other.nextVar v.id) := by
    intro term inClause
    rw [Term.map_instantiate_var]
    apply Term.instantiate_congr
    intro v member
    have taken := copies v.id (inClause v.id (Term.id_mem_vars_bare member))
    -- a copy has the name of the variable in every session
    exact congrArg (fun number => Term.var (Var.mk number (Var.nameIn clause.vars v.id))) taken
  simp only [copyOf, Clause.head_instantiate, Clause.body_instantiate, List.map_map]
  constructor
  · exact same _ fun id member => Clause.mem_ids.mpr (.inl member)
  · apply List.map_congr_left
    intro goal inBody
    exact same goal fun id member => Clause.mem_ids.mpr (.inr ⟨goal, inBody, member⟩)

/-- The renamed goal meets the copy made in the other session as the goal meets its own. -/
theorem Session.unify_copyOf {session other : Session} {clause : Clause} {rename : Nat → Nat}
    (injective : rename.Injective)
    (copies : ∀ id ∈ clause.ids,
      rename (clause.copyVar session.nextVar id).id = (clause.copyVar other.nextVar id).id)
    (goal : Term) (subst : Subst) :
    Subst.unify (goal.map (Var.withId rename) id) (other.copyOf clause).head
        (subst.map (Var.withId rename) id) =
      (Subst.unify goal (session.copyOf clause).head subst).map
        (Subst.map (Var.withId rename) id) := by
  rw [← (map_copyOf copies).1]
  exact Subst.unify_map (Var.faithful_change injective _) Function.injective_id _ _ _

/-! ## Only the variables that occur are renamed -/

theorem Term.Only.map_eq {term : Term} (only : term.Only test)
    (agree : ∀ v : Var, test v.id → first v = second v) :
    term.map first onAtom = term.map second onAtom :=
  map_congr fun v member => agree v (only v.id (id_mem_vars_bare member))

theorem Subst.Only.map_eq {subst : Subst} (only : subst.Only test)
    (agree : ∀ v : Var, test v.id → first v = second v) :
    subst.map first onAtom = subst.map second onAtom := by
  apply Subst.ext
  apply List.map_congr_left
  intro binding member
  obtain ⟨inVar, inValue⟩ := only binding member
  rw [agree binding.var inVar, inValue.map_eq agree]

theorem Frame.Only.map_eq {frame : Frame} (only : frame.Only test)
    (agree : ∀ v : Var, test v.id → first v = second v) :
    frame.map first onAtom = frame.map second onAtom := by
  have goals : frame.goals.map (Term.map first onAtom) =
      frame.goals.map (Term.map second onAtom) :=
    List.map_congr_left fun goal member => (only.goals goal member).map_eq agree
  have subst : frame.subst.map first onAtom = frame.subst.map second onAtom :=
    only.subst.map_eq agree
  cases frame with
  | prove => exact congrArg₂ Frame.prove goals subst
  | resolve goal rest subst' index =>
      simp only [Frame.goals, List.map_cons, List.cons.injEq] at goals
      simp only [Frame.subst] at subst
      simp only [Frame.map, goals, subst]

namespace Search

variable {database : Database} {frames later : List Frame} {session after : Session}
variable {answer : Option Subst}

@[simp] theorem map_alternatives (database : Database) (goal : Term) (rest : List Term)
    (subst : Subst) (index : Nat) (onVar : Var → Var) :
    (alternatives database goal rest subst index).map (Frame.map onVar onAtom) =
      alternatives database (goal.map onVar onAtom) (rest.map (Term.map onVar onAtom))
        (subst.map onVar onAtom) index := by
  by_cases more : index + 1 < database.size <;> simp [alternatives, more, Frame.map]

/-- One clause at most is tried. -/
theorem Attempts.unique {clause other : Clause} (attempts : Attempts database frames clause)
    (again : Attempts database frames other) : other = clause := by
  obtain ⟨_, _, _, _, first, found⟩ := attempts
  obtain ⟨_, _, _, _, same, foundAgain⟩ := again
  cases first.symm.trans same
  exact Option.some_inj.mp (foundAgain.symm.trans found)

theorem Attempts.map {clause : Clause} (attempts : Attempts database frames clause)
    (onVar : Var → Var) : Attempts database (frames.map (Frame.map onVar id)) clause := by
  obtain ⟨_, _, _, _, first, found⟩ := attempts
  exact ⟨_, _, _, _, by rw [List.head?_map, first]; rfl, found⟩

/-- A search whose variables are renamed makes the move renamed, with any session, if the
renaming takes the copy that is made in the one session to that in the other. -/
theorem Move.map (move : Move database frames session answer later after) (other : Session)
    {rename : Nat → Nat} (injective : rename.Injective)
    (copies : ∀ clause, Attempts database frames clause → ∀ id ∈ clause.ids,
      rename (clause.copyVar session.nextVar id).id = (clause.copyVar other.nextVar id).id) :
    ∃ otherAfter, Move database (frames.map (Frame.map (Var.withId rename) id)) other
      (answer.map (Subst.map (Var.withId rename) id))
      (later.map (Frame.map (Var.withId rename) id)) otherAfter := by
  cases move with
  | answer => exact ⟨_, .answer⟩
  | select => exact ⟨_, .select⟩
  | drop absent => exact ⟨_, .drop absent⟩
  | @enter goal _ _ _ index _ _ clause found unifies =>
      have taken := copies clause ⟨_, _, _, _, List.head?_cons, found⟩
      refine ⟨other.attempt (goal.map (Var.withId rename) id) index clause true, ?_⟩
      simp only [List.map_cons, List.map_append, map_alternatives, Frame.map,
        (Session.map_copyOf taken).2]
      apply Move.enter found
      rw [Session.unify_copyOf injective taken, unifies, Option.map_some]
  | @skip goal _ _ index _ _ clause found fails =>
      have taken := copies clause ⟨_, _, _, _, List.head?_cons, found⟩
      refine ⟨other.attempt (goal.map (Var.withId rename) id) index clause false, ?_⟩
      simp only [List.map_cons, List.map_append, map_alternatives, Frame.map]
      apply Move.skip found
      rw [Session.unify_copyOf injective taken, fails, Option.map_none]

/-- A renaming can be changed to take the copy that is made next in one session to that
made in another, and stays as it is on the variables handed out before. -/
theorem exists_perm_attempt (database : Database) (frames : List Frame) (session other : Session)
    (rename : Equiv.Perm Nat) :
    ∃ changed : Equiv.Perm Nat,
      (∀ clause, Attempts database frames clause → ∀ id ∈ clause.ids,
        changed (clause.copyVar session.nextVar id).id = (clause.copyVar other.nextVar id).id) ∧
      ∀ id, session.Has id → other.Has (rename id) → changed id = rename id := by
  by_cases attempt : ∃ clause, Attempts database frames clause
  · obtain ⟨clause, attempts⟩ := attempt
    obtain ⟨changed, taken, kept⟩ := exists_perm_of_pairs rename
      (clause.ids.map fun id =>
        ((clause.copyVar session.nextVar id).id, (clause.copyVar other.nextVar id).id))
      (by simpa [Function.comp_def] using clause.nodup_copies session.nextVar)
      (by simpa [Function.comp_def] using clause.nodup_copies other.nextVar)
    refine ⟨changed, ?_, ?_⟩
    · intro tried again id member
      cases attempts.unique again
      exact taken _ (List.mem_map_of_mem member)
    · intro id has hasImage
      apply kept
      · intro member
        simp only [List.map_map, List.mem_map, Function.comp_apply] at member
        obtain ⟨original, inClause, rfl⟩ := member
        exact Session.not_has_copy _ (Session.mem_ids_copyOf.mpr ⟨_, inClause, rfl⟩) has
      · intro member
        simp only [List.map_map, List.mem_map, Function.comp_apply] at member
        obtain ⟨original, inClause, same⟩ := member
        rw [← same] at hasImage
        exact Session.not_has_copy _ (Session.mem_ids_copyOf.mpr ⟨_, inClause, rfl⟩) hasImage
  · exact ⟨rename, fun clause attempts => absurd ⟨clause, attempts⟩ attempt,
      fun _ _ _ => rfl⟩

/-! ## Two runs in step -/

/-- The variable was handed out in one run, and its image in the other. -/
def Handed (rename : Nat → Nat) (one two : Session) (id : Nat) : Prop :=
  one.Has id ∧ two.Has (rename id)

/-- The renaming takes the work and the answers of one run to those of another, and it
fixes the given variables. All variables that come up were handed out, and so were those
that they are renamed to. -/
structure Mirrors (rename : Equiv.Perm Nat) (given : List Nat) (one two : Watch) : Prop where
  fixed : ∀ id ∈ given, rename id = id
  frames : two.search.frames = one.search.frames.map (Frame.map (Var.withId rename) id)
  results : two.results.map Prod.fst =
    one.results.map fun result => result.1.map (Var.withId rename) id
  inGiven : ∀ id ∈ given, Handed rename one.session two.session id
  inFrames : ∀ frame ∈ one.search.frames, frame.Only (Handed rename one.session two.session)
  inResults : ∀ result ∈ one.results, result.1.Only (Handed rename one.session two.session)

variable {search : Search} {one two : Session} {first second : Others} {given : List Nat}
variable {rename : Equiv.Perm Nat} {turn : Nat} {seen other : Watch}

theorem Handed.mono {rename : Nat → Nat} {id : Nat} {laterOne laterTwo : Session}
    (handed : Handed rename one two id) (olderOne : one.nextVar ≤ laterOne.nextVar)
    (olderTwo : two.nextVar ≤ laterTwo.nextVar) : Handed rename laterOne laterTwo id :=
  ⟨Nat.lt_of_lt_of_le handed.1 olderOne, Nat.lt_of_lt_of_le handed.2 olderTwo⟩

/-- Runs in step stay so while identities are taken from their sessions. -/
theorem Mirrors.wait (mirrors : Mirrors rename given seen other)
    (olderOne : seen.session.nextVar ≤ one.nextVar)
    (olderTwo : other.session.nextVar ≤ two.nextVar) :
    Mirrors rename given { seen with session := one } { other with session := two } where
  fixed := mirrors.fixed
  frames := mirrors.frames
  results := mirrors.results
  inGiven id member := (mirrors.inGiven id member).mono olderOne olderTwo
  inFrames frame member :=
    (mirrors.inFrames frame member).mono fun _ handed => handed.mono olderOne olderTwo
  inResults result member :=
    (mirrors.inResults result member).mono fun _ handed => handed.mono olderOne olderTwo

/-- The renaming may be changed on variables that were not handed out. -/
theorem Mirrors.change {changed : Equiv.Perm Nat} (mirrors : Mirrors rename given seen other)
    (agree : ∀ id, Handed rename seen.session other.session id → changed id = rename id) :
    Mirrors changed given seen other := by
  have handed : ∀ id, Handed rename seen.session other.session id →
      Handed changed seen.session other.session id := by
    intro id handed
    exact ⟨handed.1, (agree id handed).symm ▸ handed.2⟩
  have agreeVars : ∀ v : Var, Handed rename seen.session other.session v.id →
      v.withId rename = v.withId changed :=
    fun v handed => congrArg (fun number => Var.mk number v.name) (agree v.id handed).symm
  refine ⟨?_, ?_, ?_, fun id member => handed id (mirrors.inGiven id member),
    fun frame member => (mirrors.inFrames frame member).mono handed,
    fun result member => (mirrors.inResults result member).mono handed⟩
  · intro id member
    rw [agree id (mirrors.inGiven id member), mirrors.fixed id member]
  · rw [mirrors.frames]
    exact List.map_congr_left fun frame member =>
      (mirrors.inFrames frame member).map_eq agreeVars
  · rw [mirrors.results]
    exact List.map_congr_left fun result member =>
      (mirrors.inResults result member).map_eq agreeVars

/-- Where one run makes a move, the other makes it renamed, and the two are in step again
once the renaming takes the copy made by the one to that made by the other. -/
theorem Mirrors.move (mirrors : Mirrors rename given seen other)
    (move : Move database seen.search.frames seen.session answer later after) :
    ∃ (changed : Equiv.Perm Nat) (image : Option Subst) (otherLater : List Frame)
      (otherAfter : Session),
      Move database other.search.frames other.session image otherLater otherAfter ∧
      Mirrors changed given
        ⟨seen.results ++ answer.toList.map fun found => (found, after),
          ⟨database, later⟩, after⟩
        ⟨other.results ++ image.toList.map fun found => (found, otherAfter),
          ⟨database, otherLater⟩, otherAfter⟩ := by
  obtain ⟨changed, copies, kept⟩ := exists_perm_attempt database seen.search.frames
    seen.session other.session rename
  have mirrors := mirrors.change fun id handed => kept id handed.1 handed.2
  obtain ⟨otherAfter, moveToo⟩ := move.map other.session changed.injective copies
  rw [← mirrors.frames] at moveToo
  have waited := mirrors.wait move.nextVar_le moveToo.nextVar_le
  have inCopies : ∀ clause, Attempts database seen.search.frames clause →
      ∀ id ∈ (seen.session.copyOf clause).ids, Handed changed after otherAfter id := by
    intro clause attempts id member
    refine ⟨move.has_copy attempts id member, ?_⟩
    obtain ⟨original, inClause, rfl⟩ := Session.mem_ids_copyOf.mp member
    rw [copies clause attempts original inClause]
    have attemptsToo := attempts.map (Var.withId changed)
    rw [← mirrors.frames] at attemptsToo
    exact moveToo.has_copy attemptsToo _ (Session.mem_ids_copyOf.mpr ⟨original, inClause, rfl⟩)
  have moved := move.only inCopies waited.inFrames
  refine ⟨changed, _, _, otherAfter, moveToo, mirrors.fixed, rfl, ?_, waited.inGiven,
    moved.1, ?_⟩
  · rw [List.map_append, List.map_append, mirrors.results]
    cases answer <;> rfl
  · refine List.forall_mem_append.mpr ⟨waited.inResults, List.forall_mem_map.mpr ?_⟩
    intro found isAnswer
    exact (moved.2 found (by simpa using isAnswer)).subst

/-- The runs stay in step turn by turn. -/
theorem Mirrors.next
    (mirrors : Mirrors rename given (watchAmong first search one turn)
      (watchAmong second search two turn)) :
    ∃ changed, Mirrors changed given (watchAmong first search one (turn + 1))
      (watchAmong second search two (turn + 1)) := by
  have shared : Mirrors rename given
      { watchAmong first search one turn with session := sharedSession first search one turn }
      { watchAmong second search two turn with
        session := sharedSession second search two turn } :=
    mirrors.wait nextVar_le_sharedSession nextVar_le_sharedSession
  rcases turn_cases first search one turn with empty | ⟨answer, later, after, move⟩
  · have emptyToo : (watchAmong second search two turn).search.frames = [] := by
      rw [mirrors.frames, empty, List.map_nil]
    rw [watchAmong_succ_of_nil empty, watchAmong_succ_of_nil emptyToo]
    exact ⟨rename, shared⟩
  · obtain ⟨changed, image, otherLater, otherAfter, moveToo, moved⟩ := shared.move move
    rw [watchAmong_succ_of_move move, watchAmong_succ_of_move moveToo]
    exact ⟨changed, moved⟩

variable {goals : List Term} {start : Subst}

/-- The runs are in step at first. -/
theorem mirrors_initially (opens : Opens database goals start search)
    (inGoalsOne : ∀ goal ∈ goals, goal.Only one.Has) (inStartOne : start.Only one.Has)
    (inGoalsTwo : ∀ goal ∈ goals, goal.Only two.Has) (inStartTwo : start.Only two.Has)
    (first second : Others) :
    Mirrors (Equiv.refl Nat) (scope goals start)
      (watchAmong first search one 0) (watchAmong second search two 0) := by
  obtain ⟨frame, rfl, rfl, rfl⟩ := opens.eq_singleton
  have inFrameOne : frame.Only one.Has := ⟨inGoalsOne, inStartOne⟩
  have inFrameTwo : frame.Only two.Has := ⟨inGoalsTwo, inStartTwo⟩
  have handed : ∀ id ∈ frame.ids, Handed (Equiv.refl Nat) one two id :=
    fun id member =>
      ⟨Frame.only_iff.mp inFrameOne id member, Frame.only_iff.mp inFrameTwo id member⟩
  refine ⟨fun _ _ => rfl, ?_, rfl, handed, ?_, ?_⟩
  · exact congrArg (fun frame => [frame]) frame.map_id.symm
  · simpa only [watchAmong, List.forall_mem_singleton] using Frame.only_iff.mpr handed
  · simp [watchAmong]

/-- At any turn the runs are in step. -/
theorem exists_mirrors
    (start : Mirrors (Equiv.refl Nat) given (watchAmong first search one 0)
      (watchAmong second search two 0)) (turn : Nat) :
    ∃ rename, Mirrors rename given (watchAmong first search one turn)
      (watchAmong second search two turn) := by
  induction turn with
  | zero => exact ⟨_, start⟩
  | succ turn ih =>
      obtain ⟨rename, mirrors⟩ := ih
      exact mirrors.next

/-- What is known of the results of one run is known of those of the other, renamed. -/
theorem Mirrors.nth? (mirrors : Mirrors rename given seen other)
    {n : Nat} {result : Option Subst} {after : Session}
    (known : seen.listing.nth? n = some (result, after)) :
    ∃ later, other.listing.nth? n =
      some (result.map (Subst.map (Var.withId rename) id), later) := by
  let renamed (answer image : Subst) : Prop := image = answer.map (Var.withId rename) id
  -- nothing is asked of the sessions
  let alike (_ _ : Session) : Prop := True
  have results : List.Forall₂ (fun known image => renamed known.1 image.1 ∧ alike known.2 image.2)
      seen.listing.results other.listing.results := by
    have paired := mirrors.results
    rw [← List.forall₂_eq_eq_eq, List.forall₂_map_left_iff, List.forall₂_map_right_iff] at paired
    exact paired.flip.imp fun _ _ same => ⟨same, trivial⟩
  have sameEnd : other.listing.complete = seen.listing.complete := by
    simp only [Watch.listing, mirrors.frames, List.isEmpty_map]
  have related := Listing.rel_nth? results sameEnd trivial n
  rw [known] at related
  generalize other.listing.nth? n = knownToo at related
  cases related with
  | some related =>
      exact ⟨_, congrArg some (Prod.ext (eq_map_of_rel related.1) rfl)⟩

/-- What a pull of one run returns, the same pull of another run returns renamed. -/
theorem NthPull.exists_rename {n : Nat} {result : Option Subst}
    (pulled : NthPull first search one n result)
    (start : Mirrors (Equiv.refl Nat) given (watchAmong first search one 0)
      (watchAmong second search two 0)) :
    ∃ rename : Equiv.Perm Nat, (∀ id ∈ given, rename id = id) ∧
      NthPull second search two n (result.map (Subst.map (Var.withId rename) id)) := by
  obtain ⟨turns, after, known⟩ := pulled
  obtain ⟨rename, mirrors⟩ := exists_mirrors start turns
  obtain ⟨later, knownToo⟩ := mirrors.nth? known
  exact ⟨rename, mirrors.fixed, turns, later, knownToo⟩

/-- What others do to the session does not change what a search finds. Let a search be run
twice, among any others, from sessions that have handed out the variables of its goals and
its substitution. Then each pull gives an answer in one run if and only if it does in the
other, and reports the end in one if and only if it does in the other. The answer of the
one run is that of the other, binding by binding, up to an injective renaming of variables
that fixes those given to the search and keeps names. -/
theorem pulls_independent_of_others (opens : Opens database goals start search)
    (inGoalsOne : ∀ goal ∈ goals, goal.Only one.Has) (inStartOne : start.Only one.Has)
    (inGoalsTwo : ∀ goal ∈ goals, goal.Only two.Has) (inStartTwo : start.Only two.Has)
    (first second : Others) (n : Nat) :
    ((∃ answer, NthPull first search one n (some answer)) ↔
      ∃ answer, NthPull second search two n (some answer)) ∧
    (NthPull first search one n none ↔ NthPull second search two n none) ∧
    ∀ answer image, NthPull first search one n (some answer) →
      NthPull second search two n (some image) →
      ∃ rename : Nat → Nat, rename.Injective ∧
        (∀ id ∈ scope goals start, rename id = id) ∧
        image = answer.map (Var.withId rename) id := by
  have there := mirrors_initially opens inGoalsOne inStartOne inGoalsTwo inStartTwo first second
  have back := mirrors_initially opens inGoalsTwo inStartTwo inGoalsOne inStartOne second first
  refine ⟨⟨?_, ?_⟩, ⟨?_, ?_⟩, ?_⟩
  · rintro ⟨answer, pulled⟩
    obtain ⟨_, _, pulledToo⟩ := pulled.exists_rename there
    exact ⟨_, pulledToo⟩
  · rintro ⟨answer, pulled⟩
    obtain ⟨_, _, pulledToo⟩ := pulled.exists_rename back
    exact ⟨_, pulledToo⟩
  · intro pulled
    obtain ⟨_, _, pulledToo⟩ := pulled.exists_rename there
    exact pulledToo
  · intro pulled
    obtain ⟨_, _, pulledToo⟩ := pulled.exists_rename back
    exact pulledToo
  · intro answer image pulled pulledToo
    obtain ⟨rename, fixed, renamed⟩ := pulled.exists_rename there
    have same : some image = some (answer.map (Var.withId rename) id) := pulledToo.unique renamed
    exact ⟨rename, rename.injective, fixed, Option.some_inj.mp same⟩

/-- With nobody else about, the search for `(p . y)` binds `y` to the variable `x#2` of a
copy of the only fact. If others mint three variables before every turn it is `x#8`, and a
renaming takes the one answer to the other. Both runs end after it. -/
theorem pulls_independent_of_others_fact :
    let y : Var := ⟨1, "y"⟩
    let p := Term.symbol "p"
    let fact : Clause := .fact (.pair p (.var ⟨0, "x"⟩))
    let search := all ⟨#[fact]⟩ [.pair p (.var y)] .empty
    let session : Session := ⟨2, []⟩
    let others : Others := ⟨fun _ session => ⟨session.nextVar + 3, session.log⟩,
      fun _ _ => Nat.le_add_right _ _⟩
    let answer := Subst.empty.bind y (.var ⟨2, "x"⟩)
    let image := Subst.empty.bind y (.var ⟨8, "x"⟩)
    NthPull .nobody search session 0 (some answer) ∧
      NthPull others search session 0 (some image) ∧
      NthPull others search session 1 none ∧ NthPull .nobody search session 1 none ∧
      ∃ rename : Nat → Nat, rename.Injective ∧ rename y.id = y.id ∧
        image = answer.map (Var.withId rename) id := by
  intro y p fact search session others answer image
  have inGoals : ∀ goal ∈ [Term.pair p (.var y)], goal.Only session.Has := by
    simp [Term.Only, p, Term.vars, session, Session.Has, y]
  have independent := pulls_independent_of_others (.all : Opens ⟨#[fact]⟩ _ .empty search)
    inGoals Subst.only_empty inGoals Subst.only_empty .nobody others
  have pulled : NthPull .nobody search session 0 (some answer) := by
    simp only [NthPull, watchAmong_nobody]
    exact ⟨3, _, rfl⟩
  have pulledToo : NthPull others search session 0 (some image) := ⟨3, _, rfl⟩
  have ended : NthPull others search session 1 none := ⟨3, _, rfl⟩
  obtain ⟨rename, injective, fixed, same⟩ := (independent 0).2.2 _ _ pulled pulledToo
  exact ⟨pulled, pulledToo, ended, (independent 1).2.1.mpr ended, rename, injective,
    fixed y.id (by decide), same⟩

end Search

end Horn
