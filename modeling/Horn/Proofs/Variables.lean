import Horn.Proofs.MostGeneral
import Horn.Proofs.Running

/-!
# The variables of a search

`Only test` says of a term, a substitution or a frame that the identities of all its
variables pass a test. Unification brings in no variables, a copy of a clause brings in only those
minted for it, and so a search that starts below the next free identity stays below it
(`Search.Move.ready`).
-/

namespace Horn

variable {test : Nat → Prop} {other : Nat → Prop}

/-- Every variable of the term passes the test. -/
def Term.Only (test : Nat → Prop) (term : Term) : Prop :=
  ∀ id ∈ term.bare.vars, test id

theorem Term.Only.head {head tail : Term} (only : (Term.pair head tail).Only test) :
    head.Only test :=
  fun id member => only id (mem_vars_pair.mpr (.inl member))

theorem Term.Only.tail {head tail : Term} (only : (Term.pair head tail).Only test) :
    tail.Only test :=
  fun id member => only id (mem_vars_pair.mpr (.inr member))

/-- Maps that agree on the variables of a term have the same instance of it. -/
theorem Term.Only.instantiate_eq {term : Term} {first second : Nat → Term Nat}
    (only : term.Only test) (agree : ∀ id, test id → first id = second id) :
    term.bare.instantiate first = term.bare.instantiate second :=
  instantiate_congr fun id member => agree id (only id member)

theorem Term.map_instantiate_eq {terms : List Term} {first second : Nat → Term Nat}
    (only : ∀ term ∈ terms, term.Only test) (agree : ∀ id, test id → first id = second id) :
    (terms.map fun term => term.bare.instantiate first) =
      terms.map fun term => term.bare.instantiate second :=
  List.map_congr_left fun term member => (only term member).instantiate_eq agree

namespace Subst

variable {subst : Subst} {v : Var} {value term left right : Term}

/-- Every bound variable and every variable of a value passes the test. -/
def Only (test : Nat → Prop) (subst : Subst) : Prop :=
  ∀ binding ∈ subst.bindings, test binding.var.id ∧ binding.value.Only test

theorem only_empty : empty.Only test :=
  fun _ member => absurd member List.not_mem_nil

theorem Only.mono (only : subst.Only test) (weaker : ∀ id, test id → other id) :
    subst.Only other :=
  fun binding member =>
    ⟨weaker _ (only binding member).1,
      fun id inside => weaker id ((only binding member).2 id inside)⟩

theorem Only.lookup {id : Nat} (only : subst.Only test) (found : subst.lookup id = some value) :
    test id ∧ value.Only test := by
  obtain ⟨v, rfl, member⟩ := exists_mem_bindings_of_lookup found
  exact only _ member

theorem Only.walk (only : subst.Only test) (inTerm : term.Only test) :
    (subst.walk term).Only test :=
  walk_induction inTerm fun found => (only.lookup found).2

theorem Only.of_extend {extended : Subst} (only : subst.Only test) (inVar : test v.id)
    (inValue : value.Only test) (made : subst.extend v value = some extended) :
    extended.Only test := by
  obtain ⟨_, rfl⟩ := extend_eq_some_iff.mp made
  intro binding member
  rcases List.mem_cons.mp member with rfl | older
  · exact ⟨inVar, inValue⟩
  · exact only binding older

/-- A variable that a term walks to is one of those at hand. -/
theorem Only.of_walk_eq_var (only : subst.Only test) (inTerm : term.Only test)
    (walked : subst.walk term = .var v) : test v.id := by
  have inWalked := only.walk inTerm
  rw [walked] at inWalked
  exact inWalked v.id (by simp)

/-- Unification brings in no variables. -/
theorem Only.of_unifyWithin {sharing : Sharing} {depth : Nat} {place : List Part}
    {unified : Subst} (only : subst.Only test) (inLeft : left.Only test)
    (inRight : right.Only test)
    (unifies : unifyWithin sharing depth place left right subst = some unified) :
    unified.Only test := by
  induction depth generalizing place left right subst unified with
  | zero => cases unifies
  | succ depth ih =>
      have walkedLeft := only.walk inLeft
      have walkedRight := only.walk inRight
      simp only [unifyWithin] at unifies
      split at unifies
      next => cases unifies; exact only
      next =>
        split at unifies
        next v w walkLeft walkRight =>
          rw [walkRight] at walkedRight
          split at unifies
          next => cases unifies; exact only
          next => exact only.of_extend (only.of_walk_eq_var inLeft walkLeft) walkedRight unifies
        next v walkLeft _ =>
          exact only.of_extend (only.of_walk_eq_var inLeft walkLeft) walkedRight unifies
        next w walkRight _ =>
          exact only.of_extend (only.of_walk_eq_var inRight walkRight) walkedLeft unifies
        next =>
          split at unifies
          next => cases unifies; exact only
          next => cases unifies
        next walkLeft walkRight =>
          rw [walkLeft] at walkedLeft
          rw [walkRight] at walkedRight
          split at unifies
          next => cases unifies; exact only
          next =>
            split at unifies
            next between heads =>
              have headOnly := ih only walkedLeft.head walkedRight.head heads
              exact ih headOnly walkedLeft.tail walkedRight.tail unifies
            next => cases unifies
        next => cases unifies

/-- Whether a map satisfies a substitution depends only on the variables in it. -/
theorem SatisfiedBy.of_agree {first second : Nat → Term Nat}
    (satisfied : subst.SatisfiedBy first) (only : subst.Only test)
    (agree : ∀ id, test id → second id = first id) : subst.SatisfiedBy second := by
  intro id value found
  obtain ⟨inVar, inValue⟩ := only.lookup found
  rw [agree id inVar, inValue.instantiate_eq agree]
  exact satisfied id value found

end Subst

/-- Every variable of the goals and of the substitution passes the test. -/
structure Frame.Only (test : Nat → Prop) (frame : Frame) : Prop where
  goals : ∀ goal ∈ frame.goals, goal.Only test
  subst : frame.subst.Only test

theorem Frame.Only.mono {frame : Frame} (only : frame.Only test)
    (weaker : ∀ id, test id → other id) : frame.Only other :=
  ⟨fun goal member id inside => weaker id (only.goals goal member id inside),
    only.subst.mono weaker⟩

/-- The identities that were minted before the session reached its next one. -/
def Session.Has (session : Session) (id : Nat) : Prop :=
  id < session.nextVar

/-- What a search needs of its frames: no cycles, and no variables that a copy could
be given again. -/
structure Frame.Ready (session : Session) (frame : Frame) : Prop where
  acyclic : frame.subst.Acyclic
  only : frame.Only session.Has

theorem Frame.Ready.mono {frame : Frame} {session after : Session}
    (ready : frame.Ready session) (older : session.nextVar ≤ after.nextVar) :
    frame.Ready after :=
  ⟨ready.acyclic, ready.only.mono fun _ has => Nat.lt_of_lt_of_le has older⟩

/-- The variables of a term in the copy stand for those of the term. -/
theorem Clause.mem_vars_instantiate_copyVar {clause : Clause} {next id : Nat} {term : Term} :
    id ∈ (term.instantiate fun v => .var (clause.copyVar next v.id)).bare.vars ↔
      ∃ original ∈ term.bare.vars, id = (clause.copyVar next original).id := by
  rw [Term.mem_vars_bare_instantiate]
  simp only [Term.bare_var, Term.mem_vars_var, Term.vars_bare, List.mem_map,
    exists_exists_and_eq_and]

/-- The variables of a copy stand for those of the clause. -/
theorem Session.mem_ids_copyOf {session : Session} {clause : Clause} {id : Nat} :
    id ∈ (session.copyOf clause).ids ↔
      ∃ original ∈ clause.ids, id = (clause.copyVar session.nextVar original).id := by
  simp only [copyOf, Clause.mem_ids, Clause.head_instantiate, Clause.body_instantiate,
    List.mem_map, exists_exists_and_eq_and, Clause.mem_vars_instantiate_copyVar]
  constructor
  · rintro (⟨original, inHead, rfl⟩ | ⟨goal, inBody, original, inGoal, rfl⟩)
    · exact ⟨original, .inl inHead, rfl⟩
    · exact ⟨original, .inr ⟨goal, inBody, inGoal⟩, rfl⟩
  · rintro ⟨original, inHead | ⟨goal, inBody, inGoal⟩, rfl⟩
    · exact .inl ⟨original, inHead, rfl⟩
    · exact .inr ⟨goal, inBody, original, inGoal, rfl⟩

/-- The variables of a copy have not been handed out before. -/
theorem Session.not_has_copy {session : Session} {clause : Clause} :
    ∀ id ∈ (session.copyOf clause).ids, ¬session.Has id := by
  intro id member
  obtain ⟨original, _, rfl⟩ := mem_ids_copyOf.mp member
  exact Nat.not_lt.mpr (Nat.le_add_right _ _)

namespace Search

variable {database : Database} {frames later : List Frame} {session after : Session}
variable {answer : Option Subst}

/-- A move gives back no identities. -/
theorem Move.nextVar_le (move : Move database frames session answer later after) :
    session.nextVar ≤ after.nextVar := by
  cases move with
  | answer | select | drop => exact Nat.le_refl _
  | enter | skip => exact Nat.le_add_right _ _

/-- The variables of a copy are minted by the attempt that it is made for. -/
theorem Move.has_copy (move : Move database frames session answer later after)
    {clause : Clause} (attempts : Attempts database frames clause) :
    ∀ id ∈ (session.copyOf clause).ids, after.Has id := by
  obtain ⟨goal, rest, subst, index, first, found⟩ := attempts
  intro id member
  obtain ⟨original, inClause, rfl⟩ := Session.mem_ids_copyOf.mp member
  have minted : (clause.copyVar session.nextVar original).id <
      session.nextVar + clause.vars.length := Clause.copyVar_id_lt inClause
  cases move with
  | answer | select => cases first
  | drop absent =>
      cases first
      cases absent.symm.trans found
  | enter tried | skip tried =>
      cases first
      cases tried.symm.trans found
      exact minted

/-- A move brings in no variables but those of a copy. -/
theorem Move.only (move : Move database frames session answer later after)
    (copies : ∀ clause, Attempts database frames clause →
      ∀ id ∈ (session.copyOf clause).ids, test id)
    (only : ∀ frame ∈ frames, frame.Only test) :
    (∀ frame ∈ later, frame.Only test) ∧ ∀ found ∈ answer, (Frame.prove [] found).Only test := by
  apply move.preserves
  · intro goal rest subst only
    exact ⟨only.goals, only.subst⟩
  · intro goal rest subst index only
    exact ⟨only.goals, only.subst⟩
  · rintro goal rest subst index clause unified ⟨goals, inSubst⟩ attempts _ unifies
    obtain ⟨inGoal, inRest⟩ := List.forall_mem_cons.mp goals
    have inCopy := copies clause attempts
    constructor
    · refine List.forall_mem_append.mpr ⟨?_, inRest⟩
      intro bodyGoal inBody id member
      exact inCopy id (Clause.mem_ids.mpr (.inr ⟨bodyGoal, inBody, member⟩))
    · have inHead : (session.copyOf clause).head.Only test :=
        fun id member => inCopy id (Clause.mem_ids.mpr (.inl member))
      exact Subst.Only.of_unifyWithin inSubst inGoal inHead unifies
  · exact only

/-- Every move leaves substitutions without cycles, if there were none before. -/
theorem Move.acyclic (move : Move database frames session answer later after)
    (acyclic : ∀ frame ∈ frames, frame.subst.Acyclic) : ∀ frame ∈ later, frame.subst.Acyclic :=
  (move.preserves (motive := fun frame => frame.subst.Acyclic) id id
    (fun acyclic _ _ unifies => acyclic.of_unify unifies) acyclic).1

/-- A move keeps all frames ready, for the session as it is after the move. -/
theorem Move.ready (move : Move database frames session answer later after)
    (ready : ∀ frame ∈ frames, frame.Ready session) :
    ∀ frame ∈ later, frame.Ready after := by
  have acyclic := move.acyclic fun frame member => (ready frame member).acyclic
  have only := (move.only (fun _ attempts => move.has_copy attempts)
    fun frame member => ((ready frame member).mono move.nextVar_le).only).1
  intro frame member
  exact ⟨acyclic frame member, only frame member⟩

end Search

end Horn
