import Mathlib.Algebra.Order.BigOperators.Group.List
import Mathlib.Algebra.Order.Ring.Nat
import Horn.Proofs.Soundness
import Horn.Proofs.Interleaving
import Horn.Proofs.Limits
import Horn.Proofs.MostGeneral

/-!
# Hierarchical databases

If the symbols have ranks and every rule leads from a symbol to symbols of smaller rank, a search
comes to its end. What goes down is not the number of goals: a rule puts its whole body in place
of one goal, and what is left of the goal stays on the stack for the next clause.

The measure weighs a goal by a power of its rank, so that it outweighs any body that takes its
place (`Clause.Descends.load_lt`). A goal that does not begin with a symbol may be, or become,
anything, and counts as higher than all heads. From the load of its goals follows how many moves
a frame can still lead to, the clauses that are left for a goal counted one by one. Every move
makes the sum over the stack smaller (`Move.effort_lt`), in whatever session it is made.
-/

namespace Horn

/-- The symbol with which a pair begins. -/
def Term.functor? {V : Type} : Term V → Option String
  | .pair (.atom (.symbol name)) _ => some name
  | _ => none

theorem Term.functor?_instantiate {V W : Type} {term : Term V} {name : String}
    (begins : term.functor? = some name) (image : V → Term W) :
    (term.instantiate image).functor? = some name := by
  unfold Term.functor? at begins
  split at begins
  next => simpa [Term.functor?] using begins
  next => cases begins

theorem Term.functor?_bare {term : Term} {name : String} (begins : term.functor? = some name) :
    term.bare.functor? = some name :=
  functor?_instantiate begins _

/-- Every goal of the body begins with a symbol of smaller rank than the symbol with which the
head begins. A fact has no body, so its head may be anything. -/
def Clause.Descends (rank : String → Nat) (clause : Clause) : Prop :=
  ∀ goal ∈ clause.body, ∃ name other, clause.head.functor? = some name ∧
    goal.functor? = some other ∧ rank other < rank name

/-- Ranks go down from the head to the body of every clause. -/
def Database.Hierarchical (database : Database) (rank : String → Nat) : Prop :=
  ∀ clause ∈ database.declared, clause.Descends rank

/-! ## Weighing goals -/

namespace Database

variable {database : Database} {rank : String → Nat} {goal : Term} {goals : List Term}
variable {clause : Clause}

/-- Above the ranks of all heads. -/
def top (database : Database) (rank : String → Nat) : Nat :=
  (database.declared.map fun clause => (clause.head.functor?.map rank).getD 0).sum + 1

/-- No body has more goals. -/
def breadth (database : Database) : Nat :=
  (database.declared.map fun clause => clause.body.length).sum

/-- The rank of a goal. It is at the top if it does not begin with a symbol. -/
def level (database : Database) (rank : String → Nat) (goal : Term) : Nat :=
  (goal.functor?.map rank).getD (database.top rank)

/-- One goal weighs more than a body of goals of smaller rank. -/
def weight (database : Database) (rank : String → Nat) (goal : Term) : Nat :=
  (database.breadth + 1) ^ database.level rank goal

/-- The weight of all goals. -/
def load (database : Database) (rank : String → Nat) (goals : List Term) : Nat :=
  (goals.map (database.weight rank)).sum

/-- The number of moves that goals of a load can lead to. -/
def moves (database : Database) : Nat → Nat
  | 0 => 1
  | load + 1 => 2 + database.size * (1 + database.moves load)

theorem weight_pos (database : Database) (rank : String → Nat) (goal : Term) :
    0 < database.weight rank goal :=
  Nat.pow_pos (Nat.succ_pos _)

theorem load_cons (database : Database) (rank : String → Nat) (goal : Term) (goals : List Term) :
    database.load rank (goal :: goals) = database.weight rank goal + database.load rank goals := by
  simp [load]

theorem load_append (database : Database) (rank : String → Nat) (goals others : List Term) :
    database.load rank (goals ++ others) =
      database.load rank goals + database.load rank others := by
  simp [load]

theorem moves_le_succ (database : Database) (load : Nat) :
    database.moves load ≤ database.moves (load + 1) := by
  induction load with
  | zero =>
      simp only [moves]
      omega
  | succ load ih =>
      have more := Nat.mul_le_mul_left database.size (Nat.add_le_add_left ih 1)
      simp only [moves] at more ⊢
      omega

theorem moves_mono (database : Database) : Monotone database.moves :=
  monotone_nat_of_le_succ database.moves_le_succ

theorem length_body_le_breadth (stored : clause ∈ database.declared) :
    clause.body.length ≤ database.breadth :=
  List.le_sum_of_mem (List.mem_map_of_mem stored)

theorem rank_lt_top (stored : clause ∈ database.declared) {name : String}
    (begins : clause.head.functor? = some name) : rank name < database.top rank := by
  have listed : (clause.head.functor?.map rank).getD 0 ∈
      database.declared.map fun clause => (clause.head.functor?.map rank).getD 0 :=
    List.mem_map_of_mem stored
  rw [begins] at listed
  exact Nat.lt_succ_of_le (List.le_sum_of_mem listed)

/-- Goals below a level weigh less than one on it, if there are no more than a body has. -/
theorem load_lt {limit : Nat} (few : goals.length ≤ database.breadth)
    (below : ∀ goal ∈ goals, database.level rank goal < limit) :
    database.load rank goals < (database.breadth + 1) ^ limit := by
  cases limit with
  | zero =>
      cases goals with
      | nil => exact Nat.one_pos
      | cons goal rest => exact absurd (below goal List.mem_cons_self) (Nat.not_lt_zero _)
  | succ limit =>
      have each : ∀ weight ∈ goals.map (database.weight rank),
          weight ≤ (database.breadth + 1) ^ limit := by
        intro weight member
        rcases List.mem_map.mp member with ⟨goal, inGoals, rfl⟩
        exact Nat.pow_le_pow_right (Nat.succ_pos _) (Nat.le_of_lt_succ (below goal inGoals))
      calc database.load rank goals
          ≤ goals.length * (database.breadth + 1) ^ limit := by
            simpa [load] using List.sum_le_card_nsmul _ _ each
        _ ≤ database.breadth * (database.breadth + 1) ^ limit := Nat.mul_le_mul_right _ few
        _ < (database.breadth + 1) * (database.breadth + 1) ^ limit :=
            Nat.mul_lt_mul_of_pos_right (Nat.lt_succ_self _) (Nat.pow_pos (Nat.succ_pos _))
        _ = (database.breadth + 1) ^ (limit + 1) := by rw [Nat.pow_succ, Nat.mul_comm]

end Database

variable {database : Database} {rank : String → Nat}

section Copied

variable {clause : Clause} {goal : Term} {subst unified : Subst} {session : Session}

/-- A goal that unifies with the head of a copy is not below the head: it begins with the same
symbol, or it is at the top. -/
theorem Database.rank_le_level {name : String} (stored : clause ∈ database.declared)
    (head : clause.head.functor? = some name) (acyclic : subst.Acyclic)
    (unifies : Subst.unify goal (session.copyOf clause).head subst = some unified) :
    rank name ≤ database.level rank goal := by
  cases begins : goal.functor? with
  | none =>
      simpa [level, begins] using Nat.le_of_lt (rank_lt_top stored head)
  | some other =>
      have image := (acyclic.of_unify unifies).satisfiedBy_solution
      have equal := ((acyclic.satisfiedBy_unify_iff unifies _).mp image).2
      have same := congrArg Term.functor? equal
      have copied : (session.copyOf clause).head.functor? = some name := by
        rw [Session.copyOf, Clause.head_instantiate]
        exact Term.functor?_instantiate head _
      rw [Term.functor?_instantiate (Term.functor?_bare begins),
        Term.functor?_instantiate (Term.functor?_bare copied)] at same
      simp [level, begins, Option.some_inj.mp same]

/-- A goal that unifies with the head of a copy outweighs the body of the copy. -/
theorem Clause.Descends.load_lt (descends : clause.Descends rank)
    (stored : clause ∈ database.declared) (acyclic : subst.Acyclic)
    (unifies : Subst.unify goal (session.copyOf clause).head subst = some unified) :
    database.load rank (session.copyOf clause).body < database.weight rank goal := by
  apply Database.load_lt
  · simpa [Session.copyOf] using Database.length_body_le_breadth stored
  · intro copied member
    rw [Session.copyOf, Clause.body_instantiate] at member
    rcases List.mem_map.mp member with ⟨original, inBody, rfl⟩
    rcases descends original inBody with ⟨name, other, head, begins, less⟩
    calc database.level rank (original.instantiate fun v =>
          .var (clause.copyVar session.nextVar v.id))
        = rank other := by simp [Database.level, Term.functor?_instantiate begins]
      _ < rank name := less
      _ ≤ database.level rank goal := Database.rank_le_level stored head acyclic unifies

end Copied

/-- The number of moves that a piece of work can lead to: one that ends it, and one for each
clause that is left, with all that follows from the clause. -/
def Frame.effort (database : Database) (rank : String → Nat) : Frame → Nat
  | .prove goals _ => database.moves (database.load rank goals)
  | .resolve goal rest _ index =>
      1 + (database.size - index) *
        (1 + database.moves (database.load rank (goal :: rest) - 1))

theorem Database.moves_pos (database : Database) (load : Nat) : 0 < database.moves load := by
  cases load with
  | zero => exact Nat.one_pos
  | succ load =>
      simp only [moves]
      omega

theorem Frame.effort_pos (database : Database) (rank : String → Nat) (frame : Frame) :
    0 < frame.effort database rank := by
  cases frame with
  | prove goals subst => exact database.moves_pos _
  | resolve goal rest subst index =>
      simp only [effort]
      omega

namespace Search

variable {frames later : List Frame} {session after : Session} {answer : Option Subst}

/-- The number of moves that the pending work can lead to. -/
def effort (database : Database) (rank : String → Nat) (frames : List Frame) : Nat :=
  (frames.map (Frame.effort database rank)).sum

theorem effort_cons (frame : Frame) (below : List Frame) :
    effort database rank (frame :: below) =
      frame.effort database rank + effort database rank below := by
  simp [effort]

theorem effort_append (above below : List Frame) :
    effort database rank (above ++ below) =
      effort database rank above + effort database rank below := by
  simp [effort]

theorem eq_nil_of_effort (zero : effort database rank frames = 0) : frames = [] := by
  cases frames with
  | nil => rfl
  | cons frame below =>
      have positive := frame.effort_pos database rank
      rw [effort_cons] at zero
      omega

/-- A clause that was tried is not left to be tried again. -/
theorem effort_alternatives_lt (rank : String → Nat) (goal : Term) (rest : List Term)
    (subst : Subst) {index : Nat} (inside : index < database.size) :
    database.moves (database.load rank (goal :: rest) - 1) +
        effort database rank (alternatives database goal rest subst index) <
      (Frame.resolve goal rest subst index).effort database rank := by
  have left : database.size - index = database.size - (index + 1) + 1 := by omega
  simp only [Frame.effort, left, Nat.succ_mul]
  by_cases more : index + 1 < database.size
  · simp only [alternatives, more, if_true, effort, List.map_cons, List.map_nil, List.sum_cons,
      List.sum_nil, Frame.effort]
    omega
  · simp only [alternatives, more, if_false, effort, List.map_nil, List.sum_nil]
    omega

/-- Every move makes the work less. -/
theorem Move.effort_lt (move : Move database frames session answer later after)
    (hierarchical : database.Hierarchical rank) (acyclic : ∀ frame ∈ frames, frame.subst.Acyclic) :
    effort database rank later < effort database rank frames := by
  cases move with
  | @answer subst below =>
      have positive := (Frame.prove [] subst).effort_pos database rank
      rw [effort_cons]
      omega
  | @select goal rest subst below =>
      have positive := database.weight_pos rank goal
      obtain ⟨load, whole⟩ : ∃ load, database.load rank (goal :: rest) = load + 1 := by
        rw [Database.load_cons]
        exact Nat.exists_eq_add_one_of_ne_zero (by omega)
      simp only [effort_cons, Frame.effort, whole, Database.moves, Nat.add_sub_cancel, Nat.sub_zero]
      omega
  | @drop goal rest subst index below =>
      have positive := (Frame.resolve goal rest subst index).effort_pos database rank
      rw [effort_cons]
      omega
  | @enter goal rest subst unified index below _ clause found unifies =>
      have stored := Derivable.mem_declared_iff.mpr ⟨index, found⟩
      have lighter := (hierarchical clause stored).load_lt stored
        (acyclic _ List.mem_cons_self) unifies
      have fewer : database.moves (database.load rank ((session.copyOf clause).body ++ rest)) ≤
          database.moves (database.load rank (goal :: rest) - 1) := by
        -- The goals of `rest` weigh the same on both sides; only the body is new.
        apply database.moves_mono
        rw [Database.load_append, Database.load_cons]
        omega
      have tried := effort_alternatives_lt rank goal rest subst
        (Database.lt_size_of_nthNewest? found)
      simp only [effort_cons, effort_append]
      simp only [Frame.effort] at tried ⊢
      omega
  | @skip goal rest subst index below _ clause found =>
      have tried := effort_alternatives_lt rank goal rest subst
        (Database.lt_size_of_nthNewest? found)
      simp only [effort_cons, effort_append]
      omega

variable {search : Search} {goals : List Term} {start : Subst}

/-- As long as work is left, every turn has made it less. -/
theorem effort_watchAmong (hierarchical : search.database.Hierarchical rank)
    (acyclic : ∀ frame ∈ search.frames, frame.subst.Acyclic) (others : Others) (session : Session)
    (turns : Nat) :
    (∀ frame ∈ (watchAmong others search session turns).search.frames, frame.subst.Acyclic) ∧
      ((watchAmong others search session turns).search.frames = [] ∨
        effort search.database rank (watchAmong others search session turns).search.frames +
          turns ≤ effort search.database rank search.frames) := by
  induction turns with
  | zero => exact ⟨acyclic, .inr (Nat.le_refl _)⟩
  | succ turns ih =>
      rcases turn_cases others search session turns with empty | ⟨answer, later, after, move⟩
      · rw [watchAmong_succ_of_nil empty]
        exact ⟨ih.1, .inl empty⟩
      · rw [watchAmong_succ_of_move move]
        refine ⟨move.acyclic ih.1, .inr ?_⟩
        have less := move.effort_lt hierarchical ih.1
        rcases ih.2 with empty | bounded
        · rw [empty] at move
          cases move
        · simp only
          omega

/-- No work is left after as many turns as the first work can lead to moves. -/
theorem frames_eq_nil_of_hierarchical (hierarchical : search.database.Hierarchical rank)
    (acyclic : ∀ frame ∈ search.frames, frame.subst.Acyclic) (others : Others)
    (session : Session) :
    (watchAmong others search session (effort search.database rank search.frames)).search.frames =
      [] := by
  rcases (effort_watchAmong hierarchical acyclic others session _).2 with empty | bounded
  · exact empty
  · have none : effort search.database rank (watchAmong others search session
        (effort search.database rank search.frames)).search.frames = 0 := by
      omega
    exact eq_nil_of_effort none

/-- A search without work left after some steps has come to the call that returns no answer. -/
theorem exists_nthCall_none {steps : Nat}
    (empty : (watch steps search session).search.frames = []) :
    ∃ n after, NthCall search session n none after := by
  have complete : (watch steps search session).listing.complete = true := by
    simp [Watch.listing, empty]
  have ends := Listing.nth?_eq_none_iff.mpr ⟨complete, Nat.le_refl _, rfl⟩
  exact ⟨_, _, nthCall_iff_watch.mpr ⟨steps, ends⟩⟩

/-- The searches that are opened over a hierarchical database end, in any session. -/
theorem Opens.exists_empty (opens : Opens database goals start search)
    (hierarchical : database.Hierarchical rank) (acyclic : start.Acyclic) :
    ∃ steps, ∀ (others : Others) (session : Session),
      (watchAmong others search session steps).search.frames = [] := by
  rcases opens.eq_singleton with ⟨frame, rfl, _, rfl⟩
  exact ⟨_, frames_eq_nil_of_hierarchical hierarchical (List.forall_mem_singleton.mpr acyclic)⟩

/-- Each of them comes to the call that returns no answer. -/
theorem Opens.exists_nthCall_none (opens : Opens database goals start search)
    (hierarchical : database.Hierarchical rank) (acyclic : start.Acyclic) (session : Session) :
    ∃ n after, NthCall search session n none after := by
  rcases opens.exists_empty hierarchical acyclic with ⟨steps, empty⟩
  have alone := empty .nobody session
  rw [watchAmong_nobody] at alone
  exact Search.exists_nthCall_none alone

/-- Over a hierarchical database every search comes to its end. Whatever the goals are, and
whatever they are bound to in an acyclic substitution, there is a number of steps after which no
work is left, in every session and whatever others do in it. So the calls for an answer come to
one that returns none, and a query without a limit returns. -/
theorem hierarchical_searches_end (hierarchical : database.Hierarchical rank)
    (acyclic : start.Acyclic) (opens : Opens database goals start search) :
    (∃ steps, ∀ (others : Others) (session : Session),
      (watchAmong others search session steps).search.frames = []) ∧
    (∀ session, ∃ n after, NthCall search session n none after) ∧
    ∀ query : Query, query.limit = none → ∀ session, ∃ solutions after,
      query.Returns database session solutions after := by
  refine ⟨opens.exists_empty hierarchical acyclic,
    opens.exists_nthCall_none hierarchical acyclic, ?_⟩
  intro query unlimited session
  have searching : Opens database query.goals .empty (query.search database) := .all
  rcases searching.exists_nthCall_none hierarchical Subst.acyclic_empty session with
    ⟨n, called, call⟩
  rcases call.collects_all with ⟨answers, _, _, _, collects⟩
  have positive : query.limit ≠ some 0 := by simp [unlimited]
  have wanted : ∀ wanted ∈ query.limit, n < wanted := by simp [unlimited]
  rcases Query.exists_returns positive (collects query.limit wanted) with ⟨after, returns, _⟩
  exact ⟨_, after, returns⟩

/-- With `z` bound to `(q . y)`, the search for `z` goes through the rule for `q`, which asks
for `p`, and both facts about `p`. -/
theorem hierarchical_searches_end_rule :
    let x : Var := ⟨0, "x"⟩
    let y : Var := ⟨1, "y"⟩
    let z : Var := ⟨2, "z"⟩
    let p := Term.symbol "p"
    let q := Term.symbol "q"
    let database : Database := ⟨#[.fact (.pair p (.symbol "a")), .fact (.pair p (.symbol "b")),
      .rule (.pair q (.var x)) [.pair p (.var x)]]⟩
    let start := Subst.empty.bind z (.pair q (.var y))
    let rank := fun name => if name = "q" then 1 else 0
    database.Hierarchical rank ∧ start.Acyclic ∧
      ∃ n after, NthCall (one database (.var z) start) ⟨3, []⟩ n none after := by
  intro x y z p q database start rank
  have acyclic : start.Acyclic := Subst.acyclic_empty.bind rfl (by decide)
  have fact (head : Term) : (Clause.fact head).Descends rank := List.forall_mem_nil _
  have rule : (Clause.rule (.pair q (.var x)) [.pair p (.var x)]).Descends rank :=
    List.forall_mem_singleton.mpr ⟨"q", "p", rfl, rfl, by decide⟩
  have hierarchical : database.Hierarchical rank :=
    List.forall_mem_cons.mpr ⟨fact _, List.forall_mem_cons.mpr ⟨fact _,
      List.forall_mem_singleton.mpr rule⟩⟩
  have ends := hierarchical_searches_end hierarchical acyclic
    (.one : Opens database [.var z] start (one database (.var z) start))
  exact ⟨hierarchical, acyclic, ends.2.1 ⟨3, []⟩⟩

end Search

end Horn
