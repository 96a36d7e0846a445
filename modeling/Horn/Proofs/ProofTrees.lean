import Mathlib.Data.List.Forall2
import Mathlib.Data.List.TakeDrop
import Horn.Proofs.Completeness

/-!
# Proof trees

A proof tree names the clause that proves a goal and has a part for every goal in its body.
Which instances it proves depends on the database only, not on a search: neither the
variables of copies nor the order in which goals are selected show in it. The terms with
proof trees are those that follow from the database (`derivable_iff_exists_proves`).

An exhausted search accounts for all proof trees of its goals (`Exhausts.accounted`). Every
answer belongs to a list of trees, one for each goal, and is satisfied by the maps under
which these prove the goals. No two answers share their trees, and no trees that prove an
instance of the goals are left out. The work on the stack is accounted for frame by frame,
from the end of the run to its start.
-/

namespace Horn

/-- How a goal is proved: with the clause of an index, counted from the newest, and by
proofs of the goals in its body. -/
inductive ProofTree where
  | node (index : Nat) (parts : List ProofTree)

namespace ProofTree

/-- The index of the clause that the last step is made with. -/
def index : ProofTree → Nat
  | .node index _ => index

/-- The tree proves an instance of the head of its clause if its parts prove the same
instances of the body. -/
inductive Proves (database : Database) : ProofTree → Term Nat → Prop where
  | node {index : Nat} {parts : List ProofTree} {clause : Clause} (image : Nat → Term Nat) :
      database.nthNewest? index = some clause →
      List.Forall₂ (Proves database) parts
        (clause.body.map fun goal => goal.bare.instantiate image) →
      Proves database (.node index parts) (clause.head.bare.instantiate image)

/-- Where every term has a tree, there is a list of trees for all of them. -/
theorem exists_forall₂_proves {database : Database} {terms : List (Term Nat)}
    (each : ∀ term ∈ terms, ∃ tree : ProofTree, tree.Proves database term) :
    ∃ trees, List.Forall₂ (Proves database) trees terms := by
  induction terms with
  | nil => exact ⟨[], .nil⟩
  | cons term rest ih =>
      rcases List.forall_mem_cons.mp each with ⟨⟨tree, proves⟩, others⟩
      rcases ih others with ⟨trees, proveRest⟩
      exact ⟨tree :: trees, .cons proves proveRest⟩

mutual

/-- What a tree proves follows from the database. -/
theorem Proves.derivable {database : Database} {tree : ProofTree} {term : Term Nat}
    (proves : tree.Proves database term) : Derivable database term := by
  cases proves with
  | @node index _ _ image found partsProve =>
      apply Derivable.instance image (Derivable.mem_declared_iff.mpr ⟨index, found⟩)
      exact List.forall_mem_map.mp (derivable_of_forall₂ partsProve)

theorem derivable_of_forall₂ {database : Database} {trees : List ProofTree}
    {terms : List (Term Nat)}     (prove : List.Forall₂ (Proves database) trees terms) :
    ∀ term ∈ terms, Derivable database term := by
  cases prove with
  | nil => exact fun _ member => absurd member List.not_mem_nil
  | cons first rest =>
      exact List.forall_mem_cons.mpr ⟨first.derivable, derivable_of_forall₂ rest⟩

end

/-- The terms that follow from a database are those that have proof trees. -/
theorem derivable_iff_exists_proves {database : Database} {term : Term Nat} :
    Derivable database term ↔ ∃ tree : ProofTree, tree.Proves database term := by
  constructor
  · intro derivable
    induction derivable with
    | @«instance» clause image member _ ih =>
        rcases Derivable.mem_declared_iff.mp member with ⟨index, found⟩
        rcases exists_forall₂_proves (List.forall_mem_map.mpr ih) with ⟨parts, partsProve⟩
        exact ⟨.node index parts, .node image found partsProve⟩
  · rintro ⟨_, proves⟩
    exact proves.derivable

/-- The first trees, as many as are counted, become the parts of one. -/
def graft (index count : Nat) (trees : List ProofTree) : List ProofTree :=
  .node index (trees.take count) :: trees.drop count

theorem graft_injective (index count : Nat) : Function.Injective (graft index count) := by
  intro first second same
  simp only [graft, List.cons.injEq, node.injEq, true_and] at same
  rw [← List.take_append_drop count first, same.1, same.2, List.take_append_drop]

theorem graft_append {index count : Nat} {front behind : List ProofTree}
    (length : front.length = count) :
    graft index count (front ++ behind) = .node index front :: behind := by
  rw [graft, List.take_left' length, List.drop_left' length]

end ProofTree

/-- Trees that prove goals, and the answer that they come to. -/
structure Entry where
  trees : List ProofTree
  answer : Subst

/-- The same answer, for a goal that the first trees are the parts of a proof of. -/
def Entry.graft (index count : Nat) (entry : Entry) : Entry :=
  ⟨ProofTree.graft index count entry.trees, entry.answer⟩

theorem Entry.map_trees_graft (index count : Nat) (entries : List Entry) :
    (entries.map (graft index count)).map Entry.trees =
      (entries.map Entry.trees).map (ProofTree.graft index count) := by
  rw [List.map_map, List.map_map]
  rfl

@[simp] theorem Entry.answer_graft (index count : Nat) (entry : Entry) :
    (entry.graft index count).answer = entry.answer := rfl

variable {database : Database} {session after : Session} {image other : Nat → Term Nat}
variable {test : Nat → Prop} {frame later : Frame} {trees : List ProofTree}
variable {answer : Subst} {entries : List Entry}

/-- The map satisfies the substitution, once it is changed on variables minted later. -/
def Subst.Allows (answer : Subst) (session : Session) (image : Nat → Term Nat) : Prop :=
  ∃ extended : Nat → Term Nat, (∀ id, session.Has id → extended id = image id) ∧
    answer.SatisfiedBy extended

theorem Subst.SatisfiedBy.allows (satisfied : answer.SatisfiedBy image) :
    answer.Allows session image :=
  ⟨image, fun _ _ => rfl, satisfied⟩

namespace Frame

/-- The index of the first clause that the first goal may still be resolved with. -/
def first : Frame → Nat
  | .prove _ _ => 0
  | .resolve _ _ _ index => index

/-- Under the map the trees prove what the work has to prove, and they use no clause for the
first goal that was tried already. -/
structure Solution (database : Database) (frame : Frame) (trees : List ProofTree)
    (image : Nat → Term Nat) : Prop where
  satisfied : frame.subst.SatisfiedBy image
  proofs : List.Forall₂ (ProofTree.Proves database) trees
    (frame.goals.map fun goal => goal.bare.instantiate image)
  untried : ∀ tree ∈ trees.head?, frame.first ≤ tree.index

/-- Only what the map is on the variables of the work matters. -/
theorem Solution.of_agree (solution : frame.Solution database trees image)
    (only : frame.Only test) (agree : ∀ id, test id → other id = image id) :
    frame.Solution database trees other where
  satisfied := solution.satisfied.of_agree only.subst agree
  proofs := Term.map_instantiate_eq only.goals agree ▸ solution.proofs
  untried := solution.untried

/-! ## One attempt -/

section Attempt

variable {goal : Term} {rest : List Term} {subst unified : Subst} {index : Nat}
variable {clause : Clause} {parts others : List ProofTree}

theorem solution_select_iff :
    (Frame.resolve goal rest subst 0).Solution database trees image ↔
      (Frame.prove (goal :: rest) subst).Solution database trees image :=
  ⟨fun solution => ⟨solution.satisfied, solution.proofs, solution.untried⟩,
    fun solution => ⟨solution.satisfied, solution.proofs, solution.untried⟩⟩

/-- The first of the trees resolves the goal with a clause that is there. -/
theorem Solution.exists_node
    (solution : (Frame.resolve goal rest subst index).Solution database trees image) :
    ∃ place parts others, trees = .node place parts :: others ∧ index ≤ place ∧
      place < database.size := by
  rcases List.forall₂_cons_right_iff.mp solution.proofs with ⟨tree, others, proves, _, rfl⟩
  beta_reduce at proves
  generalize goal.bare.instantiate image = term at proves
  cases proves with
  | @node place parts clause _ found _ =>
      exact ⟨place, parts, others, rfl, solution.untried _ rfl,
        Database.lt_size_of_nthNewest? found⟩

/-- Trees that do without a clause do with those after it. -/
theorem Solution.of_succ
    (solution : (Frame.resolve goal rest subst (index + 1)).Solution database trees image) :
    (Frame.resolve goal rest subst index).Solution database trees image :=
  ⟨solution.satisfied, solution.proofs,
    fun tree member => Nat.le_of_succ_le (solution.untried tree member)⟩

/-- Either the first of the trees uses the clause that is next, or there is a next one. -/
theorem Solution.next_or
    (solution : (Frame.resolve goal rest subst index).Solution database trees image) :
    (∃ parts others, trees = .node index parts :: others) ∨
      (Frame.resolve goal rest subst (index + 1)).Solution database trees image := by
  rcases solution.exists_node with ⟨place, parts, others, rfl, bound, _⟩
  rcases Nat.eq_or_lt_of_le bound with rfl | above
  · exact .inl ⟨parts, others, rfl⟩
  · right
    refine ⟨solution.satisfied, solution.proofs, ?_⟩
    intro tree member
    cases Option.mem_some.mp member
    exact above

/-- A tree that uses the clause has parts that prove the body of the copy, and the head of
the copy unifies with the goal. -/
theorem Solution.enter
    (solution : (Frame.resolve goal rest subst index).Solution database
      (.node index parts :: others) image)
    (ready : (Frame.resolve goal rest subst index).Ready session)
    (found : database.nthNewest? index = some clause) :
    parts.length = (session.copyOf clause).body.length ∧
      ∃ unified wider, Subst.unify goal (session.copyOf clause).head subst = some unified ∧
        (∀ id, session.Has id → wider id = image id) ∧
        (Frame.prove ((session.copyOf clause).body ++ rest) unified).Solution database
          (parts ++ others) wider := by
  rcases solution.proofs with _ | ⟨proves, othersProve⟩
  beta_reduce at proves
  generalize instanceOf : goal.bare.instantiate image = term at proves
  cases proves with
  | node new tried partsProve =>
      cases tried.symm.trans found
      rcases session.exists_image_copyOf clause image new with ⟨wider, kept, headCopy, bodyCopy⟩
      rcases List.forall_mem_cons.mp ready.only.goals with ⟨inGoal, inRest⟩
      have acyclic : subst.Acyclic := ready.acyclic
      have satisfied : subst.SatisfiedBy wider :=
        solution.satisfied.of_agree ready.only.subst kept
      have equal : goal.bare.instantiate wider =
          (session.copyOf clause).head.bare.instantiate wider := by
        rw [inGoal.instantiate_eq kept, headCopy, instanceOf]
      rw [← bodyCopy] at partsProve
      rcases acyclic.exists_unify satisfied equal with ⟨unified, unifies, unifiedSatisfied⟩
      refine ⟨?_, unified, wider, unifies, kept, unifiedSatisfied, ?_, ?_⟩
      · rw [partsProve.length_eq, List.length_map]
      · rw [goals, List.map_append, Term.map_instantiate_eq inRest kept]
        exact List.rel_append partsProve othersProve
      · exact fun tree _ => Nat.zero_le tree.index

/-- Trees that prove the body of the copy become the parts of one that proves the goal. -/
theorem Solution.leave
    (solution : (Frame.prove ((session.copyOf clause).body ++ rest) unified).Solution database
      trees image)
    (acyclic : subst.Acyclic) (found : database.nthNewest? index = some clause)
    (unifies : Subst.unify goal (session.copyOf clause).head subst = some unified) :
    (Frame.resolve goal rest subst index).Solution database
      (ProofTree.graft index (session.copyOf clause).body.length trees) image := by
  rcases (acyclic.satisfiedBy_unify_iff unifies image).mp solution.satisfied with
    ⟨satisfied, equal⟩
  have proofs := solution.proofs
  rw [goals, List.map_append] at proofs
  have front := List.forall₂_take_append _ _ _ proofs
  have behind := List.forall₂_drop_append _ _ _ proofs
  rw [List.length_map] at front behind
  refine ⟨satisfied, .cons ?_ behind, ?_⟩
  · rcases session.exists_instance_of_copyOf clause image with ⟨original, headSame, bodySame⟩
    rw [bodySame] at front
    beta_reduce
    rw [equal, headSame]
    exact .node original found front
  · intro tree member
    cases Option.mem_some.mp member
    exact Nat.le_refl index

end Attempt

/-! ## Accounting for work -/

/-- The answer is what the trees come to: the maps that it allows are those under which the
trees prove what the work has to prove. -/
structure Yields (database : Database) (session : Session) (frame : Frame)
    (trees : List ProofTree) (answer : Subst) : Prop where
  acyclic : answer.Acyclic
  solutions : ∀ image, answer.Allows session image ↔ frame.Solution database trees image

/-- The trees that the work finds, each list with the answer that it comes to. -/
structure Accounts (database : Database) (session : Session) (frame : Frame)
    (entries : List Entry) : Prop where
  distinct : (entries.map Entry.trees).Nodup
  yields : ∀ entry ∈ entries, frame.Yields database session entry.trees entry.answer
  complete : ∀ trees image, frame.Solution database trees image →
    trees ∈ entries.map Entry.trees

/-- The trees prove what the work has to prove resolved under the answer. -/
theorem Yields.solution_resolve (yields : frame.Yields database session trees answer) :
    frame.Solution database trees answer.solution :=
  (yields.solutions _).mp yields.acyclic.satisfiedBy_solution.allows

/-- What later work comes to is what earlier work does, if their solutions are the same but
for variables minted in between. -/
theorem Yields.back {first : List ProofTree} (yields : later.Yields database after trees answer)
    (only : frame.Only session.Has) (older : session.nextVar ≤ after.nextVar)
    (sound : ∀ image, later.Solution database trees image →
      frame.Solution database first image)
    (complete : ∀ image, frame.Solution database first image →
      ∃ wider : Nat → Term Nat, (∀ id, session.Has id → wider id = image id) ∧
        later.Solution database trees wider) :
    frame.Yields database session first answer := by
  refine ⟨yields.acyclic, ?_⟩
  intro image
  constructor
  · rintro ⟨extended, agrees, satisfied⟩
    have solution := (yields.solutions extended).mp satisfied.allows
    exact (sound extended solution).of_agree only fun id has => (agrees id has).symm
  · intro solution
    rcases complete image solution with ⟨wider, kept, solution⟩
    rcases (yields.solutions wider).mpr solution with ⟨extended, agrees, satisfied⟩
    refine ⟨extended, ?_, satisfied⟩
    intro id has
    rw [agrees id (Nat.lt_of_lt_of_le has older), kept id has]

/-- The account of work is the same at an earlier time. -/
theorem Accounts.back (accounts : frame.Accounts database after entries)
    (only : frame.Only session.Has) (older : session.nextVar ≤ after.nextVar) :
    frame.Accounts database session entries where
  distinct := accounts.distinct
  yields entry member := (accounts.yields entry member).back only older (fun _ solution => solution)
    fun image solution => ⟨image, fun _ _ => rfl, solution⟩
  complete := accounts.complete

/-- Work with the same solutions has the same account. -/
theorem Accounts.of_iff (accounts : later.Accounts database session entries)
    (same : ∀ trees image,
      later.Solution database trees image ↔ frame.Solution database trees image) :
    frame.Accounts database session entries where
  distinct := accounts.distinct
  yields entry member := by
    rcases accounts.yields entry member with ⟨acyclic, solutions⟩
    exact ⟨acyclic, fun image => (solutions image).trans (same entry.trees image)⟩
  complete trees image solution := accounts.complete trees image ((same trees image).mpr solution)

/-- Nothing is left to prove: no trees come to the substitution as it is. -/
theorem accounts_answer (ready : (Frame.prove [] answer).Ready session) :
    (Frame.prove [] answer).Accounts database session [⟨[], answer⟩] where
  distinct := List.nodup_singleton _
  yields := by
    intro entry member
    cases List.mem_singleton.mp member
    refine ⟨ready.acyclic, ?_⟩
    intro image
    constructor
    · rintro ⟨extended, agrees, satisfied⟩
      refine ⟨?_, .nil, fun tree member => nomatch member⟩
      exact satisfied.of_agree ready.only.subst fun id has => (agrees id has).symm
    · intro solution
      exact solution.satisfied.allows
  complete := by
    intro trees image solution
    cases solution.proofs
    exact List.mem_singleton_self _

section Attempt

variable {goal : Term} {rest : List Term} {subst unified : Subst} {index : Nat}
variable {clause : Clause} {entered passed : List Entry}

/-- Where there is no clause left, there are no trees. -/
theorem accounts_nil (outside : database.size ≤ index) :
    (Frame.resolve goal rest subst index).Accounts database session [] where
  distinct := List.nodup_nil
  yields _ member := absurd member List.not_mem_nil
  complete trees image solution := by
    rcases solution.exists_node with ⟨place, _, _, _, bound, inside⟩
    exact absurd (bound.trans_lt inside) (Nat.not_lt.mpr outside)

/-- A clause whose head does not unify with the goal adds no trees. -/
theorem Accounts.skip
    (accounts : (Frame.resolve goal rest subst (index + 1)).Accounts database session passed)
    (ready : (Frame.resolve goal rest subst index).Ready session)
    (found : database.nthNewest? index = some clause)
    (fails : Subst.unify goal (session.copyOf clause).head subst = none) :
    (Frame.resolve goal rest subst index).Accounts database session passed := by
  apply accounts.of_iff
  intro trees image
  constructor
  · exact Solution.of_succ
  · intro solution
    rcases solution.next_or with ⟨parts, others, rfl⟩ | next
    · rcases solution.enter ready found with ⟨_, _, _, unifies, _⟩
      cases fails.symm.trans unifies
    · exact next

/-- Trees that were found without a clause do not use it. -/
theorem Yields.of_succ
    (yields : (Frame.resolve goal rest subst (index + 1)).Yields database session trees answer) :
    (Frame.resolve goal rest subst index).Yields database session trees answer := by
  have found := yields.solution_resolve
  refine ⟨yields.acyclic, fun image => (yields.solutions image).trans ?_⟩
  constructor
  · exact Solution.of_succ
  · intro solution
    exact ⟨solution.satisfied, solution.proofs, found.untried⟩

/-- A clause whose head unifies with the goal adds the trees that use it, with the proofs of
its body as parts. -/
theorem Accounts.enter
    (inside : (Frame.prove ((session.copyOf clause).body ++ rest) unified).Accounts database after
      entered)
    (outside : (Frame.resolve goal rest subst (index + 1)).Accounts database session passed)
    (ready : (Frame.resolve goal rest subst index).Ready session)
    (older : session.nextVar ≤ after.nextVar) (found : database.nthNewest? index = some clause)
    (unifies : Subst.unify goal (session.copyOf clause).head subst = some unified) :
    (Frame.resolve goal rest subst index).Accounts database session
      (entered.map (Entry.graft index (session.copyOf clause).body.length) ++ passed) where
  distinct := by
    rw [List.map_append, Entry.map_trees_graft, List.nodup_append']
    refine ⟨inside.distinct.map (ProofTree.graft_injective _ _), outside.distinct, ?_⟩
    -- the clause is at the root of the trees that use it, and of no others
    intro trees uses passes
    rcases List.mem_map.mp uses with ⟨_, _, rfl⟩
    rcases List.mem_map.mp passes with ⟨entry, member, same⟩
    have solution := (outside.yields entry member).solution_resolve
    rw [same] at solution
    exact absurd (solution.untried _ rfl) (Nat.not_succ_le_self index)
  yields := by
    intro entry member
    rcases List.mem_append.mp member with uses | passes
    · rcases List.mem_map.mp uses with ⟨entry, inEntered, rfl⟩
      apply (inside.yields entry inEntered).back ready.only older
      · intro image solution
        exact solution.leave ready.acyclic found unifies
      · intro image solution
        rcases solution.enter ready found with ⟨_, _, wider, again, kept, proves⟩
        cases unifies.symm.trans again
        rw [List.take_append_drop] at proves
        exact ⟨wider, kept, proves⟩
    · exact (outside.yields entry passes).of_succ
  complete := by
    intro trees image solution
    rw [List.map_append, Entry.map_trees_graft, List.mem_append]
    rcases solution.next_or with ⟨parts, others, rfl⟩ | next
    · left
      rcases solution.enter ready found with ⟨length, _, wider, again, _, proves⟩
      cases unifies.symm.trans again
      rw [← ProofTree.graft_append length]
      exact List.mem_map_of_mem (inside.complete _ wider proves)
    · exact .inr (outside.complete trees image next)

end Attempt

end Frame

/-! ## Accounting for runs -/

namespace Search

variable {frames later last : List Frame} {final : Session} {found : Option Subst}
variable {answers : List Subst} {accounts : List (List Entry)}

/-- Every frame of the stack is accounted for, the first one first. -/
def Accounted (database : Database) (session : Session)
    (accounts : List (List Entry)) (frames : List Frame) : Prop :=
  List.Forall₂ (fun entries frame => frame.Accounts database session entries) accounts frames

theorem Accounted.back (accounted : Accounted database after accounts frames)
    (ready : ∀ frame ∈ frames, frame.Ready session) (older : session.nextVar ≤ after.nextVar) :
    Accounted database session accounts frames := by
  induction accounted with
  | nil => exact .nil
  | cons first _ ih =>
      rcases List.forall_mem_cons.mp ready with ⟨firstReady, belowReady⟩
      exact .cons (first.back firstReady.only older) (ih belowReady)

/-- What is left of a goal after a clause is accounted for, also if no clause is left. -/
theorem Accounted.exists_passed {goal : Term} {rest : List Term} {subst : Subst} {index : Nat}
    (accounted : Accounted database after accounts
      (alternatives database goal rest subst index ++ frames))
    (ready : ∀ frame ∈ .resolve goal rest subst index :: frames, frame.Ready session)
    (older : session.nextVar ≤ after.nextVar) :
    ∃ passed others, accounts.flatten = passed ++ others.flatten ∧
      (Frame.resolve goal rest subst (index + 1)).Accounts database session passed ∧
      Accounted database session others frames := by
  rcases List.forall_mem_cons.mp ready with ⟨⟨_, inGoals, inSubst⟩, belowReady⟩
  by_cases more : index + 1 < database.size
  · rw [alternatives, if_pos more] at accounted
    rcases accounted with _ | ⟨first, others⟩
    exact ⟨_, _, List.flatten_cons, first.back ⟨inGoals, inSubst⟩ older,
      Accounted.back others belowReady older⟩
  · rw [alternatives, if_neg more] at accounted
    exact ⟨[], accounts, rfl, Frame.accounts_nil (Nat.le_of_not_lt more),
      accounted.back belowReady older⟩

/-- The work before a move is accounted for by the work after it and the answer. -/
theorem Move.accounted (move : Move database frames session found later after)
    (ready : ∀ frame ∈ frames, frame.Ready session)
    (accounted : Accounted database after accounts later) :
    ∃ before, Accounted database session before frames ∧
      before.flatten.map Entry.answer = found.toList ++ accounts.flatten.map Entry.answer := by
  have older := move.nextVar_le
  cases move with
  | answer =>
      exact ⟨_, .cons (Frame.accounts_answer (ready _ List.mem_cons_self)) accounted, rfl⟩
  | select =>
      rcases accounted with _ | ⟨first, others⟩
      exact ⟨_, .cons (first.of_iff fun _ _ => Frame.solution_select_iff) others, rfl⟩
  | drop absent =>
      have outside := Database.nthNewest?_eq_none_iff.mp absent
      exact ⟨_, .cons (Frame.accounts_nil outside) accounted, rfl⟩
  | enter tried unifies =>
      rcases accounted with _ | ⟨inside, accounted⟩
      rcases Accounted.exists_passed accounted ready older with
        ⟨passed, others, flat, outside, below⟩
      have first := inside.enter outside (ready _ List.mem_cons_self) older tried unifies
      refine ⟨_, .cons first below, ?_⟩
      simp [flat]
  | skip tried fails =>
      rcases accounted.exists_passed ready older with ⟨passed, others, flat, outside, below⟩
      have first := outside.skip (ready _ List.mem_cons_self) tried fails
      exact ⟨_, .cons first below, by rw [flat, List.flatten_cons]; rfl⟩

/-- The work at the start of a run is accounted for by the work at its end and the answers. -/
theorem Run.accounted (run : Run database frames session answers last final)
    (ready : ∀ frame ∈ frames, frame.Ready session)
    (accounted : Accounted database final accounts last) :
    ∃ before, Accounted database session before frames ∧
      before.flatten.map Entry.answer = answers ++ accounts.flatten.map Entry.answer := by
  induction run with
  | done => exact ⟨accounts, accounted, rfl⟩
  | wait older _ ih =>
      rcases ih (fun frame member => (ready frame member).mono older) accounted with
        ⟨before, accounted, same⟩
      exact ⟨before, accounted.back ready older, same⟩
  | move move _ ih =>
      rcases ih (move.ready ready) accounted with ⟨between, accounted, same⟩
      rcases move.accounted ready accounted with ⟨before, accounted, sameToo⟩
      exact ⟨before, accounted, by rw [sameToo, same, List.append_assoc]⟩

/-- The answers of an exhausted search are those of the trees that prove its goals, each list
of trees being met once. -/
theorem Exhausts.accounted {goals : List Term} {start : Subst}
    (exhausts : (all database goals start).Exhausts session answers) (acyclic : start.Acyclic)
    (inGoals : ∀ goal ∈ goals, goal.Only session.Has) (inStart : start.Only session.Has) :
    ∃ entries, (Frame.prove goals start).Accounts database session entries ∧
      entries.map Entry.answer = answers := by
  rcases exhausts.run with ⟨final, run⟩
  have ready : ∀ frame ∈ [Frame.prove goals start], frame.Ready session :=
    List.forall_mem_singleton.mpr ⟨acyclic, inGoals, inStart⟩
  rcases run.accounted ready (.nil : Accounted database final [] []) with
    ⟨before, accounted, same⟩
  rcases accounted with _ | ⟨first, others⟩
  cases others
  exact ⟨_, first, by simpa using same⟩

end Search

end Horn
