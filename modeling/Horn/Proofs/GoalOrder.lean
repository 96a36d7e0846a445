import Mathlib.Data.Multiset.MapFold
import Horn.Proofs.ProofTrees
import Horn.Proofs.Variants

/-!
# The order of goals

A search proves its goals from the first to the last, and so their order decides which
clauses are tried, which variables are minted and in which order answers come. It does not
decide what the answers are: two exhausted searches for the same goals in different orders
have the same answers equally often, up to renaming of variables
(`answers_independent_of_goal_order`).

The runs have nothing in common that could be followed step by step. But both account for
all proof trees of the goals, each list of trees once, and the lists for one order are those
for the other, rearranged. What matched answers have in common is the maps that they allow.
-/

namespace Horn

/-! ## Rearranging -/

section Rearranging

variable {α β : Type}

def rearrangeTail (arrange : Equiv.Perm (List α)) : Equiv.Perm (List α) where
  toFun
    | [] => []
    | first :: rest => first :: arrange rest
  invFun
    | [] => []
    | first :: rest => first :: arrange.symm rest
  left_inv items := by cases items <;> simp
  right_inv items := by cases items <;> simp

def exchangeFirst : Equiv.Perm (List α) where
  toFun
    | first :: second :: rest => second :: first :: rest
    | items => items
  invFun
    | first :: second :: rest => second :: first :: rest
    | items => items
  left_inv items := by rcases items with _ | ⟨_, _ | ⟨_, _⟩⟩ <;> rfl
  right_inv items := by rcases items with _ | ⟨_, _ | ⟨_, _⟩⟩ <;> rfl

/-- What is related to a list item by item is related to a permutation of the list once it is
rearranged, whatever the relation is. -/
theorem exists_arrange_of_perm {left right : List β} (order : left.Perm right) :
    ∃ arrange : Equiv.Perm (List α), ∀ (relates : α → β → Prop) (items : List α),
      List.Forall₂ relates items left ↔ List.Forall₂ relates (arrange items) right := by
  induction order with
  | nil => exact ⟨Equiv.refl _, fun _ _ => Iff.rfl⟩
  | cons _ _ ih =>
      rcases ih with ⟨arrange, same⟩
      refine ⟨rearrangeTail arrange, ?_⟩
      intro relates items
      cases items with
      | nil => simp [rearrangeTail]
      | cons first rest => simp [rearrangeTail, same relates rest]
  | swap _ _ _ =>
      refine ⟨exchangeFirst, ?_⟩
      intro relates items
      rcases items with _ | ⟨first, _ | ⟨second, rest⟩⟩
      · simp [exchangeFirst]
      · simp [exchangeFirst]
      · simp [exchangeFirst, and_left_comm]
  | trans _ _ firstIH secondIH =>
      rcases firstIH with ⟨arrange, same⟩
      rcases secondIH with ⟨arrangeToo, sameToo⟩
      refine ⟨arrange.trans arrangeToo, ?_⟩
      intro relates items
      rw [same, sameToo, Equiv.trans_apply]

end Rearranging

/-- One renaming takes what the variables of the scope resolve to under one substitution to
what they resolve to under the other. -/
def Subst.VariantOf (first second : Subst) (scope : List Nat) : Prop :=
  ∃ rename : Equiv.Perm Nat, ∀ v : Var, v.id ∈ scope →
    (first.resolve (.var v)).bare.map rename id = (second.resolve (.var v)).bare

namespace Frame

variable {database : Database} {one two : Session} {frame other : Frame}
variable {trees treesToo : List ProofTree} {answer answerToo : Subst} {image : Nat → Term Nat}
variable {entries others : List Entry}

/-- The trees that prove goals prove them in any order, rearranged. -/
theorem exists_arrange_solution {goals permuted : List Term} (order : goals.Perm permuted)
    (database : Database) (start : Subst) :
    ∃ arrange : Equiv.Perm (List ProofTree), ∀ trees image,
      (Frame.prove goals start).Solution database trees image ↔
        (Frame.prove permuted start).Solution database (arrange trees) image := by
  -- which terms the trees prove depends on the map, and how to rearrange them does not
  rcases exists_arrange_of_perm (α := ProofTree) order with ⟨arrange, same⟩
  refine ⟨arrange, ?_⟩
  intro trees image
  have proofs : List.Forall₂ (ProofTree.Proves database) trees
        (goals.map fun goal => goal.bare.instantiate image) ↔
      List.Forall₂ (ProofTree.Proves database) (arrange trees)
        (permuted.map fun goal => goal.bare.instantiate image) := by
    rw [List.forall₂_map_right_iff, List.forall₂_map_right_iff, same]
  constructor
  · rintro ⟨satisfied, prove, _⟩
    exact ⟨satisfied, proofs.mp prove, fun tree _ => Nat.zero_le tree.index⟩
  · rintro ⟨satisfied, prove, _⟩
    exact ⟨satisfied, proofs.mpr prove, fun tree _ => Nat.zero_le tree.index⟩

/-! ## Matching -/

/-- Where the trees of one account are those of another, rearranged, each entry of one has its
counterpart in the other. -/
theorem Accounts.rel (accounts : frame.Accounts database one entries)
    (accountsToo : other.Accounts database two others) (arrange : Equiv.Perm (List ProofTree))
    (same : ∀ trees image, frame.Solution database trees image ↔
      other.Solution database (arrange trees) image) :
    Multiset.Rel (fun entry counterpart : Entry => arrange entry.trees = counterpart.trees)
      entries others := by
  -- neither account repeats trees, so it is enough that both have the same
  have nodup : ((entries.map Entry.trees).map arrange).Nodup :=
    accounts.distinct.map arrange.injective
  have sameTrees : ((entries.map Entry.trees).map arrange).Perm (others.map Entry.trees) := by
    rw [List.perm_ext_iff_of_nodup nodup accountsToo.distinct]
    intro trees
    constructor
    · intro member
      rcases List.mem_map.mp member with ⟨_, listed, rfl⟩
      rcases List.mem_map.mp listed with ⟨entry, inEntries, rfl⟩
      have solution := (accounts.yields entry inEntries).solution_resolve
      exact accountsToo.complete _ _ ((same _ _).mp solution)
    · intro member
      rcases List.mem_map.mp member with ⟨entry, inOthers, rfl⟩
      have solution := (accountsToo.yields entry inOthers).solution_resolve
      rw [← arrange.apply_symm_apply entry.trees, ← same] at solution
      have found := accounts.complete _ _ solution
      exact List.mem_map.mpr ⟨_, found, arrange.apply_symm_apply entry.trees⟩
  rw [List.map_map, ← Multiset.coe_eq_coe, ← Multiset.map_coe, ← Multiset.map_coe,
    ← Multiset.rel_eq, Multiset.rel_map] at sameTrees
  exact sameTrees

/-- A map under which the trees prove what the work has to prove makes the resolved variables
what it maps them to. -/
theorem Yields.exists_instance (yields : frame.Yields database one trees answer)
    (solution : frame.Solution database trees image) :
    ∃ there : Nat → Term Nat, ∀ v, one.Has v →
      (answer.solution v).instantiate there = image v := by
  rcases (yields.solutions image).mpr solution with ⟨there, agrees, satisfied⟩
  refine ⟨there, ?_⟩
  intro v has
  rw [satisfied.instantiate_solution yields.acyclic, agrees v has]

/-- Answers with the same solutions are variants on the variables that were given. -/
theorem Yields.variantOf (yields : frame.Yields database one trees answer)
    (yieldsToo : other.Yields database two treesToo answerToo)
    (same : ∀ image, frame.Solution database trees image ↔
      other.Solution database treesToo image)
    {scope : List Nat} (inOne : ∀ v ∈ scope, one.Has v) (inTwo : ∀ v ∈ scope, two.Has v) :
    answer.VariantOf answerToo scope := by
  have solved := (same _).mp yields.solution_resolve
  have solvedToo := (same _).mpr yieldsToo.solution_resolve
  rcases yields.exists_instance solvedToo with ⟨there, forth⟩
  rcases yieldsToo.exists_instance solved with ⟨back, again⟩
  rcases exists_perm_of_instances (fun v inScope => forth v (inOne v inScope))
    (fun v inScope => again v (inTwo v inScope)) with ⟨rename, renamed, _⟩
  refine ⟨rename, ?_⟩
  intro v inScope
  rw [yields.acyclic.bare_resolve_var, yieldsToo.acyclic.bare_resolve_var, renamed v.id inScope]

end Frame

namespace Search

variable {database : Database} {goals permuted : List Term} {start : Subst}
variable {one two : Session} {answers others : List Subst}

/-- Neither the answers nor how often they come depend on the order of the goals. Where two
searches for the same goals in different orders are exhausted, both opened under the same
acyclic substitution when all variables in it and in the goals were minted, their answers
match one to one, and matched answers are variants on all these variables at once. -/
theorem answers_independent_of_goal_order (order : goals.Perm permuted) (acyclic : start.Acyclic)
    (inOne : ∀ id ∈ scope goals start, one.Has id)
    (inTwo : ∀ id ∈ scope goals start, two.Has id)
    (exhausts : (all database goals start).Exhausts one answers)
    (exhaustsToo : (all database permuted start).Exhausts two others) :
    Multiset.Rel
      (fun answer other => answer.VariantOf other (scope goals start))
      (answers : Multiset Subst) (others : Multiset Subst) := by
  have onlyOne : (Frame.prove goals start).Only one.Has := Frame.only_iff.mpr inOne
  have onlyTwo : (Frame.prove goals start).Only two.Has := Frame.only_iff.mpr inTwo
  have onlyPermuted : ∀ goal ∈ permuted, goal.Only two.Has :=
    fun goal member => onlyTwo.goals goal (order.mem_iff.mpr member)
  rcases exhausts.accounted acyclic onlyOne.goals onlyOne.subst with ⟨entries, accounts, rfl⟩
  rcases exhaustsToo.accounted acyclic onlyPermuted onlyTwo.subst with
    ⟨counterparts, accountsToo, rfl⟩
  rcases Frame.exists_arrange_solution order database start with ⟨arrange, same⟩
  rw [← Multiset.map_coe, ← Multiset.map_coe, Multiset.rel_map]
  apply (accounts.rel accountsToo arrange same).mono
  intro entry member counterpart memberToo rearranged
  have yields := accounts.yields entry member
  have yieldsToo := accountsToo.yields counterpart memberToo
  rw [← rearranged] at yieldsToo
  exact yields.variantOf yieldsToo (same entry.trees) inOne inTwo

/-- There are two ways to prove `(p . u)` and one, with a new variable, to prove `(q . w)`.
With `(p . u)` first each answer has a variable of its own; with `(q . w)` first both have
the same one. Either way `u` is `b` once and `a` once, and `w` is left open. -/
theorem answers_independent_of_goal_order_facts :
    let x : Var := ⟨0, "x"⟩
    let u : Var := ⟨1, "u"⟩
    let w : Var := ⟨2, "w"⟩
    let copied (id : Nat) : Term := .var ⟨id, "x"⟩
    let p := Term.symbol "p"
    let q := Term.symbol "q"
    let a := Term.symbol "a"
    let b := Term.symbol "b"
    let database : Database :=
      ⟨#[.fact (.pair p a), .fact (.pair p b), .fact (.pair q (.var x))]⟩
    let pu := Term.pair p (.var u)
    let qw := Term.pair q (.var w)
    let session : Session := ⟨3, []⟩
    let answers :=
      [(Subst.empty.bind u b).bind w (copied 4), (Subst.empty.bind u a).bind w (copied 5)]
    let others :=
      [(Subst.empty.bind w (copied 3)).bind u b, (Subst.empty.bind w (copied 3)).bind u a]
    (all database [pu, qw] .empty).Exhausts session answers ∧
      (all database [qw, pu] .empty).Exhausts session others ∧
      Multiset.Rel (fun answer other => answer.VariantOf other [u.id, w.id])
        (answers : Multiset Subst) (others : Multiset Subst) := by
  intro x u w copied p q a b database pu qw session answers others
  let first := (all database [pu, qw] .empty).pull 20 session
  let second := first.search.pull 20 first.session
  have pulls : Pulls (all database [pu, qw] .empty) session answers second.search second.session :=
    (Pulls.start.next (by decide +kernel)).next (by decide +kernel)
  have exhausts : (all database [pu, qw] .empty).Exhausts session answers :=
    ⟨_, _, _, 20, pulls, Nat.le_refl _, by decide +kernel⟩
  let firstToo := (all database [qw, pu] .empty).pull 20 session
  let secondToo := firstToo.search.pull 20 firstToo.session
  have pullsToo : Pulls (all database [qw, pu] .empty) session others secondToo.search
      secondToo.session :=
    (Pulls.start.next (by decide +kernel)).next (by decide +kernel)
  have exhaustsToo : (all database [qw, pu] .empty).Exhausts session others :=
    ⟨_, _, _, 20, pullsToo, Nat.le_refl _, by decide +kernel⟩
  have known : ∀ id ∈ scope [pu, qw] .empty, session.Has id := by
    simp [scope, pu, qw, p, q, u, w, Term.vars, Subst.ids, Subst.empty, Session.Has, session]
  exact ⟨exhausts, exhaustsToo, answers_independent_of_goal_order (.swap qw pu [])
    Subst.acyclic_empty known known exhausts exhaustsToo⟩

end Search

end Horn
