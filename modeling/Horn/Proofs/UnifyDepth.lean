import Horn.Proofs.Unifying

/-!
# The depth of unification

`Subst.unifyDepth` bounds the depth of unification by a number that is fixed before
it starts. This module shows that no path through two terms is longer, so that the
bound is never felt: under an acyclic substitution `unify` follows the rules of
`Subst.Unifying`, whatever is known to be shared.

The argument counts along a path. As long as nothing is bound, the resolved terms
become smaller. A new binding may make them larger, but it uses up a free variable,
and no resolved term is larger than all values on top of each other.
-/

namespace Horn

namespace Term

variable {V W : Type}

/-- The number of pairs on a longest path through the term. -/
def depth : Term V → Nat
  | .pair head tail => max head.depth tail.depth + 1
  | _ => 0

theorem two_mul_depth_lt_size (term : Term V) : 2 * term.depth < term.size := by
  induction term with
  | var v => simp [depth, size]
  | atom a => simp [depth, size]
  | pair head tail headIH tailIH =>
      simp only [depth, size]
      omega

theorem length_vars_le_size (term : Term V) : term.vars.length ≤ term.size := by
  induction term with
  | var v => simp [vars, size]
  | atom a => simp [vars]
  | pair head tail headIH tailIH =>
      simp only [vars, size, List.length_append]
      omega

/-- Putting in terms makes a term deeper by no more than the deepest of them. -/
theorem depth_instantiate_le {image : V → Term W} {term : Term V} (limit : Nat)
    (images : ∀ v ∈ term.vars, (image v).depth ≤ limit) :
    (term.instantiate image).depth ≤ limit + term.depth := by
  induction term with
  | var v => simpa [depth] using images v (by simp)
  | atom a => simp [depth]
  | pair head tail headIH tailIH =>
      have inHead := headIH fun v member => images v (by simp [member])
      have inTail := tailIH fun v member => images v (by simp [member])
      simp only [instantiate_pair, depth]
      omega

end Term

/-- The variables that may occur in the terms at hand, and how deep these may be. -/
structure Scope where
  vars : Finset Nat
  depth : Nat

namespace Scope

variable {scope : Scope} {subst : Subst} {left right term : Term}

/-- The term has no other variables and is not deeper. -/
def Has (scope : Scope) (term : Term) : Prop :=
  (∀ id ∈ term.bare.vars, id ∈ scope.vars) ∧ term.depth ≤ scope.depth

/-- Every value of the substitution is within the scope. -/
def HasValues (scope : Scope) (subst : Subst) : Prop :=
  ∀ {id value}, subst.lookup id = some value → scope.Has value

/-- The number of variables of the scope that are not bound yet. -/
def free (scope : Scope) (subst : Subst) : Nat :=
  (scope.vars.filter fun id => subst.lookup id = none).card

theorem Has.head {head tail : Term} (has : scope.Has (.pair head tail)) : scope.Has head := by
  constructor
  · intro id member
    exact has.1 id (by simp [member])
  · have bounded := has.2
    simp only [Term.depth] at bounded
    omega

theorem Has.tail {head tail : Term} (has : scope.Has (.pair head tail)) : scope.Has tail := by
  constructor
  · intro id member
    exact has.1 id (by simp [member])
  · have bounded := has.2
    simp only [Term.depth] at bounded
    omega

theorem HasValues.walk (values : scope.HasValues subst) (has : scope.Has term) :
    scope.Has (subst.walk term) :=
  Subst.walk_induction has fun found => values found

theorem HasValues.bind {v : Var} (values : scope.HasValues subst) (has : scope.Has term) :
    scope.HasValues (subst.bind v term) := by
  intro id value found
  rw [Subst.lookup_bind] at found
  split at found
  · cases found
    exact has
  · exact values found

/-- A binding of a free variable leaves one free variable less. -/
theorem free_bind {v : Var} (term : Term) (unbound : subst.lookup v.id = none)
    (member : v.id ∈ scope.vars) :
    scope.free (subst.bind v term) + 1 = scope.free subst := by
  have erased : (scope.vars.filter fun id => (subst.bind v term).lookup id = none) =
      (scope.vars.filter fun id => subst.lookup id = none).erase v.id := by
    ext id
    by_cases same : v.id = id
    · simp [Subst.lookup_bind, same]
    · simp [Subst.lookup_bind, same, Ne.symm same]
  rw [free, erased]
  exact Finset.card_erase_add_one (Finset.mem_filter.mpr ⟨member, unbound⟩)

/-- A resolved term is no deeper than all values on top of each other. -/
theorem HasValues.depth_resolve_le (values : scope.HasValues subst) (has : scope.Has term) :
    (subst.resolve term).depth ≤ (subst.size + 1) * scope.depth := by
  have within : ∀ steps term, scope.Has term →
      (subst.resolveWithin steps term).depth ≤ (steps + 1) * scope.depth := by
    intro steps
    induction steps with
    | zero =>
        intro term has
        simpa [Subst.resolveWithin] using has.2
    | succ steps ih =>
        intro term has
        rw [Subst.resolveWithin, Nat.succ_mul (steps + 1)]
        refine (Term.depth_instantiate_le ((steps + 1) * scope.depth) ?_).trans
          (Nat.add_le_add_left has.2 _)
        intro v _
        cases found : subst.lookup v.id with
        | none => simp [Term.depth]
        | some value => exact ih value (values found)
  exact within subst.size term has

end Scope

namespace Subst

variable {scope : Scope} {subst : Subst} {left right : Term}

/-- What unification does within a scope: it stays there, and each binding it makes
uses up one free variable. -/
structure Grows (scope : Scope) (subst unified : Subst) : Prop where
  values : scope.HasValues unified
  bindings : unified.size + scope.free unified = subst.size + scope.free subst
  eq_or_less : unified = subst ∨ scope.free unified < scope.free subst

theorem Grows.refl (values : scope.HasValues subst) : Grows scope subst subst :=
  ⟨values, rfl, .inl rfl⟩

theorem Grows.trans {between unified : Subst} (first : Grows scope subst between)
    (second : Grows scope between unified) : Grows scope subst unified where
  values := second.values
  bindings := second.bindings.trans first.bindings
  eq_or_less := by
    rcases first.eq_or_less with rfl | less
    · exact second.eq_or_less
    · rcases second.eq_or_less with rfl | further
      · exact .inr less
      · exact .inr (further.trans less)

theorem Grows.of_extend {extended : Subst} {v : Var} {value : Term}
    (values : scope.HasValues subst) (has : scope.Has value) (unbound : subst.lookup v.id = none)
    (member : v.id ∈ scope.vars) (made : subst.extend v value = some extended) :
    Grows scope subst extended := by
  obtain ⟨_, rfl⟩ := extend_eq_some_iff.mp made
  have one := Scope.free_bind value unbound member
  refine ⟨values.bind has, ?_, .inr ?_⟩
  · rw [size_bind]
    omega
  · omega

/-- A variable that a term of the scope walks to belongs to the scope. -/
theorem mem_scope_of_walk {v : Var} (values : scope.HasValues subst) {term : Term}
    (has : scope.Has term) (walked : subst.walk term = .var v) : v.id ∈ scope.vars := by
  have inside := values.walk has
  rw [walked] at inside
  exact inside.1 v.id (by simp)

theorem Unifying.grows {unified : Subst} (run : Unifying subst left right (some unified))
    (acyclic : subst.Acyclic) (values : scope.HasValues subst) (hasLeft : scope.Has left)
    (hasRight : scope.Has right) : Grows scope subst unified := by
  generalize ends : some unified = result at run
  induction run generalizing unified with
  | sameVar => cases ends; exact .refl values
  | sameAtom => cases ends; exact .refl values
  | bindLeft walkLeft =>
      exact .of_extend values (values.walk hasRight) (acyclic.lookup_of_walk_eq_var walkLeft)
        (mem_scope_of_walk values hasLeft walkLeft) ends.symm
  | bindRight _ walkRight =>
      exact .of_extend values (values.walk hasLeft) (acyclic.lookup_of_walk_eq_var walkRight)
        (mem_scope_of_walk values hasRight walkRight) ends.symm
  | clash => cases ends
  | heads => cases ends
  | tails walkLeft walkRight headRun _ headIH tailIH =>
      have pairLeft := values.walk hasLeft
      have pairRight := values.walk hasRight
      rw [walkLeft] at pairLeft
      rw [walkRight] at pairRight
      have first := headIH acyclic values pairLeft.head pairRight.head rfl
      have second := tailIH (headRun.acyclic acyclic) first.values pairLeft.tail
        pairRight.tail ends
      exact first.trans second

/-- The depth of every resolved term, now or after any number of bindings. -/
def deepest (scope : Scope) (subst : Subst) : Nat :=
  (subst.size + scope.free subst + 1) * scope.depth

theorem depth_resolve_le_deepest (values : scope.HasValues subst) {term : Term}
    (has : scope.Has term) : (subst.resolve term).depth ≤ deepest scope subst := by
  apply (values.depth_resolve_le has).trans
  apply Nat.mul_le_mul_right
  omega

/-- A number of pairs that no path through a term exceeds: as deep as the term is now,
and as deep as it may become for each variable that can still be bound. -/
def pathLimit (scope : Scope) (subst : Subst) (term : Term) : Nat :=
  scope.free subst * (deepest scope subst + 1) + (subst.resolve term).depth

theorem Acyclic.depth_resolve_of_walk_eq_pair (acyclic : subst.Acyclic)
    {term head tail : Term} (walked : subst.walk term = .pair head tail) :
    (subst.resolve term).depth =
      max (subst.resolve head).depth (subst.resolve tail).depth + 1 := by
  rw [← acyclic.resolve_walk, walked, resolve_pair, Term.depth]

/-- The path goes on in the head. -/
theorem Acyclic.pathLimit_head_lt (acyclic : subst.Acyclic) (scope : Scope) {term head tail : Term}
    (walked : subst.walk term = .pair head tail) :
    pathLimit scope subst head < pathLimit scope subst term := by
  have depth := acyclic.depth_resolve_of_walk_eq_pair walked
  simp only [pathLimit]
  omega

/-- The path goes on in the tail, under the bindings that the heads made. -/
theorem Acyclic.pathLimit_tail_lt (acyclic : subst.Acyclic) {unified : Subst}
    {term head tail : Term} (walked : subst.walk term = .pair head tail)
    (grows : Grows scope subst unified) (has : scope.Has tail) :
    pathLimit scope unified tail < pathLimit scope subst term := by
  have depth := acyclic.depth_resolve_of_walk_eq_pair walked
  rcases grows.eq_or_less with rfl | less
  · simp only [pathLimit]
    omega
  · have same : deepest scope unified = deepest scope subst := by
      rw [deepest, deepest, grows.bindings]
    have bounded := depth_resolve_le_deepest grows.values has
    have fewer := Nat.mul_le_mul_right (deepest scope subst + 1) (Nat.succ_le_of_lt less)
    rw [Nat.succ_mul] at fewer
    simp only [pathLimit, same] at bounded ⊢
    omega

/-- Where a side walks to a leaf, unification follows the rules at any depth. -/
theorem unifying_unifyWithin_of_leaf (sharing : Sharing) (depth : Nat) (place : List Part)
    (unknown : ¬sharing.known place left right = true)
    (leaf : ∀ leftHead leftTail rightHead rightTail,
      subst.walk left = .pair leftHead leftTail → subst.walk right ≠ .pair rightHead rightTail) :
    Unifying subst left right (unifyWithin sharing (depth + 1) place left right subst) := by
  rw [unifyWithin, if_neg unknown]
  cases walkLeft : subst.walk left with
  | var v =>
      have binds : (subst.walk right).bare ≠ .var v.id →
          Unifying subst left right (subst.extend v (subst.walk right)) := .bindLeft walkLeft
      cases walkRight : subst.walk right with
      | var w =>
          by_cases same : v.id = w.id
          · simpa [Var.same, same] using Unifying.sameVar walkLeft walkRight same
          · simpa [walkRight, Var.same, same, Ne.symm same] using binds
      | atom b => simpa [walkRight] using binds
      | pair rightHead rightTail => simpa [walkRight] using binds
  | atom a =>
      cases walkRight : subst.walk right with
      | var w =>
          have binds : Unifying subst left right (subst.extend w (subst.walk left)) :=
            .bindRight (by simp [walkLeft]) walkRight
          simpa [walkLeft] using binds
      | atom b =>
          by_cases same : a = b
          · subst same
            simpa using Unifying.sameAtom walkLeft walkRight
          · have clash := Term.Clash.atoms same
            rw [← walkLeft, ← walkRight] at clash
            simpa [same] using Unifying.clash clash
      | pair rightHead rightTail =>
          have clash : Term.Clash (.atom a) (.pair rightHead rightTail) := .atomPair
          rw [← walkLeft, ← walkRight] at clash
          exact .clash clash
  | pair leftHead leftTail =>
      cases walkRight : subst.walk right with
      | var w =>
          have binds : Unifying subst left right (subst.extend w (subst.walk left)) :=
            .bindRight (by simp [walkLeft]) walkRight
          simpa [walkLeft] using binds
      | atom b =>
          have clash : Term.Clash (.pair leftHead leftTail) (.atom b) := .pairAtom
          rw [← walkLeft, ← walkRight] at clash
          exact .clash clash
      | pair rightHead rightTail => exact absurd walkRight (leaf _ _ _ _ walkLeft)

/-- With enough depth, unification follows the rules. -/
theorem Acyclic.unifying_unifyWithin (sharing : Sharing) {depth : Nat} {place : List Part}
    (acyclic : subst.Acyclic) (values : scope.HasValues subst) (hasLeft : scope.Has left)
    (hasRight : scope.Has right) (enough : pathLimit scope subst left < depth) :
    Unifying subst left right (unifyWithin sharing depth place left right subst) := by
  induction depth generalizing place left right subst with
  | zero => exact absurd enough (Nat.not_lt_zero _)
  | succ depth ih =>
      by_cases known : sharing.known place left right = true
      · rw [unifyWithin, if_pos known]
        exact acyclic.unifying_same (sharing.bare_eq_of_known known)
      by_cases pairs : ∃ leftHead leftTail rightHead rightTail,
          subst.walk left = .pair leftHead leftTail ∧ subst.walk right = .pair rightHead rightTail
      · obtain ⟨leftHead, leftTail, rightHead, rightTail, walkLeft, walkRight⟩ := pairs
        have pairLeft := values.walk hasLeft
        have pairRight := values.walk hasRight
        rw [walkLeft] at pairLeft
        rw [walkRight] at pairRight
        simp only [unifyWithin, if_neg known, walkLeft, walkRight]
        split
        next shared =>
          have run := acyclic.unifying_same (sharing.bare_eq_of_known shared)
          exact run.of_walk walkLeft walkRight
        next =>
          have headShorter := acyclic.pathLimit_head_lt scope walkLeft
          have headRun : Unifying subst leftHead rightHead
              (unifyWithin sharing depth (.head :: place) leftHead rightHead subst) :=
            ih acyclic values pairLeft.head pairRight.head (by omega)
          split
          next unified headEnds =>
            rw [headEnds] at headRun
            have grows := headRun.grows acyclic values pairLeft.head pairRight.head
            have tailShorter := acyclic.pathLimit_tail_lt walkLeft grows pairLeft.tail
            have tailRun : Unifying unified leftTail rightTail
                (unifyWithin sharing depth (.tail :: place) leftTail rightTail unified) :=
              ih (headRun.acyclic acyclic) grows.values pairLeft.tail pairRight.tail (by omega)
            exact .tails walkLeft walkRight headRun tailRun
          next headEnds =>
            rw [headEnds] at headRun
            exact .heads walkLeft walkRight headRun
      · apply unifying_unifyWithin_of_leaf sharing depth place known
        intro leftHead leftTail rightHead rightTail walkLeft walkRight
        exact pairs ⟨_, _, _, _, walkLeft, walkRight⟩

end Subst

namespace Binding

/-! ## The depth that is given -/

theorem length_le_weights (bindings : List Binding) : bindings.length ≤ weights bindings := by
  induction bindings with
  | nil => simp
  | cons binding rest ih =>
      simp only [weights, List.length_cons]
      omega

theorem size_value_le_weights {binding : Binding} {bindings : List Binding}
    (member : binding ∈ bindings) : binding.value.size ≤ weights bindings := by
  induction bindings with
  | nil => exact absurd member List.not_mem_nil
  | cons first rest ih =>
      simp only [weights]
      rcases List.mem_cons.mp member with rfl | inRest
      · omega
      · have below := ih inRest
        omega

theorem length_vars_le_weights (bindings : List Binding) :
    (bindings.flatMap fun binding => binding.value.bare.vars).length ≤ weights bindings := by
  induction bindings with
  | nil => simp
  | cons binding rest ih =>
      have here := binding.value.bare.length_vars_le_size
      rw [Term.size_bare] at here
      simp only [weights, List.flatMap_cons, List.length_append]
      omega

end Binding

namespace Subst

variable {subst : Subst}

/-- The variables of all values, with repetitions. -/
def valueVars (subst : Subst) : List Nat :=
  subst.bindings.flatMap fun binding => binding.value.bare.vars

/-- The scope of a unification: the variables and the sizes of all that is there. -/
def unifyScope (left right : Term) (subst : Subst) : Scope where
  vars := (subst.valueVars ++ left.bare.vars ++ right.bare.vars).toFinset
  depth := (subst.weight + left.size + right.size + 1) / 2

theorem unifyScope_hasValues (left right : Term) (subst : Subst) :
    (unifyScope left right subst).HasValues subst := by
  intro id value found
  obtain ⟨_, _, member⟩ := exists_mem_bindings_of_lookup found
  constructor
  · intro other inside
    simp only [unifyScope, List.mem_toFinset, List.mem_append, valueVars, List.mem_flatMap]
    exact .inl (.inl ⟨_, member, inside⟩)
  · have small : value.size ≤ Binding.weights subst.bindings :=
      Binding.size_value_le_weights member
    have shallow := value.two_mul_depth_lt_size
    simp only [unifyScope, subst.weight_eq]
    omega

theorem unifyScope_has_left (left right : Term) (subst : Subst) :
    (unifyScope left right subst).Has left := by
  constructor
  · intro id member
    simp [unifyScope, member]
  · have shallow := left.two_mul_depth_lt_size
    simp only [unifyScope]
    omega

theorem unifyScope_has_right (left right : Term) (subst : Subst) :
    (unifyScope left right subst).Has right := by
  constructor
  · intro id member
    simp [unifyScope, member]
  · have shallow := right.two_mul_depth_lt_size
    simp only [unifyScope]
    omega

theorem free_unifyScope_le (left right : Term) (subst : Subst) :
    (unifyScope left right subst).free subst ≤ subst.weight + left.size + right.size := by
  have inValues := Binding.length_vars_le_weights subst.bindings
  have inLeft := left.bare.length_vars_le_size
  have inRight := right.bare.length_vars_le_size
  rw [Term.size_bare] at inLeft inRight
  calc (unifyScope left right subst).free subst
      ≤ (unifyScope left right subst).vars.card := Finset.card_filter_le _ _
    _ ≤ (subst.valueVars ++ left.bare.vars ++ right.bare.vars).length := List.toFinset_card_le _
    _ ≤ subst.weight + left.size + right.size := by
        simp only [valueVars, List.length_append, subst.weight_eq]
        omega

theorem deepest_unifyScope_lt (left right : Term) (subst : Subst) :
    deepest (unifyScope left right subst) subst <
      (subst.weight + left.size + right.size + 1) *
        (subst.weight + left.size + right.size + 1) := by
  have free := free_unifyScope_le left right subst
  have few := Binding.length_le_weights subst.bindings
  rw [← subst.size_eq, ← subst.weight_eq] at few
  have positive := left.size_pos
  have positive' := right.size_pos
  rw [deepest]
  generalize (unifyScope left right subst).free subst = unbound at *
  simp only [unifyScope]
  generalize nodesEq : subst.weight + left.size + right.size + 1 = nodes
  have levels : subst.size + unbound + 1 < 2 * nodes := by omega
  have half : 2 * (nodes / 2) ≤ nodes := Nat.mul_div_le nodes 2
  have doubled : 2 * ((subst.size + unbound + 1) * (nodes / 2)) < 2 * (nodes * nodes) :=
    calc 2 * ((subst.size + unbound + 1) * (nodes / 2))
        = (subst.size + unbound + 1) * (2 * (nodes / 2)) := by rw [Nat.mul_left_comm]
      _ ≤ (subst.size + unbound + 1) * nodes := Nat.mul_le_mul_left _ half
      _ < (2 * nodes) * nodes := Nat.mul_lt_mul_of_pos_right levels (by omega)
      _ = 2 * (nodes * nodes) := Nat.mul_assoc ..
  omega

/-- The depth that unification is given exceeds every path. -/
theorem pathLimit_lt_unifyDepth (left right : Term) (subst : Subst) :
    pathLimit (unifyScope left right subst) subst left < unifyDepth left right subst := by
  have free := free_unifyScope_le left right subst
  have bounded := depth_resolve_le_deepest (unifyScope_hasValues left right subst)
    (unifyScope_has_left left right subst)
  have deep := deepest_unifyScope_lt left right subst
  simp only [pathLimit, unifyDepth]
  generalize deepest (unifyScope left right subst) subst = deepest at *
  generalize (unifyScope left right subst).free subst = unbound at *
  generalize subst.weight + left.size + right.size = nodes at *
  calc unbound * (deepest + 1) + (subst.resolve left).depth
      < unbound * (deepest + 1) + (deepest + 1) := by omega
    _ = (unbound + 1) * (deepest + 1) := (Nat.succ_mul ..).symm
    _ ≤ (nodes + 1) * ((nodes + 1) * (nodes + 1)) :=
        Nat.mul_le_mul (Nat.succ_le_succ free) deep
    _ = (nodes + 1) * (nodes + 1) * (nodes + 1) := (Nat.mul_assoc ..).symm

/-- Under an acyclic substitution unification follows the rules, whatever is known to
be shared. -/
theorem Acyclic.unifying_unifyWith (acyclic : subst.Acyclic) (sharing : Sharing)
    (left right : Term) : Unifying subst left right (unifyWith sharing left right subst) :=
  acyclic.unifying_unifyWithin sharing (unifyScope_hasValues left right subst)
    (unifyScope_has_left left right subst) (unifyScope_has_right left right subst)
    (pathLimit_lt_unifyDepth left right subst)

end Subst

end Horn
