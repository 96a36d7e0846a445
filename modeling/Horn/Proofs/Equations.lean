import Horn.Proofs.Chains
import Horn.Proofs.Variants

/-!
# Systems of equations

Equations are solved one after another, each under the bindings that those before it made.
Their order and their sides decide which variables are bound, and to what; they do not decide
whether there is a solution, how many bindings are made, or what terms resolve to, up to a
renaming of variables (`equations_in_any_order`).

No step of one run corresponds to a step of another. What two runs have in common is their
solutions (`Acyclic.satisfiedBy_unifyAll_iff`), and these determine resolved terms.
-/

namespace Horn.Subst

/-- Solve equations from the first to the last. -/
def unifyAll : List (Term × Term) → Subst → Option Subst
  | [], subst => some subst
  | (left, right) :: rest, subst => (unify left right subst).bind (unifyAll rest)

/-- The map makes both sides of every equation equal. -/
def Equates (image : Nat → Term Nat) (equations : List (Term × Term)) : Prop :=
  ∀ equation ∈ equations, equation.1.bare.instantiate image = equation.2.bare.instantiate image

variable {subst older newer one two unified : Subst} {image : Nat → Term Nat}
variable {equations turned others : List (Term × Term)}

theorem equates_cons {equation : Term × Term} :
    Equates image (equation :: equations) ↔
      equation.1.bare.instantiate image = equation.2.bare.instantiate image ∧
        Equates image equations :=
  List.forall_mem_cons

/-- The maps that satisfy the result are the solutions of all equations. -/
theorem Acyclic.satisfiedBy_unifyAll_iff (acyclic : subst.Acyclic)
    (solved : unifyAll equations subst = some unified) (image : Nat → Term Nat) :
    unified.SatisfiedBy image ↔ subst.SatisfiedBy image ∧ Equates image equations := by
  induction equations generalizing subst with
  | nil =>
      cases solved
      simp [Equates]
  | cons equation rest ih =>
      rcases Option.bind_eq_some_iff.mp solved with ⟨between, unifies, solvedRest⟩
      rw [ih (acyclic.of_unify unifies) solvedRest, acyclic.satisfiedBy_unify_iff unifies,
        equates_cons, and_assoc]

theorem Acyclic.exists_unifyAll (acyclic : subst.Acyclic) (satisfied : subst.SatisfiedBy image)
    (equates : Equates image equations) : ∃ unified, unifyAll equations subst = some unified := by
  induction equations generalizing subst with
  | nil => exact ⟨subst, rfl⟩
  | cons equation rest ih =>
      rcases equates_cons.mp equates with ⟨equal, equatesRest⟩
      rcases acyclic.exists_unify satisfied equal with ⟨between, unifies, satisfiedToo⟩
      rcases ih (acyclic.of_unify unifies) satisfiedToo equatesRest with ⟨unified, solved⟩
      exact ⟨unified, by rw [unifyAll, unifies, Option.bind_some, solved]⟩

theorem Extends.unifyAll (grown : older.Extends subst)
    (solved : unifyAll equations subst = some unified) : older.Extends unified := by
  induction equations generalizing subst with
  | nil =>
      cases solved
      exact grown
  | cons equation rest ih =>
      rcases Option.bind_eq_some_iff.mp solved with ⟨between, unifies, solvedRest⟩
      exact ih (grown.unifyWith unifies) solvedRest

/-! ## Counting bindings -/

/-- Every binding that was added is for another variable. -/
theorem Extends.size_add_card (grown : older.Extends newer) :
    newer.size + older.bound.card = older.size + newer.bound.card := by
  rcases grown.added with ⟨added, chain, different, apart⟩
  have disjoint : Disjoint (added.map fun binding => binding.var.id).toFinset older.bound := by
    rw [Finset.disjoint_left]
    intro v member
    rcases List.mem_map.mp (List.mem_toFinset.mp member) with ⟨binding, inAdded, rfl⟩
    exact apart binding inAdded
  have together :
      newer.bound = (added.map fun binding => binding.var.id).toFinset ∪ older.bound := by
    rw [bound, chain, List.map_append, List.toFinset_append, bound]
  have sizes : newer.size = added.length + older.size := by
    rw [newer.size_eq, chain, List.length_append, older.size_eq]
  rw [together, Finset.card_union_of_disjoint disjoint,
    List.toFinset_card_of_nodup different, List.length_map, sizes]
  omega

/-- A renaming of resolved terms takes free variables to free variables. -/
theorem Acyclic.lookup_rename_eq_none (acyclic : two.Acyclic) {rename : Nat → Nat}
    (renamed : ∀ term, (one.resolve term).bare.map rename id = (two.resolve term).bare)
    {number : Nat} (free : one.lookup number = none) : two.lookup (rename number) = none := by
  have image := renamed (.var ⟨number, ""⟩)
  rw [resolve_of_free free, Term.bare_var, Term.map_var] at image
  have member : rename number ∈ (two.resolve (.var ⟨number, ""⟩)).bare.vars := by
    rw [← image, Term.mem_vars_var]
  exact acyclic.lookup_of_mem_vars_resolve member

/-- Where resolved terms are renamings of each other, equally many variables are bound. -/
theorem card_bound_eq (acyclic : one.Acyclic) (acyclicToo : two.Acyclic)
    (rename : Equiv.Perm Nat)
    (renamed : ∀ term, (one.resolve term).bare.map rename id = (two.resolve term).bare) :
    one.bound.card = two.bound.card := by
  have back : ∀ term, (two.resolve term).bare.map rename.symm id = (one.resolve term).bare := by
    intro term
    rw [← renamed term, Term.map_symm_map]
  apply Finset.card_equiv rename
  intro v
  rw [← not_iff_not, ← lookup_eq_none_iff, ← lookup_eq_none_iff]
  constructor
  · exact acyclicToo.lookup_rename_eq_none renamed
  · intro free
    simpa using acyclic.lookup_rename_eq_none back free

/-! ## Any order, either side -/

/-- Neither the order of equations nor that of their sides matters to a solution. -/
theorem equates_iff_of_rearranged
    (swaps : List.Forall₂ (fun equation other => other = equation ∨ other = equation.swap)
      equations turned) (order : turned.Perm others) :
    Equates image equations ↔ Equates image others := by
  have sameTurned : Equates image equations ↔ Equates image turned := by
    clear order
    induction swaps with
    | nil => exact Iff.rfl
    | cons swap _ ih =>
        rw [equates_cons, equates_cons, ih]
        rcases swap with rfl | rfl
        · exact Iff.rfl
        · rw [Prod.fst_swap, Prod.snd_swap, eq_comm]
  rw [sameTurned]
  exact forall_congr' fun equation => by rw [order.mem_iff]

/-- Equations with the same solutions are solved or not together. -/
theorem Acyclic.unifyAll_of_equates (acyclic : subst.Acyclic)
    (same : ∀ image, Equates image equations ↔ Equates image others)
    (solved : unifyAll equations subst = some unified) :
    ∃ other, unifyAll others subst = some other := by
  have unifiedAcyclic := (acyclic.extends_self.unifyAll solved).acyclic
  rcases (acyclic.satisfiedBy_unifyAll_iff solved _).mp unifiedAcyclic.satisfiedBy_solution with
    ⟨satisfied, equates⟩
  exact acyclic.exists_unifyAll satisfied ((same _).mp equates)

/-- Equations may be solved in any order, and each of them with its sides swapped. Under an
acyclic substitution either both arrangements fail or none does. Their results have equally
many bindings, and resolve every term to the same up to one permutation of the variables. -/
theorem equations_in_any_order (acyclic : subst.Acyclic)
    (swaps : List.Forall₂ (fun equation other => other = equation ∨ other = equation.swap)
      equations turned) (order : turned.Perm others) :
    (unifyAll equations subst = none ↔ unifyAll others subst = none) ∧
    ∀ first second, unifyAll equations subst = some first → unifyAll others subst = some second →
      first.size = second.size ∧
      ∃ rename : Equiv.Perm Nat, ∀ term,
        (second.resolve term).bare = (first.resolve term).bare.map rename id := by
  have same : ∀ image, Equates image equations ↔ Equates image others :=
    fun _ => equates_iff_of_rearranged swaps order
  constructor
  · rw [← not_iff_not, ← Ne, ← Ne, Option.ne_none_iff_exists', Option.ne_none_iff_exists']
    constructor
    · rintro ⟨_, solved⟩
      exact acyclic.unifyAll_of_equates same solved
    · rintro ⟨_, solved⟩
      exact acyclic.unifyAll_of_equates (fun image => (same image).symm) solved
  · intro first second solved solvedToo
    have grown := acyclic.extends_self.unifyAll solved
    have grownToo := acyclic.extends_self.unifyAll solvedToo
    have solutions : ∀ image, first.SatisfiedBy image ↔ second.SatisfiedBy image := by
      intro image
      rw [acyclic.satisfiedBy_unifyAll_iff solved, acyclic.satisfiedBy_unifyAll_iff solvedToo,
        same]
    rcases exists_perm_of_same_solutions grown.acyclic grownToo.acyclic solutions with
      ⟨rename, renamed⟩
    have sameBound := card_bound_eq grown.acyclic grownToo.acyclic rename renamed
    have size := grown.size_add_card
    have sizeToo := grownToo.size_add_card
    exact ⟨by omega, rename, fun term => (renamed term).symm⟩

/-- With `x` bound to `y`, the equations between `x` and `z` and between `(z . w)` and
`(w . u)` leave `u`. In the other order, with all sides swapped, they leave `y`. -/
theorem equations_in_any_order_swapped :
    let x : Var := ⟨0, "x"⟩
    let y : Var := ⟨1, "y"⟩
    let z : Var := ⟨2, "z"⟩
    let w : Var := ⟨3, "w"⟩
    let u : Var := ⟨4, "u"⟩
    let chain := empty.bind x (.var y)
    let zw := Term.pair (.var z) (.var w)
    let wu := Term.pair (.var w) (.var u)
    let first := ((chain.bind y (.var z)).bind z (.var w)).bind w (.var u)
    let second := ((chain.bind w (.var z)).bind u (.var z)).bind z (.var y)
    chain.Acyclic ∧ unifyAll [(.var x, .var z), (zw, wu)] chain = some first ∧
      unifyAll [(wu, zw), (.var z, .var x)] chain = some second ∧
      first.resolve (.var x) = .var u ∧ second.resolve (.var x) = .var y ∧
      first.size = second.size ∧
      ∃ rename : Equiv.Perm Nat, ∀ term,
        (second.resolve term).bare = (first.resolve term).bare.map rename id := by
  intro x y z w u chain zw wu first second
  have acyclic : chain.Acyclic := acyclic_empty.bind rfl (by decide)
  have solved : unifyAll [(.var x, .var z), (zw, wu)] chain = some first := by decide
  have solvedToo : unifyAll [(wu, zw), (.var z, .var x)] chain = some second := by decide
  have swapped := (equations_in_any_order acyclic
    (.cons (.inr rfl) (.cons (.inr rfl) .nil)) (.swap _ _ [])).2 first second solved solvedToo
  exact ⟨acyclic, solved, solvedToo, by decide, by decide, swapped⟩

end Horn.Subst
