import Horn.Proofs.UnifyDepth

/-!
# Most general unifiers

The main result is `Subst.unify_solution_set`: a map satisfies what unification
returns exactly if it satisfies the substitution before and makes the two terms
equal, and where unification returns nothing there is no such map. One law says both
that the result is a unifier and that no unifier is lost.
-/

namespace Horn.Subst

variable {subst unified : Subst} {left right : Term}

theorem Acyclic.solves_unifyWith (acyclic : subst.Acyclic) (sharing : Sharing)
    (left right : Term) : Solves subst left right (unifyWith sharing left right subst) :=
  (acyclic.unifying_unifyWith sharing left right).solves acyclic

theorem Acyclic.of_unifyWith (acyclic : subst.Acyclic) {sharing : Sharing}
    (unifies : unifyWith sharing left right subst = some unified) : unified.Acyclic := by
  have run := acyclic.unifying_unifyWith sharing left right
  rw [unifies] at run
  exact run.acyclic acyclic

theorem Acyclic.of_unify (acyclic : subst.Acyclic)
    (unifies : unify left right subst = some unified) :
    unified.Acyclic :=
  acyclic.of_unifyWith unifies

/-- The maps that satisfy the result are the solutions of the equation. -/
theorem Acyclic.satisfiedBy_unify_iff (acyclic : subst.Acyclic)
    (unifies : unify left right subst = some unified) (image : Nat → Term Nat) :
    unified.SatisfiedBy image ↔
      subst.SatisfiedBy image ∧ left.bare.instantiate image = right.bare.instantiate image := by
  have solves := acyclic.solves_unifyWith .vars left right
  rw [← unify, unifies] at solves
  exact solves image

/-- Where there is a solution, unification returns a substitution. -/
theorem Acyclic.exists_unify (acyclic : subst.Acyclic) {image : Nat → Term Nat}
    (satisfied : subst.SatisfiedBy image)
    (equal : left.bare.instantiate image = right.bare.instantiate image) :
    ∃ unified, unify left right subst = some unified ∧ unified.SatisfiedBy image := by
  have solves := acyclic.solves_unifyWith .vars left right
  rw [← unify] at solves
  cases ends : unify left right subst with
  | none =>
      rw [ends] at solves
      exact absurd equal (solves image satisfied)
  | some unified =>
      rw [ends] at solves
      exact ⟨unified, rfl, (solves image).mpr ⟨satisfied, equal⟩⟩

/-- Terms that every solution makes equal resolve to the same term. -/
theorem Acyclic.resolve_eq_of_solves (acyclic : unified.Acyclic)
    (solves : Solves subst left right (some unified)) :
    (unified.resolve left).bare = (unified.resolve right).bare := by
  rw [acyclic.bare_resolve, acyclic.bare_resolve]
  exact ((solves _).mp acyclic.satisfiedBy_solution).2

/-- The two terms resolve to the same under the result. -/
theorem Acyclic.resolve_eq_of_unifyWith (acyclic : subst.Acyclic) {sharing : Sharing}
    (unifies : unifyWith sharing left right subst = some unified) :
    (unified.resolve left).bare = (unified.resolve right).bare := by
  have solves := acyclic.solves_unifyWith sharing left right
  rw [unifies] at solves
  exact (acyclic.of_unifyWith unifies).resolve_eq_of_solves solves

/-- Unification under an acyclic substitution computes the solution set of the
equation between the two terms, whatever terms are known to be shared; `unify` knows
only that a variable equals itself. -/
theorem unify_solution_set (sharing : Sharing) (acyclic : subst.Acyclic) (left right : Term) :
    (∀ unified, unifyWith sharing left right subst = some unified →
      (∀ image, unified.SatisfiedBy image ↔
        subst.SatisfiedBy image ∧ left.bare.instantiate image = right.bare.instantiate image) ∧
      (unified.resolve left).bare = (unified.resolve right).bare) ∧
    (unifyWith sharing left right subst = none →
      ∀ image, ¬(subst.SatisfiedBy image ∧
        left.bare.instantiate image = right.bare.instantiate image)) := by
  have solves := acyclic.solves_unifyWith sharing left right
  constructor
  · intro unified unifies
    rw [unifies] at solves
    exact ⟨solves, (acyclic.of_unifyWith unifies).resolve_eq_of_solves solves⟩
  · intro fails
    rw [fails] at solves
    rintro image ⟨satisfied, equal⟩
    exact solves image satisfied equal

/-- With `x` bound to `y`, unifying `(x . (a . y))` with `(z . (y . x))` binds `z`
and `y`, and unifying `y` with `(a . x)` fails: `x` leads back to `y`. -/
theorem unify_solution_set_chain :
    let x : Var := ⟨0, "x"⟩
    let y : Var := ⟨1, "y"⟩
    let z : Var := ⟨2, "z"⟩
    let a : Term := .symbol "a"
    let chain := empty.bind x (.var y)
    let unified := (chain.bind y (.var z)).bind z a
    let left := Term.pair (.var x) (.pair a (.var y))
    let right := Term.pair (.var z) (.pair (.var y) (.var x))
    chain.Acyclic ∧ unify left right chain = some unified ∧
      (∀ image, unified.SatisfiedBy image ↔
        chain.SatisfiedBy image ∧ left.bare.instantiate image = right.bare.instantiate image) ∧
      (unified.resolve left).bare = (unified.resolve right).bare ∧
      unify (.var y) (.pair a (.var x)) chain = none ∧
      ∀ image, ¬(chain.SatisfiedBy image ∧
        (Term.var y).bare.instantiate image = (Term.pair a (.var x)).bare.instantiate image) := by
  intro x y z a chain unified left right
  have acyclic : chain.Acyclic := acyclic_empty.bind rfl (by decide)
  have unifies : unifyWith .vars left right chain = some unified := by decide
  have fails : unifyWith .vars (.var y) (.pair a (.var x)) chain = none := by decide
  have solved := (unify_solution_set .vars acyclic left right).1 unified unifies
  exact ⟨acyclic, unifies, solved.1, solved.2, fails,
    (unify_solution_set .vars acyclic _ _).2 fails⟩

end Horn.Subst
