import Horn.Proofs.Acyclic

/-!
# Maps that satisfy a substitution

A substitution is a system of equations, a variable on the left and its value on
the right. A map from variables to terms satisfies it if it solves them all, so
that the maps which satisfy a substitution are what the substitution means. Names
are left out on both sides: a map goes from identities to bare terms.

Such a map sees no difference between a term, what it walks to and what it
resolves to. Resolving is itself such a map, if the substitution is acyclic
(`Subst.solution`).
-/

namespace Horn

namespace Term

variable {image : Nat → Term Nat} {id : Nat}

/-- The image of a variable is part of every instance of a term with that variable. -/
theorem size_image_le (image : Nat → Term Nat) {term : Term Nat} (member : id ∈ term.vars) :
    (image id).size ≤ (term.instantiate image).size := by
  induction term with
  | var other =>
      cases mem_vars_var.mp member
      exact Nat.le_refl _
  | atom a => exact absurd member not_mem_vars_atom
  | pair head tail headIH tailIH =>
      simp only [instantiate_pair, size]
      rcases mem_vars_pair.mp member with inHead | inTail
      · have inside := headIH inHead
        omega
      · have inside := tailIH inTail
        omega

/-- No map makes a variable equal to a larger term that it is part of. -/
theorem image_ne_instantiate {term : Term Nat} (member : id ∈ term.vars)
    (larger : term ≠ .var id) : image id ≠ term.instantiate image := by
  intro equal
  have sizes := congrArg Term.size equal
  cases term with
  | var other => exact larger (congrArg Term.var (mem_vars_var.mp member).symm)
  | atom a => exact not_mem_vars_atom member
  | pair head tail =>
      simp only [instantiate_pair, size] at sizes
      rcases mem_vars_pair.mp member with inHead | inTail
      · have inside := size_image_le image inHead
        omega
      · have inside := size_image_le image inTail
        omega

end Term

namespace Subst

variable {subst : Subst} {image : Nat → Term Nat} {v : Var} {id : Nat} {value term : Term}

/-- The map gives every bound variable the same term as its value. -/
def SatisfiedBy (subst : Subst) (image : Nat → Term Nat) : Prop :=
  ∀ id value, subst.lookup id = some value → image id = value.bare.instantiate image

@[simp] theorem satisfiedBy_empty : empty.SatisfiedBy image := by
  intro id value found
  simp at found

/-- Walking does not change the instance. -/
theorem SatisfiedBy.instantiate_walk (satisfied : subst.SatisfiedBy image)
    (acyclic : subst.Acyclic) (term : Term) :
    (subst.walk term).bare.instantiate image = term.bare.instantiate image := by
  induction term using acyclic.term_induction with
  | free v free => rw [walk_of_free free]
  | bound v value found ih =>
      rw [acyclic.walk_of_lookup found, ih]
      exact (satisfied v.id value found).symm
  | atom a => rfl
  | pair head tail _ _ => rfl

/-- Resolving does not change the instance. -/
theorem SatisfiedBy.instantiate_resolve (satisfied : subst.SatisfiedBy image)
    (acyclic : subst.Acyclic) (term : Term) :
    (subst.resolve term).bare.instantiate image = term.bare.instantiate image := by
  induction term using acyclic.term_induction with
  | free v free => rw [resolve_of_free free]
  | bound v value found ih =>
      rw [acyclic.resolve_of_lookup found, ih]
      exact (satisfied v.id value found).symm
  | atom a => simp
  | pair head tail headIH tailIH => simp [headIH, tailIH]

/-- What variables resolve to. -/
def solution (subst : Subst) (id : Nat) : Term Nat :=
  match subst.lookup id with
  | some value => (subst.resolve value).bare
  | none => .var id

theorem solution_of_lookup (found : subst.lookup id = some value) :
    subst.solution id = (subst.resolve value).bare := by
  rw [solution, found]

theorem solution_of_free (free : subst.lookup id = none) : subst.solution id = .var id := by
  rw [solution, free]

theorem Acyclic.bare_resolve_var (acyclic : subst.Acyclic) (v : Var) :
    (subst.resolve (.var v)).bare = subst.solution v.id := by
  cases found : subst.lookup v.id with
  | none => rw [resolve_of_free found, solution_of_free found, Term.bare_var]
  | some value => rw [acyclic.resolve_of_lookup found, solution_of_lookup found]

/-- Resolving a term is putting in what its variables resolve to. -/
theorem Acyclic.bare_resolve (acyclic : subst.Acyclic) (term : Term) :
    (subst.resolve term).bare = term.bare.instantiate subst.solution := by
  rw [resolve_eq_instantiate, Term.bare_instantiate, Term.instantiate_bare]
  simp only [acyclic.bare_resolve_var]

/-- What variables resolve to satisfies the substitution. -/
theorem Acyclic.satisfiedBy_solution (acyclic : subst.Acyclic) :
    subst.SatisfiedBy subst.solution := by
  intro id value found
  rw [solution_of_lookup found, acyclic.bare_resolve]

/-- Terms that are the same resolve to the same. -/
theorem Acyclic.bare_resolve_congr {left right : Term} (acyclic : subst.Acyclic)
    (same : left.bare = right.bare) : (subst.resolve left).bare = (subst.resolve right).bare := by
  rw [acyclic.bare_resolve, acyclic.bare_resolve, same]

/-- A binding of a free variable adds one equation. -/
theorem satisfiedBy_bind (free : subst.lookup v.id = none) :
    (subst.bind v value).SatisfiedBy image ↔
      subst.SatisfiedBy image ∧ image v.id = value.bare.instantiate image := by
  constructor
  · intro satisfied
    constructor
    · intro other older found
      apply satisfied other older
      have different : v.id ≠ other := by
        rintro rfl
        simp [free] at found
      rw [lookup_bind, if_neg different, found]
    · apply satisfied v.id value
      rw [lookup_bind, if_pos rfl]
  · rintro ⟨satisfied, equation⟩ other older found
    rw [lookup_bind] at found
    split at found
    next same =>
      cases same
      cases found
      exact equation
    next => exact satisfied other older found

/-- The occurs check refuses only bindings that no map satisfies. -/
theorem SatisfiedBy.image_ne_of_occurs (satisfied : subst.SatisfiedBy image)
    (acyclic : subst.Acyclic) (occurs : subst.occurs v (subst.walk term) = true)
    (different : (subst.walk term).bare ≠ .var v.id) :
    image v.id ≠ term.bare.instantiate image := by
  rw [← satisfied.instantiate_resolve acyclic term]
  rw [occurs_eq_true_iff, acyclic.resolve_walk] at occurs
  apply Term.image_ne_instantiate occurs
  intro resolved
  rw [← acyclic.resolve_walk] at resolved
  cases walked : subst.walk term with
  | var w =>
      rw [walked, resolve_of_free (acyclic.lookup_of_walk_eq_var walked)] at resolved
      rw [walked] at different
      exact different resolved
  | atom a => simp [walked] at resolved
  | pair head tail => simp [walked] at resolved

end Subst

end Horn
