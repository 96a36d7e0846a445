import Mathlib.Algebra.Group.End
import Mathlib.Data.Fintype.Sum
import Horn.Proofs.Relabeling
import Horn.Proofs.Resolving
import Horn.Proofs.StandardizedApart

/-!
# Variants

Terms that are instances of each other are the same up to the names of their variables: a
map that is undone by another one takes variables to variables. `exists_perm_of_instances`
says so of any number of terms at once and makes the renaming a permutation of all
variables, which leaves alone those that occur nowhere.

Two substitutions with the same solutions resolve every term to instances of each other. So
they resolve all terms to the same up to one renaming.
-/

namespace Horn

namespace Term

variable {V : Type}

/-- Where an instance is the term itself, every variable stands for itself. -/
theorem image_eq_var {image : V → Term V} {term : Term V} (same : term.instantiate image = term) :
    ∀ v ∈ term.vars, image v = .var v := by
  induction term with
  | var w =>
      intro v member
      cases mem_vars_var.mp member
      exact same
  | atom a =>
      intro v member
      exact absurd member not_mem_vars_atom
  | pair head tail headIH tailIH =>
      simp only [instantiate_pair, pair.injEq] at same
      intro v member
      exact (mem_vars_pair.mp member).elim (headIH same.1 v) (tailIH same.2 v)

/-- To rename variables is to put in variables for them. -/
theorem map_eq_instantiate (rename : V → V) (term : Term V) :
    term.map rename id = term.instantiate fun v => .var (rename v) := by
  conv_lhs => rw [← term.instantiate_self]
  exact map_instantiate_var rename id term

theorem map_instantiate (image : V → Term V) (rename : V → V) (term : Term V) :
    (term.instantiate image).map rename id =
      term.instantiate fun v => (image v).map rename id := by
  simp only [map_eq_instantiate, instantiate_instantiate]

theorem map_symm_map (rename : Equiv.Perm V) (term : Term V) :
    (term.map rename id).map rename.symm id = term := by
  simp only [map_eq_instantiate, instantiate_instantiate, instantiate_var,
    Equiv.symm_apply_apply, instantiate_self]

/-- A variable that one map replaces and another one brings back is replaced by a variable. -/
theorem exists_var_of_instances {first second : Term V} {there back : V → Term V}
    (forth : first.instantiate there = second) (again : second.instantiate back = first)
    {v : V} (member : v ∈ first.vars) :
    ∃ w ∈ second.vars, there v = .var w ∧ back w = .var v := by
  have undone : first.instantiate (fun v => (there v).instantiate back) = first := by
    rw [← instantiate_instantiate, forth, again]
  have self := image_eq_var undone v member
  cases image : there v with
  | var w =>
      rw [image, instantiate_var] at self
      have inSecond : w ∈ second.vars := by
        rw [← forth, mem_vars_instantiate]
        exact ⟨v, member, by rw [image, mem_vars_var]⟩
      exact ⟨w, inSecond, rfl, self⟩
  | atom a => simp [image] at self
  | pair head tail => simp [image] at self

end Term

/-- Families of terms that are instances of each other are renamed into each other by one
permutation of the variables, which moves only variables of the terms. -/
theorem exists_perm_of_instances {first second there back : Nat → Term Nat} {scope : List Nat}
    (forth : ∀ v ∈ scope, (first v).instantiate there = second v)
    (again : ∀ v ∈ scope, (second v).instantiate back = first v) :
    ∃ rename : Equiv.Perm Nat, (∀ v ∈ scope, (first v).map rename id = second v) ∧
      ∀ v, (∀ w ∈ scope, v ∉ (first w).vars ∧ v ∉ (second w).vars) → rename v = v := by
  classical
  let occurring := (scope.flatMap fun w => (first w).vars ++ (second w).vars).toFinset
  have mem_occurring : ∀ v, v ∈ occurring ↔
      ∃ w ∈ scope, v ∈ (first w).vars ∨ v ∈ (second w).vars := by
    simp [occurring]
  -- on the variables of the first terms the map that leads to the second ones is injective
  let target (v : Nat) : Nat := (there v).var?.getD v
  let sources : Set occurring := fun v => ∃ w ∈ scope, v.val ∈ (first w).vars
  have taken : ∀ v, (∃ w ∈ scope, v ∈ (first w).vars) →
      target v ∈ occurring ∧ there v = .var (target v) ∧ back (target v) = .var v := by
    rintro v ⟨w, inScope, member⟩
    rcases Term.exists_var_of_instances (forth w inScope) (again w inScope) member with
      ⟨u, inImage, image, undone⟩
    have same : target v = u := by simp [target, image, Term.var?]
    rw [same]
    exact ⟨(mem_occurring u).mpr ⟨w, inScope, .inr inImage⟩, image, undone⟩
  have inside : sources.MapsTo (fun v => target v.val) occurring :=
    fun v source => (taken v.val source).1
  have injective : sources.InjOn fun v => target v.val := by
    intro v source w sourceToo same
    have undone := (taken v.val source).2.2
    rw [show target v.val = target w.val from same, (taken w.val sourceToo).2.2] at undone
    exact Subtype.ext (Term.var.inj undone).symm
  rcases inside.exists_equiv_extend_of_card_eq (Fintype.card_coe occurring) injective with
    ⟨permuted, extends_target⟩
  refine ⟨Equiv.Perm.ofSubtype permuted, ?_, ?_⟩
  · intro w inScope
    rw [← forth w inScope, Term.map_eq_instantiate]
    apply Term.instantiate_congr
    intro v member
    have source : ∃ w ∈ scope, v ∈ (first w).vars := ⟨w, inScope, member⟩
    have inOccurring := (mem_occurring v).mpr ⟨w, inScope, .inl member⟩
    rw [Equiv.Perm.ofSubtype_apply_of_mem permuted inOccurring,
      extends_target ⟨v, inOccurring⟩ source, (taken v source).2.1]
  · intro v nowhere
    apply Equiv.Perm.ofSubtype_apply_of_not_mem
    intro member
    rcases (mem_occurring v).mp member with ⟨w, inScope, occurs⟩
    exact occurs.elim (nowhere w inScope).1 (nowhere w inScope).2

namespace Subst

variable {test : Nat → Prop} {subst one two : Subst} {term : Term}

theorem Only.resolve (only : subst.Only test) (acyclic : subst.Acyclic)
    (inTerm : term.Only test) : (subst.resolve term).Only test := by
  induction term using acyclic.term_induction with
  | free v free => rwa [resolve_of_free free]
  | bound v value found ih =>
      rw [acyclic.resolve_of_lookup found]
      exact ih (only.lookup found).2
  | atom a => rwa [resolve_atom]
  | pair head tail headIH tailIH =>
      rw [resolve_pair]
      intro id member
      exact (Term.mem_vars_pair.mp member).elim (headIH inTerm.head id) (tailIH inTerm.tail id)

/-- What a variable resolves to has no variables but those of the substitution, if the variable
is one of them. -/
theorem Only.solution (only : subst.Only test) (acyclic : subst.Acyclic)
    {id : Nat} (passes : test id) :
    ∀ other ∈ (subst.solution id).vars, test other := by
  have inVar : (Term.var ⟨id, ""⟩).Only test := by simpa [Term.Only] using passes
  have resolved := only.resolve acyclic inVar
  rwa [Term.Only, acyclic.bare_resolve_var] at resolved

/-- A map that satisfies the substitution makes of what a variable resolves to what it makes
of the variable. -/
theorem SatisfiedBy.instantiate_solution {image : Nat → Term Nat}
    (satisfied : one.SatisfiedBy image) (acyclic : one.Acyclic) (id : Nat) :
    (one.solution id).instantiate image = image id := by
  have resolved := satisfied.instantiate_resolve acyclic (.var ⟨id, ""⟩)
  rwa [acyclic.bare_resolve_var] at resolved

/-- Substitutions with the same solutions resolve all terms to the same, up to one renaming
of variables. -/
theorem exists_perm_of_same_solutions (acyclic : one.Acyclic) (acyclicToo : two.Acyclic)
    (same : ∀ image, one.SatisfiedBy image ↔ two.SatisfiedBy image) :
    ∃ rename : Equiv.Perm Nat, ∀ term,
      (one.resolve term).bare.map rename id = (two.resolve term).bare := by
  let scope := one.ids ++ two.ids
  have inOne : one.Only (· ∈ scope) :=
    only_iff.mpr fun id member => List.mem_append_left _ member
  have inTwo : two.Only (· ∈ scope) :=
    only_iff.mpr fun id member => List.mem_append_right _ member
  have forth := ((same _).mpr acyclicToo.satisfiedBy_solution).instantiate_solution acyclic
  have again := ((same _).mp acyclic.satisfiedBy_solution).instantiate_solution acyclicToo
  have variants := @exists_perm_of_instances _ _ _ _ scope (fun id _ => forth id)
    (fun id _ => again id)
  rcases variants with ⟨rename, renamed, kept⟩
  refine ⟨rename, ?_⟩
  intro term
  rw [acyclic.bare_resolve, acyclicToo.bare_resolve, Term.map_instantiate]
  apply Term.instantiate_congr
  intro id _
  by_cases member : id ∈ scope
  · exact renamed id member
  · -- elsewhere neither substitution does anything
    have free : ∀ {subst : Subst}, subst.Only (· ∈ scope) → subst.lookup id = none := by
      intro subst only
      cases found : subst.lookup id with
      | none => rfl
      | some value => exact absurd (only.lookup found).1 member
    rw [solution_of_free (free inOne), solution_of_free (free inTwo), Term.map_var]
    apply congrArg Term.var
    apply kept
    intro other inScope
    exact ⟨fun occurs => member (inOne.solution acyclic inScope id occurs),
      fun occurs => member (inTwo.solution acyclicToo inScope id occurs)⟩

end Subst

end Horn
