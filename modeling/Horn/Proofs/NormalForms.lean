import Horn.Proofs.Resolving

/-!
# Normal forms

Under an acyclic substitution every term has a normal form, what it resolves to: a term without
bound variables that stands for the same. `walk` computes no more of it than the outermost symbol,
and `occurs` looks for a variable in it without building it. Each of the three follows bindings in
its own way, and `resolve_is_normal_form` says that they agree.

Only the newest binding of a variable counts here, as everywhere: a chain may be acyclic although
bindings that are hidden in it lead back to their variables.
-/

namespace Horn.Subst

variable {subst : Subst} {term : Term}

/-- A term is in normal form exactly if it has no bound variables. -/
theorem Acyclic.resolve_eq_self_iff (acyclic : subst.Acyclic) :
    subst.resolve term = term ↔ ∀ id ∈ term.bare.vars, subst.lookup id = none := by
  constructor
  · intro same id member
    rw [← same] at member
    exact acyclic.lookup_of_mem_vars_resolve member
  · exact resolve_eq_self

/-- It does not help to leave names out: a term that resolves to the same term is in normal
form. -/
theorem Acyclic.bare_resolve_eq_bare_iff (acyclic : subst.Acyclic) :
    (subst.resolve term).bare = term.bare ↔ subst.resolve term = term := by
  constructor
  · intro same
    rw [acyclic.resolve_eq_self_iff, ← same]
    exact fun _ => acyclic.lookup_of_mem_vars_resolve
  · exact congrArg Term.bare

theorem Acyclic.resolve_resolve (acyclic : subst.Acyclic) (term : Term) :
    subst.resolve (subst.resolve term) = subst.resolve term :=
  resolve_eq_self fun _ member => acyclic.lookup_of_mem_vars_resolve member

/-! ## The surface of a normal form -/

/-- A term and its normal form from outside: a free variable, an atom, or a pair, the parts of
which are still to be resolved. -/
inductive Surface (subst : Subst) : Term → Term → Prop where
  | var {v : Var} : subst.lookup v.id = none → Surface subst (.var v) (.var v)
  | atom {a : Atom} : Surface subst (.atom a) (.atom a)
  | pair {head tail : Term} :
      Surface subst (.pair head tail) (.pair (subst.resolve head) (subst.resolve tail))

/-- A walk leads to the surface of the normal form. -/
theorem Acyclic.surface_walk (acyclic : subst.Acyclic) (term : Term) :
    Surface subst (subst.walk term) (subst.resolve term) := by
  rw [← acyclic.resolve_walk]
  cases walked : subst.walk term with
  | var v =>
      have free := acyclic.lookup_of_walk_eq_var walked
      rw [resolve_of_free free]
      exact .var free
  | atom a =>
      rw [resolve_atom]
      exact .atom
  | pair head tail =>
      rw [resolve_pair]
      exact .pair

/-- Under an acyclic substitution a resolved term has no bound variables, to resolve it again
changes nothing, and it is the term itself exactly if that has no bound variables. Walking does
not change what a term resolves to, walking twice is walking once, and it leads to the same free
variable or atom, or to a pair if the term resolves to a pair. A variable, bound or not, occurs
in a term exactly if it is in the resolved term. -/
theorem resolve_is_normal_form (acyclic : subst.Acyclic) (term : Term) :
    (∀ id ∈ (subst.resolve term).bare.vars, subst.lookup id = none) ∧
    subst.resolve (subst.resolve term) = subst.resolve term ∧
    (subst.resolve term = term ↔ ∀ id ∈ term.bare.vars, subst.lookup id = none) ∧
    ((subst.resolve term).bare = term.bare ↔ subst.resolve term = term) ∧
    subst.resolve (subst.walk term) = subst.resolve term ∧
    subst.walk (subst.walk term) = subst.walk term ∧
    Surface subst (subst.walk term) (subst.resolve term) ∧
    ∀ v, subst.occurs v term = true ↔ v.id ∈ (subst.resolve term).bare.vars := by
  exact ⟨fun _ => acyclic.lookup_of_mem_vars_resolve, acyclic.resolve_resolve term,
    acyclic.resolve_eq_self_iff, acyclic.bare_resolve_eq_bare_iff, acyclic.resolve_walk term,
    acyclic.walk_walk term, acyclic.surface_walk term, fun _ => occurs_eq_true_iff⟩

/-- The newer binding of `x` hides the older one, so that `y` stands for `(b . z)`; a walk from
`y` ends at `(x . z)`. -/
theorem resolve_is_normal_form_shadowed :
    let x : Var := ⟨0, "x"⟩
    let y : Var := ⟨1, "y"⟩
    let z : Var := ⟨2, "z"⟩
    let b : Term := .symbol "b"
    let chain := ((empty.bind x (.var y)).bind x b).bind y (.pair (.var x) (.var z))
    let normal : Term := .pair b (.var z)
    chain.Acyclic ∧ chain.resolve (.var y) = normal ∧
      (∀ id ∈ normal.bare.vars, chain.lookup id = none) ∧
      chain.resolve normal = normal ∧ chain.resolve (.pair (.var x) (.var z)) = normal ∧
      chain.walk (chain.walk (.var y)) = .pair (.var x) (.var z) ∧
      Surface chain (.pair (.var x) (.var z)) normal ∧
      chain.occurs z (.var y) = true ∧ chain.occurs x (.var y) = false := by
  intro x y z b chain normal
  have hidden : (empty.bind x (.var y)).Acyclic := acyclic_empty.bind rfl (by decide)
  have acyclic : chain.Acyclic := (hidden.bind_of_not_reaches not_reaches_atom).bind rfl (by decide)
  have resolved : chain.resolve (.var y) = normal := by decide
  have walked : chain.walk (.var y) = .pair (.var x) (.var z) := by decide
  have facts := resolve_is_normal_form acyclic (.var y)
  rw [resolved, walked] at facts
  rcases facts with ⟨free, again, _, _, walk, twice, surface, occurs⟩
  refine ⟨acyclic, resolved, free, again, walk, ?_, surface, ?_, ?_⟩
  · rw [walked, twice]
  · exact (occurs z).mpr (by decide)
  · exact Bool.eq_false_iff.mpr fun found => absurd ((occurs x).mp found) (by decide)

end Horn.Subst
