import Horn.Proofs.Resolving
import Horn.Proofs.Termination

/-!
# Binding a bound variable

The occurs check looks for a variable in its new value along the bindings that there are. That is
enough for a free variable: the binding is refused exactly if it would close a cycle. A bound
variable is never found, since the check follows the binding that the new one is going to hide. So
the new binding is made in any case, and it closes a cycle exactly if the value leads to the
variable.

`acyclic_bind_iff` says when a binding closes a cycle, and `extend_acyclic_iff` when `extend`
lets it.
-/

namespace Horn.Subst

variable {subst : Subst} {v w : Var} {id : Nat} {value term : Term}

/-! ## Closing a cycle -/

theorem Reaches.of_mem (member : id ∈ term.bare.vars) : subst.Reaches term id :=
  ⟨id, member, .refl⟩

/-- A bound variable leads to what its value leads to. -/
theorem Reaches.of_lookup (found : subst.lookup w.id = some value)
    (reaches : subst.Reaches value id) : subst.Reaches (.var w) id := by
  rcases reaches with ⟨u, inside, path⟩
  exact ⟨w.id, by simp, .head ⟨value, found, inside⟩ path⟩

/-- A new binding changes only the value of its own variable. -/
theorem Leads.bind {other : Nat} (leads : subst.Leads id other) (different : v.id ≠ id) :
    (subst.bind v value).Leads id other := by
  rcases leads with ⟨found, lookup, member⟩
  exact ⟨found, by rw [lookup_bind, if_neg different, lookup], member⟩

/-- What leads to a variable still does so after a binding of it. -/
theorem path_bind (path : Relation.ReflTransGen subst.Leads id v.id) :
    Relation.ReflTransGen (subst.bind v value).Leads id v.id := by
  induction path using Relation.ReflTransGen.head_induction_on with
  | refl => exact .refl
  | @head id other leads _ ih =>
      -- A path that comes through the variable ends there already.
      by_cases same : v.id = id
      · subst same
        exact .refl
      · exact .head (leads.bind same) ih

/-- A binding closes a cycle exactly if its value leads to the variable. -/
theorem Acyclic.acyclic_bind_iff (acyclic : subst.Acyclic) :
    (subst.bind v value).Acyclic ↔ ¬subst.Reaches value v.id := by
  constructor
  · rintro bound ⟨w, member, path⟩
    have leads : (subst.bind v value).Leads v.id w :=
      ⟨value, by rw [lookup_bind, if_pos rfl], member⟩
    exact bound v.id (.head' leads (path_bind path))
  · exact acyclic.bind_of_not_reaches

/-! ## What the occurs check finds -/

/-- What is left in a resolved term was led to. -/
theorem Acyclic.reaches_of_mem_vars_resolve (acyclic : subst.Acyclic)
    (member : id ∈ (subst.resolve term).bare.vars) : subst.Reaches term id := by
  induction term using acyclic.term_induction with
  | free w free =>
      rw [resolve_of_free free] at member
      exact .of_mem member
  | bound w value found ih =>
      rw [acyclic.resolve_of_lookup found] at member
      exact .of_lookup found (ih member)
  | atom a => simp at member
  | pair head tail headIH tailIH =>
      rw [resolve_pair, Term.bare_pair, Term.mem_vars_pair] at member
      exact reaches_pair.mpr (member.imp headIH tailIH)

/-- A binding is refused exactly if the variable is free and the value leads to it. -/
theorem Acyclic.extend_eq_none_iff_reaches (acyclic : subst.Acyclic) :
    subst.extend v value = none ↔ subst.lookup v.id = none ∧ subst.Reaches value v.id := by
  rw [extend_eq_none_iff]
  constructor
  · intro member
    exact ⟨acyclic.lookup_of_mem_vars_resolve member, acyclic.reaches_of_mem_vars_resolve member⟩
  · rintro ⟨free, w, member, path⟩
    exact acyclic.mem_vars_resolve_of_reaches free path member

/-- Under an acyclic substitution `extend` refuses exactly the bindings of a free variable to a
term that leads to it, such as a term in which it occurs. So bindings of free variables close no
cycle. A binding of a bound variable is made in any case, and closes a cycle exactly if the value
leads to the variable. Where there is no cycle every term can be walked and resolved. -/
theorem extend_acyclic_iff (acyclic : subst.Acyclic) (v : Var) (value : Term) :
    (subst.extend v value = none ↔ subst.lookup v.id = none ∧ subst.Reaches value v.id) ∧
    (subst.lookup v.id = none → v.id ∈ value.bare.vars → subst.extend v value = none) ∧
    ∀ extended, subst.extend v value = some extended →
      (subst.lookup v.id = none → extended.Acyclic) ∧
      (extended.Acyclic ↔ ¬subst.Reaches value v.id) ∧
      (extended.Acyclic → ∀ term, (∃ count result, WalkRun extended count term result) ∧
        ∃ result, ResolveRun extended term result) := by
  have refused : subst.extend v value = none ↔
      subst.lookup v.id = none ∧ subst.Reaches value v.id :=
    acyclic.extend_eq_none_iff_reaches
  refine ⟨refused, ?_, ?_⟩
  · intro free member
    exact refused.mpr ⟨free, .of_mem member⟩
  · intro extended made
    refine ⟨fun free => acyclic.extend free made, ?_, ?_⟩
    · rw [(extend_eq_some_iff.mp made).2]
      exact acyclic.acyclic_bind_iff
    · intro extendedAcyclic term
      rcases extendedAcyclic.exists_walkRun term with ⟨count, run⟩
      exact ⟨⟨count, _, run⟩, _, extendedAcyclic.resolveRun term⟩

/-- With `x` bound to `a` and `y` to `x`, a binding of `z` to `y` closes no cycle. Nor does one of
`x` to `b`, but one of `x` to `y` does. While `x` is free, the last one is refused. -/
theorem extend_acyclic_iff_chain :
    let x : Var := ⟨0, "x"⟩
    let y : Var := ⟨1, "y"⟩
    let z : Var := ⟨2, "z"⟩
    let a : Term := .symbol "a"
    let b : Term := .symbol "b"
    let free := empty.bind y (.var x)
    let chain := free.bind x a
    free.Acyclic ∧ free.extend x (.var y) = none ∧ chain.Acyclic ∧
      (chain.extend z (.var y) = some (chain.bind z (.var y)) ∧
        (chain.bind z (.var y)).Acyclic) ∧
      (chain.extend x b = some (chain.bind x b) ∧ (chain.bind x b).Acyclic) ∧
      chain.extend x (.var y) = some (chain.bind x (.var y)) ∧
        ¬(chain.bind x (.var y)).Acyclic := by
  intro x y z a b free chain
  have freeAcyclic : free.Acyclic := acyclic_empty.bind rfl (by decide)
  have leads : chain.Leads y.id x.id := ⟨.var x, rfl, by simp⟩
  have made : free.extend x a = some chain := by decide
  have acyclic : chain.Acyclic :=
    ((extend_acyclic_iff freeAcyclic x a).2.2 chain made).1 rfl
  have toY : chain.Reaches (.var y) x.id := ⟨y.id, by simp, .single leads⟩
  refine ⟨freeAcyclic, ?_, acyclic, ⟨by decide, ?_⟩, ⟨by decide, ?_⟩, by decide, ?_⟩
  · exact (extend_acyclic_iff freeAcyclic x (.var y)).1.mpr
      ⟨rfl, y.id, by simp, .single ⟨.var x, rfl, by simp⟩⟩
  · exact ((extend_acyclic_iff acyclic z (.var y)).2.2 _ (by decide)).1 rfl
  · exact ((extend_acyclic_iff acyclic x b).2.2 _ (by decide)).2.1.mpr not_reaches_atom
  · intro closed
    exact ((extend_acyclic_iff acyclic x (.var y)).2.2 _ (by decide)).2.1.mp closed toY

theorem not_walkRun_of_self {count : Nat} {result : Term}
    (self : subst.lookup v.id = some (.var v)) : ¬WalkRun subst count (.var v) result := by
  intro run
  induction count with
  | zero =>
      cases run with
      | stop stopped => cases self.symm.trans (stopped v rfl)
  | succ count ih =>
      cases run with
      | follow found rest =>
          cases self.symm.trans found
          exact ih rest

/-- With `x` bound to `a`, a binding of `x` to itself is made, although no walk and no resolving
of `x` ends under it. -/
theorem rebinding_closes_cycle :
    let x : Var := ⟨0, "x"⟩
    let bound := empty.bind x (.symbol "a")
    let closed := bound.bind x (.var x)
    bound.Acyclic ∧ bound.extend x (.var x) = some closed ∧ ¬closed.Acyclic ∧
      (∀ count result, ¬WalkRun closed count (.var x) result) ∧
      ∀ result, ¬ResolveRun closed (.var x) result := by
  intro x bound closed
  have acyclic : bound.Acyclic := acyclic_empty.bind rfl (by decide)
  have self : closed.lookup x.id = some (.var x) := rfl
  have noWalk : ∀ count result, ¬WalkRun closed count (.var x) result :=
    fun _ _ => not_walkRun_of_self self
  refine ⟨acyclic, by decide, ?_, noWalk, ?_⟩
  · intro closedAcyclic
    exact acyclic.acyclic_bind_iff.mp closedAcyclic (.of_mem (by simp))
  · intro result run
    cases run with
    | var walk | atom walk | pair walk => exact noWalk _ _ walk

end Horn.Subst
