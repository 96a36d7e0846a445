import Horn.Proofs.Chains
import Horn.Proofs.Resolving

/-!
# Histories of a substitution

A substitution grows by unification and by bindings of free variables. What it has once resolved
stays resolved in the same way: to resolve a term under any later substitution comes to the same
as to resolve what it was resolved to before (`Extends.resolve_resolve`). A single binding replaces
its variable in every resolved term (`resolving_composes`).

So terms that resolve to the same once do so for ever, and that is all it takes for unification to
bind nothing (`unify_binds_only_when_needed`).
-/

namespace Horn.Subst

variable {older newer subst : Subst} {id : Nat} {value left right : Term}

/-- The newer substitution comes from the older one by any number of unifications and of bindings
of free variables. -/
inductive History (older : Subst) : Subst → Prop where
  | refl : History older older
  | unify {newer unified : Subst} {sharing : Sharing} {left right : Term} :
      History older newer →
      unifyWith sharing left right newer = some unified →
      History older unified
  | extend {newer extended : Subst} {v : Var} {value : Term} :
      History older newer →
      newer.lookup v.id = none →
      newer.extend v value = some extended →
      History older extended

theorem History.extends (history : older.History newer) (acyclic : older.Acyclic) :
    older.Extends newer := by
  induction history with
  | refl => exact acyclic.extends_self
  | unify _ unifies ih => exact ih.unifyWith unifies
  | extend _ free made ih => exact ih.extend free made

/-! ## What stays resolved -/

/-- Bound variables keep their values. -/
theorem Extends.lookup (grown : older.Extends newer) (found : older.lookup id = some value) :
    newer.lookup id = some value := by
  rcases grown.added with ⟨added, chain, _, apart⟩
  have absent : added.find? (fun binding => binding.var.id = id) = none := by
    apply List.find?_eq_none.mpr
    intro binding member same
    have bound := mem_bound_of_lookup found
    rw [← of_decide_eq_true same] at bound
    exact apart binding member bound
  rw [Subst.lookup, chain, List.find?_append, absent, Option.none_or]
  exact found

theorem Extends.satisfiedBy {image : Nat → Term Nat} (grown : older.Extends newer)
    (satisfied : newer.SatisfiedBy image) : older.SatisfiedBy image :=
  fun id value found => satisfied id value (grown.lookup found)

/-- To resolve a term under the older substitution first changes nothing. -/
theorem Extends.resolve_resolve (grown : older.Extends newer) (acyclic : older.Acyclic)
    (term : Term) : newer.resolve (older.resolve term) = newer.resolve term := by
  induction term using acyclic.term_induction with
  | free v free => rw [resolve_of_free free]
  | bound v value found ih =>
      rw [acyclic.resolve_of_lookup found, ih]
      exact (grown.acyclic.resolve_of_lookup (grown.lookup found)).symm
  | atom a => simp
  | pair head tail headIH tailIH => simp [headIH, tailIH]

theorem Extends.resolve_eq (grown : older.Extends newer) (acyclic : older.Acyclic)
    (same : (older.resolve left).bare = (older.resolve right).bare) :
    (newer.resolve left).bare = (newer.resolve right).bare := by
  rw [← grown.resolve_resolve acyclic left, grown.acyclic.bare_resolve_congr same,
    grown.resolve_resolve acyclic right]

/-- Under an acyclic substitution, a binding of a free variable is refused exactly if the
variable is left in the resolved value; if it is made, every term resolves to what it did before
with the resolved value in the place of the variable. After any further unifications and bindings
of free variables, to resolve a resolved term is to resolve the term itself. -/
theorem resolving_composes (acyclic : subst.Acyclic) :
    (∀ v value, subst.lookup v.id = none →
      (subst.extend v value = none ↔ v.id ∈ (subst.resolve value).bare.vars) ∧
      ∀ extended, subst.extend v value = some extended →
        ∀ term, extended.resolve term =
          (subst.resolve term).instantiate (replacing v (subst.resolve value))) ∧
    ∀ later, subst.History later →
      ∀ term, later.resolve (subst.resolve term) = later.resolve term := by
  constructor
  · intro v value free
    exact ⟨extend_eq_none_iff, fun _ => acyclic.resolve_extend free⟩
  · intro later history term
    exact (history.extends acyclic).resolve_resolve acyclic term

/-- With `x` bound to `(y . a)`, a binding of `y` to `z` makes `x` resolve to `(z . a)`, and one of
`y` to `x` is refused. After `z` is unified with `a` as well, `(y . a)` resolves as `x` does. -/
theorem resolving_composes_chain :
    let x : Var := ⟨0, "x"⟩
    let y : Var := ⟨1, "y"⟩
    let z : Var := ⟨2, "z"⟩
    let a : Term := .symbol "a"
    let chain := empty.bind x (.pair (.var y) a)
    let extended := chain.bind y (.var z)
    let later := extended.bind z a
    chain.Acyclic ∧ chain.extend y (.var x) = none ∧ chain.extend y (.var z) = some extended ∧
      extended.resolve (.var x) = .pair (.var z) a ∧ chain.History later ∧
      later.resolve (.pair (.var y) a) = later.resolve (.var x) := by
  intro x y z a chain extended later
  have acyclic : chain.Acyclic := acyclic_empty.bind rfl (by decide)
  have free : chain.lookup y.id = none := rfl
  have made : chain.extend y (.var z) = some extended := by decide
  have unifies : unifyWith .never a (.var z) extended = some later := by decide
  have history : chain.History later := .unify (.extend .refl free made) unifies
  have composes := resolving_composes acyclic
  refine ⟨acyclic, (composes.1 y (.var x) free).1.mpr (by decide), made, ?_, history, ?_⟩
  · rw [(composes.1 y (.var z) free).2 extended made]
    decide
  · exact composes.2 later history (.var x)

/-! ## When nothing is bound -/

/-- Terms that resolve to the same unify, and nothing is bound. -/
theorem Acyclic.unifying_of_resolve_eq (acyclic : subst.Acyclic)
    (same : (subst.resolve left).bare = (subst.resolve right).bare) :
    Unifying subst left right (some subst) := by
  induction left using acyclic.term_induction generalizing right with
  | free v free =>
      rw [resolve_of_free free, Term.bare_var, eq_comm, ← acyclic.bare_walk_eq_var_iff] at same
      obtain ⟨w, walked, identities⟩ := Term.bare_eq_var_iff.mp same
      exact .sameVar (walk_of_free free) walked identities.symm
  | bound v value found ih =>
      rw [acyclic.resolve_of_lookup found] at same
      exact (ih same).of_walk (acyclic.walk_of_lookup found) rfl
  | atom a =>
      rw [resolve_atom, Term.bare_atom, eq_comm, Term.bare_eq_atom_iff,
        ← acyclic.walk_eq_atom_iff] at same
      exact .sameAtom rfl same
  | pair head tail headIH tailIH =>
      rw [resolve_pair, Term.bare_pair, eq_comm] at same
      obtain ⟨resolvedHead, resolvedTail, resolved, heads, tails⟩ :=
        Term.bare_eq_pair_iff.mp same
      rcases acyclic.exists_walk_eq_pair resolved with ⟨otherHead, otherTail, walked, rfl, rfl⟩
      exact .tails rfl walked (headIH heads.symm) (tailIH tails.symm)

/-- Unification returns the substitution itself exactly if the terms resolve to the same. -/
theorem Acyclic.unifyWith_eq_self_iff (acyclic : subst.Acyclic) (sharing : Sharing) :
    unifyWith sharing left right subst = some subst ↔
      (subst.resolve left).bare = (subst.resolve right).bare := by
  constructor
  · exact acyclic.resolve_eq_of_unifyWith
  · intro same
    exact acyclic.unifyWith_eq sharing (acyclic.unifying_of_resolve_eq same)

/-- Under an acyclic substitution, unification binds nothing exactly if the two terms resolve to
the same. So terms that have been unified are unified again without a binding, under the result
and under every substitution that comes from it later. -/
theorem unify_binds_only_when_needed (acyclic : subst.Acyclic) (sharing : Sharing)
    (left right : Term) :
    (unifyWith sharing left right subst = some subst ↔
      (subst.resolve left).bare = (subst.resolve right).bare) ∧
    ∀ unified later, unifyWith sharing left right subst = some unified → unified.History later →
      ∀ again, unifyWith again left right later = some later := by
  refine ⟨acyclic.unifyWith_eq_self_iff sharing, ?_⟩
  intro unified later unifies history again
  have unifiedAcyclic := acyclic.of_unifyWith unifies
  have grown := history.extends unifiedAcyclic
  have same := acyclic.resolve_eq_of_unifyWith unifies
  exact (grown.acyclic.unifyWith_eq_self_iff again).mpr (grown.resolve_eq unifiedAcyclic same)

/-- With `x` bound to `(y . a)` and `z` to `x`, to unify `z` with `(y . a)` binds nothing. To unify
it with `(b . a)` binds `y`, and does so only once, also after `w` was unified with `y`. -/
theorem unify_binds_only_when_needed_aliases :
    let x : Var := ⟨0, "x"⟩
    let y : Var := ⟨1, "y"⟩
    let z : Var := ⟨2, "z"⟩
    let w : Var := ⟨3, "w"⟩
    let a : Term := .symbol "a"
    let b : Term := .symbol "b"
    let chain := (empty.bind x (.pair (.var y) a)).bind z (.var x)
    let unified := chain.bind y b
    let later := unified.bind w b
    chain.Acyclic ∧ unifyWith .never (.var z) (.pair (.var y) a) chain = some chain ∧
      unifyWith .never (.var z) (.pair b a) chain = some unified ∧ unified.History later ∧
      unifyWith .structural (.var z) (.pair b a) later = some later := by
  intro x y z w a b chain unified later
  have acyclic : chain.Acyclic :=
    (acyclic_empty.bind rfl (by decide)).bind rfl (by decide)
  have unifies : unifyWith .never (.var z) (.pair b a) chain = some unified := by decide
  have unifiesLater : unifyWith .vars (.var w) (.var y) unified = some later := by decide
  have history : unified.History later := .unify .refl unifiesLater
  refine ⟨acyclic, ?_, unifies, history, ?_⟩
  · exact (unify_binds_only_when_needed acyclic .never _ _).1.mpr (by decide)
  · exact (unify_binds_only_when_needed acyclic .never _ _).2 unified later unifies history _

end Horn.Subst
