import Horn.Proofs.Equations
import Horn.Proofs.Histories
import Horn.Proofs.Variables

/-!
# What unification touches

Unification is about the variables that are left in the two terms once they are resolved. It
binds no others and brings in no others, and a term that has none of them resolves as before. Each
binding uses up one of them, so that bindings made and variables left add up to the variables
that there were (`unification_keeps_to_its_variables`).

`Subst.Touches` is what a step keeps: a binding within a scope of variables leaves the terms of
the scope in the scope.
-/

namespace Horn.Subst

variable {older between newer subst unified extended : Subst} {scope : Nat → Prop} {v : Var}
variable {id : Nat} {value term left right : Term} {result : Option Subst}

/-- Only variables of the scope were bound since, and to nothing that leads out of it. -/
structure Touches (scope : Nat → Prop) (older newer : Subst) : Prop where
  bound : ∀ id ∈ newer.bound, id ∈ older.bound ∨ scope id
  closed : ∀ {term}, (older.resolve term).Only scope → (newer.resolve term).Only scope

theorem touches_self (scope : Nat → Prop) (subst : Subst) : Touches scope subst subst :=
  ⟨fun _ => .inl, fun only => only⟩

theorem Touches.trans (first : Touches scope older between) (second : Touches scope between newer) :
    Touches scope older newer := by
  constructor
  · intro id bound
    rcases second.bound id bound with earlier | inScope
    · exact first.bound id earlier
    · exact .inr inScope
  · intro term only
    exact second.closed (first.closed only)

/-- A binding of a variable of the scope to a term of the scope. -/
theorem Acyclic.touches_extend (acyclic : subst.Acyclic) (free : subst.lookup v.id = none)
    (inScope : scope v.id) (only : (subst.resolve value).Only scope)
    (made : subst.extend v value = some extended) : Touches scope subst extended := by
  constructor
  · intro other bound
    rw [(extend_eq_some_iff.mp made).2, mem_bound, bindings_bind, List.map_cons,
      List.mem_cons] at bound
    rcases bound with rfl | earlier
    · exact .inr inScope
    · exact .inl (mem_bound.mpr earlier)
  · intro term onlyTerm other member
    rw [acyclic.resolve_extend free made, Term.mem_vars_bare_instantiate] at member
    obtain ⟨u, inTerm, inImage⟩ := member
    rw [replacing] at inImage
    split at inImage
    next => exact only other inImage
    next =>
      rw [Term.bare_var, Term.mem_vars_var] at inImage
      exact inImage ▸ onlyTerm u.id (Term.id_mem_vars_bare inTerm)

/-- Unification stays in a scope that both terms resolve to. -/
theorem Unifying.touches (run : Unifying subst left right (some unified))
    (acyclic : subst.Acyclic) (onlyLeft : (subst.resolve left).Only scope)
    (onlyRight : (subst.resolve right).Only scope) : Touches scope subst unified := by
  generalize ends : some unified = result at run
  induction run generalizing unified with
  | sameVar => cases ends; exact touches_self scope _
  | sameAtom => cases ends; exact touches_self scope _
  | bindLeft walkLeft =>
      rw [acyclic.walk_eq_var_iff.mp walkLeft] at onlyLeft
      rw [← acyclic.resolve_walk] at onlyRight
      exact acyclic.touches_extend (acyclic.lookup_of_walk_eq_var walkLeft)
        (onlyLeft _ (by simp)) onlyRight ends.symm
  | bindRight _ walkRight =>
      rw [acyclic.walk_eq_var_iff.mp walkRight] at onlyRight
      rw [← acyclic.resolve_walk] at onlyLeft
      exact acyclic.touches_extend (acyclic.lookup_of_walk_eq_var walkRight)
        (onlyRight _ (by simp)) onlyLeft ends.symm
  | clash => cases ends
  | heads => cases ends
  | tails walkLeft walkRight headRun _ headIH tailIH =>
      rw [acyclic.resolve_of_walk_eq_pair walkLeft] at onlyLeft
      rw [acyclic.resolve_of_walk_eq_pair walkRight] at onlyRight
      have heads := headIH acyclic onlyLeft.head onlyRight.head rfl
      have tails := tailIH (headRun.acyclic acyclic) (heads.closed onlyLeft.tail)
        (heads.closed onlyRight.tail) ends
      exact heads.trans tails

/-- A term without variables of the scope resolves as before. -/
theorem Touches.resolve_eq (touches : Touches scope older newer) (grown : older.Extends newer)
    (acyclic : older.Acyclic) (apart : ∀ id ∈ (older.resolve term).bare.vars, ¬scope id) :
    newer.resolve term = older.resolve term := by
  rw [← grown.resolve_resolve acyclic]
  apply resolve_eq_self
  intro id member
  have free := acyclic.lookup_of_mem_vars_resolve member
  rw [lookup_eq_none_iff] at free ⊢
  intro bound
  exact (touches.bound id bound).elim free (apart id member)

/-- What was bound stays bound. -/
theorem Extends.mem_bound (grown : older.Extends newer) (bound : id ∈ older.bound) :
    id ∈ newer.bound := by
  obtain ⟨added, chain, _, _⟩ := grown.added
  rw [Subst.mem_bound, chain, List.map_append]
  exact List.mem_append_right _ (Subst.mem_bound.mp bound)

/-- After bindings within the variables of a resolved term, each of these is bound or left. -/
theorem Touches.bound_union_vars
    (touches : Touches (· ∈ (older.resolve term).bare.vars) older newer)
    (grown : older.Extends newer) (acyclic : older.Acyclic) :
    newer.bound ∪ (newer.resolve term).bare.vars.toFinset =
      older.bound ∪ (older.resolve term).bare.vars.toFinset := by
  ext id
  simp only [Finset.mem_union, List.mem_toFinset]
  constructor
  · rintro (bound | member)
    · exact touches.bound id bound
    · exact .inr (touches.closed (fun _ inside => inside) id member)
  · rintro (bound | member)
    · exact .inl (grown.mem_bound bound)
    · cases free : newer.lookup id with
      | none =>
          have left := grown.acyclic.mem_vars_resolve_of_reaches free .refl member
          rw [grown.resolve_resolve acyclic] at left
          exact .inr left
      | some value => exact .inl (mem_bound_of_lookup free)

theorem Acyclic.disjoint_bound_vars (acyclic : subst.Acyclic) (term : Term) :
    Disjoint subst.bound (subst.resolve term).bare.vars.toFinset := by
  rw [Finset.disjoint_right]
  intro id member
  rw [List.mem_toFinset] at member
  exact lookup_eq_none_iff.mp (acyclic.lookup_of_mem_vars_resolve member)

/-- Bindings made and variables left add up to the variables that there were. -/
theorem Touches.size_add_card_vars
    (touches : Touches (· ∈ (older.resolve term).bare.vars) older newer)
    (grown : older.Extends newer) (acyclic : older.Acyclic) :
    newer.size + (newer.resolve term).bare.vars.toFinset.card =
      older.size + (older.resolve term).bare.vars.toFinset.card := by
  have sizes := grown.size_add_card
  have cards := congrArg Finset.card (touches.bound_union_vars grown acyclic)
  rw [Finset.card_union_of_disjoint (grown.acyclic.disjoint_bound_vars term),
    Finset.card_union_of_disjoint (acyclic.disjoint_bound_vars term)] at cards
  omega

/-- Under an acyclic substitution, unification adds bindings only of variables that are left in
the two resolved terms, and none but these are left in the terms afterwards. The bindings added
and the different variables left in both terms are together as many as the different variables
before. A term that shares no variable with the two, all of them resolved, resolves as before. -/
theorem unification_keeps_to_its_variables (acyclic : subst.Acyclic) {sharing : Sharing}
    (unifies : unifyWith sharing left right subst = some unified) :
    ∃ added, unified.bindings = added ++ subst.bindings ∧
      (∀ binding ∈ added, binding.var.id ∈ (subst.resolve left).bare.vars ∨
        binding.var.id ∈ (subst.resolve right).bare.vars) ∧
      (∀ id, id ∈ (unified.resolve left).bare.vars ∨ id ∈ (unified.resolve right).bare.vars →
        id ∈ (subst.resolve left).bare.vars ∨ id ∈ (subst.resolve right).bare.vars) ∧
      added.length + (unified.resolve (.pair left right)).bare.vars.toFinset.card =
        (subst.resolve (.pair left right)).bare.vars.toFinset.card ∧
      ∀ term, (∀ id ∈ (subst.resolve term).bare.vars,
          id ∉ (subst.resolve left).bare.vars ∧ id ∉ (subst.resolve right).bare.vars) →
        unified.resolve term = subst.resolve term := by
  have run := acyclic.unifying_unifyWith sharing left right
  rw [unifies] at run
  have grown := run.extended acyclic.extends_self
  have inPair : ∀ {id} {subst : Subst}, id ∈ (subst.resolve (.pair left right)).bare.vars ↔
      id ∈ (subst.resolve left).bare.vars ∨ id ∈ (subst.resolve right).bare.vars := by
    intro id subst
    rw [resolve_pair, Term.bare_pair, Term.mem_vars_pair]
  have touches : Touches (· ∈ (subst.resolve (.pair left right)).bare.vars) subst unified :=
    run.touches acyclic (fun _ member => inPair.mpr (.inl member))
      (fun _ member => inPair.mpr (.inr member))
  have counted := touches.size_add_card_vars grown acyclic
  obtain ⟨added, chain, _, apart⟩ := grown.added
  refine ⟨added, chain, ?_, ?_, ?_, ?_⟩
  · intro binding member
    have bound : binding.var.id ∈ unified.bound := by
      rw [mem_bound, chain, List.map_append]
      exact List.mem_append_left _ (List.mem_map_of_mem member)
    exact inPair.mp ((touches.bound _ bound).resolve_left (apart binding member))
  · intro id member
    exact inPair.mp (touches.closed (fun _ inside => inside) id (inPair.mpr member))
  · have size : unified.size = added.length + subst.size := by
      rw [unified.size_eq, chain, List.length_append, subst.size_eq]
    omega
  · intro term apart
    apply touches.resolve_eq grown acyclic
    intro id member inScope
    exact (inPair.mp inScope).elim (apart id member).1 (apart id member).2

/-- With `x` bound to `(y . w)` and `u` to `(t . b)`, to unify `x` with `(z . a)` binds `y` and `w`.
Of the variables `y`, `w` and `z` only `z` is left, and `u` still resolves to `(t . b)`. -/
theorem unification_keeps_to_its_variables_chain :
    let x : Var := ⟨0, "x"⟩
    let y : Var := ⟨1, "y"⟩
    let z : Var := ⟨2, "z"⟩
    let w : Var := ⟨3, "w"⟩
    let u : Var := ⟨4, "u"⟩
    let t : Var := ⟨5, "t"⟩
    let a : Term := .symbol "a"
    let b : Term := .symbol "b"
    let chain := (empty.bind x (.pair (.var y) (.var w))).bind u (.pair (.var t) b)
    let unified := (chain.bind y (.var z)).bind w a
    chain.Acyclic ∧ unifyWith .never (.var x) (.pair (.var z) a) chain = some unified ∧
      (chain.resolve (.pair (.var x) (.pair (.var z) a))).bare.vars.toFinset =
        {y.id, w.id, z.id} ∧
      (∀ id, id ∈ (unified.resolve (.var x)).bare.vars → id = y.id ∨ id = w.id ∨ id = z.id) ∧
      (∃ added, unified.bindings = added ++ chain.bindings ∧ added.length + 1 = 3) ∧
      unified.resolve (.var u) = .pair (.var t) b := by
  intro x y z w u t a b chain unified
  have acyclic : chain.Acyclic := (acyclic_empty.bind rfl (by decide)).bind rfl (by decide)
  have unifies : unifyWith .never (.var x) (.pair (.var z) a) chain = some unified := by decide
  obtain ⟨added, grown, _, within, counted, apart⟩ :=
    unification_keeps_to_its_variables acyclic unifies
  refine ⟨acyclic, unifies, by decide, ?_, ⟨added, grown, counted⟩, apart (.var u) (by decide)⟩
  intro id member
  have before : id ∈ [y.id, w.id] ∨ id ∈ [z.id] := within id (.inl member)
  simpa [or_assoc] using before

end Horn.Subst
