import Horn.Proofs.Sharing

/-!
# Resolved terms

Resolving is a normal form: no bound variable is left. A walk goes as far as the outermost
symbol of the resolved term and no further, and a new binding of a free variable replaces
this variable in every resolved term (`Acyclic.resolve_bind`).

So all that unification asks of a substitution is what terms resolve to. Two unifications of
terms that resolve to the same go in step, although the chains have nothing in common: they
fail together, and otherwise bind the same variables (`Acyclic.unify_alike`).
-/

namespace Horn.Subst

variable {subst : Subst} {v : Var} {id : Nat} {value term : Term}

/-! ## The normal form -/

/-- A resolved term has free variables only. -/
theorem Acyclic.lookup_of_mem_vars_resolve (acyclic : subst.Acyclic)
    (member : id ∈ (subst.resolve term).bare.vars) : subst.lookup id = none := by
  induction term using acyclic.term_induction with
  | free w free =>
      rw [resolve_of_free free, Term.bare_var, Term.mem_vars_var] at member
      exact member ▸ free
  | bound w value found ih =>
      rw [acyclic.resolve_of_lookup found] at member
      exact ih member
  | atom a =>
      rw [resolve_atom] at member
      exact absurd member Term.not_mem_vars_atom
  | pair head tail headIH tailIH =>
      rw [resolve_pair, Term.bare_pair, Term.mem_vars_pair] at member
      exact member.elim headIH tailIH

/-- A term without bound variables resolves to itself. -/
theorem resolve_eq_self (free : ∀ id ∈ term.bare.vars, subst.lookup id = none) :
    subst.resolve term = term := by
  rw [resolve_eq_instantiate]
  conv_rhs => rw [← term.instantiate_self]
  apply Term.instantiate_congr
  intro v member
  exact resolve_of_free (free v.id (Term.id_mem_vars_bare member))

@[simp] theorem resolve_empty (term : Term) : empty.resolve term = term := rfl

/-- The value takes the place of the variable, and other variables stay. -/
def replacing (v : Var) (value : Term) (other : Var) : Term :=
  if other.same v then value else .var other

/-- A binding of a free variable does not matter to a term that does not resolve to one with
this variable. -/
theorem Acyclic.resolve_bind_of_not_mem (acyclic : subst.Acyclic)
    (free : subst.lookup v.id = none) (bound : (subst.bind v value).Acyclic)
    (apart : v.id ∉ (subst.resolve term).bare.vars) :
    (subst.bind v value).resolve term = subst.resolve term := by
  induction term using acyclic.term_induction with
  | free w unbound =>
      rw [resolve_of_free unbound] at apart ⊢
      have different : v.id ≠ w.id := by simpa using apart
      apply resolve_of_free
      rw [lookup_bind, if_neg different, unbound]
  | bound w older found ih =>
      rw [acyclic.resolve_of_lookup found] at apart ⊢
      have different : v.id ≠ w.id := by
        intro same
        rw [← same, free] at found
        cases found
      have foundToo : (subst.bind v value).lookup w.id = some older := by
        rw [lookup_bind, if_neg different, found]
      rw [bound.resolve_of_lookup foundToo, ih apart]
  | atom a => simp
  | pair head tail headIH tailIH =>
      simp only [resolve_pair, Term.bare_pair, Term.mem_vars_pair, not_or] at apart
      rw [resolve_pair, resolve_pair, headIH apart.1, tailIH apart.2]

/-- A binding of a free variable puts its resolved value in the place of the variable. -/
theorem Acyclic.resolve_bind (acyclic : subst.Acyclic) (free : subst.lookup v.id = none)
    (apart : v.id ∉ (subst.resolve value).bare.vars) (term : Term) :
    (subst.bind v value).resolve term =
      (subst.resolve term).instantiate (replacing v (subst.resolve value)) := by
  have bound : (subst.bind v value).Acyclic := acyclic.bind free apart
  induction term using acyclic.term_induction with
  | free w unbound =>
      rw [resolve_of_free unbound, Term.instantiate_var, replacing]
      by_cases same : w.id = v.id
      · have found : (subst.bind v value).lookup w.id = some value := by
          rw [lookup_bind, if_pos same.symm]
        rw [bound.resolve_of_lookup found, acyclic.resolve_bind_of_not_mem free bound apart]
        simp [Var.same, same]
      · have stays : (subst.bind v value).lookup w.id = none := by
          rw [lookup_bind, if_neg (Ne.symm same), unbound]
        rw [resolve_of_free stays]
        simp [Var.same, same]
  | bound w older found ih =>
      have different : v.id ≠ w.id := by
        intro same
        rw [← same, free] at found
        cases found
      have foundToo : (subst.bind v value).lookup w.id = some older := by
        rw [lookup_bind, if_neg different, found]
      rw [bound.resolve_of_lookup foundToo, ih, acyclic.resolve_of_lookup found]
  | atom a => simp
  | pair head tail headIH tailIH => simp [headIH, tailIH]

theorem Acyclic.resolve_extend {extended : Subst} (acyclic : subst.Acyclic)
    (free : subst.lookup v.id = none) (made : subst.extend v value = some extended)
    (term : Term) :
    extended.resolve term =
      (subst.resolve term).instantiate (replacing v (subst.resolve value)) := by
  rw [(extend_eq_some_iff.mp made).2]
  exact acyclic.resolve_bind free (not_mem_vars_of_extend made) term

/-! ## Walking to the outermost symbol -/

theorem Acyclic.walk_eq_var_iff (acyclic : subst.Acyclic) :
    subst.walk term = .var v ↔ subst.resolve term = .var v := by
  rw [← acyclic.resolve_walk]
  cases walked : subst.walk term with
  | var w => rw [resolve_of_free (acyclic.lookup_of_walk_eq_var walked)]
  | atom a => simp
  | pair head tail => simp

/-- A term walks to a variable exactly if it resolves to this variable. -/
theorem Acyclic.bare_walk_eq_var_iff (acyclic : subst.Acyclic) :
    (subst.walk term).bare = .var id ↔ (subst.resolve term).bare = .var id := by
  simp only [Term.bare_eq_var_iff, acyclic.walk_eq_var_iff]

theorem Acyclic.walk_eq_atom_iff (acyclic : subst.Acyclic) {a : Atom} :
    subst.walk term = .atom a ↔ subst.resolve term = .atom a := by
  rw [← acyclic.resolve_walk]
  cases walked : subst.walk term with
  | var w => simp [resolve_of_free (acyclic.lookup_of_walk_eq_var walked)]
  | atom b => simp
  | pair head tail => simp

/-- A term that resolves to a pair walks to one, with parts that resolve to its parts. -/
theorem Acyclic.exists_walk_eq_pair (acyclic : subst.Acyclic) {head tail : Term}
    (resolved : subst.resolve term = .pair head tail) :
    ∃ walkedHead walkedTail, subst.walk term = .pair walkedHead walkedTail ∧
      subst.resolve walkedHead = head ∧ subst.resolve walkedTail = tail := by
  rw [← acyclic.resolve_walk] at resolved
  cases walked : subst.walk term with
  | var w =>
      rw [walked, resolve_of_free (acyclic.lookup_of_walk_eq_var walked)] at resolved
      cases resolved
  | atom a =>
      rw [walked, resolve_atom] at resolved
      cases resolved
  | pair walkedHead walkedTail =>
      rw [walked, resolve_pair, Term.pair.injEq] at resolved
      exact ⟨walkedHead, walkedTail, rfl, resolved⟩

theorem Acyclic.resolve_of_walk_eq_pair (acyclic : subst.Acyclic) {head tail : Term}
    (walked : subst.walk term = .pair head tail) :
    subst.resolve term = .pair (subst.resolve head) (subst.resolve tail) := by
  rw [← acyclic.resolve_walk, walked, resolve_pair]

/-- Two terms walk to different outermost symbols exactly if they resolve to such. -/
theorem Acyclic.clash_walk_iff (acyclic : subst.Acyclic) {left right : Term} :
    Term.Clash (subst.walk left) (subst.walk right) ↔
      Term.Clash (subst.resolve left) (subst.resolve right) := by
  constructor
  · intro clash
    rw [← acyclic.resolve_walk left, ← acyclic.resolve_walk right]
    generalize subst.walk left = walkedLeft, subst.walk right = walkedRight at clash ⊢
    cases clash with
    | atoms different =>
        rw [resolve_atom, resolve_atom]
        exact .atoms different
    | atomPair =>
        rw [resolve_atom, resolve_pair]
        exact .atomPair
    | pairAtom =>
        rw [resolve_atom, resolve_pair]
        exact .pairAtom
  · intro clash
    generalize resolvedLeft : subst.resolve left = first at clash
    generalize resolvedRight : subst.resolve right = second at clash
    cases clash with
    | atoms different =>
        rw [acyclic.walk_eq_atom_iff.mpr resolvedLeft, acyclic.walk_eq_atom_iff.mpr resolvedRight]
        exact .atoms different
    | atomPair =>
        rcases acyclic.exists_walk_eq_pair resolvedRight with ⟨_, _, walkRight, _⟩
        rw [acyclic.walk_eq_atom_iff.mpr resolvedLeft, walkRight]
        exact .atomPair
    | pairAtom =>
        rcases acyclic.exists_walk_eq_pair resolvedLeft with ⟨_, _, walkLeft, _⟩
        rw [walkLeft, acyclic.walk_eq_atom_iff.mpr resolvedRight]
        exact .pairAtom

/-! ## Unifying terms that resolve to the same -/

/-- Terms that resolve to the same under the first two substitutions still do so under the
other two, which are later. -/
def StayAlike (first second : Subst) (firstLater secondLater : Subst) : Prop :=
  ∀ {left right : Term}, first.resolve left = second.resolve right →
    firstLater.resolve left = secondLater.resolve right

variable {first second : Subst} {left right leftToo rightToo : Term} {result : Option Subst}

/-- A variable is bound to either of two terms that resolve to the same, or to none. -/
theorem Acyclic.extend_alike (acyclic : first.Acyclic) (acyclicToo : second.Acyclic)
    {valueToo : Term} (free : first.lookup v.id = none) (freeToo : second.lookup v.id = none)
    (same : first.resolve value = second.resolve valueToo) :
    Option.Rel (StayAlike first second) (first.extend v value) (second.extend v valueToo) := by
  have sameOccurs : first.occurs v value = second.occurs v valueToo := by
    rw [Bool.eq_iff_iff, occurs_eq_true_iff, occurs_eq_true_iff, same]
  rw [Subst.extend, Subst.extend, ← sameOccurs]
  cases occurs : first.occurs v value with
  | true => exact .none
  | false =>
      have apart : v.id ∉ (first.resolve value).bare.vars := by
        rw [← occurs_eq_true_iff, occurs]
        exact Bool.false_ne_true
      apply Option.Rel.some
      intro left right alike
      rw [acyclic.resolve_bind free apart, acyclicToo.resolve_bind freeToo (same ▸ apart), alike,
        same]

/-- Terms that resolve to the same unify by the same rules, with alike results. -/
theorem Unifying.exists_alike (run : Unifying first left right result) (acyclic : first.Acyclic)
    (acyclicToo : second.Acyclic) (sameLeft : first.resolve left = second.resolve leftToo)
    (sameRight : first.resolve right = second.resolve rightToo) :
    ∃ resultToo, Unifying second leftToo rightToo resultToo ∧
      Option.Rel (StayAlike first second) result resultToo := by
  induction run generalizing second leftToo rightToo with
  | sameVar walkLeft walkRight same =>
      rw [acyclic.walk_eq_var_iff, sameLeft, ← acyclicToo.walk_eq_var_iff] at walkLeft
      rw [acyclic.walk_eq_var_iff, sameRight, ← acyclicToo.walk_eq_var_iff] at walkRight
      exact ⟨_, .sameVar walkLeft walkRight same, .some fun alike => alike⟩
  | sameAtom walkLeft walkRight =>
      rw [acyclic.walk_eq_atom_iff, sameLeft, ← acyclicToo.walk_eq_atom_iff] at walkLeft
      rw [acyclic.walk_eq_atom_iff, sameRight, ← acyclicToo.walk_eq_atom_iff] at walkRight
      exact ⟨_, .sameAtom walkLeft walkRight, .some fun alike => alike⟩
  | bindLeft walkLeft different =>
      have free := acyclic.lookup_of_walk_eq_var walkLeft
      rw [acyclic.walk_eq_var_iff, sameLeft, ← acyclicToo.walk_eq_var_iff] at walkLeft
      rw [Ne, acyclic.bare_walk_eq_var_iff, sameRight, ← acyclicToo.bare_walk_eq_var_iff]
        at different
      refine ⟨_, .bindLeft walkLeft different, ?_⟩
      apply acyclic.extend_alike acyclicToo free (acyclicToo.lookup_of_walk_eq_var walkLeft)
      rw [acyclic.resolve_walk, acyclicToo.resolve_walk, sameRight]
  | bindRight noVar walkRight =>
      have free := acyclic.lookup_of_walk_eq_var walkRight
      rw [acyclic.walk_eq_var_iff, sameRight, ← acyclicToo.walk_eq_var_iff] at walkRight
      have noVarToo : ∀ w, second.walk leftToo ≠ .var w := by
        intro w
        rw [Ne, acyclicToo.walk_eq_var_iff, ← sameLeft, ← acyclic.walk_eq_var_iff]
        exact noVar w
      refine ⟨_, .bindRight noVarToo walkRight, ?_⟩
      apply acyclic.extend_alike acyclicToo free (acyclicToo.lookup_of_walk_eq_var walkRight)
      rw [acyclic.resolve_walk, acyclicToo.resolve_walk, sameLeft]
  | clash clash =>
      rw [acyclic.clash_walk_iff, sameLeft, sameRight, ← acyclicToo.clash_walk_iff] at clash
      exact ⟨none, .clash clash, .none⟩
  | heads walkLeft walkRight _ headIH =>
      rw [acyclic.resolve_of_walk_eq_pair walkLeft, eq_comm] at sameLeft
      rw [acyclic.resolve_of_walk_eq_pair walkRight, eq_comm] at sameRight
      rcases acyclicToo.exists_walk_eq_pair sameLeft with ⟨_, _, walkLeftToo, leftHead, _⟩
      rcases acyclicToo.exists_walk_eq_pair sameRight with ⟨_, _, walkRightToo, rightHead, _⟩
      rcases headIH acyclic acyclicToo leftHead.symm rightHead.symm with ⟨_, headRun, alike⟩
      cases alike
      exact ⟨none, .heads walkLeftToo walkRightToo headRun, .none⟩
  | tails walkLeft walkRight headRun _ headIH tailIH =>
      rw [acyclic.resolve_of_walk_eq_pair walkLeft, eq_comm] at sameLeft
      rw [acyclic.resolve_of_walk_eq_pair walkRight, eq_comm] at sameRight
      rcases acyclicToo.exists_walk_eq_pair sameLeft with
        ⟨_, _, walkLeftToo, leftHead, leftTail⟩
      rcases acyclicToo.exists_walk_eq_pair sameRight with
        ⟨_, _, walkRightToo, rightHead, rightTail⟩
      rcases headIH acyclic acyclicToo leftHead.symm rightHead.symm with ⟨_, headRunToo, alike⟩
      cases alike with
      | some stay =>
          have between := headRun.acyclic acyclic
          have betweenToo := headRunToo.acyclic acyclicToo
          rcases tailIH between betweenToo (stay leftTail.symm) (stay rightTail.symm) with
            ⟨resultToo, tailRun, later⟩
          refine ⟨resultToo, .tails walkLeftToo walkRightToo headRunToo tailRun, ?_⟩
          cases later with
          | none => exact .none
          | some stayLater => exact .some fun same => stayLater (stay same)

/-- All that unification asks of a substitution is what terms resolve to: terms that resolve
to the same under two substitutions have unifiers under both, with alike resolving terms, or
under neither. -/
theorem Acyclic.unify_alike (acyclic : first.Acyclic) (acyclicToo : second.Acyclic)
    (sameLeft : first.resolve left = second.resolve leftToo)
    (sameRight : first.resolve right = second.resolve rightToo) :
    Option.Rel (StayAlike first second) (unify left right first)
      (unify leftToo rightToo second) := by
  have run := acyclic.unifying_unifyWith .vars left right
  rcases run.exists_alike acyclic acyclicToo sameLeft sameRight with ⟨_, runToo, alike⟩
  rw [unify, unify, acyclicToo.unifyWith_eq .vars runToo]
  exact alike

end Horn.Subst
