import Horn.Proofs.Satisfied
import Horn.Unify

/-!
# Unification as rules

`Subst.Unifying` says how unification ends, by rules that neither bound the depth
nor know of shared terms: walk both sides, bind a variable if there is one, the left
one first, and take pairs apart, heads before tails.

`Subst.Unifying.solves` reads the rules as solving an equation: the maps that satisfy
the result are those that satisfied the substitution before and make both sides equal.
-/

namespace Horn

/-- Two terms with different outermost symbols, no variable among them. -/
inductive Term.Clash : Term → Term → Prop where
  | atoms {a b : Atom} : a ≠ b → Clash (.atom a) (.atom b)
  | atomPair {a : Atom} {head tail : Term} : Clash (.atom a) (.pair head tail)
  | pairAtom {head tail : Term} {a : Atom} : Clash (.pair head tail) (.atom a)

theorem Term.Clash.instantiate_ne {left right : Term} (clash : Clash left right)
    (image : Nat → Term Nat) :
    left.bare.instantiate image ≠ right.bare.instantiate image := by
  cases clash with
  | atoms different => simpa using different
  | atomPair => simp
  | pairAtom => simp

namespace Subst

/-- Unifying two terms under a substitution ends with a result: a substitution with
more bindings, or none. -/
inductive Unifying : Subst → Term → Term → Option Subst → Prop where
  | sameVar {subst : Subst} {left right : Term} {v w : Var} :
      subst.walk left = .var v → subst.walk right = .var w → v.id = w.id →
      Unifying subst left right (some subst)
  | sameAtom {subst : Subst} {left right : Term} {a : Atom} :
      subst.walk left = .atom a → subst.walk right = .atom a →
      Unifying subst left right (some subst)
  | bindLeft {subst : Subst} {left right : Term} {v : Var} :
      subst.walk left = .var v → (subst.walk right).bare ≠ .var v.id →
      Unifying subst left right (subst.extend v (subst.walk right))
  | bindRight {subst : Subst} {left right : Term} {v : Var} :
      (∀ w, subst.walk left ≠ .var w) → subst.walk right = .var v →
      Unifying subst left right (subst.extend v (subst.walk left))
  | clash {subst : Subst} {left right : Term} :
      Term.Clash (subst.walk left) (subst.walk right) →
      Unifying subst left right none
  | heads {subst : Subst} {left right leftHead leftTail rightHead rightTail : Term} :
      subst.walk left = .pair leftHead leftTail →
      subst.walk right = .pair rightHead rightTail →
      Unifying subst leftHead rightHead none →
      Unifying subst left right none
  | tails {subst between : Subst} {left right leftHead leftTail rightHead rightTail : Term}
      {result : Option Subst} :
      subst.walk left = .pair leftHead leftTail →
      subst.walk right = .pair rightHead rightTail →
      Unifying subst leftHead rightHead (some between) →
      Unifying between leftTail rightTail result →
      Unifying subst left right result

variable {subst : Subst} {left right : Term} {result : Option Subst}

/-- Only where the two terms walk to matters. -/
theorem Unifying.of_walk {left' right' : Term} (run : Unifying subst left right result)
    (sameLeft : subst.walk left' = subst.walk left)
    (sameRight : subst.walk right' = subst.walk right) :
    Unifying subst left' right' result := by
  cases run with
  | sameVar walkLeft walkRight same =>
      exact .sameVar (sameLeft.trans walkLeft) (sameRight.trans walkRight) same
  | sameAtom walkLeft walkRight =>
      exact .sameAtom (sameLeft.trans walkLeft) (sameRight.trans walkRight)
  | bindLeft walkLeft different =>
      rw [← sameRight]
      exact .bindLeft (sameLeft.trans walkLeft) (sameRight ▸ different)
  | bindRight noVar walkRight =>
      rw [← sameLeft]
      exact .bindRight (sameLeft ▸ noVar) (sameRight.trans walkRight)
  | clash clash =>
      rw [← sameLeft, ← sameRight] at clash
      exact .clash clash
  | heads walkLeft walkRight headRun =>
      exact .heads (sameLeft.trans walkLeft) (sameRight.trans walkRight) headRun
  | tails walkLeft walkRight headRun tailRun =>
      exact .tails (sameLeft.trans walkLeft) (sameRight.trans walkRight) headRun tailRun

/-- A term and itself unify, and nothing is bound. -/
theorem Acyclic.unifying_self (acyclic : subst.Acyclic) (term : Term) :
    Unifying subst term term (some subst) := by
  induction term using acyclic.term_induction with
  | free v free => exact .sameVar (walk_of_free free) (walk_of_free free) rfl
  | bound v value found ih =>
      have same := acyclic.walk_of_lookup found
      exact ih.of_walk same same
  | atom a => exact .sameAtom rfl rfl
  | pair head tail headIH tailIH => exact .tails rfl rfl headIH tailIH

/-- Two terms that are the same unify, and nothing is bound. -/
theorem Acyclic.unifying_same (acyclic : subst.Acyclic) (same : left.bare = right.bare) :
    Unifying subst left right (some subst) := by
  induction left generalizing right with
  | var v =>
      cases right with
      | var w =>
          have identities : v.id = w.id := by simpa using same
          cases found : subst.lookup v.id with
          | none =>
              exact .sameVar (walk_of_free found) (walk_of_free (identities ▸ found)) identities
          | some value =>
              exact (acyclic.unifying_self value).of_walk (acyclic.walk_of_lookup found)
                (acyclic.walk_of_lookup (identities ▸ found))
      | atom b => simp at same
      | pair head tail => simp at same
  | atom a =>
      cases right with
      | var w => simp at same
      | atom b =>
          cases same
          exact .sameAtom rfl rfl
      | pair head tail => simp at same
  | pair head tail headIH tailIH =>
      cases right with
      | var w => simp at same
      | atom b => simp at same
      | pair otherHead otherTail =>
          simp only [Term.bare_pair, Term.pair.injEq] at same
          exact .tails rfl rfl (headIH same.1) (tailIH same.2)

/-! ## Solving an equation -/

/-- What a result says about the maps that satisfy a substitution and make two terms
equal: they are the maps that satisfy the result, and without a result there are none. -/
def Solves (subst : Subst) (left right : Term) : Option Subst → Prop
  | some unified => ∀ image, unified.SatisfiedBy image ↔
      subst.SatisfiedBy image ∧ left.bare.instantiate image = right.bare.instantiate image
  | none => ∀ image, subst.SatisfiedBy image →
      left.bare.instantiate image ≠ right.bare.instantiate image

theorem Solves.symm (solves : Solves subst left right result) :
    Solves subst right left result := by
  cases result with
  | some unified =>
      intro image
      rw [eq_comm]
      exact solves image
  | none =>
      intro image satisfied equal
      exact solves image satisfied equal.symm

/-- To solve an equation is to solve it between the terms that the sides walk to. -/
theorem Acyclic.solves_of_walk (acyclic : subst.Acyclic)
    (solves : Solves subst (subst.walk left) (subst.walk right) result) :
    Solves subst left right result := by
  cases result with
  | some unified =>
      intro image
      rw [solves image]
      apply and_congr_right
      intro satisfied
      rw [satisfied.instantiate_walk acyclic, satisfied.instantiate_walk acyclic]
  | none =>
      intro image satisfied
      have different := solves image satisfied
      rwa [satisfied.instantiate_walk acyclic, satisfied.instantiate_walk acyclic] at different

theorem solves_same (subst : Subst) (same : left.bare = right.bare) :
    Solves subst left right (some subst) := by
  intro image
  simp [same]

/-- Binding a free variable solves the equation between it and another term. -/
theorem Acyclic.solves_extend (acyclic : subst.Acyclic) {v : Var} {term : Term}
    (free : subst.lookup v.id = none) (different : (subst.walk term).bare ≠ .var v.id) :
    Solves subst (.var v) (subst.walk term) (subst.extend v (subst.walk term)) := by
  cases occurs : subst.occurs v (subst.walk term) with
  | true =>
      simp only [extend, occurs, if_true]
      intro image satisfied
      rw [satisfied.instantiate_walk acyclic]
      exact satisfied.image_ne_of_occurs acyclic occurs different
  | false =>
      simp only [extend, occurs]
      intro image
      exact satisfiedBy_bind free

/-- Two pairs are equal if their heads are, and then their tails. -/
theorem Solves.pair {between : Subst} {leftHead leftTail rightHead rightTail : Term}
    (heads : Solves subst leftHead rightHead (some between))
    (tails : Solves between leftTail rightTail result) :
    Solves subst (.pair leftHead leftTail) (.pair rightHead rightTail) result := by
  cases result with
  | some unified =>
      intro image
      rw [tails image, heads image]
      simp only [Term.bare_pair, Term.instantiate_pair, Term.pair.injEq, and_assoc]
  | none =>
      intro image satisfied equal
      simp only [Term.bare_pair, Term.instantiate_pair, Term.pair.injEq] at equal
      exact tails image ((heads image).mpr ⟨satisfied, equal.1⟩) equal.2

theorem Solves.pair_of_none {leftHead leftTail rightHead rightTail : Term}
    (heads : Solves subst leftHead rightHead none) :
    Solves subst (.pair leftHead leftTail) (.pair rightHead rightTail) none := by
  intro image satisfied equal
  simp only [Term.bare_pair, Term.instantiate_pair, Term.pair.injEq] at equal
  exact heads image satisfied equal.1

/-- A binding that passes the occurs check makes no cycle. -/
theorem Acyclic.extend {extended : Subst} {v : Var} {value : Term} (acyclic : subst.Acyclic)
    (free : subst.lookup v.id = none) (made : subst.extend v value = some extended) :
    extended.Acyclic := by
  rw [(extend_eq_some_iff.mp made).2]
  exact acyclic.bind free (not_mem_vars_of_extend made)

/-- Unification makes no cycle. -/
theorem Unifying.acyclic {unified : Subst} (run : Unifying subst left right (some unified))
    (acyclic : subst.Acyclic) : unified.Acyclic := by
  generalize ends : some unified = result at run
  induction run generalizing unified with
  | sameVar => cases ends; exact acyclic
  | sameAtom => cases ends; exact acyclic
  | bindLeft walkLeft =>
      exact acyclic.extend (acyclic.lookup_of_walk_eq_var walkLeft) ends.symm
  | bindRight _ walkRight =>
      exact acyclic.extend (acyclic.lookup_of_walk_eq_var walkRight) ends.symm
  | clash => cases ends
  | heads => cases ends
  | tails _ _ _ _ headIH tailIH => exact tailIH (headIH acyclic rfl) ends

/-- Unification solves the equation between the two terms. -/
theorem Unifying.solves (run : Unifying subst left right result) (acyclic : subst.Acyclic) :
    Solves subst left right result := by
  induction run with
  | @sameVar subst _ _ _ _ walkLeft walkRight same =>
      apply acyclic.solves_of_walk
      rw [walkLeft, walkRight]
      exact solves_same subst (congrArg Term.var same)
  | @sameAtom subst _ _ _ walkLeft walkRight =>
      apply acyclic.solves_of_walk
      rw [walkLeft, walkRight]
      exact solves_same subst rfl
  | bindLeft walkLeft different =>
      apply acyclic.solves_of_walk
      rw [walkLeft]
      exact acyclic.solves_extend (acyclic.lookup_of_walk_eq_var walkLeft) different
  | @bindRight subst _ _ v noVar walkRight =>
      apply acyclic.solves_of_walk
      rw [walkRight]
      have different : (subst.walk _).bare ≠ .var v.id := Term.bare_ne_var noVar
      exact (acyclic.solves_extend (acyclic.lookup_of_walk_eq_var walkRight) different).symm
  | clash clash =>
      apply acyclic.solves_of_walk
      intro image _
      exact clash.instantiate_ne image
  | heads walkLeft walkRight _ headIH =>
      apply acyclic.solves_of_walk
      rw [walkLeft, walkRight]
      exact (headIH acyclic).pair_of_none
  | tails walkLeft walkRight headRun _ headIH tailIH =>
      apply acyclic.solves_of_walk
      rw [walkLeft, walkRight]
      exact (headIH acyclic).pair (tailIH (headRun.acyclic acyclic))

end Subst

end Horn
