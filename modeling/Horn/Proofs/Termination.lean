import Mathlib.Order.WellFounded
import Horn.Proofs.Sharing

/-!
# Termination of the term algorithms

The definitions of `walk`, `occurs`, `resolve` and `unify` count the steps that they may take, so
that they always return. Here are the same algorithms without a count, as rules for their runs.
`walk` is a loop, `occurs` and `resolve` call themselves for both parts of the pair that a term
walks to, and `unify` calls itself for the heads and goes on with the tails under what that call
returned. A run is finite, all calls and passes of loops included. Where an algorithm does not end
there is no run: a variable that is bound to itself cannot be walked.

Under an acyclic substitution every run exists, it comes to what the definition computes, and to
nothing else, as `term_algorithms_terminate` says. For a walk, `occurs` and `resolve` this is the
induction along bindings, and a walk follows no more bindings than there are variables to be
reached. For `unify` it follows from the rules of `Unifying`, which walk by definition and look
into all pairs.

Acyclicity is what it takes: where every variable can be resolved, no variable reaches itself
(`acyclic_iff_resolveRun`).
-/

namespace Horn

namespace Sharing

/-- The test that ends unification at once: one variable, one atom, or two pairs that are known
to be the same. -/
def identical (sharing : Sharing) (place : List Part) : Term → Term → Bool
  | .var v, .var w => v.same w
  | .atom a, .atom b => a = b
  | .pair leftHead leftTail, .pair rightHead rightTail =>
      sharing.known place (.pair leftHead leftTail) (.pair rightHead rightTail)
  | _, _ => false

theorem bare_eq_of_identical {sharing : Sharing} {place : List Part} {left right : Term}
    (same : sharing.identical place left right = true) : left.bare = right.bare := by
  unfold identical at same
  split at same
  · exact congrArg Term.var (of_decide_eq_true same)
  · exact congrArg Term.atom (of_decide_eq_true same)
  · exact sharing.bare_eq_of_known same
  · cases same

end Sharing

namespace Subst

/-! ## Runs -/

/-- Walking a term follows a number of bindings, and stops at a term that is not a bound
variable. -/
inductive WalkRun (subst : Subst) : Nat → Term → Term → Prop where
  | stop {term : Term} : (∀ v, term = .var v → subst.lookup v.id = none) → WalkRun subst 0 term term
  | follow {count : Nat} {v : Var} {value result : Term} :
      subst.lookup v.id = some value →
      WalkRun subst count value result →
      WalkRun subst (count + 1) (.var v) result

/-- Looking for a variable in a term ends, and tells whether it was found. The tail of a pair is
looked into only if the head does not have the variable. -/
inductive OccursRun (subst : Subst) (v : Var) : Term → Bool → Prop where
  | var {count : Nat} {term : Term} {other : Var} :
      WalkRun subst count term (.var other) →
      OccursRun subst v term (other.same v)
  | atom {count : Nat} {term : Term} {a : Atom} :
      WalkRun subst count term (.atom a) →
      OccursRun subst v term false
  | inHead {count : Nat} {term head tail : Term} :
      WalkRun subst count term (.pair head tail) →
      OccursRun subst v head true →
      OccursRun subst v term true
  | inTail {count : Nat} {term head tail : Term} {found : Bool} :
      WalkRun subst count term (.pair head tail) →
      OccursRun subst v head false →
      OccursRun subst v tail found →
      OccursRun subst v term found

/-- Resolving a term ends with another. -/
inductive ResolveRun (subst : Subst) : Term → Term → Prop where
  | var {count : Nat} {term : Term} {v : Var} :
      WalkRun subst count term (.var v) →
      ResolveRun subst term (.var v)
  | atom {count : Nat} {term : Term} {a : Atom} :
      WalkRun subst count term (.atom a) →
      ResolveRun subst term (.atom a)
  | pair {count : Nat} {term head tail resolvedHead resolvedTail : Term} :
      WalkRun subst count term (.pair head tail) →
      ResolveRun subst head resolvedHead →
      ResolveRun subst tail resolvedTail →
      ResolveRun subst term (.pair resolvedHead resolvedTail)

/-- Extending a substitution ends, with a new binding or without. -/
inductive ExtendRun (subst : Subst) (v : Var) (value : Term) : Option Subst → Prop where
  | refuse : OccursRun subst v value true → ExtendRun subst v value none
  | bind : OccursRun subst v value false → ExtendRun subst v value (some (subst.bind v value))

/-- Unifying what meets at a place ends with a result. Both sides are walked; then come, in this
order, the test for identical terms, a variable on the left, a variable on the right, and two
pairs, with a call for the heads and another pass for the tails. -/
inductive UnifyRun (sharing : Sharing) :
    List Part → Subst → Term → Term → Option Subst → Prop where
  | identical {place : List Part} {subst : Subst} {left right value other : Term} {n m : Nat} :
      WalkRun subst n left value →
      WalkRun subst m right other →
      sharing.identical place value other = true →
      UnifyRun sharing place subst left right (some subst)
  | bindLeft {place : List Part} {subst : Subst} {left right value : Term} {n m : Nat} {v : Var}
      {result : Option Subst} :
      WalkRun subst n left (.var v) →
      WalkRun subst m right value →
      sharing.identical place (.var v) value = false →
      ExtendRun subst v value result →
      UnifyRun sharing place subst left right result
  | bindRight {place : List Part} {subst : Subst} {left right value : Term} {n m : Nat} {v : Var}
      {result : Option Subst} :
      WalkRun subst n left value →
      (∀ w, value ≠ .var w) →
      WalkRun subst m right (.var v) →
      ExtendRun subst v value result →
      UnifyRun sharing place subst left right result
  | clash {place : List Part} {subst : Subst} {left right value other : Term} {n m : Nat} :
      WalkRun subst n left value →
      WalkRun subst m right other →
      Term.Clash value other →
      UnifyRun sharing place subst left right none
  | heads {place : List Part} {subst : Subst}
      {left right leftHead leftTail rightHead rightTail : Term} {n m : Nat} :
      WalkRun subst n left (.pair leftHead leftTail) →
      WalkRun subst m right (.pair rightHead rightTail) →
      sharing.identical place (.pair leftHead leftTail) (.pair rightHead rightTail) = false →
      UnifyRun sharing (.head :: place) subst leftHead rightHead none →
      UnifyRun sharing place subst left right none
  | tails {place : List Part} {subst between : Subst}
      {left right leftHead leftTail rightHead rightTail : Term} {n m : Nat}
      {result : Option Subst} :
      WalkRun subst n left (.pair leftHead leftTail) →
      WalkRun subst m right (.pair rightHead rightTail) →
      sharing.identical place (.pair leftHead leftTail) (.pair rightHead rightTail) = false →
      UnifyRun sharing (.head :: place) subst leftHead rightHead (some between) →
      UnifyRun sharing (.tail :: place) between leftTail rightTail result →
      UnifyRun sharing place subst left right result

variable {subst : Subst} {v w : Var} {term value result : Term}

/-! ## Walking -/

theorem WalkRun.count_unique {n m : Nat} {other : Term} (run : WalkRun subst n term result)
    (again : WalkRun subst m term other) : n = m := by
  induction run generalizing m with
  | stop stopped =>
      cases again with
      | stop _ => rfl
      | follow found _ => cases found.symm.trans (stopped _ rfl)
  | follow found _ ih =>
      cases again with
      | stop stopped => cases found.symm.trans (stopped _ rfl)
      | follow foundToo rest =>
          cases found.symm.trans foundToo
          rw [ih rest]

/-- A walk does not stop at a bound variable. -/
theorem WalkRun.lookup_eq_none {count : Nat} (run : WalkRun subst count term (.var v)) :
    subst.lookup v.id = none := by
  generalize ends : Term.var v = result at run
  induction run with
  | stop stopped => exact stopped v ends.symm
  | follow _ _ ih => exact ih ends

theorem WalkRun.result_eq {count : Nat} (run : WalkRun subst count term result)
    (acyclic : subst.Acyclic) : result = subst.walk term := by
  induction run with
  | @stop term stopped =>
      cases term with
      | var v => exact (walk_of_free (stopped v rfl)).symm
      | atom a => rfl
      | pair head tail => rfl
  | follow found _ ih => rw [ih, acyclic.walk_of_lookup found]

/-- The rank of variables goes down along a walk, so that none is met twice. -/
theorem WalkRun.count_le {count limit : Nat} (run : WalkRun subst count term result)
    (acyclic : subst.Acyclic) (below : ∀ id ∈ term.bare.vars, subst.rank id ≤ limit) :
    count ≤ limit := by
  induction run generalizing limit with
  | stop => exact Nat.zero_le _
  | @follow count v value _ found _ ih =>
      have atMost := below v.id (by simp)
      have positive := rank_pos_of_lookup found
      have fewer : count ≤ subst.rank v.id - 1 := by
        apply ih
        intro w member
        have less := acyclic.rank_lt_of_lookup found w member
        omega
      omega

theorem Acyclic.exists_walkRun (acyclic : subst.Acyclic) (term : Term) :
    ∃ count, WalkRun subst count term (subst.walk term) := by
  induction term using acyclic.term_induction with
  | free v free =>
      rw [walk_of_free free]
      exact ⟨0, .stop (by rintro _ ⟨⟩; exact free)⟩
  | bound v value found ih =>
      rcases ih with ⟨count, run⟩
      rw [acyclic.walk_of_lookup found]
      exact ⟨count + 1, .follow found run⟩
  | atom a => exact ⟨0, .stop (by simp)⟩
  | pair head tail => exact ⟨0, .stop (by simp)⟩

theorem Acyclic.exists_walkRun_of_eq (acyclic : subst.Acyclic)
    (walked : subst.walk term = result) : ∃ count, WalkRun subst count term result :=
  walked ▸ acyclic.exists_walkRun term

theorem Acyclic.walkRun_iff (acyclic : subst.Acyclic) (term : Term) :
    ∃ count ≤ subst.size, ∀ n result,
      WalkRun subst n term result ↔ n = count ∧ result = subst.walk term := by
  rcases acyclic.exists_walkRun term with ⟨count, run⟩
  refine ⟨count, run.count_le acyclic fun id _ => subst.rank_le_size id, ?_⟩
  intro n result
  constructor
  · exact fun other => ⟨other.count_unique run, other.result_eq acyclic⟩
  · rintro ⟨rfl, rfl⟩
    exact run

/-! ## Looking for a variable -/

/-- A bound variable is looked into as its value is. -/
theorem OccursRun.follow {found : Bool} (bound : subst.lookup w.id = some value)
    (run : OccursRun subst v value found) : OccursRun subst v (.var w) found := by
  cases run with
  | var walk => exact .var (.follow bound walk)
  | atom walk => exact .atom (.follow bound walk)
  | inHead walk head => exact .inHead (.follow bound walk) head
  | inTail walk head tail => exact .inTail (.follow bound walk) head tail

theorem OccursRun.eq_occurs {found : Bool} (run : OccursRun subst v term found)
    (acyclic : subst.Acyclic) : found = subst.occurs v term := by
  induction run with
  | var walk =>
      rw [← acyclic.occurs_walk, ← walk.result_eq acyclic, occurs_of_free walk.lookup_eq_none]
  | atom walk => rw [← acyclic.occurs_walk, ← walk.result_eq acyclic, occurs_atom]
  | inHead walk _ headIH =>
      rw [← acyclic.occurs_walk, ← walk.result_eq acyclic, occurs_pair, ← headIH, Bool.true_or]
  | inTail walk _ _ headIH tailIH =>
      rw [← acyclic.occurs_walk, ← walk.result_eq acyclic, occurs_pair, ← headIH, ← tailIH,
        Bool.false_or]

theorem Acyclic.exists_occursRun (acyclic : subst.Acyclic) (v : Var) (term : Term) :
    ∃ found, OccursRun subst v term found := by
  induction term using acyclic.term_induction with
  | free w free => exact ⟨_, .var (.stop (by rintro _ ⟨⟩; exact free))⟩
  | bound w value bound ih =>
      rcases ih with ⟨found, run⟩
      exact ⟨found, run.follow bound⟩
  | atom a => exact ⟨false, .atom (.stop (by simp))⟩
  | pair head tail headIH tailIH =>
      rcases headIH with ⟨found, headRun⟩
      rcases tailIH with ⟨later, tailRun⟩
      -- There is a run for the tail in any case, but it is part of this one only if it is needed.
      cases found with
      | true => exact ⟨true, .inHead (.stop (by simp)) headRun⟩
      | false => exact ⟨later, .inTail (.stop (by simp)) headRun tailRun⟩

theorem Acyclic.occursRun_iff (acyclic : subst.Acyclic) (v : Var) (term : Term) (found : Bool) :
    OccursRun subst v term found ↔ found = subst.occurs v term := by
  constructor
  · exact fun run => run.eq_occurs acyclic
  · rintro rfl
    rcases acyclic.exists_occursRun v term with ⟨found, run⟩
    rwa [run.eq_occurs acyclic] at run

/-! ## Resolving -/

/-- A bound variable is resolved as its value is. -/
theorem ResolveRun.follow (bound : subst.lookup v.id = some value)
    (run : ResolveRun subst value result) : ResolveRun subst (.var v) result := by
  cases run with
  | var walk => exact .var (.follow bound walk)
  | atom walk => exact .atom (.follow bound walk)
  | pair walk head tail => exact .pair (.follow bound walk) head tail

theorem ResolveRun.eq_resolve (run : ResolveRun subst term result) (acyclic : subst.Acyclic) :
    result = subst.resolve term := by
  induction run with
  | var walk =>
      rw [← acyclic.resolve_walk, ← walk.result_eq acyclic, resolve_of_free walk.lookup_eq_none]
  | atom walk => rw [← acyclic.resolve_walk, ← walk.result_eq acyclic, resolve_atom]
  | pair walk _ _ headIH tailIH =>
      rw [← acyclic.resolve_walk, ← walk.result_eq acyclic, resolve_pair, headIH, tailIH]

theorem Acyclic.resolveRun (acyclic : subst.Acyclic) (term : Term) :
    ResolveRun subst term (subst.resolve term) := by
  induction term using acyclic.term_induction with
  | free v free =>
      rw [resolve_of_free free]
      exact .var (.stop (by rintro _ ⟨⟩; exact free))
  | bound v value bound ih =>
      rw [acyclic.resolve_of_lookup bound]
      exact ih.follow bound
  | atom a =>
      rw [resolve_atom]
      exact .atom (.stop (by simp))
  | pair head tail headIH tailIH =>
      rw [resolve_pair]
      exact .pair (.stop (by simp)) headIH tailIH

theorem Acyclic.resolveRun_iff (acyclic : subst.Acyclic) (term result : Term) :
    ResolveRun subst term result ↔ result = subst.resolve term := by
  constructor
  · exact fun run => run.eq_resolve acyclic
  · rintro rfl
    exact acyclic.resolveRun term

/-- Paths along bindings end if they end from where a walk leads to. -/
theorem WalkRun.acc {count : Nat} (run : WalkRun subst count term result)
    (ends : ∀ id ∈ result.bare.vars, Acc (flip subst.Leads) id) :
    ∀ id ∈ term.bare.vars, Acc (flip subst.Leads) id := by
  induction run with
  | stop => exact ends
  | follow found _ ih =>
      intro w member
      cases Term.mem_vars_var.mp member
      constructor
      rintro u ⟨other, foundToo, inside⟩
      cases found.symm.trans foundToo
      exact ih ends u inside

/-- Paths along bindings end from a term that is resolved. -/
theorem ResolveRun.acc (run : ResolveRun subst term result) :
    ∀ id ∈ term.bare.vars, Acc (flip subst.Leads) id := by
  induction run with
  | var walk =>
      apply walk.acc
      intro w member
      cases Term.mem_vars_var.mp member
      constructor
      rintro u ⟨value, found, _⟩
      cases walk.lookup_eq_none.symm.trans found
  | atom walk => exact walk.acc (by simp)
  | pair walk _ _ headIH tailIH =>
      apply walk.acc
      intro w member
      cases Term.mem_vars_pair.mp member with
      | inl inHead => exact headIH w inHead
      | inr inTail => exact tailIH w inTail

/-- A substitution is acyclic exactly if resolving ends for every variable. -/
theorem acyclic_iff_resolveRun :
    subst.Acyclic ↔ ∀ v, ∃ result, ResolveRun subst (.var v) result := by
  constructor
  · exact fun acyclic v => ⟨_, acyclic.resolveRun (.var v)⟩
  · intro ends id cycle
    have founded : WellFounded (flip subst.Leads) := by
      constructor
      intro other
      have ⟨_, run⟩ := ends ⟨other, ""⟩
      exact run.acc other (by simp)
    have back : Relation.TransGen (flip subst.Leads) id id := Relation.transGen_swap.mpr cycle
    exact founded.transGen.irrefl.irrefl id back

/-! ## Extending -/

theorem Acyclic.extendRun_iff (acyclic : subst.Acyclic) (v : Var) (value : Term)
    (result : Option Subst) : ExtendRun subst v value result ↔ result = subst.extend v value := by
  constructor
  · intro run
    cases run with
    | refuse occurs => simp [Subst.extend, ← occurs.eq_occurs acyclic]
    | bind apart => simp [Subst.extend, ← apart.eq_occurs acyclic]
  · rintro rfl
    have run := (acyclic.occursRun_iff v value _).mpr rfl
    cases occurs : subst.occurs v value with
    | true =>
        rw [occurs] at run
        simpa [Subst.extend, occurs] using ExtendRun.refuse run
    | false =>
        rw [occurs] at run
        simpa [Subst.extend, occurs] using ExtendRun.bind run

/-! ## Unifying -/

variable {sharing : Sharing} {place : List Part} {left right : Term} {ends : Option Subst}

/-- A run of unification ends as the plain rules say. -/
theorem UnifyRun.unifying (run : UnifyRun sharing place subst left right ends)
    (acyclic : subst.Acyclic) : Unifying subst left right ends := by
  induction run with
  | identical walkLeft walkRight same =>
      have run := acyclic.unifying_same (Sharing.bare_eq_of_identical same)
      rw [walkLeft.result_eq acyclic, walkRight.result_eq acyclic] at run
      exact run.of_walk (acyclic.walk_walk _).symm (acyclic.walk_walk _).symm
  | bindLeft walkLeft walkRight different extended =>
      cases walkRight.result_eq acyclic
      cases (acyclic.extendRun_iff _ _ _).mp extended
      apply Unifying.bindLeft (walkLeft.result_eq acyclic).symm
      intro same
      obtain ⟨w, walked, identities⟩ := Term.bare_eq_var_iff.mp same
      simp [walked, Sharing.identical, Var.same, identities] at different
  | bindRight walkLeft noVar walkRight extended =>
      cases walkLeft.result_eq acyclic
      cases (acyclic.extendRun_iff _ _ _).mp extended
      exact .bindRight noVar (walkRight.result_eq acyclic).symm
  | clash walkLeft walkRight clash =>
      cases walkLeft.result_eq acyclic
      cases walkRight.result_eq acyclic
      exact .clash clash
  | heads walkLeft walkRight _ _ headIH =>
      exact .heads (walkLeft.result_eq acyclic).symm (walkRight.result_eq acyclic).symm
        (headIH acyclic)
  | tails walkLeft walkRight _ _ _ headIH tailIH =>
      have headRun := headIH acyclic
      exact .tails (walkLeft.result_eq acyclic).symm (walkRight.result_eq acyclic).symm
        headRun (tailIH (headRun.acyclic acyclic))

/-- Two pairs that are passed over are the same, and by the plain rules nothing is bound in them. -/
theorem Unifying.eq_of_known {leftHead leftTail rightHead rightTail : Term}
    (run : Unifying subst left right ends) (acyclic : subst.Acyclic)
    (walkLeft : subst.walk left = .pair leftHead leftTail)
    (walkRight : subst.walk right = .pair rightHead rightTail)
    (same : sharing.identical place (.pair leftHead leftTail) (.pair rightHead rightTail) = true) :
    ends = some subst := by
  have plain := acyclic.unifying_same (Sharing.bare_eq_of_identical same)
  exact run.unique (plain.of_walk walkLeft walkRight)

/-- Where the plain rules end, a run of unification ends too. -/
theorem Unifying.unifyRun (run : Unifying subst left right ends) (acyclic : subst.Acyclic)
    (sharing : Sharing) (place : List Part) : UnifyRun sharing place subst left right ends := by
  induction run generalizing place with
  | sameVar walkLeft walkRight same =>
      obtain ⟨_, leftRun⟩ := acyclic.exists_walkRun_of_eq walkLeft
      obtain ⟨_, rightRun⟩ := acyclic.exists_walkRun_of_eq walkRight
      exact .identical leftRun rightRun (by simp [Sharing.identical, Var.same, same])
  | sameAtom walkLeft walkRight =>
      obtain ⟨_, leftRun⟩ := acyclic.exists_walkRun_of_eq walkLeft
      obtain ⟨_, rightRun⟩ := acyclic.exists_walkRun_of_eq walkRight
      exact .identical leftRun rightRun (by simp [Sharing.identical])
  | @bindLeft subst left right v walkLeft different =>
      obtain ⟨_, leftRun⟩ := acyclic.exists_walkRun_of_eq walkLeft
      obtain ⟨_, rightRun⟩ := acyclic.exists_walkRun right
      have unlike : sharing.identical place (.var v) (subst.walk right) = false := by
        apply Bool.eq_false_iff.mpr
        exact fun same => different (Sharing.bare_eq_of_identical same).symm
      exact .bindLeft leftRun rightRun unlike ((acyclic.extendRun_iff _ _ _).mpr rfl)
  | @bindRight subst left right v noVar walkRight =>
      obtain ⟨_, leftRun⟩ := acyclic.exists_walkRun left
      obtain ⟨_, rightRun⟩ := acyclic.exists_walkRun_of_eq walkRight
      exact .bindRight leftRun noVar rightRun ((acyclic.extendRun_iff _ _ _).mpr rfl)
  | @clash subst left right clash =>
      obtain ⟨_, leftRun⟩ := acyclic.exists_walkRun left
      obtain ⟨_, rightRun⟩ := acyclic.exists_walkRun right
      exact .clash leftRun rightRun clash
  | @heads subst left right leftHead leftTail rightHead rightTail walkLeft walkRight headRun
      headIH =>
      obtain ⟨_, leftRun⟩ := acyclic.exists_walkRun_of_eq walkLeft
      obtain ⟨_, rightRun⟩ := acyclic.exists_walkRun_of_eq walkRight
      have whole := Unifying.heads walkLeft walkRight headRun
      cases same :
        sharing.identical place (.pair leftHead leftTail) (.pair rightHead rightTail) with
      | true => cases whole.eq_of_known acyclic walkLeft walkRight same
      | false => exact .heads leftRun rightRun same (headIH acyclic _)
  | @tails subst between left right leftHead leftTail rightHead rightTail ends walkLeft walkRight
      headRun tailRun headIH tailIH =>
      obtain ⟨_, leftRun⟩ := acyclic.exists_walkRun_of_eq walkLeft
      obtain ⟨_, rightRun⟩ := acyclic.exists_walkRun_of_eq walkRight
      have whole := Unifying.tails walkLeft walkRight headRun tailRun
      cases same :
        sharing.identical place (.pair leftHead leftTail) (.pair rightHead rightTail) with
      | true =>
          cases whole.eq_of_known acyclic walkLeft walkRight same
          exact .identical leftRun rightRun same
      | false =>
          exact .tails leftRun rightRun same (headIH acyclic _)
            (tailIH (headRun.acyclic acyclic) _)

theorem Acyclic.unifyRun_iff (acyclic : subst.Acyclic) (sharing : Sharing) (place : List Part)
    (left right : Term) (ends : Option Subst) :
    UnifyRun sharing place subst left right ends ↔ ends = unify left right subst := by
  constructor
  · exact fun run => (acyclic.unifyWith_eq .vars (run.unifying acyclic)).symm
  · rintro rfl
    exact (acyclic.unifying_unifyWith .vars left right).unifyRun acyclic sharing place

/-- Under an acyclic substitution the term algorithms end, and what the definitions compute is
what they come to. The walk of a term follows at most as many bindings as there are; the runs of
`occurs`, `resolve` and `extend` end, and so does every run of `unify`, whatever it knows to be
one pair where two pairs meet. -/
theorem term_algorithms_terminate (acyclic : subst.Acyclic) :
    (∀ term, ∃ count ≤ subst.size, ∀ n result,
      WalkRun subst n term result ↔ n = count ∧ result = subst.walk term) ∧
    (∀ v term found, OccursRun subst v term found ↔ found = subst.occurs v term) ∧
    (∀ term result, ResolveRun subst term result ↔ result = subst.resolve term) ∧
    (∀ v term result, ExtendRun subst v term result ↔ result = subst.extend v term) ∧
    ∀ sharing place left right result,
      UnifyRun sharing place subst left right result ↔ result = unify left right subst :=
  ⟨acyclic.walkRun_iff, acyclic.occursRun_iff, acyclic.resolveRun_iff, acyclic.extendRun_iff,
    acyclic.unifyRun_iff⟩

/-- The older of two bindings of `x` is `y`, which is bound to `(x . a)`, but only the newer one
counts, and it leads nowhere. -/
theorem term_algorithms_terminate_shadowed :
    let x : Var := ⟨0, "x"⟩
    let y : Var := ⟨1, "y"⟩
    let z : Var := ⟨2, "z"⟩
    let a : Term := .symbol "a"
    let b : Term := .symbol "b"
    let chain := ((empty.bind x (.var y)).bind x b).bind y (.pair (.var x) a)
    chain.Acyclic ∧ (∃ count ≤ 3, WalkRun chain count (.var y) (.pair (.var x) a)) ∧
      OccursRun chain z (.var y) false ∧ ResolveRun chain (.var y) (.pair b a) ∧
      ExtendRun chain z (.var y) (some (chain.bind z (.var y))) ∧
      UnifyRun .never [] chain (.pair (.var y) (.var z)) (.pair (.pair b (.var z)) (.var x)) none ∧
      UnifyRun .never [] chain (.pair (.var y) (.var z)) (.pair (.pair b a) (.var y))
        (some (chain.bind z (.pair (.var x) a))) := by
  intro x y z a b chain
  have acyclic : chain.Acyclic := by
    apply acyclic_of_decreasing fun id => if id = y.id then 1 else 0
    rintro id other ⟨value, found, member⟩
    simp only [chain, lookup_bind, lookup_empty] at found
    split at found
    next isY =>
      cases found
      have isX : other = x.id := by simpa [a, Term.symbol] using member
      subst isY isX
      decide
    next =>
      split at found
      next => cases found; cases member
      next => cases found
  rcases term_algorithms_terminate acyclic with ⟨walks, occurs, resolves, extended, unifies⟩
  rcases walks (.var y) with ⟨count, within, walk⟩
  exact ⟨acyclic, ⟨count, within, (walk _ _).mpr ⟨rfl, by decide⟩⟩, (occurs ..).mpr (by decide),
    (resolves ..).mpr (by decide), (extended ..).mpr (by decide), (unifies ..).mpr (by decide),
    (unifies ..).mpr (by decide)⟩

end Subst

end Horn
