import Horn.Proofs.MostGeneral

/-!
# Shared terms

To know that two terms are the same saves unification a look inside them. It changes nothing
else: `unification_ignores_sharing` says that the result is always the one that the rules of
`Subst.Unifying` lead to, which know of no shared terms and take all pairs apart, heads
before tails. The side that is bound, the order of the bindings and an early failure are part
of the result.

The rules lead to one result only, since they can be followed by computing with nothing
known. That passing over such terms is right is `Acyclic.unifying_same`: to unify a term
with itself by the rules binds nothing, whatever its variables stand for.
-/

namespace Horn

@[simp] theorem Sharing.known_never (place : List Part) (left right : Term) :
    never.known place left right = false := rfl

namespace Subst

variable {subst : Subst} {left right : Term} {result other : Option Subst}

/-- Where nothing is known, unification at a great enough depth ends as the rules say. -/
theorem Unifying.exists_depth (run : Unifying subst left right result) :
    ∃ enough, ∀ depth, enough ≤ depth → ∀ place,
      unifyWithin .never (depth + 1) place left right subst = result := by
  induction run with
  | sameVar walkLeft walkRight same =>
      exact ⟨0, by simp [unifyWithin, walkLeft, walkRight, Var.same, same]⟩
  | sameAtom walkLeft walkRight => exact ⟨0, by simp [unifyWithin, walkLeft, walkRight]⟩
  | @bindLeft subst _ right v walkLeft different =>
      refine ⟨0, ?_⟩
      intro depth _ place
      cases walkRight : subst.walk right with
      | var w =>
          have apart : v.id ≠ w.id := by
            intro same
            rw [walkRight, Term.bare_var, same] at different
            exact different rfl
          simp [unifyWithin, walkLeft, walkRight, Var.same, apart]
      | atom a => simp [unifyWithin, walkLeft, walkRight]
      | pair head tail => simp [unifyWithin, walkLeft, walkRight]
  | @bindRight subst left _ v noVar walkRight =>
      refine ⟨0, ?_⟩
      intro depth _ place
      cases walkLeft : subst.walk left with
      | var w => exact absurd walkLeft (noVar w)
      | atom a => simp [unifyWithin, walkLeft, walkRight]
      | pair head tail => simp [unifyWithin, walkLeft, walkRight]
  | @clash subst left right clash =>
      refine ⟨0, ?_⟩
      intro depth _ place
      cases walkLeft : subst.walk left <;> cases walkRight : subst.walk right <;>
        rw [walkLeft, walkRight] at clash <;> cases clash
      next different => simp [unifyWithin, walkLeft, walkRight, different]
      next => simp [unifyWithin, walkLeft, walkRight]
      next => simp [unifyWithin, walkLeft, walkRight]
  | heads walkLeft walkRight _ headIH =>
      rcases headIH with ⟨enough, heads⟩
      refine ⟨enough + 1, ?_⟩
      intro depth deeper place
      cases depth with
      | zero => cases deeper
      | succ depth =>
          have headEnds := heads depth (Nat.le_of_succ_le_succ deeper) (.head :: place)
          rw [unifyWithin]
          simp [walkLeft, walkRight, headEnds]
  | tails walkLeft walkRight _ _ headIH tailIH =>
      rcases headIH with ⟨enough, heads⟩
      rcases tailIH with ⟨further, tails⟩
      refine ⟨max enough further + 1, ?_⟩
      intro depth deeper place
      cases depth with
      | zero => cases deeper
      | succ depth =>
          have both := Nat.le_of_succ_le_succ deeper
          have headEnds := heads depth ((Nat.le_max_left ..).trans both) (.head :: place)
          have tailEnds := tails depth ((Nat.le_max_right ..).trans both) (.tail :: place)
          rw [unifyWithin]
          simp [walkLeft, walkRight, headEnds, tailEnds]

/-- The rules lead to one result. -/
theorem Unifying.unique (run : Unifying subst left right result)
    (again : Unifying subst left right other) : result = other := by
  rcases run.exists_depth with ⟨enough, ends⟩
  rcases again.exists_depth with ⟨further, endsToo⟩
  have first := ends (max enough further) (Nat.le_max_left ..) []
  have second := endsToo (max enough further) (Nat.le_max_right ..) []
  exact first.symm.trans second

/-- Unification computes what the rules lead to. -/
theorem Acyclic.unifyWith_eq (acyclic : subst.Acyclic) (sharing : Sharing)
    (run : Unifying subst left right result) : unifyWith sharing left right subst = result :=
  (acyclic.unifying_unifyWith sharing left right).unique run

/-- Under an acyclic substitution unification ends with the result that the plain rules lead
to, whatever is known to be shared: it fails if they fail, and otherwise it makes the same
bindings in the same order. So it makes no difference what is known. -/
theorem unification_ignores_sharing (acyclic : subst.Acyclic) (sharing : Sharing)
    (left right : Term) :
    (∀ result, unifyWith sharing left right subst = result ↔
      Unifying subst left right result) ∧
    ∀ other : Sharing,
      unifyWith sharing left right subst = unifyWith other left right subst := by
  have run := acyclic.unifying_unifyWith sharing left right
  constructor
  · intro result
    constructor
    · rintro rfl
      exact run
    · exact fun plain => acyclic.unifyWith_eq sharing plain
  · intro other
    exact (acyclic.unifyWith_eq other run).symm

/-- With `x` bound to `y`, the heads of `((x . a) . (y . z))` and `((x . a) . (z . x))` are
known to be one pair, and no other terms are. Unification passes over the heads and binds `y`
to `z`, as the rules do that look into them. -/
theorem unification_ignores_sharing_heads :
    let x : Var := ⟨0, "x"⟩
    let y : Var := ⟨1, "y"⟩
    let z : Var := ⟨2, "z"⟩
    let chain := empty.bind x (.var y)
    let shared := Term.pair (.var x) (.symbol "a")
    let left := Term.pair shared (.pair (.var y) (.var z))
    let right := Term.pair shared (.pair (.var z) (.var x))
    let heads : Sharing := ⟨fun place left right => place = [.head] && left = right,
      fun known => congrArg Term.bare (of_decide_eq_true (Bool.and_eq_true_iff.mp known).2)⟩
    let unified := some (chain.bind y (.var z))
    chain.Acyclic ∧ heads.known [.head] shared shared ∧ unifyWith heads left right chain = unified ∧
      Unifying chain left right unified ∧ unifyWith .never left right chain = unified := by
  intro x y z chain shared left right heads unified
  have acyclic : chain.Acyclic := acyclic_empty.bind rfl (by decide)
  have unifies : unifyWith heads left right chain = unified := by decide
  have plain := unification_ignores_sharing acyclic heads left right
  exact ⟨acyclic, by decide, unifies, (plain.1 unified).mp unifies,
    (plain.2 .never).symm.trans unifies⟩

end Subst

end Horn
