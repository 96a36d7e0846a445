import Horn.Subst

/-!
# Unification

Two terms are unified by binding variables of a given substitution. A variable
is bound to whatever stands on the other side, the left one first, and pairs are
unified head before tail, the tails under the bindings that the heads made.

Two terms known to be the same need no look inside. `Sharing` is any knowledge of
that kind, and it is asked before and after bindings are followed; how much is
known decides only how much work is done.
-/

namespace Horn

/-- The part of a pair that is entered. -/
inductive Part where
  | head
  | tail
  deriving DecidableEq

/-- Knowledge that two terms are the same, at the place where they meet: the parts
entered on the way there, the last one first. What is known is true, and it may
differ from place to place, as when only some equal terms are one object. -/
structure Sharing where
  known : List Part → Term → Term → Bool
  bare_eq_of_known : ∀ {place : List Part} {left right : Term},
    known place left right = true → left.bare = right.bare

namespace Sharing

def never : Sharing :=
  ⟨fun _ _ _ => false, fun known => nomatch known⟩

/-- Terms that are the same are always known to be. -/
def structural : Sharing :=
  ⟨fun _ => Term.same, Term.same_iff.mp⟩

/-- Whether both terms are one variable. -/
def sameVar : Term → Term → Bool
  | .var v, .var w => v.same w
  | _, _ => false

theorem bare_eq_of_sameVar {left right : Term} (same : sameVar left right = true) :
    left.bare = right.bare := by
  cases left <;> cases right <;> simp_all [sameVar, Var.same]

/-- A variable that meets itself is known to be the same, whatever it is bound to.
This costs nothing to find out, and it is enough to pass over structure that two
terms share through variables. -/
def vars : Sharing :=
  ⟨fun _ => sameVar, bare_eq_of_sameVar⟩

end Sharing

namespace Subst

/-- Unify what meets at a place, along paths of at most `depth` pairs. -/
def unifyWithin (sharing : Sharing) :
    Nat → List Part → Term → Term → Subst → Option Subst
  | 0, _, _, _, _ => none
  | depth + 1, place, left, right, subst =>
      if sharing.known place left right then
        some subst
      else
        match subst.walk left, subst.walk right with
        | .var v, .var w => if v.same w then some subst else subst.extend v (.var w)
        | .var v, value => subst.extend v value
        | value, .var w => subst.extend w value
        | .atom a, .atom b => if a = b then some subst else none
        | .pair leftHead leftTail, .pair rightHead rightTail =>
            if sharing.known place (.pair leftHead leftTail) (.pair rightHead rightTail) then
              some subst
            else
              match unifyWithin sharing depth (.head :: place) leftHead rightHead subst with
              | some unified =>
                  unifyWithin sharing depth (.tail :: place) leftTail rightTail unified
              | none => none
        | _, _ => none

/-- A number of pairs that no path through the two terms exceeds, along bindings
that are in the chain already or are made on the way: there are at most as many
new bindings as there are nodes, and the value of each is part of what is there. -/
def unifyDepth (left right : Term) (subst : Subst) : Nat :=
  let nodes := subst.weight + left.size + right.size + 1
  nodes * nodes * nodes

/-- Unify with some knowledge of which terms are equal. -/
def unifyWith (sharing : Sharing) (left right : Term) (subst : Subst) : Option Subst :=
  unifyWithin sharing (unifyDepth left right subst) [] left right subst

/-- The substitution that makes the two terms equal by binding as little as it
can, or `none` if no binding of variables makes them equal. -/
def unify (left right : Term) (subst : Subst) : Option Subst :=
  unifyWith .vars left right subst

end Subst

end Horn
