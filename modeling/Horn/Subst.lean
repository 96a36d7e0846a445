import Horn.Term

/-!
# Substitutions

A substitution is a chain of bindings, newest first. A value may mention
variables that are bound elsewhere in the chain: nothing is rewritten when a
binding is added, and `walk`, `occurs` and `resolve` follow bindings on demand.
Variables are looked up by their identities.

Following bindings is counted. In a chain where no variable reaches itself, a
path follows each variable at most once, so as many steps as there are bindings
always suffice.
-/

namespace Horn

/-- A variable and what it stands for. -/
structure Binding where
  var : Var
  value : Term
  deriving DecidableEq

/-- The number of nodes in the values of bindings, each bound variable counted as
one more. -/
def Binding.weights : List Binding → Nat
  | [] => 0
  | binding :: rest => binding.value.size + 1 + Binding.weights rest

/-- A chain of bindings, newest first. How many bindings there are, and how many
nodes they have, is kept with the chain: both bound the work of following it. -/
structure Subst where
  bindings : List Binding
  size : Nat
  weight : Nat
  size_eq : size = bindings.length
  weight_eq : weight = Binding.weights bindings

namespace Subst

/-- A substitution is determined by its bindings. -/
@[ext] theorem ext {left right : Subst} (same : left.bindings = right.bindings) :
    left = right := by
  cases left with
  | mk bindings size weight size_eq weight_eq =>
      cases right with
      | mk bindings' size' weight' size_eq' weight_eq' =>
          cases same
          subst size_eq weight_eq size_eq' weight_eq'
          rfl

instance : DecidableEq Subst := fun left right =>
  if same : left.bindings = right.bindings then
    .isTrue (ext same)
  else
    .isFalse fun equal => same (congrArg Subst.bindings equal)

/-- The substitution with the given bindings, the newest first. -/
def ofBindings (bindings : List Binding) : Subst :=
  ⟨bindings, bindings.length, Binding.weights bindings, rfl, rfl⟩

@[simp] theorem bindings_ofBindings (bindings : List Binding) :
    (ofBindings bindings).bindings = bindings := rfl

@[simp] theorem ofBindings_bindings (subst : Subst) : ofBindings subst.bindings = subst :=
  ext rfl

/-- Nothing is bound. -/
def empty : Subst :=
  ofBindings []

/-- Whether nothing is bound. -/
def isEmpty (subst : Subst) : Bool :=
  subst.bindings.isEmpty

/-- Put a binding in front of the chain. -/
def bind (subst : Subst) (v : Var) (value : Term) : Subst where
  bindings := ⟨v, value⟩ :: subst.bindings
  size := subst.size + 1
  weight := value.size + 1 + subst.weight
  size_eq := by simp [subst.size_eq]
  weight_eq := by simp [Binding.weights, subst.weight_eq]

@[simp] theorem bindings_bind (subst : Subst) (v : Var) (value : Term) :
    (subst.bind v value).bindings = ⟨v, value⟩ :: subst.bindings := rfl

@[simp] theorem size_bind (subst : Subst) (v : Var) (value : Term) :
    (subst.bind v value).size = subst.size + 1 := rfl

/-- The value in the newest binding of the variable of an identity. -/
def lookup (subst : Subst) (id : Nat) : Option Term :=
  (subst.bindings.find? fun binding => binding.var.id = id).map Binding.value

@[simp] theorem lookup_empty (id : Nat) : empty.lookup id = none := rfl

/-- A new binding hides the older ones of its variable and no others. -/
theorem lookup_bind (subst : Subst) (v : Var) (value : Term) (other : Nat) :
    (subst.bind v value).lookup other =
      if v.id = other then some value else subst.lookup other := by
  by_cases same : v.id = other <;> simp [bind, lookup, same]

/-- Follow at most `steps` bindings from a variable. -/
def walkWithin (subst : Subst) : Nat → Term → Term
  | steps + 1, .var v =>
      match subst.lookup v.id with
      | some value => subst.walkWithin steps value
      | none => .var v
  | _, term => term

/-- The term, with bindings followed for as long as it is a bound variable. -/
def walk (subst : Subst) : Term → Term
  | .var v => subst.walkWithin subst.size (.var v)
  | term => term

@[simp] theorem walk_atom (subst : Subst) (a : Atom) :
    subst.walk (.atom a) = .atom a := rfl

@[simp] theorem walk_pair (subst : Subst) (head tail : Term) :
    subst.walk (.pair head tail) = .pair head tail := rfl

/-- Whether `v` is reached from the term along at most `steps` bindings. -/
def occursWithin (subst : Subst) (v : Var) : Nat → Term → Bool
  | 0, term => term.anyVar fun other => other.same v
  | steps + 1, term =>
      term.anyVar fun other =>
        match subst.lookup other.id with
        | some value => subst.occursWithin v steps value
        | none => other.same v

/-- Whether `v` is part of the term once bindings are followed. -/
def occurs (subst : Subst) (v : Var) (term : Term) : Bool :=
  subst.occursWithin v subst.size term

/-- Replace bound variables along at most `steps` bindings. -/
def resolveWithin (subst : Subst) : Nat → Term → Term
  | 0, term => term
  | steps + 1, term =>
      term.instantiate fun v =>
        match subst.lookup v.id with
        | some value => subst.resolveWithin steps value
        | none => .var v

/-- The term with every bound variable replaced, all the way down. -/
def resolve (subst : Subst) (term : Term) : Term :=
  subst.resolveWithin subst.size term

/-- Bind a variable, unless it would become part of its own value. -/
def extend (subst : Subst) (v : Var) (value : Term) : Option Subst :=
  if subst.occurs v value then none else some (subst.bind v value)

theorem extend_eq_some_iff {subst extended : Subst} {v : Var} {value : Term} :
    subst.extend v value = some extended ↔
      subst.occurs v value = false ∧ extended = subst.bind v value := by
  cases occurrence : subst.occurs v value <;> simp [extend, occurrence, eq_comm]

end Subst

end Horn
