/-!
# Terms

The first-order terms that facts, rules and goals are made of: variables, atoms
and pairs. A compound such as `parent(alice, X)` is a chain of pairs ending in
the empty marker, so terms need no arity and no separate argument lists.

Variables are compared by their identities and never by their names. `Term.bare`
leaves the names out, so that two terms are the same exactly if their bare terms
are equal (`Term.same_iff`).

`Term.chain_spine` says that a term is the chain of its spine, which is how
lists are read back out of pairs. `Term.instantiate_instantiate` composes maps
from variables to terms.
-/

namespace Horn

/-- A logic variable. The identity tells variables apart and the name is what
they are shown by. -/
structure Var where
  id : Nat
  name : String
  deriving DecidableEq

/-- Whether two variables are the same one, whatever they are called. -/
def Var.same (v w : Var) : Bool :=
  v.id = w.id

/-- A leaf without variables. Matching asks only whether two atoms are equal, so
a symbol and a text of one spelling stay apart. -/
inductive Atom where
  | nil
  | symbol (name : String)
  | integer (value : Int)
  | text (content : String)
  deriving DecidableEq

/-- A variable, an atom, or a pair of terms. In a bare term a variable is an identity. -/
inductive Term (V : Type := Var) where
  | var (v : V)
  | atom (a : Atom)
  | pair (head tail : Term V)
  deriving DecidableEq

namespace Term

variable {V W U : Type}

/-- The outermost shape of a term. -/
inductive Kind where
  | var
  | atom
  | pair
  deriving DecidableEq

/-- The empty marker, which ends a proper list. -/
abbrev nil : Term := .atom .nil

/-- A bare name. -/
abbrev symbol (name : String) : Term := .atom (.symbol name)

/-- An integer constant. -/
abbrev integer (value : Int) : Term := .atom (.integer value)

/-- A text constant, distinct from the symbol of the same spelling. -/
abbrev text (content : String) : Term := .atom (.text content)

/-- The items paired one after another onto `tail`. -/
def chain (items : List Term) (tail : Term) : Term :=
  items.foldr .pair tail

@[simp] theorem chain_nil (tail : Term) : chain [] tail = tail := rfl

@[simp] theorem chain_cons (item : Term) (items : List Term) (tail : Term) :
    chain (item :: items) tail = .pair item (chain items tail) := rfl

/-- The proper list of the items. -/
def list (items : List Term) : Term :=
  chain items nil

/-- A functor applied to arguments, as the list that starts with its symbol. -/
def compound (functor : String) (arguments : List Term) : Term :=
  list (symbol functor :: arguments)

/-- The heads along the tails of a term, and what the last tail is. -/
def spine : Term → List Term × Term
  | .pair head tail => (head :: tail.spine.1, tail.spine.2)
  | leaf => ([], leaf)

/-- A term is the chain of its spine. -/
@[simp] theorem chain_spine (term : Term) : chain term.spine.1 term.spine.2 = term := by
  induction term with
  | var v => rfl
  | atom a => rfl
  | pair head tail _ ih => simp [spine, ih]

/-- Which constructor is outermost. -/
def kind : Term V → Kind
  | .var _ => .var
  | .atom _ => .atom
  | .pair _ _ => .pair

/-- The variable, of a term that is one. -/
def var? : Term V → Option V
  | .var v => some v
  | _ => none

/-- Whether the term is a variable. -/
def isVar (term : Term V) : Bool :=
  term.var?.isSome

theorem var?_eq_some_iff {term : Term V} {v : V} : term.var? = some v ↔ term = .var v := by
  cases term <;> simp [var?]

/-- The number of nodes. -/
def size : Term V → Nat
  | .pair head tail => head.size + tail.size + 1
  | _ => 1

theorem size_pos (term : Term V) : 0 < term.size := by
  cases term <;> simp [size]

/-- Every occurrence of a variable, from left to right. -/
def vars : Term V → List V
  | .var v => [v]
  | .atom _ => []
  | .pair head tail => head.vars ++ tail.vars

/-- Whether some variable of the term passes the test. -/
def anyVar (test : V → Bool) : Term V → Bool
  | .var v => test v
  | .atom _ => false
  | .pair head tail => head.anyVar test || tail.anyVar test

theorem anyVar_eq_any_vars (test : V → Bool) (term : Term V) :
    term.anyVar test = term.vars.any test := by
  induction term with
  | var v => simp [anyVar, vars]
  | atom a => rfl
  | pair head tail headIH tailIH => simp [anyVar, vars, headIH, tailIH]

/-- The term with every variable replaced by its image. -/
def instantiate (image : V → Term W) : Term V → Term W
  | .var v => image v
  | .atom a => .atom a
  | .pair head tail => .pair (head.instantiate image) (tail.instantiate image)

@[simp] theorem instantiate_var (image : V → Term W) (v : V) :
    (Term.var v).instantiate image = image v := rfl

@[simp] theorem instantiate_atom (image : V → Term W) (a : Atom) :
    (Term.atom a).instantiate image = .atom a := rfl

@[simp] theorem instantiate_pair (image : V → Term W) (head tail : Term V) :
    (Term.pair head tail).instantiate image =
      .pair (head.instantiate image) (tail.instantiate image) := rfl

/-- Replacing every variable by itself changes nothing. -/
@[simp] theorem instantiate_self (term : Term V) : term.instantiate .var = term := by
  induction term with
  | var v => rfl
  | atom a => rfl
  | pair head tail headIH tailIH => simp [headIH, tailIH]

/-- Two replacements in a row are one. -/
theorem instantiate_instantiate (first : V → Term W) (second : W → Term U) (term : Term V) :
    (term.instantiate first).instantiate second =
      term.instantiate fun v => (first v).instantiate second := by
  induction term with
  | var v => rfl
  | atom a => rfl
  | pair head tail headIH tailIH => simp [headIH, tailIH]

/-- Only the images of variables that occur matter. -/
theorem instantiate_congr {first second : V → Term W} {term : Term V}
    (agree : ∀ v ∈ term.vars, first v = second v) :
    term.instantiate first = term.instantiate second := by
  induction term with
  | var v => exact agree v (by simp [vars])
  | atom a => rfl
  | pair head tail headIH tailIH =>
      simp only [instantiate_pair]
      rw [headIH fun v member => agree v (by simp [vars, member]),
        tailIH fun v member => agree v (by simp [vars, member])]

/-! ## Bare terms -/

/-- The term without the names of its variables. -/
def bare (term : Term) : Term Nat :=
  term.instantiate fun v => .var v.id

@[simp] theorem bare_var (v : Var) : (Term.var v).bare = .var v.id := rfl

@[simp] theorem bare_atom (a : Atom) : (Term.atom a).bare = .atom a := rfl

@[simp] theorem bare_pair (head tail : Term) :
    (Term.pair head tail).bare = .pair head.bare tail.bare := rfl

theorem bare_eq_var_iff {term : Term} {id : Nat} :
    term.bare = .var id ↔ ∃ v : Var, term = .var v ∧ v.id = id := by
  cases term <;> simp

theorem bare_eq_atom_iff {term : Term} {a : Atom} : term.bare = .atom a ↔ term = .atom a := by
  cases term <;> simp

theorem bare_eq_pair_iff {term : Term} {head tail : Term Nat} :
    term.bare = .pair head tail ↔
      ∃ first second : Term, term = .pair first second ∧ first.bare = head ∧
        second.bare = tail := by
  cases term with
  | var v => simp
  | atom a => simp
  | pair first second =>
      constructor
      · rintro ⟨⟩
        exact ⟨first, second, rfl, rfl, rfl⟩
      · rintro ⟨_, _, ⟨⟩, rfl, rfl⟩
        rfl

theorem bare_ne_var {term : Term} {id : Nat} (noVar : ∀ v, term ≠ .var v) :
    term.bare ≠ .var id := by
  intro same
  obtain ⟨v, equal, _⟩ := bare_eq_var_iff.mp same
  exact noVar v equal

/-- An instance without names is the term with what is put in without names. -/
theorem bare_instantiate (image : V → Term) (term : Term V) :
    (term.instantiate image).bare = term.instantiate fun v => (image v).bare :=
  instantiate_instantiate image (fun v => .var v.id) term

theorem instantiate_bare (image : Nat → Term W) (term : Term) :
    term.bare.instantiate image = term.instantiate fun v => image v.id :=
  instantiate_instantiate (fun v : Var => .var v.id) image term

/-- The variables of a bare term are the identities of the variables of the term. -/
theorem vars_bare (term : Term) : term.bare.vars = term.vars.map Var.id := by
  induction term with
  | var v => rfl
  | atom a => rfl
  | pair head tail headIH tailIH => simp [vars, headIH, tailIH]

@[simp] theorem size_bare (term : Term) : term.bare.size = term.size := by
  induction term with
  | var v => rfl
  | atom a => rfl
  | pair head tail headIH tailIH => simp [size, headIH, tailIH]

/-- An instance of a term with variables put in for its variables. -/
theorem instantiate_bare_instantiate_var (onVar : Var → Var) (image : Nat → Term W)
    (term : Term) : (term.instantiate fun v => .var (onVar v)).bare.instantiate image =
      term.instantiate fun v => image (onVar v).id := by
  rw [instantiate_bare, instantiate_instantiate]
  rfl

/-- Whether two terms are the same: equal atoms and the same variables in the same places. -/
def same : Term → Term → Bool
  | .var v, .var w => v.same w
  | .atom a, .atom b => a = b
  | .pair head tail, .pair otherHead otherTail => head.same otherHead && tail.same otherTail
  | _, _ => false

theorem same_iff {left right : Term} : left.same right = true ↔ left.bare = right.bare := by
  induction left generalizing right with
  | var v => cases right <;> simp [same, Var.same]
  | atom a => cases right <;> simp [same]
  | pair head tail headIH tailIH => cases right <;> simp [same, headIH, tailIH]

end Term

end Horn
