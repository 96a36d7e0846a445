import Mathlib.Logic.Function.Basic
import Horn.Search

/-!
# Relabeling

`map` replaces variables by variables and atoms by atoms, everywhere in a term, in a
substitution, bound variables included, or in a piece of work. If different atoms become
different atoms, and the same variables the same ones and different ones different ones
(`Var.Faithful`), then nothing that a search does can tell the difference: `unify_map` says
so of unification, down to the order of the bindings and the side that is bound. What names
variables get is free. No cycle has to be excluded, since the steps that are counted are the
same.
-/

namespace Horn

variable {onVar : Var → Var} {onAtom : Atom → Atom}

namespace Var

/-- Variables are replaced by the same one exactly if they are the same. -/
def Faithful (onVar : Var → Var) : Prop :=
  ∀ v w, (onVar v).id = (onVar w).id ↔ v.id = w.id

/-- The variable with its identity and its name replaced. -/
def change (onId : Nat → Nat) (onName : String → String) (v : Var) : Var :=
  ⟨onId v.id, onName v.name⟩

/-- The variable of another identity and the same name. -/
abbrev withId (onId : Nat → Nat) : Var → Var :=
  change onId fun name => name

/-- The same variable under another name. -/
abbrev withName (onName : String → String) : Var → Var :=
  change (fun id => id) onName

@[simp] theorem id_change (onId : Nat → Nat) (onName : String → String) (v : Var) :
    (v.change onId onName).id = onId v.id := rfl

theorem faithful_change {onId : Nat → Nat} (injective : onId.Injective)
    (onName : String → String) : Faithful (change onId onName) :=
  fun _ _ => injective.eq_iff

theorem Faithful.same_map (faithful : Faithful onVar) (v w : Var) :
    (onVar v).same (onVar w) = v.same w := by
  simp only [same, faithful v w]

end Var

@[simp] theorem withName_id : Var.withName id = id := rfl

namespace Term

variable {V W : Type}

/-- The term with its variables and atoms replaced. -/
def map (onVar : V → W) (onAtom : Atom → Atom) : Term V → Term W
  | .var v => .var (onVar v)
  | .atom a => .atom (onAtom a)
  | .pair head tail => .pair (head.map onVar onAtom) (tail.map onVar onAtom)

@[simp] theorem map_var (onVar : V → W) (v : V) :
    (Term.var v).map onVar onAtom = .var (onVar v) := rfl

@[simp] theorem map_atom (onVar : V → W) (a : Atom) :
    (Term.atom a).map onVar onAtom = .atom (onAtom a) := rfl

@[simp] theorem map_pair (onVar : V → W) (head tail : Term V) :
    (Term.pair head tail).map onVar onAtom =
      .pair (head.map onVar onAtom) (tail.map onVar onAtom) := rfl

@[simp] theorem size_map (onVar : V → W) (term : Term V) :
    (term.map onVar onAtom).size = term.size := by
  induction term with
  | var v => rfl
  | atom a => rfl
  | pair head tail headIH tailIH => simp [size, headIH, tailIH]

theorem anyVar_map (onVar : V → W) (test : W → Bool) (term : Term V) :
    (term.map onVar onAtom).anyVar test = term.anyVar fun v => test (onVar v) := by
  induction term with
  | var v => rfl
  | atom a => rfl
  | pair head tail headIH tailIH => simp [anyVar, headIH, tailIH]

/-- Only the variables that occur matter. -/
theorem map_congr {first second : V → W} {term : Term V}
    (agree : ∀ v ∈ term.vars, first v = second v) :
    term.map first onAtom = term.map second onAtom := by
  induction term with
  | var v => simpa [vars] using agree
  | atom a => rfl
  | pair head tail headIH tailIH =>
      simp only [map_pair]
      rw [headIH fun v member => agree v (by simp [vars, member]),
        tailIH fun v member => agree v (by simp [vars, member])]

/-- Replacing variables by themselves changes nothing. -/
@[simp] theorem map_id (term : Term V) : term.map id id = term := by
  induction term with
  | var v => rfl
  | atom a => rfl
  | pair head tail headIH tailIH => simp [headIH, tailIH]

/-- Names are left out before or after variables and atoms are replaced. -/
@[simp] theorem bare_map_change (onId : Nat → Nat) (onName : String → String) (term : Term) :
    (term.map (Var.change onId onName) onAtom).bare = term.bare.map onId onAtom := by
  induction term with
  | var v => rfl
  | atom a => rfl
  | pair head tail headIH tailIH => simp [headIH, tailIH]

/-- Variables put in for variables are replaced where they were put in. -/
theorem map_instantiate_var {U : Type} (onVar : V → W) (rename : U → V) (term : Term U) :
    (term.instantiate fun v => .var (rename v)).map onVar id =
      term.instantiate fun v => .var (onVar (rename v)) := by
  induction term with
  | var v => rfl
  | atom a => rfl
  | pair head tail headIH tailIH => simp [headIH, tailIH]

end Term

namespace Subst

/-- The substitution with the variables and atoms of all bindings replaced. -/
def map (onVar : Var → Var) (onAtom : Atom → Atom) (subst : Subst) : Subst :=
  ofBindings (subst.bindings.map fun binding =>
    ⟨onVar binding.var, binding.value.map onVar onAtom⟩)

variable {subst : Subst} {v : Var} {value term left right : Term}

@[simp] theorem bindings_map (subst : Subst) :
    (subst.map onVar onAtom).bindings = subst.bindings.map fun binding =>
      ⟨onVar binding.var, binding.value.map onVar onAtom⟩ := rfl

@[simp] theorem size_map (subst : Subst) : (subst.map onVar onAtom).size = subst.size := by
  simp [size_eq]

@[simp] theorem weight_map (subst : Subst) : (subst.map onVar onAtom).weight = subst.weight := by
  rw [weight_eq, weight_eq, bindings_map]
  induction subst.bindings with
  | nil => rfl
  | cons binding rest ih => simp [Binding.weights, ih]

@[simp] theorem map_bind (subst : Subst) (v : Var) (value : Term) :
    (subst.bind v value).map onVar onAtom =
      (subst.map onVar onAtom).bind (onVar v) (value.map onVar onAtom) :=
  ext rfl

@[simp] theorem map_id (subst : Subst) : subst.map id id = subst := by
  apply ext
  simp

theorem lookup_map (faithful : Var.Faithful onVar) (subst : Subst) (v : Var) :
    (subst.map onVar onAtom).lookup (onVar v).id =
      (subst.lookup v.id).map (Term.map onVar onAtom) := by
  simp only [lookup, bindings_map, List.find?_map, Option.map_map, Function.comp_def,
    faithful _ v]

theorem walkWithin_map (faithful : Var.Faithful onVar) (onAtom : Atom → Atom) (subst : Subst)
    (steps : Nat) (term : Term) :
    (subst.map onVar onAtom).walkWithin steps (term.map onVar onAtom) =
      (subst.walkWithin steps term).map onVar onAtom := by
  induction steps generalizing term with
  | zero => rfl
  | succ steps ih =>
      cases term with
      | var v =>
          simp only [Term.map_var, walkWithin, lookup_map faithful]
          cases subst.lookup v.id with
          | none => rfl
          | some value => exact ih value
      | atom a => rfl
      | pair head tail => rfl

theorem walk_map (faithful : Var.Faithful onVar) (subst : Subst) (term : Term) :
    (subst.map onVar onAtom).walk (term.map onVar onAtom) =
      (subst.walk term).map onVar onAtom := by
  cases term with
  | var v =>
      have walked := walkWithin_map faithful onAtom subst subst.size (.var v)
      simpa only [Term.map_var, walk, size_map] using walked
  | atom a => rfl
  | pair head tail => rfl

theorem occursWithin_map (faithful : Var.Faithful onVar) (subst : Subst) (v : Var) (steps : Nat)
    (term : Term) :
    (subst.map onVar onAtom).occursWithin (onVar v) steps (term.map onVar onAtom) =
      subst.occursWithin v steps term := by
  induction steps generalizing term with
  | zero => simp only [occursWithin, Term.anyVar_map, faithful.same_map]
  | succ steps ih =>
      simp only [occursWithin, Term.anyVar_map, lookup_map faithful, faithful.same_map]
      congr 1
      funext other
      cases subst.lookup other.id with
      | none => rfl
      | some value => exact ih value

theorem occurs_map (faithful : Var.Faithful onVar) (subst : Subst) (v : Var) (term : Term) :
    (subst.map onVar onAtom).occurs (onVar v) (term.map onVar onAtom) = subst.occurs v term := by
  rw [occurs, size_map]
  exact occursWithin_map faithful subst v subst.size term

theorem extend_map (faithful : Var.Faithful onVar) (onAtom : Atom → Atom) (subst : Subst)
    (v : Var) (value : Term) :
    (subst.map onVar onAtom).extend (onVar v) (value.map onVar onAtom) =
      (subst.extend v value).map (map onVar onAtom) := by
  cases occurrence : subst.occurs v value <;> simp [extend, occurs_map faithful, occurrence]

theorem known_map (faithful : Var.Faithful onVar) (onAtom : Atom → Atom) (place : List Part)
    (left right : Term) :
    Sharing.vars.known place (left.map onVar onAtom) (right.map onVar onAtom) =
      Sharing.vars.known place left right := by
  cases left <;> cases right <;> simp [Sharing.vars, Sharing.sameVar, faithful.same_map]

theorem unifyWithin_map (faithful : Var.Faithful onVar) (atomInjective : onAtom.Injective)
    (depth : Nat) (place : List Part) (left right : Term) (subst : Subst) :
    unifyWithin .vars depth place (left.map onVar onAtom) (right.map onVar onAtom)
        (subst.map onVar onAtom) =
      (unifyWithin .vars depth place left right subst).map (map onVar onAtom) := by
  induction depth generalizing place left right subst with
  | zero => rfl
  | succ depth ih =>
      simp only [unifyWithin, known_map faithful, walk_map faithful]
      by_cases known : Sharing.vars.known place left right = true
      · simp only [known, if_true, Option.map_some]
      rw [if_neg known, if_neg known]
      cases subst.walk left with
      | var v =>
          cases subst.walk right with
          | var w =>
              have binds := extend_map faithful onAtom subst v (.var w)
              simp only [Term.map_var, faithful.same_map] at binds ⊢
              rw [binds]
              split <;> rfl
          | atom b => exact extend_map faithful onAtom subst v (.atom b)
          | pair head tail => exact extend_map faithful onAtom subst v (.pair head tail)
      | atom a =>
          cases subst.walk right with
          | var w => exact extend_map faithful onAtom subst w (.atom a)
          | atom b =>
              simp only [Term.map_atom, atomInjective.eq_iff]
              split <;> rfl
          | pair head tail => rfl
      | pair leftHead leftTail =>
          cases subst.walk right with
          | var w => exact extend_map faithful onAtom subst w (.pair leftHead leftTail)
          | atom b => rfl
          | pair rightHead rightTail =>
              have heads := ih (.head :: place) leftHead rightHead subst
              have sharing := known_map faithful onAtom place
                (.pair leftHead leftTail) (.pair rightHead rightTail)
              simp only [Term.map_pair] at sharing ⊢
              rw [sharing, heads]
              split
              next => rfl
              next =>
                cases unifyWithin .vars depth (.head :: place) leftHead rightHead subst with
                | none => rfl
                | some unified => exact ih (.tail :: place) leftTail rightTail unified

/-- Unification cannot tell variables or atoms from those that replace them. -/
theorem unify_map (faithful : Var.Faithful onVar) (atomInjective : onAtom.Injective)
    (left right : Term) (subst : Subst) :
    unify (left.map onVar onAtom) (right.map onVar onAtom) (subst.map onVar onAtom) =
      (unify left right subst).map (map onVar onAtom) := by
  have sameDepth : unifyDepth (left.map onVar onAtom) (right.map onVar onAtom)
      (subst.map onVar onAtom) = unifyDepth left right subst := by
    simp [unifyDepth]
  rw [unify, unifyWith, sameDepth]
  exact unifyWithin_map faithful atomInjective _ _ left right subst

end Subst

/-- The work with the variables and atoms of its goals and its substitution replaced. -/
def Frame.map (onVar : Var → Var) (onAtom : Atom → Atom) : Frame → Frame
  | .prove goals subst => .prove (goals.map (Term.map onVar onAtom)) (subst.map onVar onAtom)
  | .resolve goal rest subst index =>
      .resolve (goal.map onVar onAtom) (rest.map (Term.map onVar onAtom))
        (subst.map onVar onAtom) index

@[simp] theorem Frame.map_id (frame : Frame) : frame.map id id = frame := by
  have same : ∀ goals : List Term, goals.map (Term.map id id) = goals :=
    List.map_id'' Term.map_id
  cases frame <;> simp [map, same]

end Horn
