import Mathlib.Data.Finset.Card
import Mathlib.Logic.Relation
import Horn.Subst

/-!
# Acyclic substitutions

A substitution is acyclic if no variable reaches itself through the values that
`lookup` gives. Every path along bindings then ends, and within as many steps as
there are bindings, so that `walk`, `occurs` and `resolve` never stop early.

`Subst.Acyclic.term_induction` is the induction that follows bindings: to prove a
fact of a bound variable, prove it of its value. The equations of `walk` and
`resolve` after it do not count steps, and later proofs use nothing else.
-/

namespace Horn

namespace Term

variable {V W : Type} {v : V}

@[simp] theorem mem_vars_var {w : V} : v ∈ (Term.var w).vars ↔ v = w := by
  simp [vars]

@[simp] theorem not_mem_vars_atom {a : Atom} : v ∉ (Term.atom a).vars := by
  simp [vars]

@[simp] theorem mem_vars_pair {head tail : Term V} :
    v ∈ (Term.pair head tail).vars ↔ v ∈ head.vars ∨ v ∈ tail.vars := by
  simp [vars]

/-- The variables of an instance are those of the images. -/
theorem mem_vars_instantiate {image : W → Term V} {term : Term W} :
    v ∈ (term.instantiate image).vars ↔ ∃ w ∈ term.vars, v ∈ (image w).vars := by
  induction term with
  | var w => simp
  | atom a => simp
  | pair head tail headIH tailIH =>
      simp only [instantiate_pair, mem_vars_pair, headIH, tailIH, or_and_right, exists_or]

theorem mem_vars_bare {term : Term} {id : Nat} :
    id ∈ term.bare.vars ↔ ∃ v ∈ term.vars, v.id = id := by
  rw [vars_bare, List.mem_map]

theorem id_mem_vars_bare {term : Term} {v : Var} (member : v ∈ term.vars) :
    v.id ∈ term.bare.vars :=
  mem_vars_bare.mpr ⟨v, member, rfl⟩

/-- The variables of an instance without names are those of the images without names. -/
theorem mem_vars_bare_instantiate {image : W → Term} {term : Term W} {id : Nat} :
    id ∈ (term.instantiate image).bare.vars ↔ ∃ w ∈ term.vars, id ∈ (image w).bare.vars := by
  rw [bare_instantiate, mem_vars_instantiate]

end Term

namespace Subst

variable {subst : Subst} {v w : Var} {id : Nat} {value term : Term}

/-- The value of one variable mentions the other. Bindings hidden by newer ones do not
count. -/
def Leads (subst : Subst) (id other : Nat) : Prop :=
  ∃ value, subst.lookup id = some value ∧ other ∈ value.bare.vars

/-- No variable reaches itself through values. -/
def Acyclic (subst : Subst) : Prop :=
  ∀ id, ¬Relation.TransGen subst.Leads id id

/-! ## Counting the variables on a path -/

/-- The variables that have a binding. -/
def bound (subst : Subst) : Finset Nat :=
  (subst.bindings.map fun binding => binding.var.id).toFinset

/-- What a variable stands for is in the chain. -/
theorem exists_mem_bindings_of_lookup (found : subst.lookup id = some value) :
    ∃ v : Var, v.id = id ∧ ⟨v, value⟩ ∈ subst.bindings := by
  simp only [lookup, Option.map_eq_some_iff] at found
  obtain ⟨binding, found, rfl⟩ := found
  have same : binding.var.id = id := by simpa using List.find?_some found
  exact ⟨binding.var, same, List.mem_of_find?_eq_some found⟩

theorem mem_bound_of_lookup (found : subst.lookup id = some value) : id ∈ subst.bound := by
  obtain ⟨v, rfl, member⟩ := exists_mem_bindings_of_lookup found
  simp only [bound, List.mem_toFinset, List.mem_map]
  exact ⟨_, member, rfl⟩

theorem card_bound_le_size (subst : Subst) : subst.bound.card ≤ subst.size := by
  rw [subst.size_eq, ← List.length_map fun binding : Binding => binding.var.id]
  exact List.toFinset_card_le _

open Classical in
/-- The number of bound variables that a variable reaches, itself included. -/
noncomputable def rank (subst : Subst) (id : Nat) : Nat :=
  (subst.bound.filter fun other => Relation.ReflTransGen subst.Leads id other).card

theorem rank_le_size (subst : Subst) (id : Nat) : subst.rank id ≤ subst.size := by
  classical
  exact (Finset.card_filter_le _ _).trans subst.card_bound_le_size

theorem rank_pos_of_lookup (found : subst.lookup id = some value) : 0 < subst.rank id := by
  classical
  rw [rank, Finset.card_pos]
  exact ⟨id, Finset.mem_filter.mpr ⟨mem_bound_of_lookup found, .refl⟩⟩

theorem lookup_eq_none_of_rank_eq_zero (zero : subst.rank id = 0) : subst.lookup id = none := by
  cases found : subst.lookup id with
  | none => rfl
  | some value => exact absurd zero (rank_pos_of_lookup found).ne'

/-- What `other` reaches `id` reaches too, and `id` reaches itself, which `other` does not. -/
theorem Acyclic.rank_lt {other : Nat} (acyclic : subst.Acyclic) (leads : subst.Leads id other) :
    subst.rank other < subst.rank id := by
  classical
  apply Finset.card_lt_card
  rw [Finset.ssubset_iff_of_subset]
  · have bound : id ∈ subst.bound := by
      obtain ⟨value, found, _⟩ := leads
      exact mem_bound_of_lookup found
    refine ⟨id, Finset.mem_filter.mpr ⟨bound, .refl⟩, ?_⟩
    intro member
    exact acyclic id (.head' leads (Finset.mem_filter.mp member).2)
  · intro u member
    have reached := Finset.mem_filter.mp member
    exact Finset.mem_filter.mpr ⟨reached.1, .head leads reached.2⟩

theorem Acyclic.rank_lt_of_lookup (acyclic : subst.Acyclic)
    (found : subst.lookup id = some value) :
    ∀ other ∈ value.bare.vars, subst.rank other < subst.rank id :=
  fun _ member => acyclic.rank_lt ⟨value, found, member⟩

/-- A substitution in which every step along a value goes down is acyclic. -/
theorem acyclic_of_decreasing (measure : Nat → Nat)
    (decreasing : ∀ {id other}, subst.Leads id other → measure other < measure id) :
    subst.Acyclic := by
  intro id cycle
  have down : ∀ {u w}, Relation.TransGen subst.Leads u w → measure w < measure u := by
    intro u w path
    induction path with
    | single leads => exact decreasing leads
    | tail _ leads ih => exact (decreasing leads).trans ih
  exact (down cycle).false

@[simp] theorem acyclic_empty : empty.Acyclic :=
  acyclic_of_decreasing (fun _ => 0) fun leads => by
    obtain ⟨value, found, _⟩ := leads
    simp at found

/-- Induction along bindings. A term is above its parts, and a bound variable is
above its value. -/
theorem Acyclic.term_induction (acyclic : subst.Acyclic) {motive : Term → Prop}
    (free : ∀ v : Var, subst.lookup v.id = none → motive (.var v))
    (bound : ∀ (v : Var) value, subst.lookup v.id = some value → motive value → motive (.var v))
    (atom : ∀ a, motive (.atom a))
    (pair : ∀ head tail, motive head → motive tail → motive (.pair head tail))
    (term : Term) : motive term := by
  have below : ∀ limit term, (∀ id ∈ term.bare.vars, subst.rank id < limit) → motive term := by
    intro limit
    induction limit using Nat.strong_induction_on with
    | h limit ih =>
      intro term small
      induction term with
      | var v =>
          cases found : subst.lookup v.id with
          | none => exact free v found
          | some value =>
              apply bound v value found
              exact ih (subst.rank v.id) (small v.id (by simp)) value
                (acyclic.rank_lt_of_lookup found)
      | atom a => exact atom a
      | pair head tail headIH tailIH =>
          apply pair head tail
          · exact headIH fun id member => small id (by simp [member])
          · exact tailIH fun id member => small id (by simp [member])
  apply below (subst.size + 1)
  intro id _
  exact Nat.lt_succ_of_le (subst.rank_le_size id)

/-! ## Following to the end -/

/-- One step is taken from a bound variable to its value, and the steps that are
left are enough for the value. -/
theorem Acyclic.exists_steps (acyclic : subst.Acyclic) (found : subst.lookup id = some value) :
    ∃ steps, subst.size = steps + 1 ∧ ∀ other ∈ value.bare.vars, subst.rank other ≤ steps := by
  have positive := rank_pos_of_lookup found
  have bounded := subst.rank_le_size id
  refine ⟨subst.size - 1, by omega, ?_⟩
  intro other member
  have less := acyclic.rank_lt_of_lookup found other member
  omega

theorem walkWithin_of_lookup {steps : Nat} (found : subst.lookup v.id = some value) :
    subst.walkWithin (steps + 1) (.var v) = subst.walkWithin steps value := by
  simp [walkWithin, found]

theorem walkWithin_of_free (steps : Nat) (free : subst.lookup v.id = none) :
    subst.walkWithin steps (.var v) = .var v := by
  cases steps <;> simp [walkWithin, free]

@[simp] theorem walkWithin_atom (steps : Nat) (a : Atom) :
    subst.walkWithin steps (.atom a) = .atom a := by
  cases steps <;> rfl

@[simp] theorem walkWithin_pair (steps : Nat) (head tail : Term) :
    subst.walkWithin steps (.pair head tail) = .pair head tail := by
  cases steps <;> rfl

theorem walk_eq_walkWithin (subst : Subst) (term : Term) :
    subst.walk term = subst.walkWithin subst.size term := by
  cases term <;> simp [walk]

/-- A step more than the rank of every variable changes nothing. -/
theorem Acyclic.walkWithin_succ (acyclic : subst.Acyclic) (steps : Nat)
    (enough : ∀ id ∈ term.bare.vars, subst.rank id ≤ steps) :
    subst.walkWithin (steps + 1) term = subst.walkWithin steps term := by
  induction steps generalizing term with
  | zero =>
      cases term with
      | var v =>
          have free := lookup_eq_none_of_rank_eq_zero (Nat.le_zero.mp (enough v.id (by simp)))
          rw [walkWithin_of_free _ free, walkWithin_of_free _ free]
      | atom a => rfl
      | pair head tail => rfl
  | succ steps ih =>
      cases term with
      | var v =>
          cases found : subst.lookup v.id with
          | none => rw [walkWithin_of_free _ found, walkWithin_of_free _ found]
          | some value =>
              rw [walkWithin_of_lookup found, walkWithin_of_lookup found]
              apply ih
              intro w member
              have less := acyclic.rank_lt_of_lookup found w member
              exact Nat.le_of_lt_succ (less.trans_le (enough v.id (by simp)))
      | atom a => rfl
      | pair head tail => rfl

/-- A bound variable walks to where its value does. -/
theorem Acyclic.walk_of_lookup (acyclic : subst.Acyclic) (found : subst.lookup v.id = some value) :
    subst.walk (.var v) = subst.walk value := by
  obtain ⟨steps, size, enough⟩ := acyclic.exists_steps found
  rw [walk_eq_walkWithin, walk_eq_walkWithin, size, walkWithin_of_lookup found,
    acyclic.walkWithin_succ steps enough]

theorem walk_of_free (free : subst.lookup v.id = none) : subst.walk (.var v) = .var v :=
  walkWithin_of_free _ free

/-- A walk does not end at a bound variable. -/
theorem Acyclic.lookup_of_walk_eq_var (acyclic : subst.Acyclic)
    (walked : subst.walk term = .var v) : subst.lookup v.id = none := by
  induction term using acyclic.term_induction with
  | free w found =>
      rw [walk_of_free found] at walked
      cases walked
      exact found
  | bound w value found ih =>
      rw [acyclic.walk_of_lookup found] at walked
      exact ih walked
  | atom a => simp at walked
  | pair head tail _ _ => simp at walked

/-- A walk goes no further from where a walk ended. -/
theorem Acyclic.walk_walk (acyclic : subst.Acyclic) (term : Term) :
    subst.walk (subst.walk term) = subst.walk term := by
  cases walked : subst.walk term with
  | var v => exact walk_of_free (acyclic.lookup_of_walk_eq_var walked)
  | atom a => rfl
  | pair head tail => rfl

/-- What holds of a term and of all values holds where the term walks to. -/
theorem walk_induction {motive : Term → Prop} (start : motive term)
    (values : ∀ {id value}, subst.lookup id = some value → motive value) :
    motive (subst.walk term) := by
  have within : ∀ steps term, motive term → motive (subst.walkWithin steps term) := by
    intro steps
    induction steps with
    | zero =>
        intro term start
        simpa [walkWithin] using start
    | succ steps ih =>
        intro term start
        cases term with
        | var v =>
            cases found : subst.lookup v.id with
            | none => rwa [walkWithin_of_free _ found]
            | some value =>
                rw [walkWithin_of_lookup found]
                exact ih value (values found)
        | atom a => simpa using start
        | pair head tail => simpa using start
  rw [walk_eq_walkWithin]
  exact within subst.size term start

/-! ## Resolving -/

theorem resolveWithin_of_lookup {steps : Nat} (found : subst.lookup v.id = some value) :
    subst.resolveWithin (steps + 1) (.var v) = subst.resolveWithin steps value := by
  simp [resolveWithin, found]

theorem resolveWithin_of_free (steps : Nat) (free : subst.lookup v.id = none) :
    subst.resolveWithin steps (.var v) = .var v := by
  cases steps <;> simp [resolveWithin, free]

@[simp] theorem resolveWithin_atom (steps : Nat) (a : Atom) :
    subst.resolveWithin steps (.atom a) = .atom a := by
  cases steps <;> rfl

@[simp] theorem resolveWithin_pair (steps : Nat) (head tail : Term) :
    subst.resolveWithin steps (.pair head tail) =
      .pair (subst.resolveWithin steps head) (subst.resolveWithin steps tail) := by
  cases steps <;> rfl

/-- A step more than the rank of every variable changes nothing. -/
theorem Acyclic.resolveWithin_succ (acyclic : subst.Acyclic) (steps : Nat)
    (enough : ∀ id ∈ term.bare.vars, subst.rank id ≤ steps) :
    subst.resolveWithin (steps + 1) term = subst.resolveWithin steps term := by
  induction steps generalizing term with
  | zero =>
      rw [resolveWithin, resolveWithin]
      conv_rhs => rw [← term.instantiate_self]
      apply Term.instantiate_congr
      intro v member
      simp [lookup_eq_none_of_rank_eq_zero
        (Nat.le_zero.mp (enough v.id (Term.id_mem_vars_bare member)))]
  | succ steps ih =>
      rw [resolveWithin, resolveWithin]
      apply Term.instantiate_congr
      intro v member
      cases found : subst.lookup v.id with
      | none => rfl
      | some value =>
          apply ih
          intro w inside
          have less := acyclic.rank_lt_of_lookup found w inside
          exact Nat.le_of_lt_succ (less.trans_le (enough v.id (Term.id_mem_vars_bare member)))

@[simp] theorem resolve_atom (subst : Subst) (a : Atom) :
    subst.resolve (.atom a) = .atom a :=
  resolveWithin_atom _ a

@[simp] theorem resolve_pair (subst : Subst) (head tail : Term) :
    subst.resolve (.pair head tail) = .pair (subst.resolve head) (subst.resolve tail) :=
  resolveWithin_pair _ head tail

theorem resolve_of_free (free : subst.lookup v.id = none) : subst.resolve (.var v) = .var v :=
  resolveWithin_of_free _ free

/-- A bound variable resolves to what its value does. -/
theorem Acyclic.resolve_of_lookup (acyclic : subst.Acyclic)
    (found : subst.lookup v.id = some value) : subst.resolve (.var v) = subst.resolve value := by
  obtain ⟨steps, size, enough⟩ := acyclic.exists_steps found
  rw [resolve, resolve, size, resolveWithin_of_lookup found,
    acyclic.resolveWithin_succ steps enough]

/-- Resolving a term is putting in what its variables resolve to. -/
theorem resolve_eq_instantiate (subst : Subst) (term : Term) :
    subst.resolve term = term.instantiate fun v => subst.resolve (.var v) := by
  induction term with
  | var v => rfl
  | atom a => simp
  | pair head tail headIH tailIH => simp [← headIH, ← tailIH]

/-- A walk does not change what a term resolves to. -/
@[simp] theorem Acyclic.resolve_walk (acyclic : subst.Acyclic) (term : Term) :
    subst.resolve (subst.walk term) = subst.resolve term := by
  induction term using acyclic.term_induction with
  | free v free => rw [walk_of_free free]
  | bound v value found ih =>
      rw [acyclic.walk_of_lookup found, ih, acyclic.resolve_of_lookup found]
  | atom a => rfl
  | pair head tail _ _ => rfl

/-- A variable is reached from a term along bindings exactly if it is left in the
resolved term. -/
theorem occurs_eq_true_iff :
    subst.occurs v term = true ↔ v.id ∈ (subst.resolve term).bare.vars := by
  have within : ∀ steps term, subst.occursWithin v steps term = true ↔
      v.id ∈ (subst.resolveWithin steps term).bare.vars := by
    intro steps
    induction steps with
    | zero =>
        intro term
        simp [occursWithin, resolveWithin, Term.anyVar_eq_any_vars, Term.mem_vars_bare, Var.same]
    | succ steps ih =>
        intro term
        simp only [occursWithin, resolveWithin, Term.anyVar_eq_any_vars, List.any_eq_true,
          Term.mem_vars_bare_instantiate]
        apply exists_congr
        intro w
        apply and_congr_right
        intro _
        cases subst.lookup w.id with
        | none => simp [Var.same, eq_comm]
        | some value => exact ih value
  exact within subst.size term

/-! ## Occurring -/

theorem occurs_eq_of_resolve_eq {other : Term} (same : subst.resolve term = subst.resolve other) :
    subst.occurs v term = subst.occurs v other := by
  rw [Bool.eq_iff_iff, occurs_eq_true_iff, occurs_eq_true_iff, same]

/-- A walk does not change what occurs in a term. -/
@[simp] theorem Acyclic.occurs_walk (acyclic : subst.Acyclic) (v : Var) (term : Term) :
    subst.occurs v (subst.walk term) = subst.occurs v term :=
  occurs_eq_of_resolve_eq (acyclic.resolve_walk term)

@[simp] theorem occurs_atom (subst : Subst) (v : Var) (a : Atom) :
    subst.occurs v (.atom a) = false := by
  simp [Bool.eq_false_iff, occurs_eq_true_iff]

@[simp] theorem occurs_pair (subst : Subst) (v : Var) (head tail : Term) :
    subst.occurs v (.pair head tail) = (subst.occurs v head || subst.occurs v tail) := by
  rw [Bool.eq_iff_iff, Bool.or_eq_true]
  simp only [occurs_eq_true_iff, resolve_pair, Term.bare_pair, Term.mem_vars_pair]

theorem occurs_of_free (free : subst.lookup w.id = none) :
    subst.occurs v (.var w) = w.same v := by
  rw [Bool.eq_iff_iff, occurs_eq_true_iff, resolve_of_free free]
  simp [Var.same, eq_comm]

/-! ## Binding a variable -/

/-- A binding is refused exactly if the variable is left in the resolved value. -/
theorem extend_eq_none_iff :
    subst.extend v value = none ↔ v.id ∈ (subst.resolve value).bare.vars := by
  rw [← occurs_eq_true_iff]
  cases occurs : subst.occurs v value <;> simp [extend, occurs]

theorem not_mem_vars_of_extend {extended : Subst} (made : subst.extend v value = some extended) :
    v.id ∉ (subst.resolve value).bare.vars := by
  rw [← extend_eq_none_iff, made]
  exact Option.some_ne_none extended

/-- A free variable that a variable of the term reaches is left in the resolved
term. -/
theorem Acyclic.mem_vars_resolve_of_reaches {other : Nat} (acyclic : subst.Acyclic)
    (free : subst.lookup other = none) (path : Relation.ReflTransGen subst.Leads id other)
    (member : id ∈ term.bare.vars) : other ∈ (subst.resolve term).bare.vars := by
  induction path using Relation.ReflTransGen.head_induction_on generalizing term with
  | refl =>
      obtain ⟨v, inside, rfl⟩ := Term.mem_vars_bare.mp member
      rw [resolve_eq_instantiate, Term.mem_vars_bare_instantiate]
      exact ⟨v, inside, by simp [resolve_of_free free]⟩
  | head leads _ ih =>
      obtain ⟨value, found, next⟩ := leads
      obtain ⟨v, inside, rfl⟩ := Term.mem_vars_bare.mp member
      rw [resolve_eq_instantiate, Term.mem_vars_bare_instantiate]
      refine ⟨v, inside, ?_⟩
      rw [acyclic.resolve_of_lookup found]
      exact ih next

/-- Some variable of the term leads to the one of the identity, or is the one. -/
def Reaches (subst : Subst) (term : Term) (id : Nat) : Prop :=
  ∃ other ∈ term.bare.vars, Relation.ReflTransGen subst.Leads other id

theorem not_reaches_atom {a : Atom} : ¬subst.Reaches (.atom a) id := by
  simp [Reaches]

theorem reaches_pair {head tail : Term} :
    subst.Reaches (.pair head tail) id ↔ subst.Reaches head id ∨ subst.Reaches tail id := by
  simp only [Reaches, Term.bare_pair, Term.mem_vars_pair, or_and_right, exists_or]

/-- A binding makes no cycle if its value does not reach the variable: the variables that reach
it are moved above all others. It does not matter whether the variable was bound before. -/
theorem Acyclic.bind_of_not_reaches (acyclic : subst.Acyclic)
    (apart : ¬subst.Reaches value v.id) : (subst.bind v value).Acyclic := by
  classical
  let reaches (id : Nat) : Prop := Relation.ReflTransGen subst.Leads id v.id
  apply acyclic_of_decreasing fun id =>
    if reaches id then subst.rank id + (subst.size + 1) else subst.rank id
  rintro u w ⟨found, lookup, member⟩
  rw [lookup_bind] at lookup
  by_cases same : v.id = u
  · subst same
    simp only [if_true, Option.some.injEq] at lookup
    subst lookup
    have above : ¬reaches w := fun path => apart ⟨w, member, path⟩
    have bounded := subst.rank_le_size w
    have self : reaches v.id := .refl
    simp only [above, self, if_true, if_false]
    omega
  · rw [if_neg same] at lookup
    have leads : subst.Leads u w := ⟨found, lookup, member⟩
    have less := acyclic.rank_lt leads
    by_cases path : reaches w
    · have longer : reaches u := .head leads path
      simp only [path, longer, if_true]
      omega
    · simp only [path, if_false]
      split <;> omega

/-- A binding of a free variable makes no cycle if the variable is not left in the resolved
value. -/
theorem Acyclic.bind (acyclic : subst.Acyclic) (free : subst.lookup v.id = none)
    (apart : v.id ∉ (subst.resolve value).bare.vars) : (subst.bind v value).Acyclic := by
  apply acyclic.bind_of_not_reaches
  rintro ⟨w, member, path⟩
  exact apart (acyclic.mem_vars_resolve_of_reaches free path member)

end Subst

end Horn
