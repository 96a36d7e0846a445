import Mathlib.Algebra.Order.BigOperators.Group.List
import Mathlib.Algebra.Order.Group.Nat
import Mathlib.Data.Set.Function
import Horn.Proofs.Independence

/-!
# Patterns

What matters about a stored clause is its pattern: which atoms and names it has where, and
where the same variable stands. The copy made for an attempt depends on nothing else, since
variables are numbered as they are met (`Clause.SamePattern.copyOf`).

The identities in a clause are replaced by maps that need not be injective elsewhere
(`exists_injective_of_injOn`).
-/

namespace Horn

variable {onId : Nat → Nat} {onName : String → String} {onVar : Var → Var}
variable {onAtom : Atom → Atom}

/-- A map that is injective on finitely many numbers agrees on them with one that is
injective. -/
theorem exists_injective_of_injOn {ids : List Nat} (apart : Set.InjOn onId {id | id ∈ ids}) :
    ∃ wider : Nat → Nat, wider.Injective ∧ ∀ id ∈ ids, wider id = onId id := by
  let bound := (ids.map onId).sum + 1
  have beyond : ∀ id ∈ ids, onId id < bound := by
    intro id member
    exact Nat.lt_succ_of_le (List.le_sum_of_mem (List.mem_map_of_mem member))
  -- the other numbers go beyond the images
  refine ⟨fun id => if id ∈ ids then onId id else id + bound, ?_, ?_⟩
  · intro id other same
    by_cases inside : id ∈ ids <;> by_cases insideToo : other ∈ ids
    · simp only [inside, insideToo, if_true] at same
      exact apart inside insideToo same
    · simp only [inside, insideToo, if_true, if_false] at same
      have below := beyond id inside
      omega
    · simp only [inside, insideToo, if_true, if_false] at same
      have below := beyond other insideToo
      omega
    · simp only [inside, insideToo, if_false] at same
      omega
  · intro id member
    simp [member]

/-! ## Listing the replaced variables -/

theorem Term.vars_map {V W : Type} (onVar : V → W) (term : Term V) :
    (term.map onVar onAtom).vars = term.vars.map onVar := by
  induction term with
  | var v => rfl
  | atom a => rfl
  | pair head tail headIH tailIH => simp [vars, headIH, tailIH]

namespace Var

/-- Variables are listed once before or after they are replaced. -/
theorem listOnce_map (faithful : Faithful onVar) (vars : List Var) :
    listOnce (vars.map onVar) = (listOnce vars).map onVar := by
  induction vars using List.reverseRecOn with
  | nil => rfl
  | append_singleton vars v ih =>
      have sameKnown : ((listOnce vars).map onVar).any (onVar v).same =
          (listOnce vars).any v.same := by
        rw [List.any_map]
        congr 1
        funext w
        exact faithful.same_map v w
      rw [List.map_append, List.map_singleton, listOnce_concat, listOnce_concat, ih, insert,
        insert, sameKnown]
      split <;> simp

theorem idxOf_map (injective : onId.Injective) (id : Nat) (ids : List Nat) :
    (ids.map onId).idxOf (onId id) = ids.idxOf id := by
  induction ids with
  | nil => rfl
  | cons first rest ih =>
      have same : (onId first == onId id) = (first == id) := by
        rw [Bool.eq_iff_iff]
        simp [injective.eq_iff]
      rw [List.map_cons, List.idxOf_cons, List.idxOf_cons, same, ih]

/-- The first variable of an identity is replaced by the first one of the new identity. -/
theorem nameIn_map (injective : onId.Injective) {vars : List Var} {id : Nat}
    (member : id ∈ vars.map Var.id) :
    nameIn (vars.map (change onId onName)) (onId id) = onName (nameIn vars id) := by
  obtain ⟨v, found⟩ := Option.isSome_iff_exists.mp (isSome_find?_id.mpr member)
  have foundToo : (vars.map (change onId onName)).find? (fun w => w.id = onId id) =
      some (v.change onId onName) := by
    simp only [List.find?_map, Function.comp_def, id_change, injective.eq_iff, found,
      Option.map_some]
  rw [nameIn, nameIn, found, foundToo]
  rfl

end Var

/-! ## Clauses of one pattern -/

/-- Replacing the variables of a term and then putting variables in for them is the same as
putting variables in and replacing those. -/
theorem Term.instantiate_map {copy copyToo onCopy : Var → Var} {term : Term}
    (same : ∀ v ∈ term.vars, copyToo (onVar v) = onCopy (copy v)) :
    (term.map onVar onAtom).instantiate (fun v => .var (copyToo v)) =
      (term.instantiate fun v => .var (copy v)).map onCopy onAtom := by
  induction term with
  | var v => simpa [vars] using same
  | atom a => rfl
  | pair head tail headIH tailIH =>
      simp only [map_pair, instantiate_pair]
      rw [headIH fun v member => same v (by simp [vars, member]),
        tailIH fun v member => same v (by simp [vars, member])]

namespace Clause

variable {clause other : Clause}

/-- The clause with its variables and atoms replaced. -/
def map (onVar : Var → Var) (onAtom : Atom → Atom) : Clause → Clause
  | .fact head => .fact (head.map onVar onAtom)
  | .rule head body => .rule (head.map onVar onAtom) (body.map (Term.map onVar onAtom))

@[simp] theorem head_map (clause : Clause) :
    (clause.map onVar onAtom).head = clause.head.map onVar onAtom := by
  cases clause <;> rfl

@[simp] theorem body_map (clause : Clause) :
    (clause.map onVar onAtom).body = clause.body.map (Term.map onVar onAtom) := by
  cases clause <;> rfl

/-- Only what replaces the variables of the clause matters. -/
theorem map_congr {first second : Var → Var}
    (agree : ∀ v : Var, v.id ∈ clause.ids → first v = second v) :
    clause.map first onAtom = clause.map second onAtom := by
  have sameTerm : ∀ term : Term, (∀ id ∈ term.bare.vars, id ∈ clause.ids) →
      term.map first onAtom = term.map second onAtom := by
    intro term inside
    apply Term.map_congr
    intro v member
    exact agree v (inside v.id (Term.id_mem_vars_bare member))
  have head := sameTerm clause.head fun id member => mem_ids.mpr (.inl member)
  have body : clause.body.map (Term.map first onAtom) = clause.body.map (Term.map second onAtom) :=
    List.map_congr_left fun goal inBody => sameTerm goal
      fun id member => mem_ids.mpr (.inr ⟨goal, inBody, member⟩)
  cases clause with
  | fact => exact congrArg fact head
  | rule => exact congrArg₂ rule head body

theorem vars_map (faithful : Var.Faithful onVar) (clause : Clause) :
    (clause.map onVar onAtom).vars = clause.vars.map onVar := by
  simp only [vars_eq, occurrences, head_map, body_map, ← Var.listOnce_map faithful,
    List.map_append, List.map_flatMap, List.flatMap_map, Term.vars_map]

/-- The other clause is the clause with the names of its variables and its atoms replaced,
and with any variables of these names where it has variables, the same ones where it has
the same and different ones where it has different ones. -/
def SamePattern (onName : String → String) (onAtom : Atom → Atom) (clause other : Clause) :
    Prop :=
  ∃ onId : Nat → Nat, Set.InjOn onId {id | id ∈ clause.ids} ∧
    other = clause.map (Var.change onId onName) onAtom

/-- The other clause has other variables of the same names, the same ones where the clause
has the same and different ones where it has different ones. -/
abbrev VariantOf : Clause → Clause → Prop :=
  SamePattern id id

/-- A variable and the one that replaces it have the same copy, but for the name. -/
theorem copyVar_map (injective : onId.Injective) {id : Nat} (member : id ∈ clause.ids)
    (next : Nat) : (clause.map (Var.change onId onName) onAtom).copyVar next (onId id) =
      (clause.copyVar next id).withName onName := by
  have sameVars : (clause.map (Var.change onId onName) onAtom).vars =
      clause.vars.map (Var.change onId onName) :=
    vars_map (Var.faithful_change injective onName) clause
  have sameIds : (clause.map (Var.change onId onName) onAtom).ids = clause.ids.map onId := by
    simp only [ids, sameVars, List.map_map, Function.comp_def, Var.id_change]
  rw [copyVar, sameIds, Var.idxOf_map injective, sameVars, Var.nameIn_map injective member]
  rfl

/-- Copies of clauses of one pattern are the same but for names and atoms. -/
theorem SamePattern.copyOf {session sessionToo : Session}
    (same : clause.SamePattern onName onAtom other)
    (sameNext : session.nextVar = sessionToo.nextVar) :
    sessionToo.copyOf other = (session.copyOf clause).map (Var.withName onName) onAtom ∧
      other.vars.length = clause.vars.length := by
  obtain ⟨onId, apart, rfl⟩ := same
  obtain ⟨wider, injective, agrees⟩ := exists_injective_of_injOn apart
  have replaced : clause.map (Var.change wider onName) onAtom =
      clause.map (Var.change onId onName) onAtom :=
    map_congr fun v member => by simp only [Var.change, agrees v.id member]
  rw [← replaced, Session.copyOf, Session.copyOf, ← sameNext]
  constructor
  · have sameTerm : ∀ term : Term, (∀ id ∈ term.bare.vars, id ∈ clause.ids) →
        ((term.map (Var.change wider onName) onAtom).instantiate fun v =>
          .var ((clause.map (Var.change wider onName) onAtom).copyVar session.nextVar v.id)) =
        (term.instantiate fun v => .var (clause.copyVar session.nextVar v.id)).map
          (Var.withName onName) onAtom := by
      intro term inside
      apply Term.instantiate_map
      intro v member
      exact copyVar_map injective (inside v.id (Term.id_mem_vars_bare member)) _
    have head := sameTerm clause.head fun id member => mem_ids.mpr (.inl member)
    have body := List.map_congr_left fun goal inBody => sameTerm goal
      fun id member => mem_ids.mpr (.inr ⟨goal, inBody, member⟩)
    cases clause with
    | fact => exact congrArg fact head
    | rule =>
        refine congrArg₂ rule head ?_
        rw [List.map_map, List.map_map]
        exact body
  · rw [vars_map (Var.faithful_change injective onName), List.length_map]

end Clause

/-- The database with the variables and atoms of every clause replaced. -/
def Database.map (onVar : Var → Var) (onAtom : Atom → Atom) (database : Database) : Database :=
  ⟨database.clauses.map (Clause.map onVar onAtom)⟩

@[simp] theorem Database.declared_map (database : Database) :
    (database.map onVar onAtom).declared = database.declared.map (Clause.map onVar onAtom) := by
  simp [map, declared]

/-- Where clauses are related one by one, a clause has its counterpart at the same index. -/
theorem Database.exists_nthNewest? {one two : Database} {related : Clause → Clause → Prop}
    {index : Nat} {clause : Clause} (clauses : List.Forall₂ related one.declared two.declared)
    (found : one.nthNewest? index = some clause) :
    ∃ other, two.nthNewest? index = some other ∧ related clause other := by
  rw [nthNewest?_eq] at found ⊢
  have newest : List.Forall₂ related one.newestFirst two.newestFirst :=
    List.forall₂_reverse_iff.mpr clauses
  generalize one.newestFirst = first, two.newestFirst = second at newest found
  induction newest generalizing index with
  | nil => cases found
  | cons same _ ih =>
      cases index with
      | zero =>
          cases found
          exact ⟨_, rfl, same⟩
      | succ index => exact ih found

end Horn
