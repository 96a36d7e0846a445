import Horn.Proofs.Lockstep
import Horn.Proofs.Patterns

/-!
# What a search does not look at

A search sees of atoms only which of them are equal, of names nothing, and of the variables
of a stored clause only where the same one stands. Atoms may be replaced one to one and names
at will, and the search goes as before, with what it finds replaced in the same way
(`search_blind_to_names_and_atoms`). Clauses may be stored with any variables of the same
names (`stored_clauses_matter_up_to_renaming`).

Both come from one lockstep of two searches (`lockstep_recast`), whose work is the same but
for names and atoms. Names may coincide, since variables are told apart by their identities.
-/

namespace Horn

variable {onName : String → String} {onVar : Var → Var} {onAtom : Atom → Atom}

/-! ## Searches over clauses of one pattern -/

/-- The goal of an attempt, the index of the clause and how the attempt ended, leaving out
the clause. -/
def Event.outcome? : Event → Option (Term × Nat × Bool)
  | .attempted goal index _ unified => some (goal, index, unified)
  | _ => none

/-- How the attempts that a session has recorded ended, newest first. -/
def Session.outcomes (session : Session) : List (Term × Nat × Bool) :=
  session.log.filterMap Event.outcome?

@[simp] theorem Session.outcomes_attempt (session : Session) (goal : Term) (index : Nat)
    (clause : Clause) (unified : Bool) :
    (session.attempt goal index clause unified).outcomes =
      (goal, index, unified) :: session.outcomes := rfl

/-- The same variables were minted, and the attempts ended in the same way, for goals with
their variables and atoms replaced. -/
structure Session.Recast (onVar : Var → Var) (onAtom : Atom → Atom) (one two : Session) :
    Prop where
  nextVar : two.nextVar = one.nextVar
  outcomes : two.outcomes = one.outcomes.map fun (goal, index, unified) =>
    (goal.map onVar onAtom, index, unified)

theorem Session.Recast.attempt {one two : Session} {clause other : Clause}
    (recast : one.Recast onVar onAtom two) (length : other.vars.length = clause.vars.length)
    (goal : Term) (index : Nat) (unified : Bool) :
    (one.attempt goal index clause unified).Recast onVar onAtom
      (two.attempt (goal.map onVar onAtom) index other unified) where
  nextVar := congrArg₂ (· + ·) recast.nextVar length
  outcomes := by rw [outcomes_attempt, outcomes_attempt, recast.outcomes, List.map_cons]

theorem Session.recast_id_iff {one two : Session} :
    one.Recast (Var.withName id) id two ↔
      two.nextVar = one.nextVar ∧ two.outcomes = one.outcomes := by
  have same : (one.outcomes.map fun (goal, index, unified) =>
      (goal.map (Var.withName id) id, index, unified)) = one.outcomes := by simp
  constructor
  · intro recast
    exact ⟨recast.nextVar, recast.outcomes.trans same⟩
  · rintro ⟨nextVar, outcomes⟩
    exact ⟨nextVar, outcomes.trans same.symm⟩

namespace Search

variable {database one two : Database} {frames later : List Frame}
variable {session sessionToo after : Session} {answer : Option Subst}

/-- What is left of a goal is the same work again, but for names and atoms. -/
theorem alternatives_recast (sameSize : one.size = two.size) (goal : Term) (rest : List Term)
    (subst : Subst) (index : Nat) :
    alternatives two (goal.map onVar onAtom) (rest.map (Term.map onVar onAtom))
        (subst.map onVar onAtom) index =
      (alternatives one goal rest subst index).map (Frame.map onVar onAtom) := by
  rw [map_alternatives]
  simp only [alternatives, sameSize]

/-- An attempt at a clause of the same pattern ends in the same way, with names and atoms
replaced. -/
theorem exists_unify_recast {goal : Term} {subst : Subst} {index : Nat} {clause : Clause}
    (clauses : List.Forall₂ (Clause.SamePattern onName onAtom) one.declared two.declared)
    (atoms : onAtom.Injective) (alike : session.Recast (Var.withName onName) onAtom sessionToo)
    (found : one.nthNewest? index = some clause) :
    ∃ other, two.nthNewest? index = some other ∧
      sessionToo.copyOf other = (session.copyOf clause).map (Var.withName onName) onAtom ∧
      other.vars.length = clause.vars.length ∧
      Subst.unify (goal.map (Var.withName onName) onAtom) (sessionToo.copyOf other).head
          (subst.map (Var.withName onName) onAtom) =
        (Subst.unify goal (session.copyOf clause).head subst).map
          (Subst.map (Var.withName onName) onAtom) := by
  obtain ⟨other, foundToo, same⟩ := Database.exists_nthNewest? clauses found
  obtain ⟨sameCopy, sameLength⟩ := same.copyOf alike.nextVar.symm
  refine ⟨other, foundToo, sameCopy, sameLength, ?_⟩
  rw [sameCopy, Clause.head_map]
  exact Subst.unify_map (Var.faithful_change Function.injective_id onName) atoms _ _ _

/-- A search over clauses of the same patterns makes the same move, with names and atoms
replaced. -/
theorem Move.recast (move : Move one frames session answer later after)
    (clauses : List.Forall₂ (Clause.SamePattern onName onAtom) one.declared two.declared)
    (atoms : onAtom.Injective) (alike : session.Recast (Var.withName onName) onAtom sessionToo) :
    ∃ afterToo, Move two (frames.map (Frame.map (Var.withName onName) onAtom)) sessionToo
        (answer.map (Subst.map (Var.withName onName) onAtom))
        (later.map (Frame.map (Var.withName onName) onAtom)) afterToo ∧
      after.Recast (Var.withName onName) onAtom afterToo := by
  have sameSize : one.size = two.size := clauses.length_eq
  cases move with
  | answer => exact ⟨_, .answer, alike⟩
  | select => exact ⟨_, .select, alike⟩
  | drop absent =>
      rw [Database.nthNewest?_eq_none_iff, sameSize, ← Database.nthNewest?_eq_none_iff] at absent
      exact ⟨_, .drop absent, alike⟩
  | @enter goal _ _ _ index _ _ clause found unifies =>
      obtain ⟨other, foundToo, sameCopy, sameLength, sameUnify⟩ :=
        exists_unify_recast clauses atoms alike found
      refine ⟨_, ?_, alike.attempt sameLength goal index true⟩
      simp only [List.map_cons, List.map_append, ← alternatives_recast sameSize, Frame.map,
        ← Clause.body_map, ← sameCopy]
      exact .enter foundToo (by rw [sameUnify, unifies, Option.map_some])
  | @skip goal _ _ index _ _ clause found fails =>
      obtain ⟨other, foundToo, _, sameLength, sameUnify⟩ :=
        exists_unify_recast clauses atoms alike found
      refine ⟨_, ?_, alike.attempt sameLength goal index false⟩
      simp only [List.map_cons, List.map_append, ← alternatives_recast sameSize, Frame.map]
      exact .skip foundToo (by rw [sameUnify, fails, Option.map_none])

/-- The second search has the work of the first with names and atoms replaced. -/
structure Recast (onName : String → String) (onAtom : Atom → Atom) (frames : List Frame)
    (session : Session) (framesToo : List Frame) (sessionToo : Session) : Prop where
  work : framesToo = frames.map (Frame.map (Var.withName onName) onAtom)
  alike : session.Recast (Var.withName onName) onAtom sessionToo

/-- Searches over clauses of the same patterns go in step. -/
theorem lockstep_recast
    (clauses : List.Forall₂ (Clause.SamePattern onName onAtom) one.declared two.declared)
    (atoms : onAtom.Injective) :
    Lockstep one two (fun answer image => image = answer.map (Var.withName onName) onAtom)
      (Session.Recast (Var.withName onName) onAtom) (Recast onName onAtom) where
  alike recast := recast.alike
  empty recast := recast.work
  move := by
    rintro frames _ later session sessionToo after answer ⟨rfl, alike⟩ move
    obtain ⟨afterToo, moveToo, alikeAfter⟩ := move.recast clauses atoms alike
    refine ⟨_, _, afterToo, moveToo, ?_, rfl, alikeAfter⟩
    cases answer with
    | none => exact .none
    | some found => exact .some rfl

/-- A search looks at atoms only to see whether they are equal, and at names not at all. Let
atoms be replaced by others, different ones by different ones, and names by any names, in the
database, in the goals and in the substitution. Call by call the search then returns the
answers in which atoms and names are replaced in the same way, with the same identities, and
the same variables were minted and the same attempts were made with the same outcome.

Nothing is asked of the new names, which may all be the same, nor of the identities in the
database, the goals and the substitution. -/
theorem search_blind_to_names_and_atoms (onName : String → String) (atoms : onAtom.Injective)
    (database : Database) (goals : List Term) (start : Subst) (next n : Nat) :
    let onVar := Var.withName onName
    let first := all database goals start
    let second := all (database.map onVar onAtom) (goals.map (Term.map onVar onAtom))
      (start.map onVar onAtom)
    (∀ result after, NthCall first ⟨next, []⟩ n result after →
      ∃ other, NthCall second ⟨next, []⟩ n (result.map (Subst.map onVar onAtom)) other ∧
        after.Recast onVar onAtom other) ∧
    ∀ image other, NthCall second ⟨next, []⟩ n image other →
      ∃ result after, NthCall first ⟨next, []⟩ n result after ∧
        image = result.map (Subst.map onVar onAtom) ∧ after.Recast onVar onAtom other := by
  intro onVar first second
  have clauses : List.Forall₂ (Clause.SamePattern onName onAtom) database.declared
      (database.map onVar onAtom).declared := by
    rw [Database.declared_map, List.forall₂_map_right_iff, List.forall₂_same]
    exact fun clause _ => ⟨fun id => id, Function.injective_id.injOn, rfl⟩
  have begins : Recast onName onAtom first.frames ⟨next, []⟩ second.frames ⟨next, []⟩ :=
    ⟨rfl, ⟨rfl, rfl⟩⟩
  obtain ⟨forth, back⟩ := (lockstep_recast clauses atoms).nthCall begins n
  constructor
  · intro result after call
    obtain ⟨image, other, callToo, same, recast⟩ := forth result after call
    rw [eq_map_of_rel same] at callToo
    exact ⟨other, callToo, recast⟩
  · intro image other call
    obtain ⟨result, after, callToo, same, recast⟩ := back image other call
    exact ⟨result, after, callToo, eq_map_of_rel same, recast⟩

/-- With `z` bound to `y`, the search for `(q . z)` asks a rule and then the fact that `a` is
a `p`. If the empty marker and `a` are exchanged and all variables have the name `v`, the
search finds the answer with the same identities, in which the empty marker stands for `a`. -/
theorem search_blind_to_names_and_atoms_rule :
    let onVar := Var.withName fun _ => "v"
    let onAtom : Atom → Atom := Equiv.swap Atom.nil (.symbol "a")
    let p := Term.symbol "p"
    let q := Term.symbol "q"
    let fact : Clause := .fact (.pair p (.symbol "a"))
    let rule : Clause := .rule (.pair q (.var ⟨0, "x"⟩)) [.pair p (.var ⟨0, "x"⟩)]
    let goal := Term.pair q (.var ⟨2, "z"⟩)
    let start := Subst.empty.bind ⟨2, "z"⟩ (.var ⟨1, "y"⟩)
    let image := ((Subst.empty.bind ⟨2, "v"⟩ (.var ⟨1, "v"⟩)).bind ⟨1, "v"⟩
      (.var ⟨3, "v"⟩)).bind ⟨3, "v"⟩ Term.nil
    onAtom.Injective ∧
      ∃ other, NthCall (all (Database.map onVar onAtom ⟨#[fact, rule]⟩)
          [goal.map onVar onAtom] (start.map onVar onAtom)) ⟨3, []⟩ 0 (some image) other ∧
        other.nextVar = 5 ∧
        other.outcomes = [(.pair p (.var ⟨3, "v"⟩), 1, true),
          (.pair p (.var ⟨3, "v"⟩), 0, false), (.pair q (.var ⟨2, "v"⟩), 0, true)] := by
  intro onVar onAtom p q fact rule goal start image
  have atoms : onAtom.Injective := (Equiv.swap Atom.nil (.symbol "a")).injective
  have call : NthCall (all ⟨#[fact, rule]⟩ [goal] start) ⟨3, []⟩ 0 (some _) _ :=
    .first (.found (show pull 9 _ _ = ⟨.found _, _, _⟩ from rfl))
  obtain ⟨other, callToo, alike⟩ :=
    (search_blind_to_names_and_atoms (fun _ => "v") atoms _ _ _ _ 0).1 _ _ call
  exact ⟨atoms, other, callToo, alike.nextVar.trans rfl, alike.outcomes.trans rfl⟩

/-! ## Variants of stored clauses -/

/-- Which variables stored clauses have does not matter, only where they have the same. Let
every clause of one database be a variant of the clause that the other database has in its
place, each for a renaming of its own. Call by call searches over the two return the same
substitutions, with the same identities, and the same variables were minted and the same
attempts were made with the same outcome.

It is left open what variables stored clauses share with each other, with the goals or with
the substitution. -/
theorem stored_clauses_matter_up_to_renaming
    (variants : List.Forall₂ Clause.VariantOf one.declared two.declared)
    (goals : List Term) (start : Subst) (session : Session) (n : Nat) :
    (∀ result after, NthCall (all one goals start) session n result after →
      ∃ other, NthCall (all two goals start) session n result other ∧
        other.nextVar = after.nextVar ∧ other.outcomes = after.outcomes) ∧
    ∀ result other, NthCall (all two goals start) session n result other →
      ∃ after, NthCall (all one goals start) session n result after ∧
        other.nextVar = after.nextVar ∧ other.outcomes = after.outcomes := by
  have begins : Recast id id (all one goals start).frames session (all two goals start).frames
      session := ⟨by simp [all], Session.recast_id_iff.mpr ⟨rfl, rfl⟩⟩
  obtain ⟨forth, back⟩ := (lockstep_recast variants Function.injective_id).nthCall begins n
  have eq_of_rel : ∀ {result image : Option Subst},
      Option.Rel (fun answer image => image = answer.map (Var.withName id) id) result image →
      image = result := by
    intro result image same
    rw [eq_map_of_rel same]
    cases result with
    | none => rfl
    | some answer => rw [Option.map_some, withName_id, Subst.map_id]
  constructor
  · intro result after call
    obtain ⟨image, other, callToo, same, recast⟩ := forth result after call
    rw [eq_of_rel same] at callToo
    exact ⟨other, callToo, Session.recast_id_iff.mp recast⟩
  · intro image other call
    obtain ⟨result, after, callToo, same, recast⟩ := back image other call
    rw [eq_of_rel same]
    exact ⟨after, callToo, Session.recast_id_iff.mp recast⟩

/-- The rule `(q . x) :- (p . x)` is stored with the variable `x` of the goal `(q . x)`, and
once with another of this name. Either way the answer binds the goal's variable to that of
the copy and that to `a`. -/
theorem stored_clauses_matter_up_to_renaming_shared :
    let x : Var := ⟨0, "x"⟩
    let copied : Var := ⟨2, "x"⟩
    let p := Term.symbol "p"
    let q := Term.symbol "q"
    let a := Term.symbol "a"
    let rule (v : Var) : Clause := .rule (.pair q (.var v)) [.pair p (.var v)]
    let shared : Database := ⟨#[.fact (.pair p a), rule x]⟩
    let separate : Database := ⟨#[.fact (.pair p a), rule ⟨1, "x"⟩]⟩
    List.Forall₂ Clause.VariantOf shared.declared separate.declared ∧
      ∃ other, NthCall (all separate [.pair q (.var x)] .empty) ⟨2, []⟩ 0
          (some ((Subst.empty.bind x (.var copied)).bind copied a)) other ∧
        other.nextVar = 4 ∧
        other.outcomes = [(.pair p (.var copied), 1, true), (.pair p (.var copied), 0, false),
          (.pair q (.var x), 0, true)] := by
  intro x copied p q a rule shared separate
  have sameFact : (Clause.fact (.pair p a)).VariantOf (.fact (.pair p a)) :=
    ⟨fun id => id, Function.injective_id.injOn, rfl⟩
  have single : ∀ id ∈ (rule x).ids, id = x.id := by decide
  have sameRule : (rule x).VariantOf (rule ⟨1, "x"⟩) :=
    ⟨fun _ => 1, fun id member other memberToo _ =>
      (single id member).trans (single other memberToo).symm, rfl⟩
  have variants : List.Forall₂ Clause.VariantOf shared.declared separate.declared :=
    .cons sameFact (.cons sameRule .nil)
  have call : NthCall (all shared [.pair q (.var x)] .empty) ⟨2, []⟩ 0 (some _) _ :=
    .first (.found (show pull 9 _ _ = ⟨.found _, _, _⟩ from rfl))
  obtain ⟨other, callToo, nextVar, outcomes⟩ :=
    (stored_clauses_matter_up_to_renaming variants _ _ _ 0).1 _ _ call
  exact ⟨variants, other, callToo, nextVar.trans rfl, outcomes.trans rfl⟩

end Search

end Horn
