import Mathlib.Data.List.Basic
import Mathlib.Data.List.Induction
import Mathlib.Data.List.Nodup
import Horn.Session

/-!
# Copies of clauses

A copy of a clause is an instance of it: the variables of the clause, in the order of
`Clause.vars`, are replaced by variables of the same names numbered from the next free
identity on. That order is the one in which identities first occur (`Var.map_id_listOnce`),
and the name is that of the first variable with the identity (`Var.nameIn_listOnce`).

`Clause.rename_eq` states this in one equation. What a copy is good for follows from
it: its variables are new, so that a map can be given any images on them without a
change elsewhere (`Clause.exists_image`).
-/

namespace Horn

/-- An entry is found by a test that no other entry passes. -/
theorem find?_eq_some_of_only {α : Type} {test : α → Bool} {entries : List α} {entry : α}
    (member : entry ∈ entries) (passes : test entry = true)
    (only : ∀ other ∈ entries, test other = true → other = entry) :
    entries.find? test = some entry := by
  obtain ⟨found, first⟩ :=
    Option.isSome_iff_exists.mp (List.find?_isSome.mpr ⟨entry, member, passes⟩)
  rw [first, only found (List.mem_of_find?_eq_some first) (List.find?_some first)]

namespace Var

/-! ## Listing variables once -/

theorem eraseDups_concat (ids : List Nat) (id : Nat) :
    (ids ++ [id]).eraseDups = if id ∈ ids then ids.eraseDups else ids.eraseDups ++ [id] := by
  by_cases member : id ∈ ids <;>
    simp [List.eraseDups_append, List.removeAll, List.eraseDups_cons, member]

theorem nodup_eraseDups : (ids : List Nat) → ids.eraseDups.Nodup
  | [] => by simp
  | id :: rest => by
      rw [List.eraseDups_cons, List.nodup_cons]
      exact ⟨by simp, nodup_eraseDups _⟩
termination_by ids => ids.length
decreasing_by exact Nat.lt_succ_of_le (List.length_filter_le _ _)

/-- What is left stands in the order in which it first occurs. -/
theorem pairwise_eraseDups (ids : List Nat) :
    ids.eraseDups.Pairwise fun id other => ids.idxOf id < ids.idxOf other := by
  induction ids using List.reverseRecOn with
  | nil => simp
  | append_singleton ids last ih =>
      have kept : ids.eraseDups.Pairwise fun id other =>
          (ids ++ [last]).idxOf id < (ids ++ [last]).idxOf other := by
        refine ih.imp_of_mem ?_
        intro id other inIds inIdsToo earlier
        rw [List.mem_eraseDups] at inIds inIdsToo
        rwa [List.idxOf_append_of_mem inIds, List.idxOf_append_of_mem inIdsToo]
      rw [eraseDups_concat]
      split
      next => exact kept
      next absent =>
        rw [List.pairwise_append]
        refine ⟨kept, List.pairwise_singleton _ _, ?_⟩
        intro id inIds other isLast
        rw [List.mem_eraseDups] at inIds
        rw [List.mem_singleton.mp isLast, List.idxOf_append_of_mem inIds,
          List.idxOf_append_of_notMem absent]
        exact Nat.lt_add_right _ (List.idxOf_lt_length_of_mem inIds)

theorem any_same {listed : List Var} {v : Var} :
    listed.any v.same = true ↔ v.id ∈ listed.map Var.id := by
  rw [List.any_eq_true, List.mem_map]
  apply exists_congr
  intro w
  rw [same, decide_eq_true_eq, eq_comm]

theorem listOnce_concat (vars : List Var) (v : Var) :
    listOnce (vars ++ [v]) = insert (listOnce vars) v := by
  simp [listOnce]

/-- The identities are listed once, where they first occur. -/
theorem map_id_listOnce (vars : List Var) :
    (listOnce vars).map Var.id = (vars.map Var.id).eraseDups := by
  induction vars using List.reverseRecOn with
  | nil => rfl
  | append_singleton vars v ih =>
      rw [listOnce_concat, List.map_append, List.map_singleton, eraseDups_concat, insert]
      have known : (listOnce vars).any v.same = true ↔ v.id ∈ vars.map Var.id := by
        rw [any_same, ih, List.mem_eraseDups]
      by_cases member : v.id ∈ vars.map Var.id
      · rw [if_pos member, if_pos (known.mpr member), ih]
      · rw [if_neg member, if_neg (mt known.mp member), List.map_append, ih, List.map_singleton]

theorem any_listOnce {vars : List Var} {v : Var} :
    (listOnce vars).any v.same = true ↔ v.id ∈ vars.map Var.id := by
  rw [any_same, map_id_listOnce, List.mem_eraseDups]

/-- The list has the variables of the other one, each of them once, as it first occurs there
and in the order of first occurrences. -/
structure ListsOnce (listed vars : List Var) : Prop where
  nodup : (listed.map Var.id).Nodup
  mem_iff : ∀ id, id ∈ listed.map Var.id ↔ id ∈ vars.map Var.id
  first : ∀ v ∈ listed, vars.find? v.same = some v
  ordered : listed.Pairwise fun v w =>
    (vars.map Var.id).idxOf v.id < (vars.map Var.id).idxOf w.id

theorem find?_same_listOnce (vars : List Var) :
    ∀ v ∈ listOnce vars, vars.find? v.same = some v := by
  induction vars using List.reverseRecOn with
  | nil => exact fun _ member => absurd member List.not_mem_nil
  | append_singleton vars last ih =>
      have kept : ∀ v ∈ listOnce vars, (vars ++ [last]).find? v.same = some v := by
        intro v member
        rw [List.find?_append, ih v member, Option.some_or]
      rw [listOnce_concat, insert]
      split
      next => exact kept
      next unknown =>
        rw [List.forall_mem_append, List.forall_mem_singleton]
        refine ⟨kept, ?_⟩
        have none : vars.find? last.same = none := by
          rw [List.find?_eq_none]
          intro v member same
          exact unknown (any_listOnce.mpr
            (of_decide_eq_true same ▸ List.mem_map_of_mem member))
        simp [List.find?_append, none, same]

theorem listsOnce_listOnce (vars : List Var) : ListsOnce (listOnce vars) vars where
  nodup := map_id_listOnce vars ▸ nodup_eraseDups _
  mem_iff id := by rw [map_id_listOnce, List.mem_eraseDups]
  first := find?_same_listOnce vars
  ordered := by
    have ordered := pairwise_eraseDups (vars.map Var.id)
    rwa [← map_id_listOnce, List.pairwise_map] at ordered

/-- An identity belongs to one variable, as it does where every variable was minted. -/
def Identified (vars : List Var) : Prop :=
  ∀ v ∈ vars, ∀ w ∈ vars, v.id = w.id → v = w

theorem ListsOnce.mem_iff_of_identified {listed vars : List Var} (lists : ListsOnce listed vars)
    (identified : Identified vars) (v : Var) : v ∈ listed ↔ v ∈ vars := by
  have inVars : ∀ w ∈ listed, w ∈ vars :=
    fun w member => List.mem_of_find?_eq_some (lists.first w member)
  constructor
  · exact inVars v
  · intro member
    obtain ⟨w, inListed, same⟩ :=
      List.mem_map.mp ((lists.mem_iff v.id).mpr (List.mem_map_of_mem member))
    exact identified w (inVars w inListed) v member same ▸ inListed

/-- The name of the first variable of an identity. -/
def nameIn (vars : List Var) (id : Nat) : String :=
  (vars.find? fun v => v.id = id).elim "" Var.name

theorem isSome_find?_id {vars : List Var} {id : Nat} :
    (vars.find? fun v => v.id = id).isSome = true ↔ id ∈ vars.map Var.id := by
  simp

theorem nameIn_append {vars : List Var} {id : Nat} (member : id ∈ vars.map Var.id)
    (more : List Var) : nameIn (vars ++ more) id = nameIn vars id := by
  obtain ⟨v, first⟩ := Option.isSome_iff_exists.mp (isSome_find?_id.mpr member)
  rw [nameIn, nameIn, List.find?_append, first, Option.some_or]

theorem nameIn_concat_self {vars : List Var} {v : Var} (absent : v.id ∉ vars.map Var.id) :
    nameIn (vars ++ [v]) v.id = v.name := by
  have none : (vars.find? fun w => w.id = v.id) = none :=
    Option.not_isSome_iff_eq_none.mp (mt isSome_find?_id.mp absent)
  simp [nameIn, List.find?_append, none]

theorem nameIn_concat_of_ne {vars : List Var} {v : Var} {id : Nat} (different : v.id ≠ id) :
    nameIn (vars ++ [v]) id = nameIn vars id := by
  simp [nameIn, List.find?_append, different]

/-- To list variables once keeps the first ones, and so the names. -/
theorem nameIn_listOnce (vars : List Var) (id : Nat) :
    nameIn (listOnce vars) id = nameIn vars id := by
  induction vars using List.reverseRecOn with
  | nil => rfl
  | append_singleton vars v ih =>
      rw [listOnce_concat, insert]
      by_cases member : v.id ∈ vars.map Var.id
      · rw [if_pos (any_listOnce.mpr member), ih]
        by_cases same : v.id = id
        · rw [← same, nameIn_append member]
        · rw [nameIn_concat_of_ne same]
      · rw [if_neg (mt any_listOnce.mp member)]
        by_cases same : v.id = id
        · subst same
          have notListed : v.id ∉ (listOnce vars).map Var.id := by
            rwa [map_id_listOnce, List.mem_eraseDups]
          rw [nameIn_concat_self member, nameIn_concat_self notListed]
        · rw [nameIn_concat_of_ne same, nameIn_concat_of_ne same, ih]

/-- Where no identity comes twice, a variable is found under its own name. -/
theorem nameIn_of_mem {vars : List Var} {v : Var} (nodup : (vars.map Var.id).Nodup)
    (member : v ∈ vars) : nameIn vars v.id = v.name := by
  have found : vars.find? (fun w => w.id = v.id) = some v := by
    apply find?_eq_some_of_only member (decide_eq_true rfl)
    intro w inVars same
    exact List.inj_on_of_nodup_map nodup inVars member (of_decide_eq_true same)
  rw [nameIn, found]
  rfl

end Var

/-! ## The pass that copies -/

namespace Renaming

variable {table : Renaming} {next id : Nat} {met more : List Var}

/-- The copy by the place of the identity among the variables met. -/
def placed (next : Nat) (met : List Var) (id : Nat) : Var :=
  ⟨next + (met.map Var.id).eraseDups.idxOf id, Var.nameIn met id⟩

/-- Later variables do not change the place of a variable. -/
theorem placed_append (member : id ∈ met.map Var.id) (more : List Var) :
    placed next (met ++ more) id = placed next met id := by
  have place : ((met ++ more).map Var.id).eraseDups.idxOf id =
      (met.map Var.id).eraseDups.idxOf id := by
    rw [List.map_append, List.eraseDups_append, List.idxOf_append_of_mem]
    rwa [List.mem_eraseDups]
  rw [placed, placed, place, Var.nameIn_append member]

/-- The table holds the copies of exactly the variables met so far, each by its place. -/
structure Holds (table : Renaming) (next : Nat) (met : List Var) : Prop where
  next_eq : table.next = next + (met.map Var.id).eraseDups.length
  lookup_eq : ∀ id, table.copies.lookup id =
    if id ∈ met.map Var.id then some (placed next met id) else none

theorem holds_start (next : Nat) : (start next).Holds next [] :=
  ⟨rfl, fun _ => rfl⟩

/-- A variable that was met has its copy, and nothing is added to the table. -/
theorem Holds.copy_of_mem (holds : table.Holds next met) {v : Var}
    (member : v.id ∈ met.map Var.id) :
    table.copy v = (placed next (met ++ [v]) v.id, table) ∧ table.Holds next (met ++ [v]) := by
  have known : table.copies.lookup v.id = some (placed next met v.id) := by
    rw [holds.lookup_eq, if_pos member]
  have sameIds : ((met ++ [v]).map Var.id).eraseDups = (met.map Var.id).eraseDups := by
    rw [List.map_append, List.map_singleton, Var.eraseDups_concat, if_pos member]
  refine ⟨?_, sameIds ▸ holds.next_eq, ?_⟩
  · simp only [Renaming.copy, known, placed_append member]
  · intro id
    have sameMet : id ∈ (met ++ [v]).map Var.id ↔ id ∈ met.map Var.id := by
      rw [List.map_append, List.mem_append, List.map_singleton, List.mem_singleton]
      exact or_iff_left_of_imp fun same => same ▸ member
    rw [holds.lookup_eq, if_congr sameMet rfl rfl]
    split
    next listed => rw [placed_append listed]
    next => rfl

/-- The copy of a variable that was not met takes the next place in the table. -/
theorem Holds.copy_of_not_mem (holds : table.Holds next met) {v : Var}
    (absent : v.id ∉ met.map Var.id) :
    (table.copy v).1 = placed next (met ++ [v]) v.id ∧
      (table.copy v).2.Holds next (met ++ [v]) := by
  have unknown : table.copies.lookup v.id = none := by
    rw [holds.lookup_eq, if_neg absent]
  have longer : ((met ++ [v]).map Var.id).eraseDups = (met.map Var.id).eraseDups ++ [v.id] := by
    rw [List.map_append, List.map_singleton, Var.eraseDups_concat, if_neg absent]
  have made : (⟨table.next, v.name⟩ : Var) = placed next (met ++ [v]) v.id := by
    have notListed : v.id ∉ (met.map Var.id).eraseDups := by rwa [List.mem_eraseDups]
    simp only [placed, longer, Var.nameIn_concat_self absent, holds.next_eq]
    simp [List.idxOf_append, notListed]
  simp only [Renaming.copy, unknown]
  refine ⟨made, ?_, ?_⟩
  · simp only [longer, List.length_append, List.length_singleton, holds.next_eq]
    omega
  · intro id
    rw [List.lookup_cons]
    by_cases same : id = v.id
    · subst same
      simp [made]
    · have notEqual : (id == v.id) = false := by simpa using same
      simp only [notEqual, holds.lookup_eq, List.map_append, List.map_singleton,
        List.mem_append, List.mem_singleton, same, or_false]
      split
      next listed => rw [placed_append listed]
      next => rfl

theorem Holds.copy (holds : table.Holds next met) (v : Var) :
    (table.copy v).1 = placed next (met ++ [v]) v.id ∧
      (table.copy v).2.Holds next (met ++ [v]) := by
  by_cases member : v.id ∈ met.map Var.id
  · obtain ⟨copied, still⟩ := holds.copy_of_mem member
    rw [copied]
    exact ⟨rfl, still⟩
  · exact holds.copy_of_not_mem member

/-- Copying a term replaces its variables by their copies, and the table then holds
these too. Any list of variables that goes on from there gives the same copies. -/
theorem Holds.copyTerm (holds : table.Holds next met) (term : Term) :
    (∀ more, (table.copyTerm term).1 =
      term.instantiate fun v => .var (placed next (met ++ term.vars ++ more) v.id)) ∧
      (table.copyTerm term).2.Holds next (met ++ term.vars) := by
  induction term generalizing table met with
  | var v =>
      obtain ⟨copied, holds⟩ := holds.copy v
      refine ⟨fun more => ?_, holds⟩
      rw [Term.vars, Term.instantiate_var, placed_append (by simp), ← copied]
      rfl
  | atom a => exact ⟨fun more => rfl, by simpa [Term.vars, Renaming.copyTerm] using holds⟩
  | pair head tail headIH tailIH =>
      obtain ⟨headCopied, headHolds⟩ := headIH holds
      obtain ⟨tailCopied, tailHolds⟩ := tailIH headHolds
      simp only [Renaming.copyTerm, Term.vars, Term.instantiate_pair]
      constructor
      · intro more
        rw [headCopied (tail.vars ++ more), tailCopied more]
        simp only [List.append_assoc]
      · rw [← List.append_assoc]
        exact tailHolds

theorem Holds.copyGoals (holds : table.Holds next met) (goals : List Term) :
    (table.copyGoals goals).1 = goals.map (Term.instantiate fun v =>
      .var (placed next (met ++ goals.flatMap Term.vars) v.id)) ∧
      (table.copyGoals goals).2.Holds next (met ++ goals.flatMap Term.vars) := by
  induction goals generalizing table met with
  | nil => exact ⟨rfl, by simpa [Renaming.copyGoals] using holds⟩
  | cons goal rest ih =>
      obtain ⟨copied, goalHolds⟩ := holds.copyTerm goal
      obtain ⟨restCopied, restHolds⟩ := ih goalHolds
      simp only [Renaming.copyGoals, List.flatMap_cons, List.map_cons]
      constructor
      · rw [copied (rest.flatMap Term.vars), restCopied]
        simp only [List.append_assoc]
      · rw [← List.append_assoc]
        exact restHolds

end Renaming

/-! ## Copies as instances -/

namespace Clause

variable {clause : Clause} {next id : Nat}

/-- The identities of the variables of the clause, without repetition. -/
def ids (clause : Clause) : List Nat :=
  clause.vars.map Var.id

theorem ids_eq (clause : Clause) : clause.ids = (clause.occurrences.map Var.id).eraseDups := by
  rw [ids, vars_eq, Var.map_id_listOnce]

theorem length_ids (clause : Clause) : clause.ids.length = clause.vars.length :=
  List.length_map _

/-- A variable is listed exactly if it occurs in the head or in a body goal. -/
theorem mem_ids : id ∈ clause.ids ↔
    id ∈ clause.head.bare.vars ∨ ∃ goal ∈ clause.body, id ∈ goal.bare.vars := by
  rw [ids_eq, List.mem_eraseDups, occurrences, List.map_append, List.mem_append, ← Term.vars_bare,
    List.map_flatMap, List.mem_flatMap]
  simp only [← Term.vars_bare]

/-- The clause with every variable replaced by its image. -/
def instantiate (image : Var → Term) : Clause → Clause
  | .fact head => .fact (head.instantiate image)
  | .rule head body => .rule (head.instantiate image) (body.map (Term.instantiate image))

@[simp] theorem head_instantiate (image : Var → Term) :
    (clause.instantiate image).head = clause.head.instantiate image := by
  cases clause <;> rfl

@[simp] theorem body_instantiate (image : Var → Term) :
    (clause.instantiate image).body = clause.body.map (Term.instantiate image) := by
  cases clause <;> rfl

/-- The variable of the copy that stands for a variable of the clause. -/
def copyVar (clause : Clause) (next id : Nat) : Var :=
  ⟨next + clause.ids.idxOf id, Var.nameIn clause.vars id⟩

theorem placed_occurrences (clause : Clause) (next id : Nat) :
    Renaming.placed next clause.occurrences id = clause.copyVar next id := by
  rw [Renaming.placed, copyVar, ids_eq, vars_eq, Var.nameIn_listOnce]

/-- The copy of a clause replaces its variables in the order of `vars` by new ones. -/
theorem rename_eq (clause : Clause) (next : Nat) :
    clause.rename next =
      (clause.instantiate fun v => .var (clause.copyVar next v.id),
        next + clause.vars.length) := by
  rw [← length_ids, ids_eq]
  simp only [← placed_occurrences]
  cases clause with
  | fact head =>
      obtain ⟨copied, holds⟩ := (Renaming.holds_start next).copyTerm head
      have counted := holds.next_eq
      simp only [rename, copied [], counted, instantiate]
      simp [occurrences]
  | rule head body =>
      obtain ⟨copied, headHolds⟩ := (Renaming.holds_start next).copyTerm head
      obtain ⟨bodyCopied, holds⟩ := headHolds.copyGoals body
      have counted := holds.next_eq
      simp only [rename, copied (body.flatMap Term.vars), bodyCopied, counted, instantiate]
      simp [occurrences]

theorem copyVar_id_lt (member : id ∈ clause.ids) :
    (clause.copyVar next id).id < next + clause.vars.length := by
  rw [← length_ids]
  exact Nat.add_lt_add_left (List.idxOf_lt_length_of_mem member) next

/-- A map can be changed so that it sends a copy to any instance of the clause, and
older variables where it sent them before. -/
theorem exists_image (clause : Clause) (next : Nat) (old new : Nat → Term Nat) :
    ∃ image : Nat → Term Nat, (∀ id < next, image id = old id) ∧
      ∀ id ∈ clause.ids, image (clause.copyVar next id).id = new id := by
  let image (id : Nat) : Term Nat :=
    if id < next then old id else (clause.ids[id - next]?).elim (old id) new
  refine ⟨image, ?_, ?_⟩
  · intro id older
    simp [image, older]
  · intro id member
    have inside := List.idxOf_lt_length_of_mem member
    have found : clause.ids[clause.ids.idxOf id]? = some id := by
      rw [List.getElem?_eq_getElem inside, List.getElem_idxOf inside]
    have newer : ¬next + clause.ids.idxOf id < next := by omega
    simp [image, copyVar, found, newer]

end Clause

end Horn
