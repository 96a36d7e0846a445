import Horn.Proofs.Patterns
import Horn.Proofs.Variants

/-!
# Fresh variants

The copy of a clause is a variant of it in new variables, numbered from the next free identity on
in the order in which the variables of the clause first occur. A clause lists its variables in the
same order, although listing and copying go through it apart from each other, so that the copy
lists its variables by number (`rename_is_fresh_variant`).

What it is to list variables in the order of their first occurrences, `Var.ListsOnce` says without
saying how it is done.
-/

namespace Horn

namespace Clause

variable {clause : Clause} {next : Nat} {v : Var}

theorem listsOnce_vars (clause : Clause) : Var.ListsOnce clause.vars clause.occurrences := by
  rw [vars_eq]
  exact Var.listsOnce_listOnce clause.occurrences

/-- To put in variables for variables is to rename them. -/
theorem instantiate_var (onVar : Var → Var) (clause : Clause) :
    clause.instantiate (fun v => .var (onVar v)) = clause.map onVar id := by
  have same : Term.instantiate (fun v => .var (onVar v)) = Term.map onVar id := by
    funext term
    exact (Term.map_eq_instantiate onVar term).symm
  cases clause <;> simp only [instantiate, map, same]

theorem rename_eq_map (clause : Clause) (next : Nat) :
    clause.rename next =
      (clause.map (fun v => clause.copyVar next v.id) id, next + clause.vars.length) := by
  rw [rename_eq, instantiate_var fun v => clause.copyVar next v.id]

/-- The copies of the variables of a clause are numbered one after another. -/
theorem copyVar_getElem (next : Nat) {i : Nat} (inside : i < clause.vars.length) :
    clause.copyVar next clause.vars[i].id = ⟨next + i, clause.vars[i].name⟩ := by
  have listed : i < clause.ids.length := by rwa [length_ids]
  have place : clause.ids.idxOf clause.vars[i].id = i := by
    have same : clause.ids[i] = clause.vars[i].id := List.getElem_map _
    rw [← same, clause.nodup_ids.idxOf_getElem]
  have name : Var.nameIn clause.vars clause.vars[i].id = clause.vars[i].name :=
    Var.nameIn_of_mem clause.nodup_ids (List.getElem_mem inside)
  rw [copyVar, place, name]

/-- The copy lists the copies of the variables of the clause, in the same order. -/
theorem vars_rename (clause : Clause) (next : Nat) :
    (clause.rename next).1.vars = clause.vars.map fun v => clause.copyVar next v.id := by
  have apart : Set.InjOn (fun id => (clause.copyVar next id).id) {id | id ∈ clause.ids} :=
    List.inj_on_of_nodup_map (clause.nodup_copies next)
  obtain ⟨wider, injective, agrees⟩ := exists_injective_of_injOn apart
  let onVar (v : Var) : Var := ⟨wider v.id, Var.nameIn clause.vars v.id⟩
  have faithful : Var.Faithful onVar := fun _ _ => injective.eq_iff
  have same : ∀ v : Var, v.id ∈ clause.ids → onVar v = clause.copyVar next v.id := by
    intro v member
    simp only [onVar, agrees v.id member]
    rfl
  rw [rename_eq_map, ← map_congr same, vars_map faithful]
  exact List.map_congr_left fun v member => same v (List.mem_map_of_mem member)

theorem map_id_vars_rename (clause : Clause) (next : Nat) :
    (clause.rename next).1.vars.map Var.id = List.range' next clause.vars.length := by
  rw [vars_rename]
  apply List.ext_getElem
  · simp
  · intro i inside _
    simp only [List.length_map] at inside
    simp only [List.getElem_map, List.getElem_range', copyVar_getElem next inside, Nat.one_mul]

theorem mem_map_id_vars_rename {i : Nat} :
    i ∈ (clause.rename next).1.vars.map Var.id ↔ next ≤ i ∧ i < next + clause.vars.length := by
  rw [map_id_vars_rename, List.mem_range'_1]

/-- A copy has none of the identities that were below the next free one. -/
theorem disjoint_map_id_vars_rename {ids : List Nat} (below : ∀ i ∈ ids, i < next) :
    ids.Disjoint ((clause.rename next).1.vars.map Var.id) := by
  intro i member inCopy
  have new := (mem_map_id_vars_rename.mp inCopy).1
  exact absurd (below i member) (Nat.not_lt.mpr new)

/-- The copy of a clause is the clause with its variables, in the order in which it lists them,
replaced by variables of the same names that are numbered from the next free identity on; the rest
of the clause stays, and the free identity moves on by the number of variables. The copy lists its
variables by number. The variables of a clause are listed once each, in the order of their first
occurrences; they are those that occur in it, if no identity is given to two of them. Where the
free identity is above those of the clause, neither the copy nor a later one has a variable of the
clause, and they share none. -/
theorem rename_is_fresh_variant (clause : Clause) (next : Nat) :
    let copy := (clause.rename next).1
    let after := (clause.rename next).2
    (∃ onVar : Var → Var, copy = clause.map onVar id ∧
      ∀ i (inside : i < clause.vars.length) (v : Var), v.same clause.vars[i] →
        onVar v = ⟨next + i, clause.vars[i].name⟩) ∧
    after = next + clause.vars.length ∧
    copy.vars.map Var.id = List.range' next clause.vars.length ∧
    Var.ListsOnce clause.vars clause.occurrences ∧
    (Var.Identified clause.occurrences → ∀ v, v ∈ clause.vars ↔ v ∈ clause.occurrences) ∧
    ((∀ v ∈ clause.vars, v.id < next) → ∀ later, after ≤ later →
      let again := (clause.rename later).1
      (clause.vars.map Var.id).Disjoint (copy.vars.map Var.id) ∧
      (clause.vars.map Var.id).Disjoint (again.vars.map Var.id) ∧
      (copy.vars.map Var.id).Disjoint (again.vars.map Var.id)) := by
  intro copy after
  have minted : after = next + clause.vars.length := congrArg Prod.snd (clause.rename_eq_map next)
  refine ⟨⟨fun v => clause.copyVar next v.id, ?_, ?_⟩, minted,
    clause.map_id_vars_rename next, clause.listsOnce_vars,
    clause.listsOnce_vars.mem_iff_of_identified, ?_⟩
  · exact congrArg Prod.fst (clause.rename_eq_map next)
  · intro i inside v same
    have sameId : v.id = clause.vars[i].id := of_decide_eq_true same
    beta_reduce
    rw [sameId, clause.copyVar_getElem next inside]
  · intro below later handed again
    have older : ∀ i ∈ clause.vars.map Var.id, i < next := List.forall_mem_map.mpr below
    have between : ∀ i ∈ copy.vars.map Var.id, i < after := by
      intro i member
      exact minted ▸ (mem_map_id_vars_rename.mp member).2
    have grown : next ≤ later := (minted ▸ Nat.le_add_right _ _).trans handed
    refine ⟨disjoint_map_id_vars_rename older, ?_, ?_⟩
    · apply disjoint_map_id_vars_rename
      exact fun i member => (older i member).trans_le grown
    · apply disjoint_map_id_vars_rename
      exact fun i member => (between i member).trans_le handed

/-- The rule that `(x . (y . x))` holds if `(z . y)` does is copied with the identities 7, 8 and 9
for `x`, `y` and `z`, and then again from 12 on. -/
theorem rename_is_fresh_variant_rule :
    let x : Var := ⟨4, "x"⟩
    let y : Var := ⟨2, "y"⟩
    let z : Var := ⟨6, "z"⟩
    let rule := Clause.rule (.pair (.var x) (.pair (.var y) (.var x))) [.pair (.var z) (.var y)]
    let copy := (rule.rename 7).1
    let again := (rule.rename 12).1
    rule.vars = [x, y, z] ∧ (∀ v ∈ rule.vars, v.id < 7) ∧
      (∀ v, v ∈ rule.vars ↔ v ∈ rule.occurrences) ∧
      copy.vars.map Var.id = [7, 8, 9] ∧ (rule.rename 7).2 = 10 ∧
      (rule.vars.map Var.id).Disjoint (again.vars.map Var.id) ∧
      (copy.vars.map Var.id).Disjoint (again.vars.map Var.id) := by
  intro x y z rule copy again
  have listed : rule.vars = [x, y, z] := by decide
  have below : ∀ v ∈ rule.vars, v.id < 7 := by decide
  have identified : Var.Identified rule.occurrences := by
    unfold Var.Identified
    decide
  obtain ⟨_, minted, numbered, _, same, apart⟩ := rename_is_fresh_variant rule 7
  obtain ⟨_, later, both⟩ := apart below 12 (by decide)
  exact ⟨listed, below, same identified, numbered, minted, later, both⟩

end Clause

end Horn
