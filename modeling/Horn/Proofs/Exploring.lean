import Horn.Proofs.Independence

/-!
# Exploring a finite search tree

A search that comes to its end has gone through a finite tree. Which tree that is depends on
the goals, the substitution and the clauses, and on the session only by the identities of
copies. `Branch.Explored` says so without a session: to explore a branch is to make these
copies and to find these answers, in this order.

Which identities the copies have matters only as far as variables are kept apart. A tree can
be explored with other copies of the same clauses, and the answers are renamed accordingly
(`Branch.Explored.map`). Copies without common variables can be renumbered to be made one
after another, as a session makes them (`Copy.exists_serial`).
-/

namespace Horn

/-! ## Copies -/

/-- A clause that is copied, and the identity that comes first in the copy. -/
structure Copy where
  original : Clause
  next : Nat

namespace Copy

variable {copy : Copy} {copies first others images : List Copy} {next number : Nat}
variable {rename : Nat → Nat}

/-- The copy itself. -/
def clause (copy : Copy) : Clause :=
  copy.original.instantiate fun v => .var (copy.original.copyVar copy.next v.id)

/-- The identities of the copy, in the order in which they were minted. -/
def ids (copy : Copy) : List Nat :=
  copy.original.ids.map fun id => (copy.original.copyVar copy.next id).id

/-- The identities that were minted for all copies. -/
def minted (copies : List Copy) : List Nat :=
  copies.flatMap ids

@[simp] theorem minted_nil : minted [] = [] := rfl

@[simp] theorem minted_cons (copy : Copy) (copies : List Copy) :
    minted (copy :: copies) = copy.ids ++ minted copies := rfl

@[simp] theorem minted_append (first others : List Copy) :
    minted (first ++ others) = minted first ++ minted others :=
  List.flatMap_append

/-- The copies are made one after another, from the given identity on. -/
def Serial : Nat → List Copy → Prop
  | _, [] => True
  | next, copy :: rest => copy.next = next ∧ Serial (next + copy.ids.length) rest

theorem serial_append :
    Serial next (first ++ others) ↔
      Serial next first ∧ Serial (next + (minted first).length) others := by
  induction first generalizing next with
  | nil => simp [Serial]
  | cons copy first ih => simp [Serial, ih, and_assoc, Nat.add_assoc]

/-- The identities of copies made in series are those from the first one on. -/
theorem Serial.id_bounds (serial : Serial next copies) (member : number ∈ minted copies) :
    next ≤ number ∧ number < next + (minted copies).length := by
  induction copies generalizing next with
  | nil => cases member
  | cons copy copies ih =>
      obtain ⟨rfl, serial⟩ := serial
      rw [minted_cons, List.length_append, ← Nat.add_assoc]
      rcases List.mem_append.mp member with inCopy | inRest
      · obtain ⟨original, inClause, rfl⟩ := List.mem_map.mp inCopy
        have inside : (copy.original.copyVar copy.next original).id <
            copy.next + copy.original.vars.length := Clause.copyVar_id_lt inClause
        refine ⟨Nat.le_add_right _ _, Nat.lt_of_lt_of_le inside ?_⟩
        simp [ids, Clause.length_ids]
      · obtain ⟨above, below⟩ := ih serial inRest
        exact ⟨Nat.le_of_add_right_le above, below⟩

/-- A copy has none of the variables that were there before. -/
theorem Serial.not_mem_of_has {session : Session} (serial : Serial session.nextVar copies)
    (has : session.Has number) : number ∉ minted copies :=
  fun member => absurd has (Nat.not_lt.mpr (serial.id_bounds member).1)

/-- Copies made in series have no variable in common. -/
theorem Serial.nodup (serial : Serial next copies) : (minted copies).Nodup := by
  induction copies generalizing next with
  | nil => exact List.nodup_nil
  | cons copy copies ih =>
      have whole : Serial next ([copy] ++ copies) := serial
      obtain ⟨single, rest⟩ := serial_append.mp whole
      refine List.nodup_append.mpr ⟨copy.original.nodup_copies _, ih rest, ?_⟩
      rintro id inCopy _ inRest rfl
      have before := (single.id_bounds (by simpa using inCopy)).2
      exact absurd before (Nat.not_lt.mpr (rest.id_bounds inRest).1)

/-- The renaming takes the copy to one of the same clause. -/
structure Becomes (rename : Nat → Nat) (copy image : Copy) : Prop where
  original : image.original = copy.original
  ids : image.ids = copy.ids.map rename

theorem Becomes.copyVar {image : Copy} (becomes : copy.Becomes rename image) :
    ∀ id ∈ copy.original.ids, rename (copy.original.copyVar copy.next id).id =
      (copy.original.copyVar image.next id).id := by
  have same := becomes.ids
  simp only [Copy.ids, becomes.original, List.map_map, List.map_inj_left,
    Function.comp_apply] at same
  exact fun id member => (same id member).symm

/-- The renamed copy is the copy to which it is renamed. -/
theorem Becomes.clause {image : Copy} (becomes : copy.Becomes rename image) :
    copy.clause.head.map (Var.withId rename) id = image.clause.head ∧
      copy.clause.body.map (Term.map (Var.withId rename) id) = image.clause.body := by
  have same : image.clause =
      copy.original.instantiate fun v => .var (copy.original.copyVar image.next v.id) := by
    rw [Copy.clause, becomes.original]
  rw [same]
  exact @Session.map_copyOf ⟨copy.next, []⟩ ⟨image.next, []⟩ copy.original rename
    becomes.copyVar

/-- The renamed goal meets the other copy as the goal meets its own. -/
theorem Becomes.unify {image : Copy} (becomes : copy.Becomes rename image)
    (injective : rename.Injective) (goal : Term) (subst : Subst) :
    Subst.unify (goal.map (Var.withId rename) id) image.clause.head
        (subst.map (Var.withId rename) id) =
      (Subst.unify goal copy.clause.head subst).map (Subst.map (Var.withId rename) id) := by
  rw [← becomes.clause.1]
  exact Subst.unify_map (Var.faithful_change injective _) Function.injective_id _ _ _

theorem length_minted_of_becomes (become : List.Forall₂ (Becomes rename) copies images) :
    (minted images).length = (minted copies).length := by
  induction become with
  | nil => rfl
  | cons first _ ih => simp only [minted_cons, List.length_append, first.ids, List.length_map, ih]

/-- The same clauses, copied one after another. -/
def renumbered : Nat → List Copy → List Copy
  | _, [] => []
  | next, copy :: rest => ⟨copy.original, next⟩ :: renumbered (next + copy.ids.length) rest

theorem serial_renumbered (next : Nat) (copies : List Copy) :
    Serial next (renumbered next copies) := by
  induction copies generalizing next with
  | nil => trivial
  | cons copy copies ih =>
      refine ⟨rfl, ?_⟩
      simpa [ids] using ih (next + copy.ids.length)

theorem length_minted_renumbered (next : Nat) (copies : List Copy) :
    (minted (renumbered next copies)).length = (minted copies).length := by
  induction copies generalizing next with
  | nil => rfl
  | cons copy copies ih => simp [renumbered, ids, ih]

/-- A renaming that takes all variables to those of the renumbered copies takes copy to copy. -/
theorem becomes_renumbered (same : (minted copies).map rename = minted (renumbered next copies)) :
    List.Forall₂ (Becomes rename) copies (renumbered next copies) := by
  induction copies generalizing next with
  | nil => exact .nil
  | cons copy copies ih =>
      simp only [renumbered, minted_cons, List.map_append] at same
      obtain ⟨first, rest⟩ := List.append_inj same (by simp [ids])
      exact .cons ⟨rfl, first.symm⟩ (ih rest)

/-- Copies without common variables become copies that are made in series, while variables
stay as they are that have smaller identities and do not belong to a copy. -/
theorem exists_serial (apart : (minted copies).Nodup) (next : Nat) :
    ∃ (rename : Equiv.Perm Nat) (images : List Copy), Serial next images ∧
      List.Forall₂ (Becomes rename) copies images ∧
      ∀ id ∉ minted copies, id < next → rename id = id := by
  have serial := serial_renumbered next copies
  have length := length_minted_renumbered next copies
  let pairs := (minted copies).zip (minted (renumbered next copies))
  have sources : pairs.map Prod.fst = minted copies := List.map_fst_zip length.ge
  have targets : pairs.map Prod.snd = minted (renumbered next copies) :=
    List.map_snd_zip length.le
  obtain ⟨rename, taken, kept⟩ := exists_perm_of_pairs (Equiv.refl Nat) pairs
    (sources ▸ apart) (targets ▸ serial.nodup)
  refine ⟨rename, _, serial, becomes_renumbered ?_, ?_⟩
  · rw [← sources, ← targets, List.map_map]
    exact List.map_congr_left taken
  · intro id other older
    apply kept id (sources ▸ other)
    rw [targets]
    exact fun member => absurd older (Nat.not_lt.mpr (serial.id_bounds member).1)

end Copy

/-! ## Branches -/

/-- A part of a search tree: what is below goals, what is below a goal that is resolved with
clauses in this order, and what is below one such attempt. -/
inductive Branch where
  | prove (goals : List Term) (subst : Subst)
  | resolve (goal : Term) (rest : List Term) (subst : Subst) (clauses : List Clause)
  | attempt (goal : Term) (rest : List Term) (subst : Subst) (clause : Clause)

namespace Branch

/-- The branch with its variables renamed. Those of the clauses stay, since only copies of
them are used. -/
def map (rename : Nat → Nat) : Branch → Branch
  | .prove goals subst =>
      .prove (goals.map (Term.map (Var.withId rename) id)) (subst.map (Var.withId rename) id)
  | .resolve goal rest subst clauses =>
      .resolve (goal.map (Var.withId rename) id) (rest.map (Term.map (Var.withId rename) id))
        (subst.map (Var.withId rename) id) clauses
  | .attempt goal rest subst clause =>
      .attempt (goal.map (Var.withId rename) id) (rest.map (Term.map (Var.withId rename) id))
        (subst.map (Var.withId rename) id) clause

/-- A renaming that fixes what is given leaves the branch below it as it is. -/
theorem map_eq_self {goals : List Term} {start : Subst} {rename : Nat → Nat}
    (fixed : ∀ id ∈ Search.scope goals start, rename id = id) :
    (Branch.prove goals start).map rename = .prove goals start := by
  have only : (Frame.prove goals start).Only fun id => rename id = id :=
    Frame.only_iff.mpr fixed
  have same : (Frame.prove goals start).map (Var.withId rename) id = .prove goals start := by
    have agree : ∀ v : Var, rename v.id = v.id → v.withId rename = id v :=
      fun v same => congrArg (fun number => Var.mk number v.name) same
    rw [only.map_eq agree]
    exact Frame.map_id _
  simp only [Frame.map, Frame.prove.injEq] at same
  exact congrArg₂ prove same.1 same.2

/-- To explore the branch, when goals are resolved with the given clauses, is to make these
copies and to find these answers. -/
inductive Explored (clauses : List Clause) : Branch → List Copy → List Subst → Prop where
  | answer {subst : Subst} : Explored clauses (.prove [] subst) [] [subst]
  | select {goal : Term} {rest : List Term} {subst : Subst} {copies : List Copy}
      {answers : List Subst} :
      Explored clauses (.resolve goal rest subst clauses) copies answers →
      Explored clauses (.prove (goal :: rest) subst) copies answers
  | done {goal : Term} {rest : List Term} {subst : Subst} :
      Explored clauses (.resolve goal rest subst []) [] []
  | next {goal : Term} {rest : List Term} {subst : Subst} {clause : Clause}
      {older : List Clause} {first copies : List Copy} {found answers : List Subst} :
      Explored clauses (.attempt goal rest subst clause) first found →
      Explored clauses (.resolve goal rest subst older) copies answers →
      Explored clauses (.resolve goal rest subst (clause :: older)) (first ++ copies)
        (found ++ answers)
  /-- The head of a copy unifies with the goal, and its body is to be proved. -/
  | enter {goal : Term} {rest : List Term} {subst unified : Subst} {copy : Copy}
      {copies : List Copy} {answers : List Subst} :
      Subst.unify goal copy.clause.head subst = some unified →
      Explored clauses (.prove (copy.clause.body ++ rest) unified) copies answers →
      Explored clauses (.attempt goal rest subst copy.original) (copy :: copies) answers
  /-- The head of a copy does not unify with the goal. -/
  | skip {goal : Term} {rest : List Term} {subst : Subst} {copy : Copy} :
      Subst.unify goal copy.clause.head subst = none →
      Explored clauses (.attempt goal rest subst copy.original) [copy] []

/-- The other branch has related clauses left to resolve a goal with, and is the same
otherwise. -/
inductive With (related : List Clause → List Clause → Prop) : Branch → Branch → Prop where
  | prove {goals : List Term} {subst : Subst} :
      With related (.prove goals subst) (.prove goals subst)
  | resolve {goal : Term} {rest : List Term} {subst : Subst} {clauses others : List Clause} :
      related clauses others →
      With related (.resolve goal rest subst clauses) (.resolve goal rest subst others)
  | attempt {goal : Term} {rest : List Term} {subst : Subst} {clause : Clause} :
      With related (.attempt goal rest subst clause) (.attempt goal rest subst clause)

variable {clauses : List Clause} {branch : Branch} {copies images : List Copy}
variable {answers : List Subst} {rename : Nat → Nat}

/-- A branch is explored in the same way with other copies, renamed as these are. -/
theorem Explored.map (explored : branch.Explored clauses copies answers)
    (injective : rename.Injective) (become : List.Forall₂ (Copy.Becomes rename) copies images) :
    (branch.map rename).Explored clauses images
      (answers.map (Subst.map (Var.withId rename) id)) := by
  induction explored generalizing images with
  | answer =>
      cases become
      exact .answer
  | select _ ih => exact .select (ih become)
  | done =>
      cases become
      exact .done
  | @next _ _ _ _ _ first copies _ _ _ _ firstIH restIH =>
      have flipped : List.Forall₂ (flip (Copy.Becomes rename)) images (first ++ copies) :=
        become.flip
      have becomeFirst := (List.forall₂_take_append images first copies flipped).flip
      have becomeRest := (List.forall₂_drop_append images first copies flipped).flip
      rw [List.map_append, ← List.take_append_drop first.length images]
      exact .next (firstIH becomeFirst) (restIH becomeRest)
  | @enter goal _ subst _ copy _ _ unifies _ ih =>
      cases become with
      | @cons _ image _ _ becomes others =>
      have body := becomes.clause.2
      have unify := becomes.unify injective goal subst
      rw [unifies, Option.map_some] at unify
      have inside := ih others
      simp only [Branch.map, List.map_append, body] at inside ⊢
      rw [← becomes.original]
      exact .enter unify inside
  | @skip goal _ subst copy fails =>
      cases become with
      | @cons _ image _ _ becomes others =>
      cases others
      have unify := becomes.unify injective goal subst
      rw [fails, Option.map_none] at unify
      simp only [Branch.map]
      rw [← becomes.original]
      exact .skip unify

end Branch

end Horn
