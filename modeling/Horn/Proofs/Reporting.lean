import Horn.Proofs.Chains
import Horn.Proofs.Limits
import Horn.Proofs.NormalForms

/-!
# Reporting

What a query reports of an answer: the selected variables, each of them once, with what it walks
to or with what it resolves to. A variable that is selected again keeps its first place, and one
of the same name is another variable.

`Solution.Reports` says so by what is read from a solution. Its entries are put in one after
another, so that the value of a variable is the one that was put in last
(`Solution.get?_gather`).

How much is resolved is decided when an answer is reported, and the search does not know of it. So
two runs of a query, one with full values and one with shallow ones, find the same answers and
leave the same session, and to resolve a shallow value gives the full one
(`shallow_and_full_reports_agree`).
-/

namespace Horn

/-- To look for a variable, those that are listed once will do. -/
theorem Var.find?_listOnce (test : Var → Bool) {vars : List Var} (identified : Identified vars) :
    (listOnce vars).find? test = vars.find? test := by
  induction vars using List.reverseRecOn with
  | nil => rfl
  | append_singleton vars v ih =>
      have before : Identified vars := fun w member u memberToo =>
        identified w (List.mem_append_left _ member) u (List.mem_append_left _ memberToo)
      rw [listOnce_concat, insert, List.find?_append, ← ih before]
      split
      next known =>
        cases found : (listOnce vars).find? test with
        | some w => rfl
        | none =>
            obtain ⟨w, inVars, same⟩ := List.mem_map.mp (any_listOnce.mp known)
            have isLast : w = v := identified w (List.mem_append_left _ inVars) v (by simp) same
            rw [ih before] at found
            have refused := List.find?_eq_none.mp found w inVars
            rw [isLast] at refused
            simp [refused]
      next => rw [List.find?_append]

namespace Solution

variable {solution : Solution} {subst : Subst} {selected : List Var} {value : Var → Term}
variable {v w : Var}

/-! ## Putting in values -/

/-- The variables of the solution, in the order of its entries. -/
def vars (solution : Solution) : List Var :=
  solution.values.map Prod.fst

theorem vars_insert (solution : Solution) (v : Var) (value : Term) :
    (solution.insert v value).vars = Var.insert solution.vars v := by
  have known : solution.vars.any v.same = solution.values.any fun entry => entry.1.same v := by
    simp only [vars, List.any_map, Function.comp_def, Var.same, eq_comm]
  rw [insert, Var.insert, known]
  split
  next =>
    rw [vars, vars, List.map_map]
    apply List.map_congr_left
    intro entry _
    simp only [Function.comp_apply]
    split <;> rfl
  next => simp [vars]

theorem isSome_get? (solution : Solution) (v : Var) :
    (solution.get? v).isSome = solution.values.any fun entry => entry.1.same v := by
  rw [get?, Option.isSome_map, List.isSome_find?]

/-- Values are found by identity. -/
theorem get?_congr (same : w.same v = true) : solution.get? w = solution.get? v := by
  have sameId : w.id = v.id := of_decide_eq_true same
  simp only [get?, Var.same, sameId]

theorem get?_cons (entry : Var × Term) (rest : List (Var × Term)) (w : Var) :
    Solution.get? ⟨entry :: rest⟩ w =
      if entry.1.same w then some entry.2 else Solution.get? ⟨rest⟩ w := by
  rw [get?, List.find?_cons]
  cases entry.1.same w <;> rfl

/-- A value that is written again is found where the old one was. -/
theorem get?_rewrite (values : List (Var × Term)) (v : Var) (value : Term) (w : Var) :
    Solution.get? ⟨values.map fun entry => if entry.1.same v then (entry.1, value) else entry⟩ w =
      if w.same v then (Solution.get? ⟨values⟩ w).map fun _ => value
      else Solution.get? ⟨values⟩ w := by
  induction values with
  | nil => simp [get?]
  | cons entry rest ih =>
      rw [List.map_cons, get?_cons, get?_cons, ih]
      grind [Var.same]

theorem get?_concat (values : List (Var × Term)) (v : Var) (value : Term) (w : Var) :
    Solution.get? ⟨values ++ [(v, value)]⟩ w =
      (Solution.get? ⟨values⟩ w).or (if w.same v then some value else none) := by
  induction values with
  | nil => simp [get?, Var.same, eq_comm]
  | cons entry rest ih =>
      rw [List.cons_append, get?_cons, get?_cons, ih]
      cases entry.1.same w <;> rfl

/-- A value is found for its variable, and the others are found as before. -/
theorem get?_insert (solution : Solution) (v : Var) (value : Term) (w : Var) :
    (solution.insert v value).get? w = if w.same v then some value else solution.get? w := by
  rw [insert, ← isSome_get?]
  cases found : solution.get? v with
  | some older =>
      rw [Option.isSome_some, if_pos rfl, get?_rewrite]
      split
      next same => rw [get?_congr same, found, Option.map_some]
      next => rfl
  | none =>
      rw [Option.isSome_none, if_neg Bool.false_ne_true, get?_concat]
      split
      next same => rw [get?_congr same, found, Option.none_or]
      next => exact Option.or_none

/-- The values for variables put in one after another. -/
def gather (value : Var → Term) (selected : List Var) : Solution :=
  selected.foldl (fun solution v => solution.insert v (value v)) ⟨[]⟩

theorem gather_concat (value : Var → Term) (selected : List Var) (v : Var) :
    gather value (selected ++ [v]) = (gather value selected).insert v (value v) := by
  simp [gather]

theorem project_eq (subst : Subst) (selected : List Var) (full : Bool) :
    project subst selected full =
      gather (fun v => if full then subst.resolve (.var v) else subst.walk (.var v)) selected := rfl

/-- Variables keep the places that they first had. -/
theorem vars_gather (value : Var → Term) (selected : List Var) :
    (gather value selected).vars = Var.listOnce selected := by
  induction selected using List.reverseRecOn with
  | nil => rfl
  | append_singleton selected v ih => rw [gather_concat, vars_insert, ih, Var.listOnce_concat]

/-- The value that is found was put in last. -/
theorem get?_gather (value : Var → Term) (selected : List Var) (v : Var) :
    (gather value selected).get? v = (selected.reverse.find? v.same).map value := by
  induction selected using List.reverseRecOn with
  | nil => rfl
  | append_singleton selected w ih =>
      rw [gather_concat, get?_insert, ih, List.reverse_concat, List.find?_cons]
      cases v.same w <;> rfl

/-! ## Reading a solution -/

theorem get?_of_mem (nodup : (solution.vars.map Var.id).Nodup) {entry : Var × Term}
    (member : entry ∈ solution.values) : solution.get? entry.1 = some entry.2 := by
  have found : (solution.values.find? fun other => other.1.same entry.1) = some entry := by
    rw [vars, List.map_map] at nodup
    apply find?_eq_some_of_only member (decide_eq_true rfl)
    intro other inSolution same
    exact List.inj_on_of_nodup_map nodup inSolution member (of_decide_eq_true same)
  rw [get?, found, Option.map_some]

/-- The solution has the selected variables, once each in the order of selection. A variable has
the value for the one that was selected last with its identity, and none if there is no such one.
A name stands for the first variable of the solution that has it. Where every identity belongs to
one variable, these are the values for the variable itself and for the first selected one of the
name. -/
structure Reports (solution : Solution) (selected : List Var) (value : Var → Term) : Prop where
  vars : Var.ListsOnce solution.vars selected
  get?_of_mem : ∀ entry ∈ solution.values, solution.get? entry.1 = some entry.2
  get?_eq : ∀ v, solution.get? v = (selected.reverse.find? v.same).map value
  getNamed?_eq : ∀ name, solution.getNamed? name =
    (solution.vars.find? fun v => v.name = name).bind solution.get?
  get?_eq_value : Var.Identified selected → ∀ v ∈ selected, solution.get? v = some (value v)
  getNamed?_eq_value : Var.Identified selected → ∀ name,
    solution.getNamed? name = (selected.find? fun v => v.name = name).map value

theorem getNamed?_eq (found : ∀ entry ∈ solution.values, solution.get? entry.1 = some entry.2)
    (name : String) : solution.getNamed? name =
      (solution.vars.find? fun v => v.name = name).bind solution.get? := by
  have sameTest : (fun v : Var => decide (v.name = name)) ∘ Prod.fst =
      fun entry : Var × Term => decide (entry.1.name = name) := rfl
  rw [getNamed?, vars, List.find?_map, Option.bind_map, sameTest]
  cases first : solution.values.find? fun entry => entry.1.name = name with
  | none => rfl
  | some entry => exact (found entry (List.mem_of_find?_eq_some first)).symm

theorem find?_reverse_same (identified : Var.Identified selected) (member : v ∈ selected) :
    selected.reverse.find? v.same = some v := by
  apply find?_eq_some_of_only (List.mem_reverse.mpr member) (decide_eq_true rfl)
  intro w inSelected same
  exact (identified v member w (List.mem_reverse.mp inSelected) (of_decide_eq_true same)).symm

/-- The values for selected variables, put in one after another, are reported. -/
theorem reports_gather (value : Var → Term) (selected : List Var) :
    (gather value selected).Reports selected value := by
  have lists : Var.ListsOnce (gather value selected).vars selected := by
    rw [vars_gather]
    exact Var.listsOnce_listOnce selected
  have found : ∀ entry ∈ (gather value selected).values,
      (gather value selected).get? entry.1 = some entry.2 :=
    fun entry => get?_of_mem lists.nodup
  have own : Var.Identified selected → ∀ v ∈ selected,
      (gather value selected).get? v = some (value v) := by
    intro identified v member
    rw [get?_gather, find?_reverse_same identified member, Option.map_some]
  refine ⟨lists, found, get?_gather value selected, getNamed?_eq found, own, ?_⟩
  intro identified name
  rw [getNamed?_eq found, vars_gather, Var.find?_listOnce _ identified]
  cases first : selected.find? fun v => v.name = name with
  | none => rfl
  | some v => exact own identified v (List.mem_of_find?_eq_some first)

/-- The two solutions report one answer, the first one as far as walks go and the second one in
full: without bound variables, and as the values of the first one resolve. -/
structure Corresponds (subst : Subst) (selected : List Var) (shallow full : Solution) : Prop where
  shallow_reports : shallow.Reports selected fun v => subst.walk (.var v)
  full_reports : full.Reports selected fun v => subst.resolve (.var v)
  full_free : ∀ entry ∈ full.values, ∀ id ∈ entry.2.bare.vars, subst.lookup id = none
  full_eq : ∀ entry ∈ shallow.values, full.get? entry.1 = some (subst.resolve entry.2)

end Solution

theorem Subst.Acyclic.corresponds_project {subst : Subst} (acyclic : subst.Acyclic)
    (selected : List Var) :
    Solution.Corresponds subst selected (.project subst selected false)
      (.project subst selected true) := by
  have shallow : (Solution.project subst selected false).Reports selected _ :=
    Solution.reports_gather (fun v => subst.walk (.var v)) selected
  have full : (Solution.project subst selected true).Reports selected _ :=
    Solution.reports_gather (fun v => subst.resolve (.var v)) selected
  refine ⟨shallow, full, ?_, ?_⟩
  · intro entry member id inValue
    have found := full.get?_of_mem entry member
    rw [full.get?_eq, Option.map_eq_some_iff] at found
    obtain ⟨v, _, same⟩ := found
    rw [← same] at inValue
    exact acyclic.lookup_of_mem_vars_resolve inValue
  · intro entry member
    have found := shallow.get?_of_mem entry member
    rw [shallow.get?_eq, Option.map_eq_some_iff] at found
    obtain ⟨v, last, same⟩ := found
    rw [full.get?_eq, last, ← same, acyclic.resolve_walk, Option.map_some]

/-- A search collects extensions of the substitution that it was opened with. -/
theorem Search.extends_of_mem_collect {start : Subst} (steps : Nat) (limit : Option Nat)
    (search : Search) (session : Session)
    (grown : ∀ frame ∈ search.frames, start.Extends frame.subst) :
    ∀ answer ∈ (collect steps limit search session).answers, start.Extends answer := by
  by_cases enough : limit = some 0
  · subst enough
    simp
  induction steps generalizing limit search session with
  | zero => simp [collect]
  | succ steps ih =>
      rcases step_eq search session with
        ⟨_, step⟩ | ⟨found, left, step, move⟩ | ⟨left, between, step, move⟩
      · simp [collect, step]
      · obtain ⟨kept, answered⟩ := move.extended grown
        simp only [collect, step, List.forall_mem_cons]
        refine ⟨answered found rfl, ?_⟩
        by_cases last : limit.map (· - 1) = some 0
        · simp [last]
        · exact ih _ ⟨search.database, left⟩ session kept last
      · simp only [collect, step]
        exact ih limit ⟨search.database, left⟩ between (move.extended grown).1 enough

namespace Query

variable {query : Query}

/-- The query with full values, or without. -/
def reporting (query : Query) (full : Bool) : Query :=
  { query with full }

/-- What is found for a query has no cycles. -/
theorem acyclic_of_mem_found (query : Query) (database : Database) (steps : Nat)
    (session : Session) :
    ∀ answer ∈ (query.found database steps session).answers, answer.Acyclic := by
  have grown : ∀ frame ∈ (query.search database).frames, Subst.empty.Extends frame.subst :=
    List.forall_mem_singleton.mpr Subst.acyclic_empty.extends_self
  intro answer member
  exact (Search.extends_of_mem_collect _ _ _ _ grown answer member).acyclic

/-- Under an acyclic substitution, the full and the shallow solution for a list of selected
variables have these once each, in the order of selection, whether or not some are selected again
or share a name. The values of the first one have no bound variables, and the values of the second
one resolve to them. Two runs of a query that differ in this only are refused together, for a
limit of zero, or report the same answers, those that the search collects, in solutions that
correspond one by one; they come to their end or do not, and leave the same session with the same
identities minted. -/
theorem shallow_and_full_reports_agree :
    (∀ subst : Subst, subst.Acyclic → ∀ selected : List Var,
      Solution.Corresponds subst selected (.project subst selected false)
        (.project subst selected true)) ∧
    ∀ (query : Query) (engine : Engine) (steps : Nat) (session : Session),
      (query.limit = some 0 ∧ ∀ full, engine.query (query.reporting full) steps session =
        ⟨.error (.invalidLimit 0), true, session⟩) ∨
      ∃ (shallow full : List Solution) (after : Session),
        let found := query.found engine.database steps session
        engine.query (query.reporting false) steps session = ⟨.ok shallow, found.finished, after⟩ ∧
        engine.query (query.reporting true) steps session = ⟨.ok full, found.finished, after⟩ ∧
        after.nextVar = found.session.nextVar ∧
        shallow = found.answers.map (fun answer => .project answer query.selected false) ∧
        full = found.answers.map (fun answer => .project answer query.selected true) ∧
        ∀ answer ∈ found.answers, answer.Acyclic ∧
          Solution.Corresponds answer query.selected (.project answer query.selected false)
            (.project answer query.selected true) := by
  refine ⟨fun subst acyclic => acyclic.corresponds_project, ?_⟩
  intro query engine steps session
  by_cases zero : query.limit = some 0
  · left
    refine ⟨zero, ?_⟩
    intro full
    have refused : (query.reporting full).limit = some 0 := zero
    exact run_of_limit_zero refused engine.database steps session
  · right
    have positive (full : Bool) : (query.reporting full).limit ≠ some 0 := zero
    refine ⟨_, _, _, run_of_limit_ne_zero (positive false) engine.database steps session,
      run_of_limit_ne_zero (positive true) engine.database steps session, ?_, rfl, rfl, ?_⟩
    · split <;> rfl
    · intro answer member
      have acyclic := query.acyclic_of_mem_found engine.database steps session answer member
      exact ⟨acyclic, acyclic.corresponds_project query.selected⟩

/-- With `z` bound to `x`, `x` to `(y . b)` and `y` to `c`, the selection of `z`, another variable
named `x`, `x`, and `z` again. Both `z` and `x` have the shallow value `(y . b)` and the full value
`(c . b)`; the name stands for the other variable. -/
theorem shallow_and_full_reports_agree_aliases :
    let x : Var := ⟨0, "x"⟩
    let y : Var := ⟨1, "y"⟩
    let z : Var := ⟨2, "z"⟩
    let other : Var := ⟨3, "x"⟩
    let b : Term := .symbol "b"
    let c : Term := .symbol "c"
    let chain := ((Subst.empty.bind x (.pair (.var y) b)).bind y c).bind z (.var x)
    let selected := [z, other, x, z]
    let shallow : Solution :=
      ⟨[(z, .pair (.var y) b), (other, .var other), (x, .pair (.var y) b)]⟩
    let full : Solution := ⟨[(z, .pair c b), (other, .var other), (x, .pair c b)]⟩
    chain.Acyclic ∧ Solution.project chain selected false = shallow ∧
      Solution.project chain selected true = full ∧
      Solution.Corresponds chain selected shallow full ∧
      full.get? z = some (chain.resolve (.pair (.var y) b)) ∧
      full.getNamed? "x" = some (.var other) := by
  intro x y z other b c chain selected shallow full
  have acyclic : chain.Acyclic :=
    ((Subst.acyclic_empty.bind rfl (by decide)).bind rfl (by decide)).bind rfl (by decide)
  have corresponds : Solution.Corresponds chain selected shallow full :=
    shallow_and_full_reports_agree.1 chain acyclic selected
  have identified : Var.Identified selected := by
    unfold Var.Identified
    decide
  refine ⟨acyclic, rfl, rfl, corresponds, ?_, ?_⟩
  · exact corresponds.full_eq (z, .pair (.var y) b) (by simp [shallow])
  · exact corresponds.full_reports.getNamed?_eq_value identified "x"

end Query

end Horn
