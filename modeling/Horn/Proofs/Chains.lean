import Horn.Proofs.Interleaving
import Horn.Proofs.MostGeneral

/-!
# Growing chains

A search binds free variables only. So every substitution that comes up in it is the
one it was opened with, under new bindings of variables that differ from each other and
from those bound before: no binding is ever hidden by a newer one, and no cycle arises.

`Subst.Extends` is this invariant and `substitutions_extend_start` the main result. The
occurs check alone would not do: it lets a bound variable be bound again, which may
close a cycle. What keeps the invariant is that unification walks first.
-/

namespace Horn

namespace Subst

variable {older newer subst left right : Subst} {v : Var} {id : Nat} {value : Term}

theorem mem_bound : id ∈ subst.bound ↔ id ∈ subst.bindings.map fun binding => binding.var.id :=
  List.mem_toFinset

/-- The variables without a value are those that no binding is for. -/
theorem lookup_eq_none_iff : subst.lookup id = none ↔ id ∉ subst.bound := by
  simp [lookup, mem_bound]

/-- The newer substitution is free of cycles, and its chain is that of the older one
under bindings of variables that are all different and not bound in the older one. The
size counts them all. -/
structure Extends (older newer : Subst) : Prop where
  acyclic : newer.Acyclic
  added : ∃ added : List Binding, newer.bindings = added ++ older.bindings ∧
    (added.map fun binding => binding.var.id).Nodup ∧
      ∀ binding ∈ added, binding.var.id ∉ older.bound
  size_eq : newer.size = newer.bindings.length

theorem Acyclic.extends_self (acyclic : subst.Acyclic) : subst.Extends subst :=
  ⟨acyclic, ⟨[], rfl, List.nodup_nil, by simp⟩, subst.size_eq⟩

/-- Binding one more free variable, unless it would become part of its own value. -/
theorem Extends.extend {extended : Subst} (grown : older.Extends newer)
    (free : newer.lookup v.id = none) (made : newer.extend v value = some extended) :
    older.Extends extended := by
  refine ⟨grown.acyclic.extend free made, ?_, extended.size_eq⟩
  obtain ⟨_, rfl⟩ := extend_eq_some_iff.mp made
  obtain ⟨added, chain, different, apart⟩ := grown.added
  rw [lookup_eq_none_iff, mem_bound, chain, List.map_append, List.mem_append, not_or] at free
  refine ⟨⟨v, value⟩ :: added, by simp [chain], ?_, ?_⟩
  · exact List.nodup_cons.mpr ⟨free.1, different⟩
  · exact List.forall_mem_cons.mpr ⟨fun bound => free.2 (mem_bound.mp bound), apart⟩

/-- Unification goes on extending: it walks to a free variable before it binds one. -/
theorem Unifying.extended {left right : Term} {unified : Subst}
    (run : Unifying subst left right (some unified)) (grown : older.Extends subst) :
    older.Extends unified := by
  generalize ends : some unified = result at run
  induction run generalizing unified with
  | sameVar => cases ends; exact grown
  | sameAtom => cases ends; exact grown
  | bindLeft walkLeft =>
      exact grown.extend (grown.acyclic.lookup_of_walk_eq_var walkLeft) ends.symm
  | bindRight _ walkRight =>
      exact grown.extend (grown.acyclic.lookup_of_walk_eq_var walkRight) ends.symm
  | clash => cases ends
  | heads => cases ends
  | tails _ _ _ _ headIH tailIH => exact tailIH (headIH grown rfl) ends

theorem Extends.unifyWith {sharing : Sharing} {left right : Term} {unified : Subst}
    (grown : older.Extends subst)
    (unifies : Subst.unifyWith sharing left right subst = some unified) :
    older.Extends unified := by
  have run := grown.acyclic.unifying_unifyWith sharing left right
  rw [unifies] at run
  exact run.extended grown

end Subst

namespace Search

variable {start : Subst} {database : Database} {frames later : List Frame}
variable {session after : Session} {answer : Option Subst}

/-- A move extends the substitutions that it goes on with. -/
theorem Move.extended (move : Move database frames session answer later after)
    (grown : ∀ frame ∈ frames, start.Extends frame.subst) :
    (∀ frame ∈ later, start.Extends frame.subst) ∧ ∀ found ∈ answer, start.Extends found :=
  move.preserves (motive := fun frame => start.Extends frame.subst) id id
    (fun grown _ _ unifies => Subst.Extends.unifyWith grown unifies) grown

/-- What unification returns under an acyclic substitution extends it, and so does every
substitution that a search opened with it holds in a frame or answers with, after any
number of turns among others. -/
theorem substitutions_extend_start (acyclic : start.Acyclic) :
    (∀ (sharing : Sharing) (left right : Term) (unified : Subst),
      Subst.unifyWith sharing left right start = some unified → start.Extends unified) ∧
    ∀ (database : Database) (goals : List Term) (search : Search),
      Opens database goals start search →
      ∀ (others : Others) (session : Session) (turns : Nat),
        (∀ frame ∈ (watchAmong others search session turns).search.frames,
          start.Extends frame.subst) ∧
        ∀ result ∈ (watchAmong others search session turns).results,
          start.Extends result.1 := by
  constructor
  · intro sharing left right unified unifies
    exact acyclic.extends_self.unifyWith unifies
  · intro database goals search opens others session turns
    have first : ∀ frame ∈ search.frames, start.Extends frame.subst := by
      obtain ⟨frame, rfl, _, rfl⟩ := opens.eq_singleton
      exact List.forall_mem_singleton.mpr (Subst.Acyclic.extends_self acyclic)
    have run := run_watchAmong others search session turns
    have kept := run.invariant
      (motive := fun frames _ => ∀ frame ∈ frames, start.Extends frame.subst)
      (fun grown _ => grown) (fun grown move => move.extended grown) first
    exact ⟨kept.1, List.forall_mem_map.mp kept.2⟩

/-- With `z` bound to `y`, a rule and the fact that it asks for, the search for `(q . z)`
binds `y` to the variable of the copied rule and that one to `a`. -/
theorem substitutions_extend_start_rule :
    let x : Var := ⟨0, "x"⟩
    let y : Var := ⟨1, "y"⟩
    let z : Var := ⟨2, "z"⟩
    let copied : Var := ⟨3, "x"⟩
    let p := Term.symbol "p"
    let q := Term.symbol "q"
    let a := Term.symbol "a"
    let database : Database := ⟨#[.fact (.pair p a), .rule (.pair q (.var x)) [.pair p (.var x)]]⟩
    let start := Subst.empty.bind z (.var y)
    let answer := (start.bind y (.var copied)).bind copied a
    let seen := watchAmong .nobody (all database [.pair q (.var z)] start) ⟨3, []⟩ 6
    start.Acyclic ∧ seen.results.map Prod.fst = [answer] ∧ start.Extends answer ∧
      Subst.unifyWith .structural (.var z) a start = some (start.bind y a) ∧
      start.Extends (start.bind y a) := by
  intro x y z copied p q a database start answer seen
  have acyclic : start.Acyclic := Subst.acyclic_empty.bind rfl (by decide)
  have unifies : Subst.unifyWith .structural (.var z) a start = some (start.bind y a) := by decide
  have ends : seen.results.map Prod.fst = [answer] := by
    simp only [seen, watchAmong_nobody]
    rfl
  have extended := substitutions_extend_start acyclic
  have answers : ∀ result ∈ seen.results, start.Extends result.1 :=
    (extended.2 database [.pair q (.var z)] _ .all .nobody ⟨3, []⟩ 6).2
  refine ⟨acyclic, ends, ?_, unifies, extended.1 .structural _ _ _ unifies⟩
  have listed : answer ∈ seen.results.map Prod.fst := by simp [ends]
  exact List.forall_mem_map.mpr answers answer listed

end Search

end Horn
