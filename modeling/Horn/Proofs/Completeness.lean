import Horn.Proofs.Soundness
import Horn.Proofs.Variables

/-!
# Completeness of an exhausted search

The main result is `exhausted_search_complete`: a search that comes to its end has
answered with every way in which its goals follow from the database, and a query that
is answered with no has no instance that follows.

The invariant follows one map that makes the goals derivable. Some frame covers it:
the map, changed on variables minted since the search began, satisfies the
substitution of the frame and makes derivable what the frame has to prove. A frame
that is to try a clause covers derivations whose last step is by that clause or an
older one, and so either the copy of the clause takes over or the next clause does.
A search without frames covers nothing.
-/

namespace Horn

variable {database : Database} {origin session : Session} {image : Nat → Term Nat}

/-- An older map can be given any images on a copy, so that an instance of the clause
is an instance of the copy. -/
theorem Session.exists_image_copyOf (session : Session) (clause : Clause)
    (old new : Nat → Term Nat) :
    ∃ image : Nat → Term Nat, (∀ id, session.Has id → image id = old id) ∧
      (session.copyOf clause).head.bare.instantiate image = clause.head.bare.instantiate new ∧
      ((session.copyOf clause).body.map fun goal => goal.bare.instantiate image) =
        clause.body.map fun goal => goal.bare.instantiate new := by
  obtain ⟨image, older, copied⟩ := clause.exists_image session.nextVar old new
  have instanceOf : ∀ term : Term, (∀ id ∈ term.bare.vars, id ∈ clause.ids) →
      (term.instantiate fun v => .var (clause.copyVar session.nextVar v.id)).bare.instantiate
        image = term.bare.instantiate new := by
    intro term inside
    rw [Term.instantiate_bare_instantiate_var, Term.instantiate_bare]
    exact Term.instantiate_congr fun v member =>
      copied v.id (inside v.id (Term.id_mem_vars_bare member))
  refine ⟨image, older, ?_, ?_⟩
  · rw [copyOf, Clause.head_instantiate]
    exact instanceOf clause.head fun id member => Clause.mem_ids.mpr (.inl member)
  · rw [copyOf, Clause.body_instantiate, List.map_map]
    exact List.map_congr_left fun goal inBody =>
      instanceOf goal fun id member => Clause.mem_ids.mpr (.inr ⟨goal, inBody, member⟩)

namespace Frame

/-- The map makes derivable what the work has to prove, with the clauses that it has
not tried. -/
def Provable (database : Database) (image : Nat → Term Nat) : Frame → Prop
  | .prove goals _ => ∀ goal ∈ goals, Derivable database (goal.bare.instantiate image)
  | .resolve goal rest _ index =>
      Derivable.From database index (goal.bare.instantiate image) ∧
        ∀ other ∈ rest, Derivable database (other.bare.instantiate image)

/-- The work can still find the map, up to the variables minted since the origin. -/
def Covers (database : Database) (origin : Session) (image : Nat → Term Nat) (frame : Frame) :
    Prop :=
  ∃ extended : Nat → Term Nat, (∀ id, origin.Has id → extended id = image id) ∧
    frame.subst.SatisfiedBy extended ∧ frame.Provable database extended

variable {goal : Term} {rest : List Term} {subst : Subst} {index : Nat} {clause : Clause}

theorem Covers.select (covers : Covers database origin image (.prove (goal :: rest) subst)) :
    Covers database origin image (.resolve goal rest subst 0) := by
  obtain ⟨extended, agrees, satisfied, provable⟩ := covers
  obtain ⟨first, others⟩ := List.forall_mem_cons.mp provable
  exact ⟨extended, agrees, satisfied, Derivable.iff_from_zero.mp first, others⟩

theorem Covers.exists_clause
    (covers : Covers database origin image (.resolve goal rest subst index)) :
    index < database.size := by
  obtain ⟨_, _, _, ⟨place, _, _, bound, found, _⟩, _⟩ := covers
  exact bound.trans_lt (Database.lt_size_of_nthNewest? found)

/-- The clause that is tried takes over the map, or an older clause does. -/
theorem Covers.attempt (covers : Covers database origin image (.resolve goal rest subst index))
    (ready : (Frame.resolve goal rest subst index).Ready session)
    (older : origin.nextVar ≤ session.nextVar)
    (found : database.nthNewest? index = some clause) :
    (∃ unified, Subst.unify goal (session.copyOf clause).head subst = some unified ∧
      Covers database origin image (.prove ((session.copyOf clause).body ++ rest) unified)) ∨
      ∃ frame ∈ Search.alternatives database goal rest subst index,
        Covers database origin image frame := by
  obtain ⟨extended, agrees, satisfied, derivation, others⟩ := covers
  obtain ⟨place, last, new, bound, foundLast, instanceOf, body⟩ := derivation
  rcases Nat.eq_or_lt_of_le bound with rfl | later
  · left
    cases found.symm.trans foundLast
    obtain ⟨wider, kept, headCopy, bodyCopy⟩ := session.exists_image_copyOf clause extended new
    obtain ⟨inGoal, inRest⟩ := List.forall_mem_cons.mp ready.only.goals
    have widerSatisfied : subst.SatisfiedBy wider := satisfied.of_agree ready.only.subst kept
    have equal : goal.bare.instantiate wider =
        (session.copyOf clause).head.bare.instantiate wider := by
      rw [inGoal.instantiate_eq kept, headCopy, instanceOf]
    have acyclic : subst.Acyclic := ready.acyclic
    obtain ⟨unified, unifies, unifiedSatisfied⟩ := acyclic.exists_unify widerSatisfied equal
    refine ⟨unified, unifies, wider, ?_, unifiedSatisfied, ?_⟩
    · intro id has
      rw [kept id (Nat.lt_of_lt_of_le has older), agrees id has]
    · rw [Provable, List.forall_mem_append]
      constructor
      · have bodyDerivable : ∀ term ∈ (session.copyOf clause).body.map
            fun goal => goal.bare.instantiate wider, Derivable database term := by
          rw [bodyCopy]
          exact List.forall_mem_map.mpr body
        exact List.forall_mem_map.mp bodyDerivable
      · intro other member
        rw [(inRest other member).instantiate_eq kept]
        exact others other member
  · right
    have next : Covers database origin image (.resolve goal rest subst (index + 1)) :=
      ⟨extended, agrees, satisfied,
        ⟨place, last, new, later, foundLast, instanceOf, body⟩, others⟩
    exact ⟨_, Search.mem_alternatives.mpr ⟨next.exists_clause, rfl⟩, next⟩

end Frame

namespace Search

variable {frames later last : List Frame} {after final : Session} {answer : Option Subst}
variable {answers : List Subst}

/-- Some work covers the map, or an answer does. -/
theorem Move.covers (move : Move database frames session answer later after)
    (ready : ∀ frame ∈ frames, frame.Ready session) (older : origin.nextVar ≤ session.nextVar)
    (covers : ∃ frame ∈ frames, frame.Covers database origin image) :
    (∃ found ∈ answer, (Frame.prove [] found).Covers database origin image) ∨
      ∃ frame ∈ later, frame.Covers database origin image := by
  obtain ⟨frame, member, covers⟩ := covers
  cases move with
  | answer =>
      rcases List.mem_cons.mp member with rfl | below
      · exact .inl ⟨_, rfl, covers⟩
      · exact .inr ⟨frame, below, covers⟩
  | select =>
      right
      rcases List.mem_cons.mp member with rfl | below
      · exact ⟨_, List.mem_cons_self, covers.select⟩
      · exact ⟨frame, List.mem_cons_of_mem _ below, covers⟩
  | drop absent =>
      right
      rcases List.mem_cons.mp member with rfl | below
      · have outside := Database.nthNewest?_eq_none_iff.mp absent
        exact absurd covers.exists_clause (Nat.not_lt.mpr outside)
      · exact ⟨frame, below, covers⟩
  | enter found unifies =>
      right
      rcases List.mem_cons.mp member with rfl | below
      · rcases covers.attempt (ready _ member) older found with
          ⟨_, same, covers⟩ | ⟨next, alternative, covers⟩
        · cases unifies.symm.trans same
          exact ⟨_, List.mem_cons_self, covers⟩
        · exact ⟨next, List.mem_cons_of_mem _ (List.mem_append_left _ alternative), covers⟩
      · exact ⟨frame, List.mem_cons_of_mem _ (List.mem_append_right _ below), covers⟩
  | skip found fails =>
      right
      rcases List.mem_cons.mp member with rfl | below
      · rcases covers.attempt (ready _ member) older found with
          ⟨_, same, _⟩ | ⟨next, alternative, covers⟩
        · cases fails.symm.trans same
        · exact ⟨next, List.mem_append_left _ alternative, covers⟩
      · exact ⟨frame, List.mem_append_right _ below, covers⟩

/-- No map is lost on a run: it is covered by an answer or by the work that is left. -/
theorem Run.covers (run : Run database frames session answers last final)
    (ready : ∀ frame ∈ frames, frame.Ready session) (older : origin.nextVar ≤ session.nextVar)
    (covers : ∃ frame ∈ frames, frame.Covers database origin image) :
    (∃ found ∈ answers, (Frame.prove [] found).Covers database origin image) ∨
      ∃ frame ∈ last, frame.Covers database origin image := by
  induction run with
  | done => exact .inr covers
  | wait waited _ ih =>
      exact ih (fun frame member => (ready frame member).mono waited) (older.trans waited) covers
  | move move _ ih =>
      rcases move.covers ready older covers with ⟨found, member, covers⟩ | covers
      · left
        exact ⟨found, List.mem_append_left _ (by simpa using member), covers⟩
      · rcases ih (move.ready ready) (older.trans move.nextVar_le) covers with
          ⟨found, member, covers⟩ | covers
        · exact .inl ⟨found, List.mem_append_right _ member, covers⟩
        · exact .inr covers

variable {goals : List Term} {start : Subst} {search : Search}

theorem Opens.ready (opens : Opens database goals start search) (acyclic : start.Acyclic)
    (inGoals : ∀ goal ∈ goals, goal.Only session.Has) (inStart : start.Only session.Has) :
    ∀ frame ∈ search.frames, frame.Ready session := by
  obtain ⟨frame, rfl, rfl, rfl⟩ := opens.eq_singleton
  intro other member
  cases List.mem_singleton.mp member
  exact ⟨acyclic, inGoals, inStart⟩

/-- At first the work covers every map that satisfies the substitution and makes the
goals derivable. -/
theorem Opens.covers (opens : Opens database goals start search)
    (satisfied : start.SatisfiedBy image)
    (derivable : ∀ goal ∈ goals, Derivable database (goal.bare.instantiate image)) :
    ∃ frame ∈ search.frames, frame.Covers database origin image := by
  have covers : (Frame.prove goals start).Covers database origin image :=
    ⟨image, fun _ _ => rfl, satisfied, derivable⟩
  cases opens with
  | all => exact ⟨_, List.mem_singleton_self _, covers⟩
  | one => exact ⟨_, List.mem_singleton_self _, covers.select⟩

/-- An exhausted search has an answer for every map that satisfies the substitution and
makes the goals derivable. -/
theorem Exhausts.complete (exhausts : Exhausts search session answers)
    (opens : Opens database goals start search) (acyclic : start.Acyclic)
    (inGoals : ∀ goal ∈ goals, goal.Only session.Has) (inStart : start.Only session.Has)
    (satisfied : start.SatisfiedBy image)
    (derivable : ∀ goal ∈ goals, Derivable database (goal.bare.instantiate image)) :
    ∃ answer ∈ answers, ∃ extended : Nat → Term Nat,
      (∀ id, session.Has id → extended id = image id) ∧ answer.SatisfiedBy extended := by
  obtain ⟨frame, rfl, _⟩ := opens.eq_singleton
  obtain ⟨final, run⟩ := exhausts.run
  rcases run.covers (opens.ready acyclic inGoals inStart) (Nat.le_refl session.nextVar)
    (opens.covers satisfied derivable) with ⟨answer, member, extended, agrees, satisfied, _⟩ | left
  · exact ⟨answer, member, extended, agrees, satisfied⟩
  · obtain ⟨_, member, _⟩ := left
    exact absurd member List.not_mem_nil

end Search

/-- A query that is answered with no has come to the end of its search without answers. -/
theorem Query.exhausts_of_ask {query : Query} {steps : Nat}
    (no : (query.ask database steps session).1 = some false) :
    (Search.all database query.goals .empty).Exhausts session [] := by
  refine ⟨_, session, session, steps, .start, Nat.le_refl _, ?_⟩
  simp only [ask] at no
  split at no
  next => cases no
  next exhausted => exact exhausted
  next => cases no

namespace Search

/-- A search for goals under an acyclic substitution, opened when all their variables
were minted, misses nothing if it comes to an end: every map that satisfies the
substitution and makes the goals derivable satisfies one of the answers, once it is
changed on variables minted later. So no instance of the goals of a query follows from
the database if the query is answered with no. -/
theorem exhausted_search_complete (database : Database) :
    (∀ (goals : List Term) (start : Subst) (search : Search) (session : Session)
      (answers : List Subst), start.Acyclic →
      (∀ goal ∈ goals, goal.Only session.Has) → start.Only session.Has →
      Opens database goals start search → Exhausts search session answers →
      ∀ image : Nat → Term Nat, start.SatisfiedBy image →
        (∀ goal ∈ goals, Derivable database (goal.bare.instantiate image)) →
        ∃ answer ∈ answers, ∃ extended : Nat → Term Nat,
          (∀ id, session.Has id → extended id = image id) ∧ answer.SatisfiedBy extended) ∧
    ∀ (query : Query) (steps : Nat) (session : Session),
      (∀ goal ∈ query.goals, goal.Only session.Has) →
      (query.ask database steps session).1 = some false →
      ∀ image, ¬∀ goal ∈ query.goals, Derivable database (goal.bare.instantiate image) := by
  constructor
  · intro goals start search session answers acyclic inGoals inStart opens exhausts image
      satisfied derivable
    exact exhausts.complete opens acyclic inGoals inStart satisfied derivable
  · intro query steps session inGoals no image derivable
    have exhausts := Query.exhausts_of_ask no
    rcases exhausts.complete .all Subst.acyclic_empty inGoals Subst.only_empty
      Subst.satisfiedBy_empty derivable with ⟨_, member, _⟩
    exact absurd member List.not_mem_nil

/-- With `(p . a)` and a rule from `p` to `q` the search for `(q . y)` has one answer
and ends. So `(q . a)` is the only instance that follows; and asking for `(q . b)` gives
no. -/
theorem exhausted_search_complete_rule :
    let x : Var := ⟨0, "x"⟩
    let y : Var := ⟨1, "y"⟩
    let copied : Var := ⟨2, "x"⟩
    let p := Term.symbol "p"
    let q := Term.symbol "q"
    let a := Term.symbol "a"
    let b := Term.symbol "b"
    let database : Database := ⟨#[.rule (.pair q (.var x)) [.pair p (.var x)], .fact (.pair p a)]⟩
    let goal := Term.pair q (.var y)
    let answer := (Subst.empty.bind y (.var copied)).bind copied a
    let session : Session := ⟨2, []⟩
    Exhausts (all database [goal] .empty) session [answer] ∧
      (∀ image, Derivable database (goal.bare.instantiate image) → image y.id = a.bare) ∧
      ∀ image, ¬∀ term ∈ [Term.pair q b], Derivable database (term.bare.instantiate image) := by
  intro x y copied p q a b database goal answer session
  have onlyGoal : ∀ term ∈ [goal], term.Only session.Has := by
    simp [goal, q, y, Term.Only, Term.symbol, Term.vars, session, Session.Has]
  have onlyAsked : ∀ term ∈ [Term.pair q b], term.Only session.Has := by
    simp [q, b, Term.Only, Term.symbol, Term.vars]
  let pulled := (all database [goal] .empty).pull 9 session
  have pulls : Pulls (all database [goal] .empty) session [answer] pulled.search pulled.session :=
    .found .start (Nat.le_refl 2) (show pulled = ⟨.found answer, _, _⟩ from rfl)
  have exhausts : Exhausts (all database [goal] .empty) session [answer] :=
    ⟨pulled.search, pulled.session, pulled.session, 9, pulls, Nat.le_refl _, rfl⟩
  have complete := exhausted_search_complete database
  refine ⟨exhausts, ?_, ?_⟩
  · intro image derivable
    rcases complete.1 [goal] .empty _ session [answer] Subst.acyclic_empty onlyGoal
      Subst.only_empty .all exhausts image Subst.satisfiedBy_empty
      (by simpa using derivable) with ⟨found, member, extended, agrees, satisfied⟩
    cases List.mem_singleton.mp member
    rw [← agrees y.id Nat.one_lt_two, satisfied y.id (.var copied) (by decide)]
    exact satisfied copied.id a (by decide)
  · exact complete.2 ⟨[.pair q b], [], none, false⟩ 9 session onlyAsked (by decide)

end Search

end Horn
