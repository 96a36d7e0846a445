import Horn.Proofs.MostGeneral
import Horn.Proofs.Running

/-!
# Soundness of the search

`Derivable` closes the empty set of terms under the instances of the clauses: the
meaning of a database, without a search. `Derivable.From` leaves out the clauses
before an index, as a search does that has tried them.

The main result is `search_answers_derive`: whatever a search answers, the goals
follow from the database under every map that satisfies the answer.

The invariant looks at each frame on its own. A frame is sound for the goals of the
search if proving what it still has to prove would prove them, for every map that
satisfies its substitution. An attempt replaces a goal by the body of a clause whose
head is equal to it under all these maps, and so keeps the frame sound. Nothing
depends on the variables of the copy being new.
-/

namespace Horn

/-! ## What follows from a database -/

/-- The terms that follow from a database, without the names of variables: an instance of
a head does if the same instances of the body goals do. -/
inductive Derivable (database : Database) : Term Nat → Prop where
  | instance {clause : Clause} (image : Nat → Term Nat) :
      clause ∈ database.declared →
      (∀ goal ∈ clause.body, Derivable database (goal.bare.instantiate image)) →
      Derivable database (clause.head.bare.instantiate image)

namespace Derivable

variable {database : Database} {term : Term Nat} {index : Nat}

/-- The term follows by a last step with the clause of the index or an older one. -/
def From (database : Database) (index : Nat) (term : Term Nat) : Prop :=
  ∃ place clause image, index ≤ place ∧ database.nthNewest? place = some clause ∧
    clause.head.bare.instantiate image = term ∧
    ∀ goal ∈ clause.body, Derivable database (goal.bare.instantiate image)

theorem mem_declared_iff {clause : Clause} :
    clause ∈ database.declared ↔ ∃ place, database.nthNewest? place = some clause := by
  simp only [Database.nthNewest?_eq, ← List.mem_iff_getElem?, Database.newestFirst,
    List.mem_reverse]

/-- The newest clause is the first to be tried. -/
theorem iff_from_zero : Derivable database term ↔ From database 0 term := by
  constructor
  · rintro ⟨image, member, body⟩
    obtain ⟨place, found⟩ := mem_declared_iff.mp member
    exact ⟨place, _, image, Nat.zero_le _, found, rfl, body⟩
  · rintro ⟨place, clause, image, _, found, rfl, body⟩
    exact .instance image (mem_declared_iff.mpr ⟨place, found⟩) body

end Derivable

/-! ## Sound work -/

variable {database : Database} {goals : List Term} {start : Subst}

/-- The map satisfies the substitution and makes all goals derivable. -/
def Proves (database : Database) (image : Nat → Term Nat) (goals : List Term) (subst : Subst) :
    Prop :=
  subst.SatisfiedBy image ∧ ∀ goal ∈ goals, Derivable database (goal.bare.instantiate image)

/-- A copy is an instance of the clause, and so are the instances of the copy. -/
theorem Session.copyOf_sound {clause : Clause} {image : Nat → Term Nat} (session : Session)
    (member : clause ∈ database.declared)
    (body : ∀ goal ∈ (session.copyOf clause).body,
      Derivable database (goal.bare.instantiate image)) :
    Derivable database ((session.copyOf clause).head.bare.instantiate image) := by
  rcases session.exists_instance_of_copyOf clause image with ⟨original, headSame, bodySame⟩
  have instances : ∀ term ∈ clause.body.map fun goal => goal.bare.instantiate original,
      Derivable database term := by
    rw [← bodySame, List.forall_mem_map]
    exact body
  rw [headSame]
  exact .instance original member (List.forall_mem_map.mp instances)

namespace Frame

/-- The work leads nowhere but to proofs of the goals under the substitution. -/
structure Sound (database : Database) (goals : List Term) (start : Subst) (frame : Frame) :
    Prop where
  acyclic : frame.subst.Acyclic
  proves : ∀ image, Proves database image frame.goals frame.subst →
    Proves database image goals start

/-- Entering a clause whose head unifies with the goal keeps the work sound. -/
theorem Sound.enter {goal : Term} {rest : List Term} {subst unified : Subst} {index : Nat}
    {clause : Clause} {session : Session}
    (sound : Sound database goals start (.resolve goal rest subst index))
    (found : database.nthNewest? index = some clause)
    (unifies : Subst.unify goal (session.copyOf clause).head subst = some unified) :
    Sound database goals start (.prove ((session.copyOf clause).body ++ rest) unified) := by
  have acyclic : subst.Acyclic := sound.acyclic
  refine ⟨acyclic.of_unify unifies, ?_⟩
  rintro image ⟨satisfied, derivable⟩
  obtain ⟨older, equal⟩ := (acyclic.satisfiedBy_unify_iff unifies image).mp satisfied
  apply sound.proves
  refine ⟨older, ?_⟩
  intro other member
  rcases List.mem_cons.mp member with rfl | inRest
  · rw [equal]
    apply session.copyOf_sound (Derivable.mem_declared_iff.mpr ⟨index, found⟩)
    intro bodyGoal inBody
    exact derivable bodyGoal (List.mem_append_left rest inBody)
  · exact derivable other (List.mem_append_right _ inRest)

end Frame

namespace Search

variable {frames later : List Frame} {session after : Session} {answer : Option Subst}

/-- A move keeps all frames sound, and an answer is sound work without goals. -/
theorem Move.sound (move : Move database frames session answer later after)
    (sound : ∀ frame ∈ frames, frame.Sound database goals start) :
    (∀ frame ∈ later, frame.Sound database goals start) ∧
      ∀ found ∈ answer, (Frame.prove [] found).Sound database goals start :=
  move.preserves (fun sound => ⟨sound.acyclic, sound.proves⟩)
    (fun sound => ⟨sound.acyclic, sound.proves⟩)
    (fun sound _ found unifies => sound.enter found unifies) sound

theorem Opens.sound {search : Search} (opens : Opens database goals start search)
    (acyclic : start.Acyclic) :
    search.database = database ∧ ∀ frame ∈ search.frames, frame.Sound database goals start := by
  obtain ⟨frame, rfl, rfl, rfl⟩ := opens.eq_singleton
  refine ⟨rfl, ?_⟩
  intro other member
  cases List.mem_singleton.mp member
  exact ⟨acyclic, fun _ proves => proves⟩

/-- A search for goals under an acyclic substitution answers only with substitutions
that prove them: a map that satisfies an answer satisfies the substitution and makes
every goal derivable, and so does resolving under the answer. -/
theorem search_answers_derive {search rest : Search} {final : Session} {answers : List Subst}
    (acyclic : start.Acyclic) (opens : Opens database goals start search)
    (pulls : Pulls search session answers rest final) :
    ∀ answer ∈ answers,
      (∀ image, answer.SatisfiedBy image →
        start.SatisfiedBy image ∧
          ∀ goal ∈ goals, Derivable database (goal.bare.instantiate image)) ∧
      ∀ goal ∈ goals, Derivable database (answer.resolve goal).bare := by
  obtain ⟨same, sound⟩ := opens.sound acyclic
  obtain ⟨_, run⟩ := pulls.run
  rw [same] at run
  have answersSound := (run.invariant
    (motive := fun frames _ => ∀ frame ∈ frames, frame.Sound database goals start)
    (fun kept _ => kept) (fun kept move => move.sound kept) sound).2
  intro answer member
  have answerSound := answersSound answer member
  have proves : ∀ image, answer.SatisfiedBy image → Proves database image goals start := by
    intro image satisfied
    exact answerSound.proves image ⟨satisfied, by simp [Frame.goals]⟩
  refine ⟨proves, ?_⟩
  intro goal inGoals
  have acyclicAnswer : answer.Acyclic := answerSound.acyclic
  rw [acyclicAnswer.bare_resolve]
  exact (proves _ acyclicAnswer.satisfiedBy_solution).2 goal inGoals

/-- A rule that asks for the one fact there is: the search answers after one pull, with
the variable of the goal bound through that of the copy. -/
theorem search_answers_derive_rule :
    let x : Var := ⟨0, "x"⟩
    let y : Var := ⟨1, "y"⟩
    let copied : Var := ⟨2, "x"⟩
    let p := Term.symbol "p"
    let q := Term.symbol "q"
    let a := Term.symbol "a"
    let database : Database := ⟨#[.fact (.pair p a), .rule (.pair q (.var x)) [.pair p (.var x)]]⟩
    let goal := Term.pair q (.var y)
    let answer := (Subst.empty.bind y (.var copied)).bind copied a
    ((all database [goal] .empty).pull 9 ⟨2, []⟩).outcome = .found answer ∧
      answer.resolve goal = .pair q a ∧ Derivable database (answer.resolve goal).bare := by
  intro x y copied p q a database goal answer
  let pulled := (all database [goal] .empty).pull 9 ⟨2, []⟩
  have pulls : Pulls (all database [goal] .empty) ⟨2, []⟩ [answer] pulled.search pulled.session :=
    .found .start (Nat.le_refl 2) (show pulled = ⟨.found answer, _, _⟩ from rfl)
  have derives := search_answers_derive Subst.acyclic_empty .all pulls answer (by simp)
  exact ⟨rfl, by decide, derives.2 goal (by simp)⟩

end Search

end Horn
