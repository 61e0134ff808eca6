import Mathlib

namespace Neuralbase.Library

/-! Undirected multigraphs, given by a list of edges: parallel edges and loops have places of their
own in it. -/

section Definitions

variable {V : Type}

/-- The edge in place `i` joins the two vertices. -/
def Joins (edges : List (V × V)) (i : Nat) (x y : V) : Prop :=
  edges[i]? = some (x, y) ∨ edges[i]? = some (y, x)

def Adjacent (edges : List (V × V)) (x y : V) : Prop := ∃ i, Joins edges i x y

/-- A step over an edge other than that in place `i`. -/
def Around (edges : List (V × V)) (i : Nat) (x y : V) : Prop := ∃ j, j ≠ i ∧ Joins edges j x y

/-- The edge lies on a cycle: a walk over the other edges leads from one of its ends to the other. -/
def OnCycle (edges : List (V × V)) (i : Nat) : Prop :=
  ∃ x y, edges[i]? = some (x, y) ∧ Relation.ReflTransGen (Around edges i) x y

/-- A step that stays in a set of vertices. -/
def Inside (edges : List (V × V)) (S : Set V) (x y : V) : Prop := Adjacent edges x y ∧ x ∈ S ∧ y ∈ S

/-- The edge is the only one that leaves some set of vertices. -/
def Bridge (edges : List (V × V)) (i : Nat) : Prop :=
  ∃ S : Set V, (∃ x y, Joins edges i x y ∧ x ∈ S ∧ y ∉ S) ∧
    ∀ k, k ≠ i → ∀ x y, Joins edges k x y → x ∈ S → y ∈ S

end Definitions

section Walks

variable {V : Type} {edges : List (V × V)} {i j : Nat} {a b v w x y z : V} {S T : Set V}

theorem Joins.symm (joined : Joins edges i x y) : Joins edges i y x := joined.elim .inr .inl

theorem Joins.other_end (joined : Joins edges i x y) (also : Joins edges i x z) (different : x ≠ y) : z = y := by
  rcases joined with first | first <;> rcases also with second | second <;>
    (rw [first] at second; cases second; rfl)

theorem Joins.end_of (joined : Joins edges i w v) (also : Joins edges i a b) : w = a ∨ w = b := by
  rcases joined with first | first <;> rcases also with second | second <;>
    (rw [first] at second; cases second; simp)

theorem Around.symm (step : Around edges i x y) : Around edges i y x :=
  step.imp fun _ joined => ⟨joined.1, joined.2.symm⟩

theorem walk_symm (walk : Relation.ReflTransGen (Around edges i) x y) : Relation.ReflTransGen (Around edges i) y x := by
  induction walk with
  | refl => exact .refl
  | tail _ step induction => exact .head step.symm induction

theorem onCycle_of_walk (joined : Joins edges i x y) (walk : Relation.ReflTransGen (Around edges i) x y) :
    OnCycle edges i := by
  rcases joined with here | there
  · exact ⟨x, y, here, walk⟩
  · exact ⟨y, x, there, walk_symm walk⟩

/-- A walk in a set avoids the edges with an end outside of it. -/
theorem walk_around (walk : Relation.ReflTransGen (Inside edges S) x y) (joined : Joins edges i w v) (outside : w ∉ S) :
    Relation.ReflTransGen (Around edges i) x y := by
  refine Relation.ReflTransGen.mono (fun a b step => ?_) x y walk
  obtain ⟨⟨j, link⟩, first, second⟩ := step
  refine ⟨j, fun same => ?_, link⟩
  subst same
  rcases joined.end_of link with rfl | rfl
  · exact outside first
  · exact outside second

theorem Inside.mono (subset : ∀ v ∈ S, v ∈ T) (step : Inside edges S x y) : Inside edges T x y :=
  ⟨step.1, subset x step.2.1, subset y step.2.2⟩

theorem walk_mono (subset : ∀ v ∈ S, v ∈ T) (walk : Relation.ReflTransGen (Inside edges S) x y) :
    Relation.ReflTransGen (Inside edges T) x y :=
  Relation.ReflTransGen.mono (fun _ _ => Inside.mono subset) x y walk

theorem Bridge.not_onCycle (bridge : Bridge edges i) : ¬ OnCycle edges i := by
  intro ⟨x, y, place, walk⟩
  obtain ⟨S, ⟨a, b, joined, inside, outside⟩, kept⟩ := bridge
  have stays {x y : V} (walk : Relation.ReflTransGen (Around edges i) x y) (start : x ∈ S) : y ∈ S := by
    induction walk with
    | refl => exact start
    | tail _ step induction =>
      obtain ⟨k, other, link⟩ := step
      exact kept k other _ _ link induction
  rcases joined with here | there
  · rw [place] at here
    cases here
    exact outside (stays walk inside)
  · rw [place] at there
    cases there
    exact outside (stays (walk_symm walk) inside)

end Walks

end Neuralbase.Library
