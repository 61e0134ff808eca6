import Neuralbase.Library.Multigraph

namespace Neuralbase.Planner

open Neuralbase.Library

/-! Cycles of a join graph (`join_graph.rs`): a depth-first search that goes back to no vertex but
the one it came from. -/

section Model

structure JoinEdge where
  leftTable : String
  leftColumn : String
  rightTable : String
  rightColumn : String

structure JoinGraph where
  tables : List String
  edges : List JoinEdge

def JoinGraph.ends (graph : JoinGraph) : List (String × String) :=
  graph.edges.map fun edge => (edge.leftTable, edge.rightTable)

/-- The adjacency list of a vertex: each edge is entered at both of its ends. -/
def neighbors (ends : List (String × String)) (node : String) : List String :=
  ends.flatMap fun edge => (if edge.1 = node then [edge.2] else []) ++ if edge.2 = node then [edge.1] else []

/-- The loop over the neighbours: the answer, and the vertices visited until then. -/
def scan (visit : String → List String → Option (Bool × List String)) (parent : String) :
    List String → List String → Option (Bool × List String)
  | [], visited => some (false, visited)
  | nb :: rest, visited =>
    if nb ∈ visited then
      if nb ≠ parent then some (true, visited) else scan visit parent rest visited
    else
      match visit nb visited with
      | some (false, visited) => scan visit parent rest visited
      | outcome => outcome

/-- `none` when the calls nest deeper than `fuel`. -/
def dfsHasCycle (ends : List (String × String)) : Nat → String → String → List String → Option (Bool × List String)
  | 0, _, _, _ => none
  | fuel + 1, node, parent, visited =>
    scan (fun nb visited => dfsHasCycle ends fuel nb node visited) parent (neighbors ends node) (node :: visited)

def searchFrom (ends : List (String × String)) (fuel : Nat) : List String → List String → Option Bool
  | [], _ => some false
  | start :: rest, visited =>
    if start ∈ visited then searchFrom ends fuel rest visited
    else
      match dfsHasCycle ends fuel start "" visited with
      | some (true, _) => some true
      | some (false, visited) => searchFrom ends fuel rest visited
      | none => none

def hasCycle (fuel : Nat) (graph : JoinGraph) : Option Bool :=
  searchFrom graph.ends fuel graph.tables []

/-- An edge on a cycle, in a component that a listed table is in. -/
def Cyclic (graph : JoinGraph) : Prop :=
  ∃ table ∈ graph.tables, ∃ i x y, Relation.ReflTransGen (Adjacent graph.ends) table x ∧
    Joins graph.ends i x y ∧ OnCycle graph.ends i

end Model

section Places

variable {ends rest : List (String × String)} {node nb : String} {i j base : Nat}

/-- The adjacency list with the place of each edge. -/
def places (node : String) : Nat → List (String × String) → List (String × Nat)
  | _, [] => []
  | base, edge :: rest =>
    ((if edge.1 = node then [(edge.2, base)] else []) ++ if edge.2 = node then [(edge.1, base)] else []) ++
      places node (base + 1) rest

theorem map_places : (places node base ends).map Prod.fst = neighbors ends node := by
  induction ends generalizing base with
  | nil => rfl
  | cons edge rest induction =>
    rw [places, List.map_append, induction, neighbors, neighbors, List.flatMap_cons]
    congr 1
    split_ifs <;> rfl

theorem mem_places : (nb, i) ∈ places node base ends ↔ ∃ j, i = base + j ∧ Joins ends j node nb := by
  induction ends generalizing base with
  | nil => simp [places, Joins]
  | cons edge rest induction =>
    rw [places, List.mem_append, induction]
    constructor
    · intro found
      rcases found with here | ⟨j, rfl, joined⟩
      · refine ⟨0, ?_⟩
        obtain ⟨left, right⟩ := edge
        rcases List.mem_append.mp here with first | second
        · split_ifs at first with same
          · cases List.mem_singleton.mp first
            exact ⟨rfl, .inl (by simp [← same])⟩
          · cases first
        · split_ifs at second with same
          · cases List.mem_singleton.mp second
            exact ⟨rfl, .inr (by simp [← same])⟩
          · cases second
      · exact ⟨j + 1, by omega, joined⟩
    · intro ⟨j, place, joined⟩
      cases j with
      | zero =>
        refine .inl ?_
        rcases joined with here | there
        · cases here
          simp [place]
        · cases there
          simp [place]
      | succ j => exact .inr ⟨j, by omega, joined⟩

/-- One place comes twice in the list of a vertex only for a loop. -/
theorem pairwise_places : (places node base ends).Pairwise fun first second => first.2 = second.2 → second.1 = node := by
  induction ends generalizing base with
  | nil => exact .nil
  | cons edge rest induction =>
    rw [places, List.pairwise_append]
    refine ⟨?_, induction, ?_⟩
    · split_ifs with first second second
      · simp [first]
      · simp
      · simp
      · simp
    · intro entry here other later same
      obtain ⟨j, place, _⟩ := mem_places.mp (show (other.1, other.2) ∈ _ from later)
      have first : entry.2 = base := by
        rcases List.mem_append.mp here with one | one <;> split_ifs at one <;> simp_all
      omega

end Places

section Search

variable {ends : List (String × String)} {fuel : Nat} {node parent nb : String} {visited seen : List String}
  {pre rest : List (String × Nat)} {outcome : Bool × List String}

/-- What a call is entered with: it comes over an edge from a visited vertex, to which every visited
vertex with a way out is linked by visited ones; or it begins a component, and there is no way out. -/
structure Entry (ends : List (String × String)) (visited : List String) (node parent : String) : Prop where
  fresh : node ∉ visited
  origin : (parent ∈ visited ∧ Adjacent ends parent node ∧ ∀ x ∈ visited, ∀ y ∉ visited, Adjacent ends x y →
      Relation.ReflTransGen (Inside ends { v | v ∈ visited }) x parent) ∨
    ((∀ x y, Adjacent ends x y → x ≠ parent) ∧ ∀ x ∈ visited, ∀ y ∉ visited, ¬ Adjacent ends x y)

/-- What a call has found that returns false: the vertices it visited form a tree on its own, with
an edge to the parent at most. -/
structure Explored (ends : List (String × String)) (visited : List String) (node parent : String)
    (seen : List String) : Prop where
  grown : ∀ x ∈ visited, x ∈ seen
  here : node ∈ seen
  closed : ∀ x ∈ seen, x ∉ visited → ∀ y, Adjacent ends x y → (y ∈ seen ∧ y ∉ visited) ∨ (x = node ∧ y = parent)
  reach : ∀ x ∈ seen, x ∉ visited → Relation.ReflTransGen (Inside ends { v | v ∈ seen ∧ v ∉ visited }) x node
  bridges : ∀ x ∈ seen, x ∉ visited → ∀ i y, Joins ends i x y → Bridge ends i ∨ (x = node ∧ y = parent)

/-- The call has found a cycle in the component of its vertex. -/
def Found (ends : List (String × String)) (node : String) : Prop :=
  ∃ i x y, Relation.ReflTransGen (Adjacent ends) node x ∧ Joins ends i x y ∧ OnCycle ends i

def Answered (ends : List (String × String)) (visited : List String) (node parent : String)
    (outcome : Bool × List String) : Prop :=
  if outcome.1 then Found ends node else Explored ends visited node parent outcome.2

/-- The vertices visited below the node so far. -/
def Below (visited : List String) (node : String) (seen : List String) : Set String :=
  { v | v ∈ seen ∧ v ∉ visited ∧ v ≠ node }

/-- The loop has gone through the places `pre` of its vertex. -/
structure Scanned (ends : List (String × String)) (visited : List String) (node parent : String)
    (pre : List (String × Nat)) (seen : List String) : Prop where
  grown : ∀ x ∈ visited, x ∈ seen
  here : node ∈ seen
  passed : ∀ nb i, (nb, i) ∈ pre → nb ∈ seen ∧ nb ≠ node ∧ (nb ∈ visited → nb = parent)
  once : ∀ nb i j, (nb, i) ∈ pre → (nb, j) ∈ pre → nb ≠ parent → i = j
  closed : ∀ x ∈ Below visited node seen, ∀ y, Adjacent ends x y → y = node ∨ y ∈ Below visited node seen
  reach : ∀ x ∈ Below visited node seen, ∃ nb i, (nb, i) ∈ pre ∧ nb ∈ Below visited node seen ∧
    Relation.ReflTransGen (Inside ends (Below visited node seen)) x nb
  bridges : ∀ x ∈ Below visited node seen, ∀ i y, Joins ends i x y → Bridge ends i ∨
    (y = node ∧ ∃ S : Set String, x ∈ S ∧ (∀ v ∈ S, v ∈ Below visited node seen) ∧
      ∀ a b, Adjacent ends a b → a ∈ S → b ∈ S ∨ (a = x ∧ b = node))

theorem Entry.parent_not_below (entry : Entry ends visited node parent) {x y : String}
    (below : x ∈ Below visited node seen) (linked : Adjacent ends x y) : x ≠ parent := by
  rcases entry.origin with ⟨inside, _⟩ | ⟨outside, _⟩
  · intro same
    exact below.2.1 (same ▸ inside)
  · exact outside x y linked

theorem Entry.parent_ne (entry : Entry ends visited node parent) {x : String} (linked : Adjacent ends parent x) :
    parent ≠ node := by
  rcases entry.origin with ⟨inside, _⟩ | ⟨outside, _⟩
  · intro same
    exact entry.fresh (same ▸ inside)
  · exact absurd rfl (outside parent x linked)

theorem scanned_start : Scanned ends visited node parent [] (node :: visited) := by
  have nothing (x : String) : x ∉ Below visited node (node :: visited) := by
    intro ⟨inside, new, other⟩
    rcases List.mem_cons.mp inside with same | old
    · exact other same
    · exact new old
  exact {
    grown := fun x inside => List.mem_cons_of_mem _ inside
    here := List.mem_cons_self
    passed := fun _ _ inside => by cases inside
    once := fun _ _ _ inside => by cases inside
    closed := fun x below => absurd below (nothing x)
    reach := fun x below => absurd below (nothing x)
    bridges := fun x below => absurd below (nothing x) }

/-- Going back to the parent changes nothing. -/
theorem Scanned.back {i : Nat} (scanned : Scanned ends visited node parent pre seen)
    (entry : Entry ends visited node parent) (joined : Joins ends i node parent) (inside : parent ∈ seen) :
    Scanned ends visited node parent (pre ++ [(parent, i)]) seen where
  grown := scanned.grown
  here := scanned.here
  passed nb j member := by
    rcases List.mem_append.mp member with earlier | last
    · exact scanned.passed nb j earlier
    · cases List.mem_singleton.mp last
      exact ⟨inside, entry.parent_ne ⟨i, joined.symm⟩, fun _ => rfl⟩
  once nb j k first second other := by
    have earlier {m : Nat} (member : (nb, m) ∈ pre ++ [(parent, i)]) : (nb, m) ∈ pre := by
      rcases List.mem_append.mp member with earlier | last
      · exact earlier
      · cases List.mem_singleton.mp last
        exact absurd rfl other
    exact scanned.once nb j k (earlier first) (earlier second) other
  closed := scanned.closed
  reach x below := by
    obtain ⟨nb, j, member, inside, walk⟩ := scanned.reach x below
    exact ⟨nb, j, List.mem_append_left _ member, inside, walk⟩
  bridges := scanned.bridges

/-- The call for a neighbour that was not visited. -/
theorem Scanned.entry (scanned : Scanned ends visited node parent pre seen) (entry : Entry ends visited node parent)
    (linked : Adjacent ends node nb) (fresh : nb ∉ seen) : Entry ends seen nb node where
  fresh := fresh
  origin := by
    refine .inl ⟨scanned.here, linked, fun x inside y outside link => ?_⟩
    by_cases isNode : x = node
    · rw [isNode]
    by_cases old : x ∈ visited
    · rcases entry.origin with ⟨kept, ⟨e, back⟩, trail⟩ | ⟨_, noWay⟩
      · have walk := trail x old y (fun older => outside (scanned.grown y older)) link
        exact (walk_mono (fun v older => scanned.grown v older) walk).tail
          ⟨⟨e, back⟩, scanned.grown parent kept, scanned.here⟩
      · exact absurd link (noWay x old y fun older => outside (scanned.grown y older))
    · rcases scanned.closed x ⟨inside, old, isNode⟩ y link with same | below
      · exact absurd (same ▸ scanned.here) outside
      · exact absurd below.1 outside

/-- The neighbour's call has returned false. -/
theorem Scanned.extend {i : Nat} {later : List String} (scanned : Scanned ends visited node parent pre seen)
    (fresh : nb ∉ seen) (explored : Explored ends seen nb node later) :
    Scanned ends visited node parent (pre ++ [(nb, i)]) later := by
  have older {v : String} (below : v ∈ Below visited node seen) : v ∈ Below visited node later :=
    ⟨explored.grown v below.1, below.2⟩
  have newer {v : String} (inside : v ∈ later) (new : v ∉ seen) : v ∈ Below visited node later :=
    ⟨inside, fun old => new (scanned.grown v old), fun same => new (same ▸ scanned.here)⟩
  have split {v : String} (below : v ∈ Below visited node later) : v ∈ Below visited node seen ∨ v ∉ seen := by
    by_cases old : v ∈ seen
    · exact .inl ⟨old, below.2⟩
    · exact .inr old
  have child := newer explored.here fresh
  refine ⟨fun x inside => explored.grown x (scanned.grown x inside), explored.grown node scanned.here, ?_, ?_, ?_, ?_, ?_⟩
  · intro other j member
    rcases List.mem_append.mp member with earlier | last
    · obtain ⟨inside, rest⟩ := scanned.passed other j earlier
      exact ⟨explored.grown other inside, rest⟩
    · cases List.mem_singleton.mp last
      exact ⟨child.1, child.2.2, fun old => absurd old child.2.1⟩
  · intro other j k first second notParent
    have notNew {m : Nat} (member : (other, m) ∈ pre) : other ≠ nb := fun same =>
      fresh (same ▸ (scanned.passed other m member).1)
    rcases List.mem_append.mp first with earlier | last <;> rcases List.mem_append.mp second with earlier' | last'
    · exact scanned.once other j k earlier earlier' notParent
    · cases List.mem_singleton.mp last'
      exact absurd rfl (notNew earlier)
    · cases List.mem_singleton.mp last
      exact absurd rfl (notNew earlier')
    · cases List.mem_singleton.mp last
      cases List.mem_singleton.mp last'
      rfl
  · intro x below y link
    rcases split below with old | new
    · exact (scanned.closed x old y link).imp_right older
    · rcases explored.closed x below.1 new y link with ⟨inside, outside⟩ | ⟨_, same⟩
      · exact .inr (newer inside outside)
      · exact .inl same
  · intro x below
    rcases split below with old | new
    · obtain ⟨other, j, member, inside, walk⟩ := scanned.reach x old
      exact ⟨other, j, List.mem_append_left _ member, older inside, walk_mono (fun v => older) walk⟩
    · exact ⟨nb, i, List.mem_append_right _ (List.mem_singleton_self _), child,
        walk_mono (fun v inside => newer inside.1 inside.2) (explored.reach x below.1 new)⟩
  · intro x below j y link
    rcases split below with old | new
    · refine (scanned.bridges x old j y link).imp_right fun ⟨same, S, member, subset, leaves⟩ => ?_
      exact ⟨same, S, member, fun v inside => older (subset v inside), leaves⟩
    · refine (explored.bridges x below.1 new j y link).imp_right fun ⟨isChild, same⟩ => ?_
      refine ⟨same, { v | v ∈ later ∧ v ∉ seen }, ⟨below.1, new⟩, fun v inside => newer inside.1 inside.2, ?_⟩
      intro a b edge inside
      rw [isChild]
      exact explored.closed a inside.1 inside.2 b edge

/-- A visited neighbour that is not the parent closes a cycle. -/
theorem Scanned.found {i : Nat} (scanned : Scanned ends visited node parent pre seen)
    (entry : Entry ends visited node parent) (edges : ∀ c j, (c, j) ∈ pre → Joins ends j node c)
    (apart : ∀ c j, (c, j) ∈ pre → j = i → nb = node) (joined : Joins ends i node nb) (inside : nb ∈ seen)
    (other : nb ≠ parent) : Found ends node := by
  suffices onCycle : OnCycle ends i from ⟨i, node, nb, .refl, joined, onCycle⟩
  by_cases loop : nb = node
  · subst loop
    exact onCycle_of_walk joined .refl
  by_cases old : nb ∈ visited
  · -- back along the visited vertices to the parent, and over its edge
    rcases entry.origin with ⟨kept, ⟨e, back⟩, trail⟩ | ⟨_, noWay⟩
    · have walk := walk_around (trail nb old node entry.fresh ⟨i, joined.symm⟩) joined entry.fresh
      refine onCycle_of_walk joined.symm (walk.tail ⟨e, fun same => ?_, back⟩)
      subst same
      exact other (back.symm.other_end joined fun same => entry.fresh (same ▸ kept))
    · exact absurd ⟨i, joined.symm⟩ (noWay nb old node entry.fresh)
  · -- through the subtree of an earlier neighbour, and over its edge
    obtain ⟨c, j, member, below, walk⟩ := scanned.reach nb ⟨inside, old, loop⟩
    refine onCycle_of_walk joined.symm ((walk_around walk joined fun below => below.2.2 rfl).tail ⟨j, ?_, ?_⟩)
    · exact fun same => loop (apart c j member same)
    · exact (edges c j member).symm

/-- All places are gone through. -/
theorem Scanned.explored (scanned : Scanned ends visited node parent (places node 0 ends) seen)
    (entry : Entry ends visited node parent) : Explored ends visited node parent seen := by
  have listed {i : Nat} {y : String} (joined : Joins ends i node y) : (y, i) ∈ places node 0 ends :=
    mem_places.mpr ⟨i, (Nat.zero_add i).symm, joined⟩
  have into {x : String} (below : x ∈ Below visited node seen) : x ∈ seen ∧ x ∉ visited := ⟨below.1, below.2.1⟩
  -- an edge from below to the node is the only one that leaves its subtree
  have bridge {x y : String} {i : Nat} (below : x ∈ Below visited node seen) (joined : Joins ends i x y) : Bridge ends i := by
    rcases scanned.bridges x below i y joined with bridge | ⟨same, S, member, subset, leaves⟩
    · exact bridge
    · subst same
      refine ⟨S, ⟨x, y, joined, member, fun inside => (subset y inside).2.2 rfl⟩, fun k different a b edge start => ?_⟩
      rcases leaves a b ⟨k, edge⟩ start with stays | ⟨same, toNode⟩
      · exact stays
      · subst same toNode
        exact absurd (scanned.once a k i (listed edge.symm) (listed joined.symm)
          (entry.parent_not_below below ⟨i, joined⟩)) different
  refine ⟨scanned.grown, scanned.here, ?_, ?_, ?_⟩
  · intro x inside new y link
    by_cases isNode : x = node
    · subst isNode
      obtain ⟨i, joined⟩ := link
      obtain ⟨there, _, parentOnly⟩ := scanned.passed y i (listed joined)
      by_cases old : y ∈ visited
      · exact .inr ⟨rfl, parentOnly old⟩
      · exact .inl ⟨there, old⟩
    · rcases scanned.closed x ⟨inside, new, isNode⟩ y link with same | below
      · rw [same]
        exact .inl ⟨scanned.here, entry.fresh⟩
      · exact .inl (into below)
  · intro x inside new
    by_cases isNode : x = node
    · rw [isNode]
    · obtain ⟨c, i, member, below, walk⟩ := scanned.reach x ⟨inside, new, isNode⟩
      obtain ⟨j, rfl, joined⟩ := mem_places.mp member
      exact (walk_mono (fun v => into) walk).tail ⟨⟨j, joined.symm⟩, into below, scanned.here, entry.fresh⟩
  · intro x inside new i y joined
    by_cases isNode : x = node
    · subst isNode
      obtain ⟨there, other, parentOnly⟩ := scanned.passed y i (listed joined)
      by_cases old : y ∈ visited
      · exact .inr ⟨rfl, parentOnly old⟩
      · exact .inl (bridge ⟨there, old, other⟩ joined.symm)
    · exact .inl (bridge ⟨inside, new, isNode⟩ joined)

theorem scan_answered {visit : String → List String → Option (Bool × List String)}
    (visits : ∀ nb seen outcome, Entry ends seen nb node → visit nb seen = some outcome → Answered ends seen nb node outcome)
    (entry : Entry ends visited node parent) (whole : places node 0 ends = pre ++ rest)
    (scanned : Scanned ends visited node parent pre seen)
    (ran : scan visit parent (rest.map Prod.fst) seen = some outcome) : Answered ends visited node parent outcome := by
  induction rest generalizing pre seen with
  | nil =>
    cases ran
    rw [List.append_nil] at whole
    subst whole
    exact scanned.explored entry
  | cons place rest induction =>
    obtain ⟨nb, i⟩ := place
    have edges (c : String) (j : Nat) (member : (c, j) ∈ pre ++ (nb, i) :: rest) : Joins ends j node c := by
      rw [← whole] at member
      obtain ⟨k, same, joined⟩ := mem_places.mp member
      rw [Nat.zero_add] at same
      exact same ▸ joined
    have joined := edges nb i (by simp)
    have next : places node 0 ends = (pre ++ [(nb, i)]) ++ rest := by rw [whole, List.append_assoc]; rfl
    rw [List.map_cons, scan] at ran
    split_ifs at ran with inside other
    · cases ran
      have apart := (List.pairwise_append.mp (whole ▸ @pairwise_places ends node 0)).2.2
      exact scanned.found entry (fun c j member => edges c j (List.mem_append_left _ member))
        (fun c j member same => apart (c, j) member (nb, i) List.mem_cons_self same) joined inside other
    · have isParent := not_not.mp other
      subst isParent
      exact induction next (scanned.back entry joined inside) ran
    · have entered := scanned.entry entry ⟨i, joined⟩ inside
      cases called : visit nb seen with
      | none =>
        rw [called] at ran
        cases ran
      | some answer =>
        obtain ⟨found, later⟩ := answer
        have answered := visits nb seen _ entered called
        rw [called] at ran
        cases found with
        | true =>
          cases ran
          obtain ⟨k, x, y, reached, edge, onCycle⟩ := answered
          exact ⟨k, x, y, .head ⟨i, joined⟩ reached, edge, onCycle⟩
        | false => exact induction next (scanned.extend inside answered) ran

theorem dfsHasCycle_answered (entry : Entry ends visited node parent)
    (ran : dfsHasCycle ends fuel node parent visited = some outcome) : Answered ends visited node parent outcome := by
  induction fuel generalizing node parent visited outcome with
  | zero => cases ran
  | succ fuel induction =>
    rw [dfsHasCycle, ← @map_places ends node 0] at ran
    exact scan_answered (fun nb seen outcome entered called => induction entered called) entry rfl scanned_start ran

end Search

section Termination

variable {ends : List (String × String)} {fuel : Nat} {node parent : String} {visited names : List String}

/-- How many of the names were not visited. -/
def unvisited (names visited : List String) : Nat := names.countP fun name => name ∉ visited

theorem unvisited_mono {seen : List String} (grown : ∀ x ∈ visited, x ∈ seen) :
    unvisited names seen ≤ unvisited names visited :=
  List.countP_mono_left fun x _ new => by
    simp only [decide_eq_true_eq] at new ⊢
    exact fun old => new (grown x old)

theorem unvisited_cons (inside : node ∈ names) (fresh : node ∉ visited) :
    unvisited names (node :: visited) < unvisited names visited := by
  obtain ⟨front, back, rfl⟩ := List.append_of_mem inside
  have first := @unvisited_mono visited front (node :: visited) fun x old => List.mem_cons_of_mem _ old
  have second := @unvisited_mono visited back (node :: visited) fun x old => List.mem_cons_of_mem _ old
  simp only [unvisited] at first second ⊢
  rw [List.countP_append, List.countP_append, List.countP_cons_of_neg (by simp), List.countP_cons_of_pos (by simpa using fresh)]
  omega

theorem scan_returns {visit : String → List String → Option (Bool × List String)} {nbs : List String}
    (visits : ∀ nb ∈ nbs, ∀ seen, nb ∉ seen → unvisited names seen ≤ fuel →
      ∃ answer later, visit nb seen = some (answer, later) ∧ ∀ x ∈ seen, x ∈ later)
    (few : unvisited names visited ≤ fuel) :
    ∃ answer later, scan visit parent nbs visited = some (answer, later) ∧ ∀ x ∈ visited, x ∈ later := by
  induction nbs generalizing visited with
  | nil => exact ⟨false, visited, rfl, fun _ inside => inside⟩
  | cons nb nbs induction =>
    have others := fun other inside => visits other (List.mem_cons_of_mem nb inside)
    rw [scan]
    split_ifs with inside other
    · exact ⟨true, visited, rfl, fun _ inside => inside⟩
    · exact induction others few
    · obtain ⟨answer, later, called, grown⟩ := visits nb List.mem_cons_self visited inside few
      rw [called]
      cases answer with
      | true => exact ⟨true, later, rfl, grown⟩
      | false =>
        obtain ⟨answer, last, ran, more⟩ := induction others ((unvisited_mono grown).trans few)
        exact ⟨answer, last, ran, fun x inside => more x (grown x inside)⟩

theorem dfsHasCycle_returns (named : ∀ x y, Adjacent ends x y → y ∈ names) (inside : node ∈ names) (fresh : node ∉ visited)
    (few : unvisited names visited ≤ fuel) :
    ∃ answer later, dfsHasCycle ends fuel node parent visited = some (answer, later) ∧ ∀ x ∈ visited, x ∈ later := by
  induction fuel generalizing node parent visited with
  | zero => exact absurd few (Nat.not_le.mpr (Nat.zero_lt_of_lt (unvisited_cons inside fresh)))
  | succ fuel induction =>
    have fewer : unvisited names (node :: visited) ≤ fuel := by
      have := unvisited_cons inside fresh
      omega
    have visits : ∀ nb ∈ neighbors ends node, ∀ seen, nb ∉ seen → unvisited names seen ≤ fuel →
        ∃ answer later, dfsHasCycle ends fuel nb node seen = some (answer, later) ∧ ∀ x ∈ seen, x ∈ later := by
      intro nb member seen new few
      rw [← @map_places ends node 0] at member
      obtain ⟨⟨_, i⟩, place, rfl⟩ := List.mem_map.mp member
      obtain ⟨j, _, joined⟩ := mem_places.mp place
      exact induction (named node _ ⟨j, joined⟩) new few
    obtain ⟨answer, later, ran, grown⟩ := @scan_returns fuel parent (node :: visited) names _ _ visits fewer
    exact ⟨answer, later, ran, fun x old => grown x (List.mem_cons_of_mem _ old)⟩

end Termination

section Exactness

variable {ends : List (String × String)} {fuel : Nat} {starts visited names : List String} {answer : Bool}

/-- The visited components are trees. -/
structure Done (ends : List (String × String)) (visited : List String) : Prop where
  closed : ∀ x ∈ visited, ∀ y, Adjacent ends x y → y ∈ visited
  bridges : ∀ x ∈ visited, ∀ i y, Joins ends i x y → Bridge ends i

theorem Done.entry (done : Done ends visited) (filled : ∀ x y, Adjacent ends x y → x ≠ "") {start : String}
    (fresh : start ∉ visited) : Entry ends visited start "" :=
  ⟨fresh, .inr ⟨filled, fun x inside y outside link => outside (done.closed x inside y link)⟩⟩

theorem Done.explored {seen : List String} {start : String} (done : Done ends visited)
    (filled : ∀ x y, Adjacent ends x y → x ≠ "") (explored : Explored ends visited start "" seen) : Done ends seen := by
  constructor
  · intro x inside y link
    by_cases old : x ∈ visited
    · exact explored.grown y (done.closed x old y link)
    · rcases explored.closed x inside old y link with new | ⟨_, nameless⟩
      · exact new.1
      · obtain ⟨i, joined⟩ := link
        exact absurd nameless (filled y x ⟨i, joined.symm⟩)
  · intro x inside i y joined
    by_cases old : x ∈ visited
    · exact done.bridges x old i y joined
    · rcases explored.bridges x inside old i y joined with bridge | ⟨_, nameless⟩
      · exact bridge
      · exact absurd nameless (filled y x ⟨i, joined.symm⟩)

theorem searchFrom_spec (filled : ∀ x y, Adjacent ends x y → x ≠ "") (done : Done ends visited)
    (ran : searchFrom ends fuel starts visited = some answer) :
    (answer = true ∧ ∃ start ∈ starts, Found ends start) ∨
      (answer = false ∧ ∃ seen, Done ends seen ∧ (∀ x ∈ visited, x ∈ seen) ∧ ∀ start ∈ starts, start ∈ seen) := by
  induction starts generalizing visited with
  | nil =>
    cases ran
    exact .inr ⟨rfl, visited, done, fun _ inside => inside, by simp⟩
  | cons start starts induction =>
    -- the start is visited now, by an earlier call or by its own
    have goesOn {later : List String} (done : Done ends later) (more : ∀ x ∈ visited, x ∈ later) (here : start ∈ later)
        (ran : searchFrom ends fuel starts later = some answer) :
        (answer = true ∧ ∃ other ∈ start :: starts, Found ends other) ∨
          (answer = false ∧ ∃ seen, Done ends seen ∧ (∀ x ∈ visited, x ∈ seen) ∧ ∀ other ∈ start :: starts, other ∈ seen) := by
      rcases induction done ran with ⟨yes, other, inside, found⟩ | ⟨no, seen, finished, grown, all⟩
      · exact .inl ⟨yes, other, List.mem_cons_of_mem _ inside, found⟩
      · exact .inr ⟨no, seen, finished, fun x inside => grown x (more x inside),
          List.forall_mem_cons.mpr ⟨grown start here, all⟩⟩
    rw [searchFrom] at ran
    split_ifs at ran with old
    · exact goesOn done (fun _ inside => inside) old ran
    · cases called : dfsHasCycle ends fuel start "" visited with
      | none =>
        rw [called] at ran
        cases ran
      | some outcome =>
        obtain ⟨found, later⟩ := outcome
        have answered := dfsHasCycle_answered (done.entry filled old) called
        rw [called] at ran
        cases found with
        | true =>
          cases ran
          exact .inl ⟨rfl, start, List.mem_cons_self, answered⟩
        | false =>
          have explored : Explored ends visited start "" later := answered
          exact goesOn (done.explored filled explored) explored.grown explored.here ran

theorem searchFrom_returns (named : ∀ x y, Adjacent ends x y → y ∈ names) (listed : ∀ start ∈ starts, start ∈ names)
    (few : unvisited names visited ≤ fuel) : ∃ answer, searchFrom ends fuel starts visited = some answer := by
  induction starts generalizing visited with
  | nil => exact ⟨false, rfl⟩
  | cons start starts induction =>
    have others := fun other inside => listed other (List.mem_cons_of_mem start inside)
    rw [searchFrom]
    split_ifs with old
    · exact induction others few
    · obtain ⟨found, later, called, grown⟩ := @dfsHasCycle_returns ends fuel start "" visited names named
        (listed start List.mem_cons_self) old few
      rw [called]
      cases found with
      | true => exact ⟨true, rfl⟩
      | false => exact induction others ((unvisited_mono grown).trans few)

/-- Reached vertices are visited. -/
theorem Done.reached (done : Done ends visited) {x y : String} (walk : Relation.ReflTransGen (Adjacent ends) x y)
    (start : x ∈ visited) : y ∈ visited := by
  induction walk with
  | refl => exact start
  | tail _ link induction => exact done.closed _ induction _ link

theorem edge_of_adjacent {graph : JoinGraph} {x y : String} (link : Adjacent graph.ends x y) : ∃ edge ∈ graph.edges,
    (edge.leftTable = x ∧ edge.rightTable = y) ∨ (edge.leftTable = y ∧ edge.rightTable = x) := by
  obtain ⟨i, joined⟩ := link
  simp only [Joins, JoinGraph.ends, List.getElem?_map, Option.map_eq_some_iff, Prod.mk.injEq] at joined
  rcases joined with ⟨edge, found, ends⟩ | ⟨edge, found, ends⟩
  · exact ⟨edge, List.mem_of_getElem? found, .inl ends⟩
  · exact ⟨edge, List.mem_of_getElem? found, .inr ends⟩

/-- Every name that the graph has. -/
def JoinGraph.tableNames (graph : JoinGraph) : List String :=
  graph.tables ++ (graph.edges.map JoinEdge.leftTable ++ graph.edges.map JoinEdge.rightTable)

theorem mem_tableNames {graph : JoinGraph} {x y : String} (link : Adjacent graph.ends x y) : y ∈ graph.tableNames := by
  refine List.mem_append_right _ (List.mem_append.mpr ?_)
  obtain ⟨edge, inside, ⟨_, rfl⟩ | ⟨rfl, _⟩⟩ := edge_of_adjacent link
  · exact .inr (List.mem_map_of_mem inside)
  · exact .inl (List.mem_map_of_mem inside)

/-- A chain of two joins, and a third one that closes it. -/
def triangle : JoinGraph where
  tables := ["a", "b", "c"]
  edges := [⟨"a", "x", "b", "x"⟩, ⟨"b", "y", "c", "y"⟩, ⟨"c", "z", "a", "z"⟩]

end Exactness

end Neuralbase.Planner
