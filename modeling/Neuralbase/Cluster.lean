import Neuralbase.Library.Ranking
import Neuralbase.Library.BigEndian
import Neuralbase.Library.Utf8

namespace Neuralbase.Cluster

open Neuralbase.Library

/-! The node registry and rendezvous routing (`cluster/mod.rs`).  The registry is a hash map, so
its nodes come in any order: a router is given some order of the nodes that are alive. -/

section Model

structure NodeInfo where
  id : String
  raftAddr : String
  queryAddr : String
  lastHeartbeat : Nat
  alive : Bool
deriving DecidableEq

/-- The nodes of the map, one for each id. -/
structure NodeRegistry where
  nodes : List NodeInfo
  keyed : (nodes.map NodeInfo.id).Nodup

namespace NodeRegistry

def update (registry : NodeRegistry) (change : NodeInfo → NodeInfo) (keeps : ∀ node, (change node).id = node.id) :
    NodeRegistry where
  nodes := registry.nodes.map change
  keyed := by
    rw [List.map_map, show NodeInfo.id ∘ change = NodeInfo.id from funext keeps]
    exact registry.keyed

def recordHeartbeat (registry : NodeRegistry) (id : String) (now : Nat) : NodeRegistry :=
  registry.update (fun node => if node.id = id then { node with lastHeartbeat := now, alive := true } else node)
    fun node => by split <;> rfl

def overdue (now threshold : Nat) (node : NodeInfo) : Bool :=
  node.alive && decide (threshold < now - node.lastHeartbeat)

/-- `threshold` is the heartbeat interval times the number of heartbeats that may be missed. -/
def checkFailures (registry : NodeRegistry) (now threshold : Nat) : NodeRegistry :=
  registry.update (fun node => if overdue now threshold node then { node with alive := false } else node)
    fun node => by split <;> rfl

def aliveNodes (registry : NodeRegistry) : List NodeInfo :=
  registry.nodes.filter NodeInfo.alive

/-- A list of the living nodes, in the order of the map at the time of a call. -/
def Lists (registry : NodeRegistry) (alive : List NodeInfo) : Prop :=
  alive.Perm registry.aliveNodes

end NodeRegistry

def fnv1a (data : List UInt8) : UInt64 :=
  data.foldl (fun hash byte => (hash ^^^ byte.toUInt64) * 0x00000100000001b3) 0xcbf29ce484222325

def weight (shardId : UInt32) (id : String) : Nat :=
  (fnv1a (toBeBytes 4 shardId.toNat ++ utf8 id)).toNat

/-- `max_by_key`: the last of the elements with the greatest key. -/
def maxByKey {α : Type} (key : α → Nat) : List α → Option α :=
  List.foldl (fun best next => match best with
    | none => some next
    | some held => if key next < key held then some held else some next) none

def shardToNode (shardId : UInt32) (alive : List NodeInfo) : Option NodeInfo :=
  maxByKey (fun node => weight shardId node.id) alive

def shardReplicas (shardId : UInt32) (alive : List NodeInfo) (replicationFactor : Nat) : List NodeInfo :=
  (alive.insertionSort fun left right => weight shardId right.id ≤ weight shardId left.id).take replicationFactor

/-- Only the node `id` was marked. -/
def Marked (id : String) (before after : NodeRegistry) : Prop :=
  ∃ change : NodeInfo → NodeInfo, (∀ node, (change node).id = node.id) ∧
    after.nodes = before.nodes.map fun node => if node.id = id then change node else node

def DistinctWeights (shardId : UInt32) (registry : NodeRegistry) : Prop :=
  Apart (weight shardId) (registry.nodes.map NodeInfo.id)

end Model

section Selection

variable {shardId : UInt32} {registry before after : NodeRegistry} {alive other : List NodeInfo} {factor : Nat}
  {id : String} {now threshold : Nat}

theorem marked_recordHeartbeat : Marked id registry (registry.recordHeartbeat id now) :=
  ⟨fun node => { node with lastHeartbeat := now, alive := true }, fun _ => rfl, rfl⟩

theorem marked_checkFailures (one : ∀ node ∈ registry.nodes, NodeRegistry.overdue now threshold node = true → node.id = id) :
    Marked id registry (registry.checkFailures now threshold) := by
  refine ⟨fun node => if NodeRegistry.overdue now threshold node then { node with alive := false } else node,
    fun node => by dsimp only; split <;> rfl, List.map_congr_left fun node inside => ?_⟩
  by_cases late : NodeRegistry.overdue now threshold node = true
  · simp [late, one node inside late]
  · simp [late]

theorem maxByKey_spec {α : Type} (key : α → Nat) (items : List α) :
    (maxByKey key items = none ∧ items = []) ∨
      ∃ best, maxByKey key items = some best ∧ best ∈ items ∧ ∀ b ∈ items, key b ≤ key best := by
  induction items using List.reverseRecOn with
  | nil => exact .inl ⟨rfl, rfl⟩
  | append_singleton items next induction =>
    have unfolded : maxByKey key (items ++ [next]) = match maxByKey key items with
        | none => some next
        | some held => if key next < key held then some held else some next := by
      rw [maxByKey, List.foldl_append]
      rfl
    rw [unfolded]
    rcases induction with ⟨found, rfl⟩ | ⟨best, found, inside, greatest⟩
    · rw [found]
      exact .inr ⟨next, rfl, by simp, by simp⟩
    · rw [found]
      dsimp only
      split_ifs with lighter
      · refine .inr ⟨best, rfl, List.mem_append_left _ inside, fun b member => ?_⟩
        rcases List.mem_append.mp member with old | new
        · exact greatest b old
        · rw [List.mem_singleton.mp new]
          exact lighter.le
      · refine .inr ⟨next, rfl, List.mem_append_right _ (List.mem_singleton_self next), fun b member => ?_⟩
        rcases List.mem_append.mp member with old | new
        · exact (greatest b old).trans (not_lt.mp lighter)
        · rw [List.mem_singleton.mp new]

theorem ids_sublist (registry : NodeRegistry) :
    (registry.aliveNodes.map NodeInfo.id).Sublist (registry.nodes.map NodeInfo.id) :=
  List.filter_sublist.map _

theorem NodeRegistry.Lists.nodup (lists : registry.Lists alive) : (alive.map NodeInfo.id).Nodup :=
  ((lists.map NodeInfo.id).nodup_iff).mpr (registry.keyed.sublist (ids_sublist registry))

theorem NodeRegistry.Lists.apart (lists : registry.Lists alive) (distinct : DistinctWeights shardId registry) :
    Apart (weight shardId) (alive.map NodeInfo.id) := by
  have inside {i : String} (listed : i ∈ alive.map NodeInfo.id) : i ∈ registry.nodes.map NodeInfo.id :=
    (ids_sublist registry).subset ((lists.map NodeInfo.id).mem_iff.mp listed)
  exact fun i first j second equal => distinct i (inside first) j (inside second) equal

/-- Nodes of one registry with equal weights are the same. -/
theorem NodeRegistry.Lists.eq_of_weight (lists : registry.Lists alive) (distinct : DistinctWeights shardId registry)
    {left right : NodeInfo} (first : left ∈ alive) (second : right ∈ alive)
    (equal : weight shardId left.id = weight shardId right.id) : left = right :=
  List.inj_on_of_nodup_map lists.nodup first second
    (lists.apart distinct _ (List.mem_map_of_mem first) _ (List.mem_map_of_mem second) equal)

/-- The replicas are the heaviest of the living nodes. -/
theorem mem_shardReplicas (lists : registry.Lists alive) (distinct : DistinctWeights shardId registry) :
    id ∈ (shardReplicas shardId alive factor).map NodeInfo.id ↔
      Among (weight shardId) factor (alive.map NodeInfo.id) id := by
  have sorted := alive.perm_insertionSort fun left right => weight shardId right.id ≤ weight shardId left.id
  have ids := sorted.map NodeInfo.id
  rw [shardReplicas, List.map_take, ← among_perm ids]
  apply mem_take_of_descending
  -- no two of the sorted ids have one weight, so the order is strict
  have nodup := (ids.nodup_iff).mpr lists.nodup
  have ordered := alive.pairwise_insertionSort fun left right => weight shardId right.id ≤ weight shardId left.id
  rw [List.pairwise_map]
  refine (ordered.and (List.pairwise_map.mp nodup)).imp_of_mem fun first second related => ?_
  refine lt_of_le_of_ne related.1 fun equal => related.2 ?_
  rw [lists.eq_of_weight distinct (sorted.mem_iff.mp first) (sorted.mem_iff.mp second) equal.symm]

theorem head_shardReplicas (positive : 0 < factor) :
    (shardReplicas shardId alive factor).head? =
      (alive.insertionSort fun left right => weight shardId right.id ≤ weight shardId left.id).head? := by
  rw [shardReplicas, List.head?_take, if_neg positive.ne']

/-- The first replica, however many are asked for, is the node that carries the shard. -/
theorem shardToNode_eq_head (lists : registry.Lists alive) (others : registry.Lists other)
    (distinct : DistinctWeights shardId registry) (positive : 0 < factor) :
    shardToNode shardId alive = (shardReplicas shardId other factor).head? := by
  have same : alive.Perm other := lists.trans others.symm
  have sorted := other.perm_insertionSort fun left right => weight shardId right.id ≤ weight shardId left.id
  have ordered := other.pairwise_insertionSort fun left right => weight shardId right.id ≤ weight shardId left.id
  rw [head_shardReplicas positive]
  rw [shardToNode]
  rcases maxByKey_spec (fun node : NodeInfo => weight shardId node.id) alive with ⟨found, rfl⟩ | ⟨best, found, inside, greatest⟩
  · rw [found, List.nil_perm.mp same]
    rfl
  · rw [found]
    cases shape : other.insertionSort fun left right => weight shardId right.id ≤ weight shardId left.id with
    | nil =>
      rw [shape, List.nil_perm] at sorted
      rw [sorted, List.perm_nil] at same
      simp [same] at inside
    | cons first rest =>
      rw [shape] at sorted ordered
      have listed : first ∈ alive := same.mem_iff.mpr (sorted.mem_iff.mp List.mem_cons_self)
      have heaviest : weight shardId best.id ≤ weight shardId first.id := by
        rcases List.mem_cons.mp (sorted.mem_iff.mpr (same.mem_iff.mp inside)) with equal | later
        · rw [equal]
        · exact List.rel_of_pairwise_cons ordered later
      rw [List.head?_cons, lists.eq_of_weight distinct inside listed (heaviest.antisymm (greatest first listed))]

/-- The carrier of a shard is the id that heads the ranking. -/
theorem shardToNode_eq_some_iff (lists : registry.Lists alive) (distinct : DistinctWeights shardId registry) :
    (shardToNode shardId alive).map NodeInfo.id = some id ↔ Among (weight shardId) 1 (alive.map NodeInfo.id) id := by
  rw [shardToNode_eq_head lists lists distinct Nat.one_pos, ← mem_shardReplicas lists distinct]
  have short : (shardReplicas shardId alive 1).length ≤ 1 := List.length_take_le _ _
  cases shape : shardReplicas shardId alive 1 with
  | nil => simp
  | cons first rest =>
    rw [shape, List.length_cons] at short
    simp [List.length_eq_zero_iff.mp (Nat.le_zero.mp (Nat.le_of_succ_le_succ short)), eq_comm]

end Selection

section Disturbance

variable {shardId : UInt32} {before after : NodeRegistry} {old new : List NodeInfo} {factor : Nat} {id : String}

/-- A node that was not marked lives after the marking when it did before it. -/
theorem Marked.alive_iff (marked : Marked id before after) (was : before.Lists old) (is : after.Lists new)
    (i : String) (different : i ≠ id) : i ∈ old.map NodeInfo.id ↔ i ∈ new.map NodeInfo.id := by
  obtain ⟨change, keeps, nodes⟩ := marked
  rw [(was.map NodeInfo.id).mem_iff, (is.map NodeInfo.id).mem_iff, NodeRegistry.aliveNodes, NodeRegistry.aliveNodes, nodes]
  simp only [List.mem_map, List.mem_filter]
  constructor
  · rintro ⟨node, ⟨inside, alive⟩, rfl⟩
    exact ⟨node, ⟨⟨node, inside, if_neg different⟩, alive⟩, rfl⟩
  · rintro ⟨_, ⟨⟨node, inside, rfl⟩, alive⟩, named⟩
    by_cases other : node.id = id
    · rw [if_pos other, keeps, other] at named
      exact absurd named.symm different
    · rw [if_neg other] at alive named
      exact ⟨node, ⟨inside, alive⟩, named⟩

theorem Marked.distinct (marked : Marked id before after) (distinct : DistinctWeights shardId before) :
    DistinctWeights shardId after := by
  obtain ⟨change, keeps, nodes⟩ := marked
  have ids : after.nodes.map NodeInfo.id = before.nodes.map NodeInfo.id := by
    rw [nodes, List.map_map]
    refine List.map_congr_left fun node _ => ?_
    by_cases other : node.id = id
    · simp [other, keeps]
    · simp [other]
  rw [DistinctWeights, ids]
  exact distinct

/-- A shard whose carrier is another node keeps it, unless the marked node takes the shard. -/
theorem Marked.carrier (marked : Marked id before after) (was : before.Lists old) (is : after.Lists new)
    (distinct : DistinctWeights shardId before)
    (wasOther : (shardToNode shardId old).map NodeInfo.id ≠ some id)
    (isOther : (shardToNode shardId new).map NodeInfo.id ≠ some id) :
    (shardToNode shardId old).map NodeInfo.id = (shardToNode shardId new).map NodeInfo.id := by
  have survives := marked.alive_iff was is
  have later := marked.distinct distinct
  rw [Ne, shardToNode_eq_some_iff was distinct] at wasOther
  rw [Ne, shardToNode_eq_some_iff is later] at isOther
  refine Option.ext fun i => ?_
  rw [shardToNode_eq_some_iff was distinct, shardToNode_eq_some_iff is later]
  exact ⟨fun top => among_one_change survives isOther (fun equal => wasOther (equal ▸ top)) top,
    fun top => among_one_change (fun i different => (survives i different).symm) wasOther
      (fun equal => isOther (equal ▸ top)) top⟩

/-- One shard before and after the marking of a node, with the map listed in any order at each call. -/
theorem rendezvous_disturbs_minimally (shardId : UInt32) (before after : NodeRegistry) (id : String)
    (distinct : DistinctWeights shardId before)
    (marking : (∃ now, after = before.recordHeartbeat id now) ∨
      ∃ now threshold, after = before.checkFailures now threshold ∧
        ∀ node ∈ before.nodes, NodeRegistry.overdue now threshold node = true → node.id = id)
    (old new other : List NodeInfo) (was : before.Lists old) (again : before.Lists other) (is : after.Lists new) :
    (∀ factor, 0 < factor → shardToNode shardId old = (shardReplicas shardId other factor).head?) ∧
      ((shardToNode shardId old).map NodeInfo.id ≠ (shardToNode shardId new).map NodeInfo.id →
        (shardToNode shardId old).map NodeInfo.id = some id ∨ (shardToNode shardId new).map NodeInfo.id = some id) ∧
      ∀ factor, ∃ replacement, ∀ i, i ≠ id → i ≠ replacement →
        (i ∈ (shardReplicas shardId old factor).map NodeInfo.id ↔
          i ∈ (shardReplicas shardId new factor).map NodeInfo.id) := by
  have marked : Marked id before after := by
    rcases marking with ⟨now, rfl⟩ | ⟨now, threshold, rfl, one⟩
    · exact marked_recordHeartbeat
    · exact marked_checkFailures one
  refine ⟨fun factor positive => shardToNode_eq_head was again distinct positive, fun changed => ?_, fun factor => ?_⟩
  · by_contra neither
    exact changed (marked.carrier was is distinct (fun held => neither (.inl held)) fun held => neither (.inr held))
  · obtain ⟨replacement, change⟩ := among_change (was.apart distinct) (is.apart (marked.distinct distinct)) was.nodup
      is.nodup (marked.alive_iff was is)
    refine ⟨replacement, fun i notMarked notReplacement => ?_⟩
    rw [mem_shardReplicas was distinct, mem_shardReplicas is (marked.distinct distinct)]
    rcases change i with same | equal | equal
    · exact same
    · exact absurd equal notMarked
    · exact absurd equal notReplacement

def pair : NodeRegistry where
  nodes := [⟨"n1", "", "", 0, false⟩, ⟨"n2", "", "", 0, true⟩]
  keyed := by decide

theorem pair_distinctWeights : DistinctWeights 7 pair := by
  show ∀ a ∈ ["n1", "n2"], ∀ b ∈ ["n1", "n2"], weight 7 a = weight 7 b → a = b
  decide +kernel

theorem pair_revived : (shardToNode 7 pair.aliveNodes = (shardReplicas 7 pair.aliveNodes 2).head?) ∧
    ∃ replacement, ∀ i, i ≠ "n1" → i ≠ replacement → (i ∈ (shardReplicas 7 pair.aliveNodes 2).map NodeInfo.id ↔
      i ∈ (shardReplicas 7 (pair.recordHeartbeat "n1" 3).aliveNodes 2).map NodeInfo.id) :=
  have routed := rendezvous_disturbs_minimally 7 pair (pair.recordHeartbeat "n1" 3) "n1" pair_distinctWeights
    (.inl ⟨3, rfl⟩) pair.aliveNodes (pair.recordHeartbeat "n1" 3).aliveNodes pair.aliveNodes (List.Perm.refl _)
    (List.Perm.refl _) (List.Perm.refl _)
  ⟨routed.1 2 (by decide), routed.2.2 2⟩

end Disturbance

end Neuralbase.Cluster
