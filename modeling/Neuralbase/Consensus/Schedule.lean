import Neuralbase.Consensus.Safety.Voters
import Neuralbase.Library.PrefixCode

namespace Neuralbase.Consensus

open Neuralbase.Library

/-! Schedules: runs written down move by move and executed.  A delivery names a
message by its position in the history, so that every schedule is a run. -/

section Codes

def changeCode : PrefixCode MembershipChange :=
  (PrefixCode.nat.pair PrefixCode.string).via
    (fun
      | .addNode id => (0, id)
      | .addLearner id => (1, id)
      | .promoteLearner id => (2, id)
      | .removeNode id => (3, id)
      | .finalizeJoint => (4, ""))
    (fun
      | (0, id) => .addNode id
      | (1, id) => .addLearner id
      | (2, id) => .promoteLearner id
      | (3, id) => .removeNode id
      | _ => .finalizeJoint)
    fun change => by cases change <;> rfl

def jointCode : PrefixCode JointConfig :=
  (PrefixCode.string.finset.pair PrefixCode.string.finset).via
    (fun joint => (joint.oldVoters, joint.newVoters)) (fun sets => ⟨sets.1, sets.2⟩) fun _ => rfl

def membershipCode : PrefixCode ClusterMembership :=
  (((PrefixCode.nat.via UInt8.toNat UInt8.ofNat fun _ => UInt8.ofNat_toNat).pair
    (PrefixCode.nat.pair PrefixCode.nat)).pair
    ((PrefixCode.string.finset.pair PrefixCode.string.finset).pair
      (jointCode.option.pair PrefixCode.string.finset))).via
    (fun m => ((m.formatVersion, m.generation, m.configIndex), (m.voters, m.learners), m.joint,
      m.removed))
    (fun fields => ⟨fields.1.1, fields.1.2.1, fields.1.2.2, fields.2.1.1, fields.2.1.2,
      fields.2.2.1, fields.2.2.2⟩) fun _ => rfl

def parse {α : Type} (code : PrefixCode α) (bytes : Bytes) : Except String α :=
  match code.decode bytes with
  | some (value, []) => .ok value
  | _ => .error "malformed"

theorem parse_encode {α : Type} (code : PrefixCode α) (value : α) : parse code (code.encode value) = .ok value := by
  rw [parse, code.decode_encode_nil]

def plainCodec : Codec where
  changeToVec := changeCode.encode
  changeFromSlice := parse changeCode
  changeFromSlice_toVec := parse_encode changeCode
  guardedFromSlice := fun _ => .error "malformed"
  membershipToVec := membershipCode.encode
  membershipFromSlice := parse membershipCode
  membershipFromSlice_toVec := parse_encode membershipCode
  sha256 := fun _ => List.replicate 32 0
  length_sha256 := fun _ => List.length_replicate

end Codes

def calm : Environment where
  createSnapshot := fun _ _ => .ok []
  validateSnapshot := fun _ _ _ => .ok ()
  restoreSnapshot := fun _ _ _ => .ok ()
  stageSnapshot := .ok ()
  clearStagedSnapshot := .ok ()
  transferExpired := false

def Cluster.sent (c : Cluster) (sender peer : NodeId) (message : RaftMessage) : Bool :=
  c.history.any fun
    | (source, .send target sent) => source = sender && target = peer && sent = message
    | _ => false

theorem Cluster.sent_iff {c : Cluster} {sender peer : NodeId} {message : RaftMessage} :
    c.sent sender peer message = true ↔ c.Sent sender peer message := by
  unfold Cluster.sent Cluster.Sent
  rw [List.any_eq_true]
  constructor
  · rintro ⟨⟨source, effect⟩, inside, same⟩
    cases effect with
    | send target sent =>
      simp only [Bool.and_eq_true, decide_eq_true_eq] at same
      obtain ⟨⟨rfl, rfl⟩, rfl⟩ := same
      exact inside
    | _ => simp at same
  · intro inside
    exact ⟨_, inside, by simp⟩

instance {c : Cluster} {sender peer : NodeId} {message : RaftMessage} :
    Decidable (c.Sent sender peer message) :=
  decidable_of_iff _ Cluster.sent_iff

instance : DecidableRel Genuine := fun _ a =>
  inferInstanceAs (Decidable (∀ delivery ∈ a.work.delivered, _))

instance (codec : Codec) (voters : Finset NodeId) : DecidablePred (FixedVoters codec voters) :=
  fun _ => inferInstanceAs (Decidable (_ ∧ _))

inductive Move where
  | boot (node : NodeId) (config : BootConfig)
  /-- Deliver the message at this position of the history. -/
  | deliver (position : Nat)
  | input (node : NodeId) (event : Input)
  | apply (node : NodeId)
  /-- The process dies. -/
  | crash (node : NodeId)

def Move.action (c : Cluster) : Move → Option Action
  | .boot node config => some { node, work := .boot config, env := calm, crashAfter := none }
  | .deliver position =>
    match c.history[position]? with
    | some (sender, .send node message) =>
      some { node, work := .event (.message sender message), env := calm, crashAfter := none }
    | _ => none
  | .input node event => some { node, work := .event event, env := calm, crashAfter := none }
  | .apply node => some { node, work := .apply .completed, env := calm, crashAfter := none }
  | .crash node =>
    some { node, work := .event .heartbeatTick, env := calm, crashAfter := some 0 }

section Play

variable (codec : Codec) (allowed : Cluster → Action → Prop) [DecidableRel allowed]

def Move.play (state : Cluster × List Cluster) (move : Move) : Option (Cluster × List Cluster) :=
  match move.action state.1 with
  | none => none
  | some a =>
    if allowed state.1 a then
      (state.1.exec codec a).map fun next => (next, next :: state.2)
    else none

def playFrom : Cluster × List Cluster → List Move → Option (Cluster × List Cluster)
  | state, [] => some state
  | state, move :: rest => (move.play codec allowed state).bind fun next => playFrom next rest

def play (moves : List Move) : Option (Cluster × List Cluster) :=
  playFrom codec allowed (.initial, [.initial]) moves

variable {codec allowed}

theorem playFrom_run {moves : List Move} {state last : Cluster × List Cluster} (run : Run codec allowed state.1 state.2)
    (played : playFrom codec allowed state moves = some last) : Run codec allowed last.1 last.2 := by
  induction moves generalizing state with
  | nil =>
    cases played
    exact run
  | cons move rest induction =>
    obtain ⟨next, moved, played⟩ := Option.bind_eq_some_iff.mp played
    refine induction ?_ played
    unfold Move.play at moved
    split at moved
    · cases moved
    split at moved
    · rename_i a _ permitted
      obtain ⟨reached, executed, rfl⟩ := Option.map_eq_some_iff.mp moved
      exact .step run permitted executed
    · cases moved

end Play

theorem exists_run (codec : Codec) (allowed : Cluster → Action → Prop) [DecidableRel allowed]
    (moves : List Move) (found : Cluster → List Cluster → Bool)
    (played : ((play codec allowed moves).any fun last => found last.1 last.2) = true) :
    ∃ c past, Run codec allowed c past ∧ found c past = true := by
  obtain ⟨last, reached, holds⟩ : ∃ last, play codec allowed moves = some last ∧
      found last.1 last.2 = true := by
    cases reached : play codec allowed moves with
    | none => simp [reached] at played
    | some last => exact ⟨last, rfl, by simpa [reached] using played⟩
  exact ⟨last.1, last.2, playFrom_run .start reached, holds⟩

def founder (node : NodeId) (peers : List NodeId) : Move :=
  .boot node {
    joining := .voter peers, snapshotStore := false, durableFrontier := false, channel := .none }

def electA : List Move := [
  founder "A" ["B", "C"], founder "B" ["A", "C"], founder "C" ["A", "B"],
  .input "A" .electionTimeout, .deliver 1, .deliver 5]

/-- Two entries that `"A"` and `"B"` commit and apply.  The first AppendEntries to
`"B"`, at position 9, is still under way. -/
def commitTwo : List Move := electA ++ [
  .input "A" (.clientCommand 1 [7]), .input "A" (.clientCommand 2 [8]), .deliver 12, .deliver 15,
  .apply "A", .apply "A", .input "A" .heartbeatTick, .deliver 20, .apply "B", .apply "B"]

def compactFirst : Bytes := compactLogTag ++ toBeBytes 8 1 ++ [42]

def snapshotC : List Move := electA ++ [
  .input "A" (.clientCommand 1 [7]), .deliver 9, .deliver 12, .apply "A",
  .input "A" (.clientCommand 2 compactFirst), .input "A" .heartbeatTick, .deliver 18]

end Neuralbase.Consensus
