import Neuralbase.Consensus.Schedule

namespace Neuralbase.Consensus

open Neuralbase.Library

/-! The log representation invariant.  Two inputs break it: entries accepted for
positions below the receiver's snapshot boundary, and a compaction with
client-supplied bytes to a boundary beyond the end of the log. -/

def AppendsAbove (c : Cluster) (a : Action) : Prop :=
  ∀ n ∈ c.node a.node, ∀ args ∈ a.work.appendEntries, n.AcceptsAppend args → args.entries ≠ [] →
    n.ps.snapshotIndex ≤ args.prevLogIndex

def CompactsInside (c : Cluster) (a : Action) : Prop :=
  ∀ n ∈ c.node a.node, ∀ payload ∈ a.work.compaction, n.snapshotStore = false →
    min (RaftNode.requestedBoundary payload) n.commitIndex ≤ n.ps.lastLogIndex

instance : DecidableRel AppendsAbove := fun _ _ =>
  inferInstanceAs (Decidable (∀ n ∈ _, ∀ args ∈ _, _))

instance : DecidableRel CompactsInside := fun _ _ =>
  inferInstanceAs (Decidable (∀ n ∈ _, ∀ payload ∈ _, _))

/-- A snapshot that may be installed in `term`. -/
structure SnapshotShape (index lastTerm term : Nat) (data : Bytes) : Prop where
  index : 0 < index
  known : 0 < lastTerm
  current : lastTerm ≤ term
  data : data ≠ []

structure RaftNode.Shape (n : RaftNode) : Prop where
  ps : n.ps.Shape
  data : n.ps.snapshotIndex = 0 ↔ n.snapshotData = []
  term : n.role ≠ .follower → 0 < n.ps.currentTerm
  staged : ∀ staged, n.pendingStagedSnapshot = some staged → staged.kind = .installation →
    SnapshotShape staged.lastIncludedIndex staged.lastIncludedTerm n.ps.currentTerm staged.data

structure Store.Shape (store : Store) : Prop where
  active : ∀ ps data, store.active = some (ps, data) →
    ps.Shape ∧ (ps.snapshotIndex = 0 ↔ data = [])
  staged : ∀ staged, store.stagedSnapshot = some staged → staged.kind = .installation →
    SnapshotShape staged.lastIncludedIndex staged.lastIncludedTerm store.ballot.1 staged.data

def Effect.Shape : Effect → Prop
  | .send _ (.appendEntries args) => args.Shape
  | .send _ (.installSnapshot args) =>
    SnapshotShape args.lastIncludedIndex args.lastIncludedTerm args.term args.data
  | _ => True

/-- Every log, stored or in memory, and every slice on the network is well formed. -/
def Shapes : Cluster → Prop :=
  Everywhere (fun _ node store _ => (∀ n, node = some n → n.Shape) ∧ store.Shape)
    fun _ effect => effect.Shape

section Step

variable {codec : Codec} {start c : Cluster} {a : Action} {origin n next : RaftNode}
  {effect : Option Effect}

theorem Installs.shape {index term : Nat} {data : Bytes} {incoming : Option ClusterMembership}
    (genuine : Genuine start a) (before : Shapes start) (shape : n.Shape)
    (installs : Installs ⟨codec, a.work, origin⟩ n index term data incoming) :
    n.ps.snapshotIndex < index ∧ SnapshotShape index term n.ps.currentTerm data := by
  cases installs with
  | received sender args incoming sqlBytes received accepts since current =>
    refine ⟨?_, ?_⟩
    · rw [since.snapshotIndex]
      exact accepts.2.2.2.1
    · rw [← current]
      exact before.2 _ _ (genuine.sent received rfl)
  | recovered staged incoming sqlBytes _ _ holds kind above =>
    exact ⟨above, shape.staged staged holds kind⟩

theorem Compacts.known {safeLast : Nat} {data : Bytes} (inside : CompactsInside start a)
    (taken : ClusterStep codec start a origin c n effect next) (shape : n.Shape)
    (compacts : Compacts ⟨codec, a.work, origin⟩ n safeLast data) : 0 < n.ps.termAt safeLast := by
  rcases compacts.source with known | ⟨client, payload, submitted, tagged, legacy, rfl⟩
  · omega
  · have above := compacts.above
    refine shape.ps.termAt_pos (by omega) ?_ (by omega)
    have work : a.work = _ := submitted
    have running := taken.begun (by simp [work])
    have since := compacts.since
    have bounded := inside origin running payload (by simp [work, Work.compaction, tagged])
      (since.snapshotStore ▸ legacy)
    rw [since.lastLogIndex, since.commitIndex]
    exact bounded

theorem DiskStep.shape {ps : PersistentState} {data : Bytes} (genuine : Genuine start a)
    (appends : AppendsAbove start a) (inside : CompactsInside start a) (before : Shapes start)
    (taken : ClusterStep codec start a origin c n effect next) (shape : n.Shape)
    (disk : DiskStep ⟨codec, a.work, origin⟩ n ps data) : ps.Shape ∧ (ps.snapshotIndex = 0 ↔ data = []) := by
  cases disk with
  | same => exact ⟨shape.ps, shape.data⟩
  | ballot term vote rises => exact ⟨shape.ps.ballot vote rises, shape.data⟩
  | append command leads =>
    exact ⟨shape.ps.append command (shape.term (by simp [leads])), shape.data⟩
  | replace sender args received accepts since current _ entries =>
    have work : a.work = _ := received
    have above := appends origin (taken.begun (by simp [work])) args
      (by simp [work, Work.appendEntries]) accepts entries
    have slice : args.Shape := before.2 _ _ (genuine.sent received rfl)
    have matched : 0 < args.prevLogIndex →
        n.ps.termAt args.prevLogIndex = args.prevLogTerm := by
      intro positive
      have checked := accepts.2.2.2
      simpa [RaftNode.prevLogMismatch, positive, since.termAt] using checked
    exact ⟨shape.ps.truncateAndAppend slice (since.snapshotIndex ▸ above) entries matched
      current.le, shape.data⟩
  | install index term data incoming installs =>
    obtain ⟨above, snapshot⟩ := installs.shape genuine before shape
    refine ⟨(shape.ps.reconfigure _).installSnapshot above snapshot.known snapshot.current, ?_⟩
    exact iff_of_false (by have := snapshot.index; exact Nat.ne_of_gt this) snapshot.data
  | compact safeLast data compacts =>
    have known := compacts.known inside taken shape
    obtain ⟨_, _, _, _, _, encoded⟩ := compacts.membership
    have above := compacts.above
    refine ⟨shape.ps.installSnapshot above known (shape.ps.termAt_le _), ?_⟩
    refine iff_of_false ?_ (encodeSnapshotPayload_ne_nil encoded)
    show safeLast ≠ 0
    omega
  | reconfigure membership => exact ⟨shape.ps.reconfigure _, shape.data⟩

theorem RaftNode.Shape.step (genuine : Genuine start a) (appends : AppendsAbove start a)
    (inside : CompactsInside start a) (before : Shapes start) (shape : n.Shape)
    (taken : ClusterStep codec start a origin c n effect next) : next.Shape := by
  obtain ⟨ps, data⟩ := taken.step.disk.shape genuine appends inside before taken shape
  have rises := taken.step.disk.ballot_rises.1
  refine ⟨ps, data, fun active => ?_, fun staged holds kind => ?_⟩
  · rcases taken.step.votes with follows | ⟨busy, term, _⟩ | ⟨rfl, _⟩ |
      ⟨_, _, candidate, _, rfl⟩
    · exact absurd follows active
    · rw [term]
      exact shape.term busy
    · exact Nat.succ_pos _
    · exact shape.term (by simp [candidate])
  · rcases taken.step.pending with cleared | same
    · rw [cleared] at holds
      cases holds
    · have snapshot := shape.staged staged (same ▸ holds) kind
      exact { snapshot with current := snapshot.current.trans rises }

theorem Effect.shape_of_step {effect : Effect} (shape : n.Shape)
    (step : NodeStep ⟨codec, a.work, origin⟩ n (some effect) next) : effect.Shape := by
  unfold Effect.Shape
  split
  · obtain ⟨_, _, beat⟩ := (step.sends rfl).2.appendEntries
    obtain ⟨following, held, rfl⟩ := heartbeatFor_appendEntries beat
    exact shape.ps.slice (held.imp_left shape.data.mpr) _ _
  · obtain ⟨leads, _, beat⟩ := (step.sends rfl).2.installSnapshot
    obtain ⟨data, rfl⟩ := heartbeatFor_installSnapshot beat
    have index : 0 < n.ps.snapshotIndex :=
      Nat.pos_of_ne_zero fun zero => data (shape.data.mp zero)
    obtain ⟨rest, log⟩ := shape.ps.log_eq
    have sentinel : { term := n.ps.snapshotTerm, index := n.ps.snapshotIndex, command := [] } ∈
        n.ps.log := by
      rw [log]
      exact List.mem_cons_self
    exact ⟨index, shape.ps.positive _ sentinel index, shape.ps.bounded _ sentinel, data⟩
  · trivial

theorem Store.shape_of_step {store : Store} (genuine : Genuine start a) (before : Shapes start)
    (taken : ClusterStep codec start a origin c n effect next)
    (durable : store.ballot = (n.ps.currentTerm, n.ps.votedFor)) (holds : store.Shape)
    (kept : next.Shape) : (effect.elim store store.perform).Shape := by
  cases effect with
  | none => exact holds
  | some effect =>
    cases effect with
    | save ps data =>
      obtain ⟨rfl, rfl⟩ := taken.step.saves rfl
      refine ⟨fun ps data active => ?_, fun staged present => by cases present⟩
      cases active
      exact ⟨kept.ps, kept.data⟩
    | stageSnapshot snapshot =>
      refine ⟨holds.active, fun staged present kind => ?_⟩
      cases present
      obtain ⟨_, sender, args, _, _, received, _, _, current, _, rfl⟩ := taken.step.stages kind
      have shape : SnapshotShape _ _ args.term _ := before.2 _ _ (genuine.sent received rfl)
      show SnapshotShape _ _ store.ballot.1 _
      rw [durable, ← current]
      exact shape
    | clearStagedSnapshot => exact ⟨holds.active, fun staged present => by cases present⟩
    | _ => exact holds

theorem adopted_shape {config : BootConfig} {i : NodeId} {store : Store} (holds : store.Shape)
    (adopted : Adopted codec config i store n) : n.Shape := by
  obtain ⟨_, _, ballot, follows⟩ := adopted_ballot adopted
  obtain ⟨created, migrated, _, fresh, _, loads⟩ := RaftNode.adopted_loads adopted
  have loaded : (store.active.getD (.new, [])).1.Shape := by
    cases active : store.active with
    | none => exact PersistentState.new_shape
    | some saved => exact (holds.active saved.1 saved.2 active).1
  refine ⟨?_, loads.boundary, fun active => absurd follows active, fun staged present kind => ?_⟩
  · rw [(RaftNode.adopted_durable adopted).1]
    exact loaded.reconfigure _
  · have snapshot := holds.staged staged ((loads.recovering fresh).staged ▸ present) kind
    rw [ballot] at snapshot
    exact snapshot

theorem shapes_inductive {allowed : Cluster → Action → Prop}
    (genuine : ∀ c a, allowed c a → Genuine c a)
    (appends : ∀ c a, allowed c a → AppendsAbove c a)
    (inside : ∀ c a, allowed c a → CompactsInside c a) :
    Inductive codec allowed fun c => Ballots c ∧ Shapes c := by
  refine Inductive.everywhere (ballots_inductive genuine) (fun i => ?_) (fun holds => ?_)
    (fun permits _ holds work adopted => ?_) (fun permits _ before ballots holds taken => ?_)
  · exact ⟨fun n running => (by cases running), fun ps data active => (by cases active),
      fun staged present => (by cases present)⟩
  · exact ⟨fun n running => (by cases running), holds.2⟩
  · refine ⟨fun n running => ?_, (holds.1 _).2⟩
    cases running
    exact adopted_shape (holds.1 _).2 adopted
  · have shape := (holds.1 _).1 _ taken.node
    have kept := shape.step (genuine _ _ permits) (appends _ _ permits) (inside _ _ permits)
      before taken
    refine ⟨⟨fun n running => ?_, ?_⟩, fun effect performed => ?_⟩
    · cases running
      exact kept
    · exact Store.shape_of_step (genuine _ _ permits) before taken
        (ballots.durable _ _ taken.node) (holds.1 _).2 kept
    · subst performed
      exact Effect.shape_of_step shape taken.step

end Step

/-- Runs in which no accepted message and no compaction touches what lies outside
the receiver's log. -/
def KeepsLogs (c : Cluster) (a : Action) : Prop :=
  Genuine c a ∧ AppendsAbove c a ∧ CompactsInside c a

instance : DecidableRel KeepsLogs := fun _ _ => inferInstanceAs (Decidable (_ ∧ _ ∧ _))

/-- In every state of such a run every log, in memory and in stable storage,
represents a slice of consecutive entries of non-decreasing terms after its
sentinel. -/
theorem log_representation {codec : Codec} {c : Cluster} {past : List Cluster} (run : Run codec KeepsLogs c past) :
    (∀ i n, c.node i = some n → n.ps.Represents) ∧
      ∀ i ps data, (c.store i).active = some (ps, data) → ps.Represents := by
  have holds := (run.invariant (shapes_inductive (fun _ _ permits => permits.1)
    (fun _ _ permits => permits.2.1) fun _ _ permits => permits.2.2)).2
  constructor
  · intro i n running
    exact ((holds.1 i).1 n running).ps.toRepresents
  · intro i ps data active
    exact ((holds.1 i).2.active ps data active).1.toRepresents

/-- A run with a compaction and an installed snapshot. -/
theorem log_representation_snapshot : ∃ c past, Run plainCodec KeepsLogs c past ∧
    ∃ n, c.node "C" = some n ∧ n.ps.snapshotIndex = 1 ∧ n.ps.Represents := by
  obtain ⟨c, past, run, found⟩ := exists_run plainCodec KeepsLogs snapshotC
    (fun c _ => (c.node "C").any fun n => n.ps.snapshotIndex = 1) (by decide +kernel)
  cases running : c.node "C" with
  | none => simp [running] at found
  | some n =>
    simp only [running, Option.any_some, decide_eq_true_eq] at found
    exact ⟨c, past, run, n, running, found, (log_representation run).1 "C" n running⟩

/-- Whatever a leader has sent in such a run is a slice of consecutive entries with terms between
that of the position before them and its own, or a snapshot with a boundary. -/
theorem sent_well_formed {codec : Codec} {c : Cluster} {past : List Cluster} (run : Run codec KeepsLogs c past) :
    (∀ sender peer args, c.Sent sender peer (.appendEntries args) → args.Shape) ∧
    ∀ sender peer args, c.Sent sender peer (.installSnapshot args) →
      SnapshotShape args.lastIncludedIndex args.lastIncludedTerm args.term args.data := by
  have holds := (run.invariant (shapes_inductive (fun _ _ permits => permits.1)
    (fun _ _ permits => permits.2.1) fun _ _ permits => permits.2.2)).2.2
  exact ⟨fun _ _ _ sent => holds _ _ sent, fun _ _ _ sent => holds _ _ sent⟩

theorem sent_well_formed_entry : ∃ c past, Run plainCodec KeepsLogs c past ∧
    ∃ args, c.Sent "A" "B" (.appendEntries args) ∧ args.entries.length = 1 ∧ args.Shape := by
  obtain ⟨c, past, run, found⟩ := exists_run plainCodec KeepsLogs snapshotC
    (fun c _ => c.sent "A" "B" (.appendEntries ⟨1, "A", 0, 0, [⟨1, 1, [7]⟩], 0⟩)) (by decide +kernel)
  have sent := Cluster.sent_iff.mp found
  exact ⟨c, past, run, _, sent, rfl, (sent_well_formed run).1 _ _ _ sent⟩

/-- The AppendEntries that first carried the entry reaches `"C"` after the
snapshot that covers it: `"C"` puts entry 1 at position 2. -/
theorem stale_append_misplaces : ∃ c past, Run plainCodec Genuine c past ∧
    ∃ n, c.node "C" = some n ∧ ¬ n.ps.Represents := by
  obtain ⟨c, past, run, found⟩ := exists_run plainCodec Genuine (snapshotC ++ [.deliver 10])
    (fun c _ => (c.node "C").any fun n => n.ps.snapshotIndex = 1 &&
      n.ps.log[1]? = some { term := 1, index := 1, command := [7] }) (by decide +kernel)
  cases running : c.node "C" with
  | none => simp [running] at found
  | some n =>
    simp only [running, Option.any_some, Bool.and_eq_true, decide_eq_true_eq] at found
    refine ⟨c, past, run, n, running, fun represents => ?_⟩
    have position := represents.indexes 1 _ found.2
    rw [found.1] at position
    cases position

end Neuralbase.Consensus
