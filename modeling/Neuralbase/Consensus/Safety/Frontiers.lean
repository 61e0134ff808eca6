import Neuralbase.Consensus.Schedule

namespace Neuralbase.Consensus

open Neuralbase.Library

/-! The order of a node's four frontiers.  It holds as long as no accepted message
cuts the log below the commit index. -/

def RaftNode.AcceptsInstall (codec : Codec) (n : RaftNode) (args : InstallSnapshotArgs) : Prop :=
  n.acceptsReplicationFrom args.leaderId = true ∧ n.committedRemoved args.leaderId = false ∧
    n.ps.currentTerm ≤ args.term ∧ n.ps.snapshotIndex < args.lastIncludedIndex ∧
    (n.incomingSnapshot codec args.lastIncludedIndex args.data).isOk = true

def AppendsCommitted (c : Cluster) (a : Action) : Prop :=
  ∀ n ∈ c.node a.node, ∀ args ∈ a.work.appendEntries, n.AcceptsAppend args → args.entries ≠ [] →
    n.commitIndex ≤ min (max args.prevLogIndex n.ps.snapshotIndex) n.ps.lastLogIndex +
      args.entries.length

/-- A snapshot the receiver accepts reaches its commit index, or lies on its log. -/
def InstallsCommitted (codec : Codec) (c : Cluster) (a : Action) : Prop :=
  ∀ n ∈ c.node a.node, ∀ args ∈ a.work.installSnapshot, n.AcceptsInstall codec args →
    n.commitIndex ≤ args.lastIncludedIndex ∨
      n.ps.Holds args.lastIncludedIndex args.lastIncludedTerm

def KeepsCommitted (codec : Codec) (c : Cluster) (a : Action) : Prop :=
  AppendsCommitted c a ∧ InstallsCommitted codec c a

instance (codec : Codec) (n : RaftNode) : DecidablePred (n.AcceptsInstall codec) := fun _ =>
  inferInstanceAs (Decidable (_ ∧ _ ∧ _ ∧ _ ∧ _))

instance : DecidableRel AppendsCommitted := fun _ _ =>
  inferInstanceAs (Decidable (∀ n ∈ _, ∀ args ∈ _, _))

instance (codec : Codec) : DecidableRel (InstallsCommitted codec) := fun _ _ =>
  inferInstanceAs (Decidable (∀ n ∈ _, ∀ args ∈ _, _))

instance (codec : Codec) : DecidableRel (KeepsCommitted codec) := fun _ _ =>
  inferInstanceAs (Decidable (_ ∧ _))

structure RaftNode.Ordered (n : RaftNode) : Prop where
  snapshot : n.ps.snapshotIndex ≤ n.lastApplied
  applied : n.lastApplied ≤ n.commitIndex
  committed : n.commitIndex ≤ n.ps.lastLogIndex

/-- The frontiers of `next` are at or after those of `n`. -/
def RaftNode.Advances (n next : RaftNode) : Prop :=
  n.commitIndex ≤ next.commitIndex ∧ n.lastApplied ≤ next.lastApplied

structure RaftNode.Frontiers (n : RaftNode) : Prop extends n.Ordered where
  nonempty : n.ps.log ≠ []

namespace RaftNode

variable {n next : RaftNode}

theorem Frontiers.same (holds : n.Frontiers) (log : next.ps.log = n.ps.log)
    (boundary : next.ps.snapshotIndex = n.ps.snapshotIndex)
    (commit : next.commitIndex = n.commitIndex) (applied : next.lastApplied = n.lastApplied) :
    next.Frontiers ∧ n.Advances next := by
  have last : next.ps.lastLogIndex = n.ps.lastLogIndex := by
    rw [PersistentState.lastLogIndex, log, boundary, PersistentState.lastLogIndex]
  refine ⟨⟨⟨?_, ?_, ?_⟩, ?_⟩, commit.ge, applied.ge⟩
  · rw [boundary, applied]
    exact holds.snapshot
  · rw [applied, commit]
    exact holds.applied
  · rw [commit, last]
    exact holds.committed
  · rw [log]
    exact holds.nonempty

theorem Frontiers.append (holds : n.Frontiers) {term : Nat} {command : Bytes}
    (ps : next.ps = (n.ps.append term command).1)
    (commit : next.commitIndex = n.commitIndex) (applied : next.lastApplied = n.lastApplied) :
    next.Frontiers ∧ n.Advances next := by
  have committed := holds.committed
  have last : n.ps.lastLogIndex = n.ps.snapshotIndex + n.ps.log.length - 1 := rfl
  refine ⟨⟨⟨?_, ?_, ?_⟩, ?_⟩, commit.ge, applied.ge⟩
  · rw [ps, applied]
    exact holds.snapshot
  · rw [applied, commit]
    exact holds.applied
  · rw [ps, commit, PersistentState.lastLogIndex_append]
    omega
  · rw [ps]
    simp [PersistentState.append]

theorem Frontiers.install (holds : n.Frontiers) {index term : Nat} (data : Bytes) {incoming : Option ClusterMembership}
    (reaches : n.commitIndex ≤ index ∨ n.ps.Holds index term) : (n.installed index term data incoming).Frontiers ∧
      n.Advances (n.installed index term data incoming) := by
  have applied := holds.applied
  have committed := holds.committed
  let ps : PersistentState := { n.ps with membership := incoming.orElse fun _ => n.ps.membership }
  have last : index ≤ (ps.installSnapshot index term).lastLogIndex ∧
      n.commitIndex ≤ (ps.installSnapshot index term).lastLogIndex := by
    by_cases known : ps.Holds index term
    · have last : (ps.installSnapshot index term).lastLogIndex = ps.lastLogIndex :=
        PersistentState.lastLogIndex_installSnapshot_of_holds holds.nonempty known
      rw [last]
      exact ⟨known.2.1, committed⟩
    · rw [PersistentState.lastLogIndex_installSnapshot_of_not_holds known]
      exact ⟨le_rfl, reaches.resolve_right known⟩
  refine ⟨⟨⟨?_, ?_, ?_⟩, ?_⟩, Nat.le_max_left _ _, Nat.le_max_left _ _⟩
  · exact Nat.le_max_right _ _
  · exact max_le_max applied le_rfl
  · exact max_le last.2 last.1
  · exact List.cons_ne_nil _ _

theorem Frontiers.compact (holds : n.Frontiers) {safeLast : Nat} (data : Bytes)
    (above : n.ps.snapshotIndex < safeLast) (committed : safeLast ≤ n.commitIndex)
    (drained : n.commitIndex ≤ n.lastApplied) : (n.compacted safeLast (n.ps.termAt safeLast) data).Frontiers := by
  have inside := holds.committed
  have known : n.ps.Holds safeLast (n.ps.termAt safeLast) := ⟨by omega, by omega, rfl⟩
  refine ⟨⟨?_, holds.applied, ?_⟩, List.cons_ne_nil _ _⟩
  · exact committed.trans drained
  · show n.commitIndex ≤ (n.ps.installSnapshot safeLast (n.ps.termAt safeLast)).lastLogIndex
    rw [PersistentState.lastLogIndex_installSnapshot_of_holds holds.nonempty known]
    exact inside

end RaftNode

section Step

variable {codec : Codec} {start c : Cluster} {a : Action} {origin n next : RaftNode}
  {effect : Option Effect}

/-- A snapshot just taken over reaches the commit index or lies on the log.  After
a restart nothing is known to be committed above the old snapshot. -/
theorem Installs.reaches {index term : Nat} {data : Bytes} {incoming : Option ClusterMembership}
    (installs : InstallsCommitted codec start a) (taken : ClusterStep codec start a origin c n effect next)
    (installed : Installs ⟨codec, a.work, origin⟩ n index term data incoming) :
    n.commitIndex ≤ index ∨ n.ps.Holds index term := by
  cases installed with
  | received sender args incoming sqlBytes received accepts since =>
    have work : a.work = _ := received
    have reached := installs origin (taken.begun (by simp [work])) args
      (by simp [work, Work.installSnapshot])
      ⟨accepts.1, accepts.2.1, accepts.2.2.1, accepts.2.2.2.1, by rw [accepts.2.2.2.2]; rfl⟩
    rw [since.commitIndex]
    refine reached.imp_right fun held => ?_
    rw [PersistentState.Holds, since.snapshotIndex, since.lastLogIndex, since.termAt]
    exact held
  | recovered staged incoming sqlBytes boots _ _ _ above since =>
    obtain ⟨config, work⟩ := boots
    have begins := taken.begins
    rw [Begins, show a.work = _ from work] at begins
    have commit := (RaftNode.adopted_durable begins.2).2.2.1
    have boundary : n.ps.snapshotIndex = origin.ps.snapshotIndex := since.snapshotIndex
    have known : n.commitIndex = origin.commitIndex := since.commitIndex
    omega

theorem RaftNode.Frontiers.step (appends : AppendsCommitted start a)
    (installs : InstallsCommitted codec start a) (holds : n.Frontiers)
    (taken : ClusterStep codec start a origin c n effect next) : next.Frontiers ∧ n.Advances next := by
  have snapshot := holds.snapshot
  have applied := holds.applied
  have committed := holds.committed
  cases taken.step with
  | stepDown term =>
    have since : (n.demoted term).Since n := RaftNode.demoted_since
    exact holds.same since.log since.snapshotIndex rfl rfl
  | appendBarrier => exact holds.append rfl rfl rfl
  | propose command next _ _ folded =>
    obtain ⟨_, _, _, _, rfl⟩ := RaftNode.recompute_eq folded
    exact holds.append rfl rfl rfl
  | proposeFailed => exact holds.append rfl rfl rfl
  | advanceCommit index leads above below =>
    exact ⟨⟨⟨snapshot, applied.trans above.le, below⟩, holds.nonempty⟩, above.le, le_rfl⟩
  | accept sender args next received accepts since current follows entries folded =>
    obtain ⟨_, _, _, _, rfl⟩ := RaftNode.recompute_eq folded
    have work : a.work = _ := received
    have reaches := appends origin (taken.begun (by simp [work])) args
      (by simp [work, Work.appendEntries]) accepts entries
    rw [← since.commitIndex, ← since.snapshotIndex, ← since.lastLogIndex,
      ← PersistentState.lastLogIndex_truncateAndAppend holds.nonempty] at reaches
    refine ⟨⟨⟨snapshot, applied, reaches⟩, ?_⟩, le_rfl, le_rfl⟩
    exact List.append_ne_nil_of_right_ne_nil _ entries
  | followCommit sender args _ _ _ _ _ ahead =>
    refine ⟨⟨⟨snapshot, ?_, Nat.min_le_right _ _⟩, holds.nonempty⟩, ?_, le_rfl⟩
    · exact applied.trans (le_min ahead.le committed)
    · exact le_min ahead.le committed
  | install sender args incoming sqlBytes next received accepts since term follows folded =>
    obtain ⟨_, _, _, _, rfl⟩ := RaftNode.recompute_eq folded
    have installed : Installs _ _ _ _ _ _ :=
      .received sender args incoming sqlBytes received accepts since term follows
    obtain ⟨frontiers, advances⟩ :=
      holds.install args.data (installed.reaches installs taken)
    exact ⟨{ frontiers with }, advances⟩
  | recoverInstall staged incoming sqlBytes next boots follows present kind above since checked
      folded =>
      obtain ⟨_, _, _, _, rfl⟩ := RaftNode.recompute_eq folded
      have installed : Installs _ _ _ _ _ _ :=
        .recovered staged incoming sqlBytes boots follows present kind above since checked
      obtain ⟨frontiers, advances⟩ :=
        holds.install staged.data (installed.reaches installs taken)
      exact ⟨{ frontiers with }, advances⟩
  | compact safeLast data next compacts folded =>
    obtain ⟨_, _, _, _, rfl⟩ := RaftNode.recompute_eq folded
    have frontiers := holds.compact data compacts.above compacts.committed compacts.drained
    exact ⟨{ frontiers with }, le_rfl, le_rfl⟩
  | compactFailed safeLast data error compacts =>
    exact ⟨holds.compact data compacts.above compacts.committed compacts.drained, le_rfl, le_rfl⟩
  | applyMembership entry jointStarted change membership next _ _ _ _ _ folded =>
    obtain ⟨_, _, _, _, rfl⟩ := RaftNode.recompute_eq folded
    exact holds.same rfl rfl rfl rfl
  | pass entry jointStarted applies position commit =>
    have pending := applies.2.1
    refine ⟨⟨⟨Nat.le_succ_of_le snapshot, ?_, committed⟩, holds.nonempty⟩, le_rfl, Nat.le_succ _⟩
    show n.lastApplied + 1 ≤ n.commitIndex
    omega
  | readFrontier index boots above below =>
    refine ⟨⟨⟨?_, max_le_max applied le_rfl, max_le committed below⟩, holds.nonempty⟩,
      Nat.le_max_left _ _, Nat.le_max_left _ _⟩
    exact snapshot.trans (Nat.le_max_left _ _)
  | _ => exact holds.same rfl rfl rfl rfl

theorem adopted_frontiers {config : BootConfig} {i : NodeId} {store : Store}
    (durable : ∀ ps data, store.active = some (ps, data) → ps.log ≠ [])
    (adopted : Adopted codec config i store n) : n.Frontiers := by
  obtain ⟨loaded, _, commit, applied⟩ := RaftNode.adopted_durable adopted
  have nonempty : n.ps.log ≠ [] := by
    rw [loaded]
    cases active : store.active with
    | none => exact List.cons_ne_nil _ _
    | some saved => exact durable saved.1 saved.2 active
  have positive := List.length_pos_iff.mpr nonempty
  have last : n.ps.lastLogIndex = n.ps.snapshotIndex + n.ps.log.length - 1 := rfl
  exact ⟨⟨by omega, by omega, by omega⟩, nonempty⟩

/-- Every running node has its frontiers in order, and every stored log its sentinel. -/
def FrontiersHold : Cluster → Prop :=
  Everywhere (fun _ node store _ => (∀ n, node = some n → n.Frontiers) ∧
    ∀ ps data, store.active = some (ps, data) → ps.log ≠ []) fun _ _ => True

theorem Store.nonempty_of_step {store : Store} (taken : ClusterStep codec start a origin c n effect next)
    (holds : ∀ ps data, store.active = some (ps, data) → ps.log ≠ []) (kept : next.Frontiers)
    (ps : PersistentState) (data : Bytes)
    (active : (effect.elim store store.perform).active = some (ps, data)) : ps.log ≠ [] := by
  cases effect with
  | none => exact holds ps data active
  | some effect =>
    cases effect with
    | save saved bytes =>
      obtain ⟨rfl, rfl⟩ := taken.step.saves rfl
      cases active
      exact kept.nonempty
    | _ => exact holds ps data active

theorem frontiers_inductive {allowed : Cluster → Action → Prop}
    (keeps : ∀ c a, allowed c a → KeepsCommitted codec c a) :
    Inductive codec allowed fun c => True ∧ FrontiersHold c := by
  refine Inductive.everywhere Inductive.trivial (fun i => ?_) (fun holds => ?_)
    (fun permits _ holds work adopted => ?_) (fun permits _ before _ holds taken => ?_)
  · exact ⟨fun n running => (by cases running), fun ps data active => (by cases active)⟩
  · exact ⟨fun n running => (by cases running), holds.2⟩
  · refine ⟨fun n running => ?_, (holds.1 _).2⟩
    cases running
    exact adopted_frontiers (holds.1 _).2 adopted
  · obtain ⟨appends, installs⟩ := keeps _ _ permits
    obtain ⟨frontiers, stored⟩ := holds.1 _
    have kept := ((frontiers _ taken.node).step appends installs taken).1
    refine ⟨⟨fun n running => ?_, Store.nonempty_of_step taken stored kept⟩, fun _ _ => trivial⟩
    cases running
    exact kept

/-- While node `i` is not started anew, it stays at or after `first`. -/
theorem advances_inductive {allowed : Cluster → Action → Prop} (i : NodeId) (first : RaftNode)
    (keeps : ∀ c a, allowed c a → KeepsCommitted codec c a)
    (up : ∀ c a, allowed c a → a.node = i → ∀ config, a.work ≠ .boot config) :
    Inductive codec allowed fun c => (True ∧ FrontiersHold c) ∧
      ∀ n, c.node i = some n → first.Advances n := by
  refine (frontiers_inductive keeps).strengthen (fun n running => by cases running)
    (fun j _ holds n running => ?_) (fun _ _ holds _ _ => holds)
    (fun permits _ holds work begins n running => ?_)
    (fun permits _ _ frontiers holds _ taken n running => ?_)
  · rcases Cluster.setNode_running running with ⟨_, ⟨⟩⟩ | ⟨_, running⟩
    exact holds n running
  · rcases Cluster.setNode_running running with ⟨same, _⟩ | ⟨_, running⟩
    · exact absurd work (up _ _ permits same.symm _)
    · exact holds n running
  · rcases Cluster.after_running running with ⟨same, rfl⟩ | ⟨_, running⟩
    · obtain ⟨appends, installs⟩ := keeps _ _ permits
      have advances := (((frontiers.2.1 _).1 _ taken.node).step appends installs taken).2
      have earlier := holds _ (same ▸ taken.node)
      exact ⟨earlier.1.trans advances.1, earlier.2.trans advances.2⟩
    · exact holds n running

end Step

/-- `d` is reached from `c` while node `i` stays up. -/
inductive Incarnation (codec : Codec) (allowed : Cluster → Action → Prop) (i : NodeId)
    (c : Cluster) : Cluster → Prop
  | refl : Incarnation codec allowed i c c
  | step {d next : Cluster} {a : Action} : Incarnation codec allowed i c d →
      (d.node i).isSome = true → allowed d a → d.exec codec a = some next →
      Incarnation codec allowed i c next

section Incarnation

variable {codec : Codec} {allowed : Cluster → Action → Prop} {i : NodeId} {c d : Cluster}
  {past : List Cluster}

theorem Incarnation.run (incarnation : Incarnation codec allowed i c d)
    (run : Run codec allowed c past) : ∃ states, Run codec allowed d states := by
  induction incarnation with
  | refl => exact ⟨past, run⟩
  | step _ _ permits executed hypothesis =>
    obtain ⟨states, run⟩ := hypothesis
    exact ⟨_, .step run permits executed⟩

theorem exec_running {a : Action} {next : Cluster} {n : RaftNode} (running : c.node a.node = some n)
    (executed : c.exec codec a = some next) (config : BootConfig) : a.work ≠ .boot config := by
  intro work
  rcases exec_cases executed with ⟨_, _, event, _⟩ | ⟨_, _, apply, _⟩ | ⟨_, _, _, down, _⟩
  · rw [work] at event
    cases event
  · rw [work] at apply
    cases apply
  · rw [running] at down
    cases down

theorem exec_advances {a : Action} {next : Cluster} {n m : RaftNode}
    (run : Run codec (KeepsCommitted codec) c past) (permits : KeepsCommitted codec c a)
    (executed : c.exec codec a = some next) (before : c.node i = some n)
    (after : next.node i = some m) : n.Advances m := by
  let stays (start : Cluster) (b : Action) : Prop := KeepsCommitted codec start b ∧
    (b.node = i → ∀ config, b.work ≠ .boot config)
  have kept : Inductive codec stays _ := advances_inductive i n
    (fun _ _ allowed => allowed.1) fun _ _ allowed => allowed.2
  refine (kept.exec run.idle ⟨permits, fun same => ?_⟩ ⟨?_, fun m running => ?_⟩ executed).2 m after
  · exact exec_running (same ▸ before) executed
  · exact run.invariant (frontiers_inductive fun _ _ permits => permits)
  · rw [before] at running
    cases running
    exact ⟨le_rfl, le_rfl⟩

end Incarnation

/-- In every state of a run in which no accepted message cuts the log below the
commit index, every running node has its frontiers in order, and while a node
stays up its commit index and applied index never decrease. -/
theorem frontier_ordering {codec : Codec} {c : Cluster} {past : List Cluster}
    (run : Run codec (KeepsCommitted codec) c past) : (∀ i n, c.node i = some n → n.ps.snapshotIndex ≤ n.lastApplied ∧
      n.lastApplied ≤ n.commitIndex ∧ n.commitIndex ≤ n.ps.lastLogIndex) ∧
    ∀ i d n m, Incarnation codec (KeepsCommitted codec) i c d → c.node i = some n →
      d.node i = some m → n.commitIndex ≤ m.commitIndex ∧ n.lastApplied ≤ m.lastApplied := by
  constructor
  · intro i n running
    have holds := run.invariant (frontiers_inductive fun _ _ permits => permits)
    have frontiers := (holds.2.1 i).1 n running
    exact ⟨frontiers.snapshot, frontiers.applied, frontiers.committed⟩
  · intro i d n m incarnation first last
    induction incarnation generalizing m with
    | refl =>
      rw [first] at last
      cases last
      exact ⟨le_rfl, le_rfl⟩
    | @step d next a incarnation up permits executed hypothesis =>
      obtain ⟨between, running⟩ := Option.isSome_iff_exists.mp up
      obtain ⟨states, reached⟩ := incarnation.run run
      have earlier := hypothesis between running
      have advances := exec_advances reached permits executed running last
      exact ⟨earlier.1.trans advances.1, earlier.2.trans advances.2⟩

/-- A run in which a follower commits and applies two entries. -/
theorem frontier_ordering_two : ∃ c past, Run plainCodec (KeepsCommitted plainCodec) c past ∧
    ∃ n, c.node "B" = some n ∧ n.lastApplied = 2 ∧ n.commitIndex ≤ n.ps.lastLogIndex := by
  obtain ⟨c, past, run, found⟩ := exists_run plainCodec (KeepsCommitted plainCodec) commitTwo
    (fun c _ => (c.node "B").any fun n => n.lastApplied = 2) (by decide +kernel)
  cases running : c.node "B" with
  | none => simp [running] at found
  | some n =>
    simp only [running, Option.any_some, decide_eq_true_eq] at found
    exact ⟨c, past, run, n, running, found, ((frontier_ordering run).1 "B" n running).2.2⟩

/-- An AppendEntries that its successor overtook cuts the log of `"B"` below what
`"B"` has committed and applied. -/
theorem stale_append_uncommits : ∃ c past, Run plainCodec Genuine c past ∧
    ∃ n, c.node "B" = some n ∧ n.ps.lastLogIndex < n.commitIndex := by
  obtain ⟨c, past, run, found⟩ := exists_run plainCodec Genuine (commitTwo ++ [.deliver 9])
    (fun c _ => (c.node "B").any fun n => n.ps.lastLogIndex < n.commitIndex) (by decide +kernel)
  cases running : c.node "B" with
  | none => simp [running] at found
  | some n => exact ⟨c, past, run, n, running, by simpa [running] using found⟩

end Neuralbase.Consensus
