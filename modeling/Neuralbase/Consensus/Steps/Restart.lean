import Neuralbase.Consensus.Steps.Apply

namespace Neuralbase.Consensus

open Neuralbase.Library

/-! A restart as a path of steps.  Loading the store has no effect; the path
starts at the node that `attachStore` builds. -/

def Adopted (codec : Codec) (config : BootConfig) (id : NodeId) (store : Store) (n : RaftNode) : Prop :=
  ∃ created migrated, RaftNode.create id config.joining = .ok created ∧
    ({ created with snapshotStore := config.snapshotStore }).attachStore codec store =
      .ok (n, migrated)

namespace RaftNode

variable {ctx : Context} {store : Store} {cursor : Nat} {n m : RaftNode} {env : Environment}

structure Created (n : RaftNode) (id : NodeId) : Prop where
  id : n.id = id
  log : n.ps.log = PersistentState.new.log
  currentTerm : n.ps.currentTerm = 0
  votedFor : n.ps.votedFor = none
  snapshotIndex : n.ps.snapshotIndex = 0
  snapshotTerm : n.ps.snapshotTerm = 0
  commitIndex : n.commitIndex = 0
  lastApplied : n.lastApplied = 0
  role : n.role = .follower
  votes : n.votesReceived = ∅
  leader : n.leader = none
  snapshotData : n.snapshotData = []
  snapshotStore : n.snapshotStore = false
  staged : n.pendingStagedSnapshot = none
  waiters : n.pendingClients = ∅
  caller : n.caller = none
  io : n.io = []

theorem create_eq_ok {id : NodeId} {joining : Joining} (created : create id joining = .ok n) : n.Created id := by
  cases joining with
  | voter peers =>
    cases created
    exact ⟨rfl, rfl, rfl, rfl, rfl, rfl, rfl, rfl, rfl, rfl, rfl, rfl, rfl, rfl, rfl, rfl,
      rfl⟩
  | learner genesisVoters seedVoters =>
    simp only [create, newLearnerFromGenesis, newLearner, bind_eq_ok, guard_eq_ok, pure_eq_ok]
      at created
    obtain ⟨_, ⟨bootstrap, _, rfl⟩, _, rfl⟩ := created
    exact ⟨rfl, rfl, rfl, rfl, rfl, rfl, rfl, rfl, rfl, rfl, rfl, rfl, rfl, rfl, rfl, rfl,
      rfl⟩

theorem recoverSnapshots_created {codec : Codec} (staged : n.pendingStagedSnapshot = none)
    (boundary : n.ps.snapshotIndex = 0) (data : n.snapshotData = []) : n.recoverSnapshots codec env = .ok n := by
  simp [recoverSnapshots, recoverStagedSnapshotIfPossible, restoreActiveSnapshotIfPossible, staged,
    boundary, data, bind, Except.bind]

def durable (created : RaftNode) (store : Store) : PersistentState × Bytes :=
  store.active.getD (created.ps, [])

def migrate (created : RaftNode) (migrated : Bool) (ps : PersistentState) : PersistentState :=
  if migrated then { ps with membership := some created.bootstrapMembership } else ps

structure Loads (codec : Codec) (config : BootConfig) (created : RaftNode) (store : Store)
    (migrated : Bool) (n : RaftNode) : Prop where
  eq : ∃ effective, n = { created with
    snapshotStore := config.snapshotStore
    ps := created.migrate migrated (created.durable store).1
    snapshotData := (created.durable store).2
    commitIndex := (created.durable store).1.snapshotIndex
    lastApplied := (created.durable store).1.snapshotIndex
    persistence := true
    pendingStagedSnapshot := store.stagedSnapshot
    effectiveMembership := effective }
  fold : foldMembership codec n.committedMembership.configIndex n.committedMembership n.ps.log =
    .ok n.effectiveMembership
  valid : n.effectiveMembership.Valid
  boundary : n.ps.snapshotIndex = 0 ↔ n.snapshotData = []
  migrates : migrated = true →
    (created.durable store).1.membership = none ∧ created.joiningLearner = false
  membership : store.active ≠ none → validateLoaded n.ps = .ok ()

theorem adopted_loads {codec : Codec} {config : BootConfig} {id : NodeId}
    (adopted : Adopted codec config id store n) : ∃ created migrated,
      create id config.joining = .ok created ∧ created.Created id ∧
      ({ created with snapshotStore := config.snapshotStore }).attachStore codec store =
        .ok (n, migrated) ∧
      Loads codec config created store migrated n := by
  obtain ⟨created, migrated, isCreated, attached⟩ := adopted
  have fresh := create_eq_ok isCreated
  refine ⟨created, migrated, isCreated, fresh, attached, ?_⟩
  unfold attachStore at attached
  split at attached
  · simp at attached
  rename_i loaded migrated' loading
  dsimp only at attached
  split at attached
  · simp at attached
  rename_i next folded
  simp only [Except.ok.injEq, Prod.mk.injEq] at attached
  obtain ⟨rfl, rfl⟩ := attached
  simp only [recomputeEffectiveMembership, bind_eq_ok, pure_eq_ok, ClusterMembership.validate_eq_ok]
    at folded
  obtain ⟨effective, fold, _, valid, rfl⟩ := folded
  unfold loadActive at loading
  cases active : store.active with
  | none =>
    simp only [active, Except.ok.injEq, Prod.mk.injEq] at loading
    obtain ⟨rfl, rfl⟩ := loading
    have nothing : created.durable store = (created.ps, []) := by simp [durable, active]
    refine ⟨⟨effective, ?_⟩, fold, valid, ?_, by simp, by simp [active]⟩
    · simp [syncLeaderTracking, fresh.leader, nothing, migrate, fresh.snapshotData,
        fresh.commitIndex, fresh.lastApplied, fresh.snapshotIndex]
    · simp [syncLeaderTracking, fresh.snapshotIndex, fresh.snapshotData]
  | some saved =>
    obtain ⟨ps, data⟩ := saved
    have something : created.durable store = (ps, data) := by simp [durable, active]
    simp only [active, adoptPersisted] at loading
    split at loading
    · simp at loading
    rename_i consistent
    split at loading
    · simp at loading
    rename_i checked
    simp only [Except.ok.injEq, Prod.mk.injEq] at loading
    obtain ⟨rfl, rfl⟩ := loading
    refine ⟨⟨effective, ?_⟩, fold, valid, ?_, ?_, fun _ => checked⟩
    · simp only [syncLeaderTracking, fresh.leader, something, migrate, Option.map_none]
      split <;> rfl
    · simp only [ne_eq, eq_iff_iff, not_not] at consistent
      simp only [syncLeaderTracking]
      split <;> simpa using (not_iff_not.mp consistent)
    · intro migrates
      simpa [something] using migrates

theorem adopted_durable {codec : Codec} {config : BootConfig} {id : NodeId}
    (adopted : Adopted codec config id store n) :
    n.ps = { (store.active.getD (.new, [])).1 with membership := n.ps.membership } ∧
      n.snapshotData = (store.active.getD (.new, [])).2 ∧
      n.commitIndex = n.ps.snapshotIndex ∧ n.lastApplied = n.ps.snapshotIndex := by
  obtain ⟨created, migrated, _, fresh, _, loads⟩ := adopted_loads adopted
  obtain ⟨effective, rfl⟩ := loads.eq
  have migrate : ∀ ps, created.migrate migrated ps =
      { ps with membership := (created.migrate migrated ps).membership } := by
    intro ps
    unfold RaftNode.migrate
    split <;> rfl
  have boundary : (created.migrate migrated (created.durable store).1).snapshotIndex =
      (created.durable store).1.snapshotIndex := by rw [migrate]
  refine ⟨?_, ?_, boundary.symm, boundary.symm⟩
  · show created.migrate migrated (created.durable store).1 = _
    rw [migrate]
    cases active : store.active with
    | none => simp [durable, active, PersistentState.new, fresh.log, fresh.currentTerm,
        fresh.votedFor, fresh.snapshotIndex, fresh.snapshotTerm]
    | some saved => simp [durable, active]
  · cases active : store.active with
    | none => simp [durable, active]
    | some saved => simp [durable, active]

section Recovery

theorem reaches_panic (reason : String) : Reaches ctx store cursor n (.error (n.panic reason)) :=
  ⟨n, .refl n, rfl⟩

theorem reaches_restoreActive (active : n.ps.snapshotIndex ≠ 0 → ∃ ps data, (n.io.foldl Store.perform store).active =
      some (ps, data) ∧ ps.snapshotIndex = n.ps.snapshotIndex) :
    Reaches ctx store cursor n (n.restoreActiveSnapshotIfPossible ctx.codec env) := by
  unfold restoreActiveSnapshotIfPossible
  split
  · exact reaches_panic _
  split
  · exact .refl n
  rename_i boundary
  split
  · exact .refl n
  split
  · exact reaches_panic _
  split
  · exact reaches_panic _
  · exact (Path.refl n).act (.restoreState _ _ _) (.inr (active boundary))

theorem reaches_recoverInstallation {staged : StagedSnapshot} (boots : ctx.Boots)
    (begun : n.Since ctx.origin) (follows : n.role = .follower)
    (holds : n.pendingStagedSnapshot = some staged) (kind : staged.kind = .installation)
    (above : n.ps.snapshotIndex < staged.lastIncludedIndex)
    (stored : (n.io.foldl Store.perform store).stagedSnapshot = some staged) :
    Reaches ctx store cursor n (n.recoverInstallation ctx.codec env staged) := by
  unfold recoverInstallation publishSnapshot
  split
  · exact reaches_panic _
  rename_i incoming sqlBytes checked
  split
  · exact reaches_panic _
  split
  · exact reaches_panic _
  have restored : Path ctx store cursor n (n.emit (.restoreSnapshot staged.lastIncludedIndex
      staged.lastIncludedTerm sqlBytes)) :=
    (Path.refl n).act (.restoreState _ _ _) (.inl ⟨staged, stored, kind, rfl⟩)
  dsimp only
  cases folded : ((n.emit (.restoreSnapshot staged.lastIncludedIndex staged.lastIncludedTerm
      sqlBytes)).installed staged.lastIncludedIndex staged.lastIncludedTerm staged.data
        incoming).recomputeEffectiveMembership ctx.codec with
  | error error => exact ⟨_, restored, rfl⟩
  | ok next =>
    have published : Path ctx store cursor n
        ({ next with pendingStagedSnapshot := none } : RaftNode).persist := restored.persist
      (.recoverInstall staged incoming sqlBytes next boots follows holds kind above begun checked
        folded)
    have same : ({ next with pendingStagedSnapshot := none } : RaftNode).persist =
        { next.persist with pendingStagedSnapshot := none } := by
      unfold persist
      split <;> rfl
    rw [same] at published
    exact published

/-- Recovery starts from a node with no effect so far, whose store is `store`. -/
structure Recovering (store : Store) (n : RaftNode) : Prop where
  io : n.io = []
  role : n.role = .follower
  attached : n.persistence = true
  staged : n.pendingStagedSnapshot = store.stagedSnapshot
  active : n.ps.snapshotIndex ≠ 0 → ∃ ps data, store.active = some (ps, data) ∧
    ps.snapshotIndex = n.ps.snapshotIndex

theorem reaches_clearAndRestore (recovering : n.Recovering store) :
    Reaches ctx store cursor n ((n.clearStaged env).bind fun m =>
      m.restoreActiveSnapshotIfPossible ctx.codec env) := by
  refine Reaches.bind (fun halt failed => ?_) (fun m cleared => ?_)
  · unfold clearStaged at failed
    split at failed
    · cases failed
      exact reaches_panic _
    · simp at failed
  · unfold clearStaged at cleared
    split at cleared
    · simp at cleared
    · cases cleared
      have path : Path ctx store cursor n
          ({ n with pendingStagedSnapshot := none }.emit .clearStagedSnapshot) :=
        (Path.refl n).act (.clearStaged none (.inl rfl)) (by simp [Effect.Permitted, recovering.io])
      refine path.reaches (reaches_restoreActive fun boundary => ?_)
      simpa [emit, recovering.io, Store.perform, Store.clearStagedSnapshot] using
        recovering.active boundary

theorem recoverSnapshots_cases (codec : Codec) (env : Environment) (attached : n.persistence = true) :
    (∃ staged, n.pendingStagedSnapshot = some staged ∧ staged.kind = .installation ∧
      n.snapshotStore = true ∧ n.ps.snapshotIndex < staged.lastIncludedIndex ∧
      n.recoverSnapshots codec env = n.recoverInstallation codec env staged) ∨
    (n.recoverSnapshots codec env = (n.clearStaged env).bind fun m =>
      m.restoreActiveSnapshotIfPossible codec env) ∨
    n.recoverSnapshots codec env = n.restoreActiveSnapshotIfPossible codec env := by
  unfold recoverSnapshots recoverStagedSnapshotIfPossible
  cases holds : n.pendingStagedSnapshot with
  | none => exact .inr (.inr rfl)
  | some staged =>
    have clears : ((do pure (← n.clearStaged env, false) : Except Halt (RaftNode × Bool)) >>=
        fun result => if result.2 = true then pure result.1
          else result.1.restoreActiveSnapshotIfPossible codec env) =
        (n.clearStaged env).bind fun m => m.restoreActiveSnapshotIfPossible codec env := by
      cases n.clearStaged env <;> rfl
    simp only [attached, Bool.not_true, Bool.false_eq_true, if_false]
    cases kind : staged.kind with
    | creation => exact .inr (.inl clears)
    | installation =>
      cases store : n.snapshotStore with
      | false => exact .inr (.inr rfl)
      | true =>
        by_cases reached : staged.lastIncludedIndex ≤ n.ps.snapshotIndex
        · exact .inr (.inl (by simpa [reached] using clears))
        · refine .inl ⟨staged, rfl, kind, rfl, by omega, ?_⟩
          simp only [reached, if_false]
          cases n.recoverInstallation codec env staged <;> rfl

theorem reaches_recoverSnapshots (boots : ctx.Boots) (begun : ctx.origin = n) (recovering : n.Recovering store) :
    Reaches ctx store cursor n (n.recoverSnapshots ctx.codec env) := by
  rcases recoverSnapshots_cases ctx.codec env recovering.attached with
    ⟨staged, holds, kind, _, above, recovery⟩ | recovery | recovery
  · rw [recovery]
    refine reaches_recoverInstallation boots (by rw [begun]; exact .refl) recovering.role holds
      kind above ?_
    rw [recovering.io, ← holds]
    exact recovering.staged.symm
  · rw [recovery]
    exact reaches_clearAndRestore recovering
  · rw [recovery]
    refine reaches_restoreActive fun boundary => ?_
    rw [recovering.io]
    exact recovering.active boundary

theorem path_withholdReadiness {fresh : Bool} : Path ctx store cursor n (n.withholdReadiness fresh) :=
  (Path.refl n).silent (.soft _ _ _ _ _ _ _ _)

theorem reaches_withDurableApplyFrontier (boots : ctx.Boots) :
    Reaches ctx store cursor n (n.withDurableApplyFrontier (n.io.foldl advanceCursor cursor)) := by
  unfold withDurableApplyFrontier
  split
  · exact reaches_panic _
  rename_i above
  split
  · exact reaches_panic _
  rename_i below
  exact (Path.refl n).act (.readFrontier _ boots (by omega) (by omega)) rfl

theorem reaches_withApplyChannel {channel : ApplyChannel} :
    Reaches ctx store cursor n (n.withApplyChannel channel) := by
  cases channel with
  | none => exact .refl n
  | legacy => exact (Path.refl n).silent (.soft _ _ _ _ _ _ _ _)
  | confirmed =>
    unfold withApplyChannel withConfirmedApplyTx
    dsimp only
    split
    · exact reaches_panic _
    · exact (Path.refl n).silent (.soft _ _ _ _ _ _ _ _)

theorem reaches_spawn : Reaches ctx store cursor n n.spawn := by
  unfold spawn
  split
  · exact reaches_panic _
  · exact .refl n

theorem reaches_bind {first : Except Halt RaftNode} {next : RaftNode → Except Halt RaftNode}
    (reached : Reaches ctx store cursor n first) (continues : ∀ m, Reaches ctx store cursor m (next m)) :
    Reaches ctx store cursor n (first >>= next) := by
  cases first with
  | error halt => exact reached
  | ok m => exact Path.reaches reached (continues m)

theorem reaches_withFrontier (boots : ctx.Boots) {config : BootConfig} :
    Reaches ctx store cursor n (n.withFrontier config cursor) := by
  unfold withFrontier
  split
  · exact reaches_withDurableApplyFrontier boots
  · exact .refl n

theorem reaches_afterAttach (ctx : Context) (cursor : Nat) (env : Environment)
    (config : BootConfig) (migrated fresh : Bool)
    (boots : ctx.Boots) (begun : ctx.origin = n) (recovering : n.Recovering store) :
    Reaches ctx store cursor n (do
      let n ← n.recoverSnapshots ctx.codec env
      let n := if migrated && n.pendingStagedSnapshot.isNone then n.persist else n
      let n ← (n.withholdReadiness fresh).withFrontier config cursor
      let n ← n.withApplyChannel config.channel
      n.spawn) := by
  refine reaches_bind (reaches_recoverSnapshots boots begun recovering) fun m => ?_
  have resaved : Path ctx store cursor m
      (if (migrated && m.pendingStagedSnapshot.isNone) = true then m.persist else m) := by
    split
    · exact (Path.refl m).persist .resave
    · exact .refl m
  exact (resaved.trans path_withholdReadiness).reaches (reaches_bind (reaches_withFrontier boots) fun last =>
    reaches_bind reaches_withApplyChannel fun _ => reaches_spawn)

theorem attachStore_error {codec : Codec} {halt : Halt}
    (failed : n.attachStore codec store = .error halt) : halt.node.io = n.io := by
  unfold attachStore loadActive adoptPersisted at failed
  split at failed
  · rename_i loading
    cases failed
    split at loading
    · simp at loading
    split at loading
    · cases loading
      rfl
    dsimp only at loading
    split at loading
    · cases loading
      rfl
    · simp at loading
  · rename_i loaded migrated loading
    have quiet : loaded.io = n.io := by
      split at loading
      · cases loading
        rfl
      split at loading
      · simp at loading
      dsimp only at loading
      split at loading
      · simp at loading
      · cases loading
        rfl
    dsimp only at failed
    split at failed
    · cases failed
      exact quiet
    · simp at failed

theorem Loads.recovering {codec : Codec} {config : BootConfig} {created : RaftNode} {id : NodeId}
    {migrated : Bool} (fresh : created.Created id)
    (loads : Loads codec config created store migrated n) : n.Recovering store := by
  obtain ⟨effective, rfl⟩ := loads.eq
  refine ⟨fresh.io, fresh.role, rfl, rfl, fun boundary => ?_⟩
  have same : (created.migrate migrated (created.durable store).1).snapshotIndex =
      (created.durable store).1.snapshotIndex := by
    unfold migrate
    split <;> rfl
  cases active : store.active with
  | none =>
    have nothing : created.durable store = (created.ps, []) := by simp [durable, active]
    exact absurd (by rw [same, nothing]; exact fresh.snapshotIndex) boundary
  | some saved =>
    refine ⟨saved.1, saved.2, rfl, ?_⟩
    rw [same]
    simp [durable, active]

theorem load_reaches (codec : Codec) (env : Environment) (store : Store) (cursor : Nat)
    {config : BootConfig} {created : RaftNode} {id : NodeId} (isCreated : create id config.joining = .ok created) :
    (∃ halt, created.load codec env config store cursor = .error halt ∧ halt.node.io = []) ∨
    ∃ n, Adopted codec config id store n ∧ Reaches ⟨codec, .boot config, n⟩ store cursor n
        (created.load codec env config store cursor) := by
  have fresh := create_eq_ok isCreated
  have equipped : created.withStateMachine codec env config =
      .ok { created with snapshotStore := config.snapshotStore } := by
    unfold withStateMachine withSnapshotStore
    cases config.snapshotStore with
    | false => simp [← fresh.snapshotStore]
    | true =>
      rw [if_pos rfl]
      exact recoverSnapshots_created fresh.staged fresh.snapshotIndex fresh.snapshotData
  unfold load withPersistence
  rw [equipped]
  cases attached : ({ created with snapshotStore := config.snapshotStore }).attachStore codec store with
  | error halt => exact .inl ⟨halt, by simp [bind, Except.bind, attached],
      (attachStore_error attached).trans fresh.io⟩
  | ok result =>
    obtain ⟨n, migrated⟩ := result
    have adopted : Adopted codec config id store n := ⟨created, migrated, isCreated, attached⟩
    obtain ⟨created', migrated', isCreated', fresh', attached', loads⟩ := adopted_loads adopted
    refine .inr ⟨n, adopted, ?_⟩
    have rest := reaches_afterAttach ⟨codec, .boot config, n⟩ cursor env config migrated
      store.active.isNone ⟨config, rfl⟩ rfl (loads.recovering fresh')
    simp only [bind, Except.bind, attached, pure, Except.pure] at rest ⊢
    cases recovered : n.recoverSnapshots codec env with
    | error halt =>
      rw [recovered] at rest
      exact rest
    | ok m =>
      rw [recovered] at rest
      exact rest

end Recovery

end RaftNode

end Neuralbase.Consensus
