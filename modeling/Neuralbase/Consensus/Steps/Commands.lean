import Neuralbase.Consensus.Steps.Replication

namespace Neuralbase.Consensus

open Neuralbase.Library

/-! Client and administrator commands as paths of steps. -/

namespace RaftNode

variable {ctx : Context} {store : Store} {cursor : Nat} {n : RaftNode}

section Compaction

variable {safeLast : Nat} {data : Bytes}

theorem path_compactTo (compacts : Compacts ctx n safeLast data) :
    Path ctx store cursor n (n.compactTo ctx.codec safeLast (n.ps.termAt safeLast) data).1 := by
  unfold compactTo
  cases folded : (n.compacted safeLast (n.ps.termAt safeLast) data).recomputeEffectiveMembership
      ctx.codec with
  | error error => exact (Path.refl n).silent (.compactFailed safeLast data error compacts folded)
  | ok next => exact (Path.refl n).persist (.compact safeLast data next compacts folded)

theorem createSnapshotData_eq_ok {env : Environment} {membership : ClusterMembership} {lastTerm : Nat} {codec : Codec}
    (created : n.createSnapshotData codec env membership safeLast lastTerm = .ok data) :
    ∃ sqlBytes, encodeSnapshotPayload codec membership sqlBytes = .ok data := by
  simp only [createSnapshotData, bind_eq_ok, guard_eq_ok, pure_eq_ok] at created
  obtain ⟨sqlBytes, _, _, _, _, encoded, _, _, _, rfl⟩ := created
  exact ⟨sqlBytes, encoded⟩

theorem compacts_emit {effect : Effect} (compacts : Compacts ctx n safeLast data) :
    Compacts ctx (n.emit effect) safeLast data :=
  { compacts with }

variable {membership : ClusterMembership} {lastIndex : Nat}

theorem path_compactStateMachine {env : Environment} (since : n.Since ctx.origin)
    (leads : n.role = .leader) (drained : n.commitIndex ≤ n.lastApplied)
    (stable : n.membershipTransitionActive = false) (known : n.ps.membership = some membership)
    (single : membership.isJoint = false) :
    Path ctx store cursor n (n.compactStateMachine ctx.codec env membership lastIndex).1 := by
  unfold compactStateMachine
  dsimp only
  split
  · exact .refl n
  rename_i above
  split
  · exact .refl n
  rename_i covered
  split
  · exact .refl n
  rename_i term
  split
  · exact .refl n
  · rename_i data created
    obtain ⟨sqlBytes, encoded⟩ := createSnapshotData_eq_ok created
    have compacts : Compacts ctx n (min (min lastIndex n.commitIndex) n.lastApplied) data :=
      { since, leads, drained, stable
        above := by omega
        committed := by omega
        membership := ⟨membership, sqlBytes, known, single, by omega, encoded⟩
        source := .inl term }
    exact ((Path.refl n).act (.stageCompaction _ rfl) trivial).trans
      (path_compactTo (compacts_emit compacts))

theorem path_compactLegacy {client : ClientId} {payload rawData : Bytes} (submitted : ctx.Submits client payload)
    (tagged : startsWith payload compactLogTag = true) (since : n.Since ctx.origin)
    (leads : n.role = .leader) (drained : n.commitIndex ≤ n.lastApplied)
    (stable : n.membershipTransitionActive = false) (known : n.ps.membership = some membership)
    (single : membership.isJoint = false) (legacy : n.snapshotStore = false) :
    Path ctx store cursor n (n.compactLegacy ctx.codec membership (requestedBoundary payload) rawData).1 := by
  unfold compactLegacy
  dsimp only
  split
  · exact .refl n
  split
  · exact .refl n
  rename_i above
  split
  · exact .refl n
  rename_i covered
  split
  · exact .refl n
  · rename_i data encoded
    exact path_compactTo
      { since, leads, drained, stable
        above := by omega
        committed := by omega
        membership := ⟨membership, rawData, known, single, by omega, encoded⟩
        source := .inr ⟨client, payload, submitted, tagged, legacy, rfl⟩ }

theorem path_handleCompactLogCmd {env : Environment} {client : ClientId} {payload : Bytes}
    (submitted : ctx.Submits client payload)
    (tagged : startsWith payload compactLogTag = true) (since : n.Since ctx.origin)
    (leads : n.role = .leader) (drained : n.commitIndex ≤ n.lastApplied) :
    Path ctx store cursor n (n.handleCompactLogCmd ctx.codec env payload).1 := by
  unfold handleCompactLogCmd
  split
  · exact .refl n
  split
  · exact .refl n
  rename_i stable
  split
  · exact .refl n
  rename_i membership known
  split
  · exact .refl n
  rename_i single
  simp only [Bool.not_eq_true] at stable single
  split
  · exact path_compactStateMachine since leads drained stable known single
  rename_i legacy
  split
  · exact .refl n
  · exact path_compactLegacy submitted tagged since leads drained stable known single
      (by simpa using legacy)

end Compaction

section Proposals

variable {payload command : Bytes} {codec : Codec}

theorem proposal_of_check (requests : Requests ctx n payload)
    (checked : n.checkMembershipRequest ctx.codec payload = .ok ()) : Proposal ctx n payload := by
  unfold checkMembershipRequest at checked
  split at checked
  · simp at checked
  · rename_i plain
    exact .plain (startsWith_of_decode_none ctx.codec plain)
  · rename_i change decoded
    exact .change requests decoded checked

theorem path_proposeCommand (leads : n.role = .leader) (requests : Requests ctx n payload) :
    Path ctx store cursor n (n.proposeCommand ctx.codec payload).1 := by
  unfold proposeCommand
  split
  · exact .refl n
  split
  · exact .refl n
  · rename_i checked
    exact path_appendCommand leads (proposal_of_check requests checked)

theorem proposeCommand_eq_ok {m : RaftNode} {index : Nat} (accepted : n.proposeCommand codec payload = (m, .ok index)) :
    n.checkMembershipRequest codec payload = .ok () ∧ m.ps = (n.ps.append n.ps.currentTerm payload).1 ∧
      m.committedMembership = n.committedMembership ∧
      index = n.ps.snapshotIndex + n.ps.log.length ∧ m.role = n.role ∧ m.caller = n.caller := by
  unfold proposeCommand at accepted
  split at accepted
  · simp at accepted
  split at accepted
  · simp at accepted
  rename_i checked
  unfold appendCommand at accepted
  split at accepted
  · simp at accepted
  · rename_i next folded
    obtain ⟨membership, leader, _, _, rfl⟩ := recompute_eq folded
    simp only [Prod.mk.injEq, Except.ok.injEq] at accepted
    obtain ⟨rfl, rfl⟩ := accepted
    obtain ⟨effects, persisted⟩ := persist_eq (n := { n.appended payload with
      effectiveMembership := membership, leader })
    rw [persisted]
    exact ⟨checked, rfl, rfl, rfl, rfl, rfl⟩

theorem unwrapGuarded_compaction (unwrapped : n.unwrapGuarded codec payload = .ok command)
    (compaction : startsWith command compactLogTag = true) : command = payload := by
  unfold unwrapGuarded at unwrapped
  split at unwrapped
  · split at unwrapped
    · simp at unwrapped
    split at unwrapped
    · simp at unwrapped
    · simp only [bind_eq_ok, pure_eq_ok] at unwrapped
      obtain ⟨_, _, rfl⟩ := unwrapped
      rw [startsWith_encode_compactLogTag] at compaction
      simp at compaction
  · simpa using unwrapped.symm

theorem path_handleClientCommand (env : Environment)
    (submitted : startsWith payload compactLogTag = true → ∃ client, ctx.Submits client payload)
    (requests : ∀ command, n.unwrapGuarded ctx.codec payload = .ok command → Requests ctx n command)
    (since : n.Since ctx.origin) (drained : n.commitIndex ≤ n.lastApplied) :
    Path ctx store cursor n (n.handleClientCommand ctx.codec env payload).1 := by
  unfold handleClientCommand
  split
  · exact .refl n
  rename_i leads
  split
  · exact .refl n
  split
  · exact .refl n
  rename_i command unwrapped
  split
  · rename_i compaction
    obtain rfl := unwrapGuarded_compaction unwrapped compaction
    obtain ⟨client, submitted⟩ := submitted compaction
    exact path_handleCompactLogCmd submitted compaction since (not_not.mp leads) drained
  · exact path_proposeCommand (not_not.mp leads) (requests command unwrapped)

theorem handleClientCommand_eq_ok {env : Environment} {m : RaftNode} {index : Nat}
    (accepted : n.handleClientCommand codec env payload = (m, .ok index))
    (plain : startsWith payload compactLogTag = false) : ∃ command, n.unwrapGuarded codec payload = .ok command ∧
      n.checkMembershipRequest codec command = .ok () ∧ m.ps = (n.ps.append n.ps.currentTerm command).1 ∧
      m.committedMembership = n.committedMembership ∧ n.role = .leader ∧
      index = n.ps.snapshotIndex + n.ps.log.length ∧ m.role = .leader ∧ m.caller = n.caller := by
  unfold handleClientCommand at accepted
  split at accepted
  · simp at accepted
  rename_i leads
  split at accepted
  · simp at accepted
  split at accepted
  · simp at accepted
  rename_i command unwrapped
  split at accepted
  · rename_i compaction
    rw [unwrapGuarded_compaction unwrapped compaction, plain] at compaction
    simp at compaction
  · obtain ⟨checked, log, committed, last, role, caller⟩ := proposeCommand_eq_ok accepted
    have leads := not_not.mp leads
    exact ⟨command, unwrapped, checked, log, committed, leads, last, role.trans leads, caller⟩

end Proposals

section Callers

variable {codec : Codec} {env : Environment} {payload : Bytes}

theorem compactTo_caller {safeLast lastTerm : Nat} {data : Bytes} :
    (n.compactTo codec safeLast lastTerm data).1.caller = n.caller := by
  unfold compactTo
  split
  · rfl
  · rename_i next folded
    obtain ⟨membership, leader, _, _, rfl⟩ := recompute_eq folded
    exact persist_caller

theorem handleCompactLogCmd_caller (codec : Codec) (env : Environment) (n : RaftNode) (payload : Bytes) :
    (n.handleCompactLogCmd codec env payload).1.caller = n.caller := by
  unfold handleCompactLogCmd compactStateMachine compactLegacy
  split
  · rfl
  split
  · rfl
  split
  · rfl
  split
  · rfl
  split
  · dsimp only
    split
    · rfl
    split
    · rfl
    split
    · rfl
    split
    · rfl
    · exact compactTo_caller
  split
  · rfl
  · dsimp only
    split
    · rfl
    split
    · rfl
    split
    · rfl
    split
    · rfl
    · exact compactTo_caller

theorem handleClientCommand_caller {m : RaftNode} {index : Nat}
    (accepted : n.handleClientCommand codec env payload = (m, .ok index)) : m.caller = n.caller := by
  cases compaction : startsWith payload compactLogTag with
  | false =>
    obtain ⟨_, _, _, _, _, _, _, _, caller⟩ := handleClientCommand_eq_ok accepted compaction
    exact caller
  | true =>
    unfold handleClientCommand at accepted
    split at accepted
    · simp at accepted
    split at accepted
    · simp at accepted
    split at accepted
    · simp at accepted
    split at accepted
    · rename_i data _ _
      have kept := handleCompactLogCmd_caller codec env n data
      rw [accepted] at kept
      exact kept
    · exact (proposeCommand_eq_ok accepted).2.2.2.2.2

theorem path_answerCaller {result : Except String Nat}
    (acknowledged : ∀ client index, n.caller = some client → result = .ok index → Acknowledges ctx n client index) :
    Path ctx store cursor n (n.answerCaller result) := by
  unfold answerCaller
  cases holds : n.caller with
  | none => exact .refl n
  | some client =>
    exact (Path.refl n).act (.answerCaller client result holds fun index =>
      acknowledged client index holds) trivial

theorem path_onClientCommand {client : ClientId} (begun : ctx.origin = n)
    (submitted : ctx.Submits client payload) (drained : n.commitIndex ≤ n.lastApplied) :
    Path ctx store cursor n (n.onClientCommand ctx.codec env client payload) := by
  unfold onClientCommand
  have called : Path ctx store cursor n { n with caller := some client } :=
    (Path.refl n).silent (.takeCall client payload submitted begun.symm)
  have since : ({ n with caller := some client } : RaftNode).Since ctx.origin := by
    rw [begun]
    exact Since.refl (n := n)
  have handled := called.trans (path_handleClientCommand env (fun _ => ⟨client, submitted⟩)
    (fun _ unwrapped => .client submitted unwrapped) since drained)
  dsimp only
  split
  · rename_i m index accepted
    rw [accepted] at handled
    have caller := handleClientCommand_caller accepted
    split
    · rename_i compaction
      refine handled.trans (path_answerCaller fun holder position holds result => ?_)
      have same : holder = client := by simpa [caller] using holds.symm
      exact .compaction (same ▸ submitted) compaction
    · rename_i plain
      obtain ⟨command, unwrapped, checked, log, committed, led, last, leads, _⟩ :=
        handleClientCommand_eq_ok accepted (by simpa using plain)
      have enqueues : Enqueues ctx m client index := by
        subst begun
        exact .command submitted (by simpa using plain) led unwrapped checked log committed last
      have queued : Path ctx store cursor n (m.enqueueCaller index) := by
        unfold enqueueCaller
        rw [caller]
        exact handled.silent (.enqueueCaller client index caller leads enqueues)
      have advanced := queued.trans path_tryAdvanceCommit
      split
      · rename_i stillLeads
        exact advanced.trans (path_sendHeartbeats stillLeads)
      · exact advanced
  · rename_i m error refused
    rw [refused] at handled
    exact handled.trans (path_answerCaller fun _ _ _ result => by simp at result)

end Callers

end RaftNode

end Neuralbase.Consensus
