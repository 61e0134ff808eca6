import Neuralbase.Consensus.Membership.History
import Neuralbase.Consensus.Steps.Events

namespace Neuralbase.Consensus

/-! One turn of the apply loop as a path of steps. -/

theorem Context.Applies.tagged {ctx : Context} {entry : LogEntry} {started : Bool}
    (applies : ctx.Applies entry started) (joint : started = true) :
    startsWith entry.command membershipChangeTag = true := by
  have result := applies.2.2.2
  unfold RaftNode.applyMembershipEntry at result
  split at result
  · assumption
  · rw [joint] at result
    cases result

namespace RaftNode

variable {ctx : Context} {store : Store} {cursor : Nat} {n m : RaftNode} {entry : LogEntry}

section Stopping

theorem failClients_io (reason : String) (todo : List Nat) (waiters : m.pendingClients = n.pendingClients)
    (effects : m.io = n.io) :
    (todo.foldl (fun n index => n.failClient reason index) m).io =
      (todo.foldl (fun n index => n.failClient reason index) n).io := by
  induction todo generalizing m n with
  | nil => exact effects
  | cons index rest induction =>
    rw [List.foldl_cons, List.foldl_cons]
    apply induction <;> rw [failClient_eq, failClient_eq] <;> simp [waiters, effects]

theorem reaches_stop_of (reason : String) (waiters : m.pendingClients = n.pendingClients)
    (effects : m.io = n.io) : Reaches ctx store cursor n (.error (m.stop reason)) := by
  refine ⟨n.failAllClients reason, path_failAllClients reason, ?_⟩
  show (n.pendingClients.keys.foldl _ n).io = (m.pendingClients.keys.foldl _ m).io
  rw [waiters]
  exact (failClients_io reason _ waiters effects).symm

end Stopping

section Membership

variable {codec : Codec}

/-- What the membership half of an apply leaves alone, and what it establishes. -/
structure MembershipApplied (n m : RaftNode) (entry : LogEntry) : Prop where
  log : m.ps.log = n.ps.log
  snapshotIndex : m.ps.snapshotIndex = n.ps.snapshotIndex
  commitIndex : m.commitIndex = n.commitIndex
  lastApplied : m.lastApplied = n.lastApplied
  pendingClients : m.pendingClients = n.pendingClients
  covered : startsWith entry.command membershipChangeTag = true →
    entry.index ≤ m.committedMembership.configIndex

theorem MembershipApplied.nextCommitted (applied : MembershipApplied n m entry) :
    m.nextCommitted = n.nextCommitted := by
  simp only [RaftNode.nextCommitted, applied.lastApplied, applied.snapshotIndex, applied.log]

theorem applyMembershipEntry_error {error : String} (failed : n.applyMembershipEntry codec entry = (m, .error error)) :
    m.pendingClients = n.pendingClients ∧ m.io = n.io := by
  unfold applyMembershipEntry applyCommittedMembership at failed
  split at failed
  · split at failed
    · cases failed
      exact ⟨rfl, rfl⟩
    · simp at failed
    · split at failed
      · simp at failed
      dsimp only at failed
      split at failed
      · cases failed
        exact ⟨rfl, rfl⟩
      split at failed
      · cases failed
        exact ⟨rfl, rfl⟩
      · simp at failed
  · simp at failed

theorem path_applyMembershipEntry {started : Bool} (begun : ctx.origin = n) (applies : ctx.Applies entry started)
    (result : n.applyMembershipEntry ctx.codec entry = (m, .ok started)) :
    Path ctx store cursor n m ∧ MembershipApplied n m entry := by
  unfold applyMembershipEntry applyCommittedMembership at result
  split at result
  swap
  · rename_i plain
    cases result
    exact ⟨.refl n, rfl, rfl, rfl, rfl, rfl, fun tagged => absurd tagged plain⟩
  rename_i tagged
  split at result
  · simp at result
  · rename_i decoded
    rw [startsWith_of_decode_none ctx.codec decoded] at tagged
    simp at tagged
  rename_i change decoded
  split at result
  · rename_i known
    cases result
    refine ⟨.refl n, rfl, rfl, rfl, rfl, rfl, fun _ => ?_⟩
    cases present : n.ps.membership with
    | none => simp [present] at known
    | some membership => simpa [committedMembership, present] using known
  rename_i unknown
  dsimp only at result
  split at result
  · simp at result
  rename_i membership advanced
  split at result
  · simp at result
  rename_i next folded
  have saved : Path ctx store cursor n next.persist :=
    (Path.refl n).persist (.applyMembership entry started change membership next applies
      (by rw [begun]; exact .refl) decoded (by simpa using unknown) advanced folded)
  have position := (MembershipStep.of_transition advanced).advanced.configIndex
  obtain ⟨effective, leader, _, _, rfl⟩ := recompute_eq folded
  obtain ⟨effects, persisted⟩ := persist_eq (n := { n with
    ps := { n.ps with membership := some membership }, effectiveMembership := effective, leader })
  rw [persisted] at saved
  dsimp only at result
  rw [persisted] at result
  split at result
  all_goals
    cases result
    refine ⟨?_, rfl, rfl, rfl, rfl, rfl, fun _ => position.ge⟩
  · exact saved.silent (.soft _ _ _ _ _ _ _ _)
  · exact saved

end Membership

section Completion

theorem path_stateMachineApplies {started applied : Bool} (applies : ctx.Applies entry started)
    (position : n.lastApplied = ctx.origin.lastApplied) (next : n.nextCommitted = some entry)
    (covered : startsWith entry.command membershipChangeTag = true → entry.index ≤ n.committedMembership.configIndex) :
    Path ctx store cursor n (n.stateMachineApplies entry applied) := by
  unfold stateMachineApplies
  split
  · exact (Path.refl n).act (.handOff entry started applies position next covered) trivial
  · exact .refl n

theorem reaches_handOff {started : Bool} (nextIndex : Nat) (outcome : ApplyOutcome)
    (applies : ctx.Applies entry started) (position : n.lastApplied = ctx.origin.lastApplied)
    (next : n.nextCommitted = some entry) (covered : startsWith entry.command membershipChangeTag = true →
      entry.index ≤ n.committedMembership.configIndex) :
    Reaches ctx store cursor n (n.handOff entry nextIndex outcome) := by
  have hands : ∀ applied, Path ctx store cursor n (n.stateMachineApplies entry applied) :=
    fun _ => path_stateMachineApplies applies position next covered
  unfold handOff
  split
  · cases outcome with
    | completed => exact hands true
    | failed applied error => exact (hands applied).reaches (reaches_stop _)
    | completionDropped applied => exact (hands applied).reaches (reaches_stop _)
    | channelClosed => exact reaches_stop _
    | shutdownAtHandoff => exact reaches_stop _
    | shutdownAwaiting applied => exact (hands applied).reaches (reaches_stop _)
  split
  · cases outcome with
    | channelClosed => exact reaches_stop _
    | shutdownAtHandoff => exact reaches_stop _
    | _ => exact hands true
  · exact .refl n

theorem handOff_eq_ok {nextIndex : Nat} {outcome : ApplyOutcome}
    (handed : n.handOff entry nextIndex outcome = .ok m) : ∃ io, m = { n with io } := by
  have hands : ∃ io, n.stateMachineApplies entry true = { n with io } := ⟨_, rfl⟩
  unfold handOff at handed
  split at handed
  · split at handed <;> cases handed
    exact hands
  split at handed
  · split at handed <;> cases handed
    exact hands
  · cases handed
    exact ⟨n.io, rfl⟩

theorem path_answerRpc {rpc : Option NodeId} {result : Except String Nat} :
    Path ctx store cursor n (n.answerRpc rpc result) := by
  unfold answerRpc
  split
  · exact path_notify trivial
  · exact path_notify trivial
  · exact .refl n

theorem findFinalizeJoint_eq_ok {codec : Codec} {committedIndex index : Nat}
    {log : List LogEntry} (found : findFinalizeJoint codec committedIndex log = .ok index) :
    ∃ final ∈ log, final.index = index ∧ committedIndex < index ∧
      decodeMembershipCommand codec final.command = .ok (some .finalizeJoint) := by
  induction log with
  | nil => simp [findFinalizeJoint] at found
  | cons entry rest induction =>
    have later : findFinalizeJoint codec committedIndex rest = .ok index →
        ∃ final ∈ entry :: rest, final.index = index ∧ committedIndex < index ∧
          decodeMembershipCommand codec final.command = .ok (some .finalizeJoint) := by
      intro further
      obtain ⟨final, member, facts⟩ := induction further
      exact ⟨final, List.mem_cons_of_mem _ member, facts⟩
    unfold findFinalizeJoint at found
    split at found
    · exact later found
    · rename_i above
      simp only [Library.bind_eq_ok] at found
      obtain ⟨decoded, result, found⟩ := found
      split at found
      · rename_i finalizes
        simp only [Library.pure_eq_ok] at found
        subst found
        exact ⟨entry, by simp, rfl, by omega, by rw [result, finalizes]⟩
      · exact later found

theorem ensureJointFinalizeEntry_eq_ok {codec : Codec} {index : Nat}
    (ensured : n.ensureJointFinalizeEntry codec = (m, .ok index)) :
    m.role = .leader ∧ m.caller = n.caller ∧ m.lastApplied = n.lastApplied ∧
      m.committedMembership = n.committedMembership ∧ m.ps.snapshotIndex = n.ps.snapshotIndex ∧
      ∃ final, (m.ps.log = n.ps.log ∧ final ∈ n.ps.log ∧ n.committedMembership.configIndex < index ∨
          m.ps.log = n.ps.log ++ [final] ∧ index = n.ps.snapshotIndex + n.ps.log.length) ∧ final.index = index ∧
        decodeMembershipCommand codec final.command = .ok (some .finalizeJoint) := by
  unfold ensureJointFinalizeEntry at ensured
  split at ensured
  · simp at ensured
  rename_i leads
  split at ensured
  · simp at ensured
  rename_i joint
  simp only [Bool.not_eq_true, Bool.not_eq_false', not_not] at joint leads
  split at ensured
  · simp only [Prod.mk.injEq] at ensured
    obtain ⟨rfl, found⟩ := ensured
    obtain ⟨final, member, position, above, decoded⟩ := findFinalizeJoint_eq_ok found
    exact ⟨leads, rfl, rfl, rfl, rfl, final, .inl ⟨rfl, member, above⟩, position, decoded⟩
  · unfold appendCommand at ensured
    split at ensured
    · simp at ensured
    · rename_i next folded
      simp only [Prod.mk.injEq, Except.ok.injEq] at ensured
      obtain ⟨rfl, rfl⟩ := ensured
      obtain ⟨membership, leader, _, _, rfl⟩ := recompute_eq folded
      obtain ⟨effects, persisted⟩ := persist_eq (n := { n.appended
        (encodeMembershipChange codec .finalizeJoint) with
          effectiveMembership := membership, leader })
      rw [persisted]
      exact ⟨leads, rfl, rfl, rfl, rfl, _, .inr ⟨rfl, rfl⟩, rfl,
        decodeMembershipCommand_encode codec .finalizeJoint⟩

theorem path_serveWaiters {started : Bool} {rpc : Option NodeId} (applies : ctx.Applies entry started)
    (position : n.lastApplied = ctx.origin.lastApplied + 1) (log : n.ps.log = ctx.origin.ps.log)
    (boundary : n.ps.snapshotIndex = ctx.origin.ps.snapshotIndex)
    (covered : started = true → entry.index ≤ n.committedMembership.configIndex)
    (caller : n.caller = ctx.origin.pendingClients.lookup n.lastApplied) :
    Path ctx store cursor n (n.serveWaiters ctx.codec n.lastApplied started rpc) := by
  have refuses : ∀ {m : RaftNode} (error : String), Path ctx store cursor m
      ((m.answerCaller (.error error)).answerRpc rpc (.error error)) := fun error =>
    (path_answerCaller fun _ _ _ result => by simp at result).trans path_answerRpc
  unfold serveWaiters
  cases started with
  | false =>
    refine (path_answerCaller fun client index holds result => ?_).trans path_answerRpc
    cases result
    exact .applied applies position rfl (caller.symm.trans holds)
  | true =>
    rw [if_pos rfl]
    split
    · have ensured : Path ctx store cursor n (n.ensureJointFinalizeEntry ctx.codec).1 :=
        path_ensureJointFinalizeEntry
      split
      · rename_i m finalIndex found
        rw [found] at ensured
        obtain ⟨leads, holder, applied, committed, kept, final, member, index, decoded⟩ :=
          ensureJointFinalizeEntry_eq_ok found
        rw [log, boundary, ← committed] at member
        have queued : Path ctx store cursor n (m.enqueueCaller finalIndex) ∧
            (m.enqueueCaller finalIndex).role = .leader := by
          unfold enqueueCaller
          cases held : m.caller with
          | none => exact ⟨ensured, leads⟩
          | some client =>
            refine ⟨ensured.silent (.enqueueCaller client finalIndex held leads ?_), leads⟩
            refine .finalize applies (applied.trans position) ?_ ?_ (kept.trans boundary) member
              index decoded
            · rw [← position, ← caller, ← holder, held]
            · rw [committed]
              exact covered rfl
        have awaited : Path ctx store cursor n
            ((m.enqueueCaller finalIndex).awaitRpc rpc finalIndex) ∧
            ((m.enqueueCaller finalIndex).awaitRpc rpc finalIndex).role = .leader := by
          unfold awaitRpc
          cases rpc with
          | none => exact queued
          | some peer => exact ⟨queued.1.silent (.soft _ _ _ _ _ _ _ _), queued.2⟩
        exact awaited.1.trans (path_advanceAndBeat awaited.2)
      · rename_i m error found
        rw [found] at ensured
        exact ensured.trans (refuses error)
    · exact refuses _

theorem path_completeApply {started : Bool} (applies : ctx.Applies entry started)
    (position : n.lastApplied = ctx.origin.lastApplied)
    (commit : n.commitIndex = ctx.origin.commitIndex) (next : n.nextCommitted = some entry)
    (covered : startsWith entry.command membershipChangeTag = true → entry.index ≤ n.committedMembership.configIndex)
    (log : n.ps.log = ctx.origin.ps.log) (boundary : n.ps.snapshotIndex = ctx.origin.ps.snapshotIndex)
    (waiters : n.pendingClients = ctx.origin.pendingClients) : ∃ passed,
    passed.lastApplied = n.lastApplied + 1 ∧ Path ctx store cursor n passed ∧ Path ctx store cursor passed
        (n.completeApply ctx.codec (n.lastApplied + 1) entry started) := by
  have passed : Path ctx store cursor n
      (({ n with lastApplied := n.lastApplied + 1 }).emit (.passApplied (n.lastApplied + 1) entry)) :=
    (Path.refl n).act (.pass entry started applies position commit next covered) trivial
  have taken := passed.silent (.takeWaiter entry started applies (congrArg (· + 1) position) waiters)
  unfold completeApply
  refine ⟨_, rfl, taken.silent (.soft _ _ _ _ _ _ _ _),
    path_serveWaiters applies (congrArg (· + 1) position) log boundary
      (fun joint => covered (applies.tagged joint)) ?_⟩
  exact congrArg (AList.lookup (n.lastApplied + 1)) waiters

theorem applyNext_cases {outcome : ApplyOutcome} (store : Store) (cursor : Nat)
    (begun : ctx.origin = n) (work : ctx.work = .apply outcome) (pending : n.lastApplied < n.commitIndex) :
    (∃ halt, n.applyNext ctx.codec outcome = .error halt ∧ Reaches ctx store cursor n (.error halt)) ∨
    ∃ passed last, n.applyNext ctx.codec outcome = .ok last ∧
      passed.lastApplied = n.lastApplied + 1 ∧ Path ctx store cursor n passed ∧ Path ctx store cursor passed last := by
  unfold applyNext
  dsimp only
  split
  · exact .inl ⟨_, rfl, reaches_stop _⟩
  rename_i entry next
  split
  · rename_i m error failed
    obtain ⟨waiters, effects⟩ := applyMembershipEntry_error failed
    exact .inl ⟨_, rfl, reaches_stop_of _ waiters effects⟩
  · rename_i m started result
    have applies : ctx.Applies entry started := by
      refine ⟨⟨outcome, work⟩, ?_⟩
      rw [begun, result]
      exact ⟨pending, next, rfl⟩
    have half : Path ctx store cursor n m ∧ MembershipApplied n m entry :=
      path_applyMembershipEntry begun applies result
    obtain ⟨path, applied⟩ := half
    have position : m.lastApplied = ctx.origin.lastApplied := by rw [begun, applied.lastApplied]
    have committed : m.nextCommitted = some entry := by rw [applied.nextCommitted, next]
    have handed := path.reaches (reaches_handOff (n.lastApplied + 1) outcome applies position
      committed applied.covered)
    split
    · rename_i halt ended
      rw [ended] at handed
      exact .inl ⟨halt, rfl, handed⟩
    · rename_i last ended
      rw [ended] at handed
      obtain ⟨io, rfl⟩ := handOff_eq_ok ended
      rw [← applied.lastApplied]
      obtain ⟨passed, advanced, toPassed, rest⟩ : ∃ passed : RaftNode,
          passed.lastApplied = m.lastApplied + 1 ∧ Path ctx store cursor { m with io } passed ∧
            Path ctx store cursor passed
              (({ m with io } : RaftNode).completeApply ctx.codec (m.lastApplied + 1) entry
                started) := path_completeApply (n := { m with io }) applies position
        (by rw [begun]; exact applied.commitIndex) committed applied.covered
        (by rw [begun]; exact applied.log) (by rw [begun]; exact applied.snapshotIndex)
        (by rw [begun]; exact applied.pendingClients)
      exact .inr ⟨passed, _, rfl, advanced, Path.trans handed toPassed, rest⟩

theorem reaches_applyNext {outcome : ApplyOutcome} (begun : ctx.origin = n)
    (work : ctx.work = .apply outcome) (pending : n.lastApplied < n.commitIndex) :
    Reaches ctx store cursor n (n.applyNext ctx.codec outcome) := by
  rcases applyNext_cases store cursor begun work pending with
    ⟨halt, stopped, reached⟩ | ⟨passed, last, applied, _, toPassed, rest⟩
  · rw [stopped]
    exact reached
  · rw [applied]
    exact toPassed.trans rest

end Completion

end RaftNode

end Neuralbase.Consensus
