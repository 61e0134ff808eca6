import Neuralbase.Consensus.Steps.Restart

namespace Neuralbase.Consensus

open Neuralbase.Library

/-! From steps to runs.  A cluster takes one step of one node at a time; what
every such step preserves, and every crash, restart and submission, holds along
every run. -/

namespace RaftNode

def quiet (n : RaftNode) : RaftNode := { n with io := [] }

end RaftNode

section Quiet

variable {ctx : Context} {n next : RaftNode} {effect : Option Effect}

theorem recompute_quiet (codec : Codec) : n.quiet.recomputeEffectiveMembership codec =
    (n.recomputeEffectiveMembership codec).map RaftNode.quiet := by
  show (RaftNode.foldMembership codec n.committedMembership.configIndex n.committedMembership
    n.ps.log >>= _) = ((RaftNode.foldMembership codec n.committedMembership.configIndex
      n.committedMembership n.ps.log >>= _).map _)
  cases RaftNode.foldMembership codec n.committedMembership.configIndex n.committedMembership
      n.ps.log with
  | error error => rfl
  | ok membership => cases accepted : membership.validate <;> simp [bind, Except.bind, accepted] <;> rfl

theorem recompute_quiet_ok {codec : Codec} (folded : n.recomputeEffectiveMembership codec = .ok next) :
    n.quiet.recomputeEffectiveMembership codec = .ok next.quiet := by
  rw [recompute_quiet, folded]
  rfl

theorem recompute_quiet_error {codec : Codec} {error : String}
    (failed : n.recomputeEffectiveMembership codec = .error error) :
    n.quiet.recomputeEffectiveMembership codec = .error error := by
  rw [recompute_quiet, failed]
  rfl

theorem Requests.quiet {command : Bytes} (requests : Requests ctx n command) : Requests ctx n.quiet command := by
  cases requests with
  | client submitted unwrapped => exact .client submitted unwrapped
  | administrator received encoded => exact .administrator received encoded

theorem Proposal.quiet {command : Bytes} (proposal : Proposal ctx n command) : Proposal ctx n.quiet command := by
  cases proposal with
  | plain untagged => exact .plain untagged
  | change requests decoded valid => exact .change requests.quiet decoded valid
  | finalize committed effective => exact .finalize committed effective

theorem Acknowledges.quiet {client : ClientId} {index : Nat}
    (acknowledges : Acknowledges ctx n client index) : Acknowledges ctx n.quiet client index := by
  cases acknowledges with
  | compaction submitted tagged => exact .compaction submitted tagged
  | applied applies position reached waiter => exact .applied applies position reached waiter

theorem Enqueues.quiet {client : ClientId} {index : Nat} (enqueues : Enqueues ctx n client index) :
    Enqueues ctx n.quiet client index := by
  cases enqueues with
  | command submitted plain led unwrapped checked log committed position =>
    exact .command submitted plain led unwrapped checked log committed position
  | finalize applies position waiter covered boundary member index decoded =>
    exact .finalize applies position waiter covered boundary member index decoded

theorem Compacts.quiet {safeLast : Nat} {data : Bytes} (compacts : Compacts ctx n safeLast data) :
    Compacts ctx n.quiet safeLast data :=
  { compacts with }

theorem NodeStep.quiet (idle : ctx.origin.io = []) (step : NodeStep ctx n effect next) :
    NodeStep ctx n.quiet effect next.quiet := by
  cases step with
  | soft => exact .soft _ _ _ _ _ _ _ _
  | retarget leader nextIndex tracking => exact .retarget leader nextIndex tracking
  | notify effect harmless => exact .notify effect harmless
  | takeCall client payload submitted first =>
    refine .takeCall client payload submitted ?_
    rw [first, RaftNode.quiet, ← idle]
  | takeWaiter entry jointStarted applies position waiters =>
    exact .takeWaiter entry jointStarted applies position waiters
  | answerCaller client result holds acknowledged =>
    exact .answerCaller client result holds fun index ok => (acknowledged index ok).quiet
  | enqueueCaller client index holds leads enqueues =>
    exact .enqueueCaller client index holds leads enqueues.quiet
  | failWaiter reason index client waiter => exact .failWaiter reason index client waiter
  | stepDown term sender message received rises failed drained commit =>
    exact .stepDown term sender message received rises failed drained commit
  | retire votes idle subset => exact .retire votes idle subset
  | campaign idle voter => exact .campaign idle voter
  | callVote peer runs other => exact .callVote peer runs other
  | grantVote sender args received term unvoted upToDate voter candidate =>
    exact .grantVote sender args received term unvoted upToDate voter candidate
  | sendVote sender args received term voted => exact .sendVote sender args received term voted
  | countVote sender received runs voter => exact .countVote sender received runs voter
  | takeLead runs voter elected => exact .takeLead runs voter elected
  | appendBarrier leads => exact .appendBarrier leads
  | propose command next leads proposal folded =>
    exact .propose command next.quiet leads proposal.quiet (recompute_quiet_ok folded)
  | proposeFailed command error leads proposal failed =>
    exact .proposeFailed command error leads proposal.quiet (recompute_quiet_error failed)
  | advanceCommit index leads above below commits =>
    exact .advanceCommit index leads above below commits
  | heartbeat peer leads other => exact .heartbeat peer leads other
  | accept sender args next received accepts since term follows nonempty folded =>
    exact .accept sender args next.quiet received accepts since term follows nonempty
      (recompute_quiet_ok folded)
  | followCommit sender args received accepts term follows stored ahead =>
    exact .followCommit sender args received accepts term follows stored ahead
  | ackAppend sender args received accepts term stored heartbeat =>
    exact .ackAppend sender args received accepts term stored heartbeat
  | recordMatch sender leader matched received leads tracking target =>
    exact .recordMatch sender leader matched received leads tracking target
  | stageInstall sender args incoming sqlBytes received accepts since term follows =>
    exact .stageInstall sender args incoming sqlBytes received accepts since term follows
  | restoreState index term data => exact .restoreState index term data
  | clearStaged pending cleared => exact .clearStaged pending cleared
  | install sender args incoming sqlBytes next received accepts since term follows folded =>
    exact .install sender args incoming sqlBytes next.quiet received accepts since term follows
      (recompute_quiet_ok folded)
  | ackSnapshot sender args received term reached =>
    exact .ackSnapshot sender args received term reached
  | recordSnapshotMatch sender leader index received leads tracking reached target =>
    exact .recordSnapshotMatch sender leader index received leads tracking reached target
  | stageCompaction snapshot kind => exact .stageCompaction snapshot kind
  | compact safeLast data next compacts folded =>
    exact .compact safeLast data next.quiet compacts.quiet (recompute_quiet_ok folded)
  | compactFailed safeLast data error compacts failed =>
    exact .compactFailed safeLast data error compacts.quiet (recompute_quiet_error failed)
  | applyMembership entry jointStarted change membership next applies since decoded unknown
      advanced folded =>
      exact .applyMembership entry jointStarted change membership next.quiet applies since decoded
        unknown advanced (recompute_quiet_ok folded)
  | handOff entry jointStarted applies position committed covered =>
    exact .handOff entry jointStarted applies position committed covered
  | pass entry jointStarted applies position commit committed covered =>
    exact .pass entry jointStarted applies position commit committed covered
  | recoverInstall staged incoming sqlBytes next boots follows holds kind above since checked
      folded =>
      exact .recoverInstall staged incoming sqlBytes next.quiet boots follows holds kind above since
        checked (recompute_quiet_ok folded)
  | resave => exact .resave
  | readFrontier index boots above below => exact .readFrontier index boots above below

theorem NodeStep.io_eq (step : NodeStep ctx n effect next) : next.io = n.io := by
  cases step
  all_goals first
    | rfl
    | (rename_i folded
       obtain ⟨_, _, _, _, rfl⟩ := RaftNode.recompute_eq folded
       rfl)

theorem NodeStep.pending (step : NodeStep ctx n effect next) :
    next.pendingStagedSnapshot = none ∨ next.pendingStagedSnapshot = n.pendingStagedSnapshot := by
  cases step with
  | clearStaged pending cleared => exact cleared
  | recoverInstall => exact .inl rfl
  | propose | accept | install | compact | applyMembership =>
    rename_i folded
    obtain ⟨_, _, _, _, rfl⟩ := RaftNode.recompute_eq folded
    exact .inr rfl
  | _ => exact .inr rfl

end Quiet

namespace Cluster

/-- The cluster after a step of node `i`. -/
def after (c : Cluster) (i : NodeId) (effect : Option Effect) (n : RaftNode) : Cluster :=
  (c.performAll i effect.toList).setNode i (some n)

end Cluster

def Begins (codec : Codec) (c : Cluster) (a : Action) (origin : RaftNode) : Prop :=
  match a.work with
  | .event input => c.node a.node = some origin ∧ origin.commitIndex ≤ origin.lastApplied ∧
      c.canSubmit origin input = true
  | .apply _ => c.node a.node = some origin ∧ origin.lastApplied < origin.commitIndex
  | .boot config => c.node a.node = none ∧
      Adopted codec config a.node (c.store a.node) origin

def Cluster.submitted (c : Cluster) : Work → List (ClientId × Bytes)
  | .event input => (c.submit input).commands
  | _ => c.commands

/-- A step of the action `a` that began in `start`.  Between `start` and `c` the
node has followed a path, whose effects have happened. -/
structure ClusterStep (codec : Codec) (start : Cluster) (a : Action) (origin : RaftNode)
    (c : Cluster) (n : RaftNode) (effect : Option Effect) (next : RaftNode) : Prop where
  begins : Begins codec start a origin
  idle : origin.io = []
  commands : c.commands = start.submitted a.work
  others : ∀ j, j ≠ a.node → c.node j = start.node j
  node : c.node a.node = some n
  step : NodeStep ⟨codec, a.work, origin⟩ n effect next
  permitted : ∀ e, effect = some e →
    e.Permitted (c.store a.node) (c.cursor a.node) (start.cursor a.node)
  path : ∃ store cursor m after, Path ⟨codec, a.work, origin⟩ store cursor origin m ∧
    NodeStep ⟨codec, a.work, origin⟩ m effect after ∧ m.quiet = n ∧ after.quiet = next ∧
    c.history = start.history ++ m.io.map (a.node, ·)

theorem ClusterStep.past {codec : Codec} {start : Cluster} {a : Action} {origin : RaftNode}
    {c : Cluster} {n : RaftNode} {effect : Option Effect} {next : RaftNode}
    (taken : ClusterStep codec start a origin c n effect next) : start.history <+: c.history := by
  obtain ⟨_, _, _, _, _, _, _, _, history⟩ := taken.path
  rw [history]
  exact List.prefix_append _ _

/-- What holds initially and is kept by every step, crash, start and submission. -/
structure Inductive (codec : Codec) (allowed : Cluster → Action → Prop) (Inv : Cluster → Prop) :
    Prop where
  initial : Inv .initial
  crash : ∀ {c : Cluster} (i : NodeId), Inv c → Inv (c.setNode i none)
  submit : ∀ {c : Cluster} {i : NodeId} {n : RaftNode} {client : ClientId} (payload : Bytes),
    Inv c → c.node i = some n → c.freshChannel n client = true →
    Inv (c.submit (.clientCommand client payload))
  adopt : ∀ {c : Cluster} {a : Action} {config : BootConfig} {n : RaftNode}, allowed c a → Inv c →
    a.work = .boot config → Begins codec c a n → Inv (c.setNode a.node (some n))
  step : ∀ {start : Cluster} {a : Action} {origin : RaftNode} {c : Cluster} {n : RaftNode}
    {effect : Option Effect} {next : RaftNode}, allowed start a → Inv start → Inv c →
    ClusterStep codec start a origin c n effect next → Inv (c.after a.node effect next)

namespace Cluster

variable {c : Cluster} {i : NodeId} {n : RaftNode}

theorem performAll_append (effects more : List Effect) :
    c.performAll i (effects ++ more) = (c.performAll i effects).performAll i more := by
  simp [performAll]

@[simp] theorem performAll_node (effects : List Effect) :
    (c.performAll i effects).node = c.node := by
  induction effects generalizing c with
  | nil => rfl
  | cons effect rest induction => exact induction

theorem performAll_store (effects : List Effect) :
    (c.performAll i effects).store i = effects.foldl Store.perform (c.store i) := by
  induction effects generalizing c with
  | nil => rfl
  | cons effect rest induction =>
    show ((c.perform i effect).performAll i rest).store i = _
    simp [induction, perform]

theorem performAll_cursor (effects : List Effect) :
    (c.performAll i effects).cursor i = effects.foldl advanceCursor (c.cursor i) := by
  induction effects generalizing c with
  | nil => rfl
  | cons effect rest induction =>
    show ((c.perform i effect).performAll i rest).cursor i = _
    simp [induction, perform]

theorem performAll_history (effects : List Effect) :
    (c.performAll i effects).history = c.history ++ effects.map (i, ·) := by
  induction effects generalizing c with
  | nil => simp [performAll]
  | cons effect rest induction =>
    show ((c.perform i effect).performAll i rest).history = _
    simp [induction, perform]

theorem performAll_commands (effects : List Effect) : (c.performAll i effects).commands = c.commands := by
  induction effects generalizing c with
  | nil => rfl
  | cons effect rest induction => exact induction

theorem performAll_setNode (effects : List Effect) (node : Option RaftNode) :
    (c.setNode i node).performAll i effects = (c.performAll i effects).setNode i node := by
  induction effects generalizing c with
  | nil => rfl
  | cons effect rest induction => exact induction (c := c.perform i effect)

@[simp] theorem setNode_setNode (node other : Option RaftNode) :
    (c.setNode i node).setNode i other = c.setNode i other := by
  simp [setNode]

theorem flush_step {effect : Option Effect} {next : RaftNode} (kept : next.io = n.io) :
    c.flush i { next with io := next.io ++ effect.toList } =
      (c.flush i n).after i effect next.quiet := by
  simp only [flush, after, performAll_append, performAll_setNode, setNode_setNode, kept]
  rfl

theorem flush_idle (running : c.node i = some n) (idle : n.io = []) : c.flush i n = c := by
  have same : ({ n with io := [] } : RaftNode) = n := by rw [← idle]
  simp only [flush, idle, same, performAll, List.foldl_nil, setNode]
  rw [← running, Function.update_eq_self]

end Cluster

section Invariants

variable {codec : Codec} {allowed : Cluster → Action → Prop} {Inv : Cluster → Prop}

theorem Inductive.path (kept : Inductive codec allowed Inv) {start base : Cluster} {a : Action}
    {origin last : RaftNode} (permits : allowed start a) (startInv : Inv start)
    (begins : Begins codec start a origin) (past : base.history = start.history)
    (commands : base.commands = start.submitted a.work) (others : ∀ j, j ≠ a.node → base.node j = start.node j)
    (running : base.node a.node = some origin) (idle : origin.io = []) (baseInv : Inv base)
    (path : Path ⟨codec, a.work, origin⟩ (base.store a.node) (start.cursor a.node) origin last)
    (cursor : base.cursor a.node = start.cursor a.node) : Inv (base.flush a.node last) ∧
      ∀ count, Inv ((base.performAll a.node (last.io.take count)).setNode a.node none) := by
  have moves : ∀ {m next : RaftNode} {effect : Option Effect}, Inv (base.flush a.node m) →
      Path ⟨codec, a.work, origin⟩ (base.store a.node) (start.cursor a.node) origin m →
      NodeStep ⟨codec, a.work, origin⟩ m effect next →
      (∀ e, effect = some e → e.Permitted (m.io.foldl Store.perform (base.store a.node))
        (m.io.foldl advanceCursor (start.cursor a.node)) (start.cursor a.node)) →
      Inv (base.flush a.node { next with io := next.io ++ effect.toList }) := by
    intro m next effect holds path step permitted
    rw [Cluster.flush_step step.io_eq]
    refine kept.step permits startInv holds
      { begins, idle
        commands := (Cluster.performAll_commands m.io).trans commands
        others := fun j other => ?_
        node := by simp [Cluster.flush, Cluster.setNode, RaftNode.quiet]
        step := step.quiet idle
        permitted := fun e present => ?_
        path := ⟨_, _, m, next, path, step, rfl, rfl, ?_⟩ }
    · simp [Cluster.flush, Cluster.setNode, other, others j other]
    · have store : (base.flush a.node m).store a.node =
          m.io.foldl Store.perform (base.store a.node) := Cluster.performAll_store m.io
      have reached : (base.flush a.node m).cursor a.node =
          m.io.foldl advanceCursor (start.cursor a.node) := by
        rw [← cursor]
        exact Cluster.performAll_cursor m.io
      rw [store, reached]
      exact permitted e present
    · rw [← past]
      exact Cluster.performAll_history m.io
  induction path with
  | refl =>
    rw [Cluster.flush_idle running idle]
    refine ⟨baseInv, fun count => ?_⟩
    rw [idle, List.take_nil]
    exact kept.crash _ baseInv
  | @silent m next path step hypothesis =>
    obtain ⟨holds, crashes⟩ := hypothesis
    refine ⟨by simpa using moves holds path step (by simp), ?_⟩
    rw [step.io_eq]
    exact crashes
  | @act m next effect path step permitted hypothesis =>
    obtain ⟨holds, crashes⟩ := hypothesis
    have moved := moves holds path step (by simpa using permitted)
    refine ⟨moved, fun count => ?_⟩
    have recorded : (next.emit effect).io = m.io ++ [effect] := by
      rw [RaftNode.emit, step.io_eq]
    by_cases inside : count ≤ m.io.length
    · rw [recorded, List.take_append_of_le_length inside]
      exact crashes count
    · rw [List.take_of_length_le (by simp [recorded]; omega)]
      have crashed := kept.crash a.node moved
      simpa [Cluster.flush, RaftNode.emit] using crashed

theorem Inductive.conclude (kept : Inductive codec allowed Inv) {start base : Cluster}
    {a : Action} {origin : RaftNode} {result : Except Halt RaftNode} (permits : allowed start a) (startInv : Inv start)
    (begins : Begins codec start a origin) (past : base.history = start.history)
    (commands : base.commands = start.submitted a.work) (others : ∀ j, j ≠ a.node → base.node j = start.node j)
    (running : base.node a.node = some origin) (idle : origin.io = []) (baseInv : Inv base)
    (reached : Reaches ⟨codec, a.work, origin⟩ (base.store a.node) (start.cursor a.node) origin result)
    (cursor : base.cursor a.node = start.cursor a.node) : Inv (base.conclude a.node a.crashAfter result) := by
  cases result with
  | ok last =>
    obtain ⟨holds, crashes⟩ := kept.path permits startInv begins past commands others running
      idle baseInv reached cursor
    unfold Cluster.conclude
    cases a.crashAfter with
    | none => exact holds
    | some count => exact crashes count
  | error halt =>
    obtain ⟨last, path, effects⟩ := reached
    obtain ⟨holds, crashes⟩ := kept.path permits startInv begins past commands others running
      idle baseInv path cursor
    rw [effects] at crashes
    unfold Cluster.conclude
    cases a.crashAfter with
    | none => simpa using crashes halt.node.io.length
    | some count => exact crashes count

theorem conclude_setNode {c : Cluster} {i : NodeId} (node : Option RaftNode)
    {crashAfter : Option Nat} {result : Except Halt RaftNode} :
    (c.setNode i node).conclude i crashAfter result = c.conclude i crashAfter result := by
  unfold Cluster.conclude Cluster.flush
  split <;> simp [Cluster.performAll_setNode]

theorem conclude_idle {c : Cluster} {i j : NodeId} {n : RaftNode} {crashAfter : Option Nat}
    {result : Except Halt RaftNode} (idle : ∀ j n, c.node j = some n → n.io = [])
    (running : (c.conclude i crashAfter result).node j = some n) : n.io = [] := by
  by_cases same : j = i
  · subst same
    unfold Cluster.conclude Cluster.flush at running
    split at running <;> simp [Cluster.setNode] at running
    exact running ▸ rfl
  · refine idle j n ?_
    unfold Cluster.conclude Cluster.flush at running
    split at running <;> simpa [Cluster.setNode, same] using running

variable {c : Cluster} {past : List Cluster}

theorem exec_cases {a : Action} {next : Cluster} (executed : c.exec codec a = some next) :
    (∃ input n, a.work = .event input ∧ c.node a.node = some n ∧ n.commitIndex ≤ n.lastApplied ∧
      c.canSubmit n input = true ∧
      next = (c.submit input).conclude a.node a.crashAfter
        ((n.handleEvent codec a.env input).map fun n => n.settle a.env.transferExpired)) ∨
    (∃ outcome n, a.work = .apply outcome ∧ c.node a.node = some n ∧
      n.lastApplied < n.commitIndex ∧
      next = c.conclude a.node a.crashAfter
        ((n.applyNext codec outcome).map fun n => n.settle a.env.transferExpired)) ∨
    (∃ config created, a.work = .boot config ∧ c.node a.node = none ∧
      RaftNode.create a.node config.joining = .ok created ∧
      next = c.conclude a.node a.crashAfter
        (created.load codec a.env config (c.store a.node) (c.cursor a.node))) := by
  unfold Cluster.exec at executed
  split at executed
  · rename_i input n work running
    split at executed
    · rename_i enabled
      cases executed
      exact .inl ⟨input, n, work, running, enabled.1, enabled.2, rfl⟩
    · simp at executed
  · rename_i outcome n work running
    split at executed
    · rename_i pending
      cases executed
      exact .inr (.inl ⟨outcome, n, work, running, pending, rfl⟩)
    · simp at executed
  · rename_i config work down
    split at executed
    · simp at executed
    · rename_i created isCreated
      cases executed
      exact .inr (.inr ⟨config, created, work, down, isCreated, rfl⟩)
  · simp at executed

theorem conclude_history {i : NodeId} {crashAfter : Option Nat} {result : Except Halt RaftNode} :
    c.history <+: (c.conclude i crashAfter result).history := by
  have grows : ∀ effects, c.history <+: (c.performAll i effects).history := by
    intro effects
    rw [Cluster.performAll_history]
    exact List.prefix_append _ _
  unfold Cluster.conclude Cluster.flush
  split <;> exact grows _

theorem exec_history {a : Action} {next : Cluster} (executed : c.exec codec a = some next) :
    c.history <+: next.history := by
  rcases exec_cases executed with ⟨input, _, _, _, _, _, rfl⟩ | ⟨_, _, _, _, _, rfl⟩ |
    ⟨_, _, _, _, _, rfl⟩
  · have same : (c.submit input).history = c.history := by cases input <;> rfl
    rw [← same]
    exact conclude_history
  · exact conclude_history
  · exact conclude_history

theorem Run.earlier (run : Run codec allowed c past) {before : Cluster} (inside : before ∈ past) :
    (∃ states, Run codec allowed before states) ∧ before.history <+: c.history := by
  induction run with
  | start =>
    cases List.mem_singleton.mp inside
    exact ⟨⟨_, .start⟩, List.prefix_rfl⟩
  | @step c next past a earlier permits executed hypothesis =>
    rcases List.mem_cons.mp inside with rfl | inside
    · exact ⟨⟨_, .step earlier permits executed⟩, List.prefix_rfl⟩
    · obtain ⟨reached, kept⟩ := hypothesis inside
      exact ⟨reached, kept.trans (exec_history executed)⟩

theorem Run.mem (run : Run codec allowed c past) : c ∈ past := by
  cases run <;> simp

theorem Run.idle (run : Run codec allowed c past) : ∀ j n, c.node j = some n → n.io = [] := by
  induction run with
  | start => simp [Cluster.initial]
  | @step c next past a _ _ executed hypothesis =>
    intro j n running
    rcases exec_cases executed with ⟨input, _, _, _, _, _, rfl⟩ | ⟨_, _, _, _, _, rfl⟩ |
      ⟨_, _, _, _, _, rfl⟩
    · refine conclude_idle (c := c.submit input) ?_ running
      cases input <;> exact hypothesis
    · exact conclude_idle hypothesis running
    · exact conclude_idle hypothesis running

theorem Inductive.exec (kept : Inductive codec allowed Inv) {a : Action} {next : Cluster}
    (idle : ∀ j n, c.node j = some n → n.io = []) (permits : allowed c a) (holds : Inv c)
    (executed : c.exec codec a = some next) : Inv next := by
  rcases exec_cases executed with
    ⟨input, n, work, running, drained, fresh, rfl⟩ | ⟨outcome, n, work, running, pending, rfl⟩ |
      ⟨config, created, work, down, isCreated, rfl⟩
  · have begins : Begins codec c a n := by
      rw [Begins, work]
      exact ⟨running, drained, fresh⟩
    have same : (c.submit input).node = c.node ∧ (c.submit input).store = c.store ∧
        (c.submit input).cursor = c.cursor ∧ (c.submit input).history = c.history := by
      cases input <;> exact ⟨rfl, rfl, rfl, rfl⟩
    have submitted : Inv (c.submit input) := by
      cases input with
      | clientCommand client payload => exact kept.submit payload holds running fresh
      | _ => exact holds
    refine kept.conclude permits holds begins same.2.2.2 (by rw [work]; rfl)
      (fun j _ => by rw [same.1]) (by rw [same.1]; exact running) (idle _ _ running) submitted ?_
      (by rw [same.2.2.1])
    exact RaftNode.reaches_settle (RaftNode.reaches_handleEvent rfl work drained
      (idle _ _ running))
  · have begins : Begins codec c a n := by
      rw [Begins, work]
      exact ⟨running, pending⟩
    exact kept.conclude permits holds begins rfl (by rw [work]; rfl)
      (fun _ _ => rfl) running
      (idle _ _ running) holds
      (RaftNode.reaches_settle (RaftNode.reaches_applyNext rfl work pending)) rfl
  · rcases RaftNode.load_reaches codec a.env (c.store a.node) (c.cursor a.node) isCreated with
      ⟨halt, failed, quiet⟩ | ⟨n, adopted, reached⟩
    · rw [failed]
      unfold Cluster.conclude
      cases a.crashAfter with
      | none => simpa [quiet, Cluster.performAll] using kept.crash a.node holds
      | some count => simpa [quiet, Cluster.performAll] using kept.crash a.node holds
    · have begins : Begins codec c a n := by
        rw [Begins, work]
        exact ⟨down, adopted⟩
      rw [← conclude_setNode (some n)]
      have quiet : n.io = [] := by
        obtain ⟨created, migrated, _, fresh, _, loads⟩ := RaftNode.adopted_loads adopted
        exact (loads.recovering fresh).io
      refine kept.conclude permits holds begins rfl (by rw [work]; rfl)
        (fun j other => ?_)
        (by simp [Cluster.setNode]) quiet (kept.adopt permits holds work begins)
        (by rw [work]; exact reached) rfl
      simp [Cluster.setNode, other]

theorem Run.invariant (run : Run codec allowed c past) (kept : Inductive codec allowed Inv) : Inv c := by
  induction run with
  | start => exact kept.initial
  | step earlier permits executed holds => exact kept.exec earlier.idle permits holds executed

end Invariants

end Neuralbase.Consensus
