import Neuralbase.Library.Machine
import Neuralbase.Replicated.StateMachine

namespace Neuralbase.Replicated

open Neuralbase.Library Neuralbase.Storage
open Neuralbase.Consensus (Bytes LogEntry)
open ReplicatedSqlStateMachine

/-! Entries are applied exactly once and wholly, however often they are delivered and
wherever the process dies.  All that a call changes on disk is in its first effect, and
that effect moves the cursor. -/

def Effect.InMemory : Effect → Prop
  | .writeBatch _ => False
  | _ => True

/-- A plan either does nothing, for an entry at or below the cursor, or first writes a
batch that ends by setting the cursor to the entry. -/
inductive Planned (db : Database) (entry : LogEntry) (previous : ReplicatedApplyState) : Plan → Prop
  | nothing : entry.index ≤ previous.lastAppliedIndex →
      Planned db entry previous ([], .alreadyApplied entry.index)
  | writes (batch : WriteBatch) (commitTs : Nat) (memory : List Effect)
      (outcome : ReplicatedApplyOutcome) : previous.lastAppliedIndex < entry.index →
      (∀ effect ∈ memory, effect.InMemory) → outcome ≠ .alreadyApplied entry.index →
      Planned db entry previous
        (.writeBatch (batch ++ [putApplyState { lastAppliedIndex := entry.index, lastCommitTs := commitTs }])
          :: memory, outcome)

section Plans

variable {codec : SchemaCodec} {faults : Faults} {db : Database} {entry : LogEntry}
  {previous : ReplicatedApplyState} {plan : Plan} {index : Nat}

theorem memoryEffects_inMemory (mutation : ReplicatedMutation) :
    ∀ effect ∈ memoryEffects mutation, effect.InMemory := by
  cases mutation <;> simp [memoryEffects, ReplicatedMutation.commitTs, Effect.InMemory]

theorem applyIdentity_planned {mutation : ReplicatedIdentityMutation} (later : previous.lastAppliedIndex < entry.index)
    (planned : applyIdentity faults db entry.index mutation previous = .ok plan) : Planned db entry previous plan := by
  obtain ⟨state, _, planned⟩ := bind_eq_ok.mp planned
  obtain ⟨encoded, _, planned⟩ := bind_eq_ok.mp planned
  cases pure_eq_ok.mp planned
  exact .writes [putCf .metadata replicatedIdentityStateKey encoded] _ [] _ later (by simp) (by simp)

theorem applySql_planned {mutation : ReplicatedMutation} (later : previous.lastAppliedIndex < entry.index)
    (planned : applySql codec faults db entry.index mutation previous = .ok plan) : Planned db entry previous plan := by
  obtain ⟨_, _, planned⟩ := bind_eq_ok.mp planned
  obtain ⟨_, _, planned⟩ := bind_eq_ok.mp planned
  obtain ⟨batch, _, planned⟩ := bind_eq_ok.mp planned
  cases pure_eq_ok.mp planned
  exact .writes batch _ _ _ later (memoryEffects_inMemory mutation) (by simp)

theorem planEntry_planned (loaded : loadState faults db = .ok previous)
    (planned : planEntry codec faults db entry = .ok plan) : Planned db entry previous plan := by
  obtain ⟨state, same, planned⟩ := bind_eq_ok.mp planned
  cases loaded.symm.trans same
  split at planned
  · rename_i old
    cases pure_eq_ok.mp planned
    exact .nothing old
  rename_i new
  have later := not_le.mp new
  split at planned
  · obtain ⟨mutation, _, planned⟩ := bind_eq_ok.mp planned
    exact applyIdentity_planned later planned
  split at planned
  · cases pure_eq_ok.mp planned
    exact .writes [] _ [] _ later (by simp) (by simp)
  · obtain ⟨mutation, _, planned⟩ := bind_eq_ok.mp planned
    exact applySql_planned later planned

end Plans

section Faults

variable {codec : SchemaCodec} {faults : Faults} {db : Database} {entry : LogEntry}
  {previous : ReplicatedApplyState} {plan : Plan}

/-! Engine failures only turn answers into errors. -/

theorem loadState_noFaults {state : ReplicatedApplyState} (loaded : loadState faults db = .ok state) :
    loadState noFaults db = .ok state := by
  unfold loadState at loaded ⊢
  split at loaded
  · cases loaded
  · exact loaded

theorem load_noFaults {state : Option ReplicatedIdentityState}
    (loaded : ReplicatedIdentityState.load faults db = .ok state) :
    ReplicatedIdentityState.load noFaults db = .ok state := by
  unfold ReplicatedIdentityState.load at loaded ⊢
  split at loaded
  · cases loaded
  · exact loaded

theorem scanVersions_noFaults {tableId : UInt32} {versions : List (Bytes × Bytes)}
    (scanned : scanVersions faults db tableId = .ok versions) : scanVersions noFaults db tableId = .ok versions := by
  unfold scanVersions at scanned ⊢
  split at scanned
  · cases scanned
  · exact scanned

theorem loadedIdentity_noFaults {state : ReplicatedIdentityState}
    (loaded : loadedIdentity faults db = .ok state) : loadedIdentity noFaults db = .ok state := by
  obtain ⟨found, read, loaded⟩ := bind_eq_ok.mp loaded
  exact bind_eq_ok.mpr ⟨found, mapError_eq_ok.mpr (load_noFaults (mapError_eq_ok.mp read)), loaded⟩

theorem nextIdentity_noFaults {mutation : ReplicatedIdentityMutation} {state : ReplicatedIdentityState}
    (computed : nextIdentity faults db mutation = .ok state) : nextIdentity noFaults db mutation = .ok state := by
  cases mutation with
  | initializeUsers users =>
    obtain ⟨requested, fresh, computed⟩ := bind_eq_ok.mp computed
    obtain ⟨found, read, computed⟩ := bind_eq_ok.mp computed
    exact bind_eq_ok.mpr ⟨requested, fresh, bind_eq_ok.mpr
      ⟨found, mapError_eq_ok.mpr (load_noFaults (mapError_eq_ok.mp read)), computed⟩⟩
  | createUser username credential =>
    obtain ⟨loaded, read, computed⟩ := bind_eq_ok.mp computed
    exact bind_eq_ok.mpr ⟨loaded, loadedIdentity_noFaults read, computed⟩
  | alterUser username credential =>
    obtain ⟨loaded, read, computed⟩ := bind_eq_ok.mp computed
    exact bind_eq_ok.mpr ⟨loaded, loadedIdentity_noFaults read, computed⟩
  | dropUser username ifExists =>
    obtain ⟨loaded, read, computed⟩ := bind_eq_ok.mp computed
    exact bind_eq_ok.mpr ⟨loaded, loadedIdentity_noFaults read, computed⟩

theorem mutationBatch_noFaults {mutation : ReplicatedMutation} {batch : WriteBatch}
    (built : mutationBatch codec faults db mutation = .ok batch) :
    mutationBatch codec noFaults db mutation = .ok batch := by
  cases mutation with
  | dropTable table tableId =>
    obtain ⟨versions, scanned, built⟩ := bind_eq_ok.mp built
    exact bind_eq_ok.mpr ⟨versions, scanVersions_noFaults scanned, built⟩
  | createTable _ => exact built
  | insertRows _ _ _ _ => exact built
  | updateRows _ _ _ _ => exact built
  | deleteRows _ _ _ _ => exact built

theorem applyIdentity_noFaults {mutation : ReplicatedIdentityMutation}
    (planned : applyIdentity faults db entry.index mutation previous = .ok plan) :
    applyIdentity noFaults db entry.index mutation previous = .ok plan := by
  obtain ⟨state, computed, planned⟩ := bind_eq_ok.mp planned
  exact bind_eq_ok.mpr ⟨state, nextIdentity_noFaults computed, planned⟩

theorem applySql_noFaults {mutation : ReplicatedMutation}
    (planned : applySql codec faults db entry.index mutation previous = .ok plan) :
    applySql codec noFaults db entry.index mutation previous = .ok plan := by
  obtain ⟨checked, ordered, planned⟩ := bind_eq_ok.mp planned
  obtain ⟨matched, named, planned⟩ := bind_eq_ok.mp planned
  obtain ⟨batch, built, planned⟩ := bind_eq_ok.mp planned
  exact bind_eq_ok.mpr ⟨checked, ordered, bind_eq_ok.mpr
    ⟨matched, named, bind_eq_ok.mpr ⟨batch, mutationBatch_noFaults built, planned⟩⟩⟩

theorem planEntry_noFaults (planned : planEntry codec faults db entry = .ok plan) :
    planEntry codec noFaults db entry = .ok plan := by
  obtain ⟨previous, loaded, planned⟩ := bind_eq_ok.mp planned
  refine bind_eq_ok.mpr ⟨previous, loadState_noFaults loaded, ?_⟩
  split_ifs at planned ⊢
  · exact planned
  · obtain ⟨mutation, decoded, planned⟩ := bind_eq_ok.mp planned
    exact bind_eq_ok.mpr ⟨mutation, decoded, applyIdentity_noFaults planned⟩
  · obtain ⟨mutation, decoded, planned⟩ := bind_eq_ok.mp planned
    exact bind_eq_ok.mpr ⟨mutation, decoded, applySql_noFaults planned⟩
  · exact planned

end Faults

section Effects

variable {codec : SchemaCodec} {faults : Faults} {machine reference : ReplicatedSqlStateMachine}
  {effects : List Effect} {entry : LogEntry} {batch : WriteBatch}

namespace ReplicatedSqlStateMachine

theorem performAll_inMemory (memory : ∀ effect ∈ effects, effect.InMemory) :
    (machine.performAll codec faults effects).1.db = machine.db ∧
      (machine.performAll codec faults effects).2 = .ok () := by
  induction effects generalizing machine with
  | nil => exact ⟨rfl, rfl⟩
  | cons effect rest induction =>
    have later := fun effect inside => memory effect (List.mem_cons_of_mem _ inside)
    cases effect with
    | writeBatch batch => exact absurd (memory _ List.mem_cons_self) id
    | createTable schema => exact induction later
    | dropTable table => exact induction later
    | observeCommitted committed => exact induction later

theorem performAll_writes (codec : SchemaCodec) (machine : ReplicatedSqlStateMachine)
    (batch : WriteBatch) (memory : ∀ effect ∈ effects, effect.InMemory) (works : faults .write = false) :
    (machine.performAll codec faults (.writeBatch batch :: effects)).1.db = machine.db.writeBatch batch ∧
      (machine.performAll codec faults (.writeBatch batch :: effects)).2 = .ok () := by
  have performed : machine.perform codec faults (.writeBatch batch) =
      .ok { machine with db := machine.db.writeBatch batch } := by
    simp [perform, works]
  rw [performAll, performed]
  exact performAll_inMemory memory

theorem performAll_noFaults {after : ReplicatedSqlStateMachine}
    (performed : machine.performAll codec faults effects = (after, .ok ())) :
    machine.performAll codec noFaults effects = (after, .ok ()) := by
  induction effects generalizing machine with
  | nil => exact performed
  | cons effect rest induction =>
    cases effect with
    | writeBatch batch =>
      rw [performAll, perform] at performed ⊢
      split_ifs at performed with refused
      · cases performed
      · exact induction performed
    | createTable schema => exact induction performed
    | dropTable table => exact induction performed
    | observeCommitted committed => exact induction performed

theorem applyLogEntry_noFaults {after : ReplicatedSqlStateMachine} {outcome : ReplicatedApplyOutcome}
    (applied : machine.applyLogEntry codec faults entry = (after, .ok outcome)) :
    machine.applyLogEntry codec noFaults entry = (after, .ok outcome) := by
  unfold applyLogEntry at applied ⊢
  cases planned : planEntry codec faults machine.db entry with
  | error error =>
    rw [planned] at applied
    cases applied
  | ok plan =>
    rw [planned] at applied
    rw [planEntry_noFaults planned]
    obtain ⟨reached, result⟩ := Prod.mk.inj applied
    obtain ⟨_, performed, rfl⟩ := map_eq_ok.mp result
    dsimp only
    rw [performAll_noFaults (Prod.ext reached performed)]
    rfl

theorem performAll_refused (refused : faults .write = true) :
    machine.performAll codec faults (.writeBatch batch :: effects) = (machine, .error .storage) := by
  simp [performAll, perform, refused]

end ReplicatedSqlStateMachine

end Effects

section Cursor

variable {db : Database} {batch : WriteBatch} {state : ReplicatedApplyState}

theorem decode_encode : ReplicatedApplyState.decode state.encode = .ok
    { lastAppliedIndex := fromBeBytes (toBeBytes 8 state.lastAppliedIndex)
      lastCommitTs := fromBeBytes (toBeBytes 8 state.lastCommitTs) } := by
  have length : state.encode.length = 16 := by simp [ReplicatedApplyState.encode]
  rw [ReplicatedApplyState.decode, if_neg (not_not.mpr length), ReplicatedApplyState.encode,
    List.take_left' (length_toBeBytes 8 _), List.drop_left' (length_toBeBytes 8 _)]

theorem loadState_bounded {faults : Faults} (loaded : loadState faults db = .ok state) :
    state.lastAppliedIndex < 2 ^ 64 ∧ state.lastCommitTs < 2 ^ 64 := by
  simp only [loadState, ReplicatedApplyState.decode] at loaded
  split_ifs at loaded
  split at loaded
  · rename_i bytes _
    split_ifs at loaded with length
    cases loaded
    have index := fromBeBytes_lt (bytes.take 8)
    have stamp := fromBeBytes_lt (bytes.drop 8)
    rw [List.length_take_of_le (by omega)] at index
    rw [List.length_drop, not_not.mp length] at stamp
    exact ⟨index, stamp⟩
  · cases loaded
    decide

theorem loadState_writeBatch (fits : state.lastAppliedIndex < 2 ^ 64) :
    loadState noFaults (db.writeBatch (batch ++ [putApplyState state])) = .ok
      { state with lastCommitTs := fromBeBytes (toBeBytes 8 state.lastCommitTs) } := by
  have stored : (db.writeBatch (batch ++ [putApplyState state]) .metadata).get applyStateKey =
      some state.encode := Database.get_last fun ⟨_, inside, _⟩ => List.not_mem_nil inside
  have decoded := @decode_encode state
  rw [fromBeBytes_toBeBytes _ _ fits] at decoded
  simp only [loadState, noFaults, Bool.false_eq_true, if_false, stored, decoded]

end Cursor

namespace ReplicatedSqlStateMachine

variable (codec : SchemaCodec)

def applyOnce (machine : ReplicatedSqlStateMachine) (entry : LogEntry) : Option ReplicatedSqlStateMachine :=
  match machine.applyLogEntry codec noFaults entry with
  | (next, .ok outcome) => if outcome = .alreadyApplied entry.index then none else some next
  | (_, .error _) => none

variable {codec} {faults : Faults} {machine reference : ReplicatedSqlStateMachine} {entry : LogEntry}
  {previous : ReplicatedApplyState} {effects : List Effect} {outcome : ReplicatedApplyOutcome}

theorem durable_effects (count : Nat) (fits : entry.index < 2 ^ 64)
    (loaded : loadState faults machine.db = .ok previous)
    (planned : planEntry codec faults machine.db entry = .ok (effects, outcome)) :
    (machine.performAll codec faults (effects.take count)).1.db = machine.db ∨
      previous.lastAppliedIndex < entry.index ∧
      (∃ commitTs, loadState noFaults (machine.performAll codec faults (effects.take count)).1.db =
        .ok { lastAppliedIndex := entry.index, lastCommitTs := commitTs }) ∧
      ∀ reference : ReplicatedSqlStateMachine, reference.db = machine.db →
        ∃ after, reference.applyOnce codec entry = some after ∧
          after.db = (machine.performAll codec faults (effects.take count)).1.db := by
  have shape := planEntry_planned loaded planned
  have planned := planEntry_noFaults planned
  cases shape with
  | nothing old => exact .inl (by simp [performAll])
  | writes batch commitTs memory outcome later inMemory fresh =>
    cases count with
    | zero => exact .inl rfl
    | succ count =>
      rw [List.take_succ_cons]
      cases refused : faults .write with
      | true => exact .inl (by rw [performAll_refused refused])
      | false =>
        have written := (performAll_writes codec machine
          (batch ++ [putApplyState { lastAppliedIndex := entry.index, lastCommitTs := commitTs }])
          (fun effect inside => inMemory effect (List.mem_of_mem_take (i := count) inside)) refused).1
        rw [written]
        refine .inr ⟨later, ⟨_, loadState_writeBatch fits⟩, ?_⟩
        intro reference same
        obtain ⟨durable, succeeded⟩ := performAll_writes codec reference _ inMemory
          (rfl : noFaults .write = false)
        refine ⟨_, ?_, durable.trans (by rw [same])⟩
        simp only [applyOnce, applyLogEntry, same, planned, succeeded, Except.map, if_neg fresh]

theorem applyLogEntry_db : ∃ count, (machine.applyLogEntry codec faults entry).1.db =
    machine.crashedAfter codec faults entry count := by
  unfold applyLogEntry crashedAfter
  cases planEntry codec faults machine.db entry with
  | error error => exact ⟨0, rfl⟩
  | ok plan => exact ⟨plan.1.length, by simp⟩

theorem durable_crash (count : Nat) (fits : entry.index < 2 ^ 64)
    (loaded : loadState noFaults machine.db = .ok previous) :
    machine.crashedAfter codec faults entry count = machine.db ∨
      previous.lastAppliedIndex < entry.index ∧
      (∃ commitTs, loadState noFaults (machine.crashedAfter codec faults entry count) =
        .ok { lastAppliedIndex := entry.index, lastCommitTs := commitTs }) ∧
      ∀ reference : ReplicatedSqlStateMachine, reference.db = machine.db →
        ∃ after, reference.applyOnce codec entry = some after ∧
          after.db = machine.crashedAfter codec faults entry count := by
  unfold crashedAfter
  cases planned : planEntry codec faults machine.db entry with
  | error error => exact .inl rfl
  | ok plan =>
    obtain ⟨state, read, _⟩ := bind_eq_ok.mp planned
    cases loaded.symm.trans (loadState_noFaults read)
    exact durable_effects count fits read planned

theorem db_of_new {builtin : InMemoryCatalog} {db : Database}
    (opened : new codec faults builtin db = .ok machine) : machine.db = db := by
  unfold new at opened
  split at opened
  · cases opened
  · obtain ⟨state, _, built⟩ := bind_eq_ok.mp opened
    cases pure_eq_ok.mp built
    rfl

theorem cursor_of_ok (fits : entry.index < 2 ^ 64) (loaded : loadState noFaults machine.db = .ok previous)
    (answered : (machine.applyLogEntry codec faults entry).2 = .ok outcome) :
    entry.index ≤ previous.lastAppliedIndex ∨
      ∃ commitTs, loadState noFaults (machine.applyLogEntry codec faults entry).1.db =
        .ok { lastAppliedIndex := entry.index, lastCommitTs := commitTs } := by
  unfold applyLogEntry at answered ⊢
  cases planned : planEntry codec faults machine.db entry with
  | error error =>
    rw [planned] at answered
    cases answered
  | ok plan =>
    obtain ⟨state, read, _⟩ := bind_eq_ok.mp planned
    cases loaded.symm.trans (loadState_noFaults read)
    rw [planned] at answered
    cases planEntry_planned read planned with
    | nothing old => exact .inl old
    | writes batch commitTs memory outcome later inMemory fresh =>
      cases refused : faults .write with
      | true => simp [performAll_refused refused, Except.map] at answered
      | false =>
        have durable := (performAll_writes codec machine
          (batch ++ [putApplyState { lastAppliedIndex := entry.index, lastCommitTs := commitTs }]) inMemory refused).1
        exact .inr ⟨_, (congrArg (loadState noFaults) durable).trans (loadState_writeBatch fits)⟩

theorem unchanged_of_error {error : ReplicatedSqlApplyError}
    (failed : (machine.applyLogEntry codec faults entry).2 = .error error) :
    (machine.applyLogEntry codec faults entry).1 = machine := by
  unfold applyLogEntry at failed ⊢
  cases planned : planEntry codec faults machine.db entry with
  | error error => rfl
  | ok plan =>
    obtain ⟨previous, loaded, _⟩ := bind_eq_ok.mp planned
    rw [planned] at failed
    cases planEntry_planned loaded planned with
    | nothing old => rfl
    | writes batch commitTs memory outcome later inMemory fresh =>
      cases refused : faults .write with
      | true => simp [performAll_refused refused]
      | false => simp [(performAll_writes codec machine _ inMemory refused).2, Except.map] at failed

end ReplicatedSqlStateMachine

inductive Server where
  | up (machine : ReplicatedSqlStateMachine)
  | down (db : Database)

def Server.db : Server → Database
  | .up machine => machine.db
  | .down db => db

inductive ServerEvent where
  | deliver (entry : LogEntry) (faults : Faults)
  /-- The process dies inside a call, after some of its effects. -/
  | crashDuring (entry : LogEntry) (faults : Faults) (effects : Nat)
  | crash
  | start (faults : Faults)

section Runs

variable (codec : SchemaCodec) (builtin : InMemoryCatalog)

def Server.exec : Server → ServerEvent → Option Server
  | .up machine, .deliver entry faults => some (.up (machine.applyLogEntry codec faults entry).1)
  | .up machine, .crashDuring entry faults effects =>
    some (.down (machine.crashedAfter codec faults entry effects))
  | .up machine, .crash => some (.down machine.db)
  | .down db, .start faults =>
    match ReplicatedSqlStateMachine.new codec faults builtin db with
    | .ok machine => some (.up machine)
    | .error _ => some (.down db)
  | _, _ => none

/-- The entry whose delivery is answered with `Ok`. -/
def Server.acknowledges : Server → ServerEvent → List LogEntry
  | .up machine, .deliver entry faults =>
    match (machine.applyLogEntry codec faults entry).2 with
    | .ok _ => [entry]
    | .error _ => []
  | _, _ => []

/-- The entries that a run has acknowledged. -/
def acknowledged (server : Server) : List ServerEvent → List LogEntry
  | [] => []
  | event :: rest =>
    server.acknowledges codec event ++
      match server.exec codec builtin event with
      | some next => acknowledged next rest
      | none => []

def Due (base : Nat) (log : List LogEntry) (server : Server) (entry : LogEntry) : Prop :=
  match loadState noFaults server.db with
  | .ok state => entry.index ≤ state.lastAppliedIndex ∨ log[state.lastAppliedIndex - base]? = some entry
  | .error _ => False

instance (base : Nat) (log : List LogEntry) (server : Server) (entry : LogEntry) :
    Decidable (Due base log server entry) :=
  match loaded : loadState noFaults server.db with
  | .ok state => decidable_of_iff
      (entry.index ≤ state.lastAppliedIndex ∨ log[state.lastAppliedIndex - base]? = some entry)
      (by simp only [Due, loaded])
  | .error _ => .isFalse (by simp only [Due, loaded, not_false_eq_true])

def Delivers (base : Nat) (log : List LogEntry) (server : Server) : ServerEvent → Prop
  | .deliver entry _ | .crashDuring entry _ _ => Due base log server entry
  | .crash | .start _ => True

instance (base : Nat) (log : List LogEntry) (server : Server) (event : ServerEvent) :
    Decidable (Delivers base log server event) :=
  match event with
  | .deliver entry _ | .crashDuring entry _ _ => inferInstanceAs (Decidable (Due base log server entry))
  | .crash | .start _ => .isTrue trivial

/-- The entries of a log are numbered one by one after `base`, in 64 bits. -/
def Follows (base : Nat) (log : List LogEntry) : Prop :=
  ∀ position entry, log[position]? = some entry →
    entry.index = base + position + 1 ∧ entry.index < 2 ^ 64

/-- The disk of `server` is that of `start` after each of the first `count` entries of the
log was applied once, in order. -/
def AppliedOnce (base : Nat) (log : List LogEntry) (start : Database) (count : Nat) (db : Database) : Prop :=
  count ≤ log.length ∧
    (∃ commitTs, loadState noFaults db =
      .ok { lastAppliedIndex := base + count, lastCommitTs := commitTs }) ∧
    ∀ reference : ReplicatedSqlStateMachine, reference.db = start →
      ∃ after, runs (applyOnce codec) reference (log.take count) = some after ∧
        after.db = db

variable {codec builtin} {base : Nat} {log : List LogEntry} {start db : Database} {count : Nat}

theorem Due.fits {machine : ReplicatedSqlStateMachine} {entry : LogEntry} {state : ReplicatedApplyState}
    (due : Due base log (.up machine) entry) (follows : Follows base log)
    (loaded : loadState noFaults machine.db = .ok state) : entry.index < 2 ^ 64 := by
  rw [Due, Server.db, loaded] at due
  rcases due with again | found
  · exact again.trans_lt (loadState_bounded loaded).1
  · exact (follows _ _ found).2

theorem AppliedOnce.next {machine : ReplicatedSqlStateMachine} {entry : LogEntry} {faults : Faults}
    (applied : AppliedOnce codec base log start count machine.db) (follows : Follows base log)
    (due : Due base log (.up machine) entry) (effects : Nat) : ∃ later, count ≤ later ∧
      AppliedOnce codec base log start later (machine.crashedAfter codec faults entry effects) := by
  obtain ⟨bounded, ⟨commitTs, loaded⟩, once⟩ := applied
  have fits := due.fits follows loaded
  rw [Due, Server.db, loaded] at due
  rcases durable_crash effects fits loaded with same | ⟨later, moved, redone⟩
  · exact ⟨count, le_rfl, bounded, ⟨commitTs, same ▸ loaded⟩, same ▸ once⟩
  · have found : log[count]? = some entry := by
      rcases due with again | found
      · exact absurd later (not_lt.mpr again)
      · simpa using found
    obtain ⟨numbered, _⟩ := follows _ _ found
    obtain ⟨inside, _⟩ := List.getElem?_eq_some_iff.mp found
    rw [numbered, Nat.add_assoc] at moved
    refine ⟨count + 1, Nat.le_succ count, inside, moved, ?_⟩
    intro reference same
    obtain ⟨before, ran, durable⟩ := once reference same
    obtain ⟨after, stepped, final⟩ := redone before durable
    refine ⟨after, ?_, final⟩
    simp only [List.take_add_one, found, runs_append, ran, Option.toList_some, Option.bind_some, runs,
      stepped]

/-- A delivery that is answered with `Ok` is among the entries that were applied. -/
theorem AppliedOnce.covers {machine : ReplicatedSqlStateMachine} {entry : LogEntry} {faults : Faults}
    {outcome : ReplicatedApplyOutcome} {later : Nat} (applied : AppliedOnce codec base log start count machine.db)
    (follows : Follows base log) (due : Due base log (.up machine) entry) (grown : count ≤ later)
    (reached : AppliedOnce codec base log start later (machine.applyLogEntry codec faults entry).1.db)
    (answered : (machine.applyLogEntry codec faults entry).2 = .ok outcome) : entry.index ≤ base + later := by
  obtain ⟨-, ⟨commitTs, loaded⟩, -⟩ := applied
  obtain ⟨-, ⟨laterTs, reloaded⟩, -⟩ := reached
  rcases cursor_of_ok (due.fits follows loaded) loaded answered with old | ⟨ts, moved⟩
  · exact old.trans (Nat.add_le_add_left grown base)
  · exact (congrArg ReplicatedApplyState.lastAppliedIndex (Except.ok.inj (reloaded.symm.trans moved))).ge

theorem AppliedOnce.step {server next : Server} {event : ServerEvent}
    (applied : AppliedOnce codec base log start count server.db) (follows : Follows base log)
    (delivers : Delivers base log server event) (stepped : server.exec codec builtin event = some next) :
    ∃ later, count ≤ later ∧ AppliedOnce codec base log start later next.db ∧
      ∀ entry ∈ server.acknowledges codec event, entry.index ≤ base + later := by
  cases server with
  | up machine =>
    cases event with
    | deliver entry faults =>
      cases stepped
      obtain ⟨effects, same⟩ := applyLogEntry_db
      obtain ⟨later, grown, reached⟩ := applied.next follows delivers effects
      rw [← same] at reached
      refine ⟨later, grown, reached, fun acked inside => ?_⟩
      rw [Server.acknowledges] at inside
      split at inside
      · rename_i answered
        cases List.mem_singleton.mp inside
        exact applied.covers follows delivers grown reached answered
      · cases inside
    | crashDuring entry faults effects =>
      cases stepped
      obtain ⟨later, grown, reached⟩ := applied.next follows delivers effects
      exact ⟨later, grown, reached, by simp [Server.acknowledges]⟩
    | crash =>
      cases stepped
      exact ⟨count, le_rfl, applied, by simp [Server.acknowledges]⟩
    | start faults => cases stepped
  | down db =>
    cases event with
    | start faults =>
      rw [Server.exec] at stepped
      cases opened : ReplicatedSqlStateMachine.new codec faults builtin db with
      | error error =>
        rw [opened] at stepped
        cases stepped
        exact ⟨count, le_rfl, applied, by simp [Server.acknowledges]⟩
      | ok machine =>
        rw [opened] at stepped
        cases stepped
        have same := db_of_new opened
        exact ⟨count, le_rfl, by rwa [Server.db, same], by simp [Server.acknowledges]⟩
    | deliver entry faults => cases stepped
    | crashDuring entry faults effects => cases stepped
    | crash => cases stepped

theorem AppliedOnce.run {server final : Server} {schedule : List ServerEvent}
    (applied : AppliedOnce codec base log start count server.db) (follows : Follows base log)
    (ran : runs (Server.exec codec builtin) server schedule = some final)
    (delivers : Throughout (Server.exec codec builtin) (Delivers base log) server schedule) :
    ∃ later, count ≤ later ∧ AppliedOnce codec base log start later final.db ∧
      ∀ entry ∈ acknowledged codec builtin server schedule, entry.index ≤ base + later := by
  induction schedule generalizing server count with
  | nil =>
    cases ran
    exact ⟨count, le_rfl, applied, by simp [acknowledged]⟩
  | cons event rest induction =>
    obtain ⟨next, stepped, ran⟩ := Option.bind_eq_some_iff.mp ran
    obtain ⟨middle, grown, reached, acked⟩ := applied.step follows delivers.1 stepped
    obtain ⟨later, grew, held, rested⟩ := induction reached ran (delivers.2 next stepped)
    refine ⟨later, grown.trans grew, held, fun entry inside => ?_⟩
    rw [acknowledged, stepped] at inside
    rcases List.mem_append.mp inside with here | there
    · exact (acked entry here).trans (Nat.add_le_add_left grew base)
    · exact rested entry there

/-- The entries of the committed log up to the cursor, and among them every one that was
acknowledged, are applied to the disk exactly once and in order, whatever is delivered again and
wherever the process dies; and a call that fails leaves disk, catalog and clock as they were. -/
theorem exactly_once_apply (initial : ReplicatedApplyState) {server final : Server}
    {schedule : List ServerEvent} (loaded : loadState noFaults server.db = .ok initial)
    (follows : Follows initial.lastAppliedIndex log)
    (ran : runs (Server.exec codec builtin) server schedule = some final)
    (delivers : Throughout (Server.exec codec builtin) (Delivers initial.lastAppliedIndex log) server schedule) :
    (∃ count, AppliedOnce codec initial.lastAppliedIndex log server.db count final.db ∧
      ∀ entry ∈ acknowledged codec builtin server schedule, entry.index ≤ initial.lastAppliedIndex + count) ∧
      ∀ machine faults entry error, (ReplicatedSqlStateMachine.applyLogEntry codec faults machine entry).2 = .error error →
        (machine.applyLogEntry codec faults entry).1 = machine := by
  refine ⟨?_, fun _ _ _ _ failed => unchanged_of_error failed⟩
  have untouched : AppliedOnce codec initial.lastAppliedIndex log server.db 0 server.db :=
    ⟨Nat.zero_le _, ⟨_, loaded⟩, fun reference same => ⟨reference, rfl, same⟩⟩
  obtain ⟨count, -, applied, acked⟩ := untouched.run follows ran delivers
  exact ⟨count, applied, acked⟩

def accountsLog : List LogEntry :=
  [{ term := 1, index := 1, command := command (.createTable
      { name := "Accounts", columns := [{ name := "id", dataType := "BIGINT" }] }) },
    { term := 1, index := 2, command := [] },
    { term := 2, index := 3, command := command (.insertRows "Accounts" (tableIdFor "Accounts") 65536
      [{ primaryKey := [7], value := [1, 2] }]) }]
where
  command (mutation : ReplicatedMutation) : Bytes := mutation.encode.toOption.getD []

/-- Crashes before and after the write of an entry, refused reads and writes, and a
delivery of an entry that is on disk already. -/
def accountsSchedule : List ServerEvent :=
  match accountsLog with
  | [create, control, insert] =>
    [.start noFaults, .deliver create noFaults, .crashDuring control noFaults 0, .start noFaults,
      .deliver control (fun call => call == .write), .deliver control noFaults,
      .crashDuring insert noFaults 1, .start noFaults, .deliver insert noFaults, .crash,
      .start fun call => call == .readApplyState]
  | _ => []

/-- All three entries are acknowledged, the last one only when it is delivered again. -/
theorem exactly_once_apply_crashes : ∃ final,
    runs (Server.exec plainSchemas fun _ => none) (.down .empty) accountsSchedule = some final ∧
      acknowledged plainSchemas (fun _ => none) (.down .empty) accountsSchedule = accountsLog ∧
      AppliedOnce plainSchemas 0 accountsLog .empty 3 final.db := by
  have started : (runs (Server.exec plainSchemas fun _ => none) (.down .empty) accountsSchedule).isSome := by
    decide +kernel
  obtain ⟨final, ran⟩ := Option.isSome_iff_exists.mp started
  have follows : Follows 0 accountsLog := by
    intro position entry found
    match position, found with
    | 0, rfl => decide +kernel
    | 1, rfl => decide +kernel
    | 2, rfl => decide +kernel
  have acked : acknowledged plainSchemas (fun _ => none) (.down .empty) accountsSchedule = accountsLog := by
    decide +kernel
  obtain ⟨count, applied, covered⟩ := (exactly_once_apply ⟨0, 0⟩ rfl follows ran (by decide +kernel)).1
  have last : 3 ≤ 0 + count := covered (accountsLog.get ⟨2, by decide⟩) (by rw [acked]; exact List.get_mem _ _)
  obtain rfl : count = 3 := le_antisymm applied.1 (last.trans (Nat.zero_add count).le)
  exact ⟨final, ran, acked, applied⟩

end Runs

section Machines

variable {codec : SchemaCodec} {machine : ReplicatedSqlStateMachine} {entry : LogEntry}
  {batch : WriteBatch} {memory : List Effect} {outcome : ReplicatedApplyOutcome}

def serve (codec : SchemaCodec) (catalog : InMemoryCatalog) : Effect → InMemoryCatalog
  | .createTable schema => catalog.createTable codec schema
  | .dropTable table => catalog.dropTable codec table
  | _ => catalog

namespace ReplicatedSqlStateMachine

theorem performAll_catalog (inMemory : ∀ effect ∈ memory, effect.InMemory) :
    (machine.performAll codec noFaults memory).1.catalog = memory.foldl (serve codec) machine.catalog := by
  induction memory generalizing machine with
  | nil => rfl
  | cons effect rest induction =>
    have later := fun effect inside => inMemory effect (List.mem_cons_of_mem _ inside)
    cases effect with
    | writeBatch batch => exact absurd (inMemory _ List.mem_cons_self) id
    | createTable schema => exact induction later
    | dropTable table => exact induction later
    | observeCommitted committed => exact induction later

theorem applyLogEntry_refused {reason : ReplicatedSqlApplyError}
    (planned : planEntry codec noFaults machine.db entry = .error reason) :
    machine.applyLogEntry codec noFaults entry = (machine, .error reason) := by
  simp only [applyLogEntry, planned]

theorem applyLogEntry_stale (planned : planEntry codec noFaults machine.db entry = .ok ([], outcome)) :
    machine.applyLogEntry codec noFaults entry = (machine, .ok outcome) := by
  simp only [applyLogEntry, planned]
  rfl

theorem applyLogEntry_writes
    (planned : planEntry codec noFaults machine.db entry = .ok (.writeBatch batch :: memory, outcome))
    (inMemory : ∀ effect ∈ memory, effect.InMemory) :
    (machine.applyLogEntry codec noFaults entry).1.db = machine.db.writeBatch batch ∧
      (machine.applyLogEntry codec noFaults entry).1.catalog = memory.foldl (serve codec) machine.catalog ∧
      (machine.applyLogEntry codec noFaults entry).2 = .ok outcome := by
  obtain ⟨durable, succeeded⟩ := performAll_writes codec machine batch inMemory
    (rfl : noFaults .write = false)
  have served : (machine.performAll codec noFaults (.writeBatch batch :: memory)).1.catalog =
      memory.foldl (serve codec) machine.catalog :=
    @performAll_catalog codec { machine with db := machine.db.writeBatch batch } memory inMemory
  simp only [applyLogEntry, planned]
  exact ⟨durable, served, by rw [succeeded]; rfl⟩

end ReplicatedSqlStateMachine

end Machines

end Neuralbase.Replicated
