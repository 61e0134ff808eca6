import Neuralbase.Replicated.Identity.Registry

namespace Neuralbase.Auth

open Neuralbase.Library Neuralbase.Replicated Neuralbase.Consensus

/-! User management on one node, with the registry in a file (`auth.rs`), and through the
replicated log (`replicated_gateway.rs`). -/

section Model

/-- The SCRAM record of a password and a salt. -/
abbrev ScramDerivation := String → Bytes → ReplicatedScramCredential

inductive UserStatement where
  | createUser (username password : String)
  | alterUser (username newPassword : String)
  | dropUser (username : String) (ifExists : Bool)
deriving DecidableEq

/-- What becomes of a mutation in the cluster: it is committed and acknowledged; the readiness barrier
before it fails, so it is not submitted; it is answered with an error and dropped; it is answered with
an error (a closed reply channel, a change of leader) and committed after all. -/
inductive Submission where
  | committed
  | notReady
  | lost
  | late
deriving DecidableEq

/-- A statement with the salt that `create_scram_user` draws, what the file system does when the
registry is saved, and what the cluster does when a mutation is submitted. -/
structure UserRequest where
  statement : UserStatement
  salt : Bytes
  readable : Bool
  saved : Bool
  submission : Submission
deriving DecidableEq

inductive UserError where
  | persist
  | raft
  | alreadyExists
  | notFound
  | refused
deriving DecidableEq

/-- The registry in memory and in its file; a missing or malformed file is `none`. -/
structure UserRegistry where
  users : Accounts
  file : Option Accounts

namespace UserRegistry

def loadFromFile (registry : UserRegistry) (readable : Bool) : Accounts :=
  if readable then registry.file.getD fun _ => none else fun _ => none

def saveToFile (registry : UserRegistry) (request : UserRequest) : UserRegistry × Except UserError Unit :=
  let persistedUsers := registry.loadFromFile request.readable
  if request.saved then ({ registry with file := some registry.users }, .ok ())
  else ({ registry with users := persistedUsers }, .error .persist)

def addUser (registry : UserRegistry) (username : String) (credential : ReplicatedScramCredential) : UserRegistry :=
  { registry with users := Function.update registry.users username (some credential) }

def removeUser (registry : UserRegistry) (username : String) : UserRegistry :=
  { registry with users := Function.update registry.users username none }

/-- The branches of `process_query_inner` without a gateway. -/
def execute (scram : ScramDerivation) (registry : UserRegistry) (request : UserRequest) :
    UserRegistry × Except UserError Unit :=
  match request.statement with
  | .createUser username password => (registry.addUser username (scram password request.salt)).saveToFile request
  | .alterUser username newPassword =>
    if (registry.users username).isSome then
      (registry.addUser username (scram newPassword request.salt)).saveToFile request
    else (registry, .error .notFound)
  | .dropUser username ifExists =>
    let removed := (registry.users username).isSome
    if removed || ifExists then (registry.removeUser username).saveToFile request
    else (registry.removeUser username, .error .notFound)

end UserRegistry

/-- What a committed mutation does to the stored identity; a refused one leaves it. -/
def commitIdentity (state : ReplicatedIdentityState) (call : IdentityCall) :
    ReplicatedIdentityState × Except UserError Unit :=
  match state.call call with
  | (next, .ok _) => (next, .ok ())
  | (_, .error _) => (state, .error .refused)

/-- The checks of `create_user`, `alter_user` and `drop_user` of the gateway, and the mutation they submit. -/
def gatewayCall (scram : ScramDerivation) (state : ReplicatedIdentityState)
    (request : UserRequest) : Except UserError IdentityCall :=
  match request.statement with
  | .createUser username password =>
    if state.containsUser username then .error .alreadyExists
    else if (scram password request.salt).validate ≠ .ok () then .error .refused
    else .ok (.createUser ⟨username, scram password request.salt⟩)
  | .alterUser username newPassword =>
    if ¬ state.containsUser username then .error .notFound
    else if (scram newPassword request.salt).validate ≠ .ok () then .error .refused
    else .ok (.alterUser ⟨username, scram newPassword request.salt⟩)
  | .dropUser username ifExists =>
    if ¬ ifExists ∧ ¬ state.containsUser username then .error .notFound else .ok (.dropUser username ifExists)

def submitIdentity (state : ReplicatedIdentityState) (call : IdentityCall) :
    Submission → ReplicatedIdentityState × Except UserError Unit
  | .committed => commitIdentity state call
  | .late => ((commitIdentity state call).1, .error .raft)
  | .lost | .notReady => (state, .error .raft)

/-- The branches with a gateway, for an initialised identity. -/
def executeReplicated (scram : ScramDerivation) (state : ReplicatedIdentityState)
    (request : UserRequest) : ReplicatedIdentityState × Except UserError Unit :=
  if request.submission = .notReady then (state, .error .raft)
  else
    match gatewayCall scram state request with
    | .error error => (state, .error error)
    | .ok call => submitIdentity state call request.submission

end Model

section Agreement

variable {scram : ScramDerivation} {registry : UserRegistry} {state : ReplicatedIdentityState}
  {request : UserRequest} {users : Accounts} {passwords : String → Option String}

/-- Each user has the password that these credentials were made from. -/
def Holds (scram : ScramDerivation) (users : Accounts) (passwords : String → Option String) : Prop :=
  ∀ username, match users username, passwords username with
    | some credential, some password => ∃ salt, credential = scram password salt
    | none, none => True
    | _, _ => False

theorem Holds.isSome_eq (holds : Holds scram users passwords) (username : String) :
    (users username).isSome = (passwords username).isSome := by
  have here := holds username
  revert here
  cases users username <;> cases passwords username <;> simp

theorem Holds.set (holds : Holds scram users passwords) (username password : String) (salt : Bytes) :
    Holds scram (Function.update users username (some (scram password salt)))
      (Function.update passwords username (some password)) := by
  intro other
  by_cases same : other = username
  · simp only [same, Function.update_self]
    exact ⟨salt, rfl⟩
  · simp only [Function.update_of_ne same]
    exact holds other

theorem Holds.drop (holds : Holds scram users passwords) (username : String) :
    Holds scram (Function.update users username none) (Function.update passwords username none) := by
  intro other
  by_cases same : other = username
  · simp only [same, Function.update_self]
  · simp only [Function.update_of_ne same]
    exact holds other

theorem containsUser_eq (canonical : state.Canonical) (username : String) :
    state.containsUser username = (state.lookup username).isSome := by
  rcases state.find_cases canonical.1 username with
    ⟨below, present, above, split, same, found⟩ | ⟨below, above, split, before, after, found⟩
  · simp [ReplicatedIdentityState.containsUser, ReplicatedIdentityState.lookup, found, split, Except.toOption]
  · simp [ReplicatedIdentityState.containsUser, ReplicatedIdentityState.lookup, found, Except.toOption]

/-- A mutation that is committed leaves the accounts that its specification gives. -/
theorem commitIdentity_holds {call : IdentityCall} {accounts : Accounts} {result : Bool} (canonical : state.Canonical)
    (admits : state.Admits call) (spec : Accounts.call state.lookup call = (accounts, .ok result))
    (after : Holds scram accounts passwords) : Holds scram (commitIdentity state call).1.lookup passwords ∧
      (commitIdentity state call).1.Canonical ∧ (commitIdentity state call).2.isOk = true := by
  have refines : (state.call call).1.Canonical ∧
      Accounts.call state.lookup call = ((state.call call).1.lookup, (state.call call).2) := by
    cases call with
    | createUser user => exact ReplicatedIdentityState.call_createUser canonical admits
    | alterUser user => exact ReplicatedIdentityState.call_alterUser canonical admits
    | dropUser username ifExists => exact ReplicatedIdentityState.call_dropUser canonical
  obtain ⟨kept, same⟩ := refines
  rw [spec, Prod.mk.injEq] at same
  rw [commitIdentity, show state.call call = ((state.call call).1, .ok result) from Prod.ext rfl same.2.symm]
  exact ⟨same.1 ▸ after, kept, rfl⟩

/-- What a statement says about the passwords, and whether it succeeds. -/
def specify (passwords : String → Option String) : UserStatement → (String → Option String) × Bool
  | .createUser username password =>
    if (passwords username).isSome then (passwords, false)
    else (Function.update passwords username (some password), true)
  | .alterUser username newPassword =>
    if (passwords username).isSome then (Function.update passwords username (some newPassword), true)
    else (passwords, false)
  | .dropUser username ifExists =>
    if (passwords username).isSome then (Function.update passwords username none, true) else (passwords, ifExists)

/-- A statement that cannot be saved fails. -/
def UserRequest.specify (passwords : String → Option String) (request : UserRequest) : (String → Option String) × Bool :=
  if request.saved then Auth.specify passwords request.statement else (passwords, false)

/-- The registry of one node and the replicated one, which are given the same statements. -/
structure BothModes where
  registry : UserRegistry
  state : ReplicatedIdentityState

def BothModes.execute (scram : ScramDerivation) (both : BothModes) (request : UserRequest) :
    BothModes × Bool × Bool :=
  (⟨(both.registry.execute scram request).1, (executeReplicated scram both.state request).1⟩,
    (both.registry.execute scram request).2.isOk, (executeReplicated scram both.state request).2.isOk)

/-- The statements that write the users file. -/
def UserRegistry.saves (registry : UserRegistry) : UserStatement → Bool
  | .createUser .. => true
  | .alterUser username _ => (registry.users username).isSome
  | .dropUser username ifExists => (registry.users username).isSome || ifExists

/-- CREATE USER names a new user, and the replicated registry has room. -/
def BothModes.Admits (scram : ScramDerivation) (both : BothModes) (request : UserRequest) : Prop :=
  match request.statement with
  | .createUser username password => both.registry.users username = none ∧
      both.state.Admits (.createUser ⟨username, scram password request.salt⟩)
  | .alterUser username newPassword => both.state.Admits (.alterUser ⟨username, scram newPassword request.salt⟩)
  | .dropUser .. => True

/-- The cluster does not take the mutation, or CREATE USER names a user that exists. -/
def BothModes.Refused (both : BothModes) (request : UserRequest) : Prop :=
  request.submission = .notReady ∨ request.submission = .lost ∨
    match request.statement with
    | .createUser username _ => (both.registry.users username).isSome = true
    | .alterUser .. | .dropUser .. => False

/-- Of a statement that writes the users file: the file is written and the mutation is committed, or
neither, and then the file can be read. -/
def BothModes.Allowed (scram : ScramDerivation) (both : BothModes) (request : UserRequest) : Prop :=
  both.registry.saves request.statement = true →
    (request.saved = true ∧ request.submission = .committed ∧ both.Admits scram request) ∨
    (request.saved = false ∧ request.readable = true ∧ both.Refused request)

instance (both : BothModes) (request : UserRequest) : Decidable (both.Admits scram request) := by
  unfold BothModes.Admits
  cases request.statement <;> infer_instance

instance (both : BothModes) (request : UserRequest) : Decidable (both.Refused request) := by
  unfold BothModes.Refused
  cases request.statement <;> infer_instance

instance (both : BothModes) (request : UserRequest) : Decidable (both.Allowed scram request) :=
  inferInstanceAs (Decidable (_ → (_ ∨ _)))

structure BothModes.Agree (scram : ScramDerivation) (both : BothModes)
    (passwords : String → Option String) : Prop where
  standalone : Holds scram both.registry.users passwords
  replicated : Holds scram both.state.lookup passwords
  canonical : both.state.Canonical
  synced : both.registry.file = some both.registry.users

variable {both : BothModes}

theorem saveToFile_saved (saved : request.saved = true) :
    registry.saveToFile request = ({ registry with file := some registry.users }, .ok ()) := by
  simp [UserRegistry.saveToFile, saved]

theorem Holds.none_of (holds : Holds scram users passwords) {username : String} (absent : (passwords username).isSome = false) :
    users username = none := by
  rw [← Option.isSome_eq_false_iff.trans Option.isNone_iff_eq_none, holds.isSome_eq, absent]

theorem saveToFile_failed (failed : request.saved = false) : registry.saveToFile request =
    ({ registry with users := registry.loadFromFile request.readable }, .error .persist) := by
  simp [UserRegistry.saveToFile, failed]

/-- A statement that writes no file changes nothing, and any other is a change that is saved. -/
theorem execute_cases : (registry.saves request.statement = false ∧
      registry.execute scram request = (registry, .error .notFound)) ∨
    registry.saves request.statement = true ∧ ∃ changed : UserRegistry, changed.file = registry.file ∧
      registry.execute scram request = changed.saveToFile request := by
  unfold UserRegistry.execute UserRegistry.saves
  cases request.statement with
  | createUser username password => exact .inr ⟨rfl, registry.addUser username (scram password request.salt), rfl, rfl⟩
  | alterUser username newPassword =>
    simp only
    cases (registry.users username).isSome with
    | false => exact .inl ⟨rfl, rfl⟩
    | true => exact .inr ⟨rfl, registry.addUser username (scram newPassword request.salt), rfl, rfl⟩
  | dropUser username ifExists =>
    simp only
    cases known : ((registry.users username).isSome || ifExists) with
    | true => exact .inr ⟨rfl, registry.removeUser username, rfl, rfl⟩
    | false =>
      have absent : registry.users username = none := by
        rw [Bool.or_eq_false_iff] at known
        exact Option.not_isSome_iff_eq_none.mp (by simp [known.1])
      refine .inl ⟨rfl, ?_⟩
      simp only [Bool.false_eq_true, if_false, UserRegistry.removeUser]
      rw [Function.update_eq_self_iff.mpr absent.symm]

/-- An error changes nothing exactly if a failed save finds in the file what was in memory. -/
theorem execute_error_iff : (∀ error, (registry.execute scram request).2 = .error error →
      (registry.execute scram request).1 = registry) ↔
    (registry.saves request.statement = true → request.saved = false →
      registry.loadFromFile request.readable = registry.users) := by
  rcases @execute_cases scram registry request with ⟨quiet, ran⟩ | ⟨saves, changed, sameFile, ran⟩
  · simp [quiet, ran]
  · rw [ran]
    cases saved : request.saved with
    | true => simp [saveToFile_saved saved]
    | false =>
      have load : changed.loadFromFile request.readable = registry.loadFromFile request.readable := by
        rw [UserRegistry.loadFromFile, UserRegistry.loadFromFile, sameFile]
      simp only [saveToFile_failed saved, load, saves, sameFile, forall_const]
      constructor
      · intro unchanged
        exact congrArg UserRegistry.users (unchanged .persist rfl)
      · rintro same error -
        rw [same]

theorem execute_synced (synced : registry.file = some registry.users) (readable : request.saved = false → request.readable = true) :
    (registry.execute scram request).1.file = some (registry.execute scram request).1.users := by
  rcases @execute_cases scram registry request with ⟨quiet, ran⟩ | ⟨saves, changed, sameFile, ran⟩
  · rw [ran]
    exact synced
  · rw [ran]
    cases saved : request.saved with
    | true => simp [saveToFile_saved saved]
    | false => simp [saveToFile_failed saved, UserRegistry.loadFromFile, readable saved, sameFile, synced]

/-- An error of the replicated path changes nothing exactly if no mutation that was answered with an
error and is committed after all has an effect. -/
theorem executeReplicated_error_iff : (∀ error, (executeReplicated scram state request).2 = .error error →
      (executeReplicated scram state request).1 = state) ↔
    (request.submission = .late → ∀ call, gatewayCall scram state request = .ok call →
      (commitIdentity state call).1 = state) := by
  have refused {call : IdentityCall} {error : UserError} (failed : (commitIdentity state call).2 = .error error) :
      (commitIdentity state call).1 = state := by
    unfold commitIdentity at failed ⊢
    split at failed
    · cases failed
    · rfl
  unfold executeReplicated
  cases gatewayCall scram state request with
  | error error =>
    simp only [reduceCtorEq, false_implies, implies_true, iff_true]
    intro other
    split_ifs <;> simp
  | ok call =>
    cases request.submission with
    | committed => simpa [submitIdentity] using fun error => refused
    | late => simp [submitIdentity]
    | lost | notReady => simp [submitIdentity]

theorem executeReplicated_refused (holds : Holds scram state.lookup passwords) (sameUsers : Holds scram registry.users passwords)
    (canonical : state.Canonical) (refused : BothModes.Refused ⟨registry, state⟩ request) :
    ∃ error, executeReplicated scram state request = (state, .error error) := by
  unfold executeReplicated
  rcases refused with notReady | lost | exists'
  · exact ⟨_, if_pos notReady⟩
  · rw [lost, if_neg (by decide)]
    cases gatewayCall scram state request with
    | error error => exact ⟨error, rfl⟩
    | ok call => exact ⟨.raft, rfl⟩
  · split_ifs with notReady
    · exact ⟨_, rfl⟩
    · unfold gatewayCall
      cases isStatement : request.statement with
      | createUser username password =>
        rw [isStatement] at exists'
        have known : (registry.users username).isSome = true := exists'
        rw [sameUsers.isSome_eq, ← holds.isSome_eq, ← containsUser_eq canonical] at known
        exact ⟨.alreadyExists, by simp [known]⟩
      | alterUser | dropUser =>
        rw [isStatement] at exists'
        exact exists'.elim

/-- ALTER USER and plain DROP USER of a user that does not exist. -/
theorem executeReplicated_quiet (holds : Holds scram state.lookup passwords) (sameUsers : Holds scram registry.users passwords)
    (canonical : state.Canonical) (quiet : registry.saves request.statement = false) :
    (∃ error, executeReplicated scram state request = (state, .error error)) ∧
      request.specify passwords = (passwords, false) := by
  have contains (username : String) : state.containsUser username = (passwords username).isSome := by
    rw [containsUser_eq canonical, holds.isSome_eq]
  unfold executeReplicated gatewayCall UserRequest.specify specify
  cases isStatement : request.statement with
  | createUser username password =>
    rw [isStatement] at quiet
    cases quiet
  | alterUser username newPassword =>
    rw [isStatement, UserRegistry.saves, sameUsers.isSome_eq] at quiet
    simp only [contains, quiet, Bool.false_eq_true, not_false_eq_true, if_true, if_false, ite_self]
    refine ⟨?_, trivial⟩
    split_ifs <;> exact ⟨_, rfl⟩
  | dropUser username ifExists =>
    rw [isStatement, UserRegistry.saves, sameUsers.isSome_eq, Bool.or_eq_false_iff] at quiet
    simp only [contains, quiet.1, quiet.2, Bool.false_eq_true, not_false_eq_true, and_self, if_true, if_false, ite_self]
    refine ⟨?_, trivial⟩
    split_ifs <;> exact ⟨_, rfl⟩

/-- A statement that is saved. -/
theorem execute_specified (holds : Holds scram registry.users passwords) (saved : request.saved = true)
    (fresh : ∀ username password, request.statement = .createUser username password → registry.users username = none) :
    Holds scram (registry.execute scram request).1.users (specify passwords request.statement).1 ∧
      (registry.execute scram request).2.isOk = (specify passwords request.statement).2 := by
  unfold UserRegistry.execute specify
  cases isStatement : request.statement with
  | createUser username password =>
    have missing : (passwords username).isSome = false := by rw [← holds.isSome_eq, fresh _ _ isStatement]; rfl
    simp only [saveToFile_saved saved, missing, Bool.false_eq_true, if_false]
    exact ⟨holds.set username password request.salt, rfl⟩
  | alterUser username newPassword =>
    simp only [holds.isSome_eq, saveToFile_saved saved]
    cases (passwords username).isSome with
    | false => exact ⟨holds, rfl⟩
    | true => exact ⟨holds.set username newPassword request.salt, rfl⟩
  | dropUser username ifExists =>
    simp only [holds.isSome_eq, saveToFile_saved saved]
    cases known : (passwords username).isSome with
    | true => exact ⟨holds.drop username, rfl⟩
    | false =>
      have unchanged : (registry.removeUser username).users = registry.users :=
        Function.update_eq_self_iff.mpr (holds.none_of known).symm
      cases ifExists with
      | false => exact ⟨unchanged ▸ holds, rfl⟩
      | true => exact ⟨unchanged ▸ holds, rfl⟩

/-- A statement whose mutation is committed. -/
theorem executeReplicated_specified (holds : Holds scram state.lookup passwords) (canonical : state.Canonical)
    (committed : request.submission = .committed) (admits : BothModes.Admits scram ⟨registry, state⟩ request)
    (sameUsers : Holds scram registry.users passwords) :
    Holds scram (executeReplicated scram state request).1.lookup (specify passwords request.statement).1 ∧
      (executeReplicated scram state request).1.Canonical ∧
      (executeReplicated scram state request).2.isOk = (specify passwords request.statement).2 := by
  have contains (username : String) : state.containsUser username = (passwords username).isSome := by
    rw [containsUser_eq canonical, holds.isSome_eq]
  unfold executeReplicated gatewayCall specify
  unfold BothModes.Admits at admits
  rw [committed, if_neg (by decide)]
  cases isStatement : request.statement with
  | createUser username password =>
    rw [isStatement] at admits
    obtain ⟨absent, admits⟩ := admits
    have missing : (passwords username).isSome = false := by
      rw [← sameUsers.isSome_eq]
      exact Option.isSome_eq_false_iff.mpr (Option.isNone_iff_eq_none.mpr absent)
    have unknown := holds.none_of missing
    have valid := ((admits unknown).valid _ List.mem_cons_self).2
    have spec : Accounts.call state.lookup (.createUser ⟨username, scram password request.salt⟩) =
        (Function.update state.lookup username (some (scram password request.salt)), .ok true) := by
      simp [Accounts.call, unknown]
    simp only [contains, missing, valid, submitIdentity, Bool.false_eq_true, if_false, ne_eq, not_true_eq_false]
    exact commitIdentity_holds canonical admits spec (holds.set username password request.salt)
  | alterUser username newPassword =>
    rw [isStatement] at admits
    simp only [contains]
    cases known : (passwords username).isSome with
    | false => exact ⟨holds, canonical, rfl⟩
    | true =>
      have held : state.lookup username ≠ none := Option.isSome_iff_ne_none.mp (by rw [holds.isSome_eq, known])
      have valid := ((admits held).valid _ List.mem_cons_self).2
      have spec : Accounts.call state.lookup (.alterUser ⟨username, scram newPassword request.salt⟩) =
          (Function.update state.lookup username (some (scram newPassword request.salt)), .ok true) := by
        simp [Accounts.call, held]
      simp only [valid, submitIdentity, not_true_eq_false, if_false, ne_eq]
      exact commitIdentity_holds canonical admits spec (holds.set username newPassword request.salt)
  | dropUser username ifExists =>
    simp only [contains]
    cases known : (passwords username).isSome with
    | true =>
      have held : state.lookup username ≠ none := Option.isSome_iff_ne_none.mp (by rw [holds.isSome_eq, known])
      have spec : Accounts.call state.lookup (.dropUser username ifExists) =
          (Function.update state.lookup username none, .ok true) := by
        simp [Accounts.call, held]
      simp only [submitIdentity, not_true_eq_false, and_false, if_false]
      exact commitIdentity_holds canonical trivial spec (holds.drop username)
    | false =>
      cases ifExists with
      | false => exact ⟨holds, canonical, rfl⟩
      | true =>
        have spec : Accounts.call state.lookup (.dropUser username true) = (state.lookup, .ok false) := by
          simp [Accounts.call, holds.none_of known]
        simp only [submitIdentity, not_true_eq_false, false_and, if_false]
        exact commitIdentity_holds canonical trivial spec holds

theorem BothModes.Agree.step (agree : both.Agree scram passwords) (allowed : both.Allowed scram request) :
    (both.execute scram request).1.Agree scram (request.specify passwords).1 ∧
      (both.execute scram request).2 = ((request.specify passwords).2, (request.specify passwords).2) := by
  obtain ⟨standalone, replicated, canonical, synced⟩ := agree
  have both_fail (quiet : ∃ error, both.registry.execute scram request = (both.registry, .error error))
      (refused : ∃ error, executeReplicated scram both.state request = (both.state, .error error))
      (fails : request.specify passwords = (passwords, false)) :
      (both.execute scram request).1.Agree scram (request.specify passwords).1 ∧
        (both.execute scram request).2 = ((request.specify passwords).2, (request.specify passwords).2) := by
    obtain ⟨first, ran⟩ := quiet
    obtain ⟨second, ran'⟩ := refused
    rw [BothModes.execute, ran, ran', fails]
    exact ⟨⟨standalone, replicated, canonical, synced⟩, rfl⟩
  cases saves : both.registry.saves request.statement with
  | false =>
    obtain ⟨refused, fails⟩ := executeReplicated_quiet replicated standalone canonical saves
    rcases @execute_cases scram both.registry request with ⟨_, ran⟩ | ⟨also, _⟩
    · exact both_fail ⟨_, ran⟩ refused fails
    · rw [saves] at also
      cases also
  | true =>
    rcases allowed saves with ⟨saved, committed, admits⟩ | ⟨failed, readable, refused⟩
    · have specified : request.specify passwords = specify passwords request.statement := if_pos saved
      have fresh : ∀ username password, request.statement = .createUser username password →
          both.registry.users username = none := by
        intro username password isCreate
        rw [BothModes.Admits, isCreate] at admits
        exact admits.1
      obtain ⟨kept, answered⟩ := execute_specified standalone saved fresh
      obtain ⟨kept', canonical', answered'⟩ := executeReplicated_specified replicated canonical committed admits standalone
      rw [specified, BothModes.execute, answered, answered']
      exact ⟨⟨kept, kept', canonical', execute_synced synced (by simp [saved])⟩, rfl⟩
    · have fails : request.specify passwords = (passwords, false) := by simp [UserRequest.specify, failed]
      refine both_fail ?_ (executeReplicated_refused replicated standalone canonical refused) fails
      have loaded : both.registry.loadFromFile request.readable = both.registry.users := by
        simp [UserRegistry.loadFromFile, readable, synced]
      have unchanged := (@execute_error_iff scram both.registry request).mpr fun _ _ => loaded
      obtain ⟨changed, _, ran⟩ := (@execute_cases scram both.registry request).resolve_left (by simp [saves]) |>.2
      rw [saveToFile_failed failed] at ran
      exact ⟨.persist, Prod.ext (unchanged .persist (by rw [ran])) (by rw [ran])⟩

theorem BothModes.Agree.run (agree : both.Agree scram passwords) {requests : List UserRequest}
    (allowed : Throughout (fun both request => some (both.execute scram request).1) (BothModes.Allowed scram) both requests) :
    (answers (BothModes.execute scram) both requests).2 =
        (answers UserRequest.specify passwords requests).2.map (fun succeeds => (succeeds, succeeds)) ∧
      (answers (BothModes.execute scram) both requests).1.Agree scram (answers UserRequest.specify passwords requests).1 := by
  induction requests generalizing both passwords with
  | nil => exact ⟨rfl, agree⟩
  | cons request rest induction =>
    obtain ⟨kept, answered⟩ := agree.step allowed.1
    obtain ⟨others, final⟩ := induction kept (allowed.2 _ rfl)
    refine ⟨?_, final⟩
    simp only [answers, List.map_cons, answered, others]

def noUsers : BothModes := { registry := { users := fun _ => none, file := some fun _ => none }, state := { users := [] } }

def plainScram (password : String) (salt : Bytes) : ReplicatedScramCredential :=
  { seededCredential (UInt8.ofNat password.length) with salt := salt ++ List.replicate 16 1 }

def requestOf (statement : UserStatement) (saved : Bool) : UserRequest :=
  { statement, salt := [], readable := true, saved, submission := if saved then .committed else .lost }

def ddlRequests : List UserRequest :=
  [requestOf (.createUser "amy" "a") true, requestOf (.createUser "bob" "bb") true, requestOf (.alterUser "amy" "aaa") true,
    requestOf (.dropUser "cas" false) false, requestOf (.dropUser "cas" true) true, requestOf (.dropUser "amy" false) false,
    requestOf (.dropUser "bob" false) true]

end Agreement

end Neuralbase.Auth
