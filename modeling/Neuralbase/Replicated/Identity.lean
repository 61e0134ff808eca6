import Neuralbase.Replicated.Sql

namespace Neuralbase.Replicated

open Neuralbase.Library
open Neuralbase.Consensus (Bytes)

/-! Commands for the replicated cluster identity and their wire format
(`replicated_identity.rs`), and the registry of users that they change
(`replicated_identity_store.rs`). -/

abbrev Digest := { bytes : Bytes // bytes.length = 32 }

def zeroDigest : Digest := ⟨List.replicate 32 0, rfl⟩

structure ReplicatedScramCredential where
  salt : Bytes
  iterations : Nat
  storedKey : Digest
  serverKey : Digest
deriving DecidableEq

structure ReplicatedIdentityUser where
  username : String
  credential : ReplicatedScramCredential
deriving DecidableEq

inductive ReplicatedIdentityMutation where
  | initializeUsers (users : List ReplicatedIdentityUser)
  | createUser (username : String) (credential : ReplicatedScramCredential)
  | alterUser (username : String) (credential : ReplicatedScramCredential)
  | dropUser (username : String) (ifExists : Bool)
deriving DecidableEq

inductive IdentityCodecError where
  | tooLarge
  | unexpectedEof
  | invalidMagic
  | unsupportedVersion (version : UInt8)
  | unknownOpcode (opcode : UInt8)
  | invalidUtf8
  | invalidUsername
  | tooManyUsers
  | nonCanonicalUserOrder
  | invalidScramSalt
  | invalidScramIterations (iterations : Nat)
  | trailingBytes
  | fieldTooLarge
  | invalidBoolean (flag : UInt8)
  | unsupportedCredentialVersion (version : UInt8)
deriving DecidableEq

def identityMagic : Bytes := utf8 "NBRI"
def replicatedIdentityVersion : UInt8 := 1
def scramCredentialVersion : UInt8 := 1
def maxReplicatedIdentityBytes : Nat := 1024 * 1024
def maxUsernameBytes : Nat := 256
def maxInitialUsers : Nat := 100000

def isReplicatedIdentityMutation (bytes : Bytes) : Bool := identityMagic.isPrefixOf bytes

section Checks

open IdentityCodecError

def ReplicatedScramCredential.validate (credential : ReplicatedScramCredential) : Except IdentityCodecError Unit :=
  if ¬ (8 ≤ credential.salt.length ∧ credential.salt.length ≤ 64) then .error invalidScramSalt
  else if ¬ (4096 ≤ credential.iterations ∧ credential.iterations ≤ 10000000) then
    .error (invalidScramIterations credential.iterations)
  else .ok ()

def validateUsername (username : String) : Except IdentityCodecError Unit :=
  if utf8 username = [] ∨ maxUsernameBytes < (utf8 username).length ∨ 0 ∈ utf8 username then
    .error invalidUsername
  else .ok ()

def validateUsers : List ReplicatedIdentityUser → Except IdentityCodecError Unit
  | [] => .ok ()
  | user :: rest => do
      validateUsername user.username
      user.credential.validate
      validateUsers rest

def ensureStrictUserOrder : List ReplicatedIdentityUser → Except IdentityCodecError Unit
  | first :: second :: rest =>
    if utf8 second.username ≤ utf8 first.username then .error nonCanonicalUserOrder
    else ensureStrictUserOrder (second :: rest)
  | _ => .ok ()

def ensureUserOrder (users : List ReplicatedIdentityUser) : Except IdentityCodecError Unit := do
  validateUsers users
  ensureStrictUserOrder users

end Checks

section Writers

open IdentityCodecError

def putUsername (username : String) : Except IdentityCodecError Bytes := do
  validateUsername username
  putBlob fieldTooLarge (utf8 username)

def putCredential (credential : ReplicatedScramCredential) : Except IdentityCodecError Bytes := do
  credential.validate
  let salt ← putBlob fieldTooLarge credential.salt
  pure ([scramCredentialVersion] ++ (salt ++ (toBeBytes 4 credential.iterations ++
    (credential.storedKey.val ++ credential.serverKey.val))))

def putUser (user : ReplicatedIdentityUser) : Except IdentityCodecError Bytes := do
  let username ← putUsername user.username
  let credential ← putCredential user.credential
  pure (username ++ credential)

def sortUsers (users : List ReplicatedIdentityUser) : List ReplicatedIdentityUser :=
  users.insertionSort fun left right => utf8 left.username ≤ utf8 right.username

namespace ReplicatedIdentityMutation

def encodeBody : ReplicatedIdentityMutation → Except IdentityCodecError Bytes
  | .initializeUsers users => do
      let canonical := sortUsers users
      ensureUserOrder canonical
      if maxInitialUsers < canonical.length then throw tooManyUsers
      let body ← putMany putUser canonical
      pure ([1] ++ (toBeBytes 4 canonical.length ++ body))
  | .createUser username credential => do
      let body ← putUser { username, credential }
      pure ([2] ++ body)
  | .alterUser username credential => do
      let body ← putUser { username, credential }
      pure ([3] ++ body)
  | .dropUser username ifExists => do
      let name ← putUsername username
      pure ([4] ++ (name ++ [if ifExists then 1 else 0]))

def encode (mutation : ReplicatedIdentityMutation) : Except IdentityCodecError Bytes := do
  let body ← mutation.encodeBody
  let out := identityMagic ++ ([replicatedIdentityVersion] ++ body)
  if maxReplicatedIdentityBytes < out.length then throw tooLarge
  pure out

end ReplicatedIdentityMutation

end Writers

section Readers

open IdentityCodecError

def readUsername : Reader IdentityCodecError String := do
  let bytes ← .blob unexpectedEof
  let username ← .lift ((fromUtf8 bytes).elim (.error invalidUtf8) .ok)
  .lift ((validateUsername username).map fun _ => username)

def readDigest : Reader IdentityCodecError Digest := do
  let bytes ← .take unexpectedEof 32
  .lift (if length : bytes.length = 32 then .ok ⟨bytes, length⟩ else .error unexpectedEof)

def readCredential : Reader IdentityCodecError ReplicatedScramCredential := do
  let version ← .u8 unexpectedEof
  .lift (if version = scramCredentialVersion then .ok ()
    else .error (unsupportedCredentialVersion version))
  let salt ← .blob unexpectedEof
  let iterations ← .number unexpectedEof 4
  let storedKey ← readDigest
  let serverKey ← readDigest
  let credential := { salt, iterations, storedKey, serverKey : ReplicatedScramCredential }
  .lift (credential.validate.map fun _ => credential)

def readUser : Reader IdentityCodecError ReplicatedIdentityUser := do
  let username ← readUsername
  let credential ← readCredential
  pure { username, credential }

def readUsers : Reader IdentityCodecError (List ReplicatedIdentityUser) := do
  let count ← .number unexpectedEof 4
  .lift (if maxInitialUsers < count then .error tooManyUsers else .ok ())
  let users ← readUser.times count
  .lift ((ensureUserOrder users).map fun _ => users)

def readFlag : Reader IdentityCodecError Bool := do
  let flag ← .u8 unexpectedEof
  .lift (if flag = 0 then .ok false else if flag = 1 then .ok true else .error (invalidBoolean flag))

def readIdentityFields (opcode : UInt8) : Reader IdentityCodecError ReplicatedIdentityMutation :=
  if opcode = 1 then do
    let users ← readUsers
    pure (.initializeUsers users)
  else if opcode = 2 then do
    let user ← readUser
    pure (.createUser user.username user.credential)
  else if opcode = 3 then do
    let user ← readUser
    pure (.alterUser user.username user.credential)
  else if opcode = 4 then do
    let username ← readUsername
    let ifExists ← readFlag
    pure (.dropUser username ifExists)
  else .lift (.error (unknownOpcode opcode))

def readIdentityMutation : Reader IdentityCodecError ReplicatedIdentityMutation := do
  let magic ← .take unexpectedEof 4
  .lift (if magic = identityMagic then .ok () else .error invalidMagic)
  let version ← .u8 unexpectedEof
  .lift (if version = replicatedIdentityVersion then .ok () else .error (unsupportedVersion version))
  let opcode ← .u8 unexpectedEof
  readIdentityFields opcode

namespace ReplicatedIdentityMutation

def decode (bytes : Bytes) : Except IdentityCodecError ReplicatedIdentityMutation :=
  if maxReplicatedIdentityBytes < bytes.length then .error tooLarge
  else
    ((do
      let mutation ← readIdentityMutation
      Reader.finished trailingBytes
      pure mutation : Reader IdentityCodecError ReplicatedIdentityMutation) bytes).map Prod.fst

def commandTag : ReplicatedIdentityMutation → String
  | .initializeUsers _ => "INITIALIZE IDENTITY"
  | .createUser _ _ => "CREATE USER"
  | .alterUser _ _ => "ALTER USER"
  | .dropUser _ _ => "DROP USER"

end ReplicatedIdentityMutation

end Readers

inductive IdentityStateError where
  | codec (error : IdentityCodecError)
  | rocks
  | invalidStatePayload
  | userAlreadyExists (username : String)
  | userNotFound (username : String)
deriving DecidableEq

structure ReplicatedIdentityState where
  users : List ReplicatedIdentityUser
deriving DecidableEq

namespace ReplicatedIdentityState

open IdentityStateError

def encode (state : ReplicatedIdentityState) : Except IdentityStateError Bytes :=
  (ReplicatedIdentityMutation.initializeUsers state.users).encode.mapError codec

/-- The registry is stored as one `Initialize` payload. -/
def decode (bytes : Bytes) : Except IdentityStateError ReplicatedIdentityState := do
  match ← (ReplicatedIdentityMutation.decode bytes).mapError codec with
  | .initializeUsers users => pure { users }
  | _ => throw invalidStatePayload

def new (users : List ReplicatedIdentityUser) : Except IdentityStateError ReplicatedIdentityState := do
  let encoded ← (ReplicatedIdentityMutation.initializeUsers users).encode.mapError codec
  decode encoded

/-- The binary search of the source: where the name is, or where it belongs.  The users
are in strict order of their names. -/
def find (state : ReplicatedIdentityState) (username : String) : Except Nat Nat :=
  let position := (state.users.takeWhile fun user => decide (utf8 user.username < utf8 username)).length
  if (state.users[position]?).map ReplicatedIdentityUser.username = some username then .ok position
  else .error position

def validateCanonical (state : ReplicatedIdentityState) : Except IdentityStateError Unit := do
  let encoded ← state.encode
  let decoded ← decode encoded
  if decoded = state then pure () else throw invalidStatePayload

/-- The calls change the registry in place: `create_user` and `alter_user` put the user into it and
check the result afterwards. -/
def createUser (state : ReplicatedIdentityState) (user : ReplicatedIdentityUser) :
    ReplicatedIdentityState × Except IdentityStateError Unit :=
  match state.find user.username with
  | .ok _ => (state, .error (userAlreadyExists user.username))
  | .error position =>
    let created : ReplicatedIdentityState := { users := state.users.insertIdx position user }
    (created, created.validateCanonical)

def alterUser (state : ReplicatedIdentityState) (user : ReplicatedIdentityUser) :
    ReplicatedIdentityState × Except IdentityStateError Unit :=
  match state.find user.username with
  | .error _ => (state, .error (userNotFound user.username))
  | .ok index =>
    let altered : ReplicatedIdentityState := { users := state.users.set index user }
    (altered, altered.validateCanonical)

def dropUser (state : ReplicatedIdentityState) (username : String) (ifExists : Bool) :
    ReplicatedIdentityState × Except IdentityStateError Bool :=
  match state.find username with
  | .ok index => ({ users := state.users.eraseIdx index }, .ok true)
  | .error _ => (state, if ifExists then .ok false else .error (userNotFound username))

/-- The changed registry, if the call succeeded. -/
def settled {α : Type} (changed : ReplicatedIdentityState × Except IdentityStateError α) :
    Except IdentityStateError ReplicatedIdentityState :=
  changed.2.map fun _ => changed.1

end ReplicatedIdentityState

section RoundTrip

open IdentityCodecError

variable {code : Bytes} {users : List ReplicatedIdentityUser} {mutation : ReplicatedIdentityMutation}

theorem inverts_username : Inverts putUsername readUsername := by
  intro username code put
  obtain ⟨⟨⟩, valid, put⟩ := bind_eq_ok.mp put
  refine (inverts_blob _ _ put).settled ?_
  refine (Reader.reads_lift (by rw [fromUtf8_utf8]; rfl)).silent ?_
  exact Reader.reads_lift (by rw [valid]; rfl)

theorem reads_digest (digest : Digest) : readDigest.Reads digest.val digest :=
  (Reader.reads_take digest.property).checked (dif_pos digest.property)

theorem iterations_fit {credential : ReplicatedScramCredential} (valid : credential.validate = .ok ()) :
    credential.iterations < 256 ^ 4 := by
  unfold ReplicatedScramCredential.validate at valid
  split_ifs at valid
  omega

theorem inverts_credential : Inverts putCredential readCredential := by
  intro credential code put
  obtain ⟨⟨⟩, valid, put⟩ := bind_eq_ok.mp put
  obtain ⟨salt, salted, put⟩ := bind_eq_ok.mp put
  cases pure_eq_ok.mp put
  refine (Reader.reads_u8 _).bind ?_
  refine (Reader.reads_lift (if_pos rfl)).silent ?_
  refine (inverts_blob _ _ salted).bind ?_
  refine (Reader.reads_number (iterations_fit valid)).bind ?_
  refine (reads_digest _).bind ?_
  exact (reads_digest _).checked (by rw [valid]; rfl)

theorem inverts_user : Inverts putUser readUser := by
  intro user code put
  obtain ⟨username, named, put⟩ := bind_eq_ok.mp put
  obtain ⟨credential, secured, put⟩ := bind_eq_ok.mp put
  cases pure_eq_ok.mp put
  exact (inverts_username _ _ named).bind ((inverts_credential _ _ secured).returning _)

theorem reads_flag (flag : Bool) : readFlag.Reads [if flag then 1 else 0] flag :=
  (Reader.reads_u8 _).checked (by cases flag <;> rfl)

theorem reads_users {body : Bytes} (ordered : ensureUserOrder users = .ok ())
    (few : ¬ maxInitialUsers < users.length) (encoded : putMany putUser users = .ok body) :
    readUsers.Reads (toBeBytes 4 users.length ++ body) users := by
  have bounded : users.length < 256 ^ 4 := by
    unfold maxInitialUsers at few
    omega
  refine (Reader.reads_number bounded).bind ?_
  refine (Reader.reads_lift (if_neg few)).silent ?_
  exact (inverts_user.many encoded).checked (by rw [ordered]; rfl)

def ReplicatedIdentityMutation.canonical : ReplicatedIdentityMutation → ReplicatedIdentityMutation
  | .initializeUsers users => .initializeUsers (sortUsers users)
  | mutation => mutation

theorem reads_identityFields (put : mutation.encodeBody = .ok code) :
    ∃ opcode body, code = [opcode] ++ body ∧ (readIdentityFields opcode).Reads body mutation.canonical := by
  cases mutation with
  | initializeUsers users =>
    obtain ⟨⟨⟩, ordered, put⟩ := bind_eq_ok.mp put
    obtain ⟨few, put⟩ := guard_eq_ok.mp put
    obtain ⟨body, encoded, put⟩ := bind_eq_ok.mp put
    cases pure_eq_ok.mp put
    exact ⟨1, _, rfl, (reads_users ordered few encoded).returning _⟩
  | createUser username credential =>
    obtain ⟨body, encoded, put⟩ := bind_eq_ok.mp put
    cases pure_eq_ok.mp put
    exact ⟨2, _, rfl, (inverts_user _ _ encoded).returning _⟩
  | alterUser username credential =>
    obtain ⟨body, encoded, put⟩ := bind_eq_ok.mp put
    cases pure_eq_ok.mp put
    exact ⟨3, _, rfl, (inverts_user _ _ encoded).returning _⟩
  | dropUser username ifExists =>
    obtain ⟨name, named, put⟩ := bind_eq_ok.mp put
    cases pure_eq_ok.mp put
    exact ⟨4, _, rfl, (inverts_username _ _ named).bind ((reads_flag ifExists).returning _)⟩

theorem ReplicatedIdentityMutation.decode_encode (encoded : mutation.encode = .ok code) :
    ReplicatedIdentityMutation.decode code = .ok mutation.canonical := by
  obtain ⟨fields, put, encoded⟩ := bind_eq_ok.mp encoded
  obtain ⟨short, encoded⟩ := guard_eq_ok.mp encoded
  cases pure_eq_ok.mp encoded
  obtain ⟨opcode, body, rfl, reads⟩ := reads_identityFields put
  have whole : readIdentityMutation.Reads
      (identityMagic ++ ([replicatedIdentityVersion] ++ ([opcode] ++ body))) mutation.canonical := by
    refine (Reader.reads_take (by decide)).bind ?_
    refine (Reader.reads_lift (if_pos rfl)).silent ?_
    refine (Reader.reads_u8 _).bind ?_
    refine (Reader.reads_lift (if_pos rfl)).silent ?_
    exact (Reader.reads_u8 opcode).bind reads
  rw [ReplicatedIdentityMutation.decode, if_neg short, whole.whole]
  rfl

theorem ReplicatedIdentityMutation.isReplicatedIdentityMutation_encode
    (encoded : mutation.encode = .ok code) : isReplicatedIdentityMutation code = true := by
  obtain ⟨fields, put, encoded⟩ := bind_eq_ok.mp encoded
  obtain ⟨short, encoded⟩ := guard_eq_ok.mp encoded
  cases pure_eq_ok.mp encoded
  exact List.isPrefixOf_iff_prefix.mpr (List.prefix_append _ _)

end RoundTrip

section Registry

open IdentityStateError

variable {state : ReplicatedIdentityState} {users fewer : List ReplicatedIdentityUser} {bytes : Bytes}

def InOrder (users : List ReplicatedIdentityUser) : Prop :=
  users.Pairwise fun left right => utf8 left.username < utf8 right.username

theorem ensureStrictUserOrder_eq_ok : ensureStrictUserOrder users = .ok () ↔ InOrder users := by
  have chain : ensureStrictUserOrder users = .ok () ↔
      users.IsChain fun left right => utf8 left.username < utf8 right.username := by
    induction users with
    | nil => simp [ensureStrictUserOrder]
    | cons first rest induction =>
      cases rest with
      | nil => simp [ensureStrictUserOrder]
      | cons second rest =>
        rw [ensureStrictUserOrder, List.isChain_cons_cons, ← induction]
        by_cases below : utf8 second.username ≤ utf8 first.username
        · simp [below]
        · simp [below, not_le.mp below]
  have : IsTrans ReplicatedIdentityUser fun left right => utf8 left.username < utf8 right.username :=
    ⟨fun _ _ _ => lt_trans⟩
  rw [chain, List.isChain_iff_pairwise, InOrder]

theorem validateUsers_eq_ok : validateUsers users = .ok () ↔
    ∀ user ∈ users, validateUsername user.username = .ok () ∧ user.credential.validate = .ok () := by
  induction users with
  | nil => simp [validateUsers]
  | cons user rest induction => simp [validateUsers, check_eq_ok, induction, and_assoc]

theorem ensureUserOrder_eq_ok : ensureUserOrder users = .ok () ↔
    (∀ user ∈ users, validateUsername user.username = .ok () ∧ user.credential.validate = .ok ()) ∧ InOrder users := by
  rw [ensureUserOrder, check_eq_ok, validateUsers_eq_ok, ensureStrictUserOrder_eq_ok]

theorem InOrder.sortUsers_eq (ordered : InOrder users) : sortUsers users = users :=
  List.Pairwise.insertionSort_eq (ordered.imp fun below => below.le)

theorem ReplicatedIdentityState.decode_of_encode (encoded : state.encode = .ok bytes) :
    ReplicatedIdentityState.decode bytes = .ok { users := sortUsers state.users } := by
  have decoded := ReplicatedIdentityMutation.decode_encode (mapError_eq_ok.mp encoded)
  simp only [ReplicatedIdentityState.decode, decoded]
  rfl

def ReplicatedIdentityState.Canonical (state : ReplicatedIdentityState) : Prop :=
  InOrder state.users ∧ ∃ bytes, state.encode = .ok bytes

theorem ReplicatedIdentityState.encode_inOrder (encoded : state.encode = .ok bytes) :
    InOrder (sortUsers state.users) := by
  obtain ⟨body, put, _⟩ := bind_eq_ok.mp (mapError_eq_ok.mp encoded)
  obtain ⟨⟨⟩, ordered, _⟩ := bind_eq_ok.mp put
  exact (ensureUserOrder_eq_ok.mp ordered).2

theorem ReplicatedIdentityState.validateCanonical_eq_ok : state.validateCanonical = .ok () ↔ state.Canonical := by
  constructor
  · intro valid
    obtain ⟨bytes, encoded, valid⟩ := bind_eq_ok.mp valid
    obtain ⟨decoded, read, valid⟩ := bind_eq_ok.mp valid
    cases (decode_of_encode encoded).symm.trans read
    split at valid
    · rename_i same
      have ordered := encode_inOrder encoded
      rw [show sortUsers state.users = state.users from congrArg users same] at ordered
      exact ⟨ordered, bytes, encoded⟩
    · exact absurd valid throw_ne_ok
  · rintro ⟨ordered, bytes, encoded⟩
    have read := decode_of_encode encoded
    rw [ordered.sortUsers_eq] at read
    exact bind_eq_ok.mpr ⟨bytes, encoded, bind_eq_ok.mpr ⟨state, read, if_pos rfl⟩⟩

theorem ReplicatedIdentityState.Canonical.sublist (canonical : state.Canonical)
    (sublist : fewer.Sublist state.users) : Canonical { users := fewer } := by
  obtain ⟨ordered, bytes, encoded⟩ := canonical
  have inOrder : InOrder fewer := ordered.sublist sublist
  refine ⟨inOrder, ?_⟩
  obtain ⟨fields, put, encoded⟩ := bind_eq_ok.mp (mapError_eq_ok.mp encoded)
  obtain ⟨short, _⟩ := guard_eq_ok.mp encoded
  obtain ⟨⟨⟩, valid, put⟩ := bind_eq_ok.mp put
  obtain ⟨few, put⟩ := guard_eq_ok.mp put
  obtain ⟨body, many, put⟩ := bind_eq_ok.mp put
  cases pure_eq_ok.mp put
  rw [ordered.sortUsers_eq] at valid few many short
  obtain ⟨shorter, fewerPut, bound⟩ := putMany_sublist sublist many
  have stillValid : ensureUserOrder fewer = .ok () := ensureUserOrder_eq_ok.mpr
    ⟨fun user inside => (ensureUserOrder_eq_ok.mp valid).1 user (sublist.subset inside), inOrder⟩
  have stillFew : ¬ maxInitialUsers < fewer.length := fun many => few (many.trans_le sublist.length_le)
  have fields : (ReplicatedIdentityMutation.initializeUsers fewer).encodeBody =
      .ok ([1] ++ (toBeBytes 4 fewer.length ++ shorter)) := by
    simp only [ReplicatedIdentityMutation.encodeBody, inOrder.sortUsers_eq]
    exact check_eq_ok.mpr ⟨stillValid, guard_eq_ok.mpr
      ⟨stillFew, bind_eq_ok.mpr ⟨shorter, fewerPut, rfl⟩⟩⟩
  refine ⟨_, mapError_eq_ok.mpr (bind_eq_ok.mpr ⟨_, fields, guard_eq_ok.mpr ⟨?_, rfl⟩⟩)⟩
  simp only [List.length_append, length_toBeBytes] at short ⊢
  omega

end Registry

def ReplicatedIdentityState.containsUser (state : ReplicatedIdentityState) (username : String) : Bool :=
  (state.find username).toOption.isSome

end Neuralbase.Replicated
