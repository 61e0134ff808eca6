import Mathlib
import Neuralbase.Library.Machine
import Neuralbase.Replicated.Identity.Canonical

namespace Neuralbase.Replicated

open Neuralbase.Library
open Neuralbase.Consensus (Bytes)
open ReplicatedIdentityState

/-! The registry of users as a finite map (`replicated_identity_store.rs`). -/

namespace ReplicatedIdentityState

def lookup (state : ReplicatedIdentityState) (username : String) : Option ReplicatedScramCredential :=
  match state.find username with
  | .ok index => (state.users[index]?).map ReplicatedIdentityUser.credential
  | .error _ => none

end ReplicatedIdentityState

inductive IdentityCall where
  | createUser (user : ReplicatedIdentityUser)
  | alterUser (user : ReplicatedIdentityUser)
  | dropUser (username : String) (ifExists : Bool)

def ReplicatedIdentityState.call (state : ReplicatedIdentityState) :
    IdentityCall → ReplicatedIdentityState × Except IdentityStateError Bool
  | .createUser user => (state.createUser user).map id (Except.map fun _ => true)
  | .alterUser user => (state.alterUser user).map id (Except.map fun _ => true)
  | .dropUser username ifExists => state.dropUser username ifExists

abbrev Accounts := String → Option ReplicatedScramCredential

open IdentityStateError in
def Accounts.call (accounts : Accounts) : IdentityCall → Accounts × Except IdentityStateError Bool
  | .createUser user =>
    if accounts user.username = none then
      (Function.update accounts user.username (some user.credential), .ok true)
    else (accounts, .error (userAlreadyExists user.username))
  | .alterUser user =>
    if accounts user.username = none then (accounts, .error (userNotFound user.username))
    else (Function.update accounts user.username (some user.credential), .ok true)
  | .dropUser username ifExists =>
    if accounts username = none then (accounts, if ifExists then .ok false else .error (userNotFound username))
    else (Function.update accounts username none, .ok true)

def userBytes (user : ReplicatedIdentityUser) : Nat :=
  (4 + (utf8 user.username).length) + (1 + (4 + user.credential.salt.length) + 4 + 32 + 32)

/-- Users that a registry can hold.  Magic, version, operation code and count take ten bytes. -/
structure Storable (users : List ReplicatedIdentityUser) : Prop where
  valid : ∀ user ∈ users, validateUsername user.username = .ok () ∧ user.credential.validate = .ok ()
  few : users.length ≤ maxInitialUsers
  short : 10 + (users.map userBytes).sum ≤ maxReplicatedIdentityBytes

/-- A user that is created or altered passes the checks, with the others in the registry. -/
def ReplicatedIdentityState.Admits (state : ReplicatedIdentityState) : IdentityCall → Prop
  | .createUser user => state.lookup user.username = none → Storable (user :: state.users)
  | .alterUser user => state.lookup user.username ≠ none →
      Storable (user :: state.users.filter fun other => decide (other.username ≠ user.username))
  | .dropUser .. => True

instance (users : List ReplicatedIdentityUser) : Decidable (Storable users) :=
  decidable_of_iff ((∀ user ∈ users, validateUsername user.username = .ok () ∧ user.credential.validate = .ok ()) ∧
      users.length ≤ maxInitialUsers ∧ 10 + (users.map userBytes).sum ≤ maxReplicatedIdentityBytes)
    ⟨fun ⟨valid, few, short⟩ => ⟨valid, few, short⟩, fun storable => ⟨storable.valid, storable.few, storable.short⟩⟩

instance (state : ReplicatedIdentityState) : (call : IdentityCall) → Decidable (state.Admits call)
  | .createUser _ | .alterUser _ => inferInstanceAs (Decidable (_ → Storable _))
  | .dropUser _ _ => .isTrue trivial

inductive ReplicatedIdentityState.Constructed : ReplicatedIdentityState → Prop
  | default : Constructed { users := [] }
  | new (users : List ReplicatedIdentityUser) (state : ReplicatedIdentityState) : new users = .ok state → Constructed state
  | decode (bytes : Bytes) (state : ReplicatedIdentityState) : decode bytes = .ok state → Constructed state

section Order

variable {state other : ReplicatedIdentityState} {users : List ReplicatedIdentityUser} {username : String}
  {credential : ReplicatedScramCredential}

theorem InOrder.unique (ordered : InOrder users) {left right : ReplicatedIdentityUser} (first : left ∈ users)
    (second : right ∈ users) (same : left.username = right.username) : left = right := by
  have distinct : (users.map fun user => utf8 user.username).Nodup := by
    rw [List.Nodup, List.pairwise_map]
    exact ordered.imp fun below => below.ne
  exact List.inj_on_of_nodup_map distinct first second (congrArg utf8 same)

theorem InOrder.nodup (ordered : InOrder users) : users.Nodup := by
  refine ordered.imp fun below => ?_
  rintro rfl
  exact lt_irrefl _ below

theorem getElem?_takeWhile_length {α : Type} (p : α → Bool) (items : List α) :
    items[(items.takeWhile p).length]? = (items.dropWhile p).head? := by
  induction items with
  | nil => rfl
  | cons item rest induction =>
    by_cases holds : p item = true
    · simp [holds, induction]
    · simp [holds]

theorem ReplicatedIdentityState.find_cases (ordered : InOrder state.users) (username : String) :
    (∃ below user above, state.users = below ++ user :: above ∧ user.username = username ∧
      state.find username = .ok below.length) ∨
    ∃ below above, state.users = below ++ above ∧ (∀ user ∈ below, utf8 user.username < utf8 username) ∧
      (∀ user ∈ above, utf8 username < utf8 user.username) ∧ state.find username = .error below.length := by
  let earlier := fun user : ReplicatedIdentityUser => decide (utf8 user.username < utf8 username)
  have split : state.users = state.users.takeWhile earlier ++ state.users.dropWhile earlier :=
    List.takeWhile_append_dropWhile.symm
  have before : ∀ user ∈ state.users.takeWhile earlier, utf8 user.username < utf8 username := by
    intro user inside
    have holds : earlier user = true := List.mem_takeWhile_imp inside
    exact of_decide_eq_true holds
  have found : state.find username =
      if ((state.users.dropWhile earlier).head?).map ReplicatedIdentityUser.username = some username
        then .ok (state.users.takeWhile earlier).length else .error (state.users.takeWhile earlier).length := by
    rw [find, getElem?_takeWhile_length]
  cases rest : state.users.dropWhile earlier with
  | nil =>
    rw [rest] at split found
    exact .inr ⟨_, [], split, before, nofun, found⟩
  | cons user above =>
    rw [rest] at split found
    by_cases same : user.username = username
    · exact .inl ⟨_, user, above, split, same, found.trans (if_pos (congrArg some same))⟩
    · have reached : ¬ utf8 user.username < utf8 username := by
        have head := List.head?_dropWhile_not earlier state.users
        rw [rest] at head
        exact of_decide_eq_false head
      have beyond : utf8 username < utf8 user.username :=
        lt_of_le_of_ne (not_lt.mp reached) fun equal => same (utf8_injective equal.symm)
      rw [split] at ordered
      have after := (List.pairwise_cons.mp (List.pairwise_append.mp ordered).2.1).1
      refine .inr ⟨_, user :: above, split, before, ?_, found.trans (if_neg fun equal => same (Option.some.inj equal))⟩
      exact List.forall_mem_cons.mpr ⟨beyond, fun later inside => beyond.trans (after later inside)⟩

theorem ReplicatedIdentityState.lookup_eq_some (ordered : InOrder state.users) :
    state.lookup username = some credential ↔ { username, credential } ∈ state.users := by
  rcases state.find_cases ordered username with
    ⟨below, user, above, split, rfl, found⟩ | ⟨below, above, split, before, after, found⟩
  · have inside : user ∈ state.users := by simp [split]
    have here : state.lookup user.username = some user.credential := by
      rw [lookup, found]
      simp [split]
    rw [here]
    constructor
    · rintro ⟨⟩
      exact inside
    · intro also
      rw [← ordered.unique also inside rfl]
  · have absent : state.lookup username = none := by rw [lookup, found]
    rw [absent, split]
    refine ⟨nofun, fun inside => ?_⟩
    rcases List.mem_append.mp inside with early | late
    · exact absurd (before _ early) (lt_irrefl _)
    · exact absurd (after _ late) (lt_irrefl _)

theorem ReplicatedIdentityState.lookup_eq {accounts : Accounts} (ordered : InOrder state.users)
    (members : ∀ username credential, accounts username = some credential ↔ { username, credential } ∈ state.users) :
    state.lookup = accounts := by
  funext username
  refine Option.ext fun credential => ?_
  rw [lookup_eq_some ordered, members]

theorem ReplicatedIdentityState.eq_of_lookup (ordered : InOrder state.users) (also : InOrder other.users)
    (same : other.lookup = state.lookup) : other = state := by
  have members : ∀ user, user ∈ other.users ↔ user ∈ state.users := fun user => by
    rw [← lookup_eq_some also, ← lookup_eq_some ordered, same]
  have perm : other.users.Perm state.users :=
    (List.perm_ext_iff_of_nodup also.nodup ordered.nodup).mpr members
  have users := perm.eq_of_pairwise (fun _ _ _ _ below above => absurd below above.asymm) also ordered
  cases state
  cases other
  exact congrArg _ users

end Order

section Format

open IdentityCodecError

variable {users : List ReplicatedIdentityUser}

theorem length_putUser (user : ReplicatedIdentityUser) (code : Bytes) (put : putUser user = .ok code) :
    code.length = userBytes user := by
  obtain ⟨name, named, put⟩ := bind_eq_ok.mp put
  obtain ⟨secret, secured, put⟩ := bind_eq_ok.mp put
  cases pure_eq_ok.mp put
  obtain ⟨_, named⟩ := check_eq_ok.mp named
  obtain ⟨_, rfl⟩ := putBlob_eq_ok named
  obtain ⟨_, secured⟩ := check_eq_ok.mp secured
  obtain ⟨salt, salted, secured⟩ := bind_eq_ok.mp secured
  cases pure_eq_ok.mp secured
  obtain ⟨_, rfl⟩ := putBlob_eq_ok salted
  simp only [List.length_append, List.length_singleton, length_toBeBytes, user.credential.storedKey.property,
    user.credential.serverKey.property, userBytes]
  omega

theorem putUser_exists {user : ReplicatedIdentityUser} (named : validateUsername user.username = .ok ())
    (secured : user.credential.validate = .ok ()) : ∃ code, putUser user = .ok code := by
  have name : (utf8 user.username).length < 2 ^ 32 := by
    unfold validateUsername maxUsernameBytes at named
    split_ifs at named
    omega
  have salt : user.credential.salt.length < 2 ^ 32 := by
    unfold ReplicatedScramCredential.validate at secured
    split_ifs at secured
    omega
  exact ⟨_, bind_eq_ok.mpr ⟨_, check_eq_ok.mpr ⟨named, if_pos name⟩,
    bind_eq_ok.mpr ⟨_, check_eq_ok.mpr ⟨secured, bind_eq_ok.mpr ⟨_, if_pos salt, rfl⟩⟩, rfl⟩⟩⟩

theorem ReplicatedIdentityState.encode_exists (ordered : InOrder users) :
    (∃ bytes, encode { users } = .ok bytes) ↔ Storable users := by
  have header (body : Bytes) :
      (identityMagic ++ ([replicatedIdentityVersion] ++ ([1] ++ (toBeBytes 4 users.length ++ body)))).length =
        10 + body.length := by
    have magic : identityMagic.length = 4 := by decide
    simp only [List.length_append, magic, List.length_singleton, length_toBeBytes]
    omega
  constructor
  · rintro ⟨bytes, encoded⟩
    obtain ⟨body, put, encoded⟩ := bind_eq_ok.mp (mapError_eq_ok.mp encoded)
    obtain ⟨short, _⟩ := guard_eq_ok.mp encoded
    simp only [ReplicatedIdentityMutation.encodeBody, ordered.sortUsers_eq] at put
    obtain ⟨valid, put⟩ := check_eq_ok.mp put
    obtain ⟨few, put⟩ := guard_eq_ok.mp put
    obtain ⟨code, many, put⟩ := bind_eq_ok.mp put
    cases pure_eq_ok.mp put
    rw [header, putMany_length length_putUser many] at short
    exact ⟨(ensureUserOrder_eq_ok.mp valid).1, not_lt.mp few, not_lt.mp short⟩
  · rintro ⟨valid, few, short⟩
    obtain ⟨code, encoded⟩ := putMany_exists fun user inside => putUser_exists (valid user inside).1 (valid user inside).2
    have body : (ReplicatedIdentityMutation.initializeUsers users).encodeBody =
        .ok ([1] ++ (toBeBytes 4 users.length ++ code)) := by
      simp only [ReplicatedIdentityMutation.encodeBody, ordered.sortUsers_eq]
      exact check_eq_ok.mpr ⟨ensureUserOrder_eq_ok.mpr ⟨valid, ordered⟩, guard_eq_ok.mpr
        ⟨not_lt.mpr few, bind_eq_ok.mpr ⟨code, encoded, rfl⟩⟩⟩
    refine ⟨_, mapError_eq_ok.mpr (bind_eq_ok.mpr ⟨_, body, guard_eq_ok.mpr ⟨not_lt.mpr ?_, rfl⟩⟩)⟩
    rw [header, putMany_length length_putUser encoded]
    exact short

theorem Storable.perm {others : List ReplicatedIdentityUser} (storable : Storable users) (perm : users.Perm others) :
    Storable others :=
  ⟨fun user inside => storable.valid user (perm.mem_iff.mpr inside), perm.length_eq ▸ storable.few,
    (perm.map userBytes).sum_eq ▸ storable.short⟩

end Format

section Calls

open IdentityStateError

variable {state : ReplicatedIdentityState} {below above : List ReplicatedIdentityUser}

theorem insertIdx_length {α : Type} (before after : List α) (item : α) :
    (before ++ after).insertIdx before.length item = before ++ item :: after := by
  induction before with
  | nil => rfl
  | cons first rest induction => simp [induction]

theorem InOrder.insert (ordered : InOrder (below ++ above)) {user : ReplicatedIdentityUser}
    (before : ∀ other ∈ below, utf8 other.username < utf8 user.username)
    (after : ∀ other ∈ above, utf8 user.username < utf8 other.username) : InOrder (below ++ user :: above) := by
  obtain ⟨first, second, across⟩ := List.pairwise_append.mp ordered
  refine List.pairwise_append.mpr ⟨first, List.pairwise_cons.mpr ⟨after, second⟩, fun other inside => ?_⟩
  exact List.forall_mem_cons.mpr ⟨before other inside, across other inside⟩

theorem InOrder.around {user : ReplicatedIdentityUser} (ordered : InOrder (below ++ user :: above)) :
    InOrder (below ++ above) ∧ (∀ other ∈ below, utf8 other.username < utf8 user.username) ∧
      ∀ other ∈ above, utf8 user.username < utf8 other.username := by
  obtain ⟨first, second, across⟩ := List.pairwise_append.mp ordered
  obtain ⟨after, rest⟩ := List.pairwise_cons.mp second
  exact ⟨List.pairwise_append.mpr ⟨first, rest, fun other inside later late =>
      across other inside later (List.mem_cons_of_mem _ late)⟩,
    fun other inside => across other inside user List.mem_cons_self, after⟩

theorem ReplicatedIdentityState.lookup_insert {user : ReplicatedIdentityUser} {accounts : Accounts}
    (ordered : InOrder (below ++ user :: above))
    (others : ∀ username credential, username ≠ user.username →
      (accounts username = some credential ↔ { username, credential } ∈ below ++ above)) :
    lookup { users := below ++ user :: above } = Function.update accounts user.username (some user.credential) := by
  refine lookup_eq ordered fun username credential => ?_
  by_cases same : username = user.username
  · subst same
    rw [Function.update_self]
    constructor
    · rintro ⟨⟩
      simp
    · intro inside
      have only := ordered.unique inside (List.mem_append_right below List.mem_cons_self) rfl
      exact congrArg (fun other => some other.credential) only.symm
  · rw [Function.update_of_ne same, others username credential same]
    have apart : ({ username, credential } : ReplicatedIdentityUser) ≠ user := fun equal => same (equal ▸ rfl)
    simp [apart]

theorem ReplicatedIdentityState.call_createUser {user : ReplicatedIdentityUser} (canonical : state.Canonical)
    (admits : state.Admits (.createUser user)) :
    (state.call (.createUser user)).1.Canonical ∧ Accounts.call state.lookup (.createUser user) =
      ((state.call (.createUser user)).1.lookup, (state.call (.createUser user)).2) := by
  have ordered := canonical.1
  rcases state.find_cases ordered user.username with
    ⟨below, present, above, split, same, found⟩ | ⟨below, above, split, before, after, found⟩
  · have held : state.lookup user.username ≠ none := by simp [lookup, found, split]
    simp only [call, createUser, found, Accounts.call, if_neg held]
    exact ⟨canonical, rfl⟩
  · have absent : state.lookup user.username = none := by rw [lookup, found]
    have inOrder : InOrder (below ++ user :: above) := InOrder.insert (split ▸ ordered) before after
    have storable : Storable (below ++ user :: above) :=
      (admits absent).perm (by rw [split]; exact List.perm_middle.symm)
    have created : Canonical { users := below ++ user :: above } := ⟨inOrder, (encode_exists inOrder).mpr storable⟩
    simp only [call, createUser, found, split, insertIdx_length, validateCanonical_eq_ok.mpr created,
      Accounts.call, if_pos absent]
    refine ⟨created, Prod.ext (lookup_insert inOrder fun username credential _ => ?_).symm rfl⟩
    rw [lookup_eq_some ordered, split]

theorem ReplicatedIdentityState.call_alterUser {user : ReplicatedIdentityUser} (canonical : state.Canonical)
    (admits : state.Admits (.alterUser user)) :
    (state.call (.alterUser user)).1.Canonical ∧ Accounts.call state.lookup (.alterUser user) =
      ((state.call (.alterUser user)).1.lookup, (state.call (.alterUser user)).2) := by
  have ordered := canonical.1
  rcases state.find_cases ordered user.username with
    ⟨below, present, above, split, same, found⟩ | ⟨below, above, split, before, after, found⟩
  · have held : state.lookup user.username ≠ none := by simp [lookup, found, split]
    obtain ⟨rest, before, after⟩ := InOrder.around (split ▸ ordered)
    rw [same] at before after
    have inOrder : InOrder (below ++ user :: above) := InOrder.insert rest before after
    have others : state.users.filter (fun other => decide (other.username ≠ user.username)) = below ++ above := by
      have early : ∀ other ∈ below, other.username ≠ user.username := fun other inside equal =>
        absurd (before other inside) (equal ▸ lt_irrefl _)
      have late : ∀ other ∈ above, other.username ≠ user.username := fun other inside equal =>
        absurd (after other inside) (equal ▸ lt_irrefl _)
      rw [split, List.filter_append, List.filter_cons_of_neg (by simp [same]),
        List.filter_eq_self.mpr fun other inside => decide_eq_true (early other inside),
        List.filter_eq_self.mpr fun other inside => decide_eq_true (late other inside)]
    have storable : Storable (below ++ user :: above) :=
      (admits held).perm (by rw [others]; exact List.perm_middle.symm)
    have altered : Canonical { users := below ++ user :: above } := ⟨inOrder, (encode_exists inOrder).mpr storable⟩
    have set : (below ++ present :: above).set below.length user = below ++ user :: above := by simp
    simp only [call, alterUser, found, split, set, validateCanonical_eq_ok.mpr altered, Accounts.call, if_neg held]
    refine ⟨altered, Prod.ext (lookup_insert inOrder fun username credential apart => ?_).symm rfl⟩
    have other : ({ username, credential } : ReplicatedIdentityUser) ≠ present := fun equal => apart (same ▸ equal ▸ rfl)
    rw [lookup_eq_some ordered, split]
    simp [other]
  · have absent : state.lookup user.username = none := by rw [lookup, found]
    simp only [call, alterUser, found, Accounts.call, if_pos absent]
    exact ⟨canonical, rfl⟩

theorem ReplicatedIdentityState.call_dropUser {username : String} {ifExists : Bool} (canonical : state.Canonical) :
    (state.call (.dropUser username ifExists)).1.Canonical ∧ Accounts.call state.lookup (.dropUser username ifExists) =
      ((state.call (.dropUser username ifExists)).1.lookup, (state.call (.dropUser username ifExists)).2) := by
  have ordered := canonical.1
  rcases state.find_cases ordered username with
    ⟨below, present, above, split, rfl, found⟩ | ⟨below, above, split, before, after, found⟩
  · have held : state.lookup present.username ≠ none := by simp [lookup, found, split]
    have erase : (below ++ present :: above).eraseIdx below.length = below ++ above := by
      simp [List.eraseIdx_append_of_length_le]
    have dropped : Canonical { users := below ++ above } :=
      canonical.sublist (by rw [split]; exact (List.sublist_cons_self _ _).append_left below)
    simp only [call, dropUser, found, split, erase, Accounts.call, if_neg held]
    suffices without : lookup { users := below ++ above } = Function.update state.lookup present.username none from
      ⟨dropped, by rw [without]⟩
    refine lookup_eq dropped.1 fun username credential => ?_
    obtain ⟨_, before, after⟩ := InOrder.around (split ▸ ordered)
    by_cases same : username = present.username
    · subst same
      rw [Function.update_self]
      refine ⟨nofun, fun inside => ?_⟩
      rcases List.mem_append.mp inside with early | late
      · exact absurd (before _ early) (lt_irrefl _)
      · exact absurd (after _ late) (lt_irrefl _)
    · have other : ({ username, credential } : ReplicatedIdentityUser) ≠ present := fun equal => same (equal ▸ rfl)
      rw [Function.update_of_ne same, lookup_eq_some ordered, split]
      simp [other]
  · have absent : state.lookup username = none := by rw [lookup, found]
    simp only [call, dropUser, found, Accounts.call, if_pos absent]
    exact ⟨canonical, trivial⟩

theorem ReplicatedIdentityState.canonical_of_decode {bytes : Bytes} (decoded : decode bytes = .ok state) :
    state.Canonical := by
  have encoded := encode_decode decoded
  have sorted := Except.ok.inj ((decode_of_encode encoded).symm.trans decoded)
  refine ⟨?_, bytes, encoded⟩
  rw [← congrArg users sorted]
  exact encode_inOrder encoded

theorem ReplicatedIdentityState.Constructed.canonical (constructed : state.Constructed) : state.Canonical := by
  cases constructed with
  | default => exact ⟨.nil, (encode_exists .nil).mpr (by decide)⟩
  | new users state made =>
    obtain ⟨encoded, _, decoded⟩ := bind_eq_ok.mp made
    exact canonical_of_decode decoded
  | decode bytes state decoded => exact canonical_of_decode decoded

end Calls

/-- The registry is a canonical finite map, as long as the users that are put into it pass the
checks. -/
theorem identity_registry_canonical (start final : ReplicatedIdentityState) (constructed : start.Constructed)
    (calls : List IdentityCall) (results : List (Except IdentityStateError Bool))
    (ran : answers ReplicatedIdentityState.call start calls = (final, results))
    (admitted : Throughout (fun state call => some (state.call call).1) ReplicatedIdentityState.Admits start calls) :
    answers Accounts.call start.lookup calls = (final.lookup, results) ∧ InOrder final.users ∧
    (∀ other : ReplicatedIdentityState, InOrder other.users → other.lookup = final.lookup →
      other.encode = final.encode) ∧
    (∃ bytes, final.encode = .ok bytes ∧ ReplicatedIdentityState.decode bytes = .ok final) ∧
    ∀ bytes state, ReplicatedIdentityState.decode bytes = .ok state → state.encode = .ok bytes := by
  obtain ⟨canonical, answered⟩ := @answers_view _ _ _ _ call Accounts.call
    lookup _ Canonical calls start constructed.canonical admitted
    fun state call canonical admits => by
      cases call with
      | createUser user => exact call_createUser canonical admits
      | alterUser user => exact call_alterUser canonical admits
      | dropUser username ifExists => exact call_dropUser canonical
  rw [ran] at canonical answered
  obtain ⟨ordered, bytes, encoded⟩ := canonical
  have decoded := decode_of_encode encoded
  rw [ordered.sortUsers_eq] at decoded
  refine ⟨answered, ordered, fun other also same => ?_, ⟨bytes, encoded, decoded⟩,
    fun _ _ => encode_decode⟩
  rw [eq_of_lookup ordered also same]

def seededCredential (seed : UInt8) : ReplicatedScramCredential where
  salt := List.replicate 8 seed
  iterations := 4096
  storedKey := ⟨List.replicate 32 seed, List.length_replicate⟩
  serverKey := ⟨List.replicate 32 seed, List.length_replicate⟩

def accountCalls : List IdentityCall :=
  [.createUser ⟨"b", seededCredential 1⟩, .createUser ⟨"a", seededCredential 2⟩, .createUser ⟨"b", seededCredential 3⟩,
    .alterUser ⟨"b", seededCredential 4⟩, .dropUser "c" true, .dropUser "a" false, .alterUser ⟨"a", seededCredential 5⟩]

theorem identity_registry_canonical_calls :
    (answers call { users := [] } accountCalls).2 = [.ok true, .ok true,
      .error (.userAlreadyExists "b"), .ok true, .ok false, .ok true, .error (.userNotFound "a")] ∧
    answers Accounts.call (lookup { users := [] }) accountCalls =
      ((answers call { users := [] } accountCalls).1.lookup,
        (answers call { users := [] } accountCalls).2) :=
  ⟨by decide +kernel, (identity_registry_canonical _ _ .default accountCalls _ rfl (by decide +kernel)).1⟩

def nameless : ReplicatedIdentityUser := ⟨"", seededCredential 1⟩

/-- A user that is refused stays in the registry: it is found afterwards, a second attempt
reports that it exists, and the registry has no encoding any more. -/
theorem refused_user_stays :
    (answers call { users := [] } [.createUser nameless, .createUser nameless]).2 =
      [.error (.codec .invalidUsername), .error (.userAlreadyExists "")] ∧
    lookup { users := [] } "" = none ∧
    (call { users := [] } (.createUser nameless)).1.lookup "" = some (seededCredential 1) ∧
    ¬∃ bytes, (call { users := [] } (.createUser nameless)).1.encode = .ok bytes := by
  refine ⟨by decide +kernel, by decide +kernel, by decide +kernel, ?_⟩
  have refused : (call { users := [] } (.createUser nameless)).1.encode =
      .error (.codec .invalidUsername) := by
    decide +kernel
  rw [refused]
  nofun

end Neuralbase.Replicated
