import Neuralbase.Library.KeySort
import Neuralbase.Replicated.Identity

namespace Neuralbase.Replicated

open Neuralbase.Library
open Neuralbase.Consensus (Bytes)

/-! The registry of users as a finite map (`replicated_identity_store.rs`), and its wire format
as a canonical one: every accepted message is the encoding of what it is decoded to. -/

section Restores

open IdentityCodecError

theorem restores_username : Restores putUsername readUsername := by
  refine Reader.takes_blob.bind fun code bytes holds => Reader.takes_checked fun username read =>
    Reader.takes_lift fun value passes => ?_
  obtain ⟨⟨⟩, valid, rfl⟩ := map_eq_ok.mp passes
  obtain ⟨rfl, short⟩ := holds
  rw [List.append_nil]
  refine check_eq_ok.mpr ⟨valid, ?_⟩
  rw [utf8_of_accepted read]
  exact if_pos short

theorem takes_digest : readDigest.Takes fun code digest => code = digest.val := by
  refine Reader.takes_take.bind fun code bytes holds => Reader.takes_lift fun digest read => ?_
  obtain ⟨rfl, _⟩ := holds
  split_ifs at read
  cases read
  exact List.append_nil bytes

theorem restores_credential : Restores putCredential readCredential := by
  have blob : Restores (putBlob fieldTooLarge) (Reader.blob unexpectedEof) := restores_blob
  refine Reader.takes_u8.bind fun tag version same => Reader.takes_checked fun _ supported => ?_
  refine blob.bind fun salt bytes salted => Reader.takes_number.bind fun turns iterations counted => ?_
  refine takes_digest.bind fun stored storedKey kept => ?_
  refine Reader.Takes.bind takes_digest fun served serverKey also => Reader.takes_lift fun value passes => ?_
  obtain ⟨⟨⟩, valid, rfl⟩ := map_eq_ok.mp passes
  obtain ⟨rfl, _⟩ := counted
  subst same kept also
  split_ifs at supported with isVersion
  subst isVersion
  rw [List.append_nil]
  exact check_eq_ok.mpr ⟨valid, bind_eq_ok.mpr ⟨salt, salted, rfl⟩⟩

theorem restores_user : Restores putUser readUser := by
  refine restores_username.bind fun name username named => restores_credential.bind fun code credential secured =>
    Reader.takes_pure ?_
  rw [List.append_nil]
  exact bind_eq_ok.mpr ⟨name, named, bind_eq_ok.mpr ⟨code, secured, rfl⟩⟩

theorem takes_users : readUsers.Takes fun code users =>
    (ReplicatedIdentityMutation.initializeUsers users).encodeBody = .ok ([1] ++ code) := by
  refine Reader.takes_number.bind fun digits count counted => Reader.takes_checked fun _ few => ?_
  refine (restores_user.many count).bind fun code users encoded => Reader.takes_lift fun value passes => ?_
  obtain ⟨⟨⟩, ordered, rfl⟩ := map_eq_ok.mp passes
  obtain ⟨rfl, _⟩ := counted
  obtain ⟨put, rfl⟩ := encoded
  split_ifs at few with many
  rw [List.append_nil]
  simp only [ReplicatedIdentityMutation.encodeBody, (ensureUserOrder_eq_ok.mp ordered).2.sortUsers_eq]
  exact check_eq_ok.mpr ⟨ordered, guard_eq_ok.mpr ⟨many, bind_eq_ok.mpr ⟨code, put, rfl⟩⟩⟩

theorem takes_flag : readFlag.Takes fun code flag => code = [if flag then 1 else 0] := by
  refine Reader.takes_u8.bind fun code byte same => Reader.takes_lift fun flag read => ?_
  subst same
  split_ifs at read with off on
  · cases read
    subst off
    rfl
  · cases read
    subst on
    rfl

theorem takes_identityFields (opcode : UInt8) :
    (readIdentityFields opcode).Takes fun code mutation => mutation.encodeBody = .ok ([opcode] ++ code) := by
  unfold readIdentityFields
  split_ifs with initial create alter drop
  · subst initial
    refine takes_users.bind fun code users put => Reader.takes_pure ?_
    rwa [List.append_nil]
  · subst create
    refine restores_user.bind fun code user put => Reader.takes_pure ?_
    rw [List.append_nil]
    exact bind_eq_ok.mpr ⟨code, put, rfl⟩
  · subst alter
    refine restores_user.bind fun code user put => Reader.takes_pure ?_
    rw [List.append_nil]
    exact bind_eq_ok.mpr ⟨code, put, rfl⟩
  · subst drop
    refine restores_username.bind fun name username named => takes_flag.bind fun code ifExists same =>
      Reader.takes_pure ?_
    rw [List.append_nil, same]
    exact bind_eq_ok.mpr ⟨name, named, rfl⟩
  · exact Reader.takes_lift nofun

theorem ReplicatedIdentityMutation.encode_decode {mutation : ReplicatedIdentityMutation} {bytes : Bytes}
    (decoded : ReplicatedIdentityMutation.decode bytes = .ok mutation) : mutation.encode = .ok bytes := by
  have whole : readIdentityMutation.Takes fun code mutation =>
      ∃ body, mutation.encodeBody = .ok body ∧ code = identityMagic ++ ([replicatedIdentityVersion] ++ body) := by
    refine Reader.takes_take.bind fun magic value taken => Reader.takes_checked fun _ named => ?_
    refine Reader.takes_u8.bind fun code version same => Reader.takes_checked fun _ supported => ?_
    refine Reader.takes_u8.bind fun tag opcode coded => ?_
    obtain ⟨rfl, _⟩ := taken
    subst same coded
    split_ifs at named supported with isMagic isVersion
    subst isMagic isVersion
    intro bytes mutation rest read
    obtain ⟨code, rfl, put⟩ := takes_identityFields opcode bytes mutation rest read
    exact ⟨code, rfl, [opcode] ++ code, put, rfl⟩
  unfold decode at decoded
  split_ifs at decoded with large
  obtain ⟨⟨found, rest⟩, read, rfl⟩ := map_eq_ok.mp decoded
  obtain ⟨body, put, rfl⟩ := whole.whole read
  exact bind_eq_ok.mpr ⟨body, put, guard_eq_ok.mpr ⟨large, rfl⟩⟩

/-- Decoding accepts exactly the encodings, and gives each its canonical mutation. -/
theorem identity_mutation_codec_canonical (bytes : Bytes) (mutation : ReplicatedIdentityMutation) :
    ReplicatedIdentityMutation.decode bytes = .ok mutation ↔
      mutation.canonical = mutation ∧ mutation.encode = .ok bytes := by
  constructor
  · intro decoded
    have encoded := ReplicatedIdentityMutation.encode_decode decoded
    rw [ReplicatedIdentityMutation.decode_encode encoded] at decoded
    exact ⟨Except.ok.inj decoded, encoded⟩
  · rintro ⟨canonical, encoded⟩
    rw [ReplicatedIdentityMutation.decode_encode encoded, canonical]

theorem ReplicatedIdentityState.encode_decode {state : ReplicatedIdentityState} {bytes : Bytes}
    (decoded : ReplicatedIdentityState.decode bytes = .ok state) : state.encode = .ok bytes := by
  obtain ⟨mutation, read, decoded⟩ := bind_eq_ok.mp decoded
  have encoded := ReplicatedIdentityMutation.encode_decode (mapError_eq_ok.mp read)
  cases mutation with
  | initializeUsers users =>
    cases decoded
    exact mapError_eq_ok.mpr encoded
  | createUser username credential => cases decoded
  | alterUser username credential => cases decoded
  | dropUser username ifExists => cases decoded

end Restores

end Neuralbase.Replicated
