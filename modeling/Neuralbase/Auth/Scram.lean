import Neuralbase.Consensus.Rpc
import Neuralbase.Library.Result

namespace Neuralbase.Auth

open Neuralbase.Library Neuralbase.Consensus

/-! The server's side of SCRAM-SHA-256 (`auth.rs`), compared with the exchange that RFC 5802
describes.  Messages are lists of characters. -/

/-- The functions of other crates.  Nothing is assumed about the hashes but their length. -/
structure ScramCrypto where
  hmacSha256 : Bytes → Bytes → Bytes
  sha256 : Bytes → Bytes
  encode : Bytes → List Char
  decode : List Char → Option Bytes
  utf8 : List Char → Bytes
  hmac_length : ∀ key data, (hmacSha256 key data).length = 32
  decode_encode : ∀ bytes, decode (encode bytes) = some bytes
  encode_decode : ∀ text bytes, decode text = some bytes → encode bytes = text
  encode_comma : ∀ bytes, ',' ∉ encode bytes

structure ScramKeys where
  storedKey : Bytes
  serverKey : Bytes
  saltB64 : List Char
  iterations : Nat

inductive AuthError where
  | invalidMessage (text : String)
  | denied
deriving DecidableEq

structure ScramServer where
  keys : ScramKeys
  serverNonce : List Char
  clientFirstBare : Option (List Char)
  serverFirst : Option (List Char)

section Model

variable (crypto : ScramCrypto)

def afterSecondComma : Nat → List Char → Option (List Char)
  | _, [] => none
  | commas, ',' :: rest => if commas = 1 then some rest else afterSecondComma (commas + 1) rest
  | commas, _ :: rest => afterSecondComma commas rest

def stripGs2Header (msg : List Char) : Except AuthError (List Char) :=
  match msg with
  | 'n' :: ',' :: ',' :: bare | 'y' :: ',' :: ',' :: bare => .ok bare
  | _ =>
    match afterSecondComma 0 msg with
    | some bare => .ok bare
    | none => .error (.invalidMessage "invalid or missing GS2 header")

def stripNonce : List Char → Option (List Char)
  | 'r' :: '=' :: nonce => some nonce
  | _ => none

def xorBytes (left right : Bytes) : Bytes := List.zipWith (· ^^^ ·) left right

def stripProof : List Char → Option (List Char)
  | ',' :: 'p' :: '=' :: proof => some proof
  | _ => none

/-- The text around the last `,p=`. -/
def splitProof : List Char → Option (List Char × List Char)
  | [] => none
  | c :: rest =>
    ((splitProof rest).map fun (earlier, proof) => (c :: earlier, proof)).or ((stripProof (c :: rest)).map ([], ·))

namespace ScramServer

def new (keys : ScramKeys) (serverNonce : List Char) : ScramServer :=
  { keys, serverNonce, clientFirstBare := none, serverFirst := none }

def processClientFirst (server : ScramServer) (clientFirst : List Char) : Except AuthError (ScramServer × List Char) := do
  let bare ← stripGs2Header clientFirst
  match (bare.splitOn ',').findSome? stripNonce with
  | none => .error (.invalidMessage "no r= attribute in client-first")
  | some clientNonce =>
    let serverFirst := "r=".toList ++ clientNonce ++ server.serverNonce ++ ",s=".toList ++ server.keys.saltB64 ++
      ",i=".toList ++ (toString server.keys.iterations).toList
    .ok ({ server with clientFirstBare := some bare, serverFirst := some serverFirst }, serverFirst)

def authMessage (bare serverFirst withoutProof : List Char) : List Char :=
  bare ++ ',' :: (serverFirst ++ ',' :: withoutProof)

def processClientFinal (server : ScramServer) (clientFinal : List Char) : Except AuthError (List Char) :=
  match server.clientFirstBare, server.serverFirst with
  | some firstBare, some serverFirst =>
    match splitProof clientFinal with
    | none => .error (.invalidMessage "no p= in client-final")
    | some (withoutProof, proofB64) =>
      let authMsg := crypto.utf8 (authMessage firstBare serverFirst withoutProof)
      let clientSig := crypto.hmacSha256 server.keys.storedKey authMsg
      match crypto.decode proofB64 with
      | none => .error (.invalidMessage "proof is not valid base64")
      | some proof =>
        if proof.length ≠ 32 then
          .error (.invalidMessage ("proof length " ++ toString proof.length ++ " != 32"))
        else if crypto.sha256 (xorBytes proof clientSig) ≠ server.keys.storedKey then .error .denied
        else .ok (crypto.encode (crypto.hmacSha256 server.keys.serverKey authMsg))
  | _, _ => .error (.invalidMessage "no prior process_client_first call")

end ScramServer

end Model

section Rfc

variable (crypto : ScramCrypto)

/-- A header without channel binding; the name that it may carry has no comma. -/
structure Gs2Header (gs2 : List Char) : Prop where
  form : ∃ flag authzid, (flag = 'n' ∨ flag = 'y') ∧ ',' ∉ authzid ∧ gs2 = flag :: ',' :: (authzid ++ [','])

def finalWithoutProof (gs2 nonce extensions : List Char) : List Char :=
  "c=".toList ++ crypto.encode (crypto.utf8 gs2) ++ ",r=".toList ++ nonce ++ extensions

/-- What RFC 5802 asks of the client's messages apart from the proof: the final message repeats the
header of the first one and the nonce of the server, and only further attributes follow. -/
structure Conforming (clientFirst serverFirst withoutProof bare gs2 nonce extensions : List Char) : Prop where
  header : Gs2Header gs2
  first : clientFirst = gs2 ++ bare
  repeated : ∃ salt, serverFirst = "r=".toList ++ nonce ++ ",s=".toList ++ salt
  plain : ',' ∉ nonce
  more : extensions = [] ∨ ∃ rest, extensions = ',' :: rest
  final : withoutProof = finalWithoutProof crypto gs2 nonce extensions

def Repeats (clientFirst serverFirst withoutProof bare : List Char) : Prop :=
  ∃ gs2 nonce extensions, Conforming crypto clientFirst serverFirst withoutProof bare gs2 nonce extensions

/-- The proof is made from a client key that the stored key belongs to. -/
def IsProof (keys : ScramKeys) (bare serverFirst withoutProof proofText : List Char) : Prop :=
  ∃ clientKey : Bytes, clientKey.length = 32 ∧ crypto.sha256 clientKey = keys.storedKey ∧
    proofText = crypto.encode (xorBytes clientKey (crypto.hmacSha256 keys.storedKey
      (crypto.utf8 (ScramServer.authMessage bare serverFirst withoutProof))))

def RfcAccepts (keys : ScramKeys) (clientFirst serverFirst clientFinal : List Char) : Prop :=
  ∃ bare withoutProof proofText, Repeats crypto clientFirst serverFirst withoutProof bare ∧
    clientFinal = withoutProof ++ ",p=".toList ++ proofText ∧ IsProof crypto keys bare serverFirst withoutProof proofText

end Rfc

section Lemmas

variable {crypto : ScramCrypto} {server next : ScramServer} {clientFirst serverFirst clientFinal gs2 bare : List Char}

theorem xorBytes_cancel {left right : Bytes} (length : left.length = right.length) :
    xorBytes (xorBytes left right) right = left := by
  unfold xorBytes
  induction left generalizing right with
  | nil => rfl
  | cons byte left induction =>
    obtain ⟨other, right, rfl⟩ := List.exists_cons_of_length_eq_add_one length.symm
    simp only [List.zipWith_cons_cons, induction (Nat.succ.inj length), UInt8.xor_assoc, UInt8.xor_self, UInt8.xor_zero]

theorem splitProof_none {text : List Char} (absent : ',' ∉ text) : splitProof text = none := by
  induction text with
  | nil => rfl
  | cons c rest induction =>
    simp only [List.mem_cons, not_or] at absent
    have other : stripProof (c :: rest) = none := by
      unfold stripProof
      split
      · rename_i same
        cases same
        exact absurd rfl absent.1
      · rfl
    rw [splitProof, induction absent.2, other]
    rfl

theorem splitProof_append {proofText : List Char} (plain : ',' ∉ proofText) (withoutProof : List Char) :
    splitProof (withoutProof ++ ",p=".toList ++ proofText) = some (withoutProof, proofText) := by
  induction withoutProof with
  | nil =>
    have none : splitProof ('p' :: '=' :: proofText) = none := splitProof_none (by simpa using plain)
    change splitProof (',' :: 'p' :: '=' :: proofText) = _
    rw [splitProof, none]
    rfl
  | cons c rest induction =>
    change splitProof (c :: (rest ++ ",p=".toList ++ proofText)) = _
    rw [splitProof, induction]
    rfl

theorem splitProof_eq_some {text withoutProof proofText : List Char}
    (split : splitProof text = some (withoutProof, proofText)) : text = withoutProof ++ ",p=".toList ++ proofText := by
  induction text generalizing withoutProof with
  | nil => cases split
  | cons c rest induction =>
    rw [splitProof, Option.or_eq_some_iff] at split
    rcases split with later | ⟨-, here⟩
    · obtain ⟨⟨earlier, proof⟩, found, same⟩ := Option.map_eq_some_iff.mp later
      cases same
      rw [induction found]
      rfl
    · obtain ⟨proof, found, same⟩ := Option.map_eq_some_iff.mp here
      cases same
      unfold stripProof at found
      split at found
      · rename_i shape
        cases found
        exact shape
      · cases found

theorem afterSecondComma_skip {text rest : List Char} (plain : ',' ∉ text) (commas : Nat) :
    afterSecondComma commas (text ++ rest) = afterSecondComma commas rest := by
  induction text with
  | nil => rfl
  | cons c text induction =>
    simp only [List.mem_cons, not_or] at plain
    rw [List.cons_append, afterSecondComma]
    · exact induction plain.2
    · exact Ne.symm plain.1

theorem stripGs2Header_generic (msg : List Char) : stripGs2Header msg =
    (afterSecondComma 0 msg).elim (.error (.invalidMessage "invalid or missing GS2 header")) .ok := by
  unfold stripGs2Header
  split
  · rfl
  · rfl
  · cases afterSecondComma 0 msg <;> rfl

theorem stripGs2Header_eq (header : Gs2Header gs2) : stripGs2Header (gs2 ++ bare) = .ok bare := by
  obtain ⟨flag, authzid, isFlag, plain, rfl⟩ := header.form
  have flagPlain : ',' ∉ [flag] := by
    rcases isFlag with rfl | rfl <;> simp
  have found : afterSecondComma 0 (flag :: ',' :: (authzid ++ [',']) ++ bare) = some bare := by
    rw [show flag :: ',' :: (authzid ++ [',']) ++ bare = [flag] ++ ',' :: (authzid ++ ',' :: bare) by simp,
      afterSecondComma_skip flagPlain, afterSecondComma, if_neg (by decide),
      afterSecondComma_skip plain, afterSecondComma, if_pos rfl]
  rw [stripGs2Header_generic, found]
  rfl

theorem processClientFirst_ok (first : server.processClientFirst clientFirst = .ok (next, serverFirst)) :
    ∃ bare, stripGs2Header clientFirst = .ok bare ∧
      next = { server with clientFirstBare := some bare, serverFirst := some serverFirst } := by
  obtain ⟨bare, stripped, first⟩ := bind_eq_ok.mp first
  split at first
  · cases first
  · cases first
    exact ⟨bare, stripped, rfl⟩

variable {withoutProof proofText : List Char}

/-- The server accepts a final message exactly if its proof is one. -/
theorem processClientFinal_iff (server : ScramServer) (hasBare : server.clientFirstBare = some bare)
    (hasFirst : server.serverFirst = some serverFirst) (split : splitProof clientFinal = some (withoutProof, proofText)) :
    (∃ signature, server.processClientFinal crypto clientFinal = .ok signature) ↔
      IsProof crypto server.keys bare serverFirst withoutProof proofText := by
  have sigLength := crypto.hmac_length server.keys.storedKey
    (crypto.utf8 (ScramServer.authMessage bare serverFirst withoutProof))
  simp only [ScramServer.processClientFinal, hasBare, hasFirst, split]
  constructor
  · rintro ⟨signature, accepted⟩
    cases decoded : crypto.decode proofText with
    | none => simp [decoded] at accepted
    | some proof =>
      simp only [decoded] at accepted
      split_ifs at accepted with length hash
      rw [not_not] at length hash
      refine ⟨_, ?_, hash, ?_⟩
      · simp [xorBytes, length, sigLength]
      · rw [xorBytes_cancel (length.trans sigLength.symm), crypto.encode_decode _ _ decoded]
  · rintro ⟨clientKey, length, hash, rfl⟩
    have cancelled := xorBytes_cancel (length.trans sigLength.symm)
    refine ⟨crypto.encode (crypto.hmacSha256 server.keys.serverKey
      (crypto.utf8 (ScramServer.authMessage bare serverFirst withoutProof))), ?_⟩
    simp only [crypto.decode_encode, cancelled]
    rw [if_neg (by simp [xorBytes, length, sigLength]), if_neg (by simp [hash])]

theorem IsProof.no_comma {keys : ScramKeys} (isProof : IsProof crypto keys bare serverFirst withoutProof proofText) :
    ',' ∉ proofText := by
  obtain ⟨clientKey, _, _, rfl⟩ := isProof
  exact crypto.encode_comma _

/-- What the server accepts: a proof over whatever stands before it. -/
theorem processClientFinal_accepts (first : server.processClientFirst clientFirst = .ok (next, serverFirst)) :
    (∃ signature, next.processClientFinal crypto clientFinal = .ok signature) ↔
      ∃ bare withoutProof proofText, stripGs2Header clientFirst = .ok bare ∧
        clientFinal = withoutProof ++ ",p=".toList ++ proofText ∧
        IsProof crypto server.keys bare serverFirst withoutProof proofText := by
  obtain ⟨bare, stripped, rfl⟩ := processClientFirst_ok first
  constructor
  · rintro ⟨signature, accepted⟩
    cases split : splitProof clientFinal with
    | none => simp [ScramServer.processClientFinal, split] at accepted
    | some parts =>
      obtain ⟨withoutProof, proofText⟩ := parts
      exact ⟨bare, withoutProof, proofText, stripped, splitProof_eq_some split,
        (processClientFinal_iff { server with clientFirstBare := some bare, serverFirst := some serverFirst }
          rfl rfl split).mp ⟨signature, accepted⟩⟩
  · rintro ⟨other, withoutProof, proofText, same, rfl, isProof⟩
    cases stripped.symm.trans same
    exact (processClientFinal_iff { server with clientFirstBare := some bare, serverFirst := some serverFirst }
      rfl rfl (splitProof_append isProof.no_comma withoutProof)).mpr isProof

theorem Repeats.stripped (repeats : Repeats crypto clientFirst serverFirst withoutProof bare) :
    stripGs2Header clientFirst = .ok bare := by
  obtain ⟨gs2, nonce, extensions, conforms⟩ := repeats
  rw [conforms.first, stripGs2Header_eq conforms.header]

def rfcClientFirst (gs2 username clientNonce extensions : List Char) : List Char :=
  gs2 ++ ("n=".toList ++ username ++ ",r=".toList ++ clientNonce ++ extensions)

/-- The server takes the nonce of a first message that has the form of the RFC. -/
theorem processClientFirst_rfc (server : ScramServer) (username clientNonce extensions : List Char) (header : Gs2Header gs2)
    (name : ',' ∉ username) (nonce : ',' ∉ clientNonce) (more : extensions = [] ∨ ∃ rest, extensions = ',' :: rest) :
    ∃ next serverFirst, server.processClientFirst (rfcClientFirst gs2 username clientNonce extensions) = .ok (next, serverFirst) ∧
      ∃ salt, serverFirst = "r=".toList ++ (clientNonce ++ server.serverNonce) ++ ",s=".toList ++ salt := by
  have nonceSplit : ∃ others, ('r' :: '=' :: (clientNonce ++ extensions)).splitOn ',' =
      ('r' :: '=' :: clientNonce) :: others := by
    have plain : ',' ∉ 'r' :: '=' :: clientNonce := by simpa using nonce
    rcases more with rfl | ⟨rest, rfl⟩
    · rw [List.append_nil]
      exact ⟨[], List.splitOn_eq_singleton plain⟩
    · exact ⟨rest.splitOn ',', List.splitOn_append_cons_self_of_not_mem plain rest⟩
  obtain ⟨others, split⟩ := nonceSplit
  have namePlain : ',' ∉ 'n' :: '=' :: username := by simpa using name
  have bareSplit : ("n=".toList ++ username ++ ",r=".toList ++ clientNonce ++ extensions).splitOn ',' =
      ('n' :: '=' :: username) :: ('r' :: '=' :: clientNonce) :: others := by
    rw [← split, ← List.splitOn_append_cons_self_of_not_mem namePlain]
    simp
  obtain ⟨bare, isBare⟩ : ∃ bare, bare = "n=".toList ++ username ++ ",r=".toList ++ clientNonce ++ extensions := ⟨_, rfl⟩
  obtain ⟨serverFirst, isFirst⟩ : ∃ text, text = "r=".toList ++ clientNonce ++ server.serverNonce ++ ",s=".toList ++
    server.keys.saltB64 ++ ",i=".toList ++ (toString server.keys.iterations).toList := ⟨_, rfl⟩
  refine ⟨{ server with clientFirstBare := some bare, serverFirst := some serverFirst }, serverFirst, ?_,
    server.keys.saltB64 ++ ",i=".toList ++ (toString server.keys.iterations).toList, ?_⟩
  · have found : (bare.splitOn ',').findSome? stripNonce = some clientNonce := by
      rw [isBare, bareSplit]
      rfl
    unfold ScramServer.processClientFirst rfcClientFirst
    rw [← isBare, stripGs2Header_eq header]
    simp only [bind, Except.bind, found, ← isFirst]
  · simp [isFirst]

/-- The server accepts what the RFC accepts exactly for the messages whose final one repeats header and
nonce, or has no proof that is one; and a client that has the key of the password is accepted. -/
theorem scram_acceptance (crypto : ScramCrypto) (server next : ScramServer)
    (clientFirst serverFirst clientFinal : List Char)
    (first : server.processClientFirst clientFirst = .ok (next, serverFirst)) :
    (((∃ signature, next.processClientFinal crypto clientFinal = .ok signature) ↔
        RfcAccepts crypto server.keys clientFirst serverFirst clientFinal) ↔
      ∀ bare withoutProof proofText, stripGs2Header clientFirst = .ok bare →
        clientFinal = withoutProof ++ ",p=".toList ++ proofText →
        IsProof crypto server.keys bare serverFirst withoutProof proofText →
        Repeats crypto clientFirst serverFirst withoutProof bare) ∧
    ∀ (salted : Bytes) (label : Bytes), server.keys.storedKey = crypto.sha256 (crypto.hmacSha256 salted label) →
      ∀ gs2 username clientNonce extensions extensions', Gs2Header gs2 → ',' ∉ username → ',' ∉ clientNonce →
        (extensions = [] ∨ ∃ rest, extensions = ',' :: rest) →
        ∃ next serverFirst,
          server.processClientFirst (rfcClientFirst gs2 username clientNonce extensions) = .ok (next, serverFirst) ∧
          ∃ signature, next.processClientFinal crypto
            (finalWithoutProof crypto gs2 (clientNonce ++ server.serverNonce) extensions' ++ ",p=".toList ++
              crypto.encode (xorBytes (crypto.hmacSha256 salted label) (crypto.hmacSha256 server.keys.storedKey
                (crypto.utf8 (ScramServer.authMessage
                  ("n=".toList ++ username ++ ",r=".toList ++ clientNonce ++ extensions) serverFirst
                  (finalWithoutProof crypto gs2 (clientNonce ++ server.serverNonce) extensions')))))) = .ok signature := by
  refine ⟨?_, ?_⟩
  · rw [processClientFinal_accepts first]
    constructor
    · intro agrees bare withoutProof proofText stripped final isProof
      obtain ⟨bare', withoutProof', proofText', repeats, final', isProof'⟩ :=
        agrees.mp ⟨bare, withoutProof, proofText, stripped, final, isProof⟩
      cases stripped.symm.trans repeats.stripped
      have split := splitProof_append isProof.no_comma withoutProof
      have split' := splitProof_append isProof'.no_comma withoutProof'
      rw [← final] at split
      rw [← final', split] at split'
      cases split'
      exact repeats
    · intro every
      constructor
      · rintro ⟨bare, withoutProof, proofText, stripped, final, isProof⟩
        exact ⟨bare, withoutProof, proofText, every _ _ _ stripped final isProof, final, isProof⟩
      · rintro ⟨bare, withoutProof, proofText, repeats, final, isProof⟩
        exact ⟨bare, withoutProof, proofText, repeats.stripped, final, isProof⟩
  · intro salted label stored gs2 username clientNonce extensions extensions' header name plain more
    obtain ⟨next, serverFirst, first, _⟩ := processClientFirst_rfc server _ _ _ header name plain more
    refine ⟨next, serverFirst, first, (processClientFinal_accepts first).mpr ⟨_, _, _, stripGs2Header_eq header, rfl, ?_⟩⟩
    exact ⟨_, crypto.hmac_length _ _, stored.symm, rfl⟩

def byteChar (byte : UInt8) : Char := Char.ofNat (byte.toNat + 256)

def charByte (c : Char) : Option UInt8 :=
  if 256 ≤ c.toNat ∧ c.toNat < 512 then some (UInt8.ofNat (c.toNat - 256)) else none

theorem byteChar_toNat (byte : UInt8) : (byteChar byte).toNat = byte.toNat + 256 := by
  have bound := byte.toNat_lt
  have valid : (byte.toNat + 256).isValidChar := by
    unfold Nat.isValidChar
    omega
  rw [byteChar, Char.toNat_ofNat, if_pos valid]

theorem charByte_byteChar (byte : UInt8) : charByte (byteChar byte) = some byte := by
  have bound := byte.toNat_lt
  rw [charByte, byteChar_toNat, if_pos (by omega)]
  simp

theorem byteChar_of_charByte {c : Char} {byte : UInt8} (decoded : charByte c = some byte) : byteChar byte = c := by
  unfold charByte at decoded
  split_ifs at decoded with bounds
  rw [← Option.some.inj decoded, byteChar, UInt8.toNat_ofNat', Nat.mod_eq_of_lt (by omega),
    Nat.sub_add_cancel bounds.1, Char.ofNat_toNat]

/-- Hashes and an encoding that are simple to compute with. -/
def toyCrypto : ScramCrypto where
  hmacSha256 _ _ := List.replicate 32 7
  sha256 bytes := bytes
  encode bytes := bytes.map byteChar
  decode text := text.mapM charByte
  utf8 text := text.map fun c => UInt8.ofNat c.toNat
  hmac_length _ _ := rfl
  decode_encode bytes := by
    induction bytes with
    | nil => rfl
    | cons byte rest induction => simp [charByte_byteChar, induction]
  encode_decode text bytes decoded := by
    induction text generalizing bytes with
    | nil =>
      cases decoded
      rfl
    | cons c rest induction =>
      simp only [List.mapM_cons, Option.bind_eq_bind, Option.bind_eq_some_iff] at decoded
      obtain ⟨byte, isByte, others, isRest, same⟩ := decoded
      cases same
      rw [List.map_cons, byteChar_of_charByte isByte, induction others isRest]
  encode_comma bytes := by
    intro comma
    obtain ⟨byte, _, same⟩ := List.mem_map.mp comma
    have number := byteChar_toNat byte
    rw [same, show ','.toNat = 44 from rfl] at number
    omega

def toyServer : ScramServer :=
  .new ⟨List.replicate 32 7, [], "c2FsdA==".toList, 4096⟩ "srv".toList

def toyProof : List Char := toyCrypto.encode (List.replicate 32 0)

def toyFinal : List Char := finalWithoutProof toyCrypto "n,,".toList "clisrv".toList [] ++ ",p=".toList ++ toyProof

theorem scram_acceptance_toy :
    ∃ next serverFirst, toyServer.processClientFirst "n,,n=amy,r=cli".toList = .ok (next, serverFirst) ∧
      (∃ signature, next.processClientFinal toyCrypto toyFinal = .ok signature) ∧
      RfcAccepts toyCrypto toyServer.keys "n,,n=amy,r=cli".toList serverFirst toyFinal := by
  have header : Gs2Header "n,,".toList := ⟨'n', [], .inl rfl, by simp, by simp⟩
  obtain ⟨next, serverFirst, first, salt, repeated⟩ :=
    processClientFirst_rfc toyServer "amy".toList "cli".toList [] header (by simp) (by simp) (.inl rfl)
  have conforms : Conforming toyCrypto "n,,n=amy,r=cli".toList serverFirst
      (finalWithoutProof toyCrypto "n,,".toList "clisrv".toList []) "n=amy,r=cli".toList "n,,".toList "clisrv".toList [] :=
    ⟨header, by simp, ⟨salt, by simpa [toyServer, ScramServer.new] using repeated⟩, by decide, .inl rfl, rfl⟩
  have isProof : IsProof toyCrypto toyServer.keys "n=amy,r=cli".toList serverFirst
      (finalWithoutProof toyCrypto "n,,".toList "clisrv".toList []) toyProof := ⟨List.replicate 32 7, rfl, rfl, rfl⟩
  have accepted : ∃ signature, next.processClientFinal toyCrypto toyFinal = .ok signature :=
    (processClientFinal_accepts first).mpr ⟨_, _, _, Repeats.stripped ⟨_, _, _, conforms⟩, rfl, isProof⟩
  refine ⟨next, serverFirst, first, accepted,
    ((scram_acceptance toyCrypto toyServer next _ _ _ first).1.mpr fun bare withoutProof proofText stripped final proves => ?_).mp
      accepted⟩
  cases (Repeats.stripped ⟨_, _, _, conforms⟩).symm.trans stripped
  have split := splitProof_append proves.no_comma withoutProof
  have split' := splitProof_append isProof.no_comma (finalWithoutProof toyCrypto "n,,".toList "clisrv".toList [])
  rw [← final] at split
  cases split.symm.trans split'
  exact ⟨_, _, _, conforms⟩

/-- Neither the nonce nor the channel binding of the final message is looked at, and a header
that demands channel binding is passed over. -/
theorem scram_attributes_unchecked :
    ∃ next serverFirst signature,
      toyServer.processClientFirst "p=tls-unique,,n=amy,r=cli".toList = .ok (next, serverFirst) ∧
      next.processClientFinal toyCrypto ("c=AAAA,r=other,p=".toList ++ toyProof) = .ok signature ∧
      ¬ RfcAccepts toyCrypto toyServer.keys "p=tls-unique,,n=amy,r=cli".toList serverFirst
        ("c=AAAA,r=other,p=".toList ++ toyProof) := by
  refine ⟨_, _, _, rfl, rfl, ?_⟩
  rintro ⟨bare, withoutProof, proofText, ⟨gs2, nonce, extensions, conforms⟩, _⟩
  obtain ⟨flag, authzid, isFlag, _, rfl⟩ := conforms.header.form
  have first := conforms.first
  simp only [List.cons_append] at first
  rcases isFlag with rfl | rfl <;> simp at first

end Lemmas

end Neuralbase.Auth
