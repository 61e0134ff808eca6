import Neuralbase.Consensus.Rpc
import Neuralbase.Library.Machine

namespace Neuralbase.Server

open Neuralbase.Library Neuralbase.Consensus

/-! The message loop of one connection (`session.rs`): frames are read off the byte stream, and
three caches hold the statements, their parameter types and the portals. -/

section Model

/-- How the payloads are taken apart (`extended_protocol.rs`); nothing below depends on it but
that a Bind message is for the portal that its payload begins with. -/
structure MessageCodec (Text : Type) where
  BindMessage : Type
  queryText : Bytes → Text
  parseName : Bytes → Text
  parseSql : Bytes → Text
  parseParameterTypes : Bytes → Except Text (List Int)
  parseNbStatement : Text → Bool
  sentPortal : Bytes → Text
  parseBindMessage : Bytes → Except Text BindMessage
  portalName : BindMessage → Text
  statementName : BindMessage → Text
  materializeBoundSql : Text → List Int → BindMessage → Except Text Text
  executedPortal : Bytes → Text
  /-- The target and the name of a well-formed Close message. -/
  closeTarget : Bytes → Option (UInt8 × Text)
  portalName_eq : ∀ payload bind, parseBindMessage payload = .ok bind → portalName bind = sentPortal payload

def stmtCacheMaxSize : Nat := 100

structure Frame where
  tag : UInt8
  lengthBytes : Bytes
  payload : Bytes
deriving DecidableEq

def Frame.encode (frame : Frame) : Bytes := frame.tag :: (frame.lengthBytes ++ frame.payload)

/-- `i32::from_be_bytes` -/
def beI32 (bytes : Bytes) : Int := (bytes.foldl (fun value byte => value * 256 + (byte.toNat : Int)) 0).bmod (2 ^ 32)

def parseMessageLength (length : Int) : Option Nat :=
  if length < 4 then none else if length > 16 * 1024 * 1024 then none else some (length - 4).toNat

inductive Incoming where
  | badLength
  | message (frame : Frame)

def readPayload (tag : UInt8) (lengthBytes rest : Bytes) : Option (Incoming × Bytes) :=
  match parseMessageLength (beI32 lengthBytes) with
  | none => some (.badLength, rest)
  | some length =>
    if rest.length < length then none else some (.message ⟨tag, lengthBytes, rest.take length⟩, rest.drop length)

/-- The next frame and what is left of the stream; `none` when the stream ends. -/
def readFrame (stream : Bytes) : Option (Incoming × Bytes) :=
  match stream with
  | [] => none
  | tag :: rest => if rest.length < 4 then none else readPayload tag (rest.take 4) (rest.drop 4)

variable {Text : Type} [DecidableEq Text]

/-- A text that was executed, with the frame it was executed for and the frames before it. -/
structure ExecutedSql (Text : Type) where
  earlier : List Frame
  frame : Frame
  sql : Text

structure Session (Text : Type) where
  stmtCache : AList fun _ : Text => Text
  stmtParameterTypes : AList fun _ : Text => List Int
  portalCache : AList fun _ : Text => Text
  stream : Bytes
  history : List Frame
  executed : List (ExecutedSql Text)
  terminated : Bool

namespace Session

def start (stream : Bytes) : Session Text :=
  { stmtCache := ∅, stmtParameterTypes := ∅, portalCache := ∅, stream, history := [], executed := [], terminated := false }

variable (codec : MessageCodec Text)

/-- The statement of a Parse message, unless it is answered with an error. -/
def accepted (payload : Bytes) : Option (Text × List Int) :=
  match codec.parseParameterTypes payload with
  | .error _ => none
  | .ok types => if codec.parseNbStatement (codec.parseSql payload) then some (codec.parseSql payload, types) else none

def handleParse (s : Session Text) (payload : Bytes) : Session Text :=
  match accepted codec payload with
  | none => s
  | some (sql, types) =>
    let full := s.stmtCache.entries.length ≥ stmtCacheMaxSize
    let statements := if full then ∅ else s.stmtCache
    let parameterTypes := if full then ∅ else s.stmtParameterTypes
    { s with
      stmtParameterTypes := parameterTypes.insert (codec.parseName payload) types
      stmtCache := statements.insert (codec.parseName payload) sql }

/-- The portal of a Bind message, unless it is answered with an error. -/
def bound (s : Session Text) (payload : Bytes) : Option (Text × Text) :=
  match codec.parseBindMessage payload with
  | .error _ => none
  | .ok bind =>
    match s.stmtCache.lookup (codec.statementName bind) with
    | none => none
    | some sql =>
      let types := (s.stmtParameterTypes.lookup (codec.statementName bind)).getD []
      match codec.materializeBoundSql sql types bind with
      | .error _ => none
      | .ok materialized => some (codec.portalName bind, materialized)

def handleBind (s : Session Text) (payload : Bytes) : Session Text :=
  match s.bound codec payload with
  | none => s
  | some (portal, sql) => { s with portalCache := s.portalCache.insert portal sql }

def handleExecute (s : Session Text) (frame : Frame) : Session Text :=
  match s.portalCache.lookup (codec.executedPortal frame.payload) with
  | none => s
  | some sql => { s with executed := s.executed ++ [⟨s.history, frame, sql⟩] }

def handleClose (s : Session Text) (payload : Bytes) : Session Text :=
  match codec.closeTarget payload with
  | none => s
  | some (target, name) =>
    if target = 83 then
      { s with stmtCache := s.stmtCache.erase name, stmtParameterTypes := s.stmtParameterTypes.erase name }
    else if target = 80 then { s with portalCache := s.portalCache.erase name }
    else s

/-- The tags are `Q`, `P`, `B`, `E`, `C` and `X`; Describe, Sync and the rest change nothing. -/
def handle (s : Session Text) (frame : Frame) : Session Text :=
  if frame.tag = 81 then
    { s with executed := s.executed ++ [⟨s.history, frame, codec.queryText frame.payload⟩] }
  else if frame.tag = 80 then s.handleParse codec frame.payload
  else if frame.tag = 66 then s.handleBind codec frame.payload
  else if frame.tag = 69 then s.handleExecute codec frame
  else if frame.tag = 67 then s.handleClose codec frame.payload
  else if frame.tag = 88 then { s with terminated := true }
  else s

/-- One round of the loop. -/
def step (s : Session Text) (_ : Unit) : Option (Session Text) :=
  if s.terminated then none
  else
    match readFrame s.stream with
    | none => none
    | some (.badLength, rest) => some { s with stream := rest }
    | some (.message frame, rest) =>
      let handled := s.handle codec frame
      some { handled with stream := rest, history := s.history ++ [frame] }

end Session

end Model

section Trace

variable {Text : Type} (codec : MessageCodec Text)

/-- The most recent Parse for a statement name has this text and these types, and was accepted. -/
def Parsed (history : List Frame) (name sql : Text) (types : List Int) : Prop :=
  ∃ before frame after, history = before ++ frame :: after ∧ frame.tag = 80 ∧ codec.parseName frame.payload = name ∧
    Session.accepted codec frame.payload = some (sql, types) ∧
    ∀ later ∈ after, later.tag = 80 → codec.parseName later.payload ≠ name

/-- The most recent Bind for a portal was accepted, and the text is what it makes of the most
recent Parse before it. -/
def Bound (history : List Frame) (portal sql : Text) : Prop :=
  ∃ before frame after, history = before ++ frame :: after ∧ frame.tag = 66 ∧ codec.sentPortal frame.payload = portal ∧
    (∀ later ∈ after, later.tag = 66 → codec.sentPortal later.payload ≠ portal) ∧
    ∃ bind statement types, codec.parseBindMessage frame.payload = .ok bind ∧
      Parsed codec before (codec.statementName bind) statement types ∧
      codec.materializeBoundSql statement types bind = .ok sql

/-- The frame was received after those before it, and is a Query with this text or an Execute of
the portal that has it. -/
def ExecutedSql.Justified (history : List Frame) (execution : ExecutedSql Text) : Prop :=
  execution.earlier ++ [execution.frame] <+: history ∧
    (execution.frame.tag = 81 ∧ execution.sql = codec.queryText execution.frame.payload ∨
      execution.frame.tag = 69 ∧
        Bound codec execution.earlier (codec.executedPortal execution.frame.payload) execution.sql)

variable {codec} {history : List Frame} {name portal sql : Text} {types : List Int} {frame : Frame}

theorem Parsed.snoc (parsed : Parsed codec history name sql types)
    (other : frame.tag = 80 → codec.parseName frame.payload ≠ name) : Parsed codec (history ++ [frame]) name sql types := by
  obtain ⟨before, found, after, rfl, isParse, named, accepts, last⟩ := parsed
  refine ⟨before, found, after ++ [frame], by simp, isParse, named, accepts, fun later inside => ?_⟩
  rcases List.mem_append.mp inside with inside | inside
  · exact last later inside
  · cases List.mem_singleton.mp inside
    exact other

theorem Bound.snoc (bound : Bound codec history portal sql)
    (other : frame.tag = 66 → codec.sentPortal frame.payload ≠ portal) : Bound codec (history ++ [frame]) portal sql := by
  obtain ⟨before, found, after, rfl, isBind, named, last, made⟩ := bound
  refine ⟨before, found, after ++ [frame], by simp, isBind, named, fun later inside => ?_, made⟩
  rcases List.mem_append.mp inside with inside | inside
  · exact last later inside
  · cases List.mem_singleton.mp inside
    exact other

end Trace

section Invariant

variable {Text : Type} [DecidableEq Text] {codec : MessageCodec Text} {s next : Session Text} {frame : Frame}

namespace Session

structure Coherent (codec : MessageCodec Text) (s : Session Text) : Prop where
  statements : ∀ name sql, s.stmtCache.lookup name = some sql →
    ∃ types, s.stmtParameterTypes.lookup name = some types ∧ Parsed codec s.history name sql types
  portals : ∀ portal sql, s.portalCache.lookup portal = some sql → Bound codec s.history portal sql
  executed : ∀ execution ∈ s.executed, execution.Justified codec s.history

/-- A Parse or a Bind that is answered with an error is for a name that is not in the cache. -/
def CleanFailure (codec : MessageCodec Text) (s : Session Text) (frame : Frame) : Prop :=
  (frame.tag = 80 → accepted codec frame.payload = none → s.stmtCache.lookup (codec.parseName frame.payload) = none) ∧
    (frame.tag = 66 → s.bound codec frame.payload = none → s.portalCache.lookup (codec.sentPortal frame.payload) = none)

/-- What the caches hold after a frame is new, or is old and not for the name of the frame. -/
theorem Coherent.grow (coherent : s.Coherent codec) (isHistory : next.history = s.history ++ [frame])
    (statements : ∀ name sql, next.stmtCache.lookup name = some sql →
      (∃ types, next.stmtParameterTypes.lookup name = some types ∧ Parsed codec next.history name sql types) ∨
      (s.stmtCache.lookup name = some sql ∧ next.stmtParameterTypes.lookup name = s.stmtParameterTypes.lookup name ∧
        (frame.tag = 80 → codec.parseName frame.payload ≠ name)))
    (portals : ∀ portal sql, next.portalCache.lookup portal = some sql → Bound codec next.history portal sql ∨
      (s.portalCache.lookup portal = some sql ∧ (frame.tag = 66 → codec.sentPortal frame.payload ≠ portal)))
    (executed : ∀ execution ∈ next.executed, execution ∈ s.executed ∨ execution.Justified codec next.history) :
    next.Coherent codec := by
  refine ⟨fun name sql found => ?_, fun portal sql found => ?_, fun execution inside => ?_⟩
  · rcases statements name sql found with new | ⟨old, sameTypes, other⟩
    · exact new
    · obtain ⟨types, known, parsed⟩ := coherent.statements name sql old
      exact ⟨types, sameTypes.trans known, isHistory ▸ parsed.snoc other⟩
  · rcases portals portal sql found with new | ⟨old, other⟩
    · exact new
    · exact isHistory ▸ (coherent.portals portal sql old).snoc other
  · rcases executed execution inside with old | new
    · obtain ⟨received, justified⟩ := coherent.executed execution old
      exact ⟨received.trans (isHistory ▸ List.prefix_append _ _), justified⟩
    · exact new

theorem Coherent.handleParse (coherent : s.Coherent codec) (isParse : frame.tag = 80)
    (clean : s.CleanFailure codec frame) (rest : Bytes) :
    Coherent codec { s.handleParse codec frame.payload with stream := rest, history := s.history ++ [frame] } := by
  have notBind : frame.tag ≠ 66 := by rw [isParse]; decide
  unfold Session.handleParse
  cases outcome : accepted codec frame.payload with
  | none =>
    refine coherent.grow rfl (fun name sql found => .inr ⟨found, rfl, fun _ same => ?_⟩)
      (fun portal sql found => .inr ⟨found, fun isBind => absurd isBind notBind⟩) (fun _ => .inl)
    rw [← same] at found
    cases (clean.1 isParse outcome).symm.trans found
  | some statement =>
    obtain ⟨sql, types⟩ := statement
    refine coherent.grow rfl (fun name sql' found => ?_)
      (fun portal sql found => .inr ⟨found, fun isBind => absurd isBind notBind⟩) (fun _ => .inl)
    by_cases same : name = codec.parseName frame.payload
    · subst same
      cases (AList.lookup_insert _).symm.trans found
      exact .inl ⟨types, AList.lookup_insert _, s.history, frame, [], rfl, isParse, rfl, outcome, by simp⟩
    · simp only [AList.lookup_insert_ne same] at found ⊢
      split_ifs at found ⊢
      · simp at found
      · exact .inr ⟨found, rfl, fun _ => Ne.symm same⟩

theorem Coherent.handleBind (coherent : s.Coherent codec) (isBind : frame.tag = 66)
    (clean : s.CleanFailure codec frame) (rest : Bytes) :
    Coherent codec { s.handleBind codec frame.payload with stream := rest, history := s.history ++ [frame] } := by
  have notParse : frame.tag ≠ 80 := by rw [isBind]; decide
  unfold Session.handleBind
  cases outcome : s.bound codec frame.payload with
  | none =>
    refine coherent.grow rfl (fun name sql found => .inr ⟨found, rfl, fun isParse => absurd isParse notParse⟩)
      (fun portal sql found => .inr ⟨found, fun _ same => ?_⟩) (fun _ => .inl)
    rw [← same] at found
    cases (clean.2 isBind outcome).symm.trans found
  | some made =>
    obtain ⟨portal, sql⟩ := made
    refine coherent.grow rfl (fun name sql found => .inr ⟨found, rfl, fun isParse => absurd isParse notParse⟩)
      (fun portal' sql' found => ?_) (fun _ => .inl)
    unfold bound at outcome
    split at outcome
    · cases outcome
    rename_i bind parsedBind
    split at outcome
    · cases outcome
    rename_i statement cached
    simp only at outcome
    split at outcome
    · cases outcome
    rename_i materialized made
    cases outcome
    by_cases same : portal' = codec.portalName bind
    · subst same
      cases (AList.lookup_insert _).symm.trans found
      obtain ⟨types, known, parsed⟩ := coherent.statements _ _ cached
      rw [known, Option.getD_some] at made
      exact .inl ⟨s.history, frame, [], rfl, isBind, (codec.portalName_eq _ _ parsedBind).symm, by simp, bind, statement,
        types, parsedBind, parsed, made⟩
    · simp only [AList.lookup_insert_ne same] at found
      refine .inr ⟨found, fun _ => ?_⟩
      rw [← codec.portalName_eq _ _ parsedBind]
      exact Ne.symm same

theorem lookup_of_erase {Value : Type} {entries : AList fun _ : Text => Value} {name other : Text} {value : Value}
    (found : (entries.erase name).lookup other = some value) : entries.lookup other = some value ∧ other ≠ name := by
  by_cases same : other = name
  · subst same
    rw [AList.lookup_erase] at found
    cases found
  · rw [AList.lookup_erase_ne same] at found
    exact ⟨found, same⟩

theorem Coherent.handleClose (coherent : s.Coherent codec) (isClose : frame.tag = 67) (rest : Bytes) :
    Coherent codec { s.handleClose codec frame.payload with stream := rest, history := s.history ++ [frame] } := by
  have notParse : frame.tag ≠ 80 := by rw [isClose]; decide
  have notBind : frame.tag ≠ 66 := by rw [isClose]; decide
  have same : Coherent codec { s with stream := rest, history := s.history ++ [frame] } :=
    coherent.grow rfl (fun name sql found => .inr ⟨found, rfl, fun isParse => absurd isParse notParse⟩)
      (fun portal sql found => .inr ⟨found, fun isBind => absurd isBind notBind⟩) (fun _ => .inl)
  unfold Session.handleClose
  split
  · exact same
  · rename_i target name closes
    split_ifs
    · refine coherent.grow rfl (fun other sql found => .inr ?_)
        (fun portal sql found => .inr ⟨found, fun isBind => absurd isBind notBind⟩) (fun _ => .inl)
      obtain ⟨found, different⟩ := lookup_of_erase found
      exact ⟨found, AList.lookup_erase_ne different, fun isParse => absurd isParse notParse⟩
    · refine coherent.grow rfl (fun other sql found => .inr ⟨found, rfl, fun isParse => absurd isParse notParse⟩)
        (fun portal sql found => .inr ⟨(lookup_of_erase found).1, fun isBind => absurd isBind notBind⟩) (fun _ => .inl)
    · exact same

theorem Coherent.handle (coherent : s.Coherent codec) (clean : s.CleanFailure codec frame) (rest : Bytes) :
    Coherent codec { s.handle codec frame with stream := rest, history := s.history ++ [frame] } := by
  have only (next : Session Text) (notParse : frame.tag ≠ 80) (notBind : frame.tag ≠ 66)
      (isHistory : next.history = s.history ++ [frame]) (statements : next.stmtCache = s.stmtCache)
      (types : next.stmtParameterTypes = s.stmtParameterTypes) (portals : next.portalCache = s.portalCache)
      (executed : ∀ execution ∈ next.executed, execution ∈ s.executed ∨ execution.Justified codec next.history) :
      next.Coherent codec :=
    coherent.grow isHistory
      (fun name sql found => .inr ⟨statements ▸ found, by rw [types], fun isParse => absurd isParse notParse⟩)
      (fun portal sql found => .inr ⟨portals ▸ found, fun isBind => absurd isBind notBind⟩) executed
  unfold Session.handle
  split_ifs with isQuery isParse isBind isExecute isClose isTerminate
  · refine only _ (by rw [isQuery]; decide) (by rw [isQuery]; decide) rfl rfl rfl rfl fun execution inside => ?_
    rcases List.mem_append.mp inside with inside | inside
    · exact .inl inside
    · cases List.mem_singleton.mp inside
      exact .inr ⟨List.prefix_rfl, .inl ⟨isQuery, rfl⟩⟩
  · exact coherent.handleParse isParse clean rest
  · exact coherent.handleBind isBind clean rest
  · unfold Session.handleExecute
    split
    · exact only _ isParse isBind rfl rfl rfl rfl fun _ => .inl
    · rename_i sql found
      refine only _ isParse isBind rfl rfl rfl rfl fun execution inside => ?_
      rcases List.mem_append.mp inside with inside | inside
      · exact .inl inside
      · cases List.mem_singleton.mp inside
        exact .inr ⟨List.prefix_rfl, .inr ⟨isExecute, coherent.portals _ _ found⟩⟩
  · exact coherent.handleClose isClose rest
  · exact only _ isParse isBind rfl rfl rfl rfl fun _ => .inl
  · exact only _ isParse isBind rfl rfl rfl rfl fun _ => .inl

theorem readPayload_message {tag : UInt8} {lengthBytes tail rest : Bytes}
    (read : readPayload tag lengthBytes tail = some (.message frame, rest)) :
    tag :: (lengthBytes ++ tail) = frame.encode ++ rest ∧
      parseMessageLength (beI32 frame.lengthBytes) = some frame.payload.length := by
  unfold readPayload at read
  cases isLength : parseMessageLength (beI32 lengthBytes) with
  | none =>
    simp only [isLength] at read
    cases read
  | some length =>
    simp only [isLength] at read
    split_ifs at read with long
    simp only [Option.some.injEq, Prod.mk.injEq, Incoming.message.injEq] at read
    obtain ⟨rfl, rfl⟩ := read
    have taken : (tail.take length).length = length := List.length_take_of_le (Nat.not_lt.mp long)
    refine ⟨?_, isLength.trans (congrArg some taken.symm)⟩
    simp [Frame.encode]

theorem readFrame_message {stream rest : Bytes} (read : readFrame stream = some (.message frame, rest)) :
    stream = frame.encode ++ rest ∧ parseMessageLength (beI32 frame.lengthBytes) = some frame.payload.length := by
  cases stream with
  | nil => cases read
  | cons tag tail =>
    rw [readFrame] at read
    split_ifs at read
    obtain ⟨split, length⟩ := readPayload_message read
    rw [List.take_append_drop] at split
    exact ⟨split, length⟩

/-- Each frame begins where the payload of the one before ended. -/
structure Framed (stream : Bytes) (s : Session Text) : Prop where
  split : stream = (s.history.map Frame.encode).flatten ++ s.stream
  lengths : ∀ frame ∈ s.history, parseMessageLength (beI32 frame.lengthBytes) = some frame.payload.length

/-- The length of the next frame is valid, and an error answer is for a name that is not cached. -/
def Clean (codec : MessageCodec Text) (s : Session Text) (_ : Unit) : Prop :=
  match readFrame s.stream with
  | none => True
  | some (.badLength, _) => False
  | some (.message frame, _) => s.CleanFailure codec frame

instance (s : Session Text) (round : Unit) : Decidable (s.Clean codec round) := by
  unfold Clean CleanFailure
  split <;> infer_instance

theorem step_invariant {stream : Bytes} (coherent : s.Coherent codec) (framed : s.Framed stream)
    (clean : s.Clean codec ()) (stepped : s.step codec () = some next) : next.Coherent codec ∧ next.Framed stream := by
  unfold step at stepped
  unfold Clean at clean
  split_ifs at stepped
  split at stepped
  · cases stepped
  · rename_i read
    simp only [read] at clean
  · rename_i frame rest read
    simp only [read] at clean
    cases stepped
    obtain ⟨split, length⟩ := readFrame_message read
    refine ⟨coherent.handle clean rest, ?_, fun other inside => ?_⟩
    · rw [framed.split, split]
      simp
    · rcases List.mem_append.mp inside with inside | inside
      · exact framed.lengths other inside
      · cases List.mem_singleton.mp inside
        exact length

/-- On every byte stream, after any number of rounds: what was executed is the text of a Query that
was received, or what the most recent Bind for the portal of an Execute that was received made of the
most recent Parse before it, and the frames that were read lie one after the other in the stream. -/
theorem session_fail_closed (codec : MessageCodec Text) (stream : Bytes) (rounds : List Unit) (final : Session Text)
    (ran : runs (step codec) (start stream) rounds = some final)
    (clean : Throughout (step codec) (Clean codec) (start stream) rounds) :
    (∀ execution ∈ final.executed, execution.Justified codec final.history) ∧ final.Framed stream := by
  have invariant := keeps (fun s : Session Text => s.Coherent codec ∧ s.Framed stream) ran clean
    ⟨⟨fun _ _ found => by simp [start] at found, fun _ _ found => by simp [start] at found, by simp [start]⟩,
      by simp [start], by simp [start]⟩
    fun s _ next held allowed stepped => step_invariant held.1 held.2 allowed stepped
  exact ⟨invariant.1.executed, invariant.2⟩

/-- Names are one byte; a statement is accepted if its text is not empty. -/
def byteCodec : MessageCodec Bytes where
  BindMessage := Bytes
  queryText payload := payload
  parseName payload := payload.take 1
  parseSql payload := payload.drop 1
  parseParameterTypes _ := .ok []
  parseNbStatement sql := sql ≠ []
  sentPortal payload := payload.take 1
  parseBindMessage payload := if payload.length = 2 then .ok payload else .error []
  portalName bind := bind.take 1
  statementName bind := bind.drop 1
  materializeBoundSql sql _ _ := .ok sql
  executedPortal payload := payload.take 1
  closeTarget _ := none
  portalName_eq payload bind parsed := by
    split_ifs at parsed
    cases parsed
    rfl

def frameBytes (tag : UInt8) (payload : Bytes) : Bytes :=
  tag :: 0 :: 0 :: 0 :: UInt8.ofNat (payload.length + 4) :: payload

def preparedStream : Bytes :=
  frameBytes 80 [1, 65] ++ frameBytes 66 [2, 1] ++ frameBytes 69 [2] ++ frameBytes 81 [66]

theorem session_fail_closed_prepared :
    ∃ final, runs (step byteCodec) (start preparedStream) [(), (), (), ()] = some final ∧
      final.executed.map ExecutedSql.sql = [[65], [66]] ∧
      ∀ execution ∈ final.executed, execution.Justified byteCodec final.history := by
  refine ⟨_, rfl, rfl, ?_⟩
  exact (session_fail_closed byteCodec preparedStream [(), (), (), ()] _ rfl (by decide +kernel)).1

/-- A Parse and a Bind that fail leave the statement and the portal of their name: the texts
that are executed are those of earlier ones.  The payload of a frame whose length is refused
is read as the next frame, here a Query. -/
theorem failed_messages_execute :
    ((runs (step byteCodec) (start (frameBytes 80 [1, 65] ++ frameBytes 80 [1] ++ frameBytes 66 [2, 1] ++ frameBytes 69 [2]))
        [(), (), (), ()]).map fun s => s.executed.map ExecutedSql.sql) = some [[65]] ∧
      ((runs (step byteCodec) (start (frameBytes 80 [1, 65] ++ frameBytes 66 [2, 1] ++ frameBytes 66 [2] ++ frameBytes 69 [2]))
        [(), (), (), ()]).map fun s => s.executed.map ExecutedSql.sql) = some [[65]] ∧
      ((runs (step byteCodec) (start (68 :: 127 :: 0 :: 0 :: 0 :: frameBytes 81 [66])) [(), ()]).map fun s =>
        s.executed.map ExecutedSql.sql) = some [[66]] := by
  exact ⟨rfl, rfl, rfl⟩

end Session

end Invariant

end Neuralbase.Server
