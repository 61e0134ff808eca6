import Neuralbase.Library.BigEndian
import Neuralbase.Library.Result

namespace Neuralbase.Library

/-! Binary formats: readers that take fields from the front of the remaining bytes, and
writers that may refuse a value.  A format is right if its reader takes exactly what
its writer has put, whatever follows. -/

abbrev Reader (ε : Type) := StateT (List UInt8) (Except ε)

namespace Reader

variable {ε α β : Type}

def take (eof : ε) (count : Nat) : Reader ε (List UInt8) := fun bytes =>
  if count ≤ bytes.length then .ok (bytes.take count, bytes.drop count) else .error eof

def u8 (eof : ε) : Reader ε UInt8 := do
  let bytes ← take eof 1
  pure (bytes.headD 0)

/-- A big-endian number of `width` bytes. -/
def number (eof : ε) (width : Nat) : Reader ε Nat := do
  let bytes ← take eof width
  pure (fromBeBytes bytes)

/-- An array of `width` bytes. -/
def array (eof : ε) (width : Nat) : Reader ε { bytes : List UInt8 // bytes.length = width } := fun bytes =>
  if enough : width ≤ bytes.length then
    .ok (⟨bytes.take width, List.length_take_of_le enough⟩, bytes.drop width)
  else .error eof

def blob (eof : ε) : Reader ε (List UInt8) := do
  let length ← number eof 4
  take eof length

def times (reader : Reader ε α) : Nat → Reader ε (List α)
  | 0 => pure []
  | count + 1 => do
      let value ← reader
      let values ← times reader count
      pure (value :: values)

def lift (outcome : Except ε α) : Reader ε α := fun bytes => outcome.map fun value => (value, bytes)

def finished (trailing : ε) : Reader ε Unit := fun bytes =>
  if bytes.isEmpty then .ok ((), bytes) else .error trailing

/-- The reader takes exactly `code` and returns `value`. -/
def Reads (reader : Reader ε α) (code : List UInt8) (value : α) : Prop :=
  ∀ rest, reader (code ++ rest) = .ok (value, rest)

variable {reader : Reader ε α} {next : α → Reader ε β} {code later : List UInt8} {value : α}
  {result : β}

theorem Reads.pure (value : α) : Reads (Pure.pure value : Reader ε α) [] value := fun _ => rfl

theorem Reads.bind (first : Reads reader code value) (second : Reads (next value) later result) :
    Reads (reader >>= next) (code ++ later) result := by
  intro rest
  show (reader (code ++ later ++ rest)).bind _ = _
  rw [List.append_assoc, first]
  exact second rest

theorem Reads.silent (first : Reads reader [] value) (second : Reads (next value) code result) :
    Reads (reader >>= next) code result :=
  first.bind second

theorem Reads.settled (first : Reads reader code value) (second : Reads (next value) [] result) :
    Reads (reader >>= next) code result := by
  have read := first.bind second
  rwa [List.append_nil] at read

theorem Reads.returning (reads : Reads reader code value) (make : α → β) :
    Reads (do
      let value ← reader
      Pure.pure (make value)) code (make value) := by
  intro rest
  show (reader (code ++ rest)).bind _ = _
  rw [reads]
  rfl

theorem reads_take {eof : ε} {count : Nat} (length : code.length = count) : Reads (take eof count) code code := by
  intro rest
  have fits : count ≤ (code ++ rest).length := by simp [← length]
  rw [take, if_pos fits, List.take_left' length, List.drop_left' length]

theorem reads_u8 {eof : ε} (byte : UInt8) : Reads (u8 eof) [byte] byte :=
  (reads_take (rfl : [byte].length = 1)).returning fun bytes => bytes.headD 0

theorem reads_number {eof : ε} {width number : Nat} (bounded : number < 256 ^ width) :
    Reads (Reader.number eof width) (toBeBytes width number) number := by
  have read : Reads (Reader.number eof width) (toBeBytes width number)
      (fromBeBytes (toBeBytes width number)) :=
    (reads_take (length_toBeBytes width number)).returning fromBeBytes
  rwa [fromBeBytes_toBeBytes _ _ bounded] at read

theorem reads_array {eof : ε} {width : Nat} (bytes : { bytes : List UInt8 // bytes.length = width }) :
    Reads (array eof width) bytes.val bytes := by
  obtain ⟨bytes, rfl⟩ := bytes
  intro rest
  have enough : bytes.length ≤ (bytes ++ rest).length := by simp
  simp only [array, dif_pos enough, List.take_left, List.drop_left]

theorem reads_blob {eof : ε} (short : code.length < 2 ^ 32) : Reads (blob eof) (toBeBytes 4 code.length ++ code) code :=
  (reads_number short).bind (reads_take rfl)

theorem reads_lift {outcome : Except ε α} (passes : outcome = .ok value) : Reads (lift outcome) [] value := by
  intro rest
  rw [lift, passes]
  rfl

theorem Reads.checked (reads : Reads reader code value) {check : α → Except ε β}
    (passes : check value = .ok result) :
    Reads (do
      let value ← reader
      lift (check value)) code result :=
  reads.settled (reads_lift passes)

theorem Reads.whole {trailing : ε} (reads : Reads reader code value) :
    (do
      let value ← reader
      finished trailing
      Pure.pure value : Reader ε α) code = .ok (value, []) := by
  have read := reads []
  rw [List.append_nil] at read
  show (reader code).bind _ = _
  rw [read]
  rfl

/-- Whatever the reader returns stands in the relation to the bytes it has taken. -/
def Takes (reader : Reader ε α) (relation : List UInt8 → α → Prop) : Prop :=
  ∀ bytes value rest, reader bytes = .ok (value, rest) → ∃ code, bytes = code ++ rest ∧ relation code value

theorem Takes.bind {first : List UInt8 → α → Prop} {both : List UInt8 → β → Prop} (taken : Takes reader first)
    (after : ∀ code value, first code value → Takes (next value) fun later result => both (code ++ later) result) :
    Takes (reader >>= next) both := by
  intro bytes result rest read
  obtain ⟨⟨value, left⟩, here, last⟩ := bind_eq_ok.mp read
  obtain ⟨code, rfl, holds⟩ := taken bytes value left here
  obtain ⟨later, rfl, hold⟩ := after code value holds left result rest last
  exact ⟨code ++ later, (List.append_assoc _ _ _).symm, hold⟩

theorem Takes.mono {strict relation : List UInt8 → α → Prop} (taken : Takes reader strict)
    (implies : ∀ code value, strict code value → relation code value) : Takes reader relation := by
  intro bytes value rest read
  obtain ⟨code, split, holds⟩ := taken bytes value rest read
  exact ⟨code, split, implies code value holds⟩

theorem takes_pure {relation : List UInt8 → α → Prop} (holds : relation [] value) :
    Takes (Pure.pure value : Reader ε α) relation := by
  rintro bytes _ rest ⟨⟩
  exact ⟨[], rfl, holds⟩

theorem takes_lift {outcome : Except ε α} {relation : List UInt8 → α → Prop}
    (holds : ∀ value, outcome = .ok value → relation [] value) : Takes (lift outcome) relation := by
  intro bytes value rest read
  cases outcome with
  | error reason => cases read
  | ok value =>
    cases read
    exact ⟨[], rfl, holds value rfl⟩

theorem takes_checked {outcome : Except ε α} {relation : List UInt8 → β → Prop}
    (after : ∀ value, outcome = .ok value → Takes (next value) relation) : Takes (lift outcome >>= next) relation := by
  intro bytes result rest read
  obtain ⟨⟨value, left⟩, passed, last⟩ := bind_eq_ok.mp read
  cases outcome with
  | error reason => cases passed
  | ok value =>
    cases passed
    exact after value rfl bytes result rest last

theorem Takes.vetted {relation : List UInt8 → α → Prop} {check : α → Except ε β} (taken : Takes reader relation) :
    Takes (do
      let value ← reader
      lift ((check value).map fun _ => value)) fun code value => relation code value ∧ ∃ result, check value = .ok result := by
  refine taken.bind fun code value holds => takes_lift fun found passes => ?_
  obtain ⟨result, passed, rfl⟩ := map_eq_ok.mp passes
  rw [List.append_nil]
  exact ⟨holds, result, passed⟩

theorem takes_take {eof : ε} {count : Nat} : Takes (take eof count) fun code value => value = code ∧ code.length = count := by
  intro bytes value rest read
  unfold take at read
  split_ifs at read with enough
  cases read
  exact ⟨bytes.take count, (List.take_append_drop count bytes).symm, rfl, List.length_take_of_le enough⟩

theorem takes_u8 {eof : ε} : Takes (u8 eof) fun code value => code = [value] := by
  refine takes_take.bind fun code value holds => takes_pure ?_
  obtain ⟨rfl, length⟩ := holds
  obtain ⟨byte, rfl⟩ := List.length_eq_one_iff.mp length
  rfl

theorem takes_number {eof : ε} {width : Nat} :
    Takes (Reader.number eof width) fun code value => code = toBeBytes width value ∧ value < 256 ^ width := by
  refine takes_take.bind fun code value holds => takes_pure ?_
  obtain ⟨rfl, rfl⟩ := holds
  rw [List.append_nil, toBeBytes_fromBeBytes]
  exact ⟨rfl, fromBeBytes_lt value⟩

theorem takes_blob {eof : ε} :
    Takes (blob eof) fun code value => code = toBeBytes 4 value.length ++ value ∧ value.length < 2 ^ 32 := by
  refine takes_number.bind fun code length holds => ?_
  obtain ⟨rfl, short⟩ := holds
  intro bytes value rest read
  obtain ⟨code, rfl, rfl, rfl⟩ := takes_take bytes value rest read
  exact ⟨value, rfl, rfl, short⟩

theorem Takes.whole {relation : List UInt8 → α → Prop} {trailing : ε} {bytes rest : List UInt8}
    (taken : Takes reader relation)
    (read : (do
      let value ← reader
      finished trailing
      Pure.pure value : Reader ε α) bytes = .ok (value, rest)) : relation bytes value := by
  obtain ⟨⟨found, left⟩, here, read⟩ := bind_eq_ok.mp read
  obtain ⟨⟨⟨⟩, final⟩, ended, read⟩ := bind_eq_ok.mp read
  cases read
  obtain ⟨code, rfl, holds⟩ := taken bytes value left here
  unfold finished at ended
  split_ifs at ended with empty
  rw [List.isEmpty_iff.mp empty, List.append_nil]
  exact holds

end Reader

section Writers

variable {ε α β : Type}

def Inverts (put : α → Except ε (List UInt8)) (reader : Reader ε α) : Prop :=
  ∀ value code, put value = .ok code → reader.Reads code value

def putMany (put : α → Except ε (List UInt8)) : List α → Except ε (List UInt8)
  | [] => .ok []
  | value :: rest => do
      let first ← put value
      let others ← putMany put rest
      pure (first ++ others)

def putBlob (tooLarge : ε) (value : List UInt8) : Except ε (List UInt8) :=
  if value.length < 2 ^ 32 then .ok (toBeBytes 4 value.length ++ value) else .error tooLarge

theorem putBlob_eq_ok {tooLarge : ε} {value code : List UInt8} (put : putBlob tooLarge value = .ok code) :
    value.length < 2 ^ 32 ∧ code = toBeBytes 4 value.length ++ value := by
  unfold putBlob at put
  split at put
  · cases put
    exact ⟨‹_›, rfl⟩
  · cases put

theorem inverts_blob {tooLarge eof : ε} : Inverts (putBlob tooLarge) (Reader.blob eof) := by
  intro value code put
  obtain ⟨short, rfl⟩ := putBlob_eq_ok put
  exact Reader.reads_blob short

theorem reads_views {δ : Type} {put : α → Except ε (List UInt8)} {reader : Reader δ β} {view : α → β} {values : List α}
    {code : List UInt8} (inverts : ∀ value ∈ values, ∀ code, put value = .ok code → reader.Reads code (view value))
    (encoded : putMany put values = .ok code) : (reader.times values.length).Reads code (values.map view) := by
  induction values generalizing code with
  | nil =>
    cases encoded
    exact Reader.Reads.pure []
  | cons value rest induction =>
    obtain ⟨first, head, tail⟩ := bind_eq_ok.mp encoded
    obtain ⟨others, more, same⟩ := bind_eq_ok.mp tail
    cases pure_eq_ok.mp same
    have later := induction (fun value inside => inverts value (List.mem_cons_of_mem _ inside)) more
    exact (inverts value List.mem_cons_self first head).bind (later.returning fun values => view value :: values)

theorem reads_many {put : α → Except ε (List UInt8)} {reader : Reader ε α} {values : List α}
    {code : List UInt8} (inverts : ∀ value ∈ values, ∀ code, put value = .ok code → reader.Reads code value)
    (encoded : putMany put values = .ok code) : (reader.times values.length).Reads code values := by
  have read := @reads_views _ _ _ _ put reader id values code inverts encoded
  rwa [List.map_id] at read

theorem Inverts.many {put : α → Except ε (List UInt8)} {reader : Reader ε α}
    (inverts : Inverts put reader) {values : List α} {code : List UInt8}
    (encoded : putMany put values = .ok code) : (reader.times values.length).Reads code values :=
  reads_many (fun value _ => inverts value) encoded

def Restores (put : α → Except ε (List UInt8)) (reader : Reader ε α) : Prop :=
  reader.Takes fun code value => put value = .ok code

theorem restores_blob {tooLarge eof : ε} : Restores (putBlob tooLarge) (Reader.blob eof) := by
  intro bytes value rest read
  obtain ⟨code, rfl, rfl, short⟩ := Reader.takes_blob bytes value rest read
  exact ⟨_, rfl, if_pos short⟩

theorem takes_many {put : α → Except ε (List UInt8)} {property : α → Prop} {reader : Reader ε α}
    (taken : reader.Takes fun code value => put value = .ok code ∧ property value) (count : Nat) :
    (reader.times count).Takes fun code values =>
      putMany put values = .ok code ∧ values.length = count ∧ ∀ value ∈ values, property value := by
  induction count with
  | zero => exact Reader.takes_pure ⟨rfl, rfl, nofun⟩
  | succ count induction =>
    refine taken.bind fun first value one => induction.bind fun others values more => Reader.takes_pure ?_
    obtain ⟨put, holds⟩ := one
    obtain ⟨encoded, length, hold⟩ := more
    rw [List.append_nil]
    exact ⟨bind_eq_ok.mpr ⟨first, put, bind_eq_ok.mpr ⟨others, encoded, rfl⟩⟩, congrArg Nat.succ length,
      List.forall_mem_cons.mpr ⟨holds, hold⟩⟩

theorem Restores.many {put : α → Except ε (List UInt8)} {reader : Reader ε α} (restores : Restores put reader)
    (count : Nat) :
    (reader.times count).Takes fun code values => putMany put values = .ok code ∧ values.length = count :=
  (takes_many (restores.mono fun _ _ put => ⟨put, trivial⟩) count).mono fun _ _ ⟨encoded, length, _⟩ => ⟨encoded, length⟩

theorem putMany_length {put : α → Except ε (List UInt8)} {size : α → Nat} {values : List α} {code : List UInt8}
    (each : ∀ value code, put value = .ok code → code.length = size value)
    (encoded : putMany put values = .ok code) : code.length = (values.map size).sum := by
  induction values generalizing code with
  | nil =>
    cases encoded
    rfl
  | cons value rest induction =>
    obtain ⟨first, head, tail⟩ := bind_eq_ok.mp encoded
    obtain ⟨others, more, same⟩ := bind_eq_ok.mp tail
    cases pure_eq_ok.mp same
    rw [List.length_append, each value first head, induction more, List.map_cons, List.sum_cons]

theorem putMany_exists {put : α → Except ε (List UInt8)} {values : List α}
    (each : ∀ value ∈ values, ∃ code, put value = .ok code) : ∃ code, putMany put values = .ok code := by
  induction values with
  | nil => exact ⟨[], rfl⟩
  | cons value rest induction =>
    obtain ⟨first, head⟩ := each value List.mem_cons_self
    obtain ⟨others, tail⟩ := induction fun value inside => each value (List.mem_cons_of_mem _ inside)
    exact ⟨first ++ others, bind_eq_ok.mpr ⟨first, head, bind_eq_ok.mpr ⟨others, tail, rfl⟩⟩⟩

theorem putMany_sublist {put : α → Except ε (List UInt8)} {values fewer : List α} {code : List UInt8}
    (sublist : fewer.Sublist values) (encoded : putMany put values = .ok code) :
    ∃ shorter, putMany put fewer = .ok shorter ∧ shorter.length ≤ code.length := by
  induction sublist generalizing code with
  | slnil => exact ⟨code, encoded, le_rfl⟩
  | cons value sublist induction =>
    obtain ⟨first, head, tail⟩ := bind_eq_ok.mp encoded
    obtain ⟨others, more, same⟩ := bind_eq_ok.mp tail
    cases pure_eq_ok.mp same
    obtain ⟨shorter, put, bound⟩ := induction more
    exact ⟨shorter, put, bound.trans (by simp)⟩
  | cons_cons value sublist induction =>
    obtain ⟨first, head, tail⟩ := bind_eq_ok.mp encoded
    obtain ⟨others, more, same⟩ := bind_eq_ok.mp tail
    cases pure_eq_ok.mp same
    obtain ⟨shorter, put, bound⟩ := induction more
    refine ⟨first ++ shorter, ?_, by simpa using bound⟩
    exact bind_eq_ok.mpr ⟨first, head, bind_eq_ok.mpr ⟨shorter, put, rfl⟩⟩

end Writers

end Neuralbase.Library
