import Neuralbase.Library.Result
import Neuralbase.Library.Utf8

namespace Neuralbase.Vectorized

open Neuralbase.Library

/-! Columns and batches of rows (`vectorized.rs`).  An integer of a column is only compared, copied
and printed, so its width is left out; an `f64` is kept as its bits. -/

/-- What a call ends with instead of a value.  An index out of range stops the thread. -/
inductive Failure where
  | indexOutOfRange
  | columnTypeMismatch (column : String)
  | columnLengthMismatch
  | batchOverflow (rows : Nat)
deriving DecidableEq

structure Utf8Column where
  offsets : List UInt32
  data : List UInt8
  validity : List Bool
deriving DecidableEq

namespace Utf8Column

/-- One round of the loop of `from_options`.  The offset is narrowed to 32 bits. -/
def push (column : Utf8Column) (value : Option String) : Utf8Column :=
  let data := column.data ++ value.elim [] utf8
  { offsets := column.offsets ++ [UInt32.ofNat data.length]
    data
    validity := column.validity ++ [value.isSome] }

def fromOptions (values : List (Option String)) : Utf8Column :=
  values.foldl push { offsets := [0], data := [], validity := [] }

def len (column : Utf8Column) : Nat := column.validity.length

def get (column : Utf8Column) (index : Nat) : Except Failure (Option String) :=
  if column.validity.getD index false then
    match column.offsets[index]?, column.offsets[index + 1]? with
    | some start, some stop =>
      if start ≤ stop ∧ stop.toNat ≤ column.data.length then
        .ok (fromUtf8 ((column.data.take stop.toNat).drop start.toNat))
      else .error .indexOutOfRange
    | _, _ => .ok none
  else .ok none

end Utf8Column

inductive ColumnVector where
  | int32 (values : List (Option Int))
  | int64 (values : List (Option Int))
  | float64 (values : List (Option UInt64))
  | date32 (values : List (Option Int))
  | utf8 (column : Utf8Column)
deriving DecidableEq

/-- `values[i]`. -/
def valueAt {α : Type} (values : List α) (index : Nat) : Except Failure α :=
  match values[index]? with
  | some value => .ok value
  | none => .error .indexOutOfRange

namespace ColumnVector

def len : ColumnVector → Nat
  | .int32 values => values.length
  | .int64 values => values.length
  | .float64 values => values.length
  | .date32 values => values.length
  | .utf8 column => column.len

def take (column : ColumnVector) (indices : List Nat) : Except Failure ColumnVector :=
  match column with
  | .int32 values => (indices.mapM (valueAt values)).map .int32
  | .int64 values => (indices.mapM (valueAt values)).map .int64
  | .float64 values => (indices.mapM (valueAt values)).map .float64
  | .date32 values => (indices.mapM (valueAt values)).map .date32
  | .utf8 column => (indices.mapM column.get).map fun taken => .utf8 (.fromOptions taken)

end ColumnVector

structure RecordBatch where
  columns : List (String × ColumnVector)
  rowCount : Nat
deriving DecidableEq

def eqIgnoreAsciiCase (left right : String) : Bool :=
  left.toList.map Char.toLower == right.toList.map Char.toLower

namespace RecordBatch

/-- Every column has as many values as the first one. -/
def new (columns : List (String × ColumnVector)) : Except Failure RecordBatch :=
  let rowCount := (columns.head?.map fun column => column.2.len).getD 0
  if ∀ column ∈ columns, column.2.len = rowCount then .ok { columns, rowCount } else .error .columnLengthMismatch

def empty : RecordBatch where
  columns := []
  rowCount := 0

def column (batch : RecordBatch) (name : String) : Option ColumnVector :=
  (batch.columns.find? fun column => eqIgnoreAsciiCase column.1 name).map Prod.snd

end RecordBatch

section Offsets

variable {values : List (Option String)} {value : Option String}

/-- The bytes of a value. -/
def textOf (value : Option String) : List UInt8 := value.elim [] utf8

def textBytes (values : List (Option String)) : Nat := (values.flatMap textOf).length

namespace Utf8Column

theorem fromOptions_concat : fromOptions (values ++ [value]) = (fromOptions values).push value := by
  rw [fromOptions, List.foldl_append]
  rfl

theorem fromOptions_eq (values : List (Option String)) : fromOptions values =
    { offsets := (List.range (values.length + 1)).map fun count => UInt32.ofNat (textBytes (values.take count))
      data := values.flatMap textOf
      validity := values.map Option.isSome } := by
  induction values using List.reverseRecOn with
  | nil => rfl
  | append_singleton values value induction =>
    rw [fromOptions_concat, induction, push]
    simp only [mk.injEq]
    refine ⟨?_, by simp [textOf], by simp⟩
    have longer : (values ++ [value]).length = values.length + 1 := by simp
    rw [longer]
    conv_rhs => rw [List.range_succ, List.map_append, List.map_singleton]
    have whole : (values ++ [value]).take (values.length + 1) = values ++ [value] :=
      List.take_of_length_le (by simp)
    congr 1
    · refine List.map_congr_left fun count inside => ?_
      rw [List.mem_range] at inside
      rw [List.take_append_of_le_length (by omega)]
    · rw [whole, textBytes]
      simp [textOf]

@[simp] theorem len_fromOptions : (fromOptions values).len = values.length := by
  rw [fromOptions_eq, len, List.length_map]

theorem textBytes_take_le (count : Nat) : textBytes (values.take count) ≤ textBytes values := by
  conv_rhs => rw [← List.take_append_drop count values]
  rw [textBytes, textBytes, List.flatMap_append, List.length_append]
  exact Nat.le_add_right _ _

theorem textBytes_take_succ {index : Nat} (found : values[index]? = some value) :
    textBytes (values.take (index + 1)) = textBytes (values.take index) + (textOf value).length := by
  rw [List.take_add_one, found]
  simp [textBytes]

/-- What was put in comes out, as long as the offsets fit 32 bits. -/
theorem get_fromOptions {index : Nat} (short : textBytes values < 2 ^ 32) (found : values[index]? = some value) :
    (fromOptions values).get index = .ok value := by
  have inside : index < values.length := (List.getElem?_eq_some_iff.mp found).1
  have fits (count : Nat) : (UInt32.ofNat (textBytes (values.take count))).toNat = textBytes (values.take count) :=
    UInt32.toNat_ofNat_of_lt' ((textBytes_take_le count).trans_lt short)
  rw [fromOptions_eq, get]
  simp only [List.getD_eq_getElem?_getD, List.getElem?_map, found, Option.map_some, Option.getD_some]
  cases value with
  | none => rfl
  | some text =>
    have first : (List.range (values.length + 1))[index]? = some index := List.getElem?_range (by omega)
    have second : (List.range (values.length + 1))[index + 1]? = some (index + 1) := List.getElem?_range (by omega)
    have step := textBytes_take_succ found
    have slice : (values.flatMap textOf).take (textBytes (values.take (index + 1))) =
        (values.take (index + 1)).flatMap textOf := by
      conv_lhs => rw [← List.take_append_drop (index + 1) values, List.flatMap_append]
      rw [List.take_append_drop]
      exact List.take_left' rfl
    have ends : textBytes (values.take (index + 1)) ≤ (values.flatMap textOf).length := textBytes_take_le _
    have ordered : UInt32.ofNat (textBytes (values.take index)) ≤ UInt32.ofNat (textBytes (values.take (index + 1))) := by
      rw [UInt32.le_iff_toNat_le, fits, fits]
      omega
    simp only [Option.isSome_some, if_true, first, second, Option.map_some, fits]
    rw [if_pos ⟨ordered, ends⟩, slice, List.take_add_one, found]
    simp only [Option.toList_some, List.flatMap_append, List.flatMap_singleton]
    rw [textBytes, List.drop_left]
    exact congrArg Except.ok fromUtf8_utf8

/-- A text that was read is a slice between two offsets. -/
theorem textOf_lt {column : Utf8Column} {index : Nat} (found : column.get index = .ok value) :
    (textOf value).length < 2 ^ 32 := by
  cases value with
  | none => decide
  | some text =>
    unfold get at found
    split_ifs at found
    · split at found
      · rename_i stop _ _
        split_ifs at found
        have bytes := utf8_of_fromUtf8 (Except.ok.inj found)
        have length : (textOf (some text)).length ≤ stop.toNat := by
          rw [textOf, Option.elim_some, bytes, List.length_drop, List.length_take]
          omega
        exact length.trans_lt stop.toNat_lt
      · cases found
    · cases found

/-- The row at which the offsets pass 32 bits ends before it starts. -/
theorem get_passing {index : Nat} (found : values[index]? = some value) (small : (textOf value).length < 2 ^ 32)
    (before : textBytes (values.take index) < 2 ^ 32) (after : 2 ^ 32 ≤ textBytes (values.take (index + 1))) :
    (fromOptions values).get index = .error .indexOutOfRange := by
  have inside : index < values.length := (List.getElem?_eq_some_iff.mp found).1
  have step := textBytes_take_succ found
  rw [fromOptions_eq, get]
  simp only [List.getD_eq_getElem?_getD, List.getElem?_map, found, Option.map_some, Option.getD_some]
  cases value with
  | none =>
    simp only [textOf, Option.elim_none, List.length_nil] at step
    omega
  | some text =>
    have first : (List.range (values.length + 1))[index]? = some index := List.getElem?_range (by omega)
    have second : (List.range (values.length + 1))[index + 1]? = some (index + 1) := List.getElem?_range (by omega)
    have start : (UInt32.ofNat (textBytes (values.take index))).toNat = textBytes (values.take index) :=
      UInt32.toNat_ofNat_of_lt' before
    have stop : (UInt32.ofNat (textBytes (values.take (index + 1)))).toNat =
        textBytes (values.take (index + 1)) - 2 ^ 32 := by
      rw [UInt32.toNat_ofNat', Nat.mod_eq_sub_mod after, Nat.mod_eq_of_lt (by omega)]
    have backwards : ¬ UInt32.ofNat (textBytes (values.take index)) ≤
        UInt32.ofNat (textBytes (values.take (index + 1))) := by
      rw [UInt32.le_iff_toNat_le, start, stop]
      omega
    simp only [Option.isSome_some, if_true, first, second, Option.map_some]
    rw [if_neg fun both => backwards both.1]

/-- If every value can be read the offsets fit 32 bits. -/
theorem textBytes_lt_of_get (small : ∀ value ∈ values, (textOf value).length < 2 ^ 32)
    (readable : ∀ index < values.length, ∃ value, (fromOptions values).get index = .ok value) :
    textBytes values < 2 ^ 32 := by
  have each (count : Nat) (within : count ≤ values.length) : textBytes (values.take count) < 2 ^ 32 := by
    induction count with
    | zero => simp [textBytes]
    | succ index induction =>
      have before := induction (by omega)
      by_contra after
      have found : values[index]? = some (values.get ⟨index, within⟩) := List.getElem?_eq_getElem within
      obtain ⟨value, read⟩ := readable index within
      rw [get_passing found (small _ (List.get_mem _ _)) before (not_lt.mp after)] at read
      cases read
  have whole := each values.length le_rfl
  rwa [List.take_length] at whole

/-- What was put in comes out exactly if the offsets fit 32 bits. -/
theorem get_fromOptions_iff : (∀ index value, values[index]? = some value → (fromOptions values).get index = .ok value) ↔
    textBytes values < 2 ^ 32 := by
  constructor
  · intro reads
    apply textBytes_lt_of_get
    · intro value inside
      obtain ⟨index, found⟩ := List.mem_iff_getElem?.mp inside
      exact textOf_lt (reads index value found)
    · intro index within
      exact ⟨_, reads index _ (List.getElem?_eq_getElem within)⟩
  · intro short index value
    exact get_fromOptions short

end Utf8Column

end Offsets

section Cells

/-- The value of a column in one row. -/
inductive Cell where
  | int32 (value : Option Int)
  | int64 (value : Option Int)
  | float64 (value : Option UInt64)
  | date32 (value : Option Int)
  | text (value : Option String)
deriving DecidableEq

def ColumnVector.read (column : ColumnVector) (index : Nat) : Except Failure Cell :=
  match column with
  | .int32 values => (valueAt values index).map .int32
  | .int64 values => (valueAt values index).map .int64
  | .float64 values => (valueAt values index).map .float64
  | .date32 values => (valueAt values index).map .date32
  | .utf8 column => (column.get index).map .text

/-- The bytes of text in the rows. -/
def ColumnVector.bytes (column : ColumnVector) (indices : List Nat) : Nat :=
  (indices.map fun index => match column.read index with
    | .ok (.text value) => (textOf value).length
    | _ => 0).sum

def RecordBatch.row (batch : RecordBatch) (index : Nat) : Except Failure (List Cell) :=
  batch.columns.mapM fun column => column.2.read index

/-- What `RecordBatch::new` and the columns' own constructors give: columns of one length whose cells
can be read. -/
structure RecordBatch.WellFormed (batch : RecordBatch) : Prop where
  length : ∀ column ∈ batch.columns, column.2.len = batch.rowCount
  readable : ∀ column ∈ batch.columns, ∀ index < batch.rowCount, ∃ cell, column.2.read index = .ok cell

variable {α : Type} {values : List α} {indices : List Nat} {index : Nat}

/-- Reading in bulk gives what reading one by one gives. -/
theorem mapM_at {f : Nat → Except Failure α} (every : ∀ index ∈ indices, ∃ a, f index = .ok a) :
    ∃ taken : List α, indices.mapM f = .ok taken ∧ taken.length = indices.length ∧
      ∀ (n index : Nat), indices[n]? = some index → ∃ a, f index = .ok a ∧ taken[n]? = some a := by
  induction indices with
  | nil => exact ⟨[], rfl, rfl, by simp⟩
  | cons first indices induction =>
    obtain ⟨a, found⟩ := every first List.mem_cons_self
    obtain ⟨taken, read, length, each⟩ := induction fun index inside => every index (List.mem_cons_of_mem _ inside)
    refine ⟨a :: taken, ?_, by simp [length], ?_⟩
    · rw [List.mapM_cons, found, read]
      rfl
    · intro n index at_n
      cases n with
      | zero =>
        cases at_n
        exact ⟨a, found, rfl⟩
      | succ n => exact each n index at_n

theorem valueAt_of_getElem? {a : α} (found : values[index]? = some a) : valueAt values index = .ok a := by
  rw [valueAt, found]

end Cells

section Take

variable {column : ColumnVector} {indices : List Nat}

theorem ColumnVector.bytes_eq_zero (plain : ∀ index value, column.read index ≠ .ok (.text value)) :
    column.bytes indices = 0 := by
  rw [bytes, List.sum_eq_zero]
  intro size inside
  obtain ⟨index, _, rfl⟩ := List.mem_map.mp inside
  split
  · rename_i found
    exact absurd found (plain index _)
  · rfl

/-- A column taken at some rows has the cells of these rows exactly if its text fits the offsets. -/
theorem ColumnVector.take_ok (readable : ∀ index ∈ indices, ∃ cell, column.read index = .ok cell) :
    ∃ taken, column.take indices = .ok taken ∧ taken.len = indices.length ∧
      (column.bytes indices < 2 ^ 32 → ∀ n index, indices[n]? = some index → taken.read n = column.read index) ∧
      ((∀ n < indices.length, ∃ cell, taken.read n = .ok cell) → column.bytes indices < 2 ^ 32) := by
  have plain {α : Type} {values : List α} (make : α → Cell) (other : ∀ a text, make a ≠ .text text)
      (each : ∀ index, column.read index = (valueAt values index).map make) :
      ∃ taken, indices.mapM (valueAt values) = .ok taken ∧ taken.length = indices.length ∧
        (∀ n index, indices[n]? = some index → (valueAt taken n).map make = column.read index) ∧
        column.bytes indices < 2 ^ 32 := by
    have every : ∀ index ∈ indices, ∃ a, valueAt values index = .ok a := by
      intro index inside
      obtain ⟨cell, read⟩ := readable index inside
      rw [each] at read
      obtain ⟨a, found, _⟩ := map_eq_ok.mp read
      exact ⟨a, found⟩
    obtain ⟨taken, read, length, same⟩ := mapM_at every
    refine ⟨taken, read, length, fun n index place => ?_, ?_⟩
    · obtain ⟨a, found, there⟩ := same n index place
      rw [each, found, valueAt_of_getElem? there]
    · rw [bytes_eq_zero]
      · decide
      · intro index text found
        rw [each] at found
        obtain ⟨a, _, made⟩ := map_eq_ok.mp found
        exact other a text made
  cases column with
  | int32 values =>
    obtain ⟨taken, read, length, same, short⟩ := plain .int32 nofun fun _ => rfl
    exact ⟨.int32 taken, by rw [take, read]; rfl, length, fun _ => same, fun _ => short⟩
  | int64 values =>
    obtain ⟨taken, read, length, same, short⟩ := plain .int64 nofun fun _ => rfl
    exact ⟨.int64 taken, by rw [take, read]; rfl, length, fun _ => same, fun _ => short⟩
  | float64 values =>
    obtain ⟨taken, read, length, same, short⟩ := plain .float64 nofun fun _ => rfl
    exact ⟨.float64 taken, by rw [take, read]; rfl, length, fun _ => same, fun _ => short⟩
  | date32 values =>
    obtain ⟨taken, read, length, same, short⟩ := plain .date32 nofun fun _ => rfl
    exact ⟨.date32 taken, by rw [take, read]; rfl, length, fun _ => same, fun _ => short⟩
  | utf8 texts =>
    have every : ∀ index ∈ indices, ∃ text, texts.get index = .ok text := by
      intro index inside
      obtain ⟨cell, read⟩ := readable index inside
      obtain ⟨text, found, _⟩ := map_eq_ok.mp read
      exact ⟨text, found⟩
    obtain ⟨taken, all, length, same⟩ := mapM_at every
    have size : textBytes taken = (ColumnVector.utf8 texts).bytes indices := by
      rw [textBytes, List.length_flatMap, bytes]
      refine congrArg List.sum (List.ext_getElem? fun n => ?_)
      rw [List.getElem?_map, List.getElem?_map]
      cases place : indices[n]? with
      | none => rw [List.getElem?_eq_none (length ▸ List.getElem?_eq_none_iff.mp place)]; rfl
      | some index =>
        obtain ⟨text, found, there⟩ := same n index place
        rw [there, Option.map_some, Option.map_some, read, found]
        rfl
    refine ⟨.utf8 (.fromOptions taken), by rw [take, all]; rfl, by rw [len, Utf8Column.len_fromOptions, length],
      fun short n index place => ?_, fun reads => ?_⟩
    · obtain ⟨text, found, there⟩ := same n index place
      rw [ColumnVector.read, ColumnVector.read, found, Utf8Column.get_fromOptions (size ▸ short) there]
    · rw [← size]
      apply Utf8Column.textBytes_lt_of_get
      · intro value inside
        obtain ⟨n, within, rfl⟩ := List.getElem_of_mem inside
        obtain ⟨text, found, there⟩ := same n _ (List.getElem?_eq_getElem (length ▸ within))
        rw [List.getElem?_eq_getElem within] at there
        cases there
        exact Utf8Column.textOf_lt found
      · intro n within
        obtain ⟨cell, got⟩ := reads n (length ▸ within)
        obtain ⟨value, found, _⟩ := map_eq_ok.mp got
        exact ⟨value, found⟩

end Take

section Batches

theorem new_ok {columns : List (String × ColumnVector)} {count : Nat} (some_column : columns ≠ [])
    (lengths : ∀ column ∈ columns, column.2.len = count) :
    RecordBatch.new columns = .ok { columns, rowCount := count } := by
  obtain ⟨first, rest, rfl⟩ := List.exists_cons_of_ne_nil some_column
  have same := lengths first List.mem_cons_self
  simp only [RecordBatch.new, List.head?_cons, Option.map_some, Option.getD_some, same]
  rw [if_pos lengths]

theorem column_mem {batch : RecordBatch} {name : String} {column : ColumnVector}
    (found : batch.column name = some column) : ∃ label, (label, column) ∈ batch.columns := by
  obtain ⟨⟨label, _⟩, find, rfl⟩ := Option.map_eq_some_iff.mp found
  exact ⟨label, List.mem_of_find?_eq_some find⟩

end Batches

end Neuralbase.Vectorized
