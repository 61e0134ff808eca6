import Neuralbase.Query.Ast
import Neuralbase.Vectorized

namespace Neuralbase.Query

open Neuralbase.Library Neuralbase.Vectorized

/-! From the rows of a query to the texts sent to the client: `query_result_to_batch`, and the rows
of `batch_to_pg_rows`.  A column's type is the type of its first value that is not NULL. -/

section Model

/-- What the standard library does with an `f64`. -/
structure Formats where
  ofInt : Int → UInt64
  /-- `format!("{f:.4}")`. -/
  fourDigits : UInt64 → String

variable (formats : Formats)

def isNull {F : Type} : ScalarVal F → Bool
  | .null => true
  | _ => false

/-- A value in a text column. -/
def textForm : ScalarVal UInt64 → Option String
  | .text text => some text
  | .int value => some (toString value)
  | .float value => some (formats.fourDigits value)
  | .date days => some (toString days)
  | .bool value => some (toString value)
  | .null => none

def asInt {F : Type} : ScalarVal F → Option Int
  | .int value => some value
  | _ => none

def asDate {F : Type} : ScalarVal F → Option Int
  | .date days => some days
  | _ => none

def asFloat : ScalarVal UInt64 → Option UInt64
  | .float value => some value
  | .int value => some (formats.ofInt value)
  | _ => none

def asFlag {F : Type} : ScalarVal F → Option Int
  | .bool value => some (if value then 1 else 0)
  | .int value => some value
  | _ => none

def inferColumnVector (values : List (ScalarVal UInt64)) : ColumnVector :=
  match values.find? fun value => !isNull value with
  | some (.int _) | none => .int64 (values.map asInt)
  | some (.float _) => .float64 (values.map (asFloat formats))
  | some (.date _) => .date32 (values.map asDate)
  | some (.bool _) => .int64 (values.map asFlag)
  | some _ => .utf8 (.fromOptions (values.map (textForm formats)))

structure ResultRows where
  columns : List String
  rows : List (List (ScalarVal UInt64))

/-- The values of one column. -/
def ResultRows.column (result : ResultRows) (j : Nat) : List (ScalarVal UInt64) :=
  result.rows.filterMap fun row => row[j]?

def batchColumns (result : ResultRows) : List (String × ColumnVector) :=
  result.columns.zipIdx.map fun entry => (entry.1, inferColumnVector formats (result.column entry.2))

def queryResultToBatch (result : ResultRows) : Except Failure RecordBatch :=
  if result.rows.isEmpty then .ok .empty
  -- a value for which there is no column is out of range
  else if ∃ row ∈ result.rows, result.columns.length < row.length then .error .indexOutOfRange
  else
    match RecordBatch.new (batchColumns formats result) with
    | .ok batch => .ok batch
    | .error _ => .ok .empty

def cellText : Cell → Option String
  | .int32 value => value.map toString
  | .int64 value => value.map toString
  | .float64 value => value.map formats.fourDigits
  | .date32 value => value.map toString
  | .text value => value

def rowsAsStrings (batch : RecordBatch) : Except Failure (List (List (Option String))) :=
  (List.range batch.rowCount).mapM fun index =>
    batch.columns.mapM fun column => (column.2.read index).map (cellText formats)

/-- The rows the client gets. -/
def deliver (result : ResultRows) : Except Failure (List (List (Option String))) :=
  queryResultToBatch formats result >>= rowsAsStrings formats

end Model

section Columns

variable {formats : Formats} {values : List (ScalarVal UInt64)}

/-- A column of whole numbers, of dates, or of text that fits the offsets with anything else in it. -/
def Sendable (formats : Formats) (values : List (ScalarVal UInt64)) : Prop :=
  match values.find? fun value => !isNull value with
  | none => True
  | some (.int _) => ∀ value ∈ values, isNull value = true ∨ (asInt value).isSome = true
  | some (.date _) => ∀ value ∈ values, isNull value = true ∨ (asDate value).isSome = true
  | some (.text _) => textBytes (values.map (textForm formats)) < 2 ^ 32
  | some _ => False

instance decidableSendable (values : List (ScalarVal UInt64)) : Decidable (Sendable formats values) := by
  unfold Sendable
  split <;> infer_instance

def isFloat {F : Type} : ScalarVal F → Bool
  | .float _ => true
  | _ => false

theorem len_inferColumnVector : (inferColumnVector formats values).len = values.length := by
  rw [inferColumnVector]
  split <;> simp [ColumnVector.len]

theorem asInt_toString {value : ScalarVal UInt64} :
    (asInt value).map toString = textForm formats value ↔ isNull value = true ∨ (asInt value).isSome = true := by
  cases value <;> simp [asInt, isNull, textForm]

theorem asDate_toString {value : ScalarVal UInt64} :
    (asDate value).map toString = textForm formats value ↔ isNull value = true ∨ (asDate value).isSome = true := by
  cases value <;> simp [asDate, isNull, textForm]

/-- A truth value is sent as a number. -/
theorem asFlag_toString (value : Bool) :
    (asFlag (.bool value : ScalarVal UInt64)).map toString ≠ textForm formats (.bool value) := by
  cases value
  · exact (by decide : some (toString (0 : Int)) ≠ some (toString false))
  · exact (by decide : some (toString (1 : Int)) ≠ some (toString true))

/-- A column gives back the text of each of its values exactly if it is sendable. -/
theorem read_inferColumnVector (whole : ∀ value ∈ values, isFloat value = false) :
    (∀ (index : Nat) value, values[index]? = some value →
      ((inferColumnVector formats values).read index).map (cellText formats) = .ok (textForm formats value)) ↔
    Sendable formats values := by
  have mapped {β : Type} (f : ScalarVal UInt64 → β) {index : Nat} {value : ScalarVal UInt64}
      (found : values[index]? = some value) : valueAt (values.map f) index = .ok (f value) :=
    valueAt_of_getElem? (by rw [List.getElem?_map, found]; rfl)
  have each {P : ScalarVal UInt64 → Prop} :
      (∀ (index : Nat) value, values[index]? = some value → P value) ↔ ∀ value ∈ values, P value := by
    simp only [List.mem_iff_getElem?, forall_exists_index]
    exact forall_comm
  rw [Sendable, inferColumnVector]
  cases first : values.find? (fun value => !isNull value) with
  | none =>
    refine iff_of_true (fun index value found => ?_) trivial
    have null : isNull value = true := by simpa using List.find?_eq_none.mp first value (List.mem_of_getElem? found)
    simp only [ColumnVector.read, mapped _ found]
    exact congrArg Except.ok (asInt_toString.mpr (.inl null))
  | some head =>
    cases head with
    | int _ =>
      refine (forall₃_congr fun index value found => ?_).trans each
      simp only [ColumnVector.read, mapped _ found]
      exact ⟨fun sent => asInt_toString.mp (Except.ok.inj sent), fun whole => congrArg Except.ok (asInt_toString.mpr whole)⟩
    | date _ =>
      refine (forall₃_congr fun index value found => ?_).trans each
      simp only [ColumnVector.read, mapped _ found]
      exact ⟨fun sent => asDate_toString.mp (Except.ok.inj sent), fun dated => congrArg Except.ok (asDate_toString.mpr dated)⟩
    | text _ =>
      rw [← Utf8Column.get_fromOptions_iff]
      simp only [List.getElem?_map, Option.map_eq_some_iff, forall_exists_index, and_imp, forall_apply_eq_imp_iff₂]
      refine forall₃_congr fun index value found => ?_
      simp only [ColumnVector.read]
      cases (Utf8Column.fromOptions (values.map (textForm formats))).get index with
      | error failure => simp [Except.map]
      | ok text => simp [Except.map, cellText]
    | bool value =>
      refine iff_of_false (fun reads => ?_) id
      obtain ⟨index, found⟩ := List.mem_iff_getElem?.mp (List.mem_of_find?_eq_some first)
      have sent := reads index _ found
      simp only [ColumnVector.read, mapped _ found] at sent
      exact asFlag_toString value (Except.ok.inj sent)
    | float _ => cases whole _ (List.mem_of_find?_eq_some first)
    | null => simpa [isNull] using List.find?_some first

end Columns

section Rows

variable {formats : Formats} {result : ResultRows} {j index : Nat}

theorem column_getElem? (wide : ∀ row ∈ result.rows, j < row.length) (index : Nat) :
    (result.column j)[index]? = result.rows[index]?.bind fun row => row[j]? := by
  rw [ResultRows.column]
  generalize result.rows = rows at wide
  induction rows generalizing index with
  | nil => rfl
  | cons row rows induction =>
    have found : row[j]? = some _ := List.getElem?_eq_getElem (wide row List.mem_cons_self)
    have skip : (row :: rows).filterMap (fun row => row[j]?) = _ :: rows.filterMap fun row => row[j]? :=
      List.filterMap_cons_some found
    rw [skip]
    cases index with
    | zero => simp [found]
    | succ index => simpa using induction index fun other inside => wide other (List.mem_cons_of_mem _ inside)

theorem column_length (wide : ∀ row ∈ result.rows, j < row.length) : (result.column j).length = result.rows.length := by
  rw [ResultRows.column]
  generalize result.rows = rows at wide
  induction rows with
  | nil => rfl
  | cons row rows induction =>
    have skip : (row :: rows).filterMap (fun row => row[j]?) = _ :: rows.filterMap fun row => row[j]? :=
      List.filterMap_cons_some (List.getElem?_eq_getElem (wide row List.mem_cons_self))
    rw [skip, List.length_cons, induction fun other inside => wide other (List.mem_cons_of_mem _ inside), List.length_cons]

/-- The rows have a value for each column. -/
def ResultRows.Square (result : ResultRows) : Prop :=
  ∀ row ∈ result.rows, row.length = result.columns.length

theorem ResultRows.Square.wide (square : result.Square) (inside : j < result.columns.length) :
    ∀ row ∈ result.rows, j < row.length :=
  fun row member => (square row member).symm ▸ inside

theorem len_batchColumns (square : result.Square) (column : String × ColumnVector)
    (member : column ∈ batchColumns formats result) : column.2.len = result.rows.length := by
  obtain ⟨⟨name, j⟩, inside, rfl⟩ := List.mem_map.mp member
  have bound := (List.getElem?_eq_some_iff.mp (List.mem_zipIdx_iff_getElem?.mp inside)).1
  exact len_inferColumnVector.trans (column_length (square.wide bound))

/-- One row as it is sent. -/
theorem row_batchColumns {row : List (ScalarVal UInt64)} (square : result.Square)
    (found : result.rows[index]? = some row) :
    (batchColumns formats result).mapM (fun column => (column.2.read index).map (cellText formats)) =
        .ok (row.map (textForm formats)) ↔
      ∀ j < result.columns.length, ∀ value, (result.column j)[index]? = some value →
        ((inferColumnVector formats (result.column j)).read index).map (cellText formats) = .ok (textForm formats value) := by
  have width := square row (List.mem_of_getElem? found)
  have at_row (j : Nat) (bound : j < result.columns.length) : (result.column j)[index]? = row[j]? := by
    rw [column_getElem? (square.wide bound), found]
    rfl
  rw [mapM_eq_ok, List.forall₂_iff_get]
  constructor
  · intro ⟨_, each⟩ j bound value there
    rw [at_row j bound] at there
    obtain ⟨inside, rfl⟩ := List.getElem?_eq_some_iff.mp there
    simpa [batchColumns] using each j (by simpa [batchColumns] using bound) (by simpa using inside)
  · refine fun each => ⟨by simp [batchColumns, width], fun j first second => ?_⟩
    have bound : j < result.columns.length := by simpa [batchColumns] using first
    have inside : j < row.length := by simpa using second
    simpa [batchColumns] using each j bound _ ((at_row j bound).trans (List.getElem?_eq_getElem inside))

/-- The rows arrive exactly if the text of every value comes out of its column. -/
theorem deliver_square (square : result.Square) (named : 0 < result.columns.length) (some_row : result.rows ≠ []) :
    deliver formats result = .ok (result.rows.map fun row => row.map (textForm formats)) ↔
      ∀ j < result.columns.length, ∀ (index : Nat) value, (result.column j)[index]? = some value →
        ((inferColumnVector formats (result.column j)).read index).map (cellText formats) = .ok (textForm formats value) := by
  have fits : ¬ ∃ row ∈ result.rows, result.columns.length < row.length := by
    intro ⟨row, member, longer⟩
    exact absurd (square row member) longer.ne'
  have some_column : batchColumns formats result ≠ [] := by
    apply List.ne_nil_of_length_pos
    simpa [batchColumns] using named
  have made : queryResultToBatch formats result =
      .ok { columns := batchColumns formats result, rowCount := result.rows.length } := by
    rw [queryResultToBatch, if_neg (by simpa using some_row), if_neg fits, new_ok some_column (len_batchColumns square)]
  rw [deliver, made]
  show (List.range result.rows.length).mapM _ = _ ↔ _
  rw [mapM_eq_ok, List.forall₂_iff_get]
  constructor
  · intro ⟨_, each⟩ j bound index value there
    rw [column_getElem? (square.wide bound)] at there
    obtain ⟨row, found, inside⟩ := Option.bind_eq_some_iff.mp there
    obtain ⟨below, rfl⟩ := List.getElem?_eq_some_iff.mp found
    refine (row_batchColumns square found).mp ?_ j bound value ?_
    · simpa using each index (by simpa using below) (by simpa using below)
    · rw [column_getElem? (square.wide bound)]
      exact there
  · refine fun each => ⟨by simp, fun index first second => ?_⟩
    have below : index < result.rows.length := by simpa using first
    simpa using (row_batchColumns square (List.getElem?_eq_getElem below)).mpr fun j bound => each j bound index

/-- Rows that are not as wide as the list of names do not arrive. -/
theorem deliver_ragged {width : Nat} (equal : ∀ row ∈ result.rows, row.length = width) (some_row : result.rows ≠ [])
    (ragged : ¬ (0 < width ∧ width = result.columns.length)) (sent : List (List (Option String)))
    (delivered : deliver formats result = .ok sent) : sent = [] := by
  obtain ⟨first, rest, rows⟩ := List.exists_cons_of_ne_nil some_row
  have inside : first ∈ result.rows := by simp [rows]
  obtain ⟨batch, made, sends⟩ := bind_eq_ok.mp delivered
  suffices none_left : batch.rowCount = 0 by
    rw [rowsAsStrings, none_left] at sends
    exact (pure_eq_ok.mp sends).symm
  rw [queryResultToBatch, if_neg (by simpa using some_row)] at made
  split_ifs at made with longer
  have narrow : width ≤ result.columns.length := by
    by_contra wide
    exact longer ⟨first, inside, by rw [equal first inside]; omega⟩
  -- a column beyond the rows has no value, so all columns are empty or their lengths differ
  split at made
  · rename_i same built
    cases made
    rw [RecordBatch.new] at built
    split_ifs at built with lengths
    cases built
    by_cases named : result.columns.length = 0
    · rw [batchColumns, List.length_eq_zero_iff.mp named]
      rfl
    · have last : (batchColumns formats result).getLast? = some
          (result.columns.getLast (by simpa using named),
            inferColumnVector formats (result.column (result.columns.length - 1))) := by
        simp [batchColumns, List.getLast?_eq_getElem?, List.getLast_eq_getElem, Nat.pos_of_ne_zero named]
      have empty : result.column (result.columns.length - 1) = [] := by
        rw [ResultRows.column, List.filterMap_eq_nil_iff]
        intro row member
        rw [List.getElem?_eq_none_iff, equal row member]
        omega
      have length := lengths _ (List.mem_of_getLast? last)
      rw [len_inferColumnVector, empty] at length
      exact length.symm
  · cases made
    rfl

/-- Every row arrives, with NULL and text where the result has them, exactly if there is no row, or
there is a column for each value and every column is sendable. -/
theorem deliver_rows (formats : Formats) (result : ResultRows) (width : Nat)
    (equal : ∀ row ∈ result.rows, row.length = width) (whole : ∀ row ∈ result.rows, ∀ value ∈ row, isFloat value = false) :
    deliver formats result = .ok (result.rows.map fun row => row.map (textForm formats)) ↔
      result.rows = [] ∨ 0 < width ∧ width = result.columns.length ∧
        ∀ j < result.columns.length, Sendable formats (result.column j) := by
  by_cases empty : result.rows = []
  · refine iff_of_true ?_ (.inl empty)
    rw [deliver, queryResultToBatch, if_pos (by simp [empty]), empty]
    rfl
  rw [or_iff_right empty, ← and_assoc]
  by_cases fits : 0 < width ∧ width = result.columns.length
  · obtain ⟨named, rfl⟩ := fits
    rw [deliver_square equal named empty, and_iff_right ⟨named, rfl⟩]
    refine forall₂_congr fun j bound => read_inferColumnVector fun value inside => ?_
    obtain ⟨row, member, found⟩ := List.mem_filterMap.mp inside
    exact whole row member value (List.mem_of_getElem? found)
  · refine iff_of_false (fun delivered => ?_) fun both => fits both.1
    exact empty (List.map_eq_nil_iff.mp (deliver_ragged equal empty fits _ delivered))

def plainFormats : Formats where
  ofInt _ := 0
  fourDigits _ := ""

theorem deliver_two_rows : deliver plainFormats ⟨["n", "t"], [[.int 1, .text "a"], [.null, .int 2]]⟩ =
    .ok [[some (toString (1 : Int)), some "a"], [none, some (toString (2 : Int))]] :=
  (deliver_rows plainFormats ⟨["n", "t"], [[.int 1, .text "a"], [.null, .int 2]]⟩ 2 (by decide) (by decide)).mpr
    (.inr ⟨by decide, rfl, by decide +kernel⟩)

/-- The first value is a number, so the text after it is sent as NULL. -/
theorem deliver_mixed_loses_text :
    deliver plainFormats ⟨["v"], [[.int 1], [.text "a"]]⟩ = .ok [[some (toString (1 : Int))], [none]] := rfl

end Rows

end Neuralbase.Query
