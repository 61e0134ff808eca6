import Neuralbase.Scheduler
import Neuralbase.Vectorized

namespace Neuralbase.Vectorized

open Neuralbase.Library Neuralbase.Scheduler

section Model

inductive Predicate where
  | eqI64 (column : String) (value : Int)
  | gtI64 (column : String) (value : Int)
  | ltI64 (column : String) (value : Int)
  | betweenDate32 (column : String) (start endExclusive : Int)
  | betweenFloat64 (column : String) (low high : UInt64)
  | eqText (column : String) (value : String)

inductive ComparisonOp where
  | gt
  | lt
  | eq

def i64MaskScalar (values : List (Option Int)) (criterion : Int) (op : ComparisonOp) : List Bool :=
  values.map fun value => (value.map fun x => match op with
    | .gt => decide (criterion < x)
    | .lt => decide (x < criterion)
    | .eq => decide (x = criterion)).getD false

/-- The operator is found out by trying the comparison. -/
def opOf (cmp : Int → Int → Bool) : ComparisonOp :=
  if cmp 2 1 then .gt else if cmp 1 2 then .lt else .eq

def filterI64 (input : RecordBatch) (column : String) (criterion : Int) (cmp : Int → Int → Bool) :
    Except Failure (List Bool) :=
  match input.column column with
  | some (.int64 values) => .ok (i64MaskScalar values criterion (opOf cmp))
  | some (.int32 values) => .ok (values.map fun value => (value.map fun x => cmp x criterion).getD false)
  | _ => .error (.columnTypeMismatch column)

def eqCmp (value criterion : Int) : Bool := value = criterion

def gtCmp (value criterion : Int) : Bool := criterion < value

def ltCmp (value criterion : Int) : Bool := value < criterion

def betweenDates (start endExclusive days : Int) : Bool := start ≤ days && days < endExclusive

/-- `x >= low && x <= high` of three `f64`. -/
abbrev FloatRange := UInt64 → UInt64 → UInt64 → Bool

variable (within : FloatRange)

def filterMask (input : RecordBatch) : Predicate → Except Failure (List Bool)
  | .eqI64 column value => filterI64 input column value eqCmp
  | .gtI64 column value => filterI64 input column value gtCmp
  | .ltI64 column value => filterI64 input column value ltCmp
  | .betweenDate32 column start endExclusive =>
    match input.column column with
    | some (.date32 values) => .ok (values.map fun value => (value.map (betweenDates start endExclusive)).getD false)
    | _ => .error (.columnTypeMismatch column)
  | .betweenFloat64 column low high =>
    match input.column column with
    | some (.float64 values) => .ok (values.map fun value => (value.map (within low high)).getD false)
    | _ => .error (.columnTypeMismatch column)
  | .eqText column value =>
    match input.column column with
    | some (.utf8 texts) => (List.range input.rowCount).mapM fun i => (texts.get i).map fun text => text == some value
    | _ => .error (.columnTypeMismatch column)

def takeAll (input : RecordBatch) (indices : List Nat) : Except Failure RecordBatch := do
  let columns ← input.columns.mapM fun column => (column.2.take indices).map fun taken => (column.1, taken)
  RecordBatch.new columns

def filter (input : RecordBatch) (predicate : Predicate) : Except Failure RecordBatch :=
  if 10000000 < input.rowCount then .error (.batchOverflow input.rowCount)
  else do
    let mask ← filterMask within input predicate
    takeAll input (mask.zipIdx.filterMap fun entry => if entry.1 then some entry.2 else none)

def applyI64Indices (input : RecordBatch) (column : String) (criterion : Int) (indices : List Nat)
    (cmp : Int → Int → Bool) : Except Failure (List Bool) :=
  match input.column column with
  | some (.int64 values) | some (.int32 values) =>
    indices.mapM fun i => (valueAt values i).map fun value => (value.map fun x => cmp x criterion).getD false
  | _ => .ok (indices.map fun _ => false)

def applyPredicateToIndices (input : RecordBatch) (predicate : Predicate) (indices : List Nat) : Except Failure (List Bool) :=
  match predicate with
  | .eqI64 column value => applyI64Indices input column value indices eqCmp
  | .gtI64 column value => applyI64Indices input column value indices gtCmp
  | .ltI64 column value => applyI64Indices input column value indices ltCmp
  | .betweenDate32 column start endExclusive =>
    match input.column column with
    | some (.date32 values) =>
      indices.mapM fun i => (valueAt values i).map fun value => (value.map (betweenDates start endExclusive)).getD false
    | _ => .ok (indices.map fun _ => false)
  | .betweenFloat64 column low high =>
    match input.column column with
    | some (.float64 values) =>
      indices.mapM fun i => (valueAt values i).map fun value => (value.map (within low high)).getD false
    | _ => .ok (indices.map fun _ => false)
  | .eqText column value =>
    match input.column column with
    | some (.utf8 texts) => indices.mapM fun i => (texts.get i).map fun text => text == some value
    | _ => .ok (indices.map fun _ => false)

/-- The rows of one range that pass. -/
def filterRange (input : RecordBatch) (predicate : Predicate) (range : Range) : Except Failure (List Nat) :=
  (applyPredicateToIndices within input predicate range.indices).map fun mask =>
    (range.indices.zip mask).filterMap fun entry => if entry.2 then some entry.1 else none

/-- What `run_parallel_filter` may return. -/
def RunParallelFilter (input : RecordBatch) (predicate : Predicate) (scheduler : MorselScheduler)
    (result : Except Failure RecordBatch) : Prop :=
  ∃ chunks, ParallelMapRanges scheduler input.rowCount (filterRange within input predicate) chunks ∧
    result = do
      let indices ← chunks.mapM id
      takeAll input indices.flatten

end Model

section Masks

variable {within : FloatRange} {input : RecordBatch} {predicate : Predicate} {mask : List Bool} {indices : List Nat}

theorem i64MaskScalar_opOf {cmp : Int → Int → Bool} (named : cmp = eqCmp ∨ cmp = gtCmp ∨ cmp = ltCmp)
    (values : List (Option Int)) (criterion : Int) : i64MaskScalar values criterion (opOf cmp) =
      values.map fun value => (value.map fun x => cmp x criterion).getD false := by
  rcases named with rfl | rfl | rfl <;> rfl

/-- A test of each value, and the same test at some places. -/
theorem mapM_mask {α : Type} {values : List α} {test : α → Bool} (inside : ∀ i ∈ indices, i < values.length) :
    (indices.mapM fun i => (valueAt values i).map test) = .ok (indices.map fun i => (values.map test).getD i false) := by
  apply mapM_eq_map
  intro i member
  have below := inside i member
  rw [valueAt_of_getElem? (List.getElem?_eq_getElem below)]
  simp [Except.map, below]

theorem column_mask {α : Type} {name : String} {column : ColumnVector} {values : List α} {test : α → Bool}
    (rectangular : ∀ column ∈ input.columns, column.2.len = input.rowCount) (found : input.column name = some column)
    (length : column.len = values.length) (inside : ∀ i ∈ indices, i < input.rowCount) :
    (values.map test).length = input.rowCount ∧
      (indices.mapM fun i => (valueAt values i).map test) = .ok (indices.map fun i => (values.map test).getD i false) := by
  obtain ⟨label, member⟩ := column_mem found
  have size : values.length = input.rowCount := length.symm.trans (rectangular _ member)
  exact ⟨by rw [List.length_map, size], mapM_mask fun i member => size ▸ inside i member⟩

theorem applyI64Indices_eq {column : String} {criterion : Int} {cmp : Int → Int → Bool}
    (rectangular : ∀ column ∈ input.columns, column.2.len = input.rowCount)
    (named : cmp = eqCmp ∨ cmp = gtCmp ∨ cmp = ltCmp) (inside : ∀ i ∈ indices, i < input.rowCount)
    (masked : filterI64 input column criterion cmp = .ok mask) :
    mask.length = input.rowCount ∧
      applyI64Indices input column criterion indices cmp = .ok (indices.map fun i => mask.getD i false) := by
  rw [filterI64] at masked
  split at masked
  · next values found =>
    cases masked
    rw [i64MaskScalar_opOf named, applyI64Indices, found]
    exact column_mask rectangular found rfl inside
  · next values found =>
    cases masked
    rw [applyI64Indices, found]
    exact column_mask rectangular found rfl inside
  · cases masked

/-- The two evaluators agree on every row. -/
theorem applyPredicateToIndices_eq (rectangular : ∀ column ∈ input.columns, column.2.len = input.rowCount)
    (inside : ∀ i ∈ indices, i < input.rowCount) (masked : filterMask within input predicate = .ok mask) :
    mask.length = input.rowCount ∧
      applyPredicateToIndices within input predicate indices = .ok (indices.map fun i => mask.getD i false) := by
  cases predicate with
  | eqI64 column value => exact applyI64Indices_eq rectangular (.inl rfl) inside masked
  | gtI64 column value => exact applyI64Indices_eq rectangular (.inr (.inl rfl)) inside masked
  | ltI64 column value => exact applyI64Indices_eq rectangular (.inr (.inr rfl)) inside masked
  | betweenDate32 column start endExclusive =>
    rw [filterMask] at masked
    split at masked
    · next values found =>
      cases masked
      rw [applyPredicateToIndices, found]
      exact column_mask rectangular found rfl inside
    · cases masked
  | betweenFloat64 column low high =>
    rw [filterMask] at masked
    split at masked
    · next values found =>
      cases masked
      rw [applyPredicateToIndices, found]
      exact column_mask rectangular found rfl inside
    · cases masked
  | eqText column value =>
    rw [filterMask] at masked
    split at masked
    · next texts found =>
      rw [mapM_eq_ok, List.forall₂_iff_get] at masked
      obtain ⟨length, each⟩ := masked
      rw [List.length_range] at length
      rw [applyPredicateToIndices, found]
      refine ⟨length.symm, mapM_eq_map fun i member => ?_⟩
      have below := inside i member
      have tested := each i (by rwa [List.length_range]) (length ▸ below)
      rw [List.getD_eq_getElem _ _ (length ▸ below)]
      simpa using tested
    · cases masked

end Masks

section Agreement

variable {within : FloatRange} {input : RecordBatch} {predicate : Predicate} {mask : List Bool} {keep : Nat → Bool}
  {scheduler : MorselScheduler}

theorem filterMap_if (items : List Nat) :
    (items.filterMap fun i => if keep i then some i else none) = items.filter keep := by
  induction items with
  | nil => rfl
  | cons i items induction => by_cases kept : keep i <;> simp [kept, induction]

theorem zip_mask (items : List Nat) :
    ((items.zip (items.map keep)).filterMap fun entry => if entry.2 then some entry.1 else none) = items.filter keep := by
  induction items with
  | nil => rfl
  | cons i items induction => by_cases kept : keep i <;> simp [kept, induction]

theorem zipIdx_mask : (mask.zipIdx.filterMap fun entry => if entry.1 then some entry.2 else none) =
    (List.range mask.length).filter fun i => mask.getD i false := by
  have entries : mask.zipIdx = (List.range mask.length).map fun i => (mask.getD i false, i) := by
    refine List.ext_getElem (by simp) fun i first second => ?_
    have below : i < mask.length := by simpa using first
    simp [below]
  rw [entries, List.filterMap_map]
  exact filterMap_if _

theorem filter_flatMap (chunks : List Range) :
    (chunks.map fun range => range.indices.filter keep).flatten = (chunks.flatMap Range.indices).filter keep := by
  induction chunks with
  | nil => rfl
  | cons range chunks induction => rw [List.map_cons, List.flatten_cons, induction, List.flatMap_cons, List.filter_append]

theorem ranges_flatMap (positive : 0 < scheduler.morselSize) (total : Nat) :
    (scheduler.ranges total).flatMap Range.indices = List.range total := by
  rw [MorselScheduler.ranges, ranges_indices positive _ _ (Nat.sub_le _ _), Nat.sub_zero, List.range_eq_range']

/-- However the workers take turns, they end, and what they have filtered is what the sequential
filter returns. -/
theorem runParallelFilter_eq (within : FloatRange) (input : RecordBatch) (predicate : Predicate) (batch : RecordBatch)
    (rectangular : ∀ column ∈ input.columns, column.2.len = input.rowCount)
    (filtered : filter within input predicate = .ok batch) (scheduler : MorselScheduler)
    (some_worker : 0 < scheduler.workerThreads) (positive : 0 < scheduler.morselSize) :
    (∀ result, RunParallelFilter within input predicate scheduler result ↔ result = .ok batch) ∧
      ∀ events final, runs (step (filterRange within input predicate))
          (initial scheduler.workerThreads _ (scheduler.ranges input.rowCount)) events = some final →
        events.length ≤ 4 * (scheduler.ranges input.rowCount).length + 2 * scheduler.workerThreads := by
  rw [filter] at filtered
  split_ifs at filtered
  obtain ⟨mask, masked, taken⟩ := bind_eq_ok.mp filtered
  have rows : (scheduler.ranges input.rowCount).flatMap Range.indices = List.range input.rowCount :=
    ranges_flatMap positive _
  have nothing : ∀ i ∈ ([] : List Nat), i < input.rowCount := by simp
  have size : mask.length = input.rowCount := (applyPredicateToIndices_eq rectangular nothing masked).1
  have each : ∀ range ∈ scheduler.ranges input.rowCount, filterRange within input predicate range =
      .ok (range.indices.filter fun i => mask.getD i false) := by
    intro range listed
    have inside : ∀ i ∈ range.indices, i < input.rowCount := by
      intro i member
      rw [← List.mem_range, ← rows]
      exact List.mem_flatMap.mpr ⟨range, listed, member⟩
    rw [filterRange, (applyPredicateToIndices_eq rectangular inside masked).2]
    exact congrArg Except.ok (zip_mask _)
  have outcome : (((scheduler.ranges input.rowCount).map (filterRange within input predicate)).mapM id >>= fun indices =>
      takeAll input indices.flatten) = .ok batch := by
    have all : ((scheduler.ranges input.rowCount).map (filterRange within input predicate)).mapM id =
        .ok ((scheduler.ranges input.rowCount).map fun range => range.indices.filter fun i => mask.getD i false) := by
      rw [List.mapM_map]
      exact mapM_eq_map each
    rw [all, ← taken, zipIdx_mask, size, ← rows, ← filter_flatMap]
    rfl
  constructor
  · intro result
    constructor
    · intro ⟨chunks, ran, same⟩
      rw [parallelMapRanges_eq some_worker positive] at ran
      rw [same, ran]
      exact outcome
    · intro same
      exact ⟨_, (parallelMapRanges_eq some_worker positive _).mpr rfl, by rw [same]; exact outcome.symm⟩
  · intro events final ran
    have bound := (runs_advance (quiet_initial _ _) ran).2.1
    rw [weight_initial] at bound
    omega

def amounts : RecordBatch where
  columns := [("n", .int64 [some 5, none, some 9, some 7])]
  rowCount := 4

theorem runParallelFilter_amounts : filter (fun _ _ _ => false) amounts (.gtI64 "n" 6) =
      .ok { columns := [("n", .int64 [some 9, some 7])], rowCount := 2 } ∧
    ∀ result, RunParallelFilter (fun _ _ _ => false) amounts (.gtI64 "n" 6) (.withWorkers 2 3) result ↔
      result = .ok { columns := [("n", .int64 [some 9, some 7])], rowCount := 2 } :=
  have filtered : filter (fun _ _ _ => false) amounts (.gtI64 "n" 6) =
      .ok { columns := [("n", .int64 [some 9, some 7])], rowCount := 2 } := by decide
  ⟨filtered, (runParallelFilter_eq _ amounts _ _ (by decide) filtered (.withWorkers 2 3) (by decide) (by decide)).1⟩

end Agreement

end Neuralbase.Vectorized
