import Neuralbase.Vectorized

namespace Neuralbase.Vectorized

open Neuralbase.Library

section Model

/-- The rows with a key, each with its key. -/
def keyed (ids : List (Option Int)) : List (Int × Nat) :=
  ids.zipIdx.filterMap fun (key, idx) => key.map fun k => (k, idx)

def sortByKey (indices : List (Int × Nat)) : List (Int × Nat) :=
  indices.insertionSort fun left right => left.1 ≤ right.1

/-- The loop of the join, on what the two pointers have not passed: a run of equal keys on either
side is crossed with the other one. -/
def mergeRuns : List (Int × Nat) → List (Int × Nat) → List (Nat × Nat)
  | [], _ => []
  | _ :: _, [] => []
  | l :: left, r :: right =>
    if l.1 < r.1 then mergeRuns left (r :: right)
    else if r.1 < l.1 then mergeRuns (l :: left) right
    else
      ((l :: left.takeWhile fun x => x.1 == l.1).flatMap fun x =>
        (r :: right.takeWhile fun y => y.1 == r.1).map fun y => (x.2, y.2)) ++
      mergeRuns (left.dropWhile fun x => x.1 == l.1) (right.dropWhile fun y => y.1 == r.1)
termination_by left right => left.length + right.length
decreasing_by
  all_goals simp only [List.length_cons]
  · omega
  · omega
  · have := (List.dropWhile_sublist (l := left) fun x => x.1 == l.1).length_le
    have := (List.dropWhile_sublist (l := right) fun y => y.1 == r.1).length_le
    omega

def joinMatches (leftIds rightIds : List (Option Int)) : List (Nat × Nat) :=
  mergeRuns (sortByKey (keyed leftIds)) (sortByKey (keyed rightIds))

def takeColumns (side : String) (columns : List (String × ColumnVector)) (indices : List Nat) :
    Except Failure (List (String × ColumnVector)) :=
  columns.mapM fun column => (column.2.take indices).map fun taken => (side ++ column.1, taken)

def sortMergeJoin (left right : RecordBatch) (leftKey rightKey : String) : Except Failure RecordBatch :=
  match left.column leftKey with
  | some (.int64 leftIds) =>
    match right.column rightKey with
    | some (.int64 rightIds) => do
      let found := joinMatches leftIds rightIds
      let lefts ← takeColumns "left." left.columns (found.map Prod.fst)
      let rights ← takeColumns "right." right.columns (found.map Prod.snd)
      RecordBatch.new (lefts ++ rights)
    | _ => .error (.columnTypeMismatch rightKey)
  | _ => .error (.columnTypeMismatch leftKey)

end Model

section Runs

variable {left right : List (Int × Nat)} {ids : List (Option Int)} {i j : Nat} {key : Int}

/-- The pairs a nested loop finds. -/
def nested (left right : List (Int × Nat)) : List (Nat × Nat) :=
  left.flatMap fun l => (right.filter fun r => r.1 == l.1).map fun r => (l.2, r.2)

theorem head_le {r y : Int × Nat} (sorted : (r :: right).Pairwise fun a b => a.1 ≤ b.1) (inside : y ∈ r :: right) :
    r.1 ≤ y.1 := by
  rcases List.mem_cons.mp inside with equal | later
  · rw [equal]
  · exact List.rel_of_pairwise_cons sorted later

theorem key_of_run {r y : Int × Nat} (inside : y ∈ r :: right.takeWhile fun y => y.1 == r.1) : y.1 = r.1 := by
  rcases List.mem_cons.mp inside with equal | run
  · rw [equal]
  · simpa using List.mem_takeWhile_imp run

theorem sorted_skip {r y : Int × Nat} (sorted : (r :: y :: right).Pairwise fun a b => a.1 ≤ b.1) :
    (r :: right).Pairwise fun a b => a.1 ≤ b.1 :=
  sorted.sublist (List.Sublist.cons_cons r (List.sublist_cons_self y right))

/-- The first key is the least, so its rows stand in front. -/
theorem filter_eq_takeWhile {r : Int × Nat} (sorted : (r :: right).Pairwise fun a b => a.1 ≤ b.1) :
    (r :: right).filter (fun y => y.1 == r.1) = r :: right.takeWhile fun y => y.1 == r.1 := by
  rw [List.filter_cons_of_pos (by simp)]
  congr 1
  induction right with
  | nil => rfl
  | cons y right induction =>
    have above : r.1 ≤ y.1 := List.rel_of_pairwise_cons sorted List.mem_cons_self
    by_cases same : y.1 = r.1
    · rw [List.filter_cons_of_pos (by simpa using same), List.takeWhile_cons_of_pos (by simpa using same),
        induction (sorted_skip sorted)]
    · -- the keys after a greater one are greater
      rw [List.takeWhile_cons_of_neg (by simpa using same), List.filter_eq_nil_iff]
      intro z inside
      have after : y.1 ≤ z.1 := head_le sorted.of_cons inside
      simp only [beq_iff_eq]
      omega

theorem lt_of_mem_dropWhile {r y : Int × Nat} (sorted : (r :: right).Pairwise fun a b => a.1 ≤ b.1)
    (inside : y ∈ right.dropWhile fun y => y.1 == r.1) : r.1 < y.1 := by
  induction right with
  | nil => simp at inside
  | cons z right induction =>
    by_cases same : z.1 = r.1
    · rw [List.dropWhile_cons_of_pos (by simpa using same)] at inside
      exact induction (sorted_skip sorted) inside
    · rw [List.dropWhile_cons_of_neg (by simpa using same)] at inside
      have least := List.rel_of_pairwise_cons sorted List.mem_cons_self
      have after : z.1 ≤ y.1 := head_le sorted.of_cons inside
      omega

/-- On sorted rows the two pointers find what a nested loop finds, in its order. -/
theorem mergeRuns_eq_nested (sortedLeft : left.Pairwise fun a b => a.1 ≤ b.1)
    (sortedRight : right.Pairwise fun a b => a.1 ≤ b.1) : mergeRuns left right = nested left right := by
  fun_induction mergeRuns left right with
  | case1 right => rfl
  | case2 l left => simp [nested]
  | case3 l left r right below induction =>
    have none_found : (r :: right).filter (fun y => y.1 == l.1) = [] := by
      rw [List.filter_eq_nil_iff]
      intro y inside
      have least : r.1 ≤ y.1 := head_le sortedRight inside
      simp only [beq_iff_eq]
      omega
    rw [induction sortedLeft.of_cons sortedRight, nested, nested, List.flatMap_cons, none_found]
    rfl
  | case4 l left r right _ above induction =>
    rw [induction sortedLeft sortedRight.of_cons, nested, nested]
    refine List.flatMap_congr fun x inside => ?_
    have least : l.1 ≤ x.1 := head_le sortedLeft inside
    rw [List.filter_cons_of_neg (by simp only [beq_iff_eq]; omega)]
  | case5 l left r right notBelow notAbove induction =>
    have same : r.1 = l.1 := by omega
    have splitLeft : left = left.takeWhile (fun x => x.1 == l.1) ++ left.dropWhile fun x => x.1 == l.1 :=
      List.takeWhile_append_dropWhile.symm
    have splitRight : right = right.takeWhile (fun y => y.1 == r.1) ++ right.dropWhile fun y => y.1 == r.1 :=
      List.takeWhile_append_dropWhile.symm
    rw [induction (sortedLeft.of_cons.sublist (List.dropWhile_sublist _))
      (sortedRight.of_cons.sublist (List.dropWhile_sublist _))]
    conv_rhs => rw [nested, splitLeft, ← List.cons_append, List.flatMap_append]
    congr 1
    · -- rows of the run meet the run of the other side
      refine List.flatMap_congr fun x inside => ?_
      rw [key_of_run inside, ← same, filter_eq_takeWhile sortedRight]
    · -- and later rows meet nothing of it
      rw [nested]
      refine List.flatMap_congr fun x inside => ?_
      have later := lt_of_mem_dropWhile sortedLeft inside
      have passed : (r :: right.takeWhile fun y => y.1 == r.1).filter (fun y => y.1 == x.1) = [] := by
        rw [List.filter_eq_nil_iff]
        intro y member
        have key : y.1 = r.1 := key_of_run member
        simp only [beq_iff_eq]
        omega
      conv_rhs => rw [splitRight, ← List.cons_append, List.filter_append, passed, List.nil_append]

theorem mem_nested : (i, j) ∈ nested left right ↔ ∃ key, (key, i) ∈ left ∧ (key, j) ∈ right := by
  simp only [nested, List.mem_flatMap, List.mem_map, List.mem_filter, beq_iff_eq, Prod.mk.injEq]
  constructor
  · rintro ⟨⟨key, _⟩, inLeft, ⟨other, _⟩, ⟨inRight, same⟩, rfl, rfl⟩
    cases same
    exact ⟨key, inLeft, inRight⟩
  · intro ⟨key, inLeft, inRight⟩
    exact ⟨(key, i), inLeft, (key, j), ⟨inRight, rfl⟩, rfl, rfl⟩

theorem nodup_nested (uniqueLeft : (left.map Prod.snd).Nodup) (uniqueRight : (right.map Prod.snd).Nodup) :
    (nested left right).Nodup := by
  rw [nested, List.nodup_flatMap]
  constructor
  · intro l _
    have unique := uniqueRight.sublist ((List.filter_sublist (p := fun r => r.1 == l.1)).map Prod.snd)
    rw [List.Nodup, List.pairwise_map] at unique ⊢
    exact unique.imp fun different equal => different (Prod.mk.inj equal).2
  · refine (List.pairwise_map.mp uniqueLeft).imp fun {first second} different => ?_
    rw [Function.onFun, List.disjoint_left]
    intro pair inFirst inSecond
    obtain ⟨_, _, rfl⟩ := List.mem_map.mp inFirst
    obtain ⟨_, _, equal⟩ := List.mem_map.mp inSecond
    exact different (Prod.mk.inj equal).1.symm

theorem mem_keyed : (key, i) ∈ keyed ids ↔ ids[i]? = some (some key) := by
  rw [keyed, List.mem_filterMap]
  constructor
  · rintro ⟨⟨value, idx⟩, inside, made⟩
    rw [Option.map_eq_some_iff] at made
    obtain ⟨k, rfl, equal⟩ := made
    cases equal
    exact List.mem_zipIdx_iff_getElem?.mp inside
  · intro found
    exact ⟨(some key, i), List.mem_zipIdx_iff_getElem?.mpr found, rfl⟩

theorem nodup_keyed (ids : List (Option Int)) : ((keyed ids).map Prod.snd).Nodup := by
  have unique : (ids.zipIdx.map Prod.snd).Nodup := by
    rw [List.zipIdx_map_snd]
    exact List.nodup_range'
  rw [List.Nodup, List.pairwise_map] at unique ⊢
  refine unique.filterMap _ fun first second different a inFirst b inSecond => ?_
  obtain ⟨_, _, rfl⟩ := Option.map_eq_some_iff.mp inFirst
  obtain ⟨_, _, rfl⟩ := Option.map_eq_some_iff.mp inSecond
  exact different

theorem perm_sortByKey (rows : List (Int × Nat)) : (sortByKey rows).Perm rows :=
  rows.perm_insertionSort _

theorem joinMatches_eq (leftIds rightIds : List (Option Int)) :
    joinMatches leftIds rightIds = nested (sortByKey (keyed leftIds)) (sortByKey (keyed rightIds)) :=
  mergeRuns_eq_nested (List.pairwise_insertionSort _ _) (List.pairwise_insertionSort _ _)

/-- Each pair of rows with one key is found, and found once. -/
theorem mem_joinMatches {leftIds rightIds : List (Option Int)} : (i, j) ∈ joinMatches leftIds rightIds ↔
    ∃ key, leftIds[i]? = some (some key) ∧ rightIds[j]? = some (some key) := by
  simp only [joinMatches_eq, mem_nested, (perm_sortByKey _).mem_iff, mem_keyed]

theorem nodup_joinMatches (leftIds rightIds : List (Option Int)) : (joinMatches leftIds rightIds).Nodup := by
  rw [joinMatches_eq]
  exact nodup_nested (((perm_sortByKey _).map Prod.snd).nodup_iff.mpr (nodup_keyed leftIds))
    (((perm_sortByKey _).map Prod.snd).nodup_iff.mpr (nodup_keyed rightIds))

/-- The pairs of rows with one key that is not NULL, in the order of the rows. -/
def equalKeyed (leftIds rightIds : List (Option Int)) : List (Nat × Nat) := nested (keyed leftIds) (keyed rightIds)

theorem joinMatches_perm (leftIds rightIds : List (Option Int)) :
    (joinMatches leftIds rightIds).Perm (equalKeyed leftIds rightIds) := by
  refine (List.perm_ext_iff_of_nodup (nodup_joinMatches leftIds rightIds)
    (nodup_nested (nodup_keyed leftIds) (nodup_keyed rightIds))).mpr fun (i, j) => ?_
  rw [mem_joinMatches, mem_nested]
  simp only [mem_keyed]

theorem bytes_joinMatches (column : ColumnVector) (leftIds rightIds : List (Option Int)) (side : Nat × Nat → Nat) :
    column.bytes ((joinMatches leftIds rightIds).map side) = column.bytes ((equalKeyed leftIds rightIds).map side) :=
  (((joinMatches_perm leftIds rightIds).map side).map _).sum_eq

end Runs

section Output

variable {columns : List (String × ColumnVector)} {indices : List Nat} {side : String}

/-- The columns of one side, taken at the rows of the pairs. -/
theorem takeColumns_ok (readable : ∀ column ∈ columns, ∀ index ∈ indices, ∃ cell, column.2.read index = .ok cell) :
    ∃ taken, takeColumns side columns indices = .ok taken ∧
      taken.map Prod.fst = columns.map (fun column => side ++ column.1) ∧
      (∀ column ∈ taken, column.2.len = indices.length) ∧
      ((∀ column ∈ columns, column.2.bytes indices < 2 ^ 32) → ∀ n index : Nat, indices[n]? = some index →
        ∃ cells, columns.mapM (fun column => column.2.read index) = .ok cells ∧
          taken.mapM (fun column => column.2.read n) = .ok cells) ∧
      ((∀ n < indices.length, ∀ column ∈ taken, ∃ cell, column.2.read n = .ok cell) →
        ∀ column ∈ columns, column.2.bytes indices < 2 ^ 32) := by
  induction columns with
  | nil => exact ⟨[], rfl, rfl, by simp, fun _ n index _ => ⟨[], rfl, rfl⟩, by simp⟩
  | cons column columns induction =>
    obtain ⟨first, took, length, cell, fits⟩ := column.2.take_ok (readable column List.mem_cons_self)
    obtain ⟨rest, rests, names, lengths, cells, fit⟩ :=
      induction fun other inside => readable other (List.mem_cons_of_mem _ inside)
    refine ⟨(side ++ column.1, first) :: rest, ?_, by simp [names], ?_, fun short n index place => ?_, fun reads => ?_⟩
    · rw [takeColumns] at rests ⊢
      rw [List.mapM_cons, took, rests]
      rfl
    · intro other inside
      rcases List.mem_cons.mp inside with equal | later
      · rw [equal]
        exact length
      · exact lengths other later
    · obtain ⟨shortFirst, shortRest⟩ := List.forall_mem_cons.mp short
      obtain ⟨others, before, after⟩ := cells shortRest n index place
      obtain ⟨value, read⟩ := readable column List.mem_cons_self index (List.mem_of_getElem? place)
      refine ⟨value :: others, ?_, ?_⟩
      · rw [List.mapM_cons, read, before]
        rfl
      · rw [List.mapM_cons, cell shortFirst n index place, read, after]
        rfl
    · rw [List.forall_mem_cons]
      exact ⟨fits fun n within => reads n within _ List.mem_cons_self,
        fit fun n within other inside => reads n within other (List.mem_cons_of_mem _ inside)⟩

/-- One output row for each pair of rows with one key that is not NULL, with the columns of both. -/
def JoinsRows (left right out : RecordBatch) (leftIds rightIds : List (Option Int)) (pairs : List (Nat × Nat)) : Prop :=
  (pairs.Nodup ∧ ∀ i j : Nat, (i, j) ∈ pairs ↔ ∃ key, leftIds[i]? = some (some key) ∧ rightIds[j]? = some (some key)) ∧
    out.columns.map Prod.fst =
      left.columns.map (fun column => "left." ++ column.1) ++ right.columns.map (fun column => "right." ++ column.1) ∧
    out.rowCount = pairs.length ∧
    ∀ n i j : Nat, pairs[n]? = some (i, j) →
      ∃ cells others, left.row i = .ok cells ∧ right.row j = .ok others ∧ out.row n = .ok (cells ++ others)

/-- The join returns the matching rows exactly if no text column of the output outgrows its offsets. -/
theorem sortMergeJoin_rows (left right : RecordBatch) (leftKey rightKey : String) (leftIds rightIds : List (Option Int))
    (wellLeft : left.WellFormed) (wellRight : right.WellFormed)
    (keyLeft : left.column leftKey = some (.int64 leftIds)) (keyRight : right.column rightKey = some (.int64 rightIds)) :
    (∃ out pairs, sortMergeJoin left right leftKey rightKey = .ok out ∧ JoinsRows left right out leftIds rightIds pairs) ↔
      (∀ column ∈ left.columns, column.2.bytes ((equalKeyed leftIds rightIds).map Prod.fst) < 2 ^ 32) ∧
      ∀ column ∈ right.columns, column.2.bytes ((equalKeyed leftIds rightIds).map Prod.snd) < 2 ^ 32 := by
  simp only [← bytes_joinMatches]
  obtain ⟨_, inLeft⟩ := column_mem keyLeft
  obtain ⟨_, inRight⟩ := column_mem keyRight
  have sizeLeft : leftIds.length = left.rowCount := wellLeft.length _ inLeft
  have sizeRight : rightIds.length = right.rowCount := wellRight.length _ inRight
  have bounds {i j : Nat} (inside : (i, j) ∈ joinMatches leftIds rightIds) : i < left.rowCount ∧ j < right.rowCount := by
    obtain ⟨key, first, second⟩ := mem_joinMatches.mp inside
    rw [← sizeLeft, ← sizeRight]
    exact ⟨(List.getElem?_eq_some_iff.mp first).1, (List.getElem?_eq_some_iff.mp second).1⟩
  have readLeft : ∀ column ∈ left.columns, ∀ index ∈ (joinMatches leftIds rightIds).map Prod.fst,
      ∃ cell, column.2.read index = .ok cell := by
    intro column inside index member
    obtain ⟨pair, found, rfl⟩ := List.mem_map.mp member
    exact wellLeft.readable column inside _ (bounds found).1
  have readRight : ∀ column ∈ right.columns, ∀ index ∈ (joinMatches leftIds rightIds).map Prod.snd,
      ∃ cell, column.2.read index = .ok cell := by
    intro column inside index member
    obtain ⟨pair, found, rfl⟩ := List.mem_map.mp member
    exact wellRight.readable column inside _ (bounds found).2
  obtain ⟨lefts, tookLeft, namesLeft, lengthsLeft, cellsLeft, fitsLeft⟩ := @takeColumns_ok _ _ "left." readLeft
  obtain ⟨rights, tookRight, namesRight, lengthsRight, cellsRight, fitsRight⟩ := @takeColumns_ok _ _ "right." readRight
  have some_column : lefts ++ rights ≠ [] := by
    intro empty
    rw [(List.append_eq_nil_iff.mp empty).1, List.map_nil] at namesLeft
    rw [List.map_eq_nil_iff.mp namesLeft.symm] at inLeft
    simp at inLeft
  have made : RecordBatch.new (lefts ++ rights) =
      .ok { columns := lefts ++ rights, rowCount := (joinMatches leftIds rightIds).length } := by
    refine new_ok some_column fun column inside => ?_
    rcases List.mem_append.mp inside with first | second
    · rw [lengthsLeft column first, List.length_map]
    · rw [lengthsRight column second, List.length_map]
  have joined : sortMergeJoin left right leftKey rightKey =
      .ok { columns := lefts ++ rights, rowCount := (joinMatches leftIds rightIds).length } := by
    rw [sortMergeJoin, keyLeft, keyRight]
    simp only [tookLeft, tookRight]
    exact made
  constructor
  · rintro ⟨out, pairs, same, -, -, count, rows⟩
    cases joined.symm.trans same
    have reads (n : Nat) (below : n < (joinMatches leftIds rightIds).length) :
        ∀ column ∈ lefts ++ rights, ∃ cell, column.2.read n = .ok cell := by
      obtain ⟨_, _, _, _, row⟩ := rows n _ _ (List.getElem?_eq_getElem (count ▸ below))
      intro column inside
      obtain ⟨cell, _, read⟩ := forall₂_left (mapM_eq_ok.mp row) inside
      exact ⟨cell, read⟩
    rw [List.length_map] at fitsLeft fitsRight
    exact ⟨fitsLeft fun n below column inside => reads n below column (List.mem_append_left _ inside),
      fitsRight fun n below column inside => reads n below column (List.mem_append_right _ inside)⟩
  · rintro ⟨shortLeft, shortRight⟩
    refine ⟨_, joinMatches leftIds rightIds, joined, ⟨nodup_joinMatches _ _, fun i j => mem_joinMatches⟩, ?_, rfl,
      fun n i j place => ?_⟩
    · rw [List.map_append, namesLeft, namesRight]
    · obtain ⟨cells, before, after⟩ := cellsLeft shortLeft n i (by rw [List.getElem?_map, place]; rfl)
      obtain ⟨others, beforeRight, afterRight⟩ := cellsRight shortRight n j (by rw [List.getElem?_map, place]; rfl)
      refine ⟨cells, others, before, beforeRight, ?_⟩
      rw [RecordBatch.row, List.mapM_append, after, afterRight]
      rfl

def customers : RecordBatch where
  columns := [("id", .int64 [some 1, none, some 2])]
  rowCount := 3

def orders : RecordBatch where
  columns := [("customer", .int64 [some 2, some 1, some 2, none])]
  rowCount := 4

theorem wellFormed_of_int64 {name : String} {ids : List (Option Int)} :
    RecordBatch.WellFormed { columns := [(name, .int64 ids)], rowCount := ids.length } where
  length := by simp [ColumnVector.len]
  readable := by
    intro column inside index below
    rw [List.mem_singleton.mp inside]
    exact ⟨.int64 (ids.get ⟨index, below⟩), by simp [ColumnVector.read, valueAt, below, Except.map]⟩

theorem bytes_int64 {ids : List (Option Int)} (indices : List Nat) : (ColumnVector.int64 ids).bytes indices = 0 := by
  apply ColumnVector.bytes_eq_zero
  intro index text found
  obtain ⟨value, _, made⟩ := map_eq_ok.mp found
  cases made

theorem sortMergeJoin_orders : ∃ out pairs, sortMergeJoin customers orders "id" "customer" = .ok out ∧
    JoinsRows customers orders out [some 1, none, some 2] [some 2, some 1, some 2, none] pairs :=
  (sortMergeJoin_rows customers orders "id" "customer" [some 1, none, some 2] [some 2, some 1, some 2, none]
    wellFormed_of_int64 wellFormed_of_int64 (by decide) (by decide)).mpr
    ⟨by simp [customers, bytes_int64], by simp [orders, bytes_int64]⟩

section Overflow

variable {text : String}

theorem exists_text (size : Nat) : ∃ text : String, (utf8 text).length = size := by
  refine ⟨String.ofList (List.replicate size 'a'), ?_⟩
  have one : 'a'.utf8Size = 1 := by decide
  simp [utf8, List.utf8Encode, one]

/-- The second offset of two such texts is below the first. -/
theorem get_wrapped (long : (utf8 text).length = 2 ^ 32 - 1) :
    (Utf8Column.fromOptions [some text, some text]).get 1 = .error .indexOutOfRange := by
  have first : textBytes [some text] = 2 ^ 32 - 1 := by simp [textBytes, textOf, long]
  have second : textBytes [some text, some text] = 2 ^ 33 - 2 := by simp [textBytes, textOf, long]
  rw [Utf8Column.fromOptions_eq, Utf8Column.get]
  simp [List.range_succ, first, second]

theorem get_short (long : (utf8 text).length = 2 ^ 32 - 1) :
    (Utf8Column.fromOptions [some text]).get 0 = .ok (some text) := by
  have short : textBytes [some text] < 2 ^ 32 := by simp [textBytes, textOf, long]
  exact Utf8Column.get_fromOptions short rfl

def labelled (text : String) : RecordBatch where
  columns := [("k", .int64 [some 1]), ("t", .utf8 (.fromOptions [some text]))]
  rowCount := 1

theorem labelled_wellFormed (long : (utf8 text).length = 2 ^ 32 - 1) : (labelled text).WellFormed := by
  refine ⟨by simp [labelled, ColumnVector.len], fun column inside index below => ?_⟩
  rw [labelled, Nat.lt_one_iff] at below
  subst below
  rcases List.mem_cons.mp inside with equal | later
  · rw [equal]
    exact ⟨.int64 (some 1), rfl⟩
  · rw [List.mem_singleton.mp later, ColumnVector.read, get_short long]
    exact ⟨.text (some text), rfl⟩

theorem column_labelled : (labelled text).column "k" = some (.int64 [some 1]) := by
  simp [RecordBatch.column, labelled, eqIgnoreAsciiCase]

/-- Taking a row twice writes its text twice. -/
theorem takeColumns_labelled (long : (utf8 text).length = 2 ^ 32 - 1) :
    takeColumns "left." (labelled text).columns [0, 0] =
      .ok [("left.k", .int64 [some 1, some 1]), ("left.t", .utf8 (.fromOptions [some text, some text]))] := by
  have taken : (ColumnVector.utf8 (.fromOptions [some text])).take [0, 0] =
      .ok (.utf8 (.fromOptions [some text, some text])) := by
    rw [ColumnVector.take, List.mapM_cons, List.mapM_cons, get_short long]
    rfl
  rw [takeColumns, labelled, List.mapM_cons, List.mapM_cons, taken]
  rfl

/-- Two output rows with a text of almost four gigabytes: the second cannot be read. -/
theorem sortMergeJoin_wraps : ∃ left right : RecordBatch, left.WellFormed ∧ right.WellFormed ∧
    left.column "k" = some (.int64 [some 1]) ∧ right.column "k" = some (.int64 [some 1, some 1]) ∧
      ∃ out, sortMergeJoin left right "k" "k" = .ok out ∧ out.rowCount = 2 ∧ out.row 1 = .error .indexOutOfRange := by
  obtain ⟨text, long⟩ := exists_text (2 ^ 32 - 1)
  have found : joinMatches [some 1] [some 1, some 1] = [(0, 0), (0, 1)] := by
    simp [joinMatches, keyed, sortByKey, mergeRuns]
  refine ⟨labelled text, { columns := [("k", .int64 [some 1, some 1])], rowCount := 2 }, labelled_wellFormed long,
    wellFormed_of_int64, column_labelled, by decide, ?_⟩
  refine ⟨{ columns := [("left.k", .int64 [some 1, some 1]), ("left.t", .utf8 (.fromOptions [some text, some text])),
    ("right.k", .int64 [some 1, some 1])], rowCount := 2 }, ?_, rfl, ?_⟩
  · have rights : takeColumns "right." [("k", .int64 [some 1, some 1])] [0, 1] =
        .ok [("right.k", .int64 [some 1, some 1])] := rfl
    have key : RecordBatch.column { columns := [("k", .int64 [some 1, some 1])], rowCount := 2 } "k" =
        some (.int64 [some 1, some 1]) := by decide
    rw [sortMergeJoin, column_labelled, key]
    simp only [found, List.map_cons, List.map_nil, takeColumns_labelled long, rights]
    show RecordBatch.new [("left.k", .int64 [some 1, some 1]), ("left.t", .utf8 (.fromOptions [some text, some text])),
      ("right.k", .int64 [some 1, some 1])] = _
    exact new_ok (by simp) (by simp [ColumnVector.len])
  · rw [RecordBatch.row, List.mapM_cons, List.mapM_cons]
    simp only [ColumnVector.read, get_wrapped long]
    rfl

end Overflow

end Output

end Neuralbase.Vectorized
