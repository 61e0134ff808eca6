import Neuralbase.Query.Ordering

namespace Neuralbase.Query

open Neuralbase.Library

/-! Window functions (`compute_window_values` of `query_executor.rs`). -/

/-- The function of a window, with the first argument of LAG and LEAD and the second one as it is written. -/
inductive WindowFunction (F Q : Type) where
  | rowNumber
  | rank
  | lag (arg : Option (Expr F Q)) (offset : Option (Expr F Q))
  | lead (arg : Option (Expr F Q)) (offset : Option (Expr F Q))
  | other (name : String)

structure WindowSpec (F Q : Type) where
  function : WindowFunction F Q
  partitionBy : List (Expr F Q)
  orderBy : List (OrderByExpr F Q)

/-- An evaluator with the row of the enclosing query. -/
structure Scope (F Q : Type) extends Env F Q where
  outerRow : Row F

section Model

variable {F Q : Type} [Floats F]

def Scope.eval (scope : Scope F Q) (row : Row F) : Expr F Q → Evaluated F (ScalarVal F) :=
  evalExpr scope.toEnv row scope.outerRow

/-- What an expression gives for a row; an error counts as NULL. -/
def Scope.valueOrNull (scope : Scope F Q) (row : Row F) (expr : Expr F Q) : ScalarVal F :=
  (scope.eval row expr).toOption.getD .null

def partitionKey (scope : Scope F Q) (spec : WindowSpec F Q) (row : Row F) : Values F :=
  spec.partitionBy.map (scope.valueOrNull row)

def orderValues (scope : Scope F Q) (spec : WindowSpec F Q) (row : Row F) : Values F :=
  spec.orderBy.map fun item => scope.valueOrNull row item.expr

/-- Two lists of values, compared from left to right; values without an order are passed over. -/
def compareKeys : List (Option Bool) → Values F → Values F → Ordering
  | asc :: directions, left :: lefts, right :: rights =>
    (directed asc ((left.cmpVal right).getD .eq)).then (compareKeys directions lefts rights)
  | _, _, _ => .eq

def windowCmp (scope : Scope F Q) (spec : WindowSpec F Q) (left right : Row F) : Ordering :=
  (compareKeys (spec.partitionBy.map fun _ => none) (partitionKey scope spec left)
    (partitionKey scope spec right)).then
    (compareKeys (spec.orderBy.map OrderByExpr.asc) (orderValues scope spec left) (orderValues scope spec right))

/-- `s.parse::<i64>()` of a number, or 1. -/
def lagOffset : Option (Expr F Q) → Int
  | some (.value (.number raw)) => (parseInt 64 raw).getD 1
  | _ => 1

/-- The ranks along a partition: the rank goes up to the position where the values to order by change. -/
def rankLoop (valuesOf : Nat → Values F) (position current : Nat) (previous : Option (Values F)) : List Nat → List Nat
  | [] => []
  | index :: rest =>
    let values := valuesOf index
    let current := if previous.any fun values' => !sameRow values values' then position + 1 else current
    current :: rankLoop valuesOf (position + 1) current (some values) rest

def shifted (valueAt : Nat → ScalarVal F) (part : List Nat) (target : Int) : ScalarVal F :=
  if 0 ≤ target then ((part[target.toNat]?).map valueAt).getD .null else .null

def shiftValues (scope : Scope F Q) (rowAt : Nat → Row F) (part : List Nat) (arg : Option (Expr F Q))
    (distance : Int) : Values F :=
  (List.range part.length).map fun position : Nat =>
    match arg with
    | none => .null
    | some expr => shifted (fun index => scope.valueOrNull (rowAt index) expr) part (position + distance)

def partitionValues (scope : Scope F Q) (spec : WindowSpec F Q) (rowAt : Nat → Row F) (part : List Nat) :
    Evaluated F (Values F) :=
  let shift := shiftValues scope rowAt part
  match spec.function with
  | .rowNumber => .ok ((List.range part.length).map fun position : Nat => .int (position + 1))
  | .rank => .ok ((rankLoop (fun index => orderValues scope spec (rowAt index)) 0 1 none part).map fun rank : Nat => .int rank)
  | .lag arg offset => .ok (shift arg (-lagOffset offset))
  | .lead arg offset => .ok (shift arg (lagOffset offset))
  | .other name => .error (.unsupported s!"window function: {name}")

def runsOf (same : Nat → Nat → Bool) : Nat → List Nat → List (List Nat)
  | 0, _ | _, [] => []
  | fuel + 1, first :: rest =>
    (first :: rest.takeWhile (same first)) :: runsOf same fuel (rest.dropWhile (same first))

def rowAt (rows : List (Row F)) (index : Nat) : Row F := rows[index]?.getD []

def windowParts (scope : Scope F Q) (sortBy : (Nat → Nat → Ordering) → List Nat → List Nat)
    (spec : WindowSpec F Q) (rows : List (Row F)) : List (List Nat) :=
  let sorted := sortBy (fun left right => windowCmp scope spec (rowAt rows left) (rowAt rows right))
    (List.range rows.length)
  let key index := partitionKey scope spec (rowAt rows index)
  runsOf (fun first index => sameRow (key index) (key first)) sorted.length sorted

def computeWindowValues (scope : Scope F Q) (sortBy : (Nat → Nat → Ordering) → List Nat → List Nat)
    (spec : WindowSpec F Q) (rows : List (Row F)) : Evaluated F (Values F) := do
  let parts := windowParts scope sortBy spec rows
  let values ← parts.mapM (partitionValues scope spec (rowAt rows))
  let assignments := parts.flatten.zip values.flatten
  pure (assignments.foldl (fun results pair => results.set pair.1 pair.2) (List.replicate rows.length .null))

end Model

section Runs

variable {α : Type}

/-- Where the elements that satisfy `p` come first. -/
theorem takeWhile_eq_filter {p : α → Bool} {items : List α} (first : items.Pairwise fun left right => p right → p left) :
    items.takeWhile p = items.filter p ∧ items.dropWhile p = items.filter fun item => !p item := by
  induction items with
  | nil => exact ⟨rfl, rfl⟩
  | cons item rest induction =>
    obtain ⟨here, later⟩ := List.pairwise_cons.mp first
    obtain ⟨taken, dropped⟩ := induction later
    by_cases holds : p item = true
    · simp [holds, taken, dropped]
    · have none : ∀ other ∈ rest, ¬ p other = true := fun other inside also => holds (here other inside also)
      have all : rest.filter (fun other => !p other) = rest := by
        rw [List.filter_eq_self]
        exact fun other inside => by simp [none other inside]
      simp [holds, all, List.filter_eq_nil_iff.mpr none]

variable {keyOrder order : Nat → Nat → Ordering} {same : Nat → Nat → Bool}

theorem isLE_of_compareLex {left right : Nat} (below : (compareLex keyOrder order left right).isLE) :
    (keyOrder left right).isLE := by
  unfold compareLex at below
  cases known : keyOrder left right <;> simp [known] at below ⊢

variable [Std.TransCmp keyOrder]

theorem runsOf_sorted {fuel : Nat} {items : List Nat} (enough : items.length ≤ fuel)
    (ascending : items.Pairwise fun left right => (compareLex keyOrder order left right).isLE)
    (agrees : ∀ left ∈ items, ∀ right ∈ items, same left right = decide (keyOrder left right = .eq)) :
    (runsOf same fuel items).flatten = items ∧
      ∀ part ∈ runsOf same fuel items, ∃ first ∈ items, first ∈ part ∧
        part = items.filter fun index => keyOrder first index = .eq := by
  induction fuel generalizing items with
  | zero =>
    cases List.length_eq_zero_iff.mp (Nat.le_zero.mp enough)
    exact ⟨rfl, nofun⟩
  | succ fuel induction =>
    cases items with
    | nil => exact ⟨rfl, nofun⟩
    | cons first rest =>
      obtain ⟨here, later⟩ := List.pairwise_cons.mp ascending
      have known : ∀ index ∈ rest, same first index = decide (keyOrder first index = .eq) :=
        fun index inside => agrees first List.mem_cons_self index (List.mem_cons_of_mem first inside)
      -- Once the key has changed it does not come back.
      have together : rest.Pairwise fun left right => same first right → same first left := by
        refine later.imp_of_mem fun {left right} leftIn rightIn below equal => ?_
        rw [known right rightIn, decide_eq_true_eq] at equal
        rw [known left leftIn, decide_eq_true_eq]
        have up := isLE_of_compareLex (here left leftIn)
        have on := isLE_of_compareLex below
        have back : (keyOrder left first).isLE := Std.TransCmp.isLE_trans on (by
          rw [Std.OrientedCmp.eq_symm equal]; rfl)
        exact Std.OrientedCmp.isLE_antisymm up back
      obtain ⟨taken, dropped⟩ := takeWhile_eq_filter together
      have remaining : rest.dropWhile (same first) = (first :: rest).filter fun index => ¬ keyOrder first index = .eq := by
        rw [dropped, List.filter_cons, if_neg (by simp [Std.ReflCmp.compare_self])]
        exact List.filter_congr fun index inside => by simp [known index inside]
      have class_eq : first :: rest.takeWhile (same first) =
          (first :: rest).filter fun index => keyOrder first index = .eq := by
        rw [taken, List.filter_cons, if_pos (by simp [Std.ReflCmp.compare_self])]
        exact congrArg _ (List.filter_congr fun index inside => known index inside)
      have inside : ∀ index ∈ rest.dropWhile (same first), index ∈ first :: rest := fun index member => by
        rw [remaining] at member
        exact List.mem_of_mem_filter member
      have shorter : (rest.dropWhile (same first)).length ≤ fuel :=
        (List.dropWhile_sublist _).length_le.trans (Nat.le_of_succ_le_succ enough)
      obtain ⟨whole, classes⟩ := induction shorter (later.sublist (List.dropWhile_sublist _))
        fun left leftIn right rightIn => agrees left (inside left leftIn) right (inside right rightIn)
      refine ⟨?_, fun part member => ?_⟩
      · rw [runsOf, List.flatten_cons, whole, List.cons_append, List.takeWhile_append_dropWhile]
      · rw [runsOf, List.mem_cons] at member
        rcases member with rfl | member
        · exact ⟨first, List.mem_cons_self, List.mem_cons_self, class_eq⟩
        · obtain ⟨other, otherIn, otherHere, rfl⟩ := classes part member
          refine ⟨other, inside other otherIn, otherHere, ?_⟩
          have apart : ¬ keyOrder first other = .eq := by
            rw [remaining] at otherIn
            simpa using (List.mem_filter.mp otherIn).2
          rw [remaining, List.filter_filter]
          refine List.filter_congr fun index _ => ?_
          by_cases equal : keyOrder other index = .eq
          · have differs : ¬ keyOrder first index = .eq := fun also =>
              apart (Std.TransCmp.eq_trans also (Std.OrientedCmp.eq_symm equal))
            simp [equal, differs]
          · simp [equal]

theorem isStableSort_class {items sorted : List Nat} (stable : IsStableSort (compareLex keyOrder order) items sorted) (first : Nat) :
    IsStableSort order (items.filter fun index => keyOrder first index = .eq)
      (sorted.filter fun index => keyOrder first index = .eq) where
  perm := stable.perm.filter _
  ascending := by
    refine (stable.ascending.filter _).imp_of_mem fun {left right} leftIn rightIn below => ?_
    have equal : keyOrder left right = .eq := Std.TransCmp.eq_trans
      (Std.OrientedCmp.eq_symm (by simpa using (List.mem_filter.mp leftIn).2)) (by simpa using (List.mem_filter.mp rightIn).2)
    simpa [compareLex, equal] using below
  stable index inside := by
    obtain ⟨member, equal⟩ := List.mem_filter.mp inside
    have equal : keyOrder first index = .eq := by simpa using equal
    have both : ∀ other, ((order index other = .eq) && (keyOrder first other = .eq) : Bool) =
        decide (compareLex keyOrder order index other = .eq) := by
      intro other
      rw [Std.TransCmp.congr_left equal]
      cases known : keyOrder index other <;> simp [compareLex, known]
    rw [List.filter_filter, List.filter_filter]
    simpa only [both] using stable.stable index member

theorem length_foldl_set (assignments : List (Nat × α)) (results : List α) :
    (assignments.foldl (fun results pair => results.set pair.1 pair.2) results).length = results.length := by
  induction assignments generalizing results with
  | nil => rfl
  | cons pair rest induction => rw [List.foldl_cons, induction, List.length_set]

theorem foldl_set_getElem {assignments : List (Nat × α)} {results : List α} (distinct : (assignments.map Prod.fst).Nodup)
    {index : Nat} {value : α} (member : (index, value) ∈ assignments) (bound : index < results.length) :
    (assignments.foldl (fun results pair => results.set pair.1 pair.2) results)[index]? = some value := by
  induction assignments using List.reverseRecOn with
  | nil => cases member
  | append_singleton assignments last induction =>
    rw [List.map_append, List.nodup_append] at distinct
    rw [List.foldl_concat]
    rcases List.mem_append.mp member with earlier | here
    · have apart : last.1 ≠ index := fun same =>
        distinct.2.2 _ (List.mem_map_of_mem earlier) _ (List.mem_singleton_self _) same.symm
      rw [List.getElem?_set_ne apart]
      exact induction distinct.1 earlier
    · cases List.mem_singleton.mp here
      rw [List.getElem?_set_self (by rw [length_foldl_set]; exact bound)]

theorem zip_flatten {β : Type} {parts : List (List α)} {values : List α → List β}
    (lengths : ∀ part ∈ parts, (values part).length = part.length) :
    parts.flatten.zip (parts.map values).flatten = parts.flatMap fun part => part.zip (values part) := by
  induction parts with
  | nil => rfl
  | cons part parts induction =>
    obtain ⟨here, later⟩ := List.forall_mem_cons.mp lengths
    rw [List.flatten_cons, List.map_cons, List.flatten_cons, List.zip_append here.symm, induction later, List.flatMap_cons]

theorem assigned_getElem {parts : List (List Nat)} {values : List Nat → List α} {length : Nat} {default value : α}
    (perm : parts.flatten.Perm (List.range length)) (lengths : ∀ part ∈ parts, (values part).length = part.length)
    {part : List Nat} (member : part ∈ parts) {position index : Nat} (found : part[position]? = some index)
    (here : (values part)[position]? = some value) :
    ((parts.flatten.zip (parts.map values).flatten).foldl (fun results pair => results.set pair.1 pair.2)
      (List.replicate length default))[index]? = some value := by
  have inside : index ∈ parts.flatten := List.mem_flatten_of_mem member (List.mem_of_getElem? found)
  rw [zip_flatten lengths]
  apply foldl_set_getElem
  · have indexes : (parts.flatMap fun part => (part.zip (values part)).map Prod.fst) = parts.flatten := by
      rw [← List.flatMap_id]
      exact List.flatMap_congr fun part member => List.map_fst_zip (lengths part member).ge
    rw [List.map_flatMap, indexes]
    exact perm.nodup_iff.mpr List.nodup_range
  · refine List.mem_flatMap.mpr ⟨part, member, List.mem_of_getElem? (i := position) ?_⟩
    rw [List.getElem?_zip_eq_some]
    exact ⟨found, here⟩
  · rw [List.length_replicate]
    exact List.mem_range.mp (perm.mem_iff.mp inside)

end Runs

section Ranks

variable {F : Type} [Floats F] {order : Nat → Nat → Ordering} [Std.TransCmp order] {valuesOf : Nat → Values F}

def rankIn (order : Nat → Nat → Ordering) (part : List Nat) (index : Nat) : Nat :=
  1 + part.countP fun other => order other index = .lt

/-- The loop over a sorted partition, after the indexes `before`. -/
theorem rankLoop_eq {before rest : List Nat} {current : Nat}
    (agrees : ∀ left ∈ before ++ rest, ∀ right ∈ before ++ rest,
      sameRow (valuesOf left) (valuesOf right) = decide (order left right = .eq))
    (ascending : (before ++ rest).Pairwise fun left right => (order left right).isLE)
    (reached : ∀ last ∈ before.getLast?, current = rankIn order before last) (fresh : before = [] → current = 1) :
    rankLoop valuesOf before.length current (before.getLast?.map valuesOf) rest =
      rest.map (rankIn order (before ++ rest)) := by
  induction rest generalizing before current with
  | nil => rfl
  | cons index rest induction =>
    obtain ⟨_, fromHere, across⟩ := List.pairwise_append.mp ascending
    obtain ⟨above, _⟩ := List.pairwise_cons.mp fromHere
    have self : order index index = .eq := Std.ReflCmp.compare_self
    -- Nothing from the index on is before it.
    have only : rankIn order (before ++ index :: rest) index = rankIn order before index := by
      have none : (rest.countP fun other => order other index = .lt) = 0 := by
        rw [List.countP_eq_zero]
        intro other inside below
        have up := above other inside
        rw [@Std.OrientedCmp.eq_swap _ order _ index other, of_decide_eq_true below] at up
        cases up
      simp [rankIn, List.countP_append, self, none]
    have counted : (if (before.getLast?.map valuesOf).any (fun values => !sameRow (valuesOf index) values) then before.length + 1
        else current) = rankIn order before index := by
      rcases List.eq_nil_or_concat before with empty | ⟨earlier, last, split⟩
      · subst empty
        simp [fresh rfl, rankIn]
      · rw [List.concat_eq_append] at split
        subst split
        have lastIn : last ∈ (earlier ++ [last]) ++ index :: rest := by simp
        have indexIn : index ∈ (earlier ++ [last]) ++ index :: rest := by simp
        simp only [List.getLast?_concat, Option.map_some, Option.any_some, agrees index indexIn last lastIn]
        by_cases equal : order index last = .eq
        · rw [if_neg (by simp [equal]), reached last (by simp)]
          unfold rankIn
          congr 1
          exact List.countP_congr fun other _ => by rw [Std.TransCmp.congr_right equal]
        · have below : ∀ other ∈ earlier ++ [last], order other index = .lt := by
            intro other inside
            have first : (order last index).isLE := across last (by simp) index List.mem_cons_self
            have strict : order last index = .lt := by
              cases known : order last index with
              | lt => rfl
              | eq => exact absurd (Std.OrientedCmp.eq_symm known) equal
              | gt => simp [known] at first
            rcases List.mem_append.mp inside with member | member
            · have up : (order other last).isLE :=
                (List.pairwise_append.mp (List.pairwise_append.mp ascending).1).2.2 other member last (by simp)
              exact Std.TransCmp.lt_of_isLE_of_lt up strict
            · cases List.mem_singleton.mp member
              exact strict
          rw [if_pos (by simp [equal]), rankIn, List.countP_eq_length.mpr (by simpa using below)]
          exact Nat.add_comm _ _
    have next := @induction (before ++ [index]) (rankIn order before index) (by simpa using agrees) (by simpa using ascending)
      (by simp [rankIn, List.countP_append, self]) (by simp)
    simp only [List.length_append, List.length_singleton, List.getLast?_concat, Option.map_some, List.append_assoc,
      List.singleton_append] at next
    rw [rankLoop, List.map_cons, only]
    simp only [counted]
    rw [next]

end Ranks

section Exactness

variable {F Q : Type} [Floats F]

def partitionKeys (scope : Scope F Q) (spec : WindowSpec F Q) (rows : List (Row F)) :
    List ((Nat → ScalarVal F) × Option Bool) :=
  spec.partitionBy.map fun expr => (fun index => scope.valueOrNull (rowAt rows index) expr, none)

def orderKeys (scope : Scope F Q) (spec : WindowSpec F Q) (rows : List (Row F)) :
    List ((Nat → ScalarVal F) × Option Bool) :=
  spec.orderBy.map fun item => (fun index => scope.valueOrNull (rowAt rows index) item.expr, item.asc)

/-- No key is a float, and any two rows are told apart by keys that can be compared. -/
structure Sortable (scope : Scope F Q) (spec : WindowSpec F Q) (rows : List (Row F)) : Prop where
  exact : ∀ key ∈ partitionKeys scope spec rows ++ orderKeys scope spec rows, ∀ index < rows.length,
    (key.1 index).isFloat = false
  decided : ∀ left < rows.length, ∀ right < rows.length,
    Decided (partitionKeys scope spec rows ++ orderKeys scope spec rows) left right

/-- The offset of LAG and LEAD for a row: the value of the second argument, or 1. -/
def offsetAt (scope : Scope F Q) (row : Row F) : Option (Expr F Q) → Option Int
  | none => some 1
  | some expr =>
    match scope.eval row expr with
    | .ok (.int offset) => some offset
    | _ => none

/-- The second argument is left out, a whole number as it is written, or 1 in every row. -/
def OffsetRead (scope : Scope F Q) (rows : List (Row F)) : Option (Expr F Q) → Prop
  | none => True
  | some (.value (.number raw)) => (parseInt 64 raw).isSome
  | some expr => ∀ row ∈ rows, scope.eval row expr = .ok (.int 1)

/-- One of the four functions, with the argument and the offset that LAG and LEAD need. -/
def Supported (scope : Scope F Q) (rows : List (Row F)) : WindowFunction F Q → Prop
  | .rowNumber | .rank => True
  | .lag arg offset | .lead arg offset => arg.isSome ∧ OffsetRead scope rows offset
  | .other _ => False

def expectedValue (scope : Scope F Q) (spec : WindowSpec F Q) (rows : List (Row F)) (part : List Nat)
    (position index : Nat) : Option (ScalarVal F) :=
  let valueAt (expr : Expr F Q) (target : Int) := shifted (fun index => scope.valueOrNull (rowAt rows index) expr) part target
  match spec.function with
  | .rowNumber => some (.int (position + 1))
  | .rank => some (.int (rankIn (lexOrder (orderKeys scope spec rows)) part index))
  | .lag (some arg) offset => (offsetAt scope (rowAt rows index) offset).map fun back => valueAt arg (position - back)
  | .lead (some arg) offset => (offsetAt scope (rowAt rows index) offset).map fun ahead => valueAt arg (position + ahead)
  | .lag none _ | .lead none _ | .other _ => none

theorem OffsetRead.offsetAt {scope : Scope F Q} {rows : List (Row F)} {offset : Option (Expr F Q)}
    (read : OffsetRead scope rows offset) {row : Row F} (inside : row ∈ rows) :
    offsetAt scope row offset = some (lagOffset offset) := by
  unfold OffsetRead at read
  split at read
  · rfl
  · rename_i raw
    obtain ⟨value, parsed⟩ := Option.isSome_iff_exists.mp read
    simp [Query.offsetAt, Scope.eval, evalExpr, evalValue, parseNumber, parsed, lagOffset]
  · rename_i expr other
    have one : lagOffset (some expr) = 1 := by
      unfold lagOffset
      split
      · rename_i raw same
        cases same
        exact absurd rfl (other raw)
      · rfl
    simp [Query.offsetAt, read row inside, one]

theorem sameRow_cons {left right : ScalarVal F} {lefts rights : Values F} :
    sameRow (left :: lefts) (right :: rights) = (left.equals right && sameRow lefts rights) := by
  rw [Bool.eq_iff_iff, Bool.and_eq_true, sameRow_iff, sameRow_iff, List.forall₂_cons]

theorem ScalarVal.equals_order {left right : ScalarVal F} (leftExact : left.isFloat = false)
    (comparable : left.Comparable right) : left.equals right = decide (left.order right = .eq) := by
  rcases comparable with comparable | ⟨rfl, rfl⟩
  · cases left <;> cases right <;>
      simp only [cmpVal, isFloat, Option.isSome, Bool.false_eq_true, reduceCtorEq] at comparable leftExact
    case bool.bool left right => cases left <;> cases right <;> rfl
    all_goals simp [equals, order, compareLex, compareOn, kind, number, word, Ordering.then_eq]
  · rfl

theorem keys_agree {keys : List ((Nat → ScalarVal F) × Option Bool)} {left right : Nat}
    (exact : ∀ key ∈ keys, (key.1 left).isFloat = false ∧ (key.1 right).isFloat = false)
    (decided : Decided keys left right) :
    compareKeys (keys.map Prod.snd) (keys.map fun key => key.1 left) (keys.map fun key => key.1 right) =
        lexOrder keys left right ∧
      sameRow (keys.map fun key => key.1 left) (keys.map fun key => key.1 right) =
        decide (lexOrder keys left right = .eq) := by
  induction keys with
  | nil => exact ⟨rfl, rfl⟩
  | cons key keys induction =>
    obtain ⟨⟨leftExact, rightExact⟩, exact⟩ := List.forall_mem_cons.mp exact
    obtain ⟨here, later⟩ := decided
    constructor
    · simp only [List.map_cons, compareKeys, lexOrder, compareLex, ScalarVal.cmpVal_order leftExact rightExact here]
      exact then_congr fun tied => (induction exact (later (directed_eq.mp tied))).1
    · simp only [List.map_cons, sameRow_cons, lexOrder, compareLex, ScalarVal.equals_order leftExact here,
        Ordering.then_eq_eq, directed_eq]
      by_cases tied : (key.1 left).order (key.1 right) = .eq
      · simp [tied, (induction exact (later tied)).2]
      · simp [tied]

theorem decided_append {first second : List ((Nat → ScalarVal F) × Option Bool)} {left right : Nat}
    (decided : Decided (first ++ second) left right) :
    Decided first left right ∧ (lexOrder first left right = .eq → Decided second left right) := by
  induction first with
  | nil => exact ⟨trivial, fun _ => decided⟩
  | cons key first induction =>
    obtain ⟨here, later⟩ := decided
    refine ⟨⟨here, fun tied => (induction (later tied)).1⟩, fun tied => ?_⟩
    rw [lexOrder, compareLex, Ordering.then_eq_eq, directed_eq] at tied
    exact (induction (later tied.1)).2 tied.2

variable {scope : Scope F Q} {spec : WindowSpec F Q} {rows : List (Row F)}

theorem partitionValues_eq {part : List Nat} (supported : Supported scope rows spec.function)
    (bound : ∀ index ∈ part, index < rows.length)
    (agrees : ∀ left ∈ part, ∀ right ∈ part,
      sameRow (orderValues scope spec (rowAt rows left)) (orderValues scope spec (rowAt rows right)) =
        decide (lexOrder (orderKeys scope spec rows) left right = .eq))
    (ascending : part.Pairwise fun left right => (lexOrder (orderKeys scope spec rows) left right).isLE) :
    ∃ values, partitionValues scope spec (rowAt rows) part = .ok values ∧ values.length = part.length ∧
      ∀ position index, part[position]? = some index →
        values[position]? = expectedValue scope spec rows part position index := by
  have lawful := transCmp_lexOrder (orderKeys scope spec rows)
  have inside : ∀ position index, part[position]? = some index → position < part.length :=
    fun position index found => (List.getElem?_eq_some_iff.mp found).1
  have row : ∀ index ∈ part, rowAt rows index ∈ rows := by
    intro index member
    rw [rowAt, List.getElem?_eq_getElem (bound index member), Option.getD_some]
    exact List.getElem_mem _
  unfold partitionValues expectedValue shiftValues
  cases known : spec.function with
  | rowNumber => exact ⟨_, rfl, by simp, fun position index found => by simp [inside position index found]⟩
  | rank =>
    have ranks := @rankLoop_eq F _ _ _ (fun index => orderValues scope spec (rowAt rows index)) [] part 1 agrees
      ascending (by simp) (fun _ => rfl)
    simp only [List.length_nil, List.getLast?_nil, Option.map_none, List.nil_append] at ranks
    exact ⟨_, rfl, by simp [ranks], fun position index found => by simp [ranks, found]⟩
  | lag arg offset =>
    rw [known] at supported
    obtain ⟨given, read⟩ := supported
    obtain ⟨expr, rfl⟩ := Option.isSome_iff_exists.mp given
    refine ⟨_, rfl, by simp, fun position index found => ?_⟩
    simp only [List.getElem?_map, List.getElem?_range (inside position index found), Option.map_some, Int.sub_eq_add_neg,
      read.offsetAt (row index (List.mem_of_getElem? found))]
  | lead arg offset =>
    rw [known] at supported
    obtain ⟨given, read⟩ := supported
    obtain ⟨expr, rfl⟩ := Option.isSome_iff_exists.mp given
    refine ⟨_, rfl, by simp, fun position index found => ?_⟩
    simp only [List.getElem?_map, List.getElem?_range (inside position index found), Option.map_some,
      read.offsetAt (row index (List.mem_of_getElem? found))]
  | other name =>
    rw [known] at supported
    exact supported.elim

theorem Sortable.partitionKey_agree (sortable : Sortable scope spec rows) {left right : Nat} (here : left < rows.length)
    (there : right < rows.length) :
    compareKeys (spec.partitionBy.map fun _ => none) (partitionKey scope spec (rowAt rows left))
        (partitionKey scope spec (rowAt rows right)) = lexOrder (partitionKeys scope spec rows) left right ∧
      sameRow (partitionKey scope spec (rowAt rows left)) (partitionKey scope spec (rowAt rows right)) =
        decide (lexOrder (partitionKeys scope spec rows) left right = .eq) := by
  have agree := keys_agree (fun key inside => ⟨sortable.exact key (List.mem_append_left _ inside) left here,
    sortable.exact key (List.mem_append_left _ inside) right there⟩) (decided_append (sortable.decided left here right there)).1
  simpa [partitionKeys, partitionKey, Function.comp_def] using agree

theorem Sortable.orderValues_agree (sortable : Sortable scope spec rows) {left right : Nat} (here : left < rows.length)
    (there : right < rows.length) (tied : lexOrder (partitionKeys scope spec rows) left right = .eq) :
    compareKeys (spec.orderBy.map OrderByExpr.asc) (orderValues scope spec (rowAt rows left))
        (orderValues scope spec (rowAt rows right)) = lexOrder (orderKeys scope spec rows) left right ∧
      sameRow (orderValues scope spec (rowAt rows left)) (orderValues scope spec (rowAt rows right)) =
        decide (lexOrder (orderKeys scope spec rows) left right = .eq) := by
  have agree := keys_agree (fun key inside => ⟨sortable.exact key (List.mem_append_right _ inside) left here,
    sortable.exact key (List.mem_append_right _ inside) right there⟩)
    ((decided_append (sortable.decided left here right there)).2 tied)
  simpa [orderKeys, orderValues, Function.comp_def] using agree

theorem windowParts_stable {sortBy : (Nat → Nat → Ordering) → List Nat → List Nat} (sorts : StableSort sortBy)
    (sortable : Sortable scope spec rows) :
    (windowParts scope sortBy spec rows).flatten.Perm (List.range rows.length) ∧
    ∀ part ∈ windowParts scope sortBy spec rows, ∃ first ∈ part,
      IsStableSort (lexOrder (orderKeys scope spec rows))
        ((List.range rows.length).filter fun index => sameRow (partitionKey scope spec (rowAt rows first))
          (partitionKey scope spec (rowAt rows index))) part := by
  have keyLaws := transCmp_lexOrder (partitionKeys scope spec rows)
  have orderLaws := transCmp_lexOrder (orderKeys scope spec rows)
  have sorted := sorts.sorts (fun left right => windowCmp scope spec (rowAt rows left) (rowAt rows right))
    (compareLex (lexOrder (partitionKeys scope spec rows)) (lexOrder (orderKeys scope spec rows)))
    (List.range rows.length) (fun left here right there => by
      rw [List.mem_range] at here there
      simp only [windowCmp, compareLex, (sortable.partitionKey_agree here there).1]
      exact then_congr fun tied => (sortable.orderValues_agree here there tied).1)
  unfold windowParts
  revert sorted
  generalize sortBy _ (List.range rows.length) = indexes
  intro sorted
  have bound : ∀ index ∈ indexes, index < rows.length := fun index inside =>
    List.mem_range.mp (sorted.perm.mem_iff.mp inside)
  obtain ⟨whole, classes⟩ := @runsOf_sorted (lexOrder (partitionKeys scope spec rows))
    (lexOrder (orderKeys scope spec rows)) (fun first index => sameRow (partitionKey scope spec (rowAt rows index))
      (partitionKey scope spec (rowAt rows first))) _ indexes.length indexes le_rfl sorted.ascending
    (fun left here right there => by
      rw [(sortable.partitionKey_agree (bound right there) (bound left here)).2]
      exact decide_eq_decide.mpr Std.OrientedCmp.eq_comm)
  refine ⟨by rw [whole]; exact sorted.perm, fun part member => ?_⟩
  obtain ⟨first, inside, here, rfl⟩ := classes part member
  refine ⟨first, here, ?_⟩
  rw [List.filter_congr fun index within =>
    (sortable.partitionKey_agree (bound first inside) (List.mem_range.mp within)).2]
  exact isStableSort_class sorted first

def plainScope : Scope Int Unit where
  outerRow := []
  typedString := .text
  likeMatch _ _ := false
  toUppercase := id
  scalarToString _ := ""
  cast _ value := value
  extract _ value := value
  trim := id
  function _ _ := .error (.unsupported "function")
  executeQuery _ _ := .ok { columns := [], rows := [] }

/-- `LAG(v, 2) OVER (PARTITION BY p ORDER BY v DESC)`. -/
def lagSpec : WindowSpec Int Unit where
  function := .lag (some (.identifier "v")) (some (.value (.number "2")))
  partitionBy := [.identifier "p"]
  orderBy := [⟨.identifier "v", some false⟩]

def laggedRows : List (Row Int) :=
  [[("p", .int 1), ("v", .text "b")], [("p", .int 2), ("v", .null)], [("p", .int 1), ("v", .text "b")],
    [("p", .int 1), ("v", .text "c")]]

end Exactness

end Neuralbase.Query
