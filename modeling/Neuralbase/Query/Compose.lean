import Neuralbase.Library.Result
import Neuralbase.Query.Execute

namespace Neuralbase.Query

open Neuralbase.Library

/-! How LIMIT, OFFSET and the set operations compose over nested queries. -/

/-- What `f64` equality keeps without being reflexive. -/
structure FloatEquality (F : Type) [Floats F] : Prop where
  symm : ∀ {left right : F}, Floats.partialCmp left right = some .eq → Floats.partialCmp right left = some .eq
  trans : ∀ {a b c : F}, Floats.partialCmp a b = some .eq → Floats.partialCmp b c = some .eq →
    Floats.partialCmp a c = some .eq

section Rows

variable {F : Type} [Floats F]

theorem ScalarVal.equals_symm (laws : FloatEquality F) {left right : ScalarVal F} (same : left.equals right = true) :
    right.equals left = true := by
  cases left <;> cases right <;> simp only [ScalarVal.equals, decide_eq_true_eq, Bool.false_eq_true] at same ⊢
  case float.float => exact laws.symm same
  all_goals exact same.symm

theorem ScalarVal.equals_trans (laws : FloatEquality F) {a b c : ScalarVal F} (first : a.equals b = true)
    (second : b.equals c = true) : a.equals c = true := by
  cases a <;> cases b <;> simp only [ScalarVal.equals, decide_eq_true_eq, Bool.false_eq_true] at first <;>
    cases c <;> simp only [ScalarVal.equals, decide_eq_true_eq, Bool.false_eq_true] at second ⊢
  case float.float.float => exact laws.trans first second
  all_goals exact first.trans second

theorem sameRow_iff {left right : Values F} :
    sameRow left right = true ↔ List.Forall₂ (fun a b => ScalarVal.equals a b = true) left right := by
  rw [sameRow, Bool.and_eq_true, decide_eq_true_eq, List.all_eq_true, List.forall₂_iff_zip]
  constructor
  · rintro ⟨length, all⟩
    exact ⟨length, fun inside => all _ inside⟩
  · rintro ⟨length, all⟩
    exact ⟨length, fun pair inside => all inside⟩

theorem sameRow_symm (laws : FloatEquality F) {left right : Values F} (same : sameRow left right = true) :
    sameRow right left = true := by
  rw [sameRow_iff] at same ⊢
  exact same.flip.imp fun _ _ equal => ScalarVal.equals_symm laws equal

theorem sameRow_trans (laws : FloatEquality F) {a b c : Values F} (first : sameRow a b = true) (second : sameRow b c = true) :
    sameRow a c = true := by
  rw [sameRow_iff] at first second ⊢
  induction first generalizing c with
  | nil =>
    cases second
    exact .nil
  | cons head _ tail =>
    cases second with
    | cons next rest => exact .cons (ScalarVal.equals_trans laws head next) (tail rest)

def occurrences (row : Values F) (rows : List (Values F)) : Nat := rows.countP fun other => sameRow row other

def occurs (row : Values F) (rows : List (Values F)) : Bool := rows.any fun other => sameRow row other

theorem occurrences_retainNew (laws : FloatEquality F) {seen rows : List (Values F)} (row : Values F) :
    occurrences row (retainNew seen rows) = if occurs row seen then 0 else if occurs row rows then 1 else 0 := by
  induction rows generalizing seen with
  | nil => simp [retainNew, occurrences, occurs]
  | cons first rest induction =>
    rw [retainNew]
    by_cases known : seen.any (fun other => sameRow other first) = true
    · rw [if_pos known, induction]
      by_cases here : sameRow row first = true
      · -- A row that is dropped is like one that was seen.
        have before : occurs row seen = true := by
          obtain ⟨other, inside, same⟩ := List.any_eq_true.mp known
          exact List.any_eq_true.mpr ⟨other, inside, sameRow_trans laws here (sameRow_symm laws same)⟩
        simp [before]
      · simp [occurs, here]
    · simp only [occurrences] at induction ⊢
      rw [if_neg known, List.countP_cons, induction]
      by_cases here : sameRow row first = true
      · have before : occurs row seen = false := by
          rw [occurs, List.any_eq_false]
          intro other inside same
          exact known (List.any_eq_true.mpr ⟨other, inside, sameRow_trans laws (sameRow_symm laws same) here⟩)
        simp [occurs, here] at before ⊢
        exact before
      · simp [occurs, here]

def member (op : SetOperator) (row : Values F) (left right : List (Values F)) : Bool :=
  match op with
  | .union => occurs row left || occurs row right
  | .intersect => occurs row left && occurs row right
  | .except => occurs row left && !occurs row right

theorem occurs_filter {row : Values F} {rows : List (Values F)} {keep : Values F → Bool} {kept : Bool}
    (agree : ∀ other, sameRow row other = true → keep other = kept) :
    occurs row (rows.filter keep) = (occurs row rows && kept) := by
  rw [occurs, List.any_filter]
  have each : ∀ other, (keep other && sameRow row other) = (sameRow row other && kept) := by
    intro other
    cases same : sameRow row other with
    | true => simp [agree other same]
    | false => simp
  simp only [each]
  cases kept with
  | true => simp [occurs]
  | false => simp

theorem found_iff (laws : FloatEquality F) {row other : Values F} (rows : List (Values F)) (same : sameRow row other = true) :
    (rows.any fun third => sameRow third other) = occurs row rows := by
  rw [occurs, Bool.eq_iff_iff, List.any_eq_true, List.any_eq_true]
  constructor
  · rintro ⟨third, inside, found⟩
    exact ⟨third, inside, sameRow_trans laws same (sameRow_symm laws found)⟩
  · rintro ⟨third, inside, found⟩
    exact ⟨third, inside, sameRow_trans laws (sameRow_symm laws found) same⟩

theorem occurs_combineRows (laws : FloatEquality F) (op : SetOperator) (row : Values F) (left right : List (Values F)) :
    occurs row (combineRows left right op) = member op row left right := by
  cases op with
  | union => simp [combineRows, member, occurs]
  | intersect => exact occurs_filter fun other same => found_iff laws right same
  | except =>
    apply occurs_filter
    intro other same
    rw [found_iff laws right same]

theorem occurrences_combine (laws : FloatEquality F) {op : SetOperator} {quantifier : SetQuantifier}
    (distinct : quantifier.isAll = false) (left right : QueryResult F) (row : Values F) :
    occurrences row (combine op quantifier left right).rows = if member op row left.rows right.rows then 1 else 0 := by
  simp only [combine, distinct, Bool.false_eq_true, if_false]
  rw [occurrences_retainNew laws, occurs_combineRows laws]
  simp [occurs]

end Rows

section Queries

variable {F S Q : Type}

namespace QueryExpr

def body : QueryExpr F S Q → SetExpr F S Q
  | .mk _ body _ _ _ => body

def orderBy : QueryExpr F S Q → List (OrderByExpr F Q)
  | .mk _ _ orderBy _ _ => orderBy

def limit : QueryExpr F S Q → Option (Expr F Q)
  | .mk _ _ _ limit _ => limit

def offset : QueryExpr F S Q → Option (Expr F Q)
  | .mk _ _ _ _ offset => offset

def unsliced : QueryExpr F S Q → QueryExpr F S Q
  | .mk ctes body orderBy _ _ => .mk ctes body orderBy none none

end QueryExpr

/-- The rows after the first `skip`, at most `count` of them. -/
def QueryResult.slice (skip : Nat) (count : Option Nat) (result : QueryResult F) : QueryResult F :=
  { result with rows := (result.rows.drop skip).take (count.getD result.rows.length) }

/-- What LIMIT and OFFSET have to be: numbers. -/
def IsCount (expr : Expr F Q) : Prop := (literalCount expr).isSome

mutual

/-- LIMIT and OFFSET are numbers, and nothing stands behind a query in parentheses, at any depth. -/
def QueryExpr.Composes : QueryExpr F S Q → Prop
  | .mk ctes body orderBy limit offset => ctes.Composes ∧ body.Composes ∧ (∀ expr ∈ limit, IsCount expr) ∧
      (∀ expr ∈ offset, IsCount expr) ∧ ∀ inner, body = .query inner → orderBy = [] ∧ limit = none ∧ offset = none

def SetExpr.Composes : SetExpr F S Q → Prop
  | .select _ | .other _ => True
  | .query inner => inner.Composes
  | .setOperation _ _ left right => left.Composes ∧ right.Composes

def CteTables.Composes : CteTables F S Q → Prop
  | .nil => True
  | .cons _ query rest => query.Composes ∧ rest.Composes

end

section Meaning

variable [Floats F] (exec : QueryExecutor F S)

mutual

/-- What a query stands for: its body, sorted and then cut by its own ORDER BY, LIMIT and OFFSET. -/
def QueryExpr.meaning : QueryExpr F S Q → QueryCatalog F → Row F → Option (QueryResult F)
  | .mk ctes body orderBy limit offset, catalog, outerRow => do
    let extended ← ctes.meaning catalog outerRow
    let result ← body.meaning extended outerRow
    pure ((if orderBy.isEmpty then result else applyOrderBy exec result orderBy).slice
      ((offset.bind literalCount).getD 0) (limit.bind literalCount))

def SetExpr.meaning : SetExpr F S Q → QueryCatalog F → Row F → Option (QueryResult F)
  | .select select, catalog, outerRow => (exec.executeSelectBare select catalog outerRow).toOption
  | .query inner, catalog, outerRow => inner.meaning catalog outerRow
  | .setOperation op quantifier left right, catalog, outerRow => do
    let first ← left.meaning catalog outerRow
    let second ← right.meaning catalog outerRow
    pure (combine op quantifier first second)
  | .other _, _, _ => none

def CteTables.meaning : CteTables F S Q → QueryCatalog F → Row F → Option (QueryCatalog F)
  | .nil, catalog, _ => some catalog
  | .cons name query rest, catalog, outerRow => do
    let result ← query.meaning catalog outerRow
    rest.meaning (Function.update catalog (exec.lowercase name) (some (cteRows (exec.lowercase name) result))) outerRow

end

end Meaning

variable {exec : QueryExecutor F S} {orderBy : List (OrderByExpr F Q)} {limit offset : Option (Expr F Q)}

theorem applyLimitOffset_none (result : QueryResult F) :
    applyLimitOffset result (none : Option (Expr F Q)) none = result := by
  simp [applyLimitOffset]

theorem applyLimitOffset_slice (result : QueryResult F) : applyLimitOffset result limit offset =
      result.slice ((offset.bind literalCount).getD 0) (limit.bind literalCount) := by
  unfold applyLimitOffset QueryResult.slice
  cases limit.bind literalCount with
  | some count => rfl
  | none =>
    have whole : (result.rows.drop ((offset.bind literalCount).getD 0)).length ≤ result.rows.length := by simp
    simp [List.take_of_length_le whole]

theorem slice_all (result : QueryResult F) : result.slice 0 none = result := by
  simp [QueryResult.slice]

variable [Floats F]

theorem finish_unordered (result : QueryResult F) :
    finish exec ([] : List (OrderByExpr F Q)) none none result = result := by
  simp [finish, applyLimitOffset_none]

theorem toOption_bind {α β ε : Type} (first : Except ε α) (next : α → Except ε β) :
    (first >>= next).toOption = first.toOption >>= fun value => (next value).toOption := by
  cases first <;> rfl

theorem finish_eq (result : QueryResult F) : finish exec orderBy limit offset result =
    (if orderBy.isEmpty then result else applyOrderBy exec result orderBy).slice
      ((offset.bind literalCount).getD 0) (limit.bind literalCount) := by
  rw [finish, applyLimitOffset_slice]

mutual

theorem QueryExpr.execute_meaning (exec : QueryExecutor F S) : ∀ (query : QueryExpr F S Q), query.Composes →
    ∀ catalog outerRow, (executeQueryInner exec query catalog outerRow).toOption = query.meaning exec catalog outerRow
  | .mk ctes body orderBy limit offset, composes, catalog, outerRow => by
    obtain ⟨cteComposes, bodyComposes, _, _, direct⟩ := composes
    rw [executeQueryInner, QueryExpr.meaning, toOption_bind, ctes.extend_meaning exec cteComposes]
    congr 1
    funext extended
    exact body.execute_meaning exec bodyComposes orderBy limit offset direct extended outerRow

/-- The body of a query, with what stands behind it. -/
theorem SetExpr.execute_meaning (exec : QueryExecutor F S) : ∀ (body : SetExpr F S Q), body.Composes →
    ∀ (orderBy : List (OrderByExpr F Q)) (limit offset : Option (Expr F Q)),
      (∀ inner, body = .query inner → orderBy = [] ∧ limit = none ∧ offset = none) → ∀ catalog outerRow,
        (executeBody exec body orderBy limit offset catalog outerRow).toOption =
          body.meaning exec catalog outerRow >>= fun result => pure ((if orderBy.isEmpty then result
            else applyOrderBy exec result orderBy).slice ((offset.bind literalCount).getD 0) (limit.bind literalCount))
  | .select select, _, orderBy, limit, offset, _, catalog, outerRow => by
    rw [executeBody, SetExpr.meaning, toOption_bind]
    simp only [finish_eq]
    rfl
  | .query inner, composes, orderBy, limit, offset, direct, catalog, outerRow => by
    obtain ⟨rfl, rfl, rfl⟩ := direct inner rfl
    rw [executeBody, SetExpr.meaning, inner.execute_meaning exec composes]
    simp [slice_all]
  | .setOperation op quantifier left right, composes, orderBy, limit, offset, _, catalog, outerRow => by
    rw [executeBody, SetExpr.meaning, toOption_bind, left.operand_meaning exec composes.1]
    simp only [toOption_bind, right.operand_meaning exec composes.2, finish_eq, bind_assoc, pure_bind]
    rfl
  | .other _, _, _, _, _, _, _, _ => rfl

/-- An operand of a set operation. -/
theorem SetExpr.operand_meaning (exec : QueryExecutor F S) : ∀ (operand : SetExpr F S Q), operand.Composes →
    ∀ catalog outerRow, (executeSetexpr exec operand catalog outerRow).toOption = operand.meaning exec catalog outerRow
  | .select _, _, _, _ => rfl
  | .query inner, composes, catalog, outerRow => by
    rw [executeSetexpr, SetExpr.meaning, inner.execute_meaning exec composes]
  | .setOperation op quantifier left right, composes, catalog, outerRow => by
    rw [executeSetexpr, SetExpr.meaning, toOption_bind, left.operand_meaning exec composes.1]
    simp only [toOption_bind, right.operand_meaning exec composes.2, finish_unordered]
    rfl
  | .other _, _, _, _ => rfl

theorem CteTables.extend_meaning (exec : QueryExecutor F S) : ∀ (ctes : CteTables F S Q), ctes.Composes →
    ∀ catalog outerRow, (extendCatalog exec ctes catalog outerRow).toOption = ctes.meaning exec catalog outerRow
  | .nil, _, _, _ => rfl
  | .cons name query rest, composes, catalog, outerRow => by
    rw [extendCatalog, CteTables.meaning, toOption_bind, query.execute_meaning exec composes.1]
    congr 1
    funext result
    exact rest.extend_meaning exec composes.2 _ _

end

/-- A query has its meaning, LIMIT and OFFSET cut rows out of the meaning, and a distinct set operation
has each row of its operands' meanings that belongs to it once. -/
theorem queries_compose (laws : FloatEquality F) (exec : QueryExecutor F S) (query : QueryExpr F S Q)
    (composes : query.Composes) (catalog : QueryCatalog F) (outerRow : Row F) :
    (executeQueryInner exec query catalog outerRow).toOption = query.meaning exec catalog outerRow ∧
    query.meaning exec catalog outerRow = (query.unsliced.meaning exec catalog outerRow).map
      (.slice ((query.offset.bind literalCount).getD 0) (query.limit.bind literalCount)) ∧
    ∀ (op : SetOperator) (quantifier : SetQuantifier) (left right : SetExpr F S Q) (result : QueryResult F),
      quantifier.isAll = false → (SetExpr.setOperation op quantifier left right).meaning exec catalog outerRow = some result →
      ∃ first second, left.meaning exec catalog outerRow = some first ∧ right.meaning exec catalog outerRow = some second ∧
        result.columns = first.columns ∧
        ∀ row, occurrences row result.rows = if member op row first.rows second.rows then 1 else 0 := by
  refine ⟨query.execute_meaning exec composes catalog outerRow, ?_, ?_⟩
  · rcases query with ⟨ctes, body, orderBy, limit, offset⟩
    simp only [QueryExpr.meaning, QueryExpr.unsliced, QueryExpr.limit, QueryExpr.offset, Option.bind_none, Option.getD_none,
      slice_all]
    cases ctes.meaning exec catalog outerRow with
    | none => rfl
    | some extended =>
      simp only [Option.bind_eq_bind, Option.bind_some]
      cases body.meaning exec extended outerRow <;> rfl
  · intro op quantifier left right result distinct meant
    rw [SetExpr.meaning] at meant
    obtain ⟨first, leftMeans, meant⟩ := Option.bind_eq_some_iff.mp meant
    obtain ⟨second, rightMeans, meant⟩ := Option.bind_eq_some_iff.mp meant
    cases meant
    exact ⟨first, second, leftMeans, rightMeans, rfl, occurrences_combine laws distinct first second⟩

def numbers (values : List Int) : QueryResult Int where
  columns := ["a"]
  rows := values.map fun value => [.int value]

theorem floatEquality_plain : FloatEquality Int where
  symm same := by simp_all [Floats.partialCmp]
  trans first second := by simp_all [Floats.partialCmp]

def slicedUnion : QueryExpr Int (QueryResult Int) Unit :=
  .mk .nil (.setOperation .union .none
    (.query (.mk .nil (.select (numbers [1, 1, 2])) [] (some (.value (.number "2"))) none)) (.select (numbers [3, 3, 4])))
    [] (some (.value (.number "2"))) (some (.value (.number "1")))

theorem queries_compose_slicedUnion :
    (executeQueryInner plainExecutor slicedUnion (fun _ => none) []).toOption =
      (slicedUnion.unsliced.meaning plainExecutor (fun _ => none) []).map (.slice 1 (some 2)) ∧
    executeQueryInner plainExecutor slicedUnion (fun _ => none) [] = .ok (numbers [3, 4]) := by
  have composes : slicedUnion.Composes := by
    simp only [slicedUnion, QueryExpr.Composes, SetExpr.Composes, CteTables.Composes, Option.mem_some_iff, forall_eq', IsCount]
    refine ⟨trivial, ⟨⟨trivial, trivial, by decide, nofun, nofun⟩, trivial⟩, by decide, by decide, nofun⟩
  obtain ⟨meant, sliced, _⟩ := queries_compose floatEquality_plain plainExecutor slicedUnion composes (fun _ => none) []
  exact ⟨meant.trans sliced, rfl⟩

/-- `(SELECT ...) LIMIT 1`, whose meaning has one row. -/
def outerLimited : QueryExpr Int (QueryResult Int) Unit :=
  .mk .nil (.query (.mk .nil (.select (numbers [1, 2])) [] none none)) [] (some (.value (.number "1"))) none

theorem outer_limit_dropped :
    executeQueryInner plainExecutor outerLimited (fun _ => none) [] = .ok (numbers [1, 2]) ∧
    outerLimited.meaning plainExecutor (fun _ => none) [] = some (numbers [1]) ∧
    executeQueryInner plainExecutor (.mk .nil (.setOperation .union .none (.query outerLimited) (.select (numbers [2])))
      [] none none : QueryExpr Int (QueryResult Int) Unit) (fun _ => none) [] = .ok (numbers [1, 2]) :=
  ⟨rfl, rfl, rfl⟩

end Queries

end Neuralbase.Query
