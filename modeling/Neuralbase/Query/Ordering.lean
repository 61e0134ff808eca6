import Neuralbase.Query.Compose

namespace Neuralbase.Query

open Neuralbase.Library

/-! ORDER BY as a stable sort by one order of all values, in which NULL comes first. -/

section Values

variable {F : Type}

namespace ScalarVal

def kind : ScalarVal F → Nat
  | .null => 0
  | .int _ => 1
  | .text _ => 2
  | .date _ => 3
  | .bool _ => 4
  | .float _ => 5

def number : ScalarVal F → Int
  | .int value | .date value => value
  | .bool value => value.toInt
  | _ => 0

def word : ScalarVal F → String
  | .text value => value
  | _ => ""

def isFloat : ScalarVal F → Bool
  | .float _ => true
  | _ => false

/-- Values of one kind are in their own order, and NULL is before all others. -/
def order : ScalarVal F → ScalarVal F → Ordering :=
  compareLex (compareOn kind) (compareLex (compareOn number) (compareOn word))

def Comparable [Floats F] (left right : ScalarVal F) : Prop :=
  (left.cmpVal right).isSome ∨ left = .null ∧ right = .null

instance [Floats F] [DecidableEq F] {left right : ScalarVal F} : Decidable (left.Comparable right) :=
  inferInstanceAs (Decidable (_ ∨ _))

theorem cmpVal_order [Floats F] {left right : ScalarVal F} (leftExact : left.isFloat = false)
    (rightExact : right.isFloat = false) (comparable : left.Comparable right) :
    (left.cmpVal right).getD .eq = left.order right := by
  rcases comparable with comparable | ⟨rfl, rfl⟩
  · cases left <;> cases right <;>
      simp only [cmpVal, isFloat, Option.isSome, Bool.false_eq_true, reduceCtorEq] at comparable leftExact rightExact
    case bool.bool left right => cases left <;> cases right <;> rfl
    all_goals simp [cmpVal, order, compareLex, compareOn, kind, number, word, Ordering.then_eq]
  · rfl

end ScalarVal

abbrev SortKeys := List (Nat × Option Bool)

def cell (row : Values F) (column : Nat) : ScalarVal F := row[column]?.getD .null

theorem isFloat_cell {row : Values F} (exact : ∀ value ∈ row, value.isFloat = false) (column : Nat) :
    (cell row column).isFloat = false := by
  unfold cell
  cases found : row[column]? with
  | none => rfl
  | some value => exact exact value (List.mem_of_getElem? found)

def lexOrder {α : Type} : List ((α → ScalarVal F) × Option Bool) → α → α → Ordering
  | [] => fun _ _ => .eq
  | key :: rest => compareLex (fun left right => directed key.2 ((key.1 left).order (key.1 right))) (lexOrder rest)

theorem transCmp_lexOrder {α : Type} (keys : List ((α → ScalarVal F) × Option Bool)) : Std.TransCmp (lexOrder keys) := by
  induction keys with
  | nil => exact { eq_swap := rfl, isLE_trans := fun _ _ => rfl }
  | cons key rest induction =>
    have upward : Std.TransCmp fun left right => (key.1 left).order (key.1 right) :=
      inferInstanceAs (Std.TransCmp (compareLex (compareOn fun row => (key.1 row).kind)
        (compareLex (compareOn fun row => (key.1 row).number) (compareOn fun row => (key.1 row).word))))
    have first : Std.TransCmp fun left right => directed key.2 ((key.1 left).order (key.1 right)) := by
      unfold directed
      split
      · have downward : (fun left right => ((key.1 left).order (key.1 right)).swap) =
            fun left right => (key.1 right).order (key.1 left) := by
          funext left right
          exact (@Std.OrientedCmp.eq_swap _ _ upward.toOrientedCmp right left).symm
        rw [downward]
        exact @Std.TransCmp.opposite _ _ upward
      · exact upward
    exact inferInstanceAs (Std.TransCmp (compareLex _ (lexOrder rest)))

def columnKeys (keys : SortKeys) : List ((Values F → ScalarVal F) × Option Bool) :=
  keys.map fun key => ((cell · key.1), key.2)

def rowOrder (keys : SortKeys) : Values F → Values F → Ordering := lexOrder (columnKeys keys)

theorem directed_eq {asc : Option Bool} {order : Ordering} : directed asc order = .eq ↔ order = .eq := by
  unfold directed
  split <;> simp

theorem then_congr {first second third : Ordering} (rest : first = .eq → second = third) :
    first.then second = first.then third := by
  cases first with
  | eq => exact rest rfl
  | lt | gt => rfl

/-- The first key in which the two differ, and all before it, can be compared. -/
def Decided {α : Type} [Floats F] : List ((α → ScalarVal F) × Option Bool) → α → α → Prop
  | [], _, _ => True
  | key :: rest, left, right =>
    (key.1 left).Comparable (key.1 right) ∧ ((key.1 left).order (key.1 right) = .eq → Decided rest left right)

instance decidableDecided {α : Type} [Floats F] [DecidableEq F] :
    ∀ (keys : List ((α → ScalarVal F) × Option Bool)) (left right : α), Decidable (Decided keys left right)
  | [], _, _ => .isTrue trivial
  | _ :: rest, left, right =>
    have := decidableDecided rest left right
    inferInstanceAs (Decidable (_ ∧ (_ → _)))

end Values

section Sorting

variable {F S Q : Type} [Floats F]

/-- The column that an expression stands for: the only one of that name, letter case aside, or the
one at that place. -/
def Names (columns : List String) : Expr F Q → Nat → Prop
  | .identifier name, column => (columns[column]?.any (eqIgnoreAsciiCase · name)) = true ∧
      ∀ other < columns.length, (columns[other]?.any (eqIgnoreAsciiCase · name)) = true → other = column
  | .value (.number raw), column => column < columns.length ∧ parseNat 64 raw = some (column + 1)
  | _, _ => False

def Resolves (columns : List String) : List (OrderByExpr F Q) → SortKeys → Prop :=
  List.Forall₂ fun item key => Names columns item.expr key.1 ∧ key.2 = item.asc

omit [Floats F] in
theorem Names.orderIndex {columns : List String} {expr : Expr F Q} {column : Nat} (names : Names columns expr column) :
    orderIndex columns expr = some column := by
  unfold Names at names
  split at names
  · rename_i name column
    obtain ⟨here, only⟩ := names
    obtain ⟨title, found, same⟩ := (Option.any_eq_true _ _).mp here
    rw [Query.orderIndex, List.findIdx?_eq_some_iff_getElem]
    obtain ⟨inside, rfl⟩ := List.getElem?_eq_some_iff.mp found
    refine ⟨inside, same, fun other before equal => ?_⟩
    have listed : other < columns.length := before.trans inside
    exact before.ne (only other listed (by rw [List.getElem?_eq_getElem listed]; exact equal))
  · rename_i raw column
    rw [Query.orderIndex, names.2]
    simp
  · exact names.elim

/-- Where every pair of rows is decided, the comparison handed to the sort is that of the rows' order. -/
theorem orderCmp_rowOrder {columns : List String} {orderBy : List (OrderByExpr F Q)} {keys : SortKeys} {left right : Values F}
    (resolved : Resolves columns orderBy keys) (decided : Decided (columnKeys keys) left right)
    (leftExact : ∀ value ∈ left, value.isFloat = false) (rightExact : ∀ value ∈ right, value.isFloat = false) :
    orderCmp columns orderBy left right = rowOrder keys left right := by
  induction resolved with
  | nil => rfl
  | @cons item key items keys here _ induction =>
    obtain ⟨names, asc⟩ := here
    obtain ⟨comparable, later⟩ := decided
    have known := ScalarVal.cmpVal_order (isFloat_cell leftExact key.1) (isFloat_cell rightExact key.1) comparable
    simp only [orderCmp, names.orderIndex, rowOrder, columnKeys, List.map_cons, lexOrder, compareLex, ← known, asc]
    -- where the rows differ in this element, the later ones do not matter
    apply then_congr
    intro tied
    rw [directed_eq] at tied
    exact induction (later (known ▸ tied))

namespace QueryExpr

def unordered : QueryExpr F S Q → QueryExpr F S Q
  | .mk ctes body _ _ _ => .mk ctes body [] none none

end QueryExpr

theorem executeQueryInner_ordered {exec : QueryExecutor F S} {query : QueryExpr F S Q}
    (direct : ∀ inner, query.body ≠ .query inner) (catalog : QueryCatalog F) (outerRow : Row F) :
    executeQueryInner exec query.unsliced catalog outerRow =
      (executeQueryInner exec query.unordered catalog outerRow).map (finish exec query.orderBy none none) := by
  rcases query with ⟨ctes, body, orderBy, limit, offset⟩
  simp only [executeQueryInner, QueryExpr.unsliced, QueryExpr.unordered, QueryExpr.orderBy]
  cases extendCatalog exec ctes catalog outerRow with
  | error error => rfl
  | ok extended =>
    change executeBody exec body orderBy none none extended outerRow =
      Except.map _ (executeBody exec body [] none none extended outerRow)
    cases body with
    | select select =>
      rw [executeBody, executeBody]
      cases exec.executeSelectBare select extended outerRow with
      | error error => rfl
      | ok result => simp only [finish_unordered]; rfl
    | query inner => exact absurd rfl (direct inner)
    | setOperation op quantifier left right =>
      rw [executeBody, executeBody]
      cases executeSetexpr exec left extended outerRow with
      | error error => rfl
      | ok first =>
        cases executeSetexpr exec right extended outerRow with
        | error error => rfl
        | ok second => simp only [finish_unordered]; rfl
    | other text => rfl

def orderedQuery : QueryExpr Int (QueryResult Int) Unit :=
  .mk .nil (.select ⟨["a", "b"], [[.int 2, .text "x"], [.null, .text "y"], [.int 1, .text "x"], [.int 3, .text "w"]]⟩)
    [⟨.value (.number "2"), some false⟩, ⟨.identifier "A", none⟩] none none

end Sorting

end Neuralbase.Query
