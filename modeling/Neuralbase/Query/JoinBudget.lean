import Neuralbase.Library.Result
import Neuralbase.Query.Joins

namespace Neuralbase.Query

open Neuralbase.Library

/-! How large the relations of a FROM clause get.  Each form of join checks its budget in another
place: before its loop, at every pair, or only where there is a right row to look at. -/

section Loops

variable {F Q : Type} {operation : String} {out final left right : List (Row F)} {row : Row F}

theorem pushRow_length (pushed : pushRow operation out row = .ok final) : final.length ≤ intermediateRowsBudget := by
  rw [pushRow] at pushed
  split_ifs at pushed with full
  cases pushed
  rw [List.length_append, List.length_singleton]
  omega

/-- Loops whose every push is checked. -/
theorem pushRows_length {rows : Row F → List (Row F)}
    (ran : left.foldlM (fun out leftRow => (rows leftRow).foldlM (pushRow operation) out) [] = .ok final) :
    final.length ≤ intermediateRowsBudget := by
  refine foldlM_keeps (fun out => out.length ≤ intermediateRowsBudget) ran (Nat.zero_le _) ?_
  intro before leftRow after small pushed
  exact foldlM_keeps (fun out => out.length ≤ intermediateRowsBudget) pushed small fun _ _ _ _ => pushRow_length

theorem hashJoinKeyed_length {executor : Executor F Q} {leftKey rightKey : String}
    (joined : hashJoinKeyed executor left right leftKey rightKey = .ok final) :
    final.length ≤ intermediateRowsBudget :=
  pushRows_length joined

theorem crossProduct_length (joined : crossProduct left right = .ok final) : final.length ≤ intermediateRowsBudget :=
  pushRows_length joined

end Loops

section Joins

variable {F Q : Type} [Floats F] {executor : Executor F Q} {outerRow : Row F} {left right final : List (Row F)}
  {on : Option (Expr F Q)}

theorem innerJoin_length (joined : innerJoin executor outerRow left right on = .ok final) :
    final.length ≤ intermediateRowsBudget ∧ left.length * right.length ≤ crossJoinBudget := by
  rw [innerJoin] at joined
  split_ifs at joined with tooMany
  obtain ⟨combined, crossed, kept⟩ := bind_eq_ok.mp joined
  cases pure_eq_ok.mp kept
  exact ⟨(List.length_filter_le _ _).trans (crossProduct_length crossed), Nat.not_lt.mp tooMany⟩

/-- After a look at a right row there is room for the padding, unless a row has matched. -/
def Roomy (state : List (Row F) × Bool) : Prop :=
  state.1.length ≤ intermediateRowsBudget ∧ (state.2 = false → state.1.length < intermediateRowsBudget)

theorem roomy_matchRight {leftRow rightRow : Row F} {state next : List (Row F) × Bool}
    (matched : matchRight executor outerRow on leftRow state rightRow = .ok next) : Roomy next := by
  rw [matchRight] at matched
  split_ifs at matched with full kept
  · cases matched
    refine ⟨?_, fun none_found => by cases none_found⟩
    simp only [List.length_append, List.length_singleton]
    omega
  · cases matched
    have below := Nat.not_le.mp full
    exact ⟨below.le, fun _ => below⟩

theorem roomy_right {leftRow : Row F} {state next : List (Row F) × Bool} (some_right : right ≠ [])
    (ran : right.foldlM (matchRight executor outerRow on leftRow) state = .ok next) : Roomy next := by
  obtain ⟨first, rest, rfl⟩ := List.exists_cons_of_ne_nil some_right
  rw [List.foldlM_cons] at ran
  obtain ⟨middle, matched, others⟩ := bind_eq_ok.mp ran
  exact foldlM_keeps Roomy others (roomy_matchRight matched) fun _ _ _ _ => roomy_matchRight

theorem leftOuterJoin_nil : leftOuterJoin executor outerRow left [] on = .ok (left.map (· ++ [])) := by
  have each (out : List (Row F)) : left.foldlM (joinLeftRow executor outerRow [] on) out =
      .ok (out ++ left.map (· ++ [])) := by
    induction left generalizing out with
    | nil => simp [pure, Except.pure]
    | cons leftRow left induction =>
      rw [List.foldlM_cons]
      refine (induction (out ++ [leftRow ++ []])).trans ?_
      simp
  exact each []

theorem leftOuterJoin_length (joined : leftOuterJoin executor outerRow left right on = .ok final) :
    final.length ≤ intermediateRowsBudget ↔ right ≠ [] ∨ left.length ≤ intermediateRowsBudget := by
  by_cases empty : right = []
  · subst empty
    rw [leftOuterJoin_nil] at joined
    cases joined
    rw [List.length_map]
    exact (or_iff_right (not_not.mpr rfl)).symm
  · refine iff_of_true ?_ (.inl empty)
    rw [leftOuterJoin] at joined
    refine foldlM_keeps (fun out => out.length ≤ intermediateRowsBudget) joined (Nat.zero_le _) ?_
    intro before leftRow after _ took
    obtain ⟨⟨out, found⟩, ran, padded⟩ := bind_eq_ok.mp took
    cases pure_eq_ok.mp padded
    have roomy := roomy_right empty ran
    cases found with
    | true => exact roomy.1
    | false =>
      have below := roomy.2 rfl
      simp only [Bool.false_eq_true, if_false, List.length_append, List.length_singleton]
      exact below

end Joins

section Steps

variable {F Q : Type} [Floats F] {executor : Executor F Q} {outerRow : Row F} {whereExpr : Option (Expr F Q)}
  {equiPairs : List (String × String)} {before after : Progress F} {step : JoinStep}

/-- A left join looks at a right row, or has few left rows. -/
def JoinStep.Checked (step : JoinStep) : Prop :=
  step.kind = .leftOuter → 0 < step.right ∨ step.left ≤ intermediateRowsBudget

def JoinStep.Within (step : JoinStep) : Prop :=
  step.out ≤ intermediateRowsBudget ∧ (step.kind = .nested → step.left * step.right ≤ crossJoinBudget)

/-- The steps within their budgets are those that were checked. -/
def Budgeted (progress : Progress F) : Prop :=
  ∀ step ∈ progress.steps, step.Within ↔ step.Checked

theorem JoinStep.within_of_out (checked : step.kind ≠ .leftOuter) (small : step.out ≤ intermediateRowsBudget)
    (pairs : step.kind = .nested → step.left * step.right ≤ crossJoinBudget) : step.Within ↔ step.Checked :=
  iff_of_true ⟨small, pairs⟩ fun outer => absurd outer checked

omit [Floats F] in
theorem Budgeted.extend {kind : JoinKind} {right out : List (Row F)} (budgeted : Budgeted before)
    (within : JoinStep.Within ⟨kind, before.rows.length, right.length, out.length⟩ ↔
      JoinStep.Checked ⟨kind, before.rows.length, right.length, out.length⟩) :
    Budgeted (before.after kind right out) := by
  intro step inside
  rcases List.mem_append.mp inside with earlier | last
  · exact budgeted step earlier
  · rw [List.mem_singleton.mp last]
    exact within

theorem Budgeted.joinTable {result : Option (Progress F)} {relation : TableFactor Q}
    (budgeted : ∀ progress ∈ result, Budgeted progress)
    (joined : joinTable executor outerRow equiPairs whereExpr result relation = .ok after) : Budgeted after := by
  rw [Query.joinTable] at joined
  obtain ⟨rows, _, joined⟩ := bind_eq_ok.mp joined
  cases result with
  | none =>
    cases pure_eq_ok.mp joined
    intro step inside
    cases inside
  | some before =>
    have earlier := budgeted before rfl
    dsimp only at joined
    split at joined
    · obtain ⟨out, hashed, last⟩ := bind_eq_ok.mp joined
      cases pure_eq_ok.mp last
      exact earlier.extend (JoinStep.within_of_out nofun (hashJoinKeyed_length hashed) nofun)
    · split_ifs at joined with tooMany
      obtain ⟨out, crossed, last⟩ := bind_eq_ok.mp joined
      cases pure_eq_ok.mp last
      exact earlier.extend (JoinStep.within_of_out nofun (crossProduct_length crossed) fun _ => Nat.not_lt.mp tooMany)

theorem Budgeted.joinOn {join : Join F Q} (budgeted : Budgeted before)
    (joined : joinOn executor outerRow whereExpr before join = .ok after) : Budgeted after := by
  rw [Query.joinOn] at joined
  obtain ⟨rows, _, joined⟩ := bind_eq_ok.mp joined
  dsimp only at joined
  split_ifs at joined
  · obtain ⟨out, outer, last⟩ := bind_eq_ok.mp joined
    cases pure_eq_ok.mp last
    refine budgeted.extend ⟨fun within _ => ?_, fun checked => ⟨?_, nofun⟩⟩
    · exact ((leftOuterJoin_length outer).mp within.1).imp_left List.length_pos_of_ne_nil
    · exact (leftOuterJoin_length outer).mpr ((checked rfl).imp_left List.ne_nil_of_length_pos)
  · split at joined
    · obtain ⟨combined, hashed, last⟩ := bind_eq_ok.mp joined
      cases pure_eq_ok.mp last
      exact budgeted.extend
        (JoinStep.within_of_out nofun ((List.length_filter_le _ _).trans (hashJoinKeyed_length hashed)) nofun)
    · obtain ⟨out, inner, last⟩ := bind_eq_ok.mp joined
      cases pure_eq_ok.mp last
      exact budgeted.extend
        (JoinStep.within_of_out nofun (innerJoin_length inner).1 fun _ => (innerJoin_length inner).2)

/-- Every join step of a FROM clause keeps to the budgets exactly if each of its left joins has a
right row or few left rows. -/
theorem resolveFrom_budgeted (executor : Executor F Q) (outerRow : Row F) (source : List (TableWithJoins F Q))
    (equiPairs : List (String × String)) (whereExpr : Option (Expr F Q)) (progress : Progress F)
    (resolved : resolveFrom executor outerRow source equiPairs whereExpr = .ok progress) :
    (∀ step ∈ progress.steps, step.out ≤ intermediateRowsBudget ∧
      (step.kind = .nested → step.left * step.right ≤ crossJoinBudget)) ↔
    ∀ step ∈ progress.steps, step.kind = .leftOuter → 0 < step.right ∨ step.left ≤ intermediateRowsBudget := by
  suffices budgeted : Budgeted progress from forall₂_congr budgeted
  rw [resolveFrom] at resolved
  split_ifs at resolved
  · cases resolved
    intro step inside
    cases inside
  · obtain ⟨result, ran, last⟩ := bind_eq_ok.mp resolved
    cases pure_eq_ok.mp last
    have every : ∀ progress ∈ result, Budgeted progress := by
      refine foldlM_keeps (fun result => ∀ progress ∈ result, Budgeted progress) ran (by simp) ?_
      intro before entry after budgeted took progress member
      obtain ⟨table, joined, took⟩ := bind_eq_ok.mp took
      obtain ⟨final, joins, last⟩ := bind_eq_ok.mp took
      cases pure_eq_ok.mp last
      cases member
      exact foldlM_keeps Budgeted joins (Budgeted.joinTable budgeted joined) fun _ _ _ => Budgeted.joinOn
    cases result with
    | none =>
      intro step inside
      cases inside
    | some progress => exact every progress rfl

/-- A catalog of two tables. -/
def twoTables (big small : List (Row Int)) : Executor Int Unit where
  typedString _ := .null
  likeMatch _ _ := false
  toUppercase text := text
  scalarToString _ := ""
  cast _ value := value
  extract _ value := value
  trim text := text
  function _ _ := .ok .null
  executeQuery _ _ := .error (.unsupported "subquery")
  tables name := if name = "big" then some big else if name = "small" then some small else none
  toLowercase text := text
  formatFloat _ := ""
  setOrder pairs := pairs

/-- `FROM big LEFT JOIN small`. -/
def leftJoined : List (TableWithJoins Int Unit) :=
  [{ relation := .table "big" none, joins := [{ relation := .table "small" none, joinOperator := .leftOuter .other }] }]

theorem resolveFrom_leftJoined (big : List (Row Int)) :
    resolveFrom (twoTables big []) [] leftJoined [] none =
      .ok { rows := (big.map (qualifyRow · "big")).map (· ++ []),
            steps := [{ kind := .leftOuter, left := big.length, right := 0, out := big.length }] } := by
  have joined : joinOn (twoTables big []) [] none { rows := big.map (qualifyRow · "big"), steps := [] }
      { relation := .table "small" none, joinOperator := .leftOuter .other } =
        .ok (Progress.after { rows := big.map (qualifyRow · "big"), steps := [] } .leftOuter []
          ((big.map (qualifyRow · "big")).map (· ++ []))) := by
    show (leftOuterJoin (twoTables big []) [] (big.map (qualifyRow · "big")) [] none >>= _) = _
    rw [leftOuterJoin_nil]
    rfl
  have table : joinTable (twoTables big []) [] [] none none (.table "big" none) =
      .ok { rows := big.map (qualifyRow · "big"), steps := [] } := rfl
  rw [resolveFrom, leftJoined, List.foldlM_cons, joinEntry, table]
  simp only [List.isEmpty_cons, Bool.false_eq_true, if_false, bind, Except.bind, List.foldlM_cons, joined]
  simp [Progress.after, pure, Except.pure]

/-- `FROM big, small LEFT JOIN big AS more`: a nested loop, then a left join with right rows. -/
def crossedAndLeftJoined : List (TableWithJoins Int Unit) :=
  [{ relation := .table "big" none, joins := [] },
    { relation := .table "small" none
      joins := [{ relation := .table "big" (some "more"), joinOperator := .leftOuter .other }] }]

def sampleTables : Executor Int Unit := twoTables [[("a", .int 1)], [("a", .int 2)]] [[("b", .int 3)]]

theorem resolveFrom_three_tables : ∃ progress : Progress Int,
    resolveFrom sampleTables [] crossedAndLeftJoined [] none = .ok progress ∧
      progress.steps = [⟨.nested, 2, 1, 2⟩, ⟨.leftOuter, 2, 2, 4⟩] ∧
      ∀ step ∈ progress.steps, step.out ≤ intermediateRowsBudget ∧
        (step.kind = .nested → step.left * step.right ≤ crossJoinBudget) := by
  refine ⟨_, rfl, rfl, ?_⟩
  exact (resolveFrom_budgeted sampleTables [] crossedAndLeftJoined [] none _ rfl).mpr (by decide)

/-- No right row is looked at, so nothing is checked. -/
theorem leftJoin_exceeds_budget : ∃ progress : Progress Int,
    resolveFrom (twoTables (List.replicate 200001 []) []) [] leftJoined [] none = .ok progress ∧
      ∃ step ∈ progress.steps, intermediateRowsBudget < step.out := by
  refine ⟨_, resolveFrom_leftJoined _, _, List.mem_cons_self, ?_⟩
  rw [List.length_replicate]
  decide

end Steps

end Neuralbase.Query
