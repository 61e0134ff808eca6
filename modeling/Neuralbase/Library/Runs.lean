import Mathlib
import Neuralbase.Library.Chronicle

namespace Neuralbase.Library

/-! Grouping a list by runs of equal keys, with the last value of each run.  If no key comes
back after another one, the runs are the keys. -/

variable {α β : Type} [DecidableEq α]

def collapseStep (state : List (α × β) × Option α) (pair : α × β) : List (α × β) × Option α :=
  if state.2 = some pair.1 then (state.1.modifyLast fun row => (row.1, pair.2), state.2)
  else (state.1 ++ [pair], some pair.1)

def collapse (pairs : List (α × β)) : List (α × β) × Option α :=
  pairs.foldl collapseStep ([], none)

def Unbroken (before : List (α × β)) (pair : α × β) : Prop :=
  pair.1 ∈ before.map Prod.fst → before.getLast?.map Prod.fst = some pair.1

variable {pairs : List (α × β)} {pair : α × β} {key : α} {value : β}

theorem collapse_concat : collapse (pairs ++ [pair]) = collapseStep (collapse pairs) pair :=
  List.foldl_concat ..

theorem collapseStep_cases {state : List (α × β) × Option α} (last : state.1.getLast?.map Prod.fst = state.2) :
    (∃ groups row, state.1 = groups ++ [row] ∧ row.1 = pair.1 ∧
      collapseStep state pair = (groups ++ [pair], some pair.1)) ∨
    state.2 ≠ some pair.1 ∧ collapseStep state pair = (state.1 ++ [pair], some pair.1) := by
  rw [collapseStep]
  split
  · rename_i same
    left
    rcases List.eq_nil_or_concat state.1 with empty | ⟨groups, row, split⟩
    · rw [empty, same] at last
      cases last
    · rw [List.concat_eq_append] at split
      rw [split, List.getLast?_concat, same] at last
      have named : row.1 = pair.1 := Option.some.inj last
      exact ⟨groups, row, split, named, by rw [split, List.modifyLast_concat, named, same]⟩
  · rename_i differs
    exact .inr ⟨differs, rfl⟩

theorem collapse_last : (collapse pairs).2 = pairs.getLast?.map Prod.fst ∧
    (collapse pairs).1.getLast?.map Prod.fst = (collapse pairs).2 := by
  induction pairs using List.reverseRecOn with
  | nil => exact ⟨rfl, rfl⟩
  | append_singleton pairs pair induction =>
    rw [collapse_concat]
    rcases @collapseStep_cases _ _ _ pair _ induction.2 with ⟨groups, row, _, _, after⟩ | ⟨_, after⟩
    · simp [after]
    · simp [after]

theorem collapse_cases : (∃ groups row, (collapse pairs).1 = groups ++ [row] ∧ row.1 = pair.1 ∧
      (collapse (pairs ++ [pair])).1 = groups ++ [pair]) ∨
    pairs.getLast?.map Prod.fst ≠ some pair.1 ∧ (collapse (pairs ++ [pair])).1 = (collapse pairs).1 ++ [pair] := by
  obtain ⟨seen, last⟩ := @collapse_last _ _ _ pairs
  rw [collapse_concat]
  rcases @collapseStep_cases _ _ _ pair _ last with ⟨groups, row, before, named, after⟩ | ⟨differs, after⟩
  · exact .inl ⟨groups, row, before, named, by rw [after]⟩
  · exact .inr ⟨seen ▸ differs, by rw [after]⟩

theorem mem_collapse_keys : key ∈ (collapse pairs).1.map Prod.fst ↔ key ∈ pairs.map Prod.fst := by
  induction pairs using List.reverseRecOn with
  | nil => rfl
  | append_singleton pairs pair induction =>
    rcases @collapse_cases _ _ _ pairs pair with ⟨groups, row, before, named, after⟩ | ⟨_, after⟩
    · rw [before] at induction
      rw [after, List.map_append, List.map_append, List.mem_append, List.mem_append, ← induction]
      simp [named]
    · simp only [after, List.map_append, List.mem_append, induction]

theorem collapse_sublist : ((collapse pairs).1.map Prod.fst).Sublist (pairs.map Prod.fst) := by
  induction pairs using List.reverseRecOn with
  | nil => exact List.Sublist.refl _
  | append_singleton pairs pair induction =>
    rw [List.map_append]
    rcases @collapse_cases _ _ _ pairs pair with ⟨groups, row, before, named, after⟩ | ⟨_, after⟩
    · rw [before, List.map_append, List.map_singleton, named] at induction
      rw [after, List.map_append, List.map_singleton]
      exact induction.trans (List.sublist_append_left _ _)
    · rw [after, List.map_append]
      exact induction.append (List.Sublist.refl _)

theorem mem_of_collapse (inside : pair ∈ (collapse pairs).1) : pair ∈ pairs := by
  induction pairs using List.reverseRecOn with
  | nil => cases inside
  | append_singleton pairs last induction =>
    rcases @collapse_cases _ _ _ pairs last with ⟨groups, row, before, _, after⟩ | ⟨_, after⟩
    · rw [after, List.mem_append] at inside
      exact List.mem_append.mpr (inside.imp_left fun earlier =>
        induction (before ▸ List.mem_append_left _ earlier))
    · rw [after, List.mem_append] at inside
      exact List.mem_append.mpr (inside.imp_left induction)

theorem collapse_unbroken (unbroken : EachAfter Unbroken pairs) :
    ((collapse pairs).1.map Prod.fst).Nodup ∧ ∀ key value, (key, value) ∈ (collapse pairs).1 ↔
      (pairs.filter fun pair => pair.1 = key).getLast? = some (key, value) := by
  induction pairs using List.reverseRecOn with
  | nil => exact ⟨List.nodup_nil, fun key value => by simp [collapse]⟩
  | append_singleton pairs pair induction =>
    obtain ⟨earlier, last⟩ := eachAfter_concat.mp unbroken
    obtain ⟨distinct, members⟩ := induction earlier
    -- In both cases the groups are those of the other keys and one for the new pair.
    obtain ⟨groups, after, absent, others⟩ : ∃ groups, (collapse (pairs ++ [pair])).1 = groups ++ [pair] ∧
        pair.1 ∉ groups.map Prod.fst ∧ (groups.map Prod.fst).Nodup ∧
        ∀ row, row.1 ≠ pair.1 → (row ∈ groups ↔ row ∈ (collapse pairs).1) := by
      rcases @collapse_cases _ _ _ pairs pair with ⟨groups, row, before, named, after⟩ | ⟨differs, after⟩
      · rw [before, List.map_append, List.map_singleton, List.nodup_append] at distinct
        refine ⟨groups, after, fun inside => ?_, distinct.1, fun other apart => ?_⟩
        · exact distinct.2.2 _ inside _ (List.mem_singleton_self _) named.symm
        · rw [before, List.mem_append, List.mem_singleton]
          exact ⟨.inl, fun member => member.resolve_right fun same => apart (same ▸ named)⟩
      · exact ⟨_, after, fun inside => differs (last (mem_collapse_keys.mp inside)), distinct, fun _ _ => Iff.rfl⟩
    refine ⟨?_, fun key value => ?_⟩
    · rw [after, List.map_append, List.nodup_append]
      refine ⟨others.1, List.nodup_singleton _, fun key inside other here => ?_⟩
      rintro rfl
      cases List.mem_singleton.mp here
      exact absent inside
    · rw [after, List.mem_append, List.mem_singleton, List.filter_append]
      by_cases same : key = pair.1
      · subst same
        rw [List.filter_singleton, decide_eq_true rfl, cond_true, List.getLast?_concat, Option.some_inj]
        refine ⟨fun member => ?_, fun found => .inr found.symm⟩
        rcases member with inside | here
        · exact absurd (List.mem_map_of_mem inside) absent
        · exact here.symm
      · have apart : ¬ pair.1 = key := fun named => same named.symm
        rw [List.filter_singleton, decide_eq_false apart, cond_false, List.append_nil, ← members,
          others.2 (key, value) same]
        refine ⟨fun member => member.resolve_right ?_, .inl⟩
        rintro rfl
        exact same rfl

theorem unbroken_of_nodup (distinct : ((collapse pairs).1.map Prod.fst).Nodup) : EachAfter Unbroken pairs := by
  induction pairs using List.reverseRecOn with
  | nil => exact eachAfter_nil
  | append_singleton pairs pair induction =>
    rw [eachAfter_concat]
    rcases @collapse_cases _ _ _ pairs pair with ⟨groups, row, before, named, after⟩ | ⟨_, after⟩
    · rw [after, List.map_append, List.map_singleton, ← named] at distinct
      refine ⟨induction (by rwa [before, List.map_append, List.map_singleton]), fun _ => ?_⟩
      obtain ⟨seen, last⟩ := @collapse_last _ _ _ pairs
      rw [← seen, ← last, before, List.getLast?_concat, Option.map_some, named]
    · rw [after, List.map_append, List.nodup_append] at distinct
      refine ⟨induction distinct.1, fun repeated => ?_⟩
      exact absurd rfl (distinct.2.2 _ (mem_collapse_keys.mpr repeated) _ (List.mem_singleton_self _))

omit [DecidableEq α] in
/-- Between two pairs of one key are pairs of that key only. -/
theorem EachAfter.between (unbroken : EachAfter Unbroken pairs) {front middle rest : List (α × β)} {first last : α × β}
    (split : pairs = front ++ first :: middle ++ last :: rest) (same : first.1 = last.1) :
    ∀ pair ∈ middle, pair.1 = first.1 := by
  induction middle using List.reverseRecOn generalizing last rest with
  | nil => exact nofun
  | append_singleton middle pair induction =>
    have repeated : last.1 ∈ (front ++ first :: (middle ++ [pair])).map Prod.fst := by
      rw [← same]
      exact List.mem_map_of_mem (by simp)
    have named := unbroken _ _ _ split repeated
    rw [← List.cons_append, ← List.append_assoc, List.getLast?_concat, Option.map_some, Option.some_inj] at named
    intro other inside
    rcases List.mem_append.mp inside with earlier | here
    · refine @induction (last :: rest) pair ?_ (same.trans named.symm) other earlier
      simp [split]
    · rw [List.mem_singleton.mp here, named, same]

end Neuralbase.Library
