import Neuralbase.Storage.Database

namespace Neuralbase.Storage

open Neuralbase.Library
open Neuralbase.Consensus (Bytes)

/-! The newest version of each row, which is what a read without a snapshot bound sees. -/

def isVersionOf (tableId : UInt32) (pk key : Bytes) : Bool :=
  decide (encodeKeyPrefix tableId pk <+: key) &&
    decide (key.length = (encodeKeyPrefix tableId pk).length + 8)

section Newest

variable {data after : ColumnFamily} {tableId : UInt32} {pk key value : Bytes} {ts : HlcTimestamp}
  {result : Option Bytes}

theorem isVersionOf_iff : isVersionOf tableId pk key = true ↔
    ∃ ts : HlcTimestamp, ts.Fits ∧ key = encodeVersionedKey tableId pk ts := by
  rw [isVersionOf, Bool.and_eq_true, decide_eq_true_eq, decide_eq_true_eq]
  constructor
  · rintro ⟨starts, length⟩
    exact exists_version starts length
  · rintro ⟨ts, _, rfl⟩
    exact ⟨List.prefix_append _ _, by simp [encodeVersionedKey]⟩

theorem newest_getLast {entries : List (Bytes × Bytes)} {bound : HlcTimestamp}
    (sorted : entries.Pairwise fun left right => left.1 < right.1)
    (members : ∀ entry, entry ∈ entries ↔ ∃ ts : HlcTimestamp, ts ≤ bound ∧
      entry.1 = encodeVersionedKey tableId pk ts ∧ versionsOf data tableId pk ts = some entry.2) :
    Newest (versionsOf data tableId pk) bound (entries.getLast?.map Prod.snd) := by
  cases last : entries.getLast? with
  | none =>
    intro stamp below
    by_contra found
    obtain ⟨held, stored⟩ := Option.ne_none_iff_exists'.mp found
    have inside := (members (encodeVersionedKey tableId pk stamp, held)).mpr ⟨stamp, below, rfl, stored⟩
    rw [List.getLast?_eq_none_iff.mp last] at inside
    cases inside
  | some entry =>
    obtain ⟨before, split⟩ := List.getLast?_eq_some_iff.mp last
    obtain ⟨ts, below, same, stored⟩ := (members entry).mp (split ▸ List.mem_concat_self)
    have fits := (versionsOf_ne_none.mp (by rw [stored]; simp)).1
    refine ⟨ts, below, stored, fun stamp under found => ?_⟩
    obtain ⟨held, there⟩ := Option.ne_none_iff_exists'.mp found
    have inside : (encodeVersionedKey tableId pk stamp, held) ∈ before ++ [entry] :=
      split ▸ (members _).mpr ⟨stamp, under, rfl, there⟩
    have bounded := (versionsOf_ne_none.mp found).1
    rw [← encodeVersionedKey_le bounded fits, ← same]
    rw [split] at sorted
    rcases List.mem_append.mp inside with earlier | here
    · exact ((List.pairwise_append.mp sorted).2.2 _ earlier _ (List.mem_singleton_self _)).le
    · exact (congrArg Prod.fst (List.mem_singleton.mp here)).le

end Newest

end Neuralbase.Storage
