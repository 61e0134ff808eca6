import Mathlib
import Neuralbase.Storage.Gc

namespace Neuralbase.Storage

open Neuralbase.Library
open Neuralbase.Consensus (Bytes)

/-! What the collector deletes: versions that a newer one of the same key hides at the
horizon.  And what a reverse seek makes of a store from which such versions are gone. -/

section Scan

variable {data : ColumnFamily} {tableId : UInt32} {pk key value : Bytes} {ts : HlcTimestamp}

theorem mem_rawScanTableVersions (inside : (key, value) ∈ rawScanTableVersions data tableId) :
    data.get key = some value ∧ inTable tableId key = true := by
  unfold rawScanTableVersions at inside
  have passed := List.mem_takeWhile_imp inside
  exact ⟨(SortedMap.mem_seek.mp ((List.takeWhile_sublist _).subset inside)).2, passed⟩

theorem rawScanTableVersions_sorted :
    (rawScanTableVersions data tableId).Pairwise fun left right => left.1 < right.1 :=
  SortedMap.seek_sorted.sublist (List.takeWhile_sublist _)

theorem version_of_inTable (scanned : inTable tableId key = true)
    (primary : decodePkFromKey key = some pk) (stamp : decodeTsFromKey key = some ts) :
    ts.Fits ∧ key = encodeVersionedKey tableId pk ts := by
  obtain ⟨long, table⟩ : 12 ≤ key.length ∧ key.take 4 = toBeBytes 4 tableId.toNat := by
    simpa [inTable] using scanned
  rw [decodePkFromKey, if_neg (not_lt.mpr long)] at primary
  have stem : encodeKeyPrefix tableId pk = key.take (4 + (key.length - 12)) := by
    rw [encodeKeyPrefix, ← table, ← Option.some.inj primary, List.take_add]
  obtain ⟨found, bounded, rfl⟩ := exists_version (stem ▸ List.take_prefix _ key) (by
    rw [stem, List.length_take]
    omega)
  rw [decodeTsFromKey_encode bounded] at stamp
  cases stamp
  exact ⟨bounded, rfl⟩

theorem mem_tableVersions (inside : (pk, ts, key) ∈ tableVersions data tableId) :
    ts.Fits ∧ key = encodeVersionedKey tableId pk ts ∧ data.get key ≠ none := by
  obtain ⟨⟨raw, value⟩, scanned, decoded⟩ := List.mem_filterMap.mp inside
  obtain ⟨found, table⟩ := mem_rawScanTableVersions scanned
  obtain ⟨primary, first, second⟩ := Option.bind_eq_some_iff.mp decoded
  obtain ⟨stamp, last, same⟩ := Option.map_eq_some_iff.mp second
  cases same
  obtain ⟨bounded, shape⟩ := version_of_inTable table first last
  exact ⟨bounded, shape, by simp [found]⟩

theorem tableVersions_sorted :
    (SortedMap.itemsOf (tableVersions data tableId) pk).Pairwise fun left right =>
      left.1 < right.1 := by
  have keys : (tableVersions data tableId).Pairwise fun left right => left.2.2 < right.2.2 := by
    refine rawScanTableVersions_sorted.filterMap _ ?_
    intro left right below lower first upper second
    obtain ⟨_, _, first⟩ := Option.bind_eq_some_iff.mp first
    obtain ⟨_, _, rfl⟩ := Option.map_eq_some_iff.mp first
    obtain ⟨_, _, second⟩ := Option.bind_eq_some_iff.mp second
    obtain ⟨_, _, rfl⟩ := Option.map_eq_some_iff.mp second
    exact below
  have stamps : (tableVersions data tableId).Pairwise fun left right =>
      left.1 = right.1 → left.2.1 < right.2.1 := by
    refine keys.imp_of_mem ?_
    rintro ⟨pk, ts, key⟩ ⟨other, stamp, raw⟩ first second below rfl
    obtain ⟨fits, rfl, _⟩ := mem_tableVersions first
    obtain ⟨bounded, rfl, _⟩ := mem_tableVersions second
    rw [← not_le] at below ⊢
    exact fun above => below ((encodeVersionedKey_le bounded fits).mpr above)
  refine stamps.filterMap _ ?_
  intro left right below lower first upper second
  simp only [Option.ite_none_right_eq_some, Option.some.injEq] at first second
  obtain ⟨here, rfl⟩ := first
  obtain ⟨there, rfl⟩ := second
  exact below (here.trans there.symm)

theorem exists_above_of_mem_dropLast {α : Type} {R : α → α → Prop} {items : List α} {item : α}
    (sorted : items.Pairwise R) (inside : item ∈ items.dropLast) : ∃ last ∈ items, R item last := by
  rcases List.eq_nil_or_concat items with rfl | ⟨front, last, rfl⟩
  · cases inside
  · rw [List.concat_eq_append] at sorted inside ⊢
    rw [List.dropLast_concat] at inside
    exact ⟨last, List.mem_concat_self, (List.pairwise_append.mp sorted).2.2 _ inside _ (by simp)⟩

theorem mem_gcTable {safeHorizon : HlcTimestamp} (victim : (pk, ts) ∈ gcTable data tableId safeHorizon) :
    ∃ key newer raw, (pk, ts, key) ∈ tableVersions data tableId ∧
      (pk, newer, raw) ∈ tableVersions data tableId ∧ ts < newer ∧ newer ≤ safeHorizon := by
  obtain ⟨⟨primary, versions⟩, group, collected⟩ := List.mem_flatMap.mp victim
  obtain ⟨⟨stamp, key⟩, chosen, decoded⟩ := List.mem_filterMap.mp collected
  obtain ⟨found, decoded, same⟩ := Option.map_eq_some_iff.mp decoded
  cases same
  have members := SortedMap.mem_groups group
  have sorted : versions.Pairwise fun left right => left.1 < right.1 := members ▸ tableVersions_sorted
  have ordered : (versions.insertionSort fun left right => left.1 ≤ right.1) = versions :=
    (sorted.imp fun below => below.le).insertionSort_eq
  rw [collectible, ordered] at chosen
  obtain ⟨⟨newer, raw⟩, kept, below⟩ := exists_above_of_mem_dropLast (sorted.filter _) chosen
  obtain ⟨newest, within⟩ := List.mem_filter.mp kept
  have oldest := (List.mem_filter.mp (List.mem_of_mem_dropLast chosen)).1
  rw [members] at newest oldest
  have here := SortedMap.mem_itemsOf.mp oldest
  obtain ⟨fits, rfl, _⟩ := mem_tableVersions here
  rw [decodePkFromKey_encode] at decoded
  cases decoded
  exact ⟨_, newer, raw, here, SortedMap.mem_itemsOf.mp newest, below, of_decide_eq_true within⟩

end Scan

section Seeks

variable {full thin : ColumnFamily} {tableId : UInt32} {pk : Bytes} {bound : HlcTimestamp}

/-- What a reverse seek finds for `pk`. -/
def landing (data : ColumnFamily) (tableId : UInt32) (pk : Bytes) (bound : HlcTimestamp) : Option (Bytes × Bytes) :=
  (data.seekForPrev (encodeVersionedKey tableId pk bound)).filter fun found =>
    decide (encodeKeyPrefix tableId pk <+: found.1)

theorem readLatest_eq_landing : readLatest full tableId pk bound = (landing full tableId pk bound).map Prod.snd := by
  unfold readLatest landing
  cases full.seekForPrev (encodeVersionedKey tableId pk bound) with
  | none => rfl
  | some found => by_cases starts : encodeKeyPrefix tableId pk <+: found.1 <;> simp [Option.filter, starts]

theorem latestVisibleTsAny_eq_landing : latestVisibleTsAny full tableId pk =
    (landing full tableId pk .max).bind fun found => decodeTsFromKey found.1 := by
  unfold latestVisibleTsAny landing
  cases full.seekForPrev (encodeVersionedKey tableId pk .max) with
  | none => rfl
  | some found => by_cases starts : encodeKeyPrefix tableId pk <+: found.1 <;> simp [Option.filter, starts]

/-- `thin` has only entries of `full`. -/
def Fewer (thin full : ColumnFamily) : Prop :=
  ∀ key value, thin.get key = some value → full.get key = some value

/-- A seek that lands on its own key in the full store lands there in the thinned one, if
only versions are gone that a newer one hides. -/
theorem landing_thin (fewer : Fewer thin full) (own : SeeksOwn full tableId pk bound) (fits : bound.Fits)
    (hidden : ∀ stamp ≤ bound, versionsOf full tableId pk stamp ≠ none → versionsOf thin tableId pk stamp = none →
      ∃ newer ≤ bound, stamp < newer ∧ versionsOf full tableId pk newer ≠ none) :
    landing thin tableId pk bound = landing full tableId pk bound := by
  unfold landing
  cases landed : full.seekForPrev (encodeVersionedKey tableId pk bound) with
  | none =>
    have empty : thin.seekForPrev (encodeVersionedKey tableId pk bound) = none :=
      SortedMap.seekForPrev_eq_none.mpr fun other held found =>
        SortedMap.seekForPrev_eq_none.mp landed other held (fewer other held found)
    rw [empty]
  | some entry =>
    obtain ⟨key, value⟩ := entry
    obtain ⟨found, below, greatest⟩ := SortedMap.seekForPrev_eq_some.mp landed
    by_cases starts : encodeKeyPrefix tableId pk <+: key
    · obtain ⟨stamp, under, rfl, bounded, there, newest⟩ := own.lands fits landed starts
      have kept : thin.get (encodeVersionedKey tableId pk stamp) = some value := by
        cases held : thin.get (encodeVersionedKey tableId pk stamp) with
        | some other => rw [← found, fewer _ _ held]
        | none =>
          obtain ⟨newer, within, later, stored⟩ := hidden stamp under (by simp [there])
            (by rw [versionsOf, if_pos bounded, held])
          exact absurd (newest newer within stored) (not_le.mpr later)
      have again : thin.seekForPrev (encodeVersionedKey tableId pk bound) =
          some (encodeVersionedKey tableId pk stamp, value) :=
        SortedMap.seekForPrev_eq_some.mpr ⟨kept, below, fun other held inside lower =>
          greatest other held (fewer other held inside) lower⟩
      rw [again]
    · have nothing : ((some (key, value) : Option (Bytes × Bytes)).filter fun found =>
          decide (encodeKeyPrefix tableId pk <+: found.1)) = none := by simp [starts]
      rw [nothing]
      refine Option.filter_eq_none_iff.mpr fun other found => ?_
      obtain ⟨inside, lower, _⟩ := SortedMap.seekForPrev_eq_some.mp found
      have above := greatest _ _ (fewer _ _ inside) lower
      simp only [decide_eq_true_eq]
      rintro ⟨rest, same⟩
      rw [← same] at above
      exact starts (prefix_of_between above below)

end Seeks

end Neuralbase.Storage
