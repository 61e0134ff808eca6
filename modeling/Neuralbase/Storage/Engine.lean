import Mathlib
import Neuralbase.Consensus.Rpc
import Neuralbase.Library.SortedMap
import Neuralbase.Library.Versions
import Neuralbase.Storage.Hlc

namespace Neuralbase.Storage

open Neuralbase.Library
open Neuralbase.Consensus (Bytes)

/-! The storage engine (`storage.rs`).  A row version is kept in the data column
family under `[table_id: 4][pk][ts: 8]`, so that the versions of one primary key
lie in timestamp order. -/

abbrev ColumnFamily := SortedMap Bytes Bytes

section Keys

def encodeKeyPrefix (tableId : UInt32) (pk : Bytes) : Bytes := toBeBytes 4 tableId.toNat ++ pk

def encodeVersionedKey (tableId : UInt32) (pk : Bytes) (ts : HlcTimestamp) : Bytes :=
  encodeKeyPrefix tableId pk ++ ts.toBytes

def decodeTsFromKey (key : Bytes) : Option HlcTimestamp :=
  if key.length < 8 then none else some (HlcTimestamp.fromBytes (key.drop (key.length - 8)))

def decodePkFromKey (key : Bytes) : Option Bytes :=
  if key.length < 12 then none else some ((key.drop 4).take (key.length - 12))

variable {tableId other : UInt32} {pk row : Bytes} {ts stamp : HlcTimestamp}

@[simp] theorem length_encodeKeyPrefix : (encodeKeyPrefix tableId pk).length = 4 + pk.length := by
  simp [encodeKeyPrefix]

@[simp] theorem length_encodeVersionedKey :
    (encodeVersionedKey tableId pk ts).length = pk.length + 12 := by
  simp only [encodeVersionedKey, List.length_append, length_encodeKeyPrefix,
    HlcTimestamp.length_toBytes]
  omega

theorem decodeTsFromKey_encode (fits : ts.Fits) : decodeTsFromKey (encodeVersionedKey tableId pk ts) = some ts := by
  have long : ¬ (encodeVersionedKey tableId pk ts).length < 8 := by simp
  have cut : (encodeVersionedKey tableId pk ts).length - 8 = (encodeKeyPrefix tableId pk).length := by
    simp only [length_encodeVersionedKey, length_encodeKeyPrefix]
    omega
  rw [decodeTsFromKey, if_neg long, cut, encodeVersionedKey, List.drop_left,
    HlcTimestamp.fromBytes_toBytes fits]

theorem decodePkFromKey_encode : decodePkFromKey (encodeVersionedKey tableId pk ts) = some pk := by
  have long : ¬ (encodeVersionedKey tableId pk ts).length < 12 := by simp
  have cut : (encodeVersionedKey tableId pk ts).length - 12 = pk.length := by simp
  rw [decodePkFromKey, if_neg long, cut, encodeVersionedKey, encodeKeyPrefix, List.append_assoc,
    List.drop_left' (length_toBeBytes 4 _), List.take_left]

theorem tableBytes_inj : toBeBytes 4 tableId.toNat = toBeBytes 4 other.toNat ↔ tableId = other := by
  rw [toBeBytes_inj tableId.toNat_lt other.toNat_lt, UInt32.toNat_inj]

theorem encodeKeyPrefix_inj (same : encodeKeyPrefix tableId pk = encodeKeyPrefix other row) :
    tableId = other ∧ pk = row := by
  obtain ⟨table, rest⟩ := List.append_inj same (by simp)
  exact ⟨tableBytes_inj.mp table, rest⟩

theorem encodeVersionedKey_inj (fits : ts.Fits) (bounded : stamp.Fits) :
    encodeVersionedKey tableId pk ts = encodeVersionedKey other row stamp ↔
      tableId = other ∧ pk = row ∧ ts = stamp := by
  constructor
  · intro same
    obtain ⟨stem, suffix⟩ := List.append_inj' same (by simp)
    obtain ⟨table, primary⟩ := encodeKeyPrefix_inj stem
    exact ⟨table, primary, (HlcTimestamp.toBytes_inj fits bounded).mp suffix⟩
  · rintro ⟨rfl, rfl, rfl⟩
    rfl

theorem encodeVersionedKey_le (fits : ts.Fits) (bounded : stamp.Fits) :
    encodeVersionedKey tableId pk ts ≤ encodeVersionedKey tableId pk stamp ↔ ts ≤ stamp := by
  rw [encodeVersionedKey, encodeVersionedKey, append_le_append,
    HlcTimestamp.toBytes_le fits bounded]

/-- A key of the length of a version of `pk` that starts like one is one. -/
theorem exists_version {key : Bytes} (starts : encodeKeyPrefix tableId pk <+: key)
    (length : key.length = (encodeKeyPrefix tableId pk).length + 8) :
    ∃ ts : HlcTimestamp, ts.Fits ∧ key = encodeVersionedKey tableId pk ts := by
  obtain ⟨suffix, rfl⟩ := starts
  have eight : suffix.length = 8 := by simpa using length
  have bounded : fromBeBytes suffix < 2 ^ 64 := by
    have bound := fromBeBytes_lt suffix
    rw [eight] at bound
    exact bound
  refine ⟨.fromU64 (fromBeBytes suffix), HlcTimestamp.fromU64_fits bounded, ?_⟩
  rw [encodeVersionedKey, HlcTimestamp.toBytes, HlcTimestamp.toU64_fromU64 bounded, ← eight,
    toBeBytes_fromBeBytes]

end Keys

section Reads

variable (data : ColumnFamily) (tableId : UInt32)

/-- The latest version of `pk` visible at `snapshotTs`: one reverse seek, and a check
that the key found belongs to `pk`. -/
def readLatest (pk : Bytes) (snapshotTs : HlcTimestamp) : Option Bytes :=
  match data.seekForPrev (encodeVersionedKey tableId pk snapshotTs) with
  | none => none
  | some (key, value) => if encodeKeyPrefix tableId pk <+: key then some value else none

def latestVisibleTsAny (pk : Bytes) : Option HlcTimestamp :=
  match data.seekForPrev (encodeVersionedKey tableId pk .max) with
  | none => none
  | some (key, _) => if encodeKeyPrefix tableId pk <+: key then decodeTsFromKey key else none

def inTable (key : Bytes) : Bool :=
  decide (12 ≤ key.length) && decide (key.take 4 = toBeBytes 4 tableId.toNat)

def rawScanTableVersions : List (Bytes × Bytes) :=
  (data.seek (toBeBytes 4 tableId.toNat)).takeWhile fun entry => inTable tableId entry.1

def scanStep (snapshotTs : HlcTimestamp) (state : List (Bytes × Bytes) × Option Bytes)
    (entry : Bytes × Bytes) : List (Bytes × Bytes) × Option Bytes :=
  let pk := (entry.1.drop 4).take (entry.1.length - 12)
  let rowTs := HlcTimestamp.fromBytes (entry.1.drop (entry.1.length - 8))
  if snapshotTs < rowTs then state
  else if state.2 = some pk then (state.1.modifyLast fun row => (row.1, entry.2), state.2)
  else (state.1 ++ [(pk, entry.2)], some pk)

/-- The rows of a table at `snapshotTs`, one for each primary key. -/
def scanTable (snapshotTs : HlcTimestamp) : List (Bytes × Bytes) :=
  ((rawScanTableVersions data tableId).foldl (scanStep snapshotTs) ([], none)).1

def versionsOf (pk : Bytes) (ts : HlcTimestamp) : Option Bytes :=
  if ts.Fits then data.get (encodeVersionedKey tableId pk ts) else none

/-- The reverse seek for `pk` does not land on a version of another primary key whose
bytes happen to start like `pk`. -/
def SeeksOwn (pk : Bytes) (ts : HlcTimestamp) : Prop :=
  ∀ found ∈ data.seekForPrev (encodeVersionedKey tableId pk ts),
    encodeKeyPrefix tableId pk <+: found.1 →
      found.1.length = (encodeKeyPrefix tableId pk).length + 8

instance (pk : Bytes) (ts : HlcTimestamp) : Decidable (SeeksOwn data tableId pk ts) :=
  inferInstanceAs (Decidable (∀ found ∈ _, _ → _))

variable {data tableId} {pk : Bytes} {ts stamp : HlcTimestamp}

theorem versionsOf_ne_none : versionsOf data tableId pk ts ≠ none ↔
    ts.Fits ∧ ∃ value, data.get (encodeVersionedKey tableId pk ts) = some value := by
  unfold versionsOf
  split
  · rename_i fits
    simp [fits, Option.ne_none_iff_exists']
  · rename_i wide
    simp [wide]

theorem prefix_of_version {key value : Bytes} (fits : ts.Fits)
    (landed : data.seekForPrev (encodeVersionedKey tableId pk ts) = some (key, value))
    (below : stamp ≤ ts) (found : versionsOf data tableId pk stamp ≠ none) :
    encodeVersionedKey tableId pk stamp ≤ key ∧ encodeKeyPrefix tableId pk <+: key := by
  obtain ⟨bounded, held, stored⟩ := versionsOf_ne_none.mp found
  obtain ⟨_, under, greatest⟩ := SortedMap.seekForPrev_eq_some.mp landed
  have above := greatest _ _ stored ((encodeVersionedKey_le bounded fits).mpr below)
  exact ⟨above, prefix_of_between above under⟩

/-- Where the seek lands when it finds a version of `pk`: on the newest one. -/
theorem SeeksOwn.lands {key value : Bytes} (own : SeeksOwn data tableId pk ts) (fits : ts.Fits)
    (landed : data.seekForPrev (encodeVersionedKey tableId pk ts) = some (key, value))
    (starts : encodeKeyPrefix tableId pk <+: key) : ∃ stamp, stamp ≤ ts ∧ key = encodeVersionedKey tableId pk stamp ∧
      stamp.Fits ∧ versionsOf data tableId pk stamp = some value ∧
      ∀ other ≤ ts, versionsOf data tableId pk other ≠ none → other ≤ stamp := by
  obtain ⟨stamp, bounded, rfl⟩ := exists_version starts (own _ landed starts)
  obtain ⟨found, below, _⟩ := SortedMap.seekForPrev_eq_some.mp landed
  refine ⟨stamp, (encodeVersionedKey_le bounded fits).mp below, rfl, bounded, ?_, ?_⟩
  · rw [versionsOf, if_pos bounded, found]
  · intro other under there
    have above := (prefix_of_version fits landed under there).1
    exact (encodeVersionedKey_le (versionsOf_ne_none.mp there).1 bounded).mp above

theorem readLatest_newest (own : SeeksOwn data tableId pk ts) (fits : ts.Fits) :
    Newest (versionsOf data tableId pk) ts (readLatest data tableId pk ts) := by
  unfold readLatest
  cases landed : data.seekForPrev (encodeVersionedKey tableId pk ts) with
  | none =>
    intro stamp below
    by_contra found
    obtain ⟨bounded, held, stored⟩ := versionsOf_ne_none.mp found
    have above := SortedMap.seekForPrev_eq_none.mp landed _ _ stored
    exact absurd ((encodeVersionedKey_le bounded fits).mpr below) (not_le.mpr above)
  | some entry =>
    obtain ⟨key, value⟩ := entry
    dsimp only
    split
    · rename_i starts
      obtain ⟨stamp, below, _, _, found, greatest⟩ := own.lands fits landed starts
      exact ⟨stamp, below, found, greatest⟩
    · rename_i differs
      intro stamp below
      by_contra found
      exact differs (prefix_of_version fits landed below found).2

/-- `latest_visible_ts_any` is the newest timestamp of `pk`. -/
theorem latestVisibleTsAny_spec (own : SeeksOwn data tableId pk .max) :
    match latestVisibleTsAny data tableId pk with
    | none => ∀ stamp, versionsOf data tableId pk stamp = none
    | some latest => versionsOf data tableId pk latest ≠ none ∧
        ∀ stamp, versionsOf data tableId pk stamp ≠ none → stamp ≤ latest := by
  have under : ∀ stamp, versionsOf data tableId pk stamp ≠ none → stamp ≤ HlcTimestamp.max :=
    fun stamp found => HlcTimestamp.le_max (versionsOf_ne_none.mp found).1
  unfold latestVisibleTsAny
  cases landed : data.seekForPrev (encodeVersionedKey tableId pk .max) with
  | none =>
    intro stamp
    by_contra found
    obtain ⟨bounded, held, stored⟩ := versionsOf_ne_none.mp found
    have above := SortedMap.seekForPrev_eq_none.mp landed _ _ stored
    exact absurd ((encodeVersionedKey_le bounded HlcTimestamp.max_fits).mpr (under stamp found))
      (not_le.mpr above)
  | some entry =>
    obtain ⟨key, value⟩ := entry
    by_cases starts : encodeKeyPrefix tableId pk <+: key
    · obtain ⟨stamp, _, rfl, bounded, found, greatest⟩ :=
        own.lands HlcTimestamp.max_fits landed starts
      simp only [starts, if_true, decodeTsFromKey_encode bounded]
      exact ⟨by simp [found], fun other there => greatest other (under other there) there⟩
    · simp only [starts, if_false]
      intro stamp
      by_contra found
      exact starts (prefix_of_version HlcTimestamp.max_fits landed (under stamp found) found).2

end Reads

section Tables

variable {data after : ColumnFamily} {tableId : UInt32} {snapshotTs : HlcTimestamp}

def hasTable (tableId : UInt32) (key : Bytes) : Bool := decide (key.take 4 = toBeBytes 4 tableId.toNat)

theorem hasTable_iff {key : Bytes} : hasTable tableId key = true ↔ toBeBytes 4 tableId.toNat <+: key := by
  rw [hasTable, decide_eq_true_eq, List.prefix_iff_eq_take, length_toBeBytes, eq_comm]

theorem hasTable_encode {other : UInt32} {pk : Bytes} {ts : HlcTimestamp} :
    hasTable tableId (encodeVersionedKey other pk ts) = true ↔ other = tableId := by
  rw [hasTable, decide_eq_true_eq, encodeVersionedKey, encodeKeyPrefix, List.append_assoc,
    List.take_left' (length_toBeBytes 4 _), tableBytes_inj]

theorem rawScanTableVersions_eq : rawScanTableVersions data tableId =
    (data.restrict (hasTable tableId)).entries.takeWhile fun entry => inTable tableId entry.1 := by
  have restricted : (data.restrict (hasTable tableId)).entries =
      (data.seek (toBeBytes 4 tableId.toNat)).filter fun entry => hasTable tableId entry.1 := by
    rw [SortedMap.restrict, SortedMap.seek, List.filter_filter]
    refine List.filter_congr fun entry _ => ?_
    cases starts : hasTable tableId entry.1 with
    | false => simp
    | true =>
      obtain ⟨rest, same⟩ := hasTable_iff.mp starts
      have above : toBeBytes 4 tableId.toNat ≤ entry.1 := by
        have least := (@append_le_append _ _ (toBeBytes 4 tableId.toNat) _ _).mpr
          (not_lt.mp (List.not_lt_nil rest))
        rwa [List.append_nil, same] at least
      simp [above]
  rw [rawScanTableVersions, restricted]
  refine takeWhile_filter ?_ ?_
  · intro entry inside
    simp only [inTable, Bool.and_eq_true] at inside
    exact inside.2
  · refine (data.sorted.filter _).imp_of_mem ?_
    intro left right inside _ below starts
    have least : toBeBytes 4 tableId.toNat ++ [] ≤ left.1 := by
      simpa using (List.mem_filter.mp inside).2
    obtain ⟨rest, same⟩ := hasTable_iff.mp starts
    exact hasTable_iff.mpr (prefix_of_between least (same ▸ below.le))

theorem rawScanTableVersions_long (long : ∀ key value, data.get key = some value → 12 ≤ key.length) :
    rawScanTableVersions data tableId = data.entries.filter fun entry => hasTable tableId entry.1 := by
  rw [rawScanTableVersions_eq, SortedMap.restrict, List.takeWhile_eq_self_iff]
  intro entry inside
  obtain ⟨stored, starts⟩ := List.mem_filter.mp inside
  rw [inTable, decide_eq_true (long _ _ (SortedMap.mem_entries.mp stored)), Bool.true_and]
  exact starts

def AgreeOn (tableId : UInt32) (data after : ColumnFamily) : Prop :=
  ∀ key, hasTable tableId key = true → after.get key = data.get key

theorem AgreeOn.refl : AgreeOn tableId data data := fun _ _ => rfl

theorem AgreeOn.trans {final : ColumnFamily} (first : AgreeOn tableId data after)
    (second : AgreeOn tableId after final) : AgreeOn tableId data final :=
  fun key starts => (second key starts).trans (first key starts)

theorem AgreeOn.rawScan (agree : AgreeOn tableId data after) :
    rawScanTableVersions after tableId = rawScanTableVersions data tableId := by
  have same : after.restrict (hasTable tableId) = data.restrict (hasTable tableId) := by
    ext key : 1
    rw [SortedMap.get_restrict, SortedMap.get_restrict]
    split
    · exact agree key ‹_›
    · rfl
  rw [rawScanTableVersions_eq, rawScanTableVersions_eq, same]

theorem AgreeOn.scanTable (agree : AgreeOn tableId data after) :
    scanTable after tableId snapshotTs = scanTable data tableId snapshotTs := by
  simp only [Storage.scanTable, agree.rawScan]

end Tables

end Neuralbase.Storage
