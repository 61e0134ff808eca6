import Neuralbase.Library.Runs
import Neuralbase.Storage.Latest

namespace Neuralbase.Storage

open Neuralbase.Library
open Neuralbase.Consensus (Bytes)

/-! Reads of one row and of a table at a timestamp.  Keys are concatenated without a length, so
the versions of a primary key and of a longer one that starts with it may lie between each
other; `Contiguous` and `Unshadowed` say where this does no harm. -/

def Versioned (data : ColumnFamily) : Prop := ∀ key value, data.get key = some value → 12 ≤ key.length

instance (data : ColumnFamily) : Decidable (Versioned data) :=
  decidable_of_iff (∀ entry ∈ data.entries, 12 ≤ entry.1.length) <| by
    constructor
    · exact fun long key value found => long (key, value) (SortedMap.mem_entries.mpr found)
    · exact fun stored entry inside => stored _ _ (SortedMap.mem_entries.mp inside)

/-- Among the versions that `ts` sees, none of another primary key lies between two of one. -/
def Contiguous (data : ColumnFamily) (tableId : UInt32) (ts : HlcTimestamp) : Prop :=
  ∀ first ∈ data.entries, ∀ middle ∈ data.entries, ∀ last ∈ data.entries,
    hasTable tableId first.1 = true → hasTable tableId middle.1 = true → hasTable tableId last.1 = true →
    (decodeTsFromKey first.1).any (· ≤ ts) = true → (decodeTsFromKey middle.1).any (· ≤ ts) = true →
    (decodeTsFromKey last.1).any (· ≤ ts) = true → first.1 < middle.1 → middle.1 < last.1 →
    decodePkFromKey first.1 = decodePkFromKey last.1 → decodePkFromKey middle.1 = decodePkFromKey last.1

instance (data : ColumnFamily) (tableId : UInt32) (ts : HlcTimestamp) :
    Decidable (Contiguous data tableId ts) :=
  inferInstanceAs (Decidable (∀ first ∈ data.entries, ∀ middle ∈ data.entries, ∀ last ∈ data.entries, _))

section Scan

variable {data : ColumnFamily} {tableId : UInt32} {pk key value : Bytes} {ts : HlcTimestamp}

def seenAt (data : ColumnFamily) (tableId : UInt32) (ts : HlcTimestamp) : List (Bytes × Bytes) :=
  (rawScanTableVersions data tableId).filter fun entry => (decodeTsFromKey entry.1).any (· ≤ ts)

def rowOf (entry : Bytes × Bytes) : Bytes × Bytes := ((decodePkFromKey entry.1).getD [], entry.2)

theorem scanStep_eq {state : List (Bytes × Bytes) × Option Bytes} {entry : Bytes × Bytes}
    (long : 12 ≤ entry.1.length) : scanStep ts state entry =
      if (decodeTsFromKey entry.1).any (· ≤ ts) then collapseStep state (rowOf entry) else state := by
  have stamp : decodeTsFromKey entry.1 =
      some (HlcTimestamp.fromBytes (entry.1.drop (entry.1.length - 8))) := if_neg (by omega)
  have primary : decodePkFromKey entry.1 = some ((entry.1.drop 4).take (entry.1.length - 12)) :=
    if_neg (by omega)
  rw [stamp, Option.any_some, rowOf, primary, Option.getD_some, scanStep, collapseStep]
  dsimp only
  by_cases later : ts < HlcTimestamp.fromBytes (entry.1.drop (entry.1.length - 8))
  · rw [if_pos later, decide_eq_false (not_le.mpr later), if_neg Bool.false_ne_true]
  · rw [if_neg later, decide_eq_true (not_lt.mp later), if_pos rfl]

theorem scanTable_eq (stored : Versioned data) :
    scanTable data tableId ts = (collapse ((seenAt data tableId ts).map rowOf)).1 := by
  have folds : ∀ (entries : List (Bytes × Bytes)) (state : List (Bytes × Bytes) × Option Bytes),
      (∀ entry ∈ entries, 12 ≤ entry.1.length) → entries.foldl (scanStep ts) state =
        ((entries.filter fun entry => (decodeTsFromKey entry.1).any (· ≤ ts)).map rowOf).foldl
          collapseStep state := by
    intro entries
    induction entries with
    | nil => exact fun _ _ => rfl
    | cons entry rest induction =>
      intro state long
      rw [List.foldl_cons, induction _ fun other inside => long other (List.mem_cons_of_mem _ inside),
        scanStep_eq (long entry List.mem_cons_self), List.filter_cons]
      split <;> rfl
  rw [scanTable, folds _ _ fun entry inside => ?_]
  · rfl
  · rw [rawScanTableVersions_long stored] at inside
    exact stored _ _ (SortedMap.mem_entries.mp (List.mem_of_mem_filter inside))

theorem mem_seenAt (stored : Versioned data) {entry : Bytes × Bytes} :
    entry ∈ seenAt data tableId ts ↔ data.get entry.1 = some entry.2 ∧ hasTable tableId entry.1 = true ∧
      (decodeTsFromKey entry.1).any (· ≤ ts) = true := by
  rw [seenAt, List.mem_filter, rawScanTableVersions_long stored, List.mem_filter, and_assoc,
    SortedMap.mem_entries]

theorem seenAt_sorted (stored : Versioned data) :
    (seenAt data tableId ts).Pairwise fun left right => left.1 < right.1 := by
  rw [seenAt, rawScanTableVersions_long stored]
  exact (data.sorted.filter _).filter _

theorem mem_seenAt_row (stored : Versioned data) {entry : Bytes × Bytes} :
    entry ∈ (seenAt data tableId ts).filter (fun entry => decide ((rowOf entry).1 = pk)) ↔
      ∃ stamp : HlcTimestamp, stamp ≤ ts ∧ entry.1 = encodeVersionedKey tableId pk stamp ∧
        versionsOf data tableId pk stamp = some entry.2 := by
  obtain ⟨key, value⟩ := entry
  rw [List.mem_filter, mem_seenAt stored, decide_eq_true_eq]
  constructor
  · rintro ⟨⟨found, table, seen⟩, primary⟩
    have long := stored key value found
    obtain ⟨rest, rfl⟩ := hasTable_iff.mp table
    have named : rest.take ((toBeBytes 4 tableId.toNat ++ rest).length - 12) = pk := by
      have read : (decodePkFromKey (toBeBytes 4 tableId.toNat ++ rest)).getD [] = pk := primary
      rwa [decodePkFromKey, if_neg (not_lt.mpr long), List.drop_left' (length_toBeBytes 4 _)] at read
    have split : encodeKeyPrefix tableId pk <+: toBeBytes 4 tableId.toNat ++ rest := by
      rw [← named, encodeKeyPrefix, List.prefix_append_right_inj]
      exact List.take_prefix _ _
    obtain ⟨stamp, fits, same⟩ := exists_version split (by
      rw [length_encodeKeyPrefix, ← named, List.length_take]
      simp only [List.length_append, length_toBeBytes] at long ⊢
      omega)
    rw [same, decodeTsFromKey_encode fits, Option.any_some, decide_eq_true_eq] at seen
    rw [same] at found
    exact ⟨stamp, seen, same, by rw [versionsOf, if_pos fits, found]⟩
  · rintro ⟨stamp, below, rfl, version⟩
    obtain ⟨fits, _⟩ := versionsOf_ne_none.mp (by rw [version]; simp)
    rw [versionsOf, if_pos fits] at version
    refine ⟨⟨version, hasTable_encode.mpr rfl, ?_⟩, ?_⟩
    · rw [decodeTsFromKey_encode fits, Option.any_some, decide_eq_true_eq]
      exact below
    · rw [rowOf, decodePkFromKey_encode]
      rfl

theorem version_of_scan (stored : Versioned data) (inside : (pk, value) ∈ scanTable data tableId ts) :
    ∃ stamp, stamp ≤ ts ∧ versionsOf data tableId pk stamp = some value := by
  rw [scanTable_eq stored] at inside
  obtain ⟨entry, seen, same⟩ := List.mem_map.mp (mem_of_collapse inside)
  obtain ⟨stamp, below, _, version⟩ := (mem_seenAt_row stored).mp
    (List.mem_filter.mpr ⟨seen, decide_eq_true (congrArg Prod.fst same)⟩)
  rw [show entry.2 = value from congrArg Prod.snd same] at version
  exact ⟨stamp, below, version⟩

theorem Contiguous.unbroken (contiguous : Contiguous data tableId ts) (stored : Versioned data) :
    EachAfter Unbroken ((seenAt data tableId ts).map rowOf) := by
  intro before row after split repeated
  obtain ⟨front, back, entries, rfl, rest⟩ := List.map_eq_append_iff.mp split
  obtain ⟨entry, tail, rfl, rfl, rfl⟩ := List.map_eq_cons_iff.mp rest
  obtain ⟨_, inside, same⟩ := List.mem_map.mp repeated
  obtain ⟨first, member, rfl⟩ := List.mem_map.mp inside
  obtain ⟨init, last, rfl⟩ := List.eq_nil_or_concat front |>.resolve_left (by
    rintro rfl
    cases member)
  rw [List.concat_eq_append] at entries member ⊢
  have sorted := @seenAt_sorted data tableId ts stored
  rw [entries] at sorted
  have known : ∀ seen ∈ init ++ [last] ++ entry :: tail, data.get seen.1 = some seen.2 ∧
      hasTable tableId seen.1 = true ∧ (decodeTsFromKey seen.1).any (· ≤ ts) = true :=
    fun seen inside => (mem_seenAt stored).mp (entries ▸ inside)
  have below := (List.pairwise_append.mp sorted).2.2
  have here : entry ∈ init ++ [last] ++ entry :: tail := by simp
  have final : last ∈ init ++ [last] ++ entry :: tail := by simp
  have early : first ∈ init ++ [last] ++ entry :: tail := List.mem_append_left _ member
  rw [List.map_append, List.map_singleton, List.getLast?_concat, Option.map_some, Option.some_inj]
  rcases List.mem_append.mp member with prior | only
  · have order := (List.pairwise_append.mp (List.pairwise_append.mp sorted).1).2.2 first prior last
      (List.mem_singleton_self _)
    have named : decodePkFromKey first.1 = decodePkFromKey entry.1 := by
      have long := stored _ _ (known _ early).1
      have wide := stored _ _ (known _ here).1
      simp only [rowOf, decodePkFromKey, if_neg (not_lt.mpr long), if_neg (not_lt.mpr wide),
        Option.getD_some] at same ⊢
      rw [same]
    have middle := contiguous first (SortedMap.mem_entries.mpr (known _ early).1) last
      (SortedMap.mem_entries.mpr (known _ final).1) entry (SortedMap.mem_entries.mpr (known _ here).1)
      (known _ early).2.1 (known _ final).2.1 (known _ here).2.1 (known _ early).2.2 (known _ final).2.2
      (known _ here).2.2 order (below last (by simp) entry List.mem_cons_self) named
    rw [rowOf, rowOf, middle]
  · rw [← List.mem_singleton.mp only]
    exact same

theorem contiguous_of_unbroken (stored : Versioned data) (unbroken : EachAfter Unbroken ((seenAt data tableId ts).map rowOf)) :
    Contiguous data tableId ts := by
  intro first firstIn middle middleIn last lastIn table table' table'' seen seen' seen'' before after same
  have inside {entry : Bytes × Bytes} (stays : entry ∈ data.entries) (table : hasTable tableId entry.1 = true)
      (seen : (decodeTsFromKey entry.1).any (· ≤ ts) = true) : entry ∈ seenAt data tableId ts :=
    (mem_seenAt stored).mpr ⟨SortedMap.mem_entries.mp stays, table, seen⟩
  have sorted := @seenAt_sorted data tableId ts stored
  obtain ⟨left, right, split⟩ := List.append_of_mem (inside middleIn table' seen')
  have early := inside firstIn table seen
  have late := inside lastIn table'' seen''
  rw [split] at sorted early late
  obtain ⟨_, ordered, across⟩ := List.pairwise_append.mp sorted
  have inLeft : first ∈ left := by
    refine (List.mem_append.mp early).resolve_right fun behind => ?_
    rcases List.mem_cons.mp behind with rfl | behind
    · exact lt_irrefl _ before
    · exact lt_asymm before (List.rel_of_pairwise_cons ordered behind)
  have inRight : last ∈ right := by
    rcases List.mem_append.mp late with ahead | behind
    · exact absurd (across last ahead middle List.mem_cons_self) (lt_asymm after)
    · refine (List.mem_cons.mp behind).resolve_left ?_
      rintro rfl
      exact lt_irrefl _ after
  obtain ⟨front, between, rfl⟩ := List.append_of_mem inLeft
  obtain ⟨between', rest, rfl⟩ := List.append_of_mem inRight
  have named {entry : Bytes × Bytes} (stays : entry ∈ data.entries) : decodePkFromKey entry.1 = some (rowOf entry).1 := by
    rw [rowOf, decodePkFromKey, if_neg (not_lt.mpr (stored _ _ (SortedMap.mem_entries.mp stays))), Option.getD_some]
  have parts : (seenAt data tableId ts).map rowOf = front.map rowOf ++
      rowOf first :: (between ++ middle :: between').map rowOf ++ rowOf last :: rest.map rowOf := by
    simp [split]
  have equal := unbroken.between parts (by simp [rowOf, same]) (rowOf middle) (List.mem_map_of_mem (by simp))
  rw [named middleIn, equal, ← same, named firstIn]

theorem newest_seenAt (stored : Versioned data) : Newest (versionsOf data tableId pk) ts
    ((((seenAt data tableId ts).filter ((fun row => decide (row.1 = pk)) ∘ rowOf)).getLast?).map Prod.snd) :=
  newest_getLast ((seenAt_sorted stored).filter _) fun _ => mem_seenAt_row stored

/-- One entry for each primary key with a version that `ts` sees: the newest. -/
theorem scanTable_newest (stored : Versioned data) (contiguous : Contiguous data tableId ts) :
    ((scanTable data tableId ts).map Prod.fst).Nodup ∧ ∀ pk value,
      (pk, value) ∈ scanTable data tableId ts ↔ Newest (versionsOf data tableId pk) ts (some value) := by
  rw [scanTable_eq stored]
  obtain ⟨distinct, members⟩ := collapse_unbroken (contiguous.unbroken stored)
  refine ⟨distinct, fun pk value => ?_⟩
  rw [members, List.filter_map, List.getLast?_map]
  have newest := @newest_seenAt data tableId pk ts stored
  constructor
  · intro found
    obtain ⟨entry, last, same⟩ := Option.map_eq_some_iff.mp found
    rw [last, Option.map_some, show entry.2 = value from congrArg Prod.snd same] at newest
    exact newest
  · intro top
    obtain ⟨entry, last, same⟩ := Option.map_eq_some_iff.mp (newest.unique top)
    have primary := (List.mem_filter.mp (List.mem_of_getLast? last)).2
    rw [last, Option.map_some]
    exact congrArg some (Prod.ext (of_decide_eq_true primary) same)

theorem contiguous_iff (stored : Versioned data) :
    Contiguous data tableId ts ↔ ((scanTable data tableId ts).map Prod.fst).Nodup := by
  constructor
  · exact fun contiguous => (scanTable_newest stored contiguous).1
  · intro distinct
    rw [scanTable_eq stored] at distinct
    exact contiguous_of_unbroken stored (unbroken_of_nodup distinct)

end Scan

section Shadow

variable (data : ColumnFamily) (tableId : UInt32) (pk : Bytes) (ts : HlcTimestamp)

/-- A version of another primary key that starts with `pk` and lies above every version of `pk` that
`ts` sees, and is the last such one. -/
def Shadows (key : Bytes) : Prop :=
  encodeKeyPrefix tableId pk <+: key ∧ decodePkFromKey key ≠ some pk ∧ key ≤ encodeVersionedKey tableId pk ts ∧
    ∀ other ∈ data.entries, encodeKeyPrefix tableId pk <+: other.1 → other.1 ≤ encodeVersionedKey tableId pk ts →
      other.1 ≤ key

instance (key : Bytes) : Decidable (Shadows data tableId pk ts key) :=
  inferInstanceAs (Decidable (_ ∧ _ ∧ _ ∧ ∀ other ∈ data.entries, _))

/-- If there is such a version, it has the value of the newest one of `pk`. -/
def Unshadowed : Prop :=
  ∀ entry ∈ data.entries, Shadows data tableId pk ts entry.1 → Newest (versionsOf data tableId pk) ts (some entry.2)

/-- A read gives the newest version, and nothing for a tombstone. -/
def RowExact : Prop :=
  ∃ newest, Newest (versionsOf data tableId pk) ts newest ∧
    readLatest data tableId pk ts = newest.filter fun value => value ≠ []

/-- A scan lists no row twice, and of the primary keys `keys` those that a read finds, with its value. -/
def ScanExact (keys : Bytes → Prop) : Prop :=
  ((scanTable data tableId ts).map Prod.fst).Nodup ∧
    ∀ pk, keys pk → ∀ value, (pk, value) ∈ scanTable data tableId ts ↔ readLatest data tableId pk ts = some value

variable {data tableId pk ts} {key value : Bytes}

theorem decodePk_extends (starts : encodeKeyPrefix tableId pk <+: key) :
    decodePkFromKey key = some pk ↔ key.length = (encodeKeyPrefix tableId pk).length + 8 := by
  constructor
  · intro named
    have long : ¬ key.length < 12 := by
      intro short
      rw [decodePkFromKey, if_pos short] at named
      cases named
    rw [decodePkFromKey, if_neg long, Option.some_inj] at named
    have length := congrArg List.length named
    rw [List.length_take, List.length_drop] at length
    rw [length_encodeKeyPrefix]
    omega
  · intro length
    obtain ⟨stamp, _, rfl⟩ := exists_version starts length
    exact decodePkFromKey_encode

theorem Shadows.read (shadows : Shadows data tableId pk ts key) (found : data.get key = some value) :
    readLatest data tableId pk ts = some value := by
  obtain ⟨⟨rest, rfl⟩, _, under, greatest⟩ := shadows
  have landed : data.seekForPrev (encodeVersionedKey tableId pk ts) = some (encodeKeyPrefix tableId pk ++ rest, value) := by
    refine SortedMap.seekForPrev_eq_some.mpr ⟨found, under, fun other held there below => ?_⟩
    by_contra above
    have starts := prefix_of_between (not_le.mp above).le below
    exact above (greatest (other, held) (SortedMap.mem_entries.mpr there) starts below)
  rw [readLatest, landed]
  exact if_pos (List.prefix_append _ _)

theorem Unshadowed.newest (clear : Unshadowed data tableId pk ts) (fits : ts.Fits) :
    Newest (versionsOf data tableId pk) ts (readLatest data tableId pk ts) := by
  by_cases own : SeeksOwn data tableId pk ts
  · exact readLatest_newest own fits
  · simp only [SeeksOwn, not_forall] at own
    obtain ⟨⟨key, value⟩, landed, starts, length⟩ := own
    obtain ⟨found, under, greatest⟩ := SortedMap.seekForPrev_eq_some.mp landed
    have shadows : Shadows data tableId pk ts key :=
      ⟨starts, fun named => length ((decodePk_extends starts).mp named), under,
        fun other inside _ below => greatest other.1 other.2 (SortedMap.mem_entries.mp inside) below⟩
    rw [shadows.read found]
    exact clear (key, value) (SortedMap.mem_entries.mpr found) shadows

theorem unshadowed_iff (fits : ts.Fits) : Unshadowed data tableId pk ts ↔
    Newest (versionsOf data tableId pk) ts (readLatest data tableId pk ts) := by
  refine ⟨fun clear => clear.newest fits, fun newest entry inside shadows => ?_⟩
  rw [shadows.read (SortedMap.mem_entries.mp inside)] at newest
  exact newest

theorem readLatest_ne_none (fits : ts.Fits) {stamp : HlcTimestamp} (below : stamp ≤ ts)
    (found : versionsOf data tableId pk stamp ≠ none) : readLatest data tableId pk ts ≠ none := by
  unfold readLatest
  cases landed : data.seekForPrev (encodeVersionedKey tableId pk ts) with
  | none =>
    obtain ⟨bounded, held, stored⟩ := versionsOf_ne_none.mp found
    have above := SortedMap.seekForPrev_eq_none.mp landed _ _ stored
    exact absurd ((encodeVersionedKey_le bounded fits).mpr below) (not_le.mpr above)
  | some entry => simp [(prefix_of_version fits landed below found).2]

theorem rowExact_iff (fits : ts.Fits) : RowExact data tableId pk ts ↔
    Unshadowed data tableId pk ts ∧ ¬ Newest (versionsOf data tableId pk) ts (some []) := by
  rw [unshadowed_iff fits]
  constructor
  · rintro ⟨newest, top, read⟩
    have bytes : newest ≠ some [] := by
      rintro rfl
      obtain ⟨stamp, below, version, _⟩ := top
      exact readLatest_ne_none fits below (by rw [version]; simp) (by rw [read]; rfl)
    refine ⟨?_, fun tombstone => bytes (top.unique tombstone)⟩
    cases newest with
    | none => rwa [read]
    | some value =>
      rw [read, Option.filter_some_pos (by simpa using bytes)]
      exact top
  · rintro ⟨newest, bytes⟩
    refine ⟨_, newest, ?_⟩
    cases read : readLatest data tableId pk ts with
    | none => rfl
    | some value =>
      rw [read] at newest
      rw [Option.filter_some_pos]
      simp only [ne_eq, decide_not, Bool.not_eq_true', decide_eq_false_iff_not]
      rintro rfl
      exact bytes newest

theorem scanExact_iff {keys : Bytes → Prop} (stored : Versioned data) (fits : ts.Fits) : ScanExact data tableId ts keys ↔
    Contiguous data tableId ts ∧ ∀ pk, keys pk → Unshadowed data tableId pk ts := by
  constructor
  · rintro ⟨distinct, rows⟩
    have contiguous := (contiguous_iff stored).mpr distinct
    obtain ⟨_, members⟩ := scanTable_newest stored contiguous
    refine ⟨contiguous, fun pk chosen => (unshadowed_iff fits).mpr ?_⟩
    have newest := @newest_seenAt data tableId pk ts stored
    revert newest
    generalize ((((seenAt data tableId ts).filter _).getLast?).map Prod.snd) = top
    intro newest
    cases top with
    | some value => rwa [(rows pk chosen value).mp ((members pk value).mpr newest)]
    | none =>
      cases read : readLatest data tableId pk ts with
      | none => exact newest
      | some value => exact (members pk value).mp ((rows pk chosen value).mpr read)
  · rintro ⟨contiguous, clear⟩
    obtain ⟨distinct, members⟩ := scanTable_newest stored contiguous
    refine ⟨distinct, fun pk chosen value => (members pk value).trans ?_⟩
    have newest := (clear pk chosen).newest fits
    exact ⟨newest.unique, fun read => read ▸ newest⟩

/-- A row is read exactly if no other primary key shadows it and it is not deleted, and a table if its
versions do not lie between each other and no primary key that may be asked for is shadowed. -/
theorem version_lookup (keys : Bytes → Prop) (stored : Versioned data) (fits : ts.Fits) :
    (∀ pk, RowExact data tableId pk ts ↔
      Unshadowed data tableId pk ts ∧ ¬ Newest (versionsOf data tableId pk) ts (some [])) ∧
    (ScanExact data tableId ts keys ↔ Contiguous data tableId ts ∧ ∀ pk, keys pk → Unshadowed data tableId pk ts) :=
  ⟨fun _ => rowExact_iff fits, scanExact_iff stored fits⟩

end Shadow

def storeOf (versions : List (Bytes × HlcTimestamp × Bytes)) : ColumnFamily :=
  versions.foldl (fun data version =>
    data.put (encodeVersionedKey 1 version.1 version.2.1) version.2.2) .empty

def twoRows : ColumnFamily := storeOf [([5], ⟨1, 0⟩, [7]), ([5], ⟨3, 0⟩, [8]), ([6], ⟨2, 0⟩, [9])]

theorem twoRows_unshadowed (pk : Bytes) (one : pk.length = 1) : Unshadowed twoRows 1 pk ⟨2, 0⟩ := by
  have none : ∀ entry ∈ twoRows.entries, ∀ pk ∈ (entry.1.drop 4).inits, pk.length = 1 →
      ¬ Shadows twoRows 1 pk ⟨2, 0⟩ entry.1 := by
    decide +kernel
  intro entry inside shadows
  refine absurd shadows (none entry inside pk ?_ one)
  obtain ⟨rest, split⟩ := shadows.1
  rw [List.mem_inits, ← split, encodeKeyPrefix, List.append_assoc, List.drop_left' (length_toBeBytes 4 _)]
  exact List.prefix_append _ _

theorem version_lookup_two : RowExact twoRows 1 [5] ⟨2, 0⟩ ∧ ScanExact twoRows 1 ⟨2, 0⟩ (fun pk => pk.length = 1) ∧
    scanTable twoRows 1 ⟨2, 0⟩ = [([5], [7]), ([6], [9])] := by
  obtain ⟨row, table⟩ := @version_lookup twoRows 1 ⟨2, 0⟩ (fun pk => pk.length = 1) (by decide +kernel) (by decide)
  refine ⟨(row [5]).mpr ⟨twoRows_unshadowed [5] rfl, fun tombstone => ?_⟩,
    table.mpr ⟨by decide +kernel, twoRows_unshadowed⟩, by decide +kernel⟩
  have newest := (twoRows_unshadowed [5] rfl).newest (by decide)
  rw [show readLatest twoRows 1 [5] ⟨2, 0⟩ = some [7] by decide +kernel] at newest
  cases newest.unique tombstone

/-- The version of `[5, 0]` is returned for `[5]`, which has none; a row whose versions lie on both
sides of another one is listed twice; a deleted row is returned as a row without bytes. -/
theorem foreign_version_found : (readLatest (storeOf [([5, 0], ⟨1, 0⟩, [7])]) 1 [5] ⟨2 ^ 40, 0⟩ = some [7] ∧
      ∀ ts, versionsOf (storeOf [([5, 0], ⟨1, 0⟩, [7])]) 1 [5] ts = none) ∧
    scanTable (storeOf [([5], ⟨1, 0⟩, [7]), ([5, 0, 1], ⟨1, 0⟩, [9]), ([5], ⟨2 ^ 33, 0⟩, [8])]) 1 ⟨2 ^ 40, 0⟩ =
      [([5], [7]), ([5, 0, 1], [9]), ([5], [8])] ∧ readLatest (storeOf [([5], ⟨1, 0⟩, [])]) 1 [5] ⟨2, 0⟩ = some [] := by
  refine ⟨⟨by decide +kernel, fun ts => ?_⟩, by decide +kernel, by decide +kernel⟩
  by_contra found
  obtain ⟨fits, value, held⟩ := versionsOf_ne_none.mp found
  rw [storeOf, List.foldl_cons, List.foldl_nil, SortedMap.get_put] at held
  split at held
  · rename_i same
    cases ((encodeVersionedKey_inj fits (by decide)).mp same).2.1
  · cases held

end Neuralbase.Storage
