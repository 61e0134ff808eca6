import Neuralbase.Storage.Gc.Victims
import Neuralbase.Storage.Lookup

namespace Neuralbase.Storage

open Neuralbase.Library
open Neuralbase.Consensus (Bytes)
open SortedMap

/-! One run of `gc_table` over a table whose primary keys have one length: what it leaves,
what it counts, and that no read at or above the horizon can tell. -/

def FixedLength (data : ColumnFamily) (tableId : UInt32) (length : Nat) : Prop :=
  ∀ key value, data.get key = some value → hasTable tableId key = true → key.length = length + 12

instance (data : ColumnFamily) (tableId : UInt32) (length : Nat) : Decidable (FixedLength data tableId length) :=
  decidable_of_iff (∀ entry ∈ data.entries, hasTable tableId entry.1 = true → entry.1.length = length + 12) <| by
    constructor
    · exact fun long key value found => long (key, value) (mem_entries.mpr found)
    · exact fun fixed entry inside => fixed _ _ (mem_entries.mp inside)

/-- The store that `gc_table` leaves. -/
def collectTable (data : ColumnFamily) (tableId : UInt32) (safeHorizon : HlcTimestamp) : ColumnFamily :=
  (gcTable data tableId safeHorizon).foldl (fun data victim => deleteVersion data tableId victim.1 victim.2) data

/-- The count that `gc_table` returns. -/
def collectedCount (data : ColumnFamily) (tableId : UInt32) (safeHorizon : HlcTimestamp) : Nat :=
  (gcTable data tableId safeHorizon).length

section Fixed

variable {data : ColumnFamily} {tableId : UInt32} {length : Nat} {pk key value : Bytes} {ts : HlcTimestamp}

theorem FixedLength.rawScan (fixed : FixedLength data tableId length) :
    (key, value) ∈ rawScanTableVersions data tableId ↔ data.get key = some value ∧ hasTable tableId key = true := by
  rw [rawScanTableVersions_eq, List.takeWhile_eq_self_iff.mpr, restrict, List.mem_filter,
    mem_entries]
  intro entry inside
  obtain ⟨stored, starts⟩ := List.mem_filter.mp inside
  have long := fixed _ _ (mem_entries.mp stored) starts
  rw [inTable, decide_eq_true (by omega), Bool.true_and]
  exact starts

theorem FixedLength.mem_tableVersions (fixed : FixedLength data tableId length) :
    (pk, ts, key) ∈ tableVersions data tableId ↔
      key = encodeVersionedKey tableId pk ts ∧ versionsOf data tableId pk ts ≠ none := by
  constructor
  · intro inside
    obtain ⟨fits, rfl, stored⟩ := Storage.mem_tableVersions inside
    exact ⟨rfl, by rwa [versionsOf, if_pos fits]⟩
  · rintro ⟨rfl, found⟩
    obtain ⟨fits, held, stored⟩ := versionsOf_ne_none.mp found
    refine List.mem_filterMap.mpr ⟨(encodeVersionedKey tableId pk ts, held),
      fixed.rawScan.mpr ⟨stored, hasTable_encode.mpr rfl⟩, ?_⟩
    rw [decodePkFromKey_encode, decodeTsFromKey_encode fits]
    rfl

theorem FixedLength.seeksOwn (fixed : FixedLength data tableId length) (same : pk.length = length)
    (bound : HlcTimestamp) : SeeksOwn data tableId pk bound := by
  intro found landed starts
  obtain ⟨stored, _, _⟩ := seekForPrev_eq_some.mp landed
  have table : hasTable tableId found.1 = true :=
    hasTable_iff.mpr ((List.prefix_append _ pk).trans starts)
  rw [fixed _ _ stored table, length_encodeKeyPrefix, same]
  omega

end Fixed

section Victims

variable {data : ColumnFamily} {tableId : UInt32} {length : Nat} {pk : Bytes} {ts safeHorizon : HlcTimestamp}

theorem mem_dropLast_of_above {α : Type} {R : α → α → Prop} {items : List α} {item above : α}
    (asymmetric : ∀ left right, R left right → ¬ R right left) (sorted : items.Pairwise R)
    (inside : item ∈ items) (member : above ∈ items) (less : R item above) : item ∈ items.dropLast := by
  obtain ⟨front, last, rfl⟩ := (List.eq_nil_or_concat items).resolve_left (List.ne_nil_of_mem inside)
  rw [List.concat_eq_append] at sorted inside member ⊢
  rw [List.dropLast_concat]
  refine (List.mem_append.mp inside).resolve_right fun final => ?_
  cases List.mem_singleton.mp final
  rcases List.mem_append.mp member with early | same
  · exact asymmetric _ _ less ((List.pairwise_append.mp sorted).2.2 above early item final)
  · cases List.mem_singleton.mp same
    exact asymmetric _ _ less less

theorem mem_gcTable_iff (fixed : FixedLength data tableId length) :
    (pk, ts) ∈ gcTable data tableId safeHorizon ↔ versionsOf data tableId pk ts ≠ none ∧
      ∃ newer ≤ safeHorizon, ts < newer ∧ versionsOf data tableId pk newer ≠ none := by
  constructor
  · intro victim
    obtain ⟨_, newer, _, here, there, less, within⟩ := mem_gcTable victim
    exact ⟨(fixed.mem_tableVersions.mp here).2, newer, within, less, (fixed.mem_tableVersions.mp there).2⟩
  · rintro ⟨found, newer, within, less, later⟩
    have oldest := mem_itemsOf.mpr (fixed.mem_tableVersions.mpr ⟨rfl, found⟩)
    have newest := mem_itemsOf.mpr (fixed.mem_tableVersions.mpr ⟨rfl, later⟩)
    have sorted := @tableVersions_sorted data tableId pk
    have group : (pk, itemsOf (tableVersions data tableId) pk) ∈
        (groups (tableVersions data tableId)).entries := by
      have items := @get_groups _ _ pk _ (tableVersions data tableId)
      cases held : (groups (tableVersions data tableId)).get pk with
      | none =>
        rw [held, Option.getD_none] at items
        rw [← items] at oldest
        cases oldest
      | some versions =>
        rw [held, Option.getD_some] at items
        rw [← items]
        exact mem_entries.mpr held
    refine List.mem_flatMap.mpr ⟨_, group, List.mem_filterMap.mpr ⟨(ts, encodeVersionedKey tableId pk ts), ?_, ?_⟩⟩
    · rw [collectible, (sorted.imp fun below => below.le).insertionSort_eq]
      exact mem_dropLast_of_above (fun _ _ below => below.asymm) (sorted.filter _)
        (List.mem_filter.mpr ⟨oldest, decide_eq_true (less.le.trans within)⟩)
        (List.mem_filter.mpr ⟨newest, decide_eq_true within⟩) less
    · rw [decodePkFromKey_encode]
      rfl

theorem gcTable_nodup : (gcTable data tableId safeHorizon).Nodup := by
  -- Every victim found in a group carries the primary key of the group.
  have named : ∀ group ∈ (groups (tableVersions data tableId)).entries, ∀ version ∈ group.2,
      decodePkFromKey version.2 = some group.1 := by
    intro group inside version member
    rw [mem_groups inside] at member
    obtain ⟨_, same, _⟩ := mem_tableVersions (mem_itemsOf.mp member)
    rw [same, decodePkFromKey_encode]
  have chosen : ∀ group : Bytes × List (HlcTimestamp × Bytes), ∀ version ∈ collectible safeHorizon group.2,
      version ∈ group.2 := fun group version member =>
    (List.perm_insertionSort _ _).mem_iff.mp (List.mem_of_mem_filter (List.mem_of_mem_dropLast member))
  refine List.nodup_flatMap.mpr ⟨fun group inside => ?_, ?_⟩
  · have sorted : group.2.Pairwise fun left right => left.1 < right.1 := by
      rw [mem_groups inside]
      exact tableVersions_sorted
    have ordered : (collectible safeHorizon group.2).Pairwise fun left right => left.1 < right.1 := by
      rw [collectible, (sorted.imp fun below => below.le).insertionSort_eq]
      exact (sorted.filter _).sublist (List.dropLast_sublist _)
    refine (List.Pairwise.filterMap _ (S := fun left right => left.2 < right.2) ?_ ordered).imp fun less same =>
      absurd (same ▸ less) (lt_irrefl _)
    intro left right less first one second two
    obtain ⟨_, _, rfl⟩ := Option.map_eq_some_iff.mp one
    obtain ⟨_, _, rfl⟩ := Option.map_eq_some_iff.mp two
    exact less
  · refine (groups (tableVersions data tableId)).sorted.imp_of_mem ?_
    intro left right first second below victim one two
    obtain ⟨version, member, decoded⟩ := List.mem_filterMap.mp one
    obtain ⟨other, again, read⟩ := List.mem_filterMap.mp two
    rw [named left first version (chosen left version member)] at decoded
    rw [named right second other (chosen right other again)] at read
    have here : left.1 = victim.1 := congrArg Prod.fst (Option.some.inj decoded)
    have there : right.1 = victim.1 := congrArg Prod.fst (Option.some.inj read)
    exact absurd (here.trans there.symm) below.ne

end Victims

section Collected

variable {data : ColumnFamily} {tableId : UInt32} {length : Nat} {pk key : Bytes} {ts safeHorizon : HlcTimestamp}

theorem collectTable_eq : collectTable data tableId safeHorizon =
    ((gcTable data tableId safeHorizon).map fun victim =>
      encodeVersionedKey tableId victim.1 victim.2).foldl SortedMap.delete data := by
  rw [List.foldl_map]
  rfl

theorem get_collectTable : (collectTable data tableId safeHorizon).get key =
    if key ∈ (gcTable data tableId safeHorizon).map (fun victim => encodeVersionedKey tableId victim.1 victim.2)
    then none else data.get key := by
  rw [collectTable_eq, get_deletes]
  congr

theorem fewer_collectTable : Fewer (collectTable data tableId safeHorizon) data := by
  intro key value found
  rw [get_collectTable] at found
  split at found
  · cases found
  · exact found

theorem FixedLength.collectTable (fixed : FixedLength data tableId length) :
    FixedLength (collectTable data tableId safeHorizon) tableId length :=
  fun key value found => fixed key value (fewer_collectTable key value found)

theorem versionsOf_collectTable (fixed : FixedLength data tableId length) (value : Bytes) :
    versionsOf (collectTable data tableId safeHorizon) tableId pk ts = some value ↔
      versionsOf data tableId pk ts = some value ∧ (safeHorizon < ts ∨
        ∀ newer ≤ safeHorizon, versionsOf data tableId pk newer ≠ none → newer ≤ ts) := by
  by_cases fits : ts.Fits
  · have victim : encodeVersionedKey tableId pk ts ∈ (gcTable data tableId safeHorizon).map
        (fun victim => encodeVersionedKey tableId victim.1 victim.2) ↔ (pk, ts) ∈ gcTable data tableId safeHorizon := by
      refine ⟨fun inside => ?_, fun inside => List.mem_map_of_mem inside⟩
      obtain ⟨⟨primary, stamp⟩, member, same⟩ := List.mem_map.mp inside
      have bounded := (versionsOf_ne_none.mp ((mem_gcTable_iff fixed).mp member).1).1
      obtain ⟨_, rfl, rfl⟩ := (encodeVersionedKey_inj bounded fits).mp same
      exact member
    have left : versionsOf (collectTable data tableId safeHorizon) tableId pk ts =
        if encodeVersionedKey tableId pk ts ∈ (gcTable data tableId safeHorizon).map
          (fun victim => encodeVersionedKey tableId victim.1 victim.2) then none else versionsOf data tableId pk ts := by
      rw [versionsOf, if_pos fits, get_collectTable, versionsOf, if_pos fits]
    rw [left]
    constructor
    · intro kept
      split at kept
      · cases kept
      · rename_i spared
        refine ⟨kept, or_iff_not_imp_left.mpr fun _ newer within found => ?_⟩
        by_contra later
        exact spared (victim.mpr ((mem_gcTable_iff fixed).mpr
          ⟨by simp [kept], newer, within, not_le.mp later, found⟩))
    · rintro ⟨found, survives⟩
      rw [if_neg]
      · exact found
      · intro collected
        obtain ⟨_, newer, within, less, later⟩ := (mem_gcTable_iff fixed).mp (victim.mp collected)
        rcases survives with above | newest
        · exact absurd (less.trans_le within) (not_lt.mpr above.le)
        · exact absurd (newest newer within later) (not_le.mpr less)
  · simp [versionsOf, fits]

theorem hidden_of_collected (fixed : FixedLength data tableId length) (found : versionsOf data tableId pk ts ≠ none)
    (gone : versionsOf (collectTable data tableId safeHorizon) tableId pk ts = none) :
    ∃ newer ≤ safeHorizon, ts < newer ∧ versionsOf data tableId pk newer ≠ none := by
  obtain ⟨value, held⟩ := Option.ne_none_iff_exists'.mp found
  by_contra newest
  have kept : versionsOf (collectTable data tableId safeHorizon) tableId pk ts = some value := by
    refine (versionsOf_collectTable fixed value).mpr ⟨held, .inr fun newer within later => ?_⟩
    by_contra above
    exact newest ⟨newer, within, not_le.mp above, later⟩
  rw [gone] at kept
  cases kept

theorem readLatest_collectTable {bound : HlcTimestamp} (fixed : FixedLength data tableId length)
    (same : pk.length = length) (fits : bound.Fits) (above : safeHorizon ≤ bound) :
    readLatest (collectTable data tableId safeHorizon) tableId pk bound = readLatest data tableId pk bound := by
  rw [readLatest_eq_landing, readLatest_eq_landing,
    landing_thin fewer_collectTable (fixed.seeksOwn same bound) fits]
  intro stamp _ found gone
  obtain ⟨newer, within, less, later⟩ := hidden_of_collected fixed found gone
  exact ⟨newer, within.trans above, less, later⟩

theorem newest_collectTable {bound : HlcTimestamp} {result : Option Bytes} (fixed : FixedLength data tableId length)
    (above : safeHorizon ≤ bound) (newest : Newest (versionsOf data tableId pk) bound result) :
    Newest (versionsOf (collectTable data tableId safeHorizon) tableId pk) bound result := by
  refine newest.thin (fun stamp => ?_) fun stamp _ found greatest => ?_
  · cases kept : versionsOf (collectTable data tableId safeHorizon) tableId pk stamp with
    | none => exact .inr rfl
    | some held => exact .inl ((versionsOf_collectTable fixed held).mp kept).1.symm
  · cases kept : versionsOf (collectTable data tableId safeHorizon) tableId pk stamp with
    | none =>
      obtain ⟨newer, within, less, later⟩ := hidden_of_collected fixed found kept
      exact absurd (greatest newer (within.trans above) later) (not_le.mpr less)
    | some held => exact ((versionsOf_collectTable fixed held).mp kept).1.symm

theorem collectTable_length (fixed : FixedLength data tableId length) (safeHorizon : HlcTimestamp) :
    (collectTable data tableId safeHorizon).entries.length + collectedCount data tableId safeHorizon =
      data.entries.length := by
  have stored : ∀ victim ∈ gcTable data tableId safeHorizon, HlcTimestamp.Fits victim.2 ∧
      data.get (encodeVersionedKey tableId victim.1 victim.2) ≠ none := by
    intro victim inside
    have found := ((mem_gcTable_iff fixed).mp inside).1
    have fits := (versionsOf_ne_none.mp found).1
    rw [versionsOf, if_pos fits] at found
    exact ⟨fits, found⟩
  have distinct : ((gcTable data tableId safeHorizon).map fun victim =>
      encodeVersionedKey tableId victim.1 victim.2).Nodup := by
    refine gcTable_nodup.map_on fun left inside right member same => ?_
    obtain ⟨_, primary, stamp⟩ := (encodeVersionedKey_inj (stored left inside).1 (stored right member).1).mp same
    exact Prod.ext primary stamp
  have count := length_deletes distinct fun key inside => by
    obtain ⟨victim, member, rfl⟩ := List.mem_map.mp inside
    exact (stored victim member).2
  rwa [List.length_map, ← collectTable_eq] at count

theorem collected_again (fixed : FixedLength data tableId length) (safeHorizon : HlcTimestamp) :
    gcTable (collectTable data tableId safeHorizon) tableId safeHorizon = [] := by
  refine List.eq_nil_iff_forall_not_mem.mpr fun victim inside => ?_
  obtain ⟨found, newer, within, less, later⟩ := (mem_gcTable_iff fixed.collectTable).mp inside
  obtain ⟨value, kept⟩ := Option.ne_none_iff_exists'.mp found
  obtain ⟨other, held⟩ := Option.ne_none_iff_exists'.mp later
  have still := ((versionsOf_collectTable fixed other).mp held).1
  rcases ((versionsOf_collectTable fixed value).mp kept).2 with above | newest
  · exact absurd (less.trans_le within) (not_lt.mpr above.le)
  · exact absurd (newest newer within (by simp [still])) (not_le.mpr less)

end Collected

section Scans

variable {data : ColumnFamily} {tableId : UInt32} {length : Nat} {key value : Bytes}
  {ts safeHorizon : HlcTimestamp}

def ownKeys (data : ColumnFamily) (tableId : UInt32) : ColumnFamily := data.restrict (hasTable tableId)

theorem get_ownKeys : (ownKeys data tableId).get key = some value ↔
    data.get key = some value ∧ hasTable tableId key = true := by
  rw [ownKeys, get_restrict]
  split
  · rename_i table
    simp [table]
  · rename_i foreign
    simp [foreign]

theorem scanTable_ownKeys : scanTable (ownKeys data tableId) tableId ts = scanTable data tableId ts := by
  refine AgreeOn.scanTable fun key table => ?_
  rw [ownKeys, get_restrict, if_pos table]

theorem versionsOf_ownKeys {pk : Bytes} :
    versionsOf (ownKeys data tableId) tableId pk = versionsOf data tableId pk := by
  funext stamp
  rw [versionsOf, versionsOf, ownKeys, get_restrict, if_pos (hasTable_encode.mpr rfl)]

theorem FixedLength.versioned (fixed : FixedLength data tableId length) : Versioned (ownKeys data tableId) := by
  intro key value found
  obtain ⟨stored, table⟩ := get_ownKeys.mp found
  rw [fixed key value stored table]
  omega

theorem FixedLength.version (fixed : FixedLength data tableId length) (found : data.get key = some value)
    (table : hasTable tableId key = true) :
    ∃ pk stamp, pk.length = length ∧ HlcTimestamp.Fits stamp ∧ key = encodeVersionedKey tableId pk stamp := by
  have long := fixed key value found table
  have primary : decodePkFromKey key = some ((key.drop 4).take (key.length - 12)) := if_neg (by omega)
  have stamp : decodeTsFromKey key = some (.fromBytes (key.drop (key.length - 8))) := if_neg (by omega)
  have scanned : inTable tableId key = true := by
    rw [inTable, decide_eq_true (by omega), Bool.true_and]
    exact table
  obtain ⟨fits, same⟩ := version_of_inTable scanned primary stamp
  refine ⟨_, _, ?_, fits, same⟩
  rw [List.length_take, List.length_drop]
  omega

theorem FixedLength.ordered (fixed : FixedLength data tableId length) {left right : Bytes × Bytes}
    (first : data.get left.1 = some left.2) (second : data.get right.1 = some right.2)
    (table : hasTable tableId left.1 = true) (again : hasTable tableId right.1 = true) (below : left.1 < right.1) :
    (rowOf left).1 ≤ (rowOf right).1 := by
  obtain ⟨pk, stamp, size, _, shape⟩ := fixed.version first table
  obtain ⟨other, mark, width, _, form⟩ := fixed.version second again
  rw [rowOf, rowOf, shape, form, decodePkFromKey_encode, decodePkFromKey_encode]
  show pk ≤ other
  by_contra greater
  rw [shape, form] at below
  have stems : encodeKeyPrefix tableId other < encodeKeyPrefix tableId pk := append_lt_append.mpr (not_le.mp greater)
  exact lt_asymm below (append_lt_of_lt (by simp [size, width]) stems)

theorem FixedLength.contiguous (fixed : FixedLength data tableId length) :
    Contiguous (ownKeys data tableId) tableId ts := by
  intro first inside middle between last member one two three _ _ _ below above same
  have stored : ∀ entry ∈ (ownKeys data tableId).entries, data.get entry.1 = some entry.2 :=
    fun entry listed => (get_ownKeys.mp (mem_entries.mp listed)).1
  have decoded : ∀ entry ∈ (ownKeys data tableId).entries,
      decodePkFromKey entry.1 = some ((decodePkFromKey entry.1).getD []) := by
    intro entry listed
    have long := fixed.versioned _ _ (mem_entries.mp listed)
    simp [decodePkFromKey, not_lt.mpr long]
  have lower := fixed.ordered (stored _ inside) (stored _ between) one two below
  have upper := fixed.ordered (stored _ between) (stored _ member) two three above
  rw [rowOf, rowOf, same] at lower
  rw [decoded middle between, decoded last member]
  exact congrArg some (le_antisymm upper lower)

theorem FixedLength.scan_sorted (fixed : FixedLength data tableId length) :
    (scanTable data tableId ts).Pairwise fun left right => left.1 < right.1 := by
  have distinct := (@scanTable_newest _ _ ts fixed.versioned fixed.contiguous).1
  rw [scanTable_ownKeys] at distinct
  have rows : ((seenAt (ownKeys data tableId) tableId ts).map rowOf).Pairwise fun left right => left.1 ≤ right.1 := by
    refine List.pairwise_map.mpr ((seenAt_sorted fixed.versioned).imp_of_mem ?_)
    intro left right first second below
    obtain ⟨stored, table, _⟩ := (mem_seenAt fixed.versioned).mp first
    obtain ⟨held, again, _⟩ := (mem_seenAt fixed.versioned).mp second
    exact fixed.ordered (get_ownKeys.mp stored).1 (get_ownKeys.mp held).1 table again below
  have keys : ((scanTable data tableId ts).map Prod.fst).Pairwise (· ≤ ·) := by
    rw [← scanTable_ownKeys, scanTable_eq fixed.versioned]
    exact (List.pairwise_map.mpr rows).sublist collapse_sublist
  exact (List.pairwise_map.mp (keys.and distinct)).imp fun both => lt_of_le_of_ne both.1 both.2

theorem FixedLength.mem_scan (fixed : FixedLength data tableId length) {row : Bytes × Bytes} :
    row ∈ scanTable data tableId ts ↔ Newest (versionsOf data tableId row.1) ts (some row.2) := by
  have members := (@scanTable_newest _ _ ts fixed.versioned fixed.contiguous).2 row.1 row.2
  rwa [scanTable_ownKeys, versionsOf_ownKeys] at members

theorem FixedLength.newest_exists (fixed : FixedLength data tableId length) (pk : Bytes) (bound : HlcTimestamp) :
    ∃ result, Newest (versionsOf data tableId pk) bound result := by
  have newest := newest_getLast ((seenAt_sorted fixed.versioned).filter _) fun entry =>
    @mem_seenAt_row _ tableId pk bound fixed.versioned entry
  rw [versionsOf_ownKeys] at newest
  exact ⟨_, newest⟩

theorem scanTable_collectTable (fixed : FixedLength data tableId length) (above : safeHorizon ≤ ts) :
    scanTable (collectTable data tableId safeHorizon) tableId ts = scanTable data tableId ts := by
  have after : FixedLength (collectTable data tableId safeHorizon) tableId length := fixed.collectTable
  have same : ∀ row, row ∈ scanTable (collectTable data tableId safeHorizon) tableId ts ↔
      row ∈ scanTable data tableId ts := by
    intro row
    rw [after.mem_scan, fixed.mem_scan]
    refine ⟨fun kept => ?_, newest_collectTable fixed above⟩
    obtain ⟨result, newest⟩ := fixed.newest_exists row.1 ts
    rwa [(newest_collectTable fixed above newest).unique kept] at newest
  have nodup : ∀ {store : ColumnFamily}, FixedLength store tableId length → (scanTable store tableId ts).Nodup :=
    fun fixed => fixed.scan_sorted.imp fun below equal => absurd (congrArg Prod.fst equal) below.ne
  refine List.Perm.eq_of_pairwise ?_ after.scan_sorted fixed.scan_sorted
    ((List.perm_ext_iff_of_nodup (nodup after) (nodup fixed)).mpr same)
  exact fun left right _ _ below above => absurd above below.asymm

end Scans

/-- `gc_table` keeps exactly what is needed.  Of each primary key the versions above the
horizon and the newest one not above it survive, tombstones like any other version; other
tables keep theirs; reads of rows and scans from the horizon on are unchanged; the count is
that of the deleted versions; and a second run deletes nothing. -/
theorem gc_table_exact {data : ColumnFamily} {tableId : UInt32} {length : Nat}
    (fixed : FixedLength data tableId length) (safeHorizon : HlcTimestamp) :
    (∀ pk ts value, versionsOf (collectTable data tableId safeHorizon) tableId pk ts = some value ↔
      versionsOf data tableId pk ts = some value ∧ (safeHorizon < ts ∨
        ∀ newer ≤ safeHorizon, versionsOf data tableId pk newer ≠ none → newer ≤ ts)) ∧
    (∀ key, hasTable tableId key = false → (collectTable data tableId safeHorizon).get key = data.get key) ∧
    (∀ ts, safeHorizon ≤ ts → scanTable (collectTable data tableId safeHorizon) tableId ts = scanTable data tableId ts ∧
      (ts.Fits → ∀ pk, pk.length = length →
        readLatest (collectTable data tableId safeHorizon) tableId pk ts = readLatest data tableId pk ts)) ∧
    (collectTable data tableId safeHorizon).entries.length + collectedCount data tableId safeHorizon =
      data.entries.length ∧ collectTable (collectTable data tableId safeHorizon) tableId safeHorizon =
      collectTable data tableId safeHorizon ∧
    collectedCount (collectTable data tableId safeHorizon) tableId safeHorizon = 0 := by
  have again := collected_again fixed safeHorizon
  refine ⟨fun pk ts value => versionsOf_collectTable fixed value, fun key foreign => ?_, fun ts above =>
    ⟨scanTable_collectTable fixed above, fun fits pk same => readLatest_collectTable fixed same fits above⟩,
    collectTable_length fixed safeHorizon, ?_, ?_⟩
  · rw [get_collectTable, if_neg]
    intro inside
    obtain ⟨victim, _, rfl⟩ := List.mem_map.mp inside
    rw [hasTable_encode.mpr rfl] at foreign
    cases foreign
  · rw [collectTable, again]
    rfl
  · rw [collectedCount, again]
    rfl

def versionedRows : ColumnFamily :=
  storeOf [([5], ⟨1, 0⟩, [7]), ([5], ⟨3, 0⟩, [8]), ([5], ⟨9, 0⟩, [9]), ([6], ⟨2, 0⟩, [1]), ([6], ⟨4, 0⟩, [])]

theorem gc_table_exact_rows : scanTable (collectTable versionedRows 1 ⟨5, 0⟩) 1 ⟨7, 0⟩ = [([5], [8]), ([6], [])] ∧
      (collectTable versionedRows 1 ⟨5, 0⟩).entries.length + 2 = 5 := by
  obtain ⟨_, _, reads, count, _⟩ := gc_table_exact (by decide +kernel : FixedLength versionedRows 1 1) ⟨5, 0⟩
  rw [(reads ⟨7, 0⟩ (by decide)).1]
  rw [show collectedCount versionedRows 1 ⟨5, 0⟩ = 2 by decide +kernel] at count
  exact ⟨by decide +kernel, count⟩

/-- A wall reading of 2^48 is stored as zero, so that such a read is one below the horizon. -/
theorem gc_seen_past_range : HlcTimestamp.mk 5 0 ≤ ⟨2 ^ 48, 65535⟩ ∧
    FixedLength (storeOf [([5], ⟨0, 1⟩, [7]), ([5], ⟨3, 0⟩, [8])]) 1 1 ∧
    readLatest (storeOf [([5], ⟨0, 1⟩, [7]), ([5], ⟨3, 0⟩, [8])]) 1 [5] ⟨2 ^ 48, 65535⟩ = some [7] ∧
    readLatest (collectTable (storeOf [([5], ⟨0, 1⟩, [7]), ([5], ⟨3, 0⟩, [8])]) 1 ⟨5, 0⟩) 1 [5] ⟨2 ^ 48, 65535⟩ =
      none := by
  decide +kernel

section Passes

variable {data : ColumnFamily} {tableId : UInt32} {length : Nat} {pk : Bytes} {first second : HlcTimestamp}

theorem versionsOf_collectTable_twice (fixed : FixedLength data tableId length) :
    versionsOf (collectTable (collectTable data tableId first) tableId second) tableId pk =
      versionsOf (collectTable data tableId (max first second)) tableId pk := by
  refine funext fun ts => Option.ext fun value => ?_
  rw [versionsOf_collectTable fixed.collectTable, versionsOf_collectTable fixed, versionsOf_collectTable fixed]
  constructor
  · rintro ⟨⟨found, early⟩, late⟩
    have before : ∀ newer ≤ first, versionsOf data tableId pk newer ≠ none → newer ≤ ts := fun newer within held =>
      early.elim (fun above => within.trans above.le) fun newest => newest newer within held
    refine ⟨found, .inr fun newer within held => (le_max_iff.mp within).elim (fun low => before newer low held) fun low => ?_⟩
    by_cases gone : versionsOf (collectTable data tableId first) tableId pk newer = none
    · -- the first pass took it, for the sake of a version that is not above `ts` either
      obtain ⟨cover, covered, less, there⟩ := hidden_of_collected fixed held gone
      exact less.le.trans (before cover covered there)
    · exact late.elim (fun above => low.trans above.le) fun newest => newest newer low gone
  · rintro ⟨found, late⟩
    refine ⟨⟨found, late.imp (le_max_left _ _).trans_lt fun newest newer within => newest newer (le_max_of_le_left within)⟩,
      late.imp (le_max_right _ _).trans_lt fun newest newer within held => newest newer (le_max_of_le_right within) ?_⟩
    obtain ⟨other, kept⟩ := Option.ne_none_iff_exists'.mp held
    simp [((versionsOf_collectTable fixed other).mp kept).1]

/-- Passes in any order leave the versions that one pass at the greatest of their horizons leaves. -/
theorem gc_passes_greatest (fixed : FixedLength data tableId length) (first : HlcTimestamp) (passes : List HlcTimestamp)
    (pk : Bytes) :
    versionsOf (passes.foldl (fun data horizon => collectTable data tableId horizon) (collectTable data tableId first))
      tableId pk = versionsOf (collectTable data tableId (passes.foldl max first)) tableId pk := by
  induction passes generalizing data first with
  | nil => rfl
  | cons horizon passes induction =>
    rw [List.foldl_cons, induction fixed.collectTable horizon, versionsOf_collectTable_twice fixed, List.foldl_cons,
      List.foldl_assoc]

theorem gc_passes_greatest_rows :
    versionsOf (collectTable (collectTable (collectTable versionedRows 1 ⟨4, 0⟩) 1 ⟨9, 0⟩) 1 ⟨2, 0⟩) 1 [5] =
      versionsOf (collectTable versionedRows 1 ⟨9, 0⟩) 1 [5] :=
  gc_passes_greatest (by decide +kernel : FixedLength versionedRows 1 1) ⟨4, 0⟩ [⟨9, 0⟩, ⟨2, 0⟩] [5]

end Passes

end Neuralbase.Storage
