import Mathlib

namespace Neuralbase.Library

/-! A finite map whose entries stand in increasing order of their keys, as an
ordered key-value store iterates them.  Its meaning is `get`; everything else is
described by it. -/

structure SortedMap (α β : Type) [LinearOrder α] where
  entries : List (α × β)
  sorted : entries.Pairwise fun left right => left.1 < right.1

namespace SortedMap

variable {α β : Type} [LinearOrder α]

def empty : SortedMap α β := ⟨[], List.Pairwise.nil⟩

def get (map : SortedMap α β) (key : α) : Option β :=
  (map.entries.find? fun entry => decide (entry.1 = key)).map Prod.snd

def put (map : SortedMap α β) (key : α) (value : β) : SortedMap α β where
  entries := map.entries.filter (fun entry => decide (entry.1 < key)) ++ (key, value) ::
    map.entries.filter (fun entry => decide (key < entry.1))
  sorted := by
    refine List.pairwise_append.mpr ⟨map.sorted.filter _, List.pairwise_cons.mpr ⟨?_, map.sorted.filter _⟩, ?_⟩
    · intro entry inside
      exact of_decide_eq_true (List.mem_filter.mp inside).2
    · intro left lower right upper
      have below : left.1 < key := of_decide_eq_true (List.mem_filter.mp lower).2
      rcases List.mem_cons.mp upper with rfl | upper
      · exact below
      · exact below.trans (of_decide_eq_true (List.mem_filter.mp upper).2)

def delete (map : SortedMap α β) (key : α) : SortedMap α β where
  entries := map.entries.filter fun entry => decide (entry.1 ≠ key)
  sorted := map.sorted.filter _

def restrict (map : SortedMap α β) (keep : α → Bool) : SortedMap α β where
  entries := map.entries.filter fun entry => keep entry.1
  sorted := map.sorted.filter _

/-- The entries from `key` on. -/
def seek (map : SortedMap α β) (key : α) : List (α × β) :=
  map.entries.filter fun entry => decide (key ≤ entry.1)

/-- The entries up to `key`. -/
def upTo (map : SortedMap α β) (key : α) : List (α × β) :=
  map.entries.filter fun entry => decide (entry.1 ≤ key)

/-- The last entry at or before `key`. -/
def seekForPrev (map : SortedMap α β) (key : α) : Option (α × β) := (map.upTo key).getLast?

variable {map other : SortedMap α β} {key probe : α} {value : β}

theorem mem_entries : (key, value) ∈ map.entries ↔ map.get key = some value := by
  obtain ⟨entries, sorted⟩ := map
  unfold get
  induction entries with
  | nil => simp
  | cons entry rest induction =>
    obtain ⟨before, sorted⟩ := List.pairwise_cons.mp sorted
    specialize induction sorted
    by_cases same : entry.1 = key
    · have absent : (key, value) ∉ rest := fun inside =>
        absurd (before _ inside) (by simp [same])
      obtain ⟨first, held⟩ := entry
      simp only at same
      subst same
      simp [absent, eq_comm]
    · have apart : (key, value) ≠ entry := fun equal => same (by rw [← equal])
      simpa [same, apart] using induction

theorem get_eq_none : map.get key = none ↔ ∀ value, (key, value) ∉ map.entries := by
  constructor
  · intro absent value inside
    rw [mem_entries.mp inside] at absent
    cases absent
  · intro absent
    cases found : map.get key with
    | none => rfl
    | some value => exact absurd (mem_entries.mpr found) (absent value)

@[ext] theorem ext (same : ∀ key, map.get key = other.get key) : map = other := by
  have members : ∀ entry, entry ∈ map.entries ↔ entry ∈ other.entries := by
    rintro ⟨key, value⟩
    rw [mem_entries, mem_entries, same]
  have nodup : ∀ map : SortedMap α β, map.entries.Nodup := fun map =>
    map.sorted.imp fun below equal => absurd below (by simp [equal])
  have equal : map.entries = other.entries :=
    ((List.perm_ext_iff_of_nodup (nodup map) (nodup other)).mpr members).eq_of_pairwise
      (fun _ _ _ _ below above => absurd (below.trans above) (lt_irrefl _)) map.sorted other.sorted
  cases map
  cases other
  simp only at equal
  subst equal
  rfl

theorem get_restrict {keep : α → Bool} :
    (map.restrict keep).get key = if keep key then map.get key else none := by
  have inside : ∀ value, (key, value) ∈ (map.restrict keep).entries ↔
      (key, value) ∈ map.entries ∧ keep key = true := by
    simp [restrict]
  split
  · rename_i kept
    exact Option.ext fun value => by
      rw [← mem_entries, ← mem_entries, inside]
      simp [kept]
  · rename_i dropped
    exact get_eq_none.mpr fun value found => dropped ((inside value).mp found).2

@[simp] theorem get_empty : (empty : SortedMap α β).get key = none := rfl

theorem get_put : (map.put key value).get probe = if probe = key then some value else map.get probe := by
  have inside : ∀ held, (probe, held) ∈ (map.put key value).entries ↔
      if probe = key then held = value else (probe, held) ∈ map.entries := by
    intro held
    simp only [put, List.mem_append, List.mem_cons, List.mem_filter, decide_eq_true_eq, Prod.mk.injEq]
    by_cases same : probe = key
    · simp [same]
    · rw [if_neg same]
      rcases lt_or_gt_of_ne same with below | above
      · simp [same, below, not_lt_of_gt below]
      · simp [same, above, not_lt_of_gt above]
  by_cases same : probe = key
  · rw [if_pos same, ← mem_entries, inside, if_pos same]
  · rw [if_neg same]
    cases found : map.get probe with
    | none =>
      rw [get_eq_none] at found ⊢
      intro held
      rw [inside, if_neg same]
      exact found held
    | some held =>
      rw [← mem_entries] at found ⊢
      rw [inside, if_neg same]
      exact found

@[simp] theorem get_put_self : (map.put key value).get key = some value := by simp [get_put]

theorem get_put_ne (apart : probe ≠ key) : (map.put key value).get probe = map.get probe := by
  simp [get_put, apart]

theorem get_delete : (map.delete key).get probe = if probe = key then none else map.get probe := by
  by_cases same : probe = key
  · rw [if_pos same, get_eq_none]
    intro held inside
    have kept := (List.mem_filter.mp inside).2
    simp [same] at kept
  · rw [if_neg same]
    have inside : ∀ held, (probe, held) ∈ (map.delete key).entries ↔ (probe, held) ∈ map.entries := by
      intro held
      simp [delete, same]
    cases found : map.get probe with
    | none =>
      rw [get_eq_none] at found ⊢
      intro held
      rw [inside]
      exact found held
    | some held =>
      rw [← mem_entries] at found ⊢
      rw [inside]
      exact found

theorem get_delete_ne (apart : probe ≠ key) : (map.delete key).get probe = map.get probe := by
  simp [get_delete, apart]

theorem get_deletes {keys : List α} : (keys.foldl delete map).get key = if key ∈ keys then none else map.get key := by
  induction keys generalizing map with
  | nil => rfl
  | cons first rest induction =>
    rw [List.foldl_cons, induction, get_delete]
    by_cases here : key = first <;> by_cases later : key ∈ rest <;> simp [here, later]

theorem length_delete (present : map.get key ≠ none) : (map.delete key).entries.length + 1 = map.entries.length := by
  obtain ⟨value, found⟩ := Option.ne_none_iff_exists'.mp present
  obtain ⟨front, back, split⟩ := List.append_of_mem (mem_entries.mpr found)
  have sorted := map.sorted
  rw [split, List.pairwise_append, List.pairwise_cons] at sorted
  obtain ⟨_, ⟨above, _⟩, below⟩ := sorted
  have kept : (map.delete key).entries = front ++ back := by
    show map.entries.filter _ = _
    rw [split, List.filter_append, List.filter_cons_of_neg (by simp)]
    congr 1
    · refine List.filter_eq_self.mpr fun entry inside => ?_
      simpa using (below entry inside _ List.mem_cons_self).ne
    · refine List.filter_eq_self.mpr fun entry inside => ?_
      simpa using (above entry inside).ne'
  rw [kept, split]
  simp [Nat.add_assoc]

theorem length_deletes {keys : List α} (distinct : keys.Nodup) (present : ∀ key ∈ keys, map.get key ≠ none) :
    (keys.foldl delete map).entries.length + keys.length = map.entries.length := by
  induction keys generalizing map with
  | nil => rfl
  | cons first rest induction =>
    obtain ⟨fresh, distinct⟩ := List.nodup_cons.mp distinct
    have others : ∀ key ∈ rest, (map.delete first).get key ≠ none := by
      intro key inside
      have apart : key ≠ first := by
        rintro rfl
        exact fresh inside
      rw [get_delete_ne apart]
      exact present key (List.mem_cons_of_mem _ inside)
    have count := length_delete (present first List.mem_cons_self)
    have after := induction distinct others
    rw [List.foldl_cons, List.length_cons]
    omega

theorem mem_seek : (probe, value) ∈ map.seek key ↔ key ≤ probe ∧ map.get probe = some value := by
  rw [seek, List.mem_filter, mem_entries, and_comm]
  simp

theorem seek_sorted : (map.seek key).Pairwise fun left right => left.1 < right.1 :=
  map.sorted.filter _

theorem mem_upTo : (probe, value) ∈ map.upTo key ↔ probe ≤ key ∧ map.get probe = some value := by
  rw [upTo, List.mem_filter, mem_entries, and_comm]
  simp

theorem upTo_sorted : (map.upTo key).Pairwise fun left right => left.1 < right.1 :=
  map.sorted.filter _

theorem seekForPrev_eq_some : map.seekForPrev key = some (probe, value) ↔ map.get probe = some value ∧ probe ≤ key ∧
      ∀ other held, map.get other = some held → other ≤ key → other ≤ probe := by
  have sorted : (map.upTo key).Pairwise fun left right => left.1 < right.1 := upTo_sorted
  constructor
  · intro landed
    obtain ⟨before, split⟩ := List.getLast?_eq_some_iff.mp landed
    obtain ⟨below, found⟩ := mem_upTo.mp (split ▸ List.mem_concat_self : (probe, value) ∈ map.upTo key)
    refine ⟨found, below, fun other held inside lower => ?_⟩
    have candidate : (other, held) ∈ map.upTo key := mem_upTo.mpr ⟨lower, inside⟩
    rw [split] at candidate sorted
    rcases List.mem_append.mp candidate with earlier | last
    · exact ((List.pairwise_append.mp sorted).2.2 _ earlier _ (List.mem_singleton_self _)).le
    · cases List.mem_singleton.mp last
      exact le_rfl
  · rintro ⟨found, below, greatest⟩
    have candidate : (probe, value) ∈ map.upTo key := mem_upTo.mpr ⟨below, found⟩
    rcases List.eq_nil_or_concat (map.upTo key) with none | ⟨before, ⟨last, held⟩, split⟩
    · rw [none] at candidate
      cases candidate
    rw [List.concat_eq_append] at split
    obtain ⟨lower, inside⟩ := mem_upTo.mp (split ▸ List.mem_concat_self : (last, held) ∈ map.upTo key)
    have above := greatest last held inside lower
    rw [split] at candidate sorted
    rcases List.mem_append.mp candidate with earlier | same
    · have less := (List.pairwise_append.mp sorted).2.2 _ earlier _ (List.mem_singleton_self _)
      exact absurd (less.trans_le above) (lt_irrefl _)
    · rw [seekForPrev, split, List.mem_singleton.mp same]
      simp

theorem seekForPrev_eq_none : map.seekForPrev key = none ↔ ∀ other held, map.get other = some held → key < other := by
  rw [seekForPrev, List.getLast?_eq_none_iff, List.eq_nil_iff_forall_not_mem]
  constructor
  · intro none other held found
    by_contra below
    exact none (other, held) (mem_upTo.mpr ⟨not_lt.mp below, found⟩)
  · rintro above ⟨other, held⟩ inside
    obtain ⟨below, found⟩ := mem_upTo.mp inside
    exact absurd (above other held found) (not_lt.mpr below)

section Groups

variable {γ : Type} {pairs : List (α × γ)} {item : γ}

def push (map : SortedMap α (List γ)) (key : α) (item : γ) : SortedMap α (List γ) :=
  map.put key ((map.get key).getD [] ++ [item])

def itemsOf (pairs : List (α × γ)) (key : α) : List γ :=
  pairs.filterMap fun pair => if pair.1 = key then some pair.2 else none

def groups (pairs : List (α × γ)) : SortedMap α (List γ) :=
  pairs.foldl (fun map pair => map.push pair.1 pair.2) empty

theorem get_push {map : SortedMap α (List γ)} : ((map.push key item).get probe).getD [] =
    (map.get probe).getD [] ++ if key = probe then [item] else [] := by
  rw [push, get_put]
  by_cases same : key = probe
  · simp [same]
  · simp [same, Ne.symm same]

theorem get_pushes {map : SortedMap α (List γ)} :
    ((pairs.foldl (fun map pair => map.push pair.1 pair.2) map).get probe).getD [] =
      (map.get probe).getD [] ++ itemsOf pairs probe := by
  induction pairs generalizing map with
  | nil => simp [itemsOf]
  | cons pair rest induction =>
    rw [List.foldl_cons, induction, get_push, List.append_assoc]
    by_cases same : pair.1 = probe <;> simp [itemsOf, same]

theorem get_groups : ((groups pairs).get key).getD [] = itemsOf pairs key := by
  rw [groups, get_pushes]
  simp

theorem mem_itemsOf : item ∈ itemsOf pairs key ↔ (key, item) ∈ pairs := by
  simp only [itemsOf, List.mem_filterMap, Option.ite_none_right_eq_some, Option.some.injEq]
  constructor
  · rintro ⟨pair, inside, rfl, rfl⟩
    exact inside
  · intro inside
    exact ⟨(key, item), inside, rfl, rfl⟩

theorem mem_groups {items : List γ} (inside : (key, items) ∈ (groups pairs).entries) : items = itemsOf pairs key := by
  rw [← get_groups, mem_entries.mp inside]
  rfl

end Groups

section Lists

variable {pairs : List (α × β)}

def ofList (pairs : List (α × β)) : SortedMap α β :=
  pairs.foldl (fun map pair => map.put pair.1 pair.2) empty

def mapValues (map : SortedMap α β) (make : β → γ) : SortedMap α γ where
  entries := map.entries.map fun entry => (entry.1, make entry.2)
  sorted := List.pairwise_map.mpr map.sorted

@[simp] theorem get_mapValues {make : β → γ} : (map.mapValues make).get key = (map.get key).map make := by
  obtain ⟨entries, sorted⟩ := map
  unfold get mapValues
  rw [List.find?_map, Option.map_map, Option.map_map]
  rfl

end Lists

end SortedMap

theorem takeWhile_filter {α : Type} {passes keep : α → Bool} {items : List α}
    (implies : ∀ item, passes item = true → keep item = true)
    (first : items.Pairwise fun left right => keep right = true → keep left = true) :
    items.takeWhile passes = (items.filter keep).takeWhile passes := by
  induction first with
  | nil => rfl
  | @cons item rest before _ induction =>
    cases kept : keep item with
    | true => simp [kept, List.takeWhile_cons, induction]
    | false =>
      have stopped : passes item = false := by
        by_contra passed
        simp [implies item (by simpa using passed)] at kept
      have none : rest.filter keep = [] := List.filter_eq_nil_iff.mpr fun later inside kept' => by
        simp [before later inside kept'] at kept
      simp [kept, stopped, none]

end Neuralbase.Library
