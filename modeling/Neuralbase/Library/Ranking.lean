import Mathlib

namespace Neuralbase.Library

/-! The first elements of a list by weight.  Whether an element is among them depends only on how
many elements weigh more. -/

variable {α β : Type} [LinearOrder β] {weight : α → β} {items rest first second : List α} {a b x : α} {count : Nat}

/-- How many of the items weigh more than `a`. -/
def above (weight : α → β) (items : List α) (a : α) : Nat :=
  items.countP fun b => weight a < weight b

/-- `a` is one of the `count` heaviest items. -/
def Among (weight : α → β) (count : Nat) (items : List α) (a : α) : Prop :=
  a ∈ items ∧ above weight items a < count

/-- The weights of the items tell them apart. -/
def Apart (weight : α → β) (items : List α) : Prop :=
  ∀ a ∈ items, ∀ b ∈ items, weight a = weight b → a = b

theorem above_cons : above weight (x :: rest) a = above weight rest a + if weight a < weight x then 1 else 0 := by
  simp [above, List.countP_cons]

theorem above_perm (same : first.Perm second) : above weight first a = above weight second a :=
  same.countP_eq _

theorem among_perm (same : first.Perm second) : Among weight count first a ↔ Among weight count second a := by
  rw [Among, Among, above_perm same, same.mem_iff]

theorem mem_take_of_descending (descending : items.Pairwise fun a b => weight b < weight a) :
    a ∈ items.take count ↔ Among weight count items a := by
  induction items generalizing count with
  | nil => simp [Among]
  | cons head tail induction =>
    obtain ⟨below, tailDescending⟩ := List.pairwise_cons.mp descending
    cases count with
    | zero => simp [Among]
    | succ count =>
      have none_ : above weight tail head = 0 :=
        List.countP_eq_zero.mpr fun b inside => by simpa using (below b inside).le
      rw [List.take_succ_cons, List.mem_cons, induction tailDescending, Among, Among, List.mem_cons, above_cons]
      constructor
      · rintro (rfl | ⟨inside, few⟩)
        · exact ⟨.inl rfl, by simp [none_]⟩
        · exact ⟨.inr inside, by rw [if_pos (below a inside)]; omega⟩
      · rintro ⟨rfl | inside, few⟩
        · exact .inl rfl
        · rw [if_pos (below a inside)] at few
          exact .inr ⟨inside, by omega⟩

theorem above_lt (inside : b ∈ items) (lighter : weight a < weight b) : above weight items b < above weight items a := by
  obtain ⟨front, back, rfl⟩ := List.append_of_mem inside
  have sides (part : List α) : part.countP (fun c => weight b < weight c) ≤ part.countP fun c => weight a < weight c :=
    List.countP_mono_left fun c _ heavier => by simpa using lighter.trans (by simpa using heavier)
  have left := sides front
  have right := sides back
  simp only [above, List.countP_append, List.countP_cons, lighter, lt_irrefl]
  simp only [decide_false, decide_true, Bool.false_eq_true, if_false, if_true]
  omega

theorem eq_of_above_eq (apart : Apart weight items) (left : a ∈ items) (right : b ∈ items)
    (same : above weight items a = above weight items b) : a = b := by
  rcases lt_trichotomy (weight a) (weight b) with lighter | equal | heavier
  · exact absurd same (above_lt right lighter).ne'
  · exact apart a left b right equal
  · exact absurd same (above_lt left heavier).ne

/-- One more item takes at most one place. -/
theorem among_cons (apart : Apart weight rest) :
    ∃ r, ∀ a, (Among weight count rest a ↔ Among weight count (x :: rest) a) ∨ a = x ∨ a = r := by
  by_cases displaced : ∃ r, Among weight count rest r ∧ ¬ Among weight count (x :: rest) r
  · obtain ⟨r, before, after⟩ := displaced
    refine ⟨r, fun a => ?_⟩
    by_cases isX : a = x
    · exact .inr (.inl isX)
    by_cases isR : a = r
    · exact .inr (.inr isR)
    refine .inl ⟨fun among => ?_, fun among => ?_⟩
    · by_contra lost
      have edge {c : α} (was : Among weight count rest c) (gone : ¬ Among weight count (x :: rest) c) :
          above weight rest c + 1 = count := by
        have many : ¬ above weight (x :: rest) c < count := fun few => gone ⟨List.mem_cons_of_mem x was.1, few⟩
        rw [above_cons] at many
        have few := was.2
        split_ifs at many <;> omega
      have here := edge among lost
      have there := edge before after
      exact isR (eq_of_above_eq apart among.1 before.1 (by omega))
    · refine ⟨(List.mem_cons.mp among.1).resolve_left isX, ?_⟩
      have few := among.2
      rw [above_cons] at few
      omega
  · refine ⟨x, fun a => ?_⟩
    by_cases isX : a = x
    · exact .inr (.inl isX)
    refine .inl ⟨fun among => ?_, fun among => ⟨(List.mem_cons.mp among.1).resolve_left isX, ?_⟩⟩
    · by_contra lost
      exact displaced ⟨a, among, lost⟩
    · have few := among.2
      rw [above_cons] at few
      omega

/-- Two lists of the same items but for one. -/
theorem among_change (apartFirst : Apart weight first) (apartSecond : Apart weight second) (nodupFirst : first.Nodup)
    (nodupSecond : second.Nodup) (same : ∀ a, a ≠ x → (a ∈ first ↔ a ∈ second)) :
    ∃ r, ∀ a, (Among weight count first a ↔ Among weight count second a) ∨ a = x ∨ a = r := by
  have added {few many : List α} (nodupFew : few.Nodup) (nodupMany : many.Nodup) (inside : x ∈ many) (outside : x ∉ few)
      (same : ∀ a, a ≠ x → (a ∈ few ↔ a ∈ many)) : many.Perm (x :: few) := by
    refine (List.perm_ext_iff_of_nodup nodupMany (List.nodup_cons.mpr ⟨outside, nodupFew⟩)).mpr fun a => ?_
    by_cases isX : a = x
    · simp [isX, inside]
    · rw [← same a isX, List.mem_cons, or_iff_right isX]
  by_cases agree : x ∈ first ↔ x ∈ second
  · refine ⟨x, fun a => .inl (among_perm ((List.perm_ext_iff_of_nodup nodupFirst nodupSecond).mpr fun a => ?_))⟩
    by_cases isX : a = x
    · rw [isX, agree]
    · exact same a isX
  by_cases inFirst : x ∈ first
  · have outside : x ∉ second := fun inSecond => agree ⟨fun _ => inSecond, fun _ => inFirst⟩
    obtain ⟨r, change⟩ := @among_cons α β _ weight second x count apartSecond
    have perm := added nodupSecond nodupFirst inFirst outside fun a isX => (same a isX).symm
    exact ⟨r, fun a => (change a).imp_left fun step => (step.trans (among_perm perm.symm)).symm⟩
  · have inSecond : x ∈ second := by
      by_contra outside
      exact agree ⟨fun inside => absurd inside inFirst, fun inside => absurd inside outside⟩
    obtain ⟨r, change⟩ := @among_cons α β _ weight first x count apartFirst
    have perm := added nodupFirst nodupSecond inSecond inFirst same
    exact ⟨r, fun a => (change a).imp_left fun step => step.trans (among_perm perm.symm)⟩

theorem among_one_iff : Among weight 1 items a ↔ a ∈ items ∧ ∀ b ∈ items, weight b ≤ weight a := by
  simp [Among, above, List.countP_eq_zero]

/-- A change of one item leaves the heaviest one, unless that item becomes it. -/
theorem among_one_change (same : ∀ b, b ≠ x → (b ∈ first ↔ b ∈ second)) (other : ¬ Among weight 1 second x)
    (different : a ≠ x) (top : Among weight 1 first a) : Among weight 1 second a := by
  rw [among_one_iff] at top other ⊢
  have bound {b : α} (inside : b ∈ second) (isOther : b ≠ x) : weight b ≤ weight a :=
    top.2 b ((same b isOther).mpr inside)
  refine ⟨(same a different).mp top.1, fun b inside => ?_⟩
  by_cases isX : b = x
  · -- were `x` heavier than `a`, it would be the heaviest
    subst isX
    by_contra heavier
    refine other ⟨inside, fun c member => ?_⟩
    by_cases isB : c = b
    · rw [isB]
    · exact (bound member isB).trans (not_le.mp heavier).le
  · exact bound inside isX

end Neuralbase.Library
