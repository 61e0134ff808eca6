import Mathlib

namespace Neuralbase.Library

/-! Integers as decimal text. -/

def parseDigits (chars : List Char) : Option Nat :=
  if chars ≠ [] ∧ chars.all Char.isDigit then some (Nat.ofDigitChars 10 chars 0) else none

def parseSigned (text : String) : Option Int :=
  match text.toList with
  | '-' :: digits => (parseDigits digits).map fun value => -value
  | '+' :: digits => (parseDigits digits).map Int.ofNat
  | digits => (parseDigits digits).map Int.ofNat

/-- A number that fits a signed integer of `bits` bits. -/
def parseInt (bits : Nat) (text : String) : Option Int :=
  (parseSigned text).filter fun value => decide (-2 ^ (bits - 1) ≤ value ∧ value < 2 ^ (bits - 1))

/-- A number that fits an unsigned integer of `bits` bits, which takes no minus sign. -/
def parseNat (bits : Nat) (text : String) : Option Nat :=
  (match text.toList with
    | '+' :: digits => parseDigits digits
    | digits => parseDigits digits).filter fun value => decide (value < 2 ^ bits)

variable {n : Nat} {value : Int} {bits : Nat}

theorem parseDigits_toDigits : parseDigits (Nat.toDigits 10 n) = some n := by
  have digits : (Nat.toDigits 10 n).all Char.isDigit = true :=
    List.all_eq_true.mpr fun _ inside => Nat.isDigit_of_mem_toDigits (by decide) (Nat.le_refl _) inside
  rw [parseDigits, if_pos ⟨Nat.toDigits_ne_nil, digits⟩, Nat.ofDigitChars_toDigits (by decide) (Nat.le_refl _)]

theorem parseSigned_toString : parseSigned (toString value) = some value := by
  cases value with
  | ofNat n =>
    have chars : (toString (Int.ofNat n)).toList = Nat.toDigits 10 n := by
      simp [toString, Int.repr, Nat.repr]
    have digits : ∀ sign rest, Nat.toDigits 10 n = sign :: rest → sign.isDigit = true :=
      fun sign rest same => Nat.isDigit_of_mem_toDigits (by decide) (Nat.le_refl _) (same ▸ List.mem_cons_self)
    unfold parseSigned
    rw [chars]
    split
    · rename_i rest same
      cases digits _ _ same
    · rename_i rest same
      cases digits _ _ same
    · rw [parseDigits_toDigits]
      rfl
  | negSucc n =>
    have chars : (toString (Int.negSucc n)).toList = '-' :: Nat.toDigits 10 (n + 1) := by
      simp [toString, Int.repr, Nat.repr]
    rw [parseSigned, chars]
    simp only [parseDigits_toDigits]
    rfl

theorem parseInt_toString (fits : -2 ^ (bits - 1) ≤ value ∧ value < 2 ^ (bits - 1)) :
    parseInt bits (toString value) = some value := by
  rw [parseInt, parseSigned_toString, Option.filter_some, if_pos (decide_eq_true fits)]

theorem parseNat_ofList {digits : List Char} (all : digits.all Char.isDigit = true)
    (parsed : parseNat bits (String.ofList digits) = some n) : n = Nat.ofDigitChars 10 digits 0 := by
  unfold parseNat at parsed
  rw [String.toList_ofList] at parsed
  obtain ⟨parsed, _⟩ := Option.filter_eq_some_iff.mp parsed
  split at parsed
  · cases (Bool.and_eq_true_iff.mp all).1
  · unfold parseDigits at parsed
    split_ifs at parsed
    exact (Option.some.inj parsed).symm

section Order

variable {left right : List Char} {init init' : Nat}

theorem digit_bounds {char : Char} (digit : char.isDigit = true) : '0'.toNat ≤ char.toNat ∧ char.toNat ≤ '0'.toNat + 9 := by
  simp only [Char.isDigit, Bool.and_eq_true, decide_eq_true_eq, ge_iff_le, UInt32.le_iff_toNat_le] at digit
  exact digit

theorem ofDigitChars_lt (digits : left.all Char.isDigit) (length : left.length = right.length) (below : init < init') :
    Nat.ofDigitChars 10 left init < Nat.ofDigitChars 10 right init' := by
  induction left generalizing right init init' with
  | nil =>
    cases List.length_eq_zero_iff.mp length.symm
    exact below
  | cons char left induction =>
    obtain ⟨other, right, rfl⟩ := List.exists_cons_of_length_eq_add_one length.symm
    obtain ⟨digit, digits⟩ := Bool.and_eq_true_iff.mp digits
    rw [Nat.ofDigitChars_cons, Nat.ofDigitChars_cons]
    refine induction digits (Nat.succ.inj length) ?_
    have bounds := digit_bounds digit
    omega

theorem digits_lt_iff (digits : left.all Char.isDigit) (digits' : right.all Char.isDigit)
    (length : left.length = right.length) :
    left < right ↔ Nat.ofDigitChars 10 left init < Nat.ofDigitChars 10 right init := by
  induction left generalizing right init with
  | nil =>
    cases List.length_eq_zero_iff.mp length.symm
    simp
  | cons char left induction =>
    obtain ⟨other, right, rfl⟩ := List.exists_cons_of_length_eq_add_one length.symm
    obtain ⟨digit, others⟩ := Bool.and_eq_true_iff.mp digits
    obtain ⟨digit', others'⟩ := Bool.and_eq_true_iff.mp digits'
    have bounds := digit_bounds digit
    have bounds' := digit_bounds digit'
    have same : left.length = right.length := Nat.succ.inj length
    rw [List.cons_lt_cons_iff, Nat.ofDigitChars_cons, Nat.ofDigitChars_cons]
    rcases lt_trichotomy char other with below | rfl | above
    · have smaller : char.toNat < other.toNat := below
      exact iff_of_true (.inl below) (ofDigitChars_lt others same (by omega))
    · simp only [lt_self_iff_false, false_or, true_and]
      exact induction others others' same
    · have larger : other.toNat < char.toNat := above
      refine iff_of_false ?_ (lt_asymm (ofDigitChars_lt others' same.symm (by omega)))
      rintro (below | ⟨rfl, _⟩)
      · exact lt_asymm below above
      · exact lt_irrefl _ above

theorem append_lt_append_iff {suffix : List Char} (length : left.length = right.length) :
    left ++ suffix < right ++ suffix ↔ left < right := by
  induction left generalizing right with
  | nil =>
    cases List.length_eq_zero_iff.mp length.symm
    exact iff_of_false (List.lt_irrefl _) (List.lt_irrefl _)
  | cons char left induction =>
    obtain ⟨other, right, rfl⟩ := List.exists_cons_of_length_eq_add_one length.symm
    rw [List.cons_append, List.cons_append, List.cons_lt_cons_iff, List.cons_lt_cons_iff,
      induction (Nat.succ.inj length)]

end Order

end Neuralbase.Library
