import Mathlib

namespace Neuralbase.Library

/-! UTF-8 one character at a time: a lead byte tells where a character begins, and no encoding
is the beginning of another. -/

/-- The byte begins a character. -/
def Leads (byte : UInt8) : Prop := byte.toNat < 128 ∨ 192 ≤ byte.toNat

def encode (chars : List Char) : List UInt8 := chars.flatMap String.utf8EncodeChar

variable {c d : Char} {chars : List Char} {front back : List UInt8}

theorem toNat_ofNat_of_lt {n : Nat} (small : n < 256) : (UInt8.ofNat n).toNat = n := by
  rw [UInt8.toNat_ofNat']
  exact Nat.mod_eq_of_lt small

theorem utf8EncodeChar_ascii (ascii : c.toNat < 128) : String.utf8EncodeChar c = [UInt8.ofNat c.toNat] := by
  have small : c.val.toNat ≤ 127 := Nat.le_of_lt_succ ascii
  rw [String.utf8EncodeChar.eq_1, if_pos small]
  rfl

theorem utf8EncodeChar_wide (wide : 128 ≤ c.toNat) : ∃ lead rest, String.utf8EncodeChar c = lead :: rest ∧
    192 ≤ lead.toNat ∧ ∀ byte ∈ rest, 128 ≤ byte.toNat ∧ byte.toNat < 192 := by
  have tail (n : Nat) : 128 ≤ (UInt8.ofNat (n % 64 + 128)).toNat ∧ (UInt8.ofNat (n % 64 + 128)).toNat < 192 := by
    rw [toNat_ofNat_of_lt (by omega)]
    omega
  have head (n m base : Nat) (least : 192 ≤ base) (fits : base + m ≤ 256) (positive : 0 < m) :
      192 ≤ (UInt8.ofNat (n % m + base)).toNat := by
    have := Nat.mod_lt n positive
    rw [toNat_ofNat_of_lt (by omega)]
    omega
  have notAscii : ¬ c.val.toNat ≤ 127 := Nat.not_le.mpr wide
  rw [String.utf8EncodeChar.eq_1, if_neg notAscii]
  split_ifs
  · exact ⟨_, _, rfl, head _ 32 192 (by decide) (by decide) (by decide), by simpa using tail _⟩
  · exact ⟨_, _, rfl, head _ 16 224 (by decide) (by decide) (by decide), by simpa using ⟨tail _, tail _⟩⟩
  · exact ⟨_, _, rfl, head _ 8 240 (by decide) (by decide) (by decide), by simpa using ⟨tail _, tail _, tail _⟩⟩

theorem utf8EncodeChar_append_inj (same : String.utf8EncodeChar c ++ front = String.utf8EncodeChar d ++ back) :
    c = d ∧ front = back := by
  have decoded (c : Char) (rest : List UInt8) :
      (String.utf8EncodeChar c ++ rest).toByteArray.utf8DecodeChar? 0 = some c := by
    rw [List.toByteArray_append]
    exact ByteArray.utf8DecodeChar?_utf8EncodeChar_append
  have first : c = d := by
    have read := decoded c front
    rw [same, decoded d back] at read
    exact (Option.some.inj read).symm
  subst first
  exact ⟨rfl, List.append_cancel_left same⟩

@[simp] theorem encode_nil : encode [] = [] := rfl

@[simp] theorem encode_cons : encode (c :: chars) = String.utf8EncodeChar c ++ encode chars := List.flatMap_cons

@[simp] theorem encode_append {first second : List Char} : encode (first ++ second) = encode first ++ encode second :=
  List.flatMap_append

/-- What is left of an encoded text is the encoding of its last characters, when it begins with a
lead byte. -/
theorem drop_encode (k : Nat) (begins : ∀ byte, ((encode chars).drop k).head? = some byte → Leads byte) :
    ∃ first last, chars = first ++ last ∧ (encode chars).drop k = encode last := by
  induction chars generalizing k with
  | nil => exact ⟨[], [], rfl, by simp⟩
  | cons c chars induction =>
    rw [encode_cons] at begins ⊢
    rcases Nat.eq_zero_or_pos k with rfl | positive
    · exact ⟨[], c :: chars, rfl, by simp⟩
    by_cases inside : k < (String.utf8EncodeChar c).length
    · -- only the first byte of a character leads
      exfalso
      rw [List.drop_append_of_le_length inside.le, List.head?_append_of_ne_nil _ (by simpa using inside),
        List.head?_drop] at begins
      rcases Nat.lt_or_ge c.toNat 128 with ascii | wide
      · rw [utf8EncodeChar_ascii ascii] at inside
        exact absurd (Nat.lt_one_iff.mp inside) positive.ne'
      · obtain ⟨lead, rest, shape, _, trailing⟩ := utf8EncodeChar_wide wide
        rw [shape] at begins inside
        obtain ⟨j, rfl⟩ := Nat.exists_eq_add_of_lt positive
        rw [Nat.zero_add] at begins inside
        have short : j < rest.length := Nat.lt_of_succ_lt_succ inside
        have range := trailing _ (List.getElem_mem short)
        have leads := begins (rest.get ⟨j, short⟩) (by simp [short])
        rcases leads with low | high
        · exact absurd range.1 (Nat.not_le.mpr low)
        · exact absurd range.2 (Nat.not_lt.mpr high)
    · rw [List.drop_append, List.drop_eq_nil_of_le (Nat.not_lt.mp inside), List.nil_append] at begins ⊢
      obtain ⟨first, last, rfl, left⟩ := induction _ begins
      exact ⟨c :: first, last, rfl, left⟩

end Neuralbase.Library
