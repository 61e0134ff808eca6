import Mathlib

namespace Neuralbase.Library

/-! Strings as their UTF-8 bytes. -/

def utf8 (text : String) : List UInt8 := text.toByteArray.data.toList

def fromUtf8 (bytes : List UInt8) : Option String :=
  if valid : (ByteArray.mk bytes.toArray).IsValidUTF8 then some ⟨_, valid⟩ else none

variable {text other : String}

@[simp] theorem fromUtf8_utf8 : fromUtf8 (utf8 text) = some text := by
  have same : ByteArray.mk (utf8 text).toArray = text.toByteArray := by simp [utf8]
  unfold fromUtf8
  simp only [same]
  rw [dif_pos text.isValidUTF8]

theorem utf8_of_fromUtf8 {bytes : List UInt8} (read : fromUtf8 bytes = some text) : utf8 text = bytes := by
  unfold fromUtf8 at read
  split_ifs at read
  cases read
  simp [utf8]

/-- The text a reader has accepted. -/
theorem utf8_of_accepted {ε : Type} {invalid : ε} {bytes : List UInt8} {text : String}
    (read : (fromUtf8 bytes).elim (Except.error invalid) Except.ok = .ok text) : utf8 text = bytes := by
  cases found : fromUtf8 bytes with
  | none =>
    rw [found] at read
    cases read
  | some text =>
    rw [found] at read
    cases read
    exact utf8_of_fromUtf8 found

theorem utf8_injective : Function.Injective utf8 := by
  intro text other same
  have back := @fromUtf8_utf8 text
  rw [same, fromUtf8_utf8] at back
  exact (Option.some.inj back).symm

end Neuralbase.Library
