import Mathlib

namespace Neuralbase.Library

/-! Fixed-width big-endian encodings of natural numbers, and the little-endian ones as their
reverses. -/

def toBeBytes : Nat → Nat → List UInt8
  | 0, _ => []
  | width + 1, value => toBeBytes width (value / 256) ++ [UInt8.ofNat (value % 256)]

def fromBeBytes (bytes : List UInt8) : Nat :=
  bytes.foldl (fun value byte => value * 256 + byte.toNat) 0

@[simp] theorem length_toBeBytes (width value : Nat) : (toBeBytes width value).length = width := by
  induction width generalizing value with
  | zero => rfl
  | succ width ih => simp [toBeBytes, ih]

theorem fromBeBytes_toBeBytes (width value : Nat) (bounded : value < 256 ^ width) :
    fromBeBytes (toBeBytes width value) = value := by
  induction width generalizing value with
  | zero =>
    have zero : value = 0 := by simpa using bounded
    simp [zero, toBeBytes, fromBeBytes]
  | succ width ih =>
    have high : value / 256 < 256 ^ width := by
      rw [Nat.div_lt_iff_lt_mul (by decide), ← Nat.pow_succ]
      exact bounded
    have step : fromBeBytes (toBeBytes (width + 1) value) =
        fromBeBytes (toBeBytes width (value / 256)) * 256 + value % 256 := by
      simp [toBeBytes, fromBeBytes, List.foldl_append]
    rw [step, ih _ high]
    omega

theorem fromBeBytes_concat (bytes : List UInt8) (last : UInt8) :
    fromBeBytes (bytes ++ [last]) = fromBeBytes bytes * 256 + last.toNat := by
  simp [fromBeBytes, List.foldl_append]

theorem fromBeBytes_lt (bytes : List UInt8) : fromBeBytes bytes < 256 ^ bytes.length := by
  induction bytes using List.reverseRecOn with
  | nil => decide
  | append_singleton bytes last induction =>
    have byte := last.toNat_lt
    rw [fromBeBytes_concat, List.length_append, List.length_singleton, Nat.pow_succ]
    omega

theorem toBeBytes_fromBeBytes (bytes : List UInt8) : toBeBytes bytes.length (fromBeBytes bytes) = bytes := by
  induction bytes using List.reverseRecOn with
  | nil => rfl
  | append_singleton bytes last induction =>
    have byte := last.toNat_lt
    have high : (fromBeBytes bytes * 256 + last.toNat) / 256 = fromBeBytes bytes := by omega
    have low : (fromBeBytes bytes * 256 + last.toNat) % 256 = last.toNat := by omega
    rw [fromBeBytes_concat, List.length_append, List.length_singleton, toBeBytes, high, low,
      induction, UInt8.ofNat_toNat]

end Neuralbase.Library
