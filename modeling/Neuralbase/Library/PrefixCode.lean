import Mathlib
import Neuralbase.Library.Ascending
import Neuralbase.Library.Utf8

namespace Neuralbase.Library

/-! Self-delimiting byte codes: a value is read back from the front of any
bytes that start with its code. -/

structure PrefixCode (α : Type) where
  encode : α → List UInt8
  decode : List UInt8 → Option (α × List UInt8)
  decode_encode : ∀ value rest, decode (encode value ++ rest) = some (value, rest)

namespace PrefixCode

variable {α β : Type}

theorem decode_encode_nil (code : PrefixCode α) (value : α) : code.decode (code.encode value) = some (value, []) := by
  simpa using code.decode_encode value []

def decodeUnary : List UInt8 → Option (Nat × List UInt8)
  | [] => none
  | byte :: rest =>
    if byte = 0 then some (0, rest)
    else (decodeUnary rest).map fun (count, rest) => (count + 1, rest)

def nat : PrefixCode Nat where
  encode count := List.replicate count 1 ++ [0]
  decode := decodeUnary
  decode_encode := by
    intro count rest
    induction count with
    | zero => rfl
    | succ count induction =>
      rw [List.replicate_succ, List.cons_append, List.cons_append]
      simp only [decodeUnary, induction, Option.map_some]
      rfl

def via (code : PrefixCode α) (view : β → α) (make : α → β) (recovers : ∀ value, make (view value) = value) :
    PrefixCode β where
  encode value := code.encode (view value)
  decode bytes := (code.decode bytes).map fun (value, rest) => (make value, rest)
  decode_encode := by
    intro value rest
    simp [code.decode_encode, recovers]

def pair (first : PrefixCode α) (second : PrefixCode β) : PrefixCode (α × β) where
  encode value := first.encode value.1 ++ second.encode value.2
  decode bytes := (first.decode bytes).bind fun (left, rest) =>
    (second.decode rest).map fun (right, rest) => ((left, right), rest)
  decode_encode := by
    intro value rest
    simp [List.append_assoc, first.decode_encode, second.decode_encode]

def decodeMany (code : PrefixCode α) : Nat → List UInt8 → Option (List α × List UInt8)
  | 0, bytes => some ([], bytes)
  | count + 1, bytes => (code.decode bytes).bind fun (value, rest) =>
    (decodeMany code count rest).map fun (values, rest) => (value :: values, rest)

theorem decodeMany_flatMap (code : PrefixCode α) (values : List α) (rest : List UInt8) :
    decodeMany code values.length (values.flatMap code.encode ++ rest) = some (values, rest) := by
  induction values with
  | nil => rfl
  | cons value values induction =>
    simp [decodeMany, List.append_assoc, code.decode_encode, induction]

def list (code : PrefixCode α) : PrefixCode (List α) where
  encode values := nat.encode values.length ++ values.flatMap code.encode
  decode bytes := (nat.decode bytes).bind fun (count, rest) => decodeMany code count rest
  decode_encode := by
    intro values rest
    simp [List.append_assoc, nat.decode_encode, decodeMany_flatMap]

def option (code : PrefixCode α) : PrefixCode (Option α) :=
  code.list.via Option.toList List.head? fun value => by cases value <;> rfl

def finset [LinearOrder α] (code : PrefixCode α) : PrefixCode (Finset α) :=
  code.list.via ascending List.toFinset fun set => by
    ext element
    simp

def string : PrefixCode String :=
  ((nat.via Char.toNat Char.ofNat Char.ofNat_toNat).list).via String.toList String.ofList
    fun _ => String.ofList_toList

def byte : PrefixCode UInt8 where
  encode value := [value]
  decode
    | [] => none
    | value :: rest => some (value, rest)
  decode_encode := fun _ _ => rfl

def text : PrefixCode String :=
  byte.list.via utf8 (fun bytes => (fromUtf8 bytes).getD "") fun value => by simp

end PrefixCode

end Neuralbase.Library
