import Mathlib
import Neuralbase.Library.ByteOrder

namespace Neuralbase.Storage

open Neuralbase.Library

/-! The hybrid logical clock (`hlc.rs`).  A timestamp is stored as the 64-bit number
`wall_ms << 16 | logical`, which keeps 48 bits of the wall clock. -/

instance counterNeZero : NeZero (2 ^ 16) := ⟨by decide⟩

structure HlcTimestamp where
  wallMs : Nat
  logical : Fin (2 ^ 16)
deriving DecidableEq

namespace HlcTimestamp

def lexed (ts : HlcTimestamp) : Nat ×ₗ Fin (2 ^ 16) := toLex (ts.wallMs, ts.logical)

theorem lexed_injective : Function.Injective lexed := by
  rintro ⟨wall, logical⟩ ⟨other, counter⟩ same
  cases toLex.injective same
  rfl

instance : LinearOrder HlcTimestamp := LinearOrder.lift' lexed lexed_injective

def zero : HlcTimestamp := { wallMs := 0, logical := 0 }

def max : HlcTimestamp := { wallMs := 2 ^ 48 - 1, logical := Fin.last _ }

def toU64 (ts : HlcTimestamp) : Nat := ts.wallMs % 2 ^ 48 * 2 ^ 16 + ts.logical

def fromU64 (value : Nat) : HlcTimestamp where
  wallMs := value / 2 ^ 16
  logical := Fin.ofNat _ value

def toBytes (ts : HlcTimestamp) : List UInt8 := toBeBytes 8 ts.toU64

def fromBytes (bytes : List UInt8) : HlcTimestamp := fromU64 (fromBeBytes bytes)

def Fits (ts : HlcTimestamp) : Prop := ts.wallMs < 2 ^ 48

instance (ts : HlcTimestamp) : Decidable ts.Fits := inferInstanceAs (Decidable (_ < _))

variable {ts other : HlcTimestamp}

theorem lt_iff : ts < other ↔ ts.wallMs < other.wallMs ∨ ts.wallMs = other.wallMs ∧ ts.logical < other.logical := by
  show ts.lexed < other.lexed ↔ _
  rw [Prod.Lex.lt_iff]
  rfl

theorem toU64_lt_bound (ts : HlcTimestamp) : ts.toU64 < 2 ^ 64 := by
  have counter := ts.logical.isLt
  unfold toU64
  omega

theorem toU64_lt (fits : ts.Fits) (bounded : other.Fits) : ts.toU64 < other.toU64 ↔ ts < other := by
  have counter := ts.logical.isLt
  have limit := other.logical.isLt
  unfold Fits at fits bounded
  rw [lt_iff, Fin.lt_def]
  unfold toU64
  omega

theorem toU64_le (fits : ts.Fits) (bounded : other.Fits) : ts.toU64 ≤ other.toU64 ↔ ts ≤ other := by
  rw [← not_lt, ← not_lt, toU64_lt bounded fits]

theorem fromU64_toU64 (fits : ts.Fits) : fromU64 ts.toU64 = ts := by
  obtain ⟨wall, logical⟩ := ts
  have counter := logical.isLt
  unfold Fits at fits
  simp only [fromU64, toU64, mk.injEq, Fin.ext_iff, Fin.val_ofNat] at fits ⊢
  omega

theorem toU64_fromU64 {value : Nat} (bounded : value < 2 ^ 64) : (fromU64 value).toU64 = value := by
  simp only [fromU64, toU64, Fin.val_ofNat]
  omega

theorem fromU64_fits {value : Nat} (bounded : value < 2 ^ 64) : (fromU64 value).Fits := by
  simp only [fromU64, Fits]
  omega

theorem max_fits : max.Fits := by decide

theorem le_max (fits : ts.Fits) : ts ≤ max := by
  rw [← toU64_le fits max_fits]
  have bound := ts.toU64_lt_bound
  have top : max.toU64 = 2 ^ 64 - 1 := by decide
  omega

@[simp] theorem length_toBytes : ts.toBytes.length = 8 := length_toBeBytes _ _

theorem fromBytes_toBytes (fits : ts.Fits) : fromBytes ts.toBytes = ts := by
  rw [fromBytes, toBytes, fromBeBytes_toBeBytes _ _ ts.toU64_lt_bound, fromU64_toU64 fits]

theorem toBytes_lt (fits : ts.Fits) (bounded : other.Fits) : ts.toBytes < other.toBytes ↔ ts < other := by
  rw [toBytes, toBytes, toBeBytes_lt ts.toU64_lt_bound other.toU64_lt_bound, toU64_lt fits bounded]

theorem toBytes_le (fits : ts.Fits) (bounded : other.Fits) : ts.toBytes ≤ other.toBytes ↔ ts ≤ other := by
  rw [← not_lt, ← not_lt, toBytes_lt bounded fits]

theorem toBytes_inj (fits : ts.Fits) (bounded : other.Fits) : ts.toBytes = other.toBytes ↔ ts = other := by
  constructor
  · intro same
    rw [← fromBytes_toBytes fits, same, fromBytes_toBytes bounded]
  · rintro rfl
    rfl

end HlcTimestamp

/-- The next clock value for a wall-clock reading.  When the logical counter is
exhausted the wall component moves ahead by itself. -/
def advance (current : HlcTimestamp) (wall : Nat) : HlcTimestamp :=
  if current.wallMs < wall then { wallMs := wall, logical := 0 }
  else if current.logical = Fin.last _ then { wallMs := current.wallMs + 1, logical := 0 }
  else { current with logical := current.logical + 1 }

/-- `observe_committed`: the clock never falls behind a committed timestamp. -/
def observeCommitted (current committed : HlcTimestamp) : HlcTimestamp :=
  if current < committed then committed else current

theorem lt_advance (current : HlcTimestamp) (wall : Nat) : current < advance current wall := by
  unfold advance
  rw [HlcTimestamp.lt_iff]
  split
  · exact .inl ‹_›
  split
  · exact .inl (Nat.lt_succ_self _)
  · rename_i more
    refine .inr ⟨rfl, ?_⟩
    exact Fin.lt_add_one_iff.mpr (Fin.val_lt_last more)

theorem advance_fits {current : HlcTimestamp} {wall : Nat} (fits : current.Fits)
    (reading : wall < 2 ^ 48) (room : current.logical = Fin.last _ → current.wallMs + 1 < 2 ^ 48) :
    (advance current wall).Fits := by
  unfold advance
  split
  · exact reading
  split
  · exact room ‹_›
  · exact fits

theorem le_observeCommitted (current committed : HlcTimestamp) :
    current ≤ observeCommitted current committed ∧ committed ≤ observeCommitted current committed := by
  unfold observeCommitted
  split
  · exact ⟨le_of_lt ‹_›, le_rfl⟩
  · exact ⟨le_rfl, not_lt.mp ‹_›⟩

end Neuralbase.Storage
