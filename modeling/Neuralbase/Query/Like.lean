import Neuralbase.Library.Utf8
import Neuralbase.Library.Utf8Chars

namespace Neuralbase.Query.Like

open Neuralbase.Library

section Model

def toAsciiLowercase (byte : UInt8) : UInt8 :=
  if 0x41 ≤ byte ∧ byte ≤ 0x5A then byte + 32 else byte

def eqIgnoreAsciiCase (left right : UInt8) : Bool :=
  toAsciiLowercase left == toAsciiLowercase right

def likeMatchBytes : List UInt8 → List UInt8 → Bool
  | s, [] => s.isEmpty
  | s, pc :: rest =>
    if pc = 0x25 then
      rest.isEmpty || (List.range (s.length + 1)).any fun i => likeMatchBytes (s.drop i) rest
    else match s with
      | [] => false
      | sc :: sRest =>
        if pc = 0x5F then likeMatchBytes sRest rest
        else eqIgnoreAsciiCase sc pc && likeMatchBytes sRest rest

def likeMatch (s pattern : String) : Bool :=
  likeMatchBytes (utf8 s) (utf8 pattern)

end Model

section Meaning

/-- The text falls into consecutive pieces, one for each symbol of the pattern. -/
def Splits {α β : Type} (symbol : List α → β → Prop) (text : List α) (pattern : List β) : Prop :=
  ∃ pieces : List (List α), pieces.flatten = text ∧ List.Forall₂ symbol pieces pattern

/-- What a symbol of a LIKE pattern stands for. -/
def Symbol (piece : List Char) (symbol : Char) : Prop :=
  if symbol = '%' then True
  else if symbol = '_' then ∃ c, piece = [c]
  else ∃ c, piece = [c] ∧ c.toLower = symbol.toLower

/-- What the bytes of a pattern stand for in the code. -/
def ByteSymbol (piece : List UInt8) (symbol : UInt8) : Prop :=
  if symbol = 0x25 then True
  else if symbol = 0x5F then ∃ byte, piece = [byte]
  else ∃ byte, piece = [byte] ∧ eqIgnoreAsciiCase byte symbol = true

end Meaning

section Pieces

variable {α β : Type} {symbol : List α → β → Prop} {text : List α} {first : β} {pattern : List β}

@[simp] theorem splits_nil : Splits symbol text [] ↔ text = [] := by
  constructor
  · intro ⟨pieces, joined, matched⟩
    rw [← joined, List.forall₂_nil_right_iff.mp matched, List.flatten_nil]
  · intro empty
    exact ⟨[], empty.symm, .nil⟩

theorem splits_cons : Splits symbol text (first :: pattern) ↔
    ∃ piece rest, text = piece ++ rest ∧ symbol piece first ∧ Splits symbol rest pattern := by
  constructor
  · intro ⟨pieces, joined, matched⟩
    obtain ⟨piece, others, head, tail, rfl⟩ := List.forall₂_cons_right_iff.mp matched
    exact ⟨piece, others.flatten, joined.symm, head, others, rfl, tail⟩
  · intro ⟨piece, rest, parted, head, others, joined, tail⟩
    exact ⟨piece :: others, by rw [List.flatten_cons, joined, parted], .cons head tail⟩

/-- A symbol that stands for any piece. -/
theorem splits_any (any : ∀ piece, symbol piece first) :
    Splits symbol text (first :: pattern) ↔ ∃ k, Splits symbol (text.drop k) pattern := by
  rw [splits_cons]
  constructor
  · intro ⟨piece, rest, parted, _, tail⟩
    exact ⟨piece.length, by rwa [parted, List.drop_left]⟩
  · intro ⟨k, tail⟩
    exact ⟨text.take k, text.drop k, (List.take_append_drop k text).symm, any _, tail⟩

/-- A symbol that stands for one item. -/
theorem splits_one {accepts : α → Prop} (one : ∀ piece, symbol piece first ↔ ∃ a, piece = [a] ∧ accepts a) :
    Splits symbol text (first :: pattern) ↔ ∃ a rest, text = a :: rest ∧ accepts a ∧ Splits symbol rest pattern := by
  rw [splits_cons]
  constructor
  · intro ⟨piece, rest, parted, head, tail⟩
    obtain ⟨a, rfl, accepted⟩ := (one piece).mp head
    exact ⟨a, rest, parted, accepted, tail⟩
  · intro ⟨a, rest, parted, accepted, tail⟩
    exact ⟨[a], rest, parted, (one _).mpr ⟨a, rfl, accepted⟩, tail⟩

end Pieces

section Bytes

variable {s p : List UInt8} {sc pc : UInt8}

theorem splits_percent : Splits ByteSymbol s (0x25 :: p) ↔ ∃ k, Splits ByteSymbol (s.drop k) p :=
  splits_any fun _ => trivial

theorem splits_underscore : Splits ByteSymbol s (0x5F :: p) ↔ ∃ byte rest, s = byte :: rest ∧ Splits ByteSymbol rest p := by
  rw [@splits_one _ _ _ _ _ _ (fun _ => True) fun piece => by simp [ByteSymbol]]
  simp

theorem splits_byte (notPercent : pc ≠ 0x25) (notUnderscore : pc ≠ 0x5F) :
    Splits ByteSymbol s (pc :: p) ↔
      ∃ byte rest, s = byte :: rest ∧ eqIgnoreAsciiCase byte pc = true ∧ Splits ByteSymbol rest p :=
  splits_one fun piece => by simp [ByteSymbol, notPercent, notUnderscore]

theorem likeMatchBytes_cons : likeMatchBytes s (pc :: p) =
    if pc = 0x25 then p.isEmpty || (List.range (s.length + 1)).any fun i => likeMatchBytes (s.drop i) p
    else match s with
      | [] => false
      | sc :: sRest => if pc = 0x5F then likeMatchBytes sRest p else eqIgnoreAsciiCase sc pc && likeMatchBytes sRest p := by
  cases s <;> rfl

/-- The recursion decides whether the bytes fall into pieces. -/
theorem likeMatchBytes_eq_true_iff : likeMatchBytes s p = true ↔ Splits ByteSymbol s p := by
  induction p generalizing s with
  | nil => simp [likeMatchBytes]
  | cons pc rest induction =>
    rw [likeMatchBytes_cons]
    by_cases percent : pc = 0x25
    · rw [if_pos percent, percent, splits_percent, Bool.or_eq_true, List.any_eq_true]
      constructor
      · intro found
        rcases found with empty | ⟨i, _, matched⟩
        · exact ⟨s.length, by simp [List.isEmpty_iff.mp empty]⟩
        · exact ⟨i, induction.mp matched⟩
      · intro ⟨k, tail⟩
        -- an end past the last byte is the end at it
        refine .inr ⟨min k s.length, List.mem_range.mpr (by omega), induction.mpr ?_⟩
        rcases Nat.le_total k s.length with short | long
        · rwa [Nat.min_eq_left short]
        · rw [Nat.min_eq_right long]
          rw [List.drop_eq_nil_of_le long] at tail
          rwa [List.drop_length]
    rw [if_neg percent]
    by_cases underscore : pc = 0x5F
    · rw [underscore, splits_underscore]
      cases s with
      | nil => simp
      | cons sc s => simp [induction]
    · rw [splits_byte percent underscore]
      cases s with
      | nil => simp
      | cons sc s => simp [underscore, induction]

end Bytes

section Letters

variable {c d : Char} {byte pc : UInt8}

theorem toLower_wide (wide : 128 ≤ c.toNat) : c.toLower = c := by
  rw [Char.toLower, dif_neg]
  intro upper
  have : c.val.toNat ≤ 90 := UInt32.le_iff_toNat_le.mp upper.2
  exact absurd (wide.trans this) (by decide)

theorem toAsciiLowercase_ascii (ascii : c.toNat < 128) :
    c.toLower.toNat < 128 ∧ toAsciiLowercase (UInt8.ofNat c.toNat) = UInt8.ofNat c.toLower.toNat := by
  have table : ∀ n < 128, (Char.ofNat n).toLower.toNat < 128 ∧
      toAsciiLowercase (UInt8.ofNat n) = UInt8.ofNat (Char.ofNat n).toLower.toNat := by
    decide +kernel
  have entry := table c.toNat ascii
  rwa [Char.ofNat_toNat] at entry

theorem toAsciiLowercase_lt_iff : (toAsciiLowercase byte).toNat < 128 ↔ byte.toNat < 128 := by
  have table : ∀ n < 256, (toAsciiLowercase (UInt8.ofNat n)).toNat < 128 ↔ (UInt8.ofNat n).toNat < 128 := by
    decide +kernel
  have entry := table byte.toNat byte.toNat_lt
  rwa [UInt8.ofNat_toNat] at entry

theorem toAsciiLowercase_wide (wide : 128 ≤ byte.toNat) : toAsciiLowercase byte = byte := by
  rw [toAsciiLowercase, if_neg]
  intro upper
  have : byte.toNat ≤ 90 := UInt8.le_iff_toNat_le.mp upper.2
  exact absurd (wide.trans this) (by decide)

/-- The comparison holds for equal bytes and letters of another case, all of them below 128. -/
theorem lt_iff_of_eqIgnoreAsciiCase (same : eqIgnoreAsciiCase byte pc = true) : byte.toNat < 128 ↔ pc.toNat < 128 := by
  rw [← toAsciiLowercase_lt_iff, eq_of_beq same, toAsciiLowercase_lt_iff]

theorem eqIgnoreAsciiCase_wide (wide : 128 ≤ pc.toNat) : eqIgnoreAsciiCase byte pc = true ↔ byte = pc := by
  constructor
  · intro same
    have high : 128 ≤ byte.toNat := Nat.not_lt.mp fun low =>
      absurd ((lt_iff_of_eqIgnoreAsciiCase same).mp low) (Nat.not_lt.mpr wide)
    have equal := eq_of_beq same
    rwa [toAsciiLowercase_wide high, toAsciiLowercase_wide wide] at equal
  · intro equal
    rw [equal]
    exact beq_self_eq_true _

theorem eqIgnoreAsciiCase_ascii (first : c.toNat < 128) (second : d.toNat < 128) :
    eqIgnoreAsciiCase (UInt8.ofNat c.toNat) (UInt8.ofNat d.toNat) = true ↔ c.toLower = d.toLower := by
  obtain ⟨lowFirst, left⟩ := toAsciiLowercase_ascii first
  obtain ⟨lowSecond, right⟩ := toAsciiLowercase_ascii second
  rw [eqIgnoreAsciiCase, left, right, beq_iff_eq]
  constructor
  · intro same
    have numbers := congrArg UInt8.toNat same
    rw [toNat_ofNat_of_lt (by omega), toNat_ofNat_of_lt (by omega)] at numbers
    rw [← Char.ofNat_toNat c.toLower, numbers, Char.ofNat_toNat]
  · intro same
    rw [same]

theorem ascii_iff_of_toLower (same : c.toLower = d.toLower) : c.toNat < 128 ↔ d.toNat < 128 := by
  have low (c : Char) : c.toLower.toNat < 128 ↔ c.toNat < 128 := by
    constructor
    · intro small
      by_contra wide
      rw [toLower_wide (Nat.not_lt.mp wide)] at small
      exact wide small
    · exact fun ascii => (toAsciiLowercase_ascii ascii).1
  rw [← low c, same, low d]

end Letters

section Characters

variable {c d : Char} {text pattern : List Char} {s : List UInt8} {k : Nat}

theorem utf8_eq_encode (text : String) : utf8 text = encode text.toList := by
  rw [utf8, ← String.utf8Encode_toList]
  simp [List.utf8Encode, encode]

theorem symbol_percent {pieces : List Char} : Splits Symbol pieces ('%' :: pattern) ↔ ∃ k, Splits Symbol (pieces.drop k) pattern :=
  splits_any fun _ => trivial

theorem symbol_underscore : Splits Symbol text ('_' :: pattern) ↔ ∃ c rest, text = c :: rest ∧ Splits Symbol rest pattern := by
  rw [@splits_one _ _ _ _ _ _ (fun _ => True) fun piece => by simp [Symbol]]
  simp

theorem symbol_char (notPercent : c ≠ '%') (notUnderscore : c ≠ '_') : Splits Symbol text (c :: pattern) ↔
    ∃ d rest, text = d :: rest ∧ d.toLower = c.toLower ∧ Splits Symbol rest pattern :=
  splits_one fun piece => by simp [Symbol, notPercent, notUnderscore]

theorem ofNat_ne_of_ne (ascii : c.toNat < 128) (small : d.toNat < 128) (different : c ≠ d) :
    UInt8.ofNat c.toNat ≠ UInt8.ofNat d.toNat := by
  intro same
  have numbers := congrArg UInt8.toNat same
  rw [toNat_ofNat_of_lt (by omega), toNat_ofNat_of_lt (by omega)] at numbers
  exact different (by rw [← Char.ofNat_toNat c, numbers, Char.ofNat_toNat])

/-- Bytes above ASCII stand for themselves. -/
theorem splits_wide {p q : List UInt8} (wide : ∀ byte ∈ q, 128 ≤ byte.toNat) :
    Splits ByteSymbol s (q ++ p) ↔ ∃ rest, s = q ++ rest ∧ Splits ByteSymbol rest p := by
  induction q generalizing s with
  | nil => simp
  | cons pc q induction =>
    have high := wide pc List.mem_cons_self
    have notPercent : pc ≠ 0x25 := fun equal => by simp [equal] at high
    have notUnderscore : pc ≠ 0x5F := fun equal => by simp [equal] at high
    rw [List.cons_append, splits_byte notPercent notUnderscore]
    simp only [eqIgnoreAsciiCase_wide high, induction fun byte member => wide byte (List.mem_cons_of_mem _ member)]
    constructor
    · intro ⟨byte, _, parted, same, rest, parts, tail⟩
      exact ⟨rest, by rw [parted, same, parts, List.cons_append], tail⟩
    · intro ⟨rest, parted, tail⟩
      exact ⟨pc, q ++ rest, parted, rfl, rest, rfl, tail⟩

theorem utf8EncodeChar_all_wide (wide : 128 ≤ c.toNat) : ∀ byte ∈ String.utf8EncodeChar c, 128 ≤ byte.toNat := by
  obtain ⟨lead, rest, shape, high, trailing⟩ := utf8EncodeChar_wide wide
  intro byte member
  rw [shape] at member
  rcases List.mem_cons.mp member with equal | later
  · rw [equal]
    exact Nat.le_trans (by decide) high
  · exact (trailing byte later).1

theorem splits_ascii (ascii : c.toNat < 128) (notPercent : c ≠ '%') (notUnderscore : c ≠ '_') :
    Splits ByteSymbol s (encode (c :: pattern)) ↔ ∃ byte rest, s = byte :: rest ∧
      eqIgnoreAsciiCase byte (UInt8.ofNat c.toNat) = true ∧ Splits ByteSymbol rest (encode pattern) := by
  rw [encode_cons, utf8EncodeChar_ascii ascii, List.singleton_append]
  exact splits_byte (ofNat_ne_of_ne ascii (by decide) notPercent) (ofNat_ne_of_ne ascii (by decide) notUnderscore)

theorem splits_several (wide : 128 ≤ c.toNat) : Splits ByteSymbol s (encode (c :: pattern)) ↔
    ∃ rest, s = String.utf8EncodeChar c ++ rest ∧ Splits ByteSymbol rest (encode pattern) := by
  rw [encode_cons]
  exact splits_wide (utf8EncodeChar_all_wide wide)

/-- A character of the pattern and the first one of the text. -/
theorem splits_char (notPercent : c ≠ '%') (notUnderscore : c ≠ '_') :
    Splits ByteSymbol (encode (d :: text)) (encode (c :: pattern)) ↔
      d.toLower = c.toLower ∧ Splits ByteSymbol (encode text) (encode pattern) := by
  rcases Nat.lt_or_ge c.toNat 128 with ascii | wide
  · rw [splits_ascii ascii notPercent notUnderscore, encode_cons]
    rcases Nat.lt_or_ge d.toNat 128 with small | large
    · rw [utf8EncodeChar_ascii small, List.singleton_append, ← eqIgnoreAsciiCase_ascii small ascii]
      simp
    · obtain ⟨lead, rest, shape, high, _⟩ := utf8EncodeChar_wide large
      constructor
      · intro ⟨byte, _, parted, same, _⟩
        rw [shape, List.cons_append, List.cons.injEq] at parted
        rw [← parted.1] at same
        have low := (lt_iff_of_eqIgnoreAsciiCase same).mpr (by rw [toNat_ofNat_of_lt (by omega)]; exact ascii)
        omega
      · intro ⟨same, _⟩
        exact absurd ((ascii_iff_of_toLower same).mpr ascii) (Nat.not_lt.mpr large)
  · rw [splits_several wide, encode_cons]
    constructor
    · intro ⟨rest, parted, tail⟩
      obtain ⟨rfl, rfl⟩ := utf8EncodeChar_append_inj parted
      exact ⟨rfl, tail⟩
    · intro ⟨same, tail⟩
      have large : 128 ≤ d.toNat :=
        Nat.not_lt.mp fun small => absurd ((ascii_iff_of_toLower same).mp small) (Nat.not_lt.mpr wide)
      rw [toLower_wide large, toLower_wide wide] at same
      exact ⟨encode text, by rw [same], tail⟩

/-- Bytes that match a literal begin with a lead byte. -/
theorem leads_of_splits (notPercent : c ≠ '%') (notUnderscore : c ≠ '_')
    (matched : Splits ByteSymbol s (encode (c :: pattern))) (byte : UInt8) (first : s.head? = some byte) : Leads byte := by
  rcases Nat.lt_or_ge c.toNat 128 with ascii | wide
  · obtain ⟨sc, rest, rfl, same, _⟩ := (splits_ascii ascii notPercent notUnderscore).mp matched
    cases first
    exact .inl ((lt_iff_of_eqIgnoreAsciiCase same).mpr (by rw [toNat_ofNat_of_lt (by omega)]; exact ascii))
  · obtain ⟨rest, rfl, _⟩ := (splits_several wide).mp matched
    obtain ⟨lead, trailing, shape, high, _⟩ := utf8EncodeChar_wide wide
    rw [shape] at first
    cases first
    exact .inr high

theorem encode_percent : encode ('%' :: pattern) = 0x25 :: encode pattern := by
  rw [encode_cons, utf8EncodeChar_ascii (by decide)]
  rfl

theorem encode_underscore : encode ('_' :: pattern) = 0x5F :: encode pattern := by
  rw [encode_cons, utf8EncodeChar_ascii (by decide)]
  rfl

theorem not_splits_nil (notPercent : c ≠ '%') (notUnderscore : c ≠ '_') :
    ¬ Splits ByteSymbol [] (encode (c :: pattern)) := by
  rcases Nat.lt_or_ge c.toNat 128 with ascii | wide
  · rw [splits_ascii ascii notPercent notUnderscore]
    simp
  · rw [splits_several wide]
    simp [String.utf8EncodeChar_ne_nil]

end Characters

section Tokens

/-- A character of the pattern, or neighbouring wildcards: how many of them are `_`, and whether one is `%`. -/
inductive Token where
  | literal (symbol : Char)
  | run (count : Nat) (more : Bool)

def leading : List Token → (Nat × Bool) × List Token
  | .run count more :: rest => ((count, more), rest)
  | rest => ((0, false), rest)

def push (count : Nat) (more : Bool) (rest : List Token) : List Token :=
  .run (count + (leading rest).1.1) (more || (leading rest).1.2) :: (leading rest).2

def tokens : List Char → List Token
  | [] => []
  | c :: rest =>
    if c = '%' then push 0 true (tokens rest) else if c = '_' then push 1 false (tokens rest)
    else .literal c :: tokens rest

/-- What a token stands for where the characters under wildcards count with their width. -/
def Covers (width : Char → Nat) (piece : List Char) : Token → Prop
  | .literal symbol => ∃ c, piece = [c] ∧ c.toLower = symbol.toLower
  | .run count more => if more then count ≤ (piece.map width).sum else (piece.map width).sum = count

def byteWidth (c : Char) : Nat := (String.utf8EncodeChar c).length

/-- The characters under the wildcards can be counted by their bytes. -/
def Measured (text pattern : List Char) : Prop :=
  Splits (Covers byteWidth) text (tokens pattern) ↔ Splits (Covers fun _ => 1) text (tokens pattern)

/-- Where a token may lie, whatever its wildcards count. -/
def Lies (piece : List Char) : Token → Prop
  | .literal symbol => ∃ c, piece = [c] ∧ c.toLower = symbol.toLower
  | .run _ _ => True

/-- However the text is cut along the pattern, the wildcards cover the right number of bytes where they
cover the right number of characters, and only there. -/
def Unmistakable (text pattern : List Char) : Prop :=
  ∀ pieces : List (List Char), pieces.flatten = text → List.Forall₂ Lies pieces (tokens pattern) →
    List.Forall₂ (fun piece token => Covers byteWidth piece token ↔ Covers (fun _ => 1) piece token) pieces (tokens pattern)

variable {width : Char → Nat} {text : List Char} {k : Nat} {rest : List Token}

theorem Covers.lies {piece : List Char} {token : Token} (covers : Covers width piece token) : Lies piece token := by
  cases token with
  | literal symbol => exact covers
  | run count more => trivial

theorem Unmistakable.measured {pattern : List Char} (clear : Unmistakable text pattern) : Measured text pattern := by
  have pass {R S : List Char → Token → Prop} {pieces : List (List Char)} {list : List Token}
      (matched : List.Forall₂ R pieces list)
      (turn : List.Forall₂ (fun piece token => R piece token → S piece token) pieces list) :
      List.Forall₂ S pieces list := by
    induction matched with
    | nil => exact .nil
    | cons here _ induction =>
      cases turn with
      | cons first others => exact .cons (first here) (induction others)
  constructor
  · intro ⟨pieces, joined, matched⟩
    have turn := clear pieces joined (matched.imp fun _ _ => Covers.lies)
    exact ⟨pieces, joined, pass matched (turn.imp fun _ _ => Iff.mp)⟩
  · intro ⟨pieces, joined, matched⟩
    have turn := clear pieces joined (matched.imp fun _ _ => Covers.lies)
    exact ⟨pieces, joined, pass matched (turn.imp fun _ _ => Iff.mpr)⟩

theorem splits_push_zero (positive : ∀ c, 0 < width c) :
    Splits (Covers width) text (push 0 false rest) ↔ Splits (Covers width) text rest := by
  have empty : Splits (Covers width) text (.run 0 false :: rest) ↔ Splits (Covers width) text rest := by
    rw [splits_cons]
    constructor
    · intro ⟨piece, others, parted, covered, tail⟩
      cases piece with
      | nil => rwa [parted]
      | cons c piece =>
        have sum : width c + (piece.map width).sum = 0 := covered
        exact absurd sum (by have := positive c; omega)
    · exact fun tail => ⟨[], text, rfl, rfl, tail⟩
  cases rest with
  | nil => exact empty
  | cons token others =>
    cases token with
    | literal symbol => exact empty
    | run count more => simp [push, leading]

/-- A `%` takes as much as is needed. -/
theorem splits_push_more : Splits (Covers width) text (push k true rest) ↔
    ∃ j, k + j ≤ (text.map width).sum ∧ Splits (Covers width) text (push (k + j) false rest) := by
  simp only [push, splits_cons, Bool.true_or, Bool.false_or]
  generalize leading rest = lead
  obtain ⟨⟨count, more⟩, others⟩ := lead
  constructor
  · intro ⟨piece, back, parted, covered, tail⟩
    have enough : k + count ≤ (piece.map width).sum := covered
    refine ⟨(piece.map width).sum - (k + count), ?_, piece, back, parted, ?_, tail⟩
    · rw [parted, List.map_append, List.sum_append]
      omega
    · cases more with
      | true => exact show k + ((piece.map width).sum - (k + count)) + count ≤ (piece.map width).sum by omega
      | false => exact show (piece.map width).sum = k + ((piece.map width).sum - (k + count)) + count by omega
  · intro ⟨j, _, piece, back, parted, covered, tail⟩
    refine ⟨piece, back, parted, ?_, tail⟩
    change k + count ≤ (piece.map width).sum
    cases more with
    | true =>
      have enough : k + j + count ≤ (piece.map width).sum := covered
      omega
    | false =>
      have exactly : (piece.map width).sum = k + j + count := covered
      omega

theorem push_nil : push k false [] = [.run k false] := rfl

theorem push_literal {symbol : Char} : push k false (.literal symbol :: rest) = .run k false :: .literal symbol :: rest := rfl

theorem push_push {count n : Nat} {more : Bool} : push n false (push count more rest) = push (n + count) more rest := by
  simp [push, leading, Nat.add_assoc]

/-- A spelling of characters, and of patterns, in which a literal is found at the beginning of a character only. -/
structure Reads {α β : Type} (symbol : List α → β → Prop) (spell : List Char → List α) (signs : List Char → List β)
    (width : Char → Nat) : Prop where
  length : ∀ text, (spell text).length = (text.map width).sum
  positive : ∀ c, 0 < width c
  done : signs [] = []
  percent : ∀ s pattern, Splits symbol s (signs ('%' :: pattern)) ↔ ∃ k, Splits symbol (s.drop k) (signs pattern)
  underscore : ∀ s pattern, Splits symbol s (signs ('_' :: pattern)) ↔
    ∃ a rest, s = a :: rest ∧ Splits symbol rest (signs pattern)
  literal : ∀ c pattern text k, c ≠ '%' → c ≠ '_' → k ≤ (spell text).length →
    (Splits symbol ((spell text).drop k) (signs (c :: pattern)) ↔ ∃ first d last, text = first ++ d :: last ∧
      (spell first).length = k ∧ d.toLower = c.toLower ∧ Splits symbol (spell last) (signs pattern))

/-- The text from its `k`-th item on matches as if `k` more wildcards stood in front of the pattern. -/
theorem Reads.splits_drop {α β : Type} {symbol : List α → β → Prop} {spell : List Char → List α}
    {signs : List Char → List β}
    (reads : Reads symbol spell signs width) (pattern : List Char) (short : k ≤ (spell text).length) :
    Splits symbol ((spell text).drop k) (signs pattern) ↔ Splits (Covers width) text (push k false (tokens pattern)) := by
  induction pattern generalizing text k with
  | nil =>
    rw [reads.done, splits_nil, List.drop_eq_nil_iff, tokens, push_nil, splits_cons]
    constructor
    · intro long
      refine ⟨text, [], by simp, ?_, by simp⟩
      exact (reads.length text).symm.trans (Nat.le_antisymm long short)
    · intro ⟨piece, others, parted, covered, tail⟩
      rw [splits_nil.mp tail, List.append_nil] at parted
      have exactly : (piece.map width).sum = k := covered
      rw [reads.length, parted, exactly]
  | cons c pattern induction =>
    by_cases percent : c = '%'
    · subst percent
      rw [reads.percent, tokens, if_pos rfl, push_push, Nat.add_zero, splits_push_more]
      constructor
      · intro ⟨j, tail⟩
        rw [List.drop_drop] at tail
        -- an end past the last item is the end at it
        rcases Nat.le_total (k + j) (spell text).length with inside | past
        · exact ⟨j, by rwa [← reads.length], (induction inside).mp tail⟩
        · refine ⟨(spell text).length - k, by rw [← reads.length]; omega, (induction (by omega)).mp ?_⟩
          rw [List.drop_eq_nil_of_le past] at tail
          rwa [List.drop_eq_nil_of_le (by omega)]
      · intro ⟨j, inside, tail⟩
        rw [← reads.length] at inside
        exact ⟨j, by rw [List.drop_drop]; exact (induction inside).mpr tail⟩
    by_cases underscore : c = '_'
    · subst underscore
      rw [reads.underscore, tokens, if_neg percent, if_pos rfl, push_push]
      constructor
      · intro ⟨a, others, parted, tail⟩
        have inside : k < (spell text).length := by
          have length := congrArg List.length parted
          rw [List.length_drop, List.length_cons] at length
          omega
        rw [List.drop_eq_getElem_cons inside, List.cons.injEq] at parted
        rw [← parted.2] at tail
        exact (induction (Nat.succ_le_of_lt inside)).mp tail
      · intro matched
        have inside : k < (spell text).length := by
          rw [push, splits_cons] at matched
          obtain ⟨piece, others, parted, covered, _⟩ := matched
          rw [reads.length, parted, List.map_append, List.sum_append]
          simp only [Covers] at covered
          split at covered <;> omega
        refine ⟨_, _, List.drop_eq_getElem_cons inside, ?_⟩
        exact (induction (Nat.succ_le_of_lt inside)).mpr matched
    · rw [reads.literal c pattern text k percent underscore short, tokens, if_neg percent, if_neg underscore,
        push_literal, splits_cons]
      have start (last : List Char) : Splits symbol (spell last) (signs pattern) ↔
          Splits (Covers width) last (tokens pattern) := by
        rw [← splits_push_zero reads.positive, ← induction (Nat.zero_le _), List.drop_zero]
      constructor
      · intro ⟨first, d, last, parted, length, same, tail⟩
        rw [reads.length] at length
        exact ⟨first, d :: last, parted, length, splits_cons.mpr ⟨[d], last, rfl, ⟨d, rfl, same⟩, (start last).mp tail⟩⟩
      · intro ⟨first, others, parted, covered, matched⟩
        obtain ⟨piece, last, rfl, ⟨d, rfl, same⟩, tail⟩ := splits_cons.mp matched
        exact ⟨first, d, last, parted, (reads.length first).trans covered, same, (start last).mpr tail⟩

theorem Reads.splits {α β : Type} {symbol : List α → β → Prop} {spell : List Char → List α} {signs : List Char → List β}
    (reads : Reads symbol spell signs width) (text pattern : List Char) :
    Splits symbol (spell text) (signs pattern) ↔ Splits (Covers width) text (tokens pattern) := by
  rw [← splits_push_zero reads.positive, ← reads.splits_drop pattern (Nat.zero_le _), List.drop_zero]

theorem reads_characters : Reads Symbol id id fun _ => 1 where
  length text := by simp
  positive _ := Nat.one_pos
  done := rfl
  percent _ _ := symbol_percent
  underscore _ _ := symbol_underscore
  literal c pattern text k notPercent notUnderscore short := by
    simp only [id_eq, symbol_char notPercent notUnderscore]
    constructor
    · intro ⟨d, last, parted, same, tail⟩
      refine ⟨text.take k, d, last, ?_, List.length_take_of_le short, same, tail⟩
      rw [← parted, List.take_append_drop]
    · intro ⟨first, d, last, parted, length, same, tail⟩
      exact ⟨d, last, by rw [parted, ← length, List.drop_left], same, tail⟩

theorem length_encode (text : List Char) : (encode text).length = (text.map byteWidth).sum := by
  rw [encode, List.length_flatMap]
  rfl

theorem reads_bytes : Reads ByteSymbol encode encode byteWidth where
  length := length_encode
  positive c := List.length_pos_iff.mpr String.utf8EncodeChar_ne_nil
  done := rfl
  percent s pattern := by rw [encode_percent, splits_percent]
  underscore s pattern := by rw [encode_underscore, splits_underscore]
  literal c pattern text k notPercent notUnderscore short := by
    constructor
    · intro matched
      obtain ⟨first, last, rfl, left⟩ := drop_encode k (leads_of_splits notPercent notUnderscore matched)
      rw [left] at matched
      cases last with
      | nil => exact absurd matched (not_splits_nil notPercent notUnderscore)
      | cons d last =>
        obtain ⟨same, tail⟩ := (splits_char notPercent notUnderscore).mp matched
        refine ⟨first, d, last, rfl, ?_, same, tail⟩
        have length := congrArg List.length left
        rw [List.length_drop] at length
        rw [encode_append, List.length_append] at short length
        omega
    · intro ⟨first, d, last, parted, length, same, tail⟩
      rw [parted, encode_append, ← length, List.drop_left]
      exact (splits_char notPercent notUnderscore).mpr ⟨same, tail⟩

end Tokens

end Neuralbase.Query.Like
