/-
# Hashes as hexadecimal text

A hash lies in memory with the lowest byte first.  `GetHex` writes the highest byte first, and
`uint256S` reads it back (`getHex_uint256S`).

The hash library has a type of its own for the same 32 bytes.  A `uint256` is copied into it as it lies
in memory, but a text is read into it from its first digit on.  So the text of a hash becomes the bytes
of the hash in the other order (`textHash256_getHex`).
-/
import Breakout.Transaction
import Mathlib.Data.List.GetD
import Mathlib.Data.List.TakeWhile

namespace Breakout

open Lib

/-! ## 1. Writing and reading -/

/-- The digits `GetHex` writes. -/
def hexDigits : List Char := "0123456789abcdef".toList

/-- One digit. -/
def hexDigit (n : Nat) : Char := hexDigits.getD n '0'

/-- `%02x` -/
def byteHex (b : UInt8) : List Char := [hexDigit (b.toNat / 16), hexDigit (b.toNat % 16)]

def getHex (x : UInt256) : List Char := (serUInt256 x).reverse.flatMap byteHex

def isSpace (c : Char) : Bool := c == ' ' || ('\t' ≤ c && c ≤ '\r')

def phexdigit (c : Char) : UInt8 :=
  if '0' ≤ c ∧ c ≤ '9' then UInt8.ofNat (c.toNat - 48)
  else if 'a' ≤ c ∧ c ≤ 'f' then UInt8.ofNat (c.toNat - 87)
  else if 'A' ≤ c ∧ c ≤ 'F' then UInt8.ofNat (c.toNat - 55)
  else 0

/-- "hex string to uint": the bytes, from the last digit back. -/
def hexBytes : List Char → List UInt8
  | [] => []
  | [l] => [phexdigit l]
  | l :: h :: rest => (phexdigit l ||| phexdigit h <<< 4) :: hexBytes rest

/-- "skip 0x" -/
def skipHexPrefix : List Char → List Char
  | '0' :: x :: rest => if x = 'x' ∨ x = 'X' then rest else '0' :: x :: rest
  | psz => psz

/-- `uint256S`, which is `base_uint::SetHex` -/
def uint256S (str : List Char) : UInt256 :=
  let psz := skipHexPrefix (str.dropWhile isSpace)
  let digits := psz.takeWhile fun c => phexdigit c ≠ 0 ∨ c = '0'
  BitVec.ofNat 256 (leNat ((hexBytes digits.reverse).take 32))

structure Hash256 where
  bytes : List UInt8
  size : bytes.length = 32
deriving DecidableEq

@[ext] theorem Hash256.ext {a b : Hash256} (h : a.bytes = b.bytes) : a = b := by
  cases a
  cases b
  cases h
  rfl

/-- `to_hash256` of a `uint256`: a copy of the memory. -/
def hash256 (x : UInt256) : Hash256 := ⟨serUInt256 x, length_leBytes ..⟩

/-- `to_uint256` -/
def Hash256.toUInt256 (h : Hash256) : UInt256 := BitVec.ofNat 256 (leNat h.bytes)

/-- `parse_digit` -/
def parseDigit (d : Char) : UInt8 :=
  if d ≤ '9' then UInt8.ofNat d.toNat - 48 else UInt8.ofNat d.toNat - 97 + 10

/-- A byte for every two digits. -/
def digitPairs : List Char → List UInt8
  | h :: l :: rest => (parseDigit h <<< 4 ||| parseDigit l) :: digitPairs rest
  | _ => []

/-- `to_hash256` of a text.  Of a text with more than 64 digits, which would be written past the end,
the rest is left out. -/
def textHash256 (hex : List Char) : Hash256 :=
  ⟨(digitPairs hex ++ List.replicate 32 0).take 32, by simp⟩

/-- A text of digits as `GetHex` writes them. -/
def LowerHex (text : List Char) : Prop := ∀ c ∈ text, c ∈ hexDigits

instance (text : List Char) : Decidable (LowerHex text) :=
  List.decidableBAll (· ∈ hexDigits) text

/-! ## 2. One byte -/

theorem digit_pair (b : UInt8) :
    parseDigit (hexDigit (b.toNat / 16)) <<< 4 ||| parseDigit (hexDigit (b.toNat % 16)) = b := by
  have h : ∀ n < 256, parseDigit (hexDigit (n / 16)) <<< 4 ||| parseDigit (hexDigit (n % 16)) =
      UInt8.ofNat n := by
    decide +kernel
  rw [h b.toNat b.toNat_lt, UInt8.ofNat_toNat]

theorem phexdigit_pair (b : UInt8) :
    phexdigit (hexDigit (b.toNat % 16)) ||| phexdigit (hexDigit (b.toNat / 16)) <<< 4 = b := by
  have h : ∀ n < 256, phexdigit (hexDigit (n % 16)) ||| phexdigit (hexDigit (n / 16)) <<< 4 =
      UInt8.ofNat n := by
    decide +kernel
  rw [h b.toNat b.toNat_lt, UInt8.ofNat_toNat]

theorem hexDigit_mem (n : Nat) : hexDigit n ∈ hexDigits := by
  unfold hexDigit
  by_cases hn : n < hexDigits.length
  · rw [List.getD_eq_getElem _ _ hn]
    exact List.getElem_mem hn
  · rw [List.getD_eq_default _ _ (not_lt.mp hn)]
    decide

/-- What every digit is to the reader. -/
theorem digit_read {c : Char} (h : c ∈ hexDigits) :
    isSpace c = false ∧ c ≠ 'x' ∧ c ≠ 'X' ∧ (phexdigit c ≠ 0 ∨ c = '0') := by
  have hall : hexDigits.all fun c =>
      decide (isSpace c = false ∧ c ≠ 'x' ∧ c ≠ 'X' ∧ (phexdigit c ≠ 0 ∨ c = '0')) := by
    decide
  exact of_decide_eq_true (List.all_eq_true.mp hall c h)

/-- Two digits are those of the byte they are read as. -/
theorem byteHex_pair {h l : Char} (hh : h ∈ hexDigits) (hl : l ∈ hexDigits) :
    byteHex (parseDigit h <<< 4 ||| parseDigit l) = [h, l] := by
  have hall : hexDigits.all fun h => hexDigits.all fun l =>
      byteHex (parseDigit h <<< 4 ||| parseDigit l) == [h, l] := by
    decide +kernel
  exact eq_of_beq (List.all_eq_true.mp (List.all_eq_true.mp hall h hh) l hl)

/-! ## 3. Texts -/

theorem lowerHex_flatMap (bs : List UInt8) : LowerHex (bs.flatMap byteHex) := by
  intro c hc
  obtain ⟨b, -, hb⟩ := List.mem_flatMap.mp hc
  rcases List.mem_pair.mp hb with rfl | rfl
  · exact hexDigit_mem _
  · exact hexDigit_mem _

theorem digitPairs_flatMap (bs : List UInt8) : digitPairs (bs.flatMap byteHex) = bs := by
  induction bs with
  | nil => rfl
  | cons b bs ih =>
    rw [List.flatMap_cons, byteHex, List.cons_append, List.cons_append, List.nil_append, digitPairs,
      digit_pair, ih]

variable {text : List Char} {bs : List UInt8}

/-- A text of lower-case digits is that of its bytes. -/
theorem flatMap_digitPairs (h : LowerHex text) (heven : text.length % 2 = 0) :
    (digitPairs text).flatMap byteHex = text := by
  induction text using digitPairs.induct with
  | case1 high low rest ih =>
    have hrest : (digitPairs rest).flatMap byteHex = rest := by
      refine ih (fun c hc => h c (by simp [hc])) ?_
      rw [List.length_cons, List.length_cons] at heven
      omega
    rw [digitPairs, List.flatMap_cons, hrest, byteHex_pair (h high (by simp)) (h low (by simp))]
    rfl
  | case2 text hshort =>
    match text, hshort with
    | [], _ => rfl
    | [c], _ => simp at heven
    | high :: low :: rest, hshort => exact absurd rfl (hshort high low rest)

theorem length_flatMap_byteHex (bs : List UInt8) : (bs.flatMap byteHex).length = 2 * bs.length := by
  induction bs with
  | nil => rfl
  | cons b bs ih =>
    rw [List.flatMap_cons, List.length_append, ih, List.length_cons, byteHex]
    simp only [List.length_cons, List.length_nil]
    omega

/-- From the last digit back, the bytes come in the other order. -/
theorem hexBytes_reverse (bs : List UInt8) : hexBytes (bs.flatMap byteHex).reverse = bs.reverse := by
  induction bs using List.reverseRecOn with
  | nil => rfl
  | append_singleton bs b ih =>
    rw [List.flatMap_append, List.reverse_append, List.flatMap_singleton, byteHex]
    simp only [List.reverse_cons, List.reverse_nil, List.nil_append, List.cons_append]
    rw [hexBytes, phexdigit_pair, ih, List.reverse_append]
    rfl

theorem skipHexPrefix_eq (h : LowerHex text) : skipHexPrefix text = text := by
  unfold skipHexPrefix
  split
  · next x rest =>
    obtain ⟨-, hx, hX, -⟩ := digit_read (h x (by simp))
    rw [if_neg (by simp [hx, hX])]
  · rfl

/-- Nothing in front is skipped, and nothing stops the reader. -/
theorem digits_lowerHex (h : LowerHex text) :
    (skipHexPrefix (text.dropWhile isSpace)).takeWhile
      (fun c => decide (phexdigit c ≠ 0 ∨ c = '0')) = text := by
  have hspace : text.dropWhile isSpace = text := by
    cases text with
    | nil => rfl
    | cons c rest =>
      rw [List.dropWhile_cons_of_neg]
      rw [(digit_read (h c List.mem_cons_self)).1]
      decide
  rw [hspace, skipHexPrefix_eq h, List.takeWhile_eq_self_iff]
  intro c hc
  exact decide_eq_true (digit_read (h c hc)).2.2.2

theorem uint256S_lowerHex (h : LowerHex text) :
    uint256S text = BitVec.ofNat 256 (leNat ((hexBytes text.reverse).take 32)) := by
  unfold uint256S
  dsimp only
  rw [digits_lowerHex h]

theorem uint256S_flatMap (h : bs.length ≤ 32) :
    uint256S (bs.flatMap byteHex) = BitVec.ofNat 256 (leNat bs.reverse) := by
  rw [uint256S_lowerHex (lowerHex_flatMap bs), hexBytes_reverse,
    List.take_of_length_le (by rwa [List.length_reverse])]

/-! ## 4. Round trips -/

theorem serUInt256_ofNat (h : bs.length = 32) :
    serUInt256 (BitVec.ofNat 256 (leNat bs)) = bs := by
  have hlt : leNat bs < 2 ^ 256 := by
    have := leNat_lt bs
    rw [h] at this
    calc leNat bs < 256 ^ 32 := this
      _ = 2 ^ 256 := by norm_num
  rw [serUInt256, BitVec.toNat_ofNat, Nat.mod_eq_of_lt hlt, ← h]
  exact leBytes_leNat bs

/-- **A text of 64 digits is the text of the number it is read as.** -/
theorem getHex_uint256S (h : LowerHex text) (hlen : text.length = 64) :
    getHex (uint256S text) = text := by
  have htext := flatMap_digitPairs h (by omega)
  have hbytes : (digitPairs text).length = 32 := by
    have hdouble := length_flatMap_byteHex (digitPairs text)
    rw [htext] at hdouble
    omega
  have hread : uint256S ((digitPairs text).flatMap byteHex) =
      BitVec.ofNat 256 (leNat (digitPairs text).reverse) := uint256S_flatMap hbytes.le
  rw [htext] at hread
  rw [getHex, hread, serUInt256_ofNat (by rw [List.length_reverse, hbytes]), List.reverse_reverse,
    htext]

/-- **The text of a hash is read in the other order.** -/
theorem textHash256_getHex (x : UInt256) : (textHash256 (getHex x)).bytes = (serUInt256 x).reverse := by
  rw [textHash256, getHex]
  dsimp only
  rw [digitPairs_flatMap]
  exact List.take_left' (by rw [List.length_reverse]; exact length_leBytes ..)

end Breakout
