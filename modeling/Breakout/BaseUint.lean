/-
# Wide integers

`base_uint` keeps a number in words of 32 bits, the lowest first.  Its operators go through the
words one by one and carry, borrow and shift bits from one to the next; `Uint256Divide` divides bit
by bit.

The rest of the development takes a `uint256` for a number of 256 bits.  `base_uint_agrees` says
that the operators on words compute with these numbers, and `toUInt256_agrees` that they are those
of the type used elsewhere.
-/
import Breakout.Block
import Breakout.HexText
import Breakout.Lib.Limbs
import Mathlib.Data.Nat.Bitwise

namespace Breakout

open Lib

/-! ## 1. `base_uint` -/

/-- `base_uint`: the words of a number, the lowest first. -/
structure BaseUint (WIDTH : Nat) where
  pn : List UInt32
  width : pn.length = WIDTH
deriving DecidableEq

abbrev Uint256 := BaseUint 8

/-- What words are worth. -/
def wordsValue (pn : List UInt32) : Nat := Nat.ofDigits (2 ^ 32) (pn.map UInt32.toNat)

/-- The loop of `operator+=`. -/
def addLoop (carry : UInt64) : List UInt32 → List UInt32 → List UInt32
  | x :: xs, y :: ys =>
    let n := carry + x.toUInt64 + y.toUInt64
    (n &&& 0xffffffff).toUInt32 :: addLoop (n >>> 32) xs ys
  | _, _ => []

/-- The loop of `operator++`. -/
def incLoop : List UInt32 → List UInt32
  | [] => []
  | x :: xs => if x + 1 = 0 then (x + 1) :: incLoop xs else (x + 1) :: xs

/-- The loop of `operator--`. -/
def decLoop : List UInt32 → List UInt32
  | [] => []
  | x :: xs => if x - 1 = -1 then (x - 1) :: decLoop xs else (x - 1) :: xs

/-- The loop of the comparisons, from the highest word down; `fEqual` is what they say of equal
numbers. -/
def lessLoop (fEqual : Bool) : List UInt32 → List UInt32 → Bool
  | x :: xs, y :: ys => if x < y then true else if x > y then false else lessLoop fEqual xs ys
  | _, _ => fEqual

/-- The loop of `operator==`. -/
def equalLoop : List UInt32 → List UInt32 → Bool
  | x :: xs, y :: ys => if x ≠ y then false else equalLoop xs ys
  | _, _ => true

/-- A round of `operator<<=`. -/
def shlRound (a : List UInt32) (k : Nat) (shift : UInt32) (pn : List UInt32) (i : Nat) :
    List UInt32 :=
  let pn := if i + k + 1 < a.length ∧ shift ≠ 0 then
    pn.modify (i + k + 1) (· ||| a.getD i 0 >>> (32 - shift)) else pn
  if i + k < a.length then pn.modify (i + k) (· ||| a.getD i 0 <<< shift) else pn

/-- A round of `operator>>=`. -/
def shrRound (a : List UInt32) (k : Nat) (shift : UInt32) (pn : List UInt32) (i : Nat) :
    List UInt32 :=
  let pn := if k + 1 ≤ i ∧ shift ≠ 0 then
    pn.modify (i - k - 1) (· ||| a.getD i 0 <<< (32 - shift)) else pn
  if k ≤ i then pn.modify (i - k) (· ||| a.getD i 0 >>> shift) else pn


/-- `operator<<=` on the words: the rounds, into words that are zero. -/
def shlLoop (a : List UInt32) (shift : UInt32) : List UInt32 :=
  (List.range a.length).foldl (shlRound a (shift / 32).toNat (shift % 32))
    (List.replicate a.length 0)

/-- `operator>>=` on the words. -/
def shrLoop (a : List UInt32) (shift : UInt32) : List UInt32 :=
  (List.range a.length).foldl (shrRound a (shift / 32).toNat (shift % 32))
    (List.replicate a.length 0)

theorem length_addLoop : ∀ (carry : UInt64) (xs ys : List UInt32), xs.length = ys.length →
    (addLoop carry xs ys).length = xs.length
  | _, [], [], _ => rfl
  | carry, x :: xs, y :: ys, h => by
    rw [addLoop, List.length_cons, length_addLoop _ xs ys (by simpa using h), List.length_cons]

theorem length_incLoop (xs : List UInt32) : (incLoop xs).length = xs.length := by
  induction xs with
  | nil => rfl
  | cons x xs ih =>
    rw [incLoop]
    split_ifs
    · rw [List.length_cons, ih, List.length_cons]
    · rfl

theorem length_decLoop (xs : List UInt32) : (decLoop xs).length = xs.length := by
  induction xs with
  | nil => rfl
  | cons x xs ih =>
    rw [decLoop]
    split_ifs
    · rw [List.length_cons, ih, List.length_cons]
    · rfl

theorem length_shlRound (a : List UInt32) (k : Nat) (shift : UInt32) (pn : List UInt32) (i : Nat) :
    (shlRound a k shift pn i).length = pn.length := by
  unfold shlRound
  dsimp only
  split_ifs <;> simp only [List.length_modify]

theorem length_shrRound (a : List UInt32) (k : Nat) (shift : UInt32) (pn : List UInt32) (i : Nat) :
    (shrRound a k shift pn i).length = pn.length := by
  unfold shrRound
  dsimp only
  split_ifs <;> simp only [List.length_modify]

theorem length_foldl_round {round : List UInt32 → Nat → List UInt32}
    (h : ∀ pn i, (round pn i).length = pn.length) (is : List Nat) (pn : List UInt32) :
    (is.foldl round pn).length = pn.length := by
  induction is generalizing pn with
  | nil => rfl
  | cons i is ih => rw [List.foldl_cons, ih, h]

namespace BaseUint

variable {WIDTH : Nat}

/-- The number. -/
def value (a : BaseUint WIDTH) : Nat := wordsValue a.pn

/-- Zero. -/
def zero (WIDTH : Nat) : BaseUint WIDTH := ⟨List.replicate WIDTH 0, List.length_replicate⟩

/-- `operator=` of a word of 64 bits. -/
def ofWord (b : UInt64) : BaseUint (WIDTH + 2) where
  pn := b.toUInt32 :: (b >>> 32).toUInt32 :: List.replicate WIDTH 0
  width := by simp

/-- `operator!` -/
def isZero (a : BaseUint WIDTH) : Bool := a.pn.all (· == 0)

/-- `operator~` -/
def not (a : BaseUint WIDTH) : BaseUint WIDTH :=
  ⟨a.pn.map (~~~ ·), by rw [List.length_map, a.width]⟩

/-- `operator++` -/
def inc (a : BaseUint WIDTH) : BaseUint WIDTH := ⟨incLoop a.pn, by rw [length_incLoop, a.width]⟩

/-- `operator--` -/
def dec (a : BaseUint WIDTH) : BaseUint WIDTH := ⟨decLoop a.pn, by rw [length_decLoop, a.width]⟩

/-- `operator-`, of one number. -/
def neg (a : BaseUint WIDTH) : BaseUint WIDTH := a.not.inc

/-- `operator+=` -/
def add (a b : BaseUint WIDTH) : BaseUint WIDTH where
  pn := addLoop 0 a.pn b.pn
  width := by rw [length_addLoop _ _ _ (a.width.trans b.width.symm), a.width]

/-- `operator-=` -/
def sub (a b : BaseUint WIDTH) : BaseUint WIDTH := a.add b.neg

/-- `operator+=` of a word of 64 bits. -/
def addWord (a : BaseUint (WIDTH + 2)) (b : UInt64) : BaseUint (WIDTH + 2) := a.add (ofWord b)

/-- `operator-=` of a word of 64 bits. -/
def subWord (a : BaseUint (WIDTH + 2)) (b : UInt64) : BaseUint (WIDTH + 2) := a.add (ofWord b).neg

/-- `operator<<=` -/
def shl (a : BaseUint WIDTH) (shift : UInt32) : BaseUint WIDTH where
  pn := shlLoop a.pn shift
  width := by
    rw [shlLoop, length_foldl_round (length_shlRound _ _ _), List.length_replicate, a.width]

/-- `operator>>=` -/
def shr (a : BaseUint WIDTH) (shift : UInt32) : BaseUint WIDTH where
  pn := shrLoop a.pn shift
  width := by
    rw [shrLoop, length_foldl_round (length_shrRound _ _ _), List.length_replicate, a.width]

/-- `operator<` -/
def lt (a b : BaseUint WIDTH) : Bool := lessLoop false a.pn.reverse b.pn.reverse

/-- `operator<=` -/
def le (a b : BaseUint WIDTH) : Bool := lessLoop true a.pn.reverse b.pn.reverse

/-- `operator>` -/
def gt (a b : BaseUint WIDTH) : Bool := lessLoop false b.pn.reverse a.pn.reverse

/-- `operator>=` -/
def ge (a b : BaseUint WIDTH) : Bool := lessLoop true b.pn.reverse a.pn.reverse

/-- `operator==` -/
def eq (a b : BaseUint WIDTH) : Bool := equalLoop a.pn b.pn

/-- `operator!=` -/
def ne (a b : BaseUint WIDTH) : Bool := !a.eq b

/-- `operator==` with a word of 64 bits. -/
def eqWord (a : BaseUint WIDTH) (b : UInt64) : Bool :=
  a.pn.getD 0 0 == b.toUInt32 && a.pn.getD 1 0 == (b >>> 32).toUInt32 &&
    (a.pn.drop 2).all (· == 0)

/-- The bytes of the words, as they lie in memory. -/
def bytes (a : BaseUint WIDTH) : List UInt8 := a.pn.flatMap fun x => leBytes 4 x.toNat

/-- The words over bytes in memory; bytes that are not there are zero. -/
def ofBytes (bs : List UInt8) : BaseUint WIDTH where
  pn := (List.range WIDTH).map fun i => UInt32.ofNat (leNat ((bs.drop (4 * i)).take 4))
  width := by rw [List.length_map, List.length_range]

def getHex (a : BaseUint WIDTH) : List Char := a.bytes.reverse.flatMap byteHex

def setHex (str : List Char) : BaseUint WIDTH :=
  let psz := skipHexPrefix (str.dropWhile isSpace)
  let digits := psz.takeWhile fun c => phexdigit c ≠ 0 ∨ c = '0'
  ofBytes ((hexBytes digits.reverse).take (WIDTH * 4))

/-- `result.pn[shift / 32] |= (1u << (shift & 31))` -/
def setBit (a : BaseUint WIDTH) (shift : Nat) : BaseUint WIDTH where
  pn := a.pn.modify (shift / 32) (· ||| 1 <<< UInt32.ofNat (shift &&& 31))
  width := by rw [List.length_modify, a.width]

end BaseUint

/-! ## 2. `Uint256Divide` -/

/-- The bits of a word, looked for from `nbits` down. -/
def wordBits (x : UInt32) : Nat → Nat
  | 0 => 1
  | nbits + 1 => if x &&& 1 <<< UInt32.ofNat (nbits + 1) ≠ 0 then nbits + 2 else wordBits x nbits

/-- The loop of `countBits`, from the highest word down. -/
def countBitsLoop : List UInt32 → Nat
  | [] => 0
  | x :: xs => if x ≠ 0 then 32 * xs.length + wordBits x 31 else countBitsLoop xs

def countBits (n : Uint256) : Nat := countBitsLoop n.pn.reverse

/-- The loop of `Uint256Divide`, from `shift` down to zero, when it has `shift + 1` rounds to go. -/
def divideLoop : Nat → Uint256 → Uint256 → Uint256 → Uint256
  | 0, _, _, result => result
  | shift + 1, div, num, result =>
    if num.ge div then divideLoop shift (div.shr 1) (num.sub div) (result.setBit shift)
    else divideLoop shift (div.shr 1) num result

def uint256Divide (numerator denominator : Uint256) : Except String Uint256 :=
  if denominator.isZero then .error "Division by zero"
  else
    let num_bits := countBits numerator
    let div_bits := countBits denominator
    if div_bits > num_bits then .ok (BaseUint.zero 8)
    else
      let shift := num_bits - div_bits
      let div := denominator.shl (UInt32.ofNat shift)
      .ok (divideLoop (shift + 1) div numerator (BaseUint.zero 8))

/-! ## 3. Words -/

theorem wordsValue_cons (x : UInt32) (xs : List UInt32) :
    wordsValue (x :: xs) = x.toNat + 2 ^ 32 * wordsValue xs := rfl

theorem words_lt (pn : List UInt32) : ∀ d ∈ pn.map UInt32.toNat, d < 2 ^ 32 := by
  intro d hd
  obtain ⟨x, -, rfl⟩ := List.mem_map.mp hd
  exact x.toNat_lt

theorem wordsValue_lt (pn : List UInt32) : wordsValue pn < 2 ^ (32 * pn.length) := by
  have h := Nat.ofDigits_lt_base_pow_length (by decide : 1 < 2 ^ 32) (words_lt pn)
  rwa [List.length_map, ← pow_mul] at h

theorem wordsValue_append (xs ys : List UInt32) :
    wordsValue (xs ++ ys) = wordsValue xs + 2 ^ (32 * xs.length) * wordsValue ys := by
  rw [wordsValue, List.map_append, Nat.ofDigits_append, List.length_map, ← pow_mul]
  rfl

variable {xs ys : List UInt32} {w s : UInt32}

theorem wordsValue_inj (hlen : xs.length = ys.length) (h : wordsValue xs = wordsValue ys) :
    xs = ys := by
  have hmap := Nat.ofDigits_inj_of_len_eq (by decide : 1 < 2 ^ 32)
    (by rw [List.length_map, List.length_map, hlen]) (words_lt xs) (words_lt ys) h
  exact List.map_injective_iff.mpr (fun _ _ => UInt32.toNat_inj.mp) hmap

@[simp] theorem wordsValue_replicate (n : Nat) : wordsValue (List.replicate n 0) = 0 := by
  induction n with
  | zero => rfl
  | succ n ih => rw [List.replicate_succ, wordsValue_cons, ih]; rfl

/-- A bit of the number is a bit of a word. -/
theorem testBit_wordsValue (pn : List UInt32) (n : Nat) :
    (wordsValue pn).testBit n = (pn.getD (n / 32) 0).toNat.testBit (n % 32) := by
  have h := testBit_ofDigits (Nat.mod_lt n (by decide)) (words_lt pn) (n / 32)
  rw [Nat.div_add_mod] at h
  rw [wordsValue, h]
  congr 1
  rw [← UInt32.toNat_zero, List.getD_map]

/-! ## 4. Sums -/

theorem addLoop_value : ∀ (carry : UInt64) (xs ys : List UInt32), carry.toNat < 2 ^ 32 →
    xs.length = ys.length → wordsValue (addLoop carry xs ys) =
      (carry.toNat + wordsValue xs + wordsValue ys) % 2 ^ (32 * xs.length)
  | carry, [], [], _, _ => by simp [addLoop, wordsValue, Nat.mod_one]
  | carry, x :: xs, y :: ys, hcarry, hlen => by
    have hx := x.toNat_lt
    have hy := y.toNat_lt
    obtain ⟨n, hn⟩ : ∃ n, n = carry + x.toUInt64 + y.toUInt64 := ⟨_, rfl⟩
    have hsum : n.toNat = carry.toNat + x.toNat + y.toNat := by
      rw [hn, UInt64.toNat_add, UInt64.toNat_add, UInt32.toNat_toUInt64, UInt32.toNat_toUInt64]
      omega
    have hlow : (n &&& 0xffffffff).toUInt32.toNat = n.toNat % 2 ^ 32 := by
      rw [UInt64.toNat_toUInt32, UInt64.toNat_and]
      exact (congrArg (· % 2 ^ 32) (Nat.and_two_pow_sub_one_eq_mod n.toNat 32)).trans
        (Nat.mod_mod _ _)
    have hhigh : (n >>> 32).toNat = n.toNat / 2 ^ 32 := by
      rw [UInt64.toNat_shiftRight, Nat.shiftRight_eq_div_pow]
      rfl
    have ih := addLoop_value (n >>> 32) xs ys (by rw [hhigh]; omega) (by simpa using hlen)
    rw [addLoop, ← hn, wordsValue_cons, wordsValue_cons, wordsValue_cons, hlow, ih, hhigh,
      List.length_cons, Nat.mul_succ, Nat.add_comm (32 * xs.length), pow_add, Nat.mod_mul]
    have htotal : carry.toNat + (x.toNat + 2 ^ 32 * wordsValue xs) +
        (y.toNat + 2 ^ 32 * wordsValue ys) =
        n.toNat + 2 ^ 32 * (wordsValue xs + wordsValue ys) := by
      rw [hsum]
      ring
    rw [htotal, Nat.add_mul_mod_self_left, Nat.add_mul_div_left _ _ (by decide : 0 < 2 ^ 32),
      Nat.add_assoc]

theorem incLoop_value (xs : List UInt32) :
    wordsValue (incLoop xs) = (wordsValue xs + 1) % 2 ^ (32 * xs.length) := by
  induction xs with
  | nil => rfl
  | cons x xs ih =>
    have hx := x.toNat_lt
    have hlt := wordsValue_lt xs
    have hone : (x + 1).toNat = (x.toNat + 1) % 2 ^ 32 := by rw [UInt32.toNat_add]; rfl
    have hzero : x + 1 = 0 ↔ x.toNat + 1 = 2 ^ 32 := by
      rw [← UInt32.toNat_inj, hone, UInt32.toNat_zero]
      omega
    rw [incLoop, wordsValue_cons, List.length_cons, Nat.mul_succ, Nat.add_comm (32 * xs.length),
      pow_add, Nat.mod_mul]
    split_ifs with h
    · rw [wordsValue_cons, ih, hone]
      have hfull := hzero.mp h
      have hnext : (x.toNat + 2 ^ 32 * wordsValue xs + 1) / 2 ^ 32 = wordsValue xs + 1 := by omega
      rw [hnext]
      omega
    · rw [wordsValue_cons, hone]
      have hroom : x.toNat + 1 < 2 ^ 32 := by
        have := hzero.not.mp h
        omega
      have hnext : (x.toNat + 2 ^ 32 * wordsValue xs + 1) / 2 ^ 32 = wordsValue xs := by omega
      rw [hnext, Nat.mod_eq_of_lt hlt]
      omega

theorem decLoop_value (xs : List UInt32) :
    wordsValue (decLoop xs) =
      (wordsValue xs + (2 ^ (32 * xs.length) - 1)) % 2 ^ (32 * xs.length) := by
  induction xs with
  | nil => rfl
  | cons x xs ih =>
    have hx := x.toNat_lt
    have hlt := wordsValue_lt xs
    obtain ⟨M, hM⟩ : ∃ M, M = 2 ^ (32 * xs.length) := ⟨_, rfl⟩
    have hpos : 0 < M := hM ▸ Nat.two_pow_pos _
    have hone : (x - 1).toNat = (x.toNat + (2 ^ 32 - 1)) % 2 ^ 32 := by
      rw [UInt32.toNat_sub, Nat.add_comm]
      rfl
    have hlast : x - 1 = -1 ↔ x.toNat = 0 := by
      rw [← UInt32.toNat_inj, hone]
      change _ = 2 ^ 32 - 1 ↔ _
      omega
    rw [decLoop, wordsValue_cons, List.length_cons, Nat.mul_succ, Nat.add_comm (32 * xs.length),
      pow_add, Nat.mod_mul, ← hM]
    rw [← hM] at ih hlt
    split_ifs with h
    · rw [wordsValue_cons, ih, hone]
      have hzero := hlast.mp h
      have hnext : (x.toNat + 2 ^ 32 * wordsValue xs + (2 ^ 32 * M - 1)) / 2 ^ 32 =
          wordsValue xs + (M - 1) := by omega
      rw [hnext]
      omega
    · rw [wordsValue_cons, hone]
      have hmore := Nat.pos_of_ne_zero (hlast.not.mp h)
      have hnext : (x.toNat + 2 ^ 32 * wordsValue xs + (2 ^ 32 * M - 1)) / 2 ^ 32 =
          wordsValue xs + M := by omega
      rw [hnext, Nat.add_mod_right, Nat.mod_eq_of_lt hlt]
      omega

theorem wordsValue_not (xs : List UInt32) :
    wordsValue (xs.map (~~~ ·)) + wordsValue xs + 1 = 2 ^ (32 * xs.length) := by
  induction xs with
  | nil => rfl
  | cons x xs ih =>
    have hx := x.toNat_lt
    have hnot : (~~~x).toNat = 2 ^ 32 - 1 - x.toNat := by
      rw [UInt32.toNat_not]
      rfl
    rw [List.map_cons, wordsValue_cons, wordsValue_cons, hnot, List.length_cons, Nat.mul_succ,
      pow_add, ← ih]
    omega

/-! ## 5. Order -/

theorem wordsValue_concat_lt {x y : UInt32} (h : xs.length = ys.length) :
    wordsValue (xs ++ [x]) < wordsValue (ys ++ [y]) ↔
      x < y ∨ x = y ∧ wordsValue xs < wordsValue ys := by
  unfold wordsValue
  rw [List.map_append, List.map_append, List.map_singleton, List.map_singleton,
    ofDigits_concat_lt (by decide) (words_lt xs) (words_lt ys) (by simpa using h),
    ← UInt32.lt_iff_toNat_lt, UInt32.toNat_inj]

/-- The highest words that differ decide. -/
theorem lessLoop_iff {fEqual : Bool} : ∀ {ys : List UInt32},
    xs.length = ys.length → (lessLoop fEqual xs.reverse ys.reverse = true ↔
      wordsValue xs < wordsValue ys ∨ ¬ wordsValue ys < wordsValue xs ∧ fEqual = true) := by
  induction xs using List.reverseRecOn with
  | nil =>
    intro ys h
    obtain rfl := List.length_eq_zero_iff.mp h.symm
    simp [lessLoop]
  | append_singleton xs x ih =>
    intro ys h
    obtain ⟨ys, y, rfl⟩ : ∃ zs z, ys = zs ++ [z] := by
      refine ⟨ys.dropLast, ys.getLast ?_, (List.dropLast_append_getLast _).symm⟩
      rintro rfl
      simp at h
    have hlen : xs.length = ys.length := by simpa using h
    rw [List.reverse_append, List.reverse_append, wordsValue_concat_lt hlen,
      wordsValue_concat_lt hlen.symm]
    change lessLoop fEqual (x :: xs.reverse) (y :: ys.reverse) = true ↔ _
    rw [lessLoop]
    simp only [UInt32.lt_iff_toNat_lt, gt_iff_lt, ← UInt32.toNat_inj]
    rcases lt_trichotomy x.toNat y.toNat with hxy | hxy | hxy
    · rw [if_pos hxy]
      exact iff_of_true rfl (Or.inl (Or.inl hxy))
    · rw [if_neg hxy.not_lt, if_neg hxy.not_gt, ih hlen]
      simp only [hxy, lt_irrefl, true_and, false_or]
    · rw [if_neg hxy.not_gt, if_pos hxy]
      refine iff_of_false Bool.false_ne_true ?_
      rintro ((h | ⟨h, -⟩) | ⟨h, -⟩)
      · exact hxy.not_gt h
      · exact hxy.ne' h
      · exact h (Or.inl hxy)

theorem equalLoop_iff : ∀ {xs ys : List UInt32}, xs.length = ys.length →
    (equalLoop xs ys = true ↔ wordsValue xs = wordsValue ys)
  | [], [], _ => by simp [equalLoop]
  | x :: xs, y :: ys, h => by
    have ih : equalLoop xs ys = true ↔ wordsValue xs = wordsValue ys :=
      equalLoop_iff (by simpa using h)
    have hwords : wordsValue (x :: xs) = wordsValue (y :: ys) ↔ x :: xs = y :: ys :=
      ⟨wordsValue_inj h, fun heq => heq ▸ rfl⟩
    rw [hwords, equalLoop, List.cons.injEq]
    by_cases hxy : x = y
    · rw [if_neg (not_not.mpr hxy), ih]
      exact ⟨fun heq => ⟨hxy, wordsValue_inj (by simpa using h) heq⟩, fun heq => heq.2 ▸ rfl⟩
    · rw [if_pos hxy]
      exact iff_of_false Bool.false_ne_true fun heq => hxy heq.1

/-! ## 6. Shifts -/

/-- A bit of a word. -/
def wordBit (pn : List UInt32) (j r : Nat) : Prop := (pn.getD j 0).toNat.testBit r = true

theorem wordBit_modify {pn : List UInt32} {i j r : Nat} (hi : i < pn.length) :
    wordBit (pn.modify i (· ||| w)) j r ↔ wordBit pn j r ∨ i = j ∧ w.toNat.testBit r = true := by
  unfold wordBit
  rw [List.getD_eq_getElem?_getD, List.getD_eq_getElem?_getD, List.getElem?_modify]
  by_cases hij : i = j
  · subst hij
    rw [List.getElem?_eq_getElem hi]
    simp
  · simp [hij]

/-- What a round adds is all that it does. -/
theorem wordBit_foldl {round : List UInt32 → Nat → List UInt32} {adds : Nat → Prop} {j r n : Nat}
    (hlen : ∀ pn i, (round pn i).length = pn.length)
    {is : List Nat} (hround : ∀ pn, ∀ i ∈ is, pn.length = n →
      (wordBit (round pn i) j r ↔ wordBit pn j r ∨ adds i))
    {pn : List UInt32} (hpn : pn.length = n) :
    wordBit (is.foldl round pn) j r ↔ wordBit pn j r ∨ ∃ i ∈ is, adds i := by
  induction is generalizing pn with
  | nil => simp
  | cons i is ih =>
    rw [List.foldl_cons, ih (fun pn i hi => hround pn i (List.mem_cons_of_mem _ hi))
      ((hlen pn i).trans hpn), hround _ _ List.mem_cons_self hpn, or_assoc]
    simp

theorem not_wordBit_zero (n j r : Nat) : ¬ wordBit (List.replicate n 0) j r := by
  unfold wordBit
  rw [List.getD_eq_getElem?_getD, List.getElem?_replicate]
  split_ifs <;> simp

/-- The shifts of words, as bits. -/
theorem testBit_shl {r : Nat} (hs : s.toNat < 32) (hr : r < 32) :
    (w <<< s).toNat.testBit r = true ↔ s.toNat ≤ r ∧ w.toNat.testBit (r - s.toNat) = true := by
  rw [UInt32.toNat_shiftLeft, Nat.mod_eq_of_lt hs, Nat.testBit_mod_two_pow, Nat.testBit_shiftLeft]
  simp [hr]

theorem testBit_shr {r : Nat} (hs : s.toNat < 32) :
    (w >>> s).toNat.testBit r = true ↔ w.toNat.testBit (s.toNat + r) = true := by
  rw [UInt32.toNat_shiftRight, Nat.mod_eq_of_lt hs, Nat.testBit_shiftRight]

theorem testBit_wordsValue_iff (pn : List UInt32) (n : Nat) :
    (wordsValue pn).testBit n = true ↔ wordBit pn (n / 32) (n % 32) := by
  rw [testBit_wordsValue, wordBit]

theorem wordBit_lt {pn : List UInt32} {j r : Nat} (h : wordBit pn j r) :
    j < pn.length ∧ r < 32 := by
  unfold wordBit at h
  constructor
  · by_contra hj
    rw [List.getD_eq_default _ _ (not_lt.mp hj)] at h
    simp at h
  · by_contra hr
    have hlt := (pn.getD j 0).toNat_lt
    have hpow : 2 ^ 32 ≤ 2 ^ r := Nat.pow_le_pow_right (by decide) (not_lt.mp hr)
    rw [Nat.testBit_lt_two_pow (lt_of_lt_of_le hlt hpow)] at h
    exact Bool.false_ne_true h

section

variable {a pn : List UInt32} {k i j r : Nat} {shift : UInt32}

theorem toNat_sub_shift (hs : shift.toNat < 32) : (32 - shift).toNat = 32 - shift.toNat := by
  rw [UInt32.toNat_sub_of_le _ _ (UInt32.le_iff_toNat_le.mpr hs.le)]
  rfl

/-- A round of `<<=` brings the bits of one word to where they belong. -/
theorem wordBit_shlRound (hs : shift.toNat < 32) (hr : r < 32) (hj : j < a.length)
    (hpn : pn.length = a.length) :
    wordBit (shlRound a k shift pn i) j r ↔ wordBit pn j r ∨
      (32 * k + shift.toNat ≤ 32 * j + r ∧ (32 * j + r - (32 * k + shift.toNat)) / 32 = i ∧
        wordBit a i ((32 * j + r - (32 * k + shift.toNat)) % 32)) := by
  obtain ⟨high, hhigh⟩ : ∃ high, high = if i + k + 1 < a.length ∧ shift ≠ 0 then
    pn.modify (i + k + 1) (· ||| a.getD i 0 >>> (32 - shift)) else pn := ⟨_, rfl⟩
  have hlen : high.length = a.length := by
    rw [hhigh]
    split_ifs
    · rw [List.length_modify, hpn]
    · exact hpn
  have hfirst : wordBit high j r ↔ wordBit pn j r ∨ shift.toNat ≠ 0 ∧ i + k + 1 = j ∧
      wordBit a i (32 - shift.toNat + r) := by
    have hzero : shift ≠ 0 ↔ shift.toNat ≠ 0 := by rw [ne_eq, ← UInt32.toNat_inj]; rfl
    rw [hhigh]
    split_ifs with hroom
    · have hshift := hzero.mp hroom.2
      rw [wordBit_modify (by omega), testBit_shr (by rw [toNat_sub_shift hs]; omega),
        toNat_sub_shift hs, wordBit, wordBit]
      tauto
    · rw [hzero] at hroom
      refine (or_iff_left ?_).symm
      rintro ⟨hshift, rfl, -⟩
      exact hroom ⟨hj, hshift⟩
  have hsecond : wordBit (shlRound a k shift pn i) j r ↔ wordBit high j r ∨ i + k = j ∧
      shift.toNat ≤ r ∧ wordBit a i (r - shift.toNat) := by
    unfold shlRound
    dsimp only
    rw [← hhigh]
    split_ifs with hroom
    · rw [wordBit_modify (by omega), testBit_shl hs hr, wordBit, wordBit]
    · refine (or_iff_left ?_).symm
      rintro ⟨rfl, -⟩
      exact hroom hj
  rw [hsecond, hfirst, or_assoc]
  refine or_congr_right ?_
  rcases Nat.lt_or_ge r shift.toNat with hlt | hge
  · constructor
    · rintro (⟨-, hjk, hbit⟩ | ⟨-, hle, -⟩)
      · have hpos : (32 * j + r - (32 * k + shift.toNat)) % 32 = 32 - shift.toNat + r := by omega
        exact ⟨by omega, by omega, hpos ▸ hbit⟩
      · omega
    · rintro ⟨hle, hi, hbit⟩
      have hpos : (32 * j + r - (32 * k + shift.toNat)) % 32 = 32 - shift.toNat + r := by omega
      exact Or.inl ⟨by omega, by omega, hpos ▸ hbit⟩
  · constructor
    · rintro (⟨-, -, hbit⟩ | ⟨hjk, -, hbit⟩)
      · have := (wordBit_lt hbit).2
        omega
      · have hpos : (32 * j + r - (32 * k + shift.toNat)) % 32 = r - shift.toNat := by omega
        exact ⟨by omega, by omega, hpos ▸ hbit⟩
    · rintro ⟨hle, hi, hbit⟩
      have hpos : (32 * j + r - (32 * k + shift.toNat)) % 32 = r - shift.toNat := by omega
      exact Or.inr ⟨by omega, hge, hpos ▸ hbit⟩

/-- A round of `>>=`. -/
theorem wordBit_shrRound (hs : shift.toNat < 32) (hr : r < 32) (hi : i < a.length)
    (hpn : pn.length = a.length) :
    wordBit (shrRound a k shift pn i) j r ↔ wordBit pn j r ∨
      ((32 * j + r + (32 * k + shift.toNat)) / 32 = i ∧
        wordBit a i ((32 * j + r + (32 * k + shift.toNat)) % 32)) := by
  obtain ⟨low, hlow⟩ : ∃ low, low = if k + 1 ≤ i ∧ shift ≠ 0 then
    pn.modify (i - k - 1) (· ||| a.getD i 0 <<< (32 - shift)) else pn := ⟨_, rfl⟩
  have hlen : low.length = a.length := by
    rw [hlow]
    split_ifs
    · rw [List.length_modify, hpn]
    · exact hpn
  have hfirst : wordBit low j r ↔ wordBit pn j r ∨ shift.toNat ≠ 0 ∧ i = j + k + 1 ∧
      32 - shift.toNat ≤ r ∧ wordBit a i (r - (32 - shift.toNat)) := by
    have hzero : shift ≠ 0 ↔ shift.toNat ≠ 0 := by rw [ne_eq, ← UInt32.toNat_inj]; rfl
    have hplace : k + 1 ≤ i → (i - k - 1 = j ↔ i = j + k + 1) := by omega
    rw [hlow]
    split_ifs with hroom
    · have hshift := hzero.mp hroom.2
      rw [wordBit_modify (by omega), testBit_shl (by rw [toNat_sub_shift hs]; omega) hr,
        toNat_sub_shift hs, hplace hroom.1, wordBit, wordBit]
      tauto
    · rw [hzero] at hroom
      refine (or_iff_left ?_).symm
      rintro ⟨hshift, rfl, -⟩
      exact hroom ⟨by omega, hshift⟩
  have hsecond : wordBit (shrRound a k shift pn i) j r ↔ wordBit low j r ∨ i = j + k ∧
      wordBit a i (shift.toNat + r) := by
    have hplace : k ≤ i → (i - k = j ↔ i = j + k) := by omega
    unfold shrRound
    dsimp only
    rw [← hlow]
    split_ifs with hroom
    · rw [wordBit_modify (by omega), testBit_shr hs, hplace hroom, wordBit, wordBit]
    · refine (or_iff_left ?_).symm
      rintro ⟨rfl, -⟩
      exact hroom (Nat.le_add_left _ _)
  rw [hsecond, hfirst, or_assoc]
  refine or_congr_right ?_
  rcases Nat.lt_or_ge (shift.toNat + r) 32 with hlt | hge
  · constructor
    · rintro (⟨-, -, hle, -⟩ | ⟨hjk, hbit⟩)
      · omega
      · have hpos : (32 * j + r + (32 * k + shift.toNat)) % 32 = shift.toNat + r := by omega
        exact ⟨by omega, hpos ▸ hbit⟩
    · rintro ⟨hij, hbit⟩
      have hpos : (32 * j + r + (32 * k + shift.toNat)) % 32 = shift.toNat + r := by omega
      exact Or.inr ⟨by omega, hpos ▸ hbit⟩
  · constructor
    · rintro (⟨-, hjk, hle, hbit⟩ | ⟨hjk, hbit⟩)
      · have hpos : (32 * j + r + (32 * k + shift.toNat)) % 32 = r - (32 - shift.toNat) := by omega
        exact ⟨by omega, hpos ▸ hbit⟩
      · have := (wordBit_lt hbit).2
        omega
    · rintro ⟨hij, hbit⟩
      have hpos : (32 * j + r + (32 * k + shift.toNat)) % 32 = r - (32 - shift.toNat) := by omega
      exact Or.inl ⟨by omega, by omega, by omega, hpos ▸ hbit⟩

end

/-- The count of bits is taken apart, and put together again. -/
theorem shift_parts (shift : UInt32) : (shift % 32).toNat < 32 ∧
    32 * (shift / 32).toNat + (shift % 32).toNat = shift.toNat := by
  have hdiv : (shift / 32).toNat = shift.toNat / 32 := UInt32.toNat_div _ _
  have hmod : (shift % 32).toNat = shift.toNat % 32 := UInt32.toNat_mod _ _
  omega

theorem testBit_shlLoop {a : List UInt32} (shift : UInt32) {n : Nat} (hn : n < 32 * a.length) :
    (wordsValue (shlLoop a shift)).testBit n = true ↔
      shift.toNat ≤ n ∧ (wordsValue a).testBit (n - shift.toNat) = true := by
  obtain ⟨hs, hparts⟩ := shift_parts shift
  have hn' : 32 * (n / 32) + n % 32 = n := Nat.div_add_mod n 32
  rw [testBit_wordsValue_iff, testBit_wordsValue_iff, shlLoop,
    wordBit_foldl (length_shlRound a _ _) (fun pn i _ hpn => wordBit_shlRound hs
      (Nat.mod_lt n (by decide)) (by omega) hpn) List.length_replicate, hparts, hn']
  constructor
  · rintro (hzero | ⟨i, -, hle, rfl, hbit⟩)
    · exact absurd hzero (not_wordBit_zero _ _ _)
    · exact ⟨hle, hbit⟩
  · rintro ⟨hle, hbit⟩
    exact Or.inr ⟨_, List.mem_range.mpr (wordBit_lt hbit).1, hle, rfl, hbit⟩

theorem testBit_shrLoop {a : List UInt32} (shift : UInt32) (n : Nat) :
    (wordsValue (shrLoop a shift)).testBit n = true ↔
      (wordsValue a).testBit (n + shift.toNat) = true := by
  obtain ⟨hs, hparts⟩ := shift_parts shift
  have hn' : 32 * (n / 32) + n % 32 = n := Nat.div_add_mod n 32
  rw [testBit_wordsValue_iff, testBit_wordsValue_iff, shrLoop,
    wordBit_foldl (length_shrRound a _ _) (fun pn i hi hpn => wordBit_shrRound hs
      (Nat.mod_lt n (by decide)) (List.mem_range.mp hi) hpn) List.length_replicate, hparts, hn']
  constructor
  · rintro (hzero | ⟨i, -, rfl, hbit⟩)
    · exact absurd hzero (not_wordBit_zero _ _ _)
    · exact hbit
  · intro hbit
    exact Or.inr ⟨_, List.mem_range.mpr (wordBit_lt hbit).1, rfl, hbit⟩

theorem length_shlLoop (a : List UInt32) (shift : UInt32) :
    (shlLoop a shift).length = a.length := by
  rw [shlLoop, length_foldl_round (length_shlRound a _ _), List.length_replicate]

theorem shlLoop_value (a : List UInt32) (shift : UInt32) :
    wordsValue (shlLoop a shift) = wordsValue a * 2 ^ shift.toNat % 2 ^ (32 * a.length) := by
  refine Nat.eq_of_testBit_eq fun n => Bool.eq_iff_iff.mpr ?_
  rw [← Nat.shiftLeft_eq, Nat.testBit_mod_two_pow, Nat.testBit_shiftLeft]
  by_cases hn : n < 32 * a.length
  · rw [testBit_shlLoop shift hn]
    simp [hn]
  · have hlt := wordsValue_lt (shlLoop a shift)
    rw [length_shlLoop] at hlt
    have hpow := Nat.pow_le_pow_right (n := 2) (by decide) (not_lt.mp hn)
    rw [Nat.testBit_lt_two_pow (lt_of_lt_of_le hlt hpow)]
    simp [hn]

theorem shrLoop_value (a : List UInt32) (shift : UInt32) :
    wordsValue (shrLoop a shift) = wordsValue a / 2 ^ shift.toNat := by
  refine Nat.eq_of_testBit_eq fun n => Bool.eq_iff_iff.mpr ?_
  rw [testBit_shrLoop, ← Nat.shiftRight_eq_div_pow, Nat.testBit_shiftRight, Nat.add_comm]

/-! ## 7. Memory -/

theorem leNat_flatMap (pn : List UInt32) :
    leNat (pn.flatMap fun x => leBytes 4 x.toNat) = wordsValue pn := by
  induction pn with
  | nil => rfl
  | cons x xs ih =>
    rw [List.flatMap_cons, leNat_append, ih, wordsValue_cons, length_leBytes,
      leNat_leBytes x.toNat_lt]
    rfl

theorem length_flatMap_leBytes (pn : List UInt32) :
    (pn.flatMap fun x => leBytes 4 x.toNat).length = 4 * pn.length := by
  induction pn with
  | nil => rfl
  | cons x xs ih =>
    rw [List.flatMap_cons, List.length_append, ih, length_leBytes, List.length_cons]
    omega

/-- The four bytes of a word are where the word is. -/
theorem take_drop_flatMap : ∀ (pn : List UInt32) (i : Nat) (hi : i < pn.length),
    ((pn.flatMap fun x => leBytes 4 x.toNat).drop (4 * i)).take 4 = leBytes 4 pn[i].toNat
  | x :: xs, 0, _ => by
    rw [List.flatMap_cons, Nat.mul_zero, List.drop_zero, List.take_left' (length_leBytes ..)]
    rfl
  | x :: xs, i + 1, hi => by
    have ih := take_drop_flatMap xs i (by simpa using hi)
    rw [List.flatMap_cons, Nat.mul_succ, Nat.add_comm (4 * i), ← List.drop_drop,
      List.drop_left' (length_leBytes ..), ih, List.getElem_cons_succ]

/-! ## 8. `base_uint` computes with numbers -/

namespace BaseUint

variable {WIDTH : Nat} {a b : BaseUint WIDTH}

theorem value_lt (a : BaseUint WIDTH) : a.value < 2 ^ (32 * WIDTH) := by
  have h := wordsValue_lt a.pn
  rwa [a.width] at h

theorem value_inj (h : a.value = b.value) : a = b := by
  obtain ⟨pn, hpn⟩ := a
  obtain ⟨qn, hqn⟩ := b
  obtain rfl := wordsValue_inj (hpn.trans hqn.symm) h
  rfl

theorem value_zero : (zero WIDTH).value = 0 := wordsValue_replicate WIDTH

theorem value_add : (a.add b).value = (a.value + b.value) % 2 ^ (32 * WIDTH) := by
  unfold value add
  dsimp only
  rw [addLoop_value 0 _ _ (by decide) (a.width.trans b.width.symm), a.width, UInt64.toNat_zero,
    Nat.zero_add]

theorem value_inc : a.inc.value = (a.value + 1) % 2 ^ (32 * WIDTH) := by
  unfold value inc
  dsimp only
  rw [incLoop_value, a.width]

theorem value_dec : (a.dec.value : Int) = ((a.value : Int) - 1) % 2 ^ (32 * WIDTH) := by
  have hpos := Nat.two_pow_pos (32 * WIDTH)
  have hdec : a.dec.value = (a.value + (2 ^ (32 * WIDTH) - 1)) % 2 ^ (32 * WIDTH) := by
    unfold value dec
    dsimp only
    rw [decLoop_value, a.width]
  rw [hdec, Int.natCast_mod, Nat.cast_add, Nat.cast_sub hpos]
  push_cast
  rw [show (a.value : Int) + (2 ^ (32 * WIDTH) - 1) = a.value - 1 + 2 ^ (32 * WIDTH) by ring,
    Int.add_emod_right]

theorem value_neg : (a.neg.value : Int) = -(a.value : Int) % 2 ^ (32 * WIDTH) := by
  have hnot : a.not.value + a.value + 1 = 2 ^ (32 * WIDTH) := by
    unfold value not
    dsimp only
    rw [wordsValue_not, a.width]
  have hsum : a.not.value + 1 = 2 ^ (32 * WIDTH) - a.value := by omega
  rw [neg, value_inc, hsum, Int.natCast_mod, Nat.cast_sub a.value_lt.le]
  push_cast
  rw [sub_eq_neg_add, Int.add_emod_right]

theorem value_sub : ((a.sub b).value : Int) = ((a.value : Int) - b.value) % 2 ^ (32 * WIDTH) := by
  rw [sub, value_add, Int.natCast_mod, Nat.cast_add, value_neg]
  push_cast
  rw [Int.add_emod_emod, ← sub_eq_add_neg]

theorem value_shl (shift : UInt32) :
    (a.shl shift).value = a.value * 2 ^ shift.toNat % 2 ^ (32 * WIDTH) := by
  unfold value shl
  dsimp only
  rw [shlLoop_value, a.width]

theorem value_shr (shift : UInt32) : (a.shr shift).value = a.value / 2 ^ shift.toNat :=
  shrLoop_value a.pn shift

theorem lt_iff : a.lt b = true ↔ a.value < b.value := by
  rw [lt, lessLoop_iff (a.width.trans b.width.symm)]
  simp [value]

theorem le_iff : a.le b = true ↔ a.value ≤ b.value := by
  rw [le, lessLoop_iff (a.width.trans b.width.symm)]
  unfold value
  simp only [and_true, not_lt]
  omega

theorem gt_iff : a.gt b = true ↔ b.value < a.value := lt_iff (a := b) (b := a)

theorem ge_iff : a.ge b = true ↔ b.value ≤ a.value := le_iff (a := b) (b := a)

theorem eq_iff : a.eq b = true ↔ a.value = b.value := equalLoop_iff (a.width.trans b.width.symm)

theorem ne_iff : a.ne b = true ↔ a.value ≠ b.value := by
  rw [ne, Bool.not_eq_true', Bool.eq_false_iff, ne_eq, eq_iff]

theorem isZero_iff : a.isZero = true ↔ a.value = 0 := by
  have hzero : a.value = 0 ↔ a.pn = List.replicate WIDTH 0 := by
    have hvalue : (zero WIDTH).value = 0 := value_zero
    rw [← hvalue]
    exact ⟨fun h => congrArg pn (value_inj h), fun h => congrArg wordsValue h⟩
  rw [hzero, isZero, List.all_eq_true, List.eq_replicate_iff]
  simp [a.width]

theorem value_ofWord (w : UInt64) : (ofWord w : BaseUint (WIDTH + 2)).value = w.toNat := by
  have hhigh : (w >>> 32).toUInt32.toNat = w.toNat / 2 ^ 32 := by
    have hlt := w.toNat_lt
    rw [UInt64.toNat_toUInt32, UInt64.toNat_shiftRight, Nat.shiftRight_eq_div_pow]
    exact Nat.mod_eq_of_lt (by change w.toNat / 2 ^ 32 < 2 ^ 32; omega)
  unfold value ofWord
  dsimp only
  rw [wordsValue_cons, wordsValue_cons, wordsValue_replicate, hhigh, UInt64.toNat_toUInt32]
  omega

theorem eqWord_iff {a : BaseUint (WIDTH + 2)} {w : UInt64} :
    a.eqWord w = true ↔ a.value = w.toNat := by
  obtain ⟨pn, hpn⟩ := a
  match pn, hpn with
  | x :: y :: rest, hpn =>
    have hrest : rest.length = WIDTH := by simpa using hpn
    have hwords : (⟨x :: y :: rest, hpn⟩ : BaseUint (WIDTH + 2)).value = w.toNat ↔
        x :: y :: rest = (ofWord w : BaseUint (WIDTH + 2)).pn := by
      have hvalue : (ofWord w : BaseUint (WIDTH + 2)).value = w.toNat := value_ofWord w
      rw [← hvalue]
      exact ⟨fun h => congrArg BaseUint.pn (value_inj h), fun h => congrArg wordsValue h⟩
    rw [hwords]
    simp [eqWord, ofWord, List.eq_replicate_iff, hrest, and_assoc]

theorem ofBytes_bytes (a : BaseUint WIDTH) : ofBytes a.bytes = a := by
  obtain ⟨pn, rfl⟩ := a
  have hpn : (ofBytes (pn.flatMap fun x => leBytes 4 x.toNat) : BaseUint pn.length).pn = pn := by
    refine List.ext_getElem (by simp [ofBytes]) fun i h1 h2 => ?_
    simp only [ofBytes, List.getElem_map, List.getElem_range]
    rw [take_drop_flatMap pn i h2, leNat_leBytes (UInt32.toNat_lt _), UInt32.ofNat_toNat]
  exact value_inj (congrArg wordsValue hpn)

/-- **A number is read back from its text.** -/
theorem setHex_getHex (a : BaseUint WIDTH) : setHex a.getHex = a := by
  have hlen : a.bytes.length ≤ WIDTH * 4 := by
    rw [bytes, length_flatMap_leBytes, a.width, Nat.mul_comm]
  unfold setHex getHex
  dsimp only
  rw [digits_lowerHex (lowerHex_flatMap _), hexBytes_reverse, List.reverse_reverse,
    List.take_of_length_le hlen, ofBytes_bytes]

theorem value_setBit {s : Nat} (hs : s < 32 * WIDTH) :
    (a.setBit s).value = a.value ||| 2 ^ s := by
  have hshift : (UInt32.ofNat (s &&& 31)).toNat = s % 32 := by
    rw [Nat.and_two_pow_sub_one_eq_mod s 5]
    exact UInt32.toNat_ofNat_of_lt' (by simp only [UInt32.size]; omega)
  refine Nat.eq_of_testBit_eq fun n => Bool.eq_iff_iff.mpr ?_
  have hroom : s / 32 < a.pn.length := by
    rw [a.width]
    omega
  have hbit : (1 <<< UInt32.ofNat (s &&& 31) : UInt32).toNat.testBit (n % 32) = true ↔
      s % 32 = n % 32 := by
    rw [testBit_shl (by omega) (by omega), hshift, UInt32.toNat_one,
      Nat.testBit_one_eq_true_iff_self_eq_zero]
    omega
  rw [Nat.testBit_or, Bool.or_eq_true, Nat.testBit_two_pow, decide_eq_true_eq, value, value,
    testBit_wordsValue_iff, testBit_wordsValue_iff, setBit, wordBit_modify hroom, hbit]
  refine or_congr_right ?_
  omega

end BaseUint

/-! ## 9. `Uint256Divide` divides -/

variable {x : UInt32}

theorem and_shl_one {n : Nat} (hn : n < 32) :
    x &&& 1 <<< UInt32.ofNat n ≠ 0 ↔ x.toNat.testBit n = true := by
  have hshift : (UInt32.ofNat n).toNat = n :=
    UInt32.toNat_ofNat_of_lt' (by simp only [UInt32.size]; omega)
  have hpow : (1 <<< UInt32.ofNat n : UInt32).toNat = 2 ^ n := by
    rw [UInt32.toNat_shiftLeft, hshift, Nat.mod_eq_of_lt hn, UInt32.toNat_one, Nat.one_shiftLeft]
    exact Nat.mod_eq_of_lt (Nat.pow_lt_pow_right (by decide) hn)
  rw [ne_eq, ← UInt32.toNat_inj, UInt32.toNat_and, hpow, Nat.and_two_pow, UInt32.toNat_zero]
  cases x.toNat.testBit n <;> simp

/-- The highest bit that is set is found. -/
theorem wordBits_eq (hx : 0 < x.toNat) : ∀ {n : Nat}, n < 32 → x.toNat < 2 ^ (n + 1) →
    wordBits x n = Nat.size x.toNat
  | 0, _, h => by
    have hone : x.toNat = 1 := by
      rw [Nat.zero_add, pow_one] at h
      omega
    rw [wordBits, hone, Nat.size_one]
  | n + 1, hn, h => by
    rw [wordBits]
    by_cases hbit : x.toNat.testBit (n + 1) = true
    · rw [if_pos ((and_shl_one hn).mpr hbit)]
      exact le_antisymm (Nat.lt_size.mpr (Nat.ge_two_pow_of_testBit hbit)) (Nat.size_le.mpr h)
    · rw [if_neg ((and_shl_one hn).not.mpr hbit)]
      refine wordBits_eq hx (by omega) ?_
      by_contra hge
      refine hbit (Nat.testBit_of_two_pow_le_and_two_pow_add_one_gt ?_ h)
      exact not_lt.mp hge

theorem countBitsLoop_eq (pn : List UInt32) :
    countBitsLoop pn.reverse = Nat.size (wordsValue pn) := by
  induction pn using List.reverseRecOn with
  | nil => rfl
  | append_singleton pn x ih =>
    rw [List.reverse_append, wordsValue_append]
    change countBitsLoop (x :: pn.reverse) = Nat.size (_ + _ * (x.toNat + 2 ^ 32 * 0))
    rw [countBitsLoop, Nat.mul_zero, Nat.add_zero]
    by_cases hx : x = 0
    · rw [if_neg (not_not.mpr hx), ih, hx]
      rfl
    · have hpos : 0 < x.toNat := Nat.pos_of_ne_zero fun h => hx (UInt32.toNat_inj.mp h)
      rw [if_pos hx, List.length_reverse, wordBits_eq hpos (by decide) x.toNat_lt,
        size_add_two_pow_mul (wordsValue_lt pn) hpos]

theorem countBits_eq (n : Uint256) : countBits n = Nat.size n.value := countBitsLoop_eq n.pn

/-- **The rounds are those of the long division.**  The bits of the result from `rounds` on are
found already, and there are no others. -/
theorem divideLoop_value {d : Nat} : ∀ {rounds : Nat} {div num result : Uint256},
    (∀ s, rounds = s + 1 → div.value = d * 2 ^ s) → rounds ≤ 256 → 2 ^ rounds ∣ result.value →
    (divideLoop rounds div num result).value = (divideRounds d rounds (num.value, result.value)).2
  | 0, div, num, result, _, _, _ => rfl
  | s + 1, div, num, result, hdiv, hs, hdvd => by
    have hdiv : div.value = d * 2 ^ s := hdiv s rfl
    have hnext : ∀ t, s = t + 1 → (div.shr 1).value = d * 2 ^ t := by
      rintro t rfl
      rw [BaseUint.value_shr, hdiv, UInt32.toNat_one, pow_succ, ← Nat.mul_assoc, pow_one,
        Nat.mul_div_cancel _ (by decide)]
    have hdvd' : 2 ^ s ∣ result.value := (pow_dvd_pow 2 (Nat.le_succ s)).trans hdvd
    rw [divideLoop, divideRounds, divideRound]
    by_cases hfits : div.value ≤ num.value
    · have hsub : (num.sub div).value = num.value - d * 2 ^ s := by
        have hlt := num.value_lt
        have hint := BaseUint.value_sub (a := num) (b := div)
        norm_num at hlt hint
        rw [Int.emod_eq_of_lt (by omega) (by omega)] at hint
        omega
      have hset : (result.setBit s).value = result.value + 2 ^ s := by
        obtain ⟨q, hq⟩ := hdvd
        rw [BaseUint.value_setBit (by omega), hq,
          Nat.two_pow_add_eq_or_of_lt (Nat.pow_lt_pow_right (by decide) (Nat.lt_succ_self s))]
      rw [if_pos (BaseUint.ge_iff.mpr hfits), if_pos (hdiv ▸ hfits),
        divideLoop_value hnext (by omega) (by rw [hset]; exact hdvd'.add (dvd_refl _)), hsub, hset]
    · rw [if_neg (BaseUint.ge_iff.not.mpr hfits), if_neg (hdiv ▸ hfits),
        divideLoop_value hnext (by omega) hdvd']

/-- **`Uint256Divide` is exact.** -/
theorem uint256Divide_value {a b : Uint256} (hb : 0 < b.value) :
    ∃ q, uint256Divide a b = .ok q ∧ q.value = a.value / b.value := by
  have hzero : ¬ b.isZero = true := BaseUint.isZero_iff.not.mpr hb.ne'
  have ha := Nat.lt_size_self a.value
  have hb' := Nat.lt_size_self b.value
  have hsize : Nat.size a.value ≤ 256 := Nat.size_le.mpr a.value_lt
  unfold uint256Divide
  dsimp only
  rw [if_neg hzero, countBits_eq, countBits_eq]
  split_ifs with hbits
  · refine ⟨_, rfl, ?_⟩
    have hlow : 2 ^ Nat.size a.value ≤ b.value := Nat.lt_size.mp hbits
    rw [BaseUint.value_zero, Nat.div_eq_of_lt (lt_of_lt_of_le ha hlow)]
  · obtain ⟨shift, hshift⟩ := Nat.exists_eq_add_of_le (not_lt.mp hbits)
    rw [hshift, Nat.add_sub_cancel_left]
    refine ⟨_, rfl, ?_⟩
    have hcount : (UInt32.ofNat shift).toNat = shift :=
      UInt32.toNat_ofNat_of_lt' (by simp only [UInt32.size]; omega)
    have hfits : b.value * 2 ^ shift < 2 ^ 256 := by
      calc b.value * 2 ^ shift < 2 ^ Nat.size b.value * 2 ^ shift :=
            Nat.mul_lt_mul_of_pos_right hb' (Nat.two_pow_pos _)
        _ = 2 ^ Nat.size a.value := by rw [hshift, pow_add]
        _ ≤ 2 ^ 256 := Nat.pow_le_pow_right (by decide) hsize
    have hdiv : (b.shl (UInt32.ofNat shift)).value = b.value * 2 ^ shift := by
      rw [BaseUint.value_shl, hcount, Nat.mod_eq_of_lt hfits]
    have hhigh : a.value < b.value * 2 ^ (shift + 1) := by
      obtain ⟨t, ht⟩ := Nat.exists_eq_succ_of_ne_zero (Nat.size_pos.mpr hb).ne'
      have hlow : 2 ^ t ≤ b.value := Nat.lt_size.mp (by omega)
      calc a.value < 2 ^ Nat.size a.value := ha
        _ = 2 ^ t * 2 ^ (shift + 1) := by
          rw [hshift, ht, ← pow_add]
          congr 1
          omega
        _ ≤ b.value * 2 ^ (shift + 1) := Nat.mul_le_mul_right _ hlow
    rw [divideLoop_value (d := b.value) (fun s hs => by rw [hdiv, Nat.succ.inj hs])
      (by have := Nat.size_pos.mpr hb; omega) (by rw [BaseUint.value_zero]; exact dvd_zero _),
      BaseUint.value_zero, divideRounds_eq 0 hhigh, Nat.zero_add]

/-! ## 10. Numbers of 256 bits -/

/-- Every operator gives the number that arithmetic gives. -/
structure Agrees (a b : Uint256) (shift : UInt32) (w : UInt64) : Prop where
  add : (a.add b).value = (a.value + b.value) % 2 ^ 256
  addWord : (a.addWord w).value = (a.value + w.toNat) % 2 ^ 256
  sub : ((a.sub b).value : Int) = ((a.value : Int) - b.value) % 2 ^ 256
  subWord : ((a.subWord w).value : Int) = ((a.value : Int) - w.toNat) % 2 ^ 256
  neg : (a.neg.value : Int) = -(a.value : Int) % 2 ^ 256
  inc : a.inc.value = (a.value + 1) % 2 ^ 256
  dec : (a.dec.value : Int) = ((a.value : Int) - 1) % 2 ^ 256
  shl : (a.shl shift).value = a.value * 2 ^ shift.toNat % 2 ^ 256
  shr : (a.shr shift).value = a.value / 2 ^ shift.toNat
  lt : a.lt b = true ↔ a.value < b.value
  le : a.le b = true ↔ a.value ≤ b.value
  gt : a.gt b = true ↔ a.value > b.value
  ge : a.ge b = true ↔ a.value ≥ b.value
  eq : a.eq b = true ↔ a.value = b.value
  ne : a.ne b = true ↔ a.value ≠ b.value
  eqWord : a.eqWord w = true ↔ a.value = w.toNat
  divide : (uint256Divide a b).map BaseUint.value =
    if b.value = 0 then .error "Division by zero" else .ok (a.value / b.value)
  hex : BaseUint.setHex a.getHex = a

/-- **The operators compute with numbers of 256 bits**, whatever carries, borrows and shifted bits
cross from word to word. -/
theorem base_uint_agrees (a b : Uint256) (shift : UInt32) (w : UInt64) : Agrees a b shift w where
  add := BaseUint.value_add
  addWord := by rw [BaseUint.addWord, BaseUint.value_add, BaseUint.value_ofWord]
  sub := BaseUint.value_sub
  subWord := by
    have h := BaseUint.value_sub (a := a) (b := BaseUint.ofWord w)
    rwa [BaseUint.value_ofWord] at h
  neg := BaseUint.value_neg
  inc := BaseUint.value_inc
  dec := BaseUint.value_dec
  shl := BaseUint.value_shl shift
  shr := BaseUint.value_shr shift
  lt := BaseUint.lt_iff
  le := BaseUint.le_iff
  gt := BaseUint.gt_iff
  ge := BaseUint.ge_iff
  eq := BaseUint.eq_iff
  ne := BaseUint.ne_iff
  eqWord := BaseUint.eqWord_iff
  divide := by
    by_cases hb : b.value = 0
    · rw [if_pos hb, uint256Divide, if_pos (BaseUint.isZero_iff.mpr hb)]
      rfl
    · obtain ⟨q, hq, hvalue⟩ := uint256Divide_value (a := a) (Nat.pos_of_ne_zero hb)
      rw [if_neg hb, hq, ← hvalue]
      rfl
  hex := BaseUint.setHex_getHex a

/-- `uint256_equality` -/
example : (((BaseUint.ofWord 10 : Uint256).addWord 1).eq (BaseUint.ofWord 11)) = true := by decide

namespace BaseUint

/-- The number as the rest of the development has it. -/
def toUInt256 (a : Uint256) : UInt256 := BitVec.ofNat 256 a.value

theorem toNat_toUInt256 (a : Uint256) : a.toUInt256.toNat = a.value := by
  rw [toUInt256, BitVec.toNat_ofNat, Nat.mod_eq_of_lt a.value_lt]

/-- The memory of a number is what is hashed and sent. -/
theorem bytes_eq (a : Uint256) : a.bytes = serUInt256 a.toUInt256 := by
  have hlen : a.bytes.length = 32 := by rw [bytes, length_flatMap_leBytes, a.width]
  rw [serUInt256, toNat_toUInt256, value, ← leNat_flatMap, ← hlen]
  exact (leBytes_leNat a.bytes).symm

/-- **It is the type used elsewhere**, with its operators and its text. -/
theorem toUInt256_agrees (a b : Uint256) (shift : UInt32) :
    (a.add b).toUInt256 = a.toUInt256 + b.toUInt256 ∧
    (a.shl shift).toUInt256 = a.toUInt256 <<< shift.toNat ∧
    (a.shr shift).toUInt256 = a.toUInt256 >>> shift.toNat ∧
    (a.lt b = true ↔ a.toUInt256 < b.toUInt256) ∧
    a.getHex = Breakout.getHex a.toUInt256 := by
  refine ⟨?_, ?_, ?_, ?_, ?_⟩
  · apply BitVec.eq_of_toNat_eq
    rw [BitVec.toNat_add, toNat_toUInt256, toNat_toUInt256, toNat_toUInt256, value_add]
  · apply BitVec.eq_of_toNat_eq
    rw [BitVec.toNat_shiftLeft, Nat.shiftLeft_eq, toNat_toUInt256, toNat_toUInt256, value_shl]
  · apply BitVec.eq_of_toNat_eq
    rw [BitVec.toNat_ushiftRight, Nat.shiftRight_eq_div_pow, toNat_toUInt256, toNat_toUInt256,
      value_shr]
  · rw [BitVec.lt_def, toNat_toUInt256, toNat_toUInt256, lt_iff]
  · rw [getHex, Breakout.getHex, bytes_eq]

end BaseUint

end Breakout
