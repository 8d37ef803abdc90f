/-
# Compact targets, byte by byte

OpenSSL writes a number as the count of its bytes and its magnitude, the highest byte first, with
the sign in the top bit.  `nBits` is the beginning of such a text: the count, and three bytes.
`SetCompact` puts zeros for the bytes that are left out and has the text read; `GetCompact` has the
number written and leaves the other bytes out.

Elsewhere in the development these are arithmetic.  Here they are what the source does, and it is
the same (`CBigNum.setCompact_eq`, `CBigNum.getCompact_eq`, `CBigNum.getuint256_eq`).  So the number
that is written and read again is rounded down, to the last byte that is kept
(`compact_rounds_down`), and the miner's target, which is made by shifts on the words of a
`uint256`, is the one that blocks are checked against (`target_agrees`).
-/
import Breakout.BaseUint
import Breakout.KawpowSearch
import Breakout.Targets

namespace Breakout

open Lib

/-! ## 1. Numbers as OpenSSL writes them -/

/-- `BN_bn2mpi`: the count in four bytes, and the magnitude, with a byte more where the sign has no
room. -/
def bn2mpi (bn : Int) : List UInt8 :=
  let bits := Nat.size bn.natAbs
  let num := (bits + 7) / 8
  let ext := if 0 < bits ∧ bits % 8 = 0 then 1 else 0
  let magnitude := List.replicate ext 0 ++ (leBytes num bn.natAbs).reverse
  (leBytes 4 (num + ext)).reverse ++
    if bn < 0 then magnitude.modifyHead (· ||| 0x80) else magnitude

/-- `BN_mpi2bn`, which wants as many bytes as it is told. -/
def mpi2bn (d : List UInt8) : Option Int :=
  if d.length < 4 ∨ leNat (d.take 4).reverse + 4 ≠ d.length then none
  else
    match d.drop 4 with
    | [] => some 0
    | c :: rest =>
      if c &&& 0x80 ≠ 0 then some (-(leNat ((c &&& 0x7f) :: rest).reverse : Nat))
      else some (leNat (c :: rest).reverse : Nat)

namespace CBigNum

/-- The bytes that `SetCompact` has read. -/
def compactBytes (nCompact : UInt32) : List UInt8 :=
  let nSize := (nCompact >>> 24).toNat
  let vch := (List.replicate (4 + nSize) 0).set 3 (UInt8.ofNat nSize)
  let vch := if 1 ≤ nSize then vch.set 4 ((nCompact >>> 16) &&& 0xff).toUInt8 else vch
  let vch := if 2 ≤ nSize then vch.set 5 ((nCompact >>> 8) &&& 0xff).toUInt8 else vch
  if 3 ≤ nSize then vch.set 6 ((nCompact >>> 0) &&& 0xff).toUInt8 else vch

/-- `SetCompact`, on a number that is zero. -/
def setCompact (nCompact : UInt32) : Int := (mpi2bn (compactBytes nCompact)).getD 0

/-- What `GetCompact` takes of the bytes. -/
def compactOf (vch : List UInt8) : UInt32 :=
  let nSize := vch.length - 4
  let nCompact := UInt32.ofNat nSize <<< 24
  let nCompact := if 1 ≤ nSize then nCompact ||| (vch.getD 4 0).toUInt32 <<< 16 else nCompact
  let nCompact := if 2 ≤ nSize then nCompact ||| (vch.getD 5 0).toUInt32 <<< 8 else nCompact
  if 3 ≤ nSize then nCompact ||| (vch.getD 6 0).toUInt32 <<< 0 else nCompact

def getCompact (bn : Int) : UInt32 := compactOf (bn2mpi bn)

/-- `getuint256`: the bytes without the sign, from the last back, as far as there is room. -/
def getuint256 (bn : Int) : UInt256 :=
  let vch := bn2mpi bn
  if vch.length < 4 then 0
  else
    let vch := if 4 < vch.length then vch.set 4 (vch.getD 4 0 &&& 0x7f) else vch
    BitVec.ofNat 256 (leNat ((vch.drop 4).reverse.take 32))

end CBigNum

/-- `CompactToUint256`, on the words of a `uint256`. -/
def wordsOfCompact (nCompact : UInt32) : Uint256 :=
  let nSize := nCompact >>> 24
  let nWord := nCompact &&& 0x007fffff
  if nSize ≤ 3 then BaseUint.ofWord (nWord >>> (8 * (3 - nSize))).toUInt64
  else (BaseUint.ofWord nWord.toUInt64).shl (8 * (nSize - 3))

/-! ## 2. Bytes -/

theorem leBytes_add (j k n : Nat) : leBytes (j + k) n = leBytes j n ++ leBytes k (n / 256 ^ j) := by
  induction j generalizing n with
  | zero => rw [Nat.zero_add, pow_zero, Nat.div_one]; rfl
  | succ j ih =>
    rw [Nat.succ_add, leBytes, leBytes, ih, List.cons_append, Nat.div_div_eq_div_mul, ← pow_succ']

theorem leNat_leBytes_mod (k n : Nat) : leNat (leBytes k n) = n % 256 ^ k := by
  induction k generalizing n with
  | zero => rw [pow_zero, Nat.mod_one]; rfl
  | succ k ih =>
    rw [leBytes, leNat, ih, UInt8.toNat_ofNat', pow_succ' 256 k]
    exact (Nat.mod_mul (a := 256)).symm

theorem toNat_and_low (c : UInt8) : (c &&& 0x7f).toNat = c.toNat % 128 := by
  rw [UInt8.toNat_and]
  exact Nat.and_two_pow_sub_one_eq_mod c.toNat 7

theorem toNat_or_high {c : UInt8} (h : c.toNat < 128) : (c ||| 0x80).toNat = c.toNat + 128 := by
  rw [UInt8.toNat_or, Nat.or_comm]
  exact (Nat.two_pow_add_eq_or_of_lt (i := 7) h 1).symm.trans (Nat.add_comm _ _)

theorem and_high_iff (c : UInt8) : c &&& 0x80 ≠ 0 ↔ 128 ≤ c.toNat := by
  have hall : ∀ n < 256, UInt8.ofNat n &&& 0x80 ≠ 0 ↔ 128 ≤ n := by decide +kernel
  have h := hall c.toNat c.toNat_lt
  rwa [UInt8.ofNat_toNat] at h

/-- Bytes put side by side in a word. -/
theorem or_bytes (n : Nat) (a b c : UInt8) :
    UInt32.ofNat n <<< 24 ||| a.toUInt32 <<< 16 ||| b.toUInt32 <<< 8 ||| c.toUInt32 <<< 0 =
      UInt32.ofNat (n * 2 ^ 24 + a.toNat * 2 ^ 16 + b.toNat * 2 ^ 8 + c.toNat) := by
  have ha := a.toNat_lt
  have hb := b.toNat_lt
  have hc := c.toNat_lt
  have h24 : (UInt32.ofNat n <<< 24).toNat = 2 ^ 24 * (n % 256) := by
    rw [UInt32.toNat_shiftLeft, Nat.shiftLeft_eq, UInt32.toNat_ofNat']
    change n % 2 ^ 32 * 2 ^ 24 % 2 ^ 32 = _
    omega
  have h16 : (a.toUInt32 <<< 16).toNat = 2 ^ 16 * a.toNat := by
    rw [UInt32.toNat_shiftLeft, Nat.shiftLeft_eq, UInt8.toNat_toUInt32]
    change a.toNat * 2 ^ 16 % 2 ^ 32 = _
    omega
  have h8 : (b.toUInt32 <<< 8).toNat = 2 ^ 8 * b.toNat := by
    rw [UInt32.toNat_shiftLeft, Nat.shiftLeft_eq, UInt8.toNat_toUInt32]
    change b.toNat * 2 ^ 8 % 2 ^ 32 = _
    omega
  have h0 : (c.toUInt32 <<< 0).toNat = c.toNat := by
    rw [UInt32.toNat_shiftLeft, Nat.shiftLeft_eq, UInt8.toNat_toUInt32]
    change c.toNat * 2 ^ 0 % 2 ^ 32 = _
    omega
  have hsum16 : 2 ^ 24 * (n % 256) + 2 ^ 16 * a.toNat = 2 ^ 16 * (2 ^ 8 * (n % 256) + a.toNat) := by
    omega
  have hsum8 : 2 ^ 16 * (2 ^ 8 * (n % 256) + a.toNat) + 2 ^ 8 * b.toNat =
      2 ^ 8 * (2 ^ 8 * (2 ^ 8 * (n % 256) + a.toNat) + b.toNat) := by omega
  apply UInt32.toNat_inj.mp
  rw [UInt32.toNat_or, UInt32.toNat_or, UInt32.toNat_or, h24, h16, h8, h0,
    ← Nat.two_pow_add_eq_or_of_lt (by omega), hsum16, ← Nat.two_pow_add_eq_or_of_lt (by omega),
    hsum8, ← Nat.two_pow_add_eq_or_of_lt (by omega), UInt32.toNat_ofNat']
  omega

/-! ## 3. Writing -/

/-- The first byte has room for the sign. -/
theorem first_lt {m : Nat} : m / 256 ^ (Nat.size m / 8) < 128 := by
  have hpow : (256 : Nat) ^ (Nat.size m / 8) = 2 ^ (8 * (Nat.size m / 8)) := by
    rw [pow_mul]
    norm_num
  rw [hpow, Nat.div_lt_iff_lt_mul (Nat.two_pow_pos _)]
  calc m < 2 ^ (7 + 8 * (Nat.size m / 8)) := Nat.size_le.mp (by omega)
    _ = 128 * 2 ^ (8 * (Nat.size m / 8)) := pow_add 2 7 _

/-- The first byte of a magnitude, as it is written. -/
def firstByte (bn : Int) : UInt8 :=
  let c := UInt8.ofNat (bn.natAbs / 256 ^ (Nat.size bn.natAbs / 8))
  if bn < 0 then c ||| 0x80 else c

theorem toNat_first (m : Nat) : (UInt8.ofNat (m / 256 ^ (Nat.size m / 8))).toNat =
    m / 256 ^ (Nat.size m / 8) := by
  have h := first_lt (m := m)
  rw [UInt8.toNat_ofNat', Nat.mod_eq_of_lt (by omega)]

theorem toNat_firstByte (bn : Int) : (firstByte bn).toNat =
    bn.natAbs / 256 ^ (Nat.size bn.natAbs / 8) + if bn < 0 then 128 else 0 := by
  have h := first_lt (m := bn.natAbs)
  unfold firstByte
  dsimp only
  split_ifs
  · rw [toNat_or_high (by rwa [toNat_first]), toNat_first]
  · rw [toNat_first, Nat.add_zero]

/-- The magnitude with a byte for the sign. -/
theorem magnitude_eq {m : Nat} (hm : 0 < m) :
    List.replicate (if 0 < Nat.size m ∧ Nat.size m % 8 = 0 then 1 else 0) 0 ++
      (leBytes ((Nat.size m + 7) / 8) m).reverse = (leBytes (Nat.size m / 8 + 1) m).reverse := by
  have hsize := Nat.size_pos.mpr hm
  split_ifs with hfull
  · have hnum : (Nat.size m + 7) / 8 = Nat.size m / 8 := by omega
    have hzero : m / 256 ^ (Nat.size m / 8) = 0 := by
      refine Nat.div_eq_of_lt ?_
      calc m < 2 ^ (8 * (Nat.size m / 8)) := Nat.size_le.mp (by omega)
        _ = 256 ^ (Nat.size m / 8) := pow_mul 2 8 _
    rw [hnum, leBytes_add, hzero, List.reverse_append]
    rfl
  · rw [show (Nat.size m + 7) / 8 = Nat.size m / 8 + 1 by omega]
    rfl

/-- **What is written of a number.** -/
theorem bn2mpi_eq {bn : Int} (h : bn ≠ 0) : bn2mpi bn =
    (leBytes 4 (Nat.size bn.natAbs / 8 + 1)).reverse ++
    firstByte bn :: (leBytes (Nat.size bn.natAbs / 8) bn.natAbs).reverse := by
  have hm : 0 < bn.natAbs := Int.natAbs_pos.mpr h
  have hnum : (Nat.size bn.natAbs + 7) / 8 +
      (if 0 < Nat.size bn.natAbs ∧ Nat.size bn.natAbs % 8 = 0 then 1 else 0) =
      Nat.size bn.natAbs / 8 + 1 := by
    have hsize := Nat.size_pos.mpr hm
    split_ifs <;> omega
  unfold bn2mpi firstByte
  dsimp only
  rw [magnitude_eq hm, hnum, leBytes_add, List.reverse_append]
  split_ifs <;> rfl

namespace CBigNum

/-- The three bytes after the count; a byte that is not there is as good as zero. -/
theorem compactOf_append {count body : List UInt8} (hcount : count.length = 4) :
    compactOf (count ++ body) = UInt32.ofNat (body.length * 2 ^ 24 +
      (body.getD 0 0).toNat * 2 ^ 16 + (body.getD 1 0).toNat * 2 ^ 8 + (body.getD 2 0).toNat) := by
  have hsize : (count ++ body).length - 4 = body.length := by
    rw [List.length_append, hcount, Nat.add_sub_cancel_left]
  have hbyte : ∀ i, (count ++ body).getD (4 + i) 0 = body.getD i 0 := fun i => by
    rw [List.getD_append_right _ _ _ _ (by omega), hcount, Nat.add_sub_cancel_left]
  have hnone : ∀ (i : Nat) (n shift : UInt32),
      (if i + 1 ≤ body.length then n ||| (body.getD i 0).toUInt32 <<< shift else n) =
        n ||| (body.getD i 0).toUInt32 <<< shift := by
    intro i n shift
    split_ifs with hi
    · rfl
    · rw [List.getD_eq_default _ _ (by omega)]
      simp
  have h0 := hbyte 0
  have h1 := hbyte 1
  have h2 := hbyte 2
  unfold compactOf
  dsimp only
  rw [hsize, h0, h1, h2, hnone 0, hnone 1, hnone 2, or_bytes]

/-- **`GetCompact` is what the development takes it for.** -/
theorem getCompact_eq (bn : Int) : getCompact bn = Breakout.getCompact bn := by
  by_cases hbn : bn = 0
  · rw [hbn]
    decide
  · have hm : bn.natAbs ≠ 0 := Int.natAbs_ne_zero.mpr hbn
    have hfirst := toNat_firstByte bn
    rw [getCompact, bn2mpi_eq hbn, compactOf_append (by rw [List.length_reverse, length_leBytes])]
    unfold Breakout.getCompact
    dsimp only
    rw [if_neg hm, List.length_cons, List.length_reverse, length_leBytes, List.getD_cons_zero,
      hfirst, List.getD_cons_succ, List.getD_cons_succ]
    generalize bn.natAbs = m at *
    generalize Nat.size m / 8 = k at *
    refine congrArg UInt32.ofNat ?_
    match k with
    | 0 =>
      simp only [leBytes, List.reverse_nil, List.getD_nil, UInt8.toNat_zero, pow_zero, Nat.div_one]
      split_ifs <;> omega
    | 1 =>
      simp only [leBytes, List.reverse_singleton, List.getD_cons_zero, List.getD_cons_succ,
        List.getD_nil, UInt8.toNat_zero, UInt8.toNat_ofNat', pow_one]
      split_ifs <;> omega
    | j + 2 =>
      have hdiv : m / 256 ^ (j + 2) = m / 256 ^ j / 65536 := by
        rw [Nat.div_div_eq_div_mul, pow_add]
        norm_num
      have hmantissa : (if j + 2 + 1 ≤ 3 then m * 256 ^ (3 - (j + 2 + 1))
          else m / 256 ^ (j + 2 + 1 - 3)) = m / 256 ^ j := by
        split_ifs with hj
        · obtain rfl : j = 0 := by omega
          simp
        · rfl
      have hbytes : (leBytes (j + 2) m).reverse = UInt8.ofNat (m / 256 ^ j / 256) ::
          UInt8.ofNat (m / 256 ^ j) :: (leBytes j m).reverse := by
        rw [leBytes_add, List.reverse_append]
        rfl
      rw [hbytes, hdiv, List.getD_cons_zero, List.getD_cons_succ, List.getD_cons_zero,
        UInt8.toNat_ofNat', UInt8.toNat_ofNat', hmantissa]
      split_ifs <;> omega

/-- **And so is `getuint256`.** -/
theorem getuint256_eq (bn : Int) : getuint256 bn = Breakout.getuint256 bn := by
  have hlow : ∀ k m, m < 256 ^ k → leNat ((leBytes k m).take 32) % 2 ^ 256 = m % 2 ^ 256 := by
    intro k m hm
    rcases Nat.le_total k 32 with hk | hk
    · rw [List.take_of_length_le (by rwa [length_leBytes]), leNat_leBytes hm]
    · obtain ⟨j, rfl⟩ := Nat.exists_eq_add_of_le hk
      rw [leBytes_add, List.take_left' (length_leBytes ..), leNat_leBytes_mod]
      norm_num
  have hofNat : ∀ n, BitVec.ofNat 256 (n % 2 ^ 256) = BitVec.ofNat 256 n := fun n =>
    BitVec.eq_of_toNat_eq (by rw [BitVec.toNat_ofNat, BitVec.toNat_ofNat, Nat.mod_mod])
  by_cases hbn : bn = 0
  · rw [hbn]
    decide
  · have hfirst := toNat_firstByte bn
    have hplain := toNat_first bn.natAbs
    have hroom := first_lt (m := bn.natAbs)
    have hmag : bn.natAbs < 256 ^ (Nat.size bn.natAbs / 8 + 1) := by
      rw [pow_succ, Nat.mul_comm, ← Nat.div_lt_iff_lt_mul (Nat.pow_pos (by decide))]
      omega
    -- the sign is taken away, if there is one
    have hsign : firstByte bn &&& 0x7f =
        UInt8.ofNat (bn.natAbs / 256 ^ (Nat.size bn.natAbs / 8)) := by
      apply UInt8.toNat_inj.mp
      rw [toNat_and_low, hfirst, hplain]
      split_ifs <;> omega
    have hbytes : (UInt8.ofNat (bn.natAbs / 256 ^ (Nat.size bn.natAbs / 8)) ::
        (leBytes (Nat.size bn.natAbs / 8) bn.natAbs).reverse).reverse =
        leBytes (Nat.size bn.natAbs / 8 + 1) bn.natAbs := by
      rw [List.reverse_cons, List.reverse_reverse, leBytes_add]
      rfl
    have hcount : (leBytes 4 (Nat.size bn.natAbs / 8 + 1)).reverse.length = 4 := by
      rw [List.length_reverse, length_leBytes]
    unfold getuint256 Breakout.getuint256
    dsimp only
    rw [bn2mpi_eq hbn, if_neg (by simp), if_pos (by simp), List.set_append_right _ _ (by omega),
      List.drop_left' hcount, List.getD_append_right _ _ _ _ (by omega), hcount, Nat.sub_self,
      List.getD_cons_zero, List.set_cons_zero, hsign, hbytes, ← hofNat, hlow _ _ hmag, hofNat]

end CBigNum

/-! ## 4. Reading -/

/-- A count and the bytes it counts are read. -/
theorem mpi2bn_append {count : List UInt8} {c : UInt8} {rest : List UInt8}
    (hcount : count.length = 4) (hlen : leNat count.reverse = rest.length + 1) :
    mpi2bn (count ++ c :: rest) =
      some (if 128 ≤ c.toNat then
          -((leNat rest.reverse + 256 ^ rest.length * (c.toNat % 128) : Nat) : Int)
        else (leNat rest.reverse + 256 ^ rest.length * (c.toNat % 128) : Nat)) := by
  have hvalue : ∀ d : UInt8, leNat (d :: rest).reverse =
      leNat rest.reverse + 256 ^ rest.length * d.toNat := fun d => by
    rw [List.reverse_cons, leNat_append, List.length_reverse, leNat, leNat, Nat.mul_zero,
      Nat.add_zero]
  have hok : ¬ ((count ++ c :: rest).length < 4 ∨
      leNat ((count ++ c :: rest).take 4).reverse + 4 ≠ (count ++ c :: rest).length) := by
    rw [List.take_left' hcount, hlen, List.length_append, List.length_cons]
    omega
  rw [mpi2bn, if_neg hok, List.drop_left' hcount]
  dsimp only
  simp only [and_high_iff, hvalue, toNat_and_low]
  split_ifs with hsign
  · rfl
  · rw [Nat.mod_eq_of_lt (by omega)]

theorem leNat_replicate_zero (k : Nat) : leNat (List.replicate k 0) = 0 := by
  induction k with
  | zero => rfl
  | succ k ih => rw [List.replicate_succ, leNat, ih]; rfl

theorem byte_of_word (n : UInt32) {shift : UInt32} (h : shift.toNat < 32) :
    ((n >>> shift) &&& 0xff).toUInt8 = UInt8.ofNat (n.toNat / 2 ^ shift.toNat) := by
  have hlow : ((n >>> shift) &&& 0xff).toNat = n.toNat / 2 ^ shift.toNat % 256 := by
    rw [UInt32.toNat_and, UInt32.toNat_shiftRight, Nat.mod_eq_of_lt h, Nat.shiftRight_eq_div_pow]
    exact Nat.and_two_pow_sub_one_eq_mod _ 8
  apply UInt8.toNat_inj.mp
  rw [UInt32.toNat_toUInt8, hlow, UInt8.toNat_ofNat', Nat.mod_mod]

namespace CBigNum

/-- The count, and as many of the three bytes as it has room for. -/
theorem compactBytes_eq (n : UInt32) : compactBytes n =
    [0, 0, 0, UInt8.ofNat (n.toNat / 2 ^ 24)] ++
      ([UInt8.ofNat (n.toNat / 2 ^ 16), UInt8.ofNat (n.toNat / 2 ^ 8), UInt8.ofNat n.toNat] ++
        List.replicate (n.toNat / 2 ^ 24 - 3) 0).take (n.toNat / 2 ^ 24) := by
  have hsize : (n >>> 24).toNat = n.toNat / 2 ^ 24 := by
    rw [UInt32.toNat_shiftRight, Nat.shiftRight_eq_div_pow]
    rfl
  have h16 : ((n >>> 16) &&& 0xff).toUInt8 = UInt8.ofNat (n.toNat / 2 ^ 16) :=
    byte_of_word n (by decide)
  have h8 : ((n >>> 8) &&& 0xff).toUInt8 = UInt8.ofNat (n.toNat / 2 ^ 8) :=
    byte_of_word n (by decide)
  have h0 : ((n >>> 0) &&& 0xff).toUInt8 = UInt8.ofNat n.toNat := by
    rw [byte_of_word n (by decide)]
    exact congrArg UInt8.ofNat (Nat.div_one _)
  unfold compactBytes
  dsimp only
  rw [hsize, h16, h8, h0]
  match n.toNat / 2 ^ 24 with
  | 0 => rfl
  | 1 => rfl
  | 2 => rfl
  | k + 3 =>
    rw [if_pos (by omega), if_pos (by omega), if_pos (by omega), Nat.add_sub_cancel,
      show 4 + (k + 3) = k + 7 by omega]
    simp [List.replicate_succ]

/-- **`SetCompact` is what the development takes it for.** -/
theorem setCompact_eq (n : UInt32) : setCompact n = Breakout.setCompact n := by
  have hn := n.toNat_lt
  rw [setCompact, compactBytes_eq]
  unfold Breakout.setCompact
  dsimp only
  obtain ⟨size, hsize⟩ : ∃ size, size = n.toNat / 2 ^ 24 := ⟨_, rfl⟩
  have hcount : leNat [0, 0, 0, UInt8.ofNat size].reverse = size := by
    simp only [List.reverse_cons, List.reverse_nil, List.nil_append, List.cons_append, leNat,
      UInt8.toNat_ofNat', UInt8.toNat_zero]
    omega
  have hfirst : (UInt8.ofNat (n.toNat / 2 ^ 16)).toNat = n.toNat / 2 ^ 16 % 256 :=
    UInt8.toNat_ofNat'
  rw [← hsize]
  rcases size with _ | _ | _ | k
  · have hsmall : n.toNat % 2 ^ 23 / 256 ^ 3 = 0 := by omega
    have hread : mpi2bn ([0, 0, 0, UInt8.ofNat 0] ++ []) = some 0 := by decide
    rw [List.take_zero, hread, if_neg (by omega), if_pos (by decide), hsmall]
    rfl
  · rw [show List.take 1 _ = [UInt8.ofNat (n.toNat / 2 ^ 16)] from rfl,
      mpi2bn_append rfl hcount, hfirst]
    simp only [Option.getD_some, List.reverse_nil, List.length_nil, leNat]
    split_ifs <;> omega
  · rw [show List.take 2 _ =
        [UInt8.ofNat (n.toNat / 2 ^ 16), UInt8.ofNat (n.toNat / 2 ^ 8)] from rfl,
      mpi2bn_append rfl hcount, hfirst]
    simp only [Option.getD_some, List.reverse_singleton, List.length_singleton, leNat,
      UInt8.toNat_ofNat']
    split_ifs <;> omega
  · have htake : ([UInt8.ofNat (n.toNat / 2 ^ 16), UInt8.ofNat (n.toNat / 2 ^ 8),
        UInt8.ofNat n.toNat] ++ List.replicate (k + 3 - 3) 0).take (k + 3) =
        UInt8.ofNat (n.toNat / 2 ^ 16) ::
          ([UInt8.ofNat (n.toNat / 2 ^ 8), UInt8.ofNat n.toNat] ++ List.replicate k 0) := by
      rw [Nat.add_sub_cancel, List.take_of_length_le (by simp)]
      rfl
    have hrest : leNat ([UInt8.ofNat (n.toNat / 2 ^ 8), UInt8.ofNat n.toNat] ++
        List.replicate k 0).reverse = 256 ^ k * (n.toNat % 2 ^ 16) := by
      rw [List.reverse_append, List.reverse_replicate, leNat_append, leNat_replicate_zero,
        List.length_replicate, Nat.zero_add]
      simp only [List.reverse_cons, List.reverse_nil, List.nil_append, List.cons_append, leNat,
        UInt8.toNat_ofNat']
      congr 1
      omega
    have hlen : ([UInt8.ofNat (n.toNat / 2 ^ 8), UInt8.ofNat n.toNat] ++
        List.replicate k 0).length = k + 2 := by simp
    have hmantissa : 256 ^ k * (n.toNat % 2 ^ 16) + 256 ^ (k + 2) * (n.toNat / 2 ^ 16 % 256 % 128) =
        n.toNat % 2 ^ 23 * 256 ^ k := by
      have hsplit : n.toNat % 2 ^ 23 =
          n.toNat % 2 ^ 16 + 65536 * (n.toNat / 2 ^ 16 % 256 % 128) := by
        omega
      rw [hsplit, pow_add]
      ring
    have hmagnitude : (if k + 3 ≤ 3 then n.toNat % 2 ^ 23 / 256 ^ (3 - (k + 3))
        else n.toNat % 2 ^ 23 * 256 ^ (k + 3 - 3)) = n.toNat % 2 ^ 23 * 256 ^ k := by
      split_ifs with hk
      · obtain rfl : k = 0 := by omega
        simp
      · rfl
    rw [htake, mpi2bn_append rfl (by rw [hcount, hlen]), hfirst, hrest, hlen, hmantissa, hmagnitude]
    have hsign : 128 ≤ n.toNat / 2 ^ 16 % 256 ↔ n.toNat / 2 ^ 23 % 2 = 1 ∧ 1 ≤ k + 3 := by omega
    simp only [Option.getD_some, hsign]

end CBigNum

/-! ## 5. Rounding down -/

/-- How many bytes a number takes, with a bit for its sign. -/
def byteLength (bn : Int) : Nat := if bn = 0 then 0 else Nat.size bn.natAbs / 8 + 1

/-- The count of bytes is kept. -/
theorem CBigNum.size_getCompact {bn : Int} (h : bn.natAbs < 2 ^ 256) :
    (CBigNum.getCompact bn >>> 24).toNat = byteLength bn := by
  have hshift : ∀ n : UInt32, (n >>> 24).toNat = n.toNat / 2 ^ 24 := fun n => by
    rw [UInt32.toNat_shiftRight, Nat.shiftRight_eq_div_pow]
    rfl
  rw [hshift, byteLength]
  split_ifs with hbn
  · rw [hbn]
    decide
  · have hsize : Nat.size bn.natAbs ≤ 256 := Nat.size_le.mpr h
    rw [CBigNum.getCompact, bn2mpi_eq hbn,
      CBigNum.compactOf_append (by rw [List.length_reverse, length_leBytes])]
    generalize hbody : firstByte bn :: (leBytes (Nat.size bn.natAbs / 8) bn.natAbs).reverse = body
    have hlen : body.length = Nat.size bn.natAbs / 8 + 1 := by
      rw [← hbody, List.length_cons, List.length_reverse, length_leBytes]
    have h0 := (body.getD 0 0).toNat_lt
    have h1 := (body.getD 1 0).toNat_lt
    have h2 := (body.getD 2 0).toNat_lt
    rw [UInt32.toNat_ofNat_of_lt' (by simp only [UInt32.size]; omega)]
    omega

/-- A number that has been rounded is written as before. -/
theorem getCompact_round (m : Nat) :
    Breakout.getCompact (m / 256 ^ droppedBytes m * 256 ^ droppedBytes m : Nat) =
      Breakout.getCompact m := by
  obtain ⟨r, hr⟩ : ∃ r, r = m / 256 ^ droppedBytes m * 256 ^ droppedBytes m := ⟨_, rfl⟩
  rw [← hr]
  by_cases hall : droppedBytes m = 0
  · rw [hall, pow_zero, Nat.div_one, Nat.mul_one] at hr
    rw [hr]
  · -- what is left is full, so that the rounded number is as long
    have hfull := (mantissa_bounds m).2.resolve_left hall
    have hle : r ≤ m := hr ▸ Nat.div_mul_le_self m _
    unfold droppedBytes at hr hfull hall
    obtain ⟨k, hk⟩ : ∃ k, k = Nat.size m / 8 := ⟨_, rfl⟩
    rw [← hk] at hr hfull hall
    have hlow : 2 ^ (8 * k - 1) ≤ r := by
      calc 2 ^ (8 * k - 1) = 2 ^ 15 * 2 ^ (8 * (k - 2)) := by
            rw [← pow_add]
            congr 1
            omega
        _ = 2 ^ 15 * 256 ^ (k - 2) := by
            rw [pow_mul]
            norm_num
        _ ≤ r := hr ▸ Nat.mul_le_mul_right _ hfull
    have hsize : Nat.size r / 8 = k := by
      have hle := Nat.size_le_size hle
      have hlt := Nat.lt_size.mpr hlow
      omega
    have hr0 : r ≠ 0 := (lt_of_lt_of_le (Nat.two_pow_pos _) hlow).ne'
    have hm0 : m ≠ 0 := (Nat.pos_of_ne_zero hr0 |>.trans_le hle).ne'
    have hdiv : r / 256 ^ (k - 2) = m / 256 ^ (k - 2) := by
      rw [hr, Nat.mul_div_cancel _ (Nat.pow_pos (by decide))]
    unfold Breakout.getCompact
    dsimp only
    simp only [Int.natAbs_natCast, if_neg hr0, if_neg hm0, hsize, ← hk,
      if_neg (show ¬ k + 1 ≤ 3 by omega), show k + 1 - 3 = k - 2 by omega, hdiv,
      if_neg (show ¬ ((r : Int) < 0) by omega), if_neg (show ¬ ((m : Int) < 0) by omega)]

/-- **A compact target is the number rounded down**, to the last of the three bytes that are kept of
those it takes; their count is the first byte.  To round it once more changes nothing, and a greater
number is not rounded to a smaller one. -/
theorem compact_rounds_down {x : Int} (h0 : 0 ≤ x) (h : x < 2 ^ 256) :
    (CBigNum.getCompact x >>> 24).toNat = byteLength x ∧
    CBigNum.setCompact (CBigNum.getCompact x) ≤ x ∧
    (x : Rat) - (2 : Rat) ^ ((8 : Int) * (byteLength x - 3)) <
      CBigNum.setCompact (CBigNum.getCompact x) ∧
    CBigNum.getCompact (CBigNum.setCompact (CBigNum.getCompact x)) = CBigNum.getCompact x ∧
    ∀ y, x ≤ y → y < 2 ^ 256 → CBigNum.setCompact (CBigNum.getCompact x) ≤
      CBigNum.setCompact (CBigNum.getCompact y) := by
  obtain ⟨m, rfl⟩ := Int.eq_ofNat_of_zero_le h0
  have hm : m < 2 ^ 256 := by exact_mod_cast h
  obtain ⟨r, hr⟩ : ∃ r, r = m / 256 ^ droppedBytes m * 256 ^ droppedBytes m := ⟨_, rfl⟩
  have hround : CBigNum.setCompact (CBigNum.getCompact m) = r := by
    rw [CBigNum.getCompact_eq, CBigNum.setCompact_eq, setCompact_getCompact_eq hm, hr]
  have hle : r ≤ m := hr ▸ Nat.div_mul_le_self m _
  have hlost : m < r + 256 ^ droppedBytes m := by
    have hmod := Nat.mod_lt m (Nat.pow_pos (n := droppedBytes m) (by decide : 0 < 256))
    have hdiv := Nat.div_add_mod' m (256 ^ droppedBytes m)
    omega
  refine ⟨CBigNum.size_getCompact (by simpa using hm), ?_, ?_, ?_, ?_⟩
  · rw [hround]
    exact_mod_cast hle
  · rw [hround]
    rcases Nat.eq_zero_or_pos (droppedBytes m) with hall | hsome
    · rw [hall, pow_zero, Nat.div_one, Nat.mul_one] at hr
      rw [hr]
      exact sub_lt_self _ (zpow_pos (by norm_num) _)
    · have hm0 : (m : Int) ≠ 0 := by
        rintro hzero
        obtain rfl : m = 0 := by exact_mod_cast hzero
        exact absurd hsome (by decide)
      have hexp : (8 : Int) * ((Nat.size m / 8 + 1 : Nat) - 3) = (8 * droppedBytes m : Nat) := by
        unfold droppedBytes at hsome ⊢
        omega
      have hpow : (2 : Rat) ^ (8 * droppedBytes m) = 256 ^ droppedBytes m := by
        rw [pow_mul]
        norm_num
      rw [byteLength, if_neg hm0, Int.natAbs_natCast, hexp, zpow_natCast, hpow, sub_lt_iff_lt_add]
      exact_mod_cast hlost
  · rw [hround, CBigNum.getCompact_eq, CBigNum.getCompact_eq, hr, getCompact_round]
  · intro y hxy hy
    obtain ⟨n, rfl⟩ := Int.eq_ofNat_of_zero_le (h0.trans hxy)
    have hn : n < 2 ^ 256 := by exact_mod_cast hy
    obtain ⟨a, ha, hma, -⟩ := setCompact_getCompact hm
    obtain ⟨b, hb, hnb, -⟩ := setCompact_getCompact hn
    simp only [CBigNum.getCompact_eq, CBigNum.setCompact_eq]
    rw [ha, hb]
    exact_mod_cast hma.mono hnb (by exact_mod_cast hxy)

/-- The top bit of the first byte is the sign's, so that a byte more is written. -/
theorem compact_rounds_down_full : (CBigNum.getCompact 0x92345678 >>> 24).toNat = 5 ∧
    CBigNum.setCompact (CBigNum.getCompact 0x92345678) ≤ 0x92345678 ∧
    ((0x92345678 : Int) : Rat) - 2 ^ 16 < CBigNum.setCompact (CBigNum.getCompact 0x92345678) ∧
    CBigNum.getCompact (CBigNum.setCompact (CBigNum.getCompact 0x92345678)) =
      CBigNum.getCompact 0x92345678 := by
  obtain ⟨hsize, hle, hlost, hagain, -⟩ :=
    compact_rounds_down (x := 0x92345678) (by decide) (by decide)
  have hlength : byteLength 0x92345678 = 5 := by decide +kernel
  rw [hlength] at hsize hlost
  exact ⟨hsize, hle, hlost, hagain⟩

example : CBigNum.getCompact 0x92345678 = 0x05009234 := by decide +kernel

/-! ## 6. The miner's target -/

theorem toUInt256_wordsOfCompact (nBits : UInt32) :
    (wordsOfCompact nBits).toUInt256 = compactToUint256 nBits := by
  have hn := nBits.toNat_lt
  have hsize : (nBits >>> 24).toNat = nBits.toNat / 2 ^ 24 := by
    rw [UInt32.toNat_shiftRight, Nat.shiftRight_eq_div_pow]
    rfl
  have hword : (nBits &&& 0x007fffff).toNat = nBits.toNat % 2 ^ 23 := by
    rw [UInt32.toNat_and]
    exact Nat.and_two_pow_sub_one_eq_mod _ 23
  have hsmall : nBits >>> 24 ≤ 3 ↔ nBits.toNat / 2 ^ 24 ≤ 3 := by
    rw [UInt32.le_iff_toNat_le, hsize]
    rfl
  apply BitVec.eq_of_toNat_eq
  rw [BaseUint.toNat_toUInt256]
  unfold wordsOfCompact compactToUint256
  dsimp only
  simp only [hsmall]
  split_ifs with hs
  · have hshift : ((8 : UInt32) * ((3 : UInt32) - nBits >>> 24)).toNat =
        8 * (3 - nBits.toNat / 2 ^ 24) := by
      rw [UInt32.toNat_mul, UInt32.toNat_sub_of_le _ _ (hsmall.mpr hs), hsize]
      change 8 * (3 - nBits.toNat / 2 ^ 24) % 2 ^ 32 = _
      omega
    have hsmall : (nBits.toNat % 2 ^ 23) >>> (8 * (3 - nBits.toNat / 2 ^ 24)) < 2 ^ 256 := by
      have hword : nBits.toNat % 2 ^ 23 < 2 ^ 256 := by omega
      rw [Nat.shiftRight_eq_div_pow]
      exact lt_of_le_of_lt (Nat.div_le_self _ _) hword
    rw [BaseUint.value_ofWord, UInt32.toNat_toUInt64, UInt32.toNat_shiftRight, hshift, hword,
      Nat.mod_eq_of_lt (show 8 * (3 - nBits.toNat / 2 ^ 24) < 32 by omega), BitVec.toNat_ofNat,
      Nat.mod_eq_of_lt hsmall]
  · have hshift : ((8 : UInt32) * (nBits >>> 24 - (3 : UInt32))).toNat =
        8 * (nBits.toNat / 2 ^ 24 - 3) := by
      have hle : (3 : UInt32) ≤ nBits >>> 24 := by
        rw [UInt32.le_iff_toNat_le, hsize]
        change 3 ≤ nBits.toNat / 2 ^ 24
        omega
      rw [UInt32.toNat_mul, UInt32.toNat_sub_of_le _ _ hle, hsize]
      change 8 * (nBits.toNat / 2 ^ 24 - 3) % 2 ^ 32 = _
      omega
    rw [BaseUint.value_shl, BaseUint.value_ofWord, UInt32.toNat_toUInt64, hshift, hword,
      BitVec.toNat_shiftLeft, Nat.shiftLeft_eq, BitVec.toNat_ofNat,
      Nat.mod_eq_of_lt (show nBits.toNat % 2 ^ 23 < 2 ^ 256 by omega)]

/-- **Miner and validator read the same target**: the number that was checked, all of it. -/
theorem target_agrees {fTestNet : Bool} {nBits : UInt32} (hpos : 0 < CBigNum.setCompact nBits)
    (hlimit : CBigNum.setCompact nBits ≤ getTargetLimit fTestNet false kawpowActivationTime) :
    (wordsOfCompact nBits).toUInt256 = CBigNum.getuint256 (CBigNum.setCompact nBits) ∧
    ((wordsOfCompact nBits).value : Int) = CBigNum.setCompact nBits := by
  have hagree : (wordsOfCompact nBits).toUInt256 =
      CBigNum.getuint256 (CBigNum.setCompact nBits) := by
    rw [toUInt256_wordsOfCompact, compactToUint256_eq, CBigNum.getuint256_eq, CBigNum.setCompact_eq]
  refine ⟨hagree, ?_⟩
  have hsmall : getTargetLimit fTestNet false kawpowActivationTime < 2 ^ 256 :=
    (getTargetLimit_bounds fTestNet false kawpowActivationTime).2.trans (by norm_num)
  rw [← BaseUint.toNat_toUInt256, hagree, CBigNum.getuint256_eq, Breakout.getuint256,
    BitVec.toNat_ofNat, Nat.mod_eq_of_lt (by omega), Int.natAbs_of_nonneg hpos.le]

theorem target_agrees_easiest : (wordsOfCompact 0x1e0fffff).toUInt256 =
    CBigNum.getuint256 (CBigNum.setCompact 0x1e0fffff) ∧
    ((wordsOfCompact 0x1e0fffff).value : Int) = CBigNum.setCompact 0x1e0fffff :=
  @target_agrees false 0x1e0fffff (by decide) (by decide)

end Breakout
