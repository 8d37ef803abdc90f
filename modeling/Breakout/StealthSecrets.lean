/-
# Payments to stealth addresses

The sender makes a key of its own for each payment, and publishes it.  From its secret and the key
to scan with it makes the shared secret, and with that and the key to spend with the key that is
paid to.  The receiver makes the shared secret the other way round, and then, by one of two ways,
the secret of the key that was paid to.

The curve is a parameter: an abelian group with a generator of known order, whose points other than
zero are encoded in 33 bytes.  Zero is encoded in one, so whatever comes out as zero is refused.

Of all this only the sender's calls need to succeed: then the receiver's do, and all agree
(`payment_agrees`).
-/
import Breakout.Script
import Mathlib.Data.ZMod.Basic

namespace Breakout

open Lib

namespace Stealth

/-! ## 1. The curve -/

/-- `ec_secret` -/
abbrev EcSecret := { e : Valtype // e.length = 32 }

/-- `ec_compressed_size` -/
def ecCompressedSize : Nat := 33

/-- What is used of an `EC_GROUP`. -/
structure ECGroup (Point : Type) where
  generator : Point
  order : Nat
  /-- `EC_POINT_point2oct`, compressed. -/
  point2oct : Point → Valtype
  /-- `EC_POINT_oct2point` -/
  oct2point : Valtype → Option Point

/-- What is relied on: the group is as large as the order of its generator says, and points are read
back from what they are written as, which is one byte for zero and 33 for all others. -/
structure ECGroup.Lawful {Point : Type} [AddCommGroup Point] (grp : ECGroup Point) : Prop where
  order_pos : 0 < grp.order
  order_le : grp.order ≤ 256 ^ 32
  order_nsmul : grp.order • grp.generator = 0
  length_zero : (grp.point2oct 0).length = 1
  length_point2oct : ∀ P ≠ 0, (grp.point2oct P).length = ecCompressedSize
  oct2point_point2oct : ∀ P ≠ 0, grp.oct2point (grp.point2oct P) = some P

/-! ## 2. Keys and secrets -/

/-- `BN_bin2bn` -/
def bin2bn (secret : EcSecret) : Nat := leNat secret.val.reverse

/-- `BN_bn2binpad`, into 32 bytes. -/
def bn2binpad (n : Nat) : Option EcSecret :=
  if n < 256 ^ 32 then some ⟨(leBytes 32 n).reverse, by rw [List.length_reverse, length_leBytes]⟩
  else none

variable {Point : Type} [AddCommGroup Point] (grp : ECGroup Point) (sha256 : Valtype → EcSecret)

/-- `point_to_bytes` -/
def pointToBytes (pt : Point) (outLen : Nat) : Option Valtype :=
  if (grp.point2oct pt).length = outLen then some (grp.point2oct pt) else none

/-- `SecretToPublicKey`: what it leaves in `out` when it returns 0. -/
def secretToPublicKey (secret : EcSecret) : Option Valtype :=
  pointToBytes grp (bin2bn secret • grp.generator) ecCompressedSize

/-- `StealthSecret`: what it leaves in `sharedSOut` and `pkOut`. -/
def stealthSecret (secret : EcSecret) (pubkey pkSpend : Valtype) : Option (EcSecret × Valtype) := do
  let Q ← grp.oct2point pubkey
  let vchOutQ ← pointToBytes grp (bin2bn secret • Q) ecCompressedSize
  let sharedSOut := sha256 vchOutQ
  let C := bin2bn sharedSOut • grp.generator
  let R ← grp.oct2point pkSpend
  let pkOut ← pointToBytes grp (R + C) ecCompressedSize
  return (sharedSOut, pkOut)

def stealthSharedToSecretSpend (sharedS spendSecret : EcSecret) : Option EcSecret :=
  let bnSpend := (bin2bn spendSecret + bin2bn sharedS) % grp.order
  if bnSpend = 0 then none else bn2binpad bnSpend

def stealthSecretSpend (scanSecret : EcSecret) (ephemPubkey : Valtype) (spendSecret : EcSecret) :
    Option EcSecret := do
  let P ← grp.oct2point ephemPubkey
  let vchOutP ← pointToBytes grp (bin2bn scanSecret • P) ecCompressedSize
  let bnc := bin2bn (sha256 vchOutP)
  let bnSpend := (bin2bn spendSecret + bnc) % grp.order
  if bnSpend = 0 then none else bn2binpad bnSpend

/-! ## 3. Sender and receiver -/

variable {grp sha256}

theorem bin2bn_of_bn2binpad {n : Nat} (h : n < 256 ^ 32) :
    ∃ secret, bn2binpad n = some secret ∧ bin2bn secret = n := by
  refine ⟨_, if_pos h, ?_⟩
  rw [bin2bn, List.reverse_reverse, leNat_leBytes h]

/-- What was written in 33 bytes is not zero, and is read back. -/
theorem ECGroup.Lawful.oct2point_of_pointToBytes (h : grp.Lawful) {pt : Point} {out : Valtype}
    (hout : pointToBytes grp pt ecCompressedSize = some out) :
    pt ≠ 0 ∧ out = grp.point2oct pt ∧ grp.oct2point out = some pt := by
  unfold pointToBytes at hout
  split_ifs at hout with hlength
  have hne : pt ≠ 0 := by
    rintro rfl
    rw [h.length_zero] at hlength
    exact absurd hlength (by decide)
  obtain rfl := Option.some.inj hout
  exact ⟨hne, rfl, h.oct2point_point2oct pt hne⟩

theorem ECGroup.Lawful.mod_nsmul (h : grp.Lawful) (n : Nat) :
    (n % grp.order) • grp.generator = n • grp.generator := by
  conv_rhs => rw [← Nat.mod_add_div n grp.order]
  rw [add_nsmul, mul_nsmul, h.order_nsmul, nsmul_zero, add_zero]

/-- **The secret of a key that was paid to**: the sum of two secrets is the secret of the sum of
their keys, unless that is zero. -/
theorem ECGroup.Lawful.spend_secret (h : grp.Lawful) {sharedS spendSecret : EcSecret}
    {pkOut : Valtype} (hout : pointToBytes grp
      (bin2bn spendSecret • grp.generator + bin2bn sharedS • grp.generator) ecCompressedSize =
        some pkOut) :
    ∃ secret, stealthSharedToSecretSpend grp sharedS spendSecret = some secret ∧
      secretToPublicKey grp secret = some pkOut ∧ 0 < bin2bn secret ∧
      bin2bn secret < grp.order := by
  rw [← add_nsmul, ← h.mod_nsmul] at hout
  have hlt : (bin2bn spendSecret + bin2bn sharedS) % grp.order < grp.order :=
    Nat.mod_lt _ h.order_pos
  have hne : (bin2bn spendSecret + bin2bn sharedS) % grp.order ≠ 0 := by
    intro hzero
    rw [hzero, zero_nsmul] at hout
    exact (h.oct2point_of_pointToBytes hout).1 rfl
  obtain ⟨secret, hsecret, hvalue⟩ := bin2bn_of_bn2binpad (lt_of_lt_of_le hlt h.order_le)
  refine ⟨secret, ?_, ?_, ?_, ?_⟩
  · rw [stealthSharedToSecretSpend, if_neg hne, hsecret]
  · rw [secretToPublicKey, hvalue, hout]
  · rw [hvalue]
    exact Nat.pos_of_ne_zero hne
  · rw [hvalue]
    exact hlt

/-- **A stealth payment**: where the sender's calls succeed the receiver's do.  Both make the same
shared secret and the same key, and both ways to the secret of that key lead to the same one. -/
theorem payment_agrees (h : grp.Lawful) {scan spend ephem sharedS : EcSecret}
    {scanPubkey spendPubkey ephemPubkey pkOut : Valtype}
    (hscan : secretToPublicKey grp scan = some scanPubkey)
    (hspend : secretToPublicKey grp spend = some spendPubkey)
    (hephem : secretToPublicKey grp ephem = some ephemPubkey)
    (hsend : stealthSecret grp sha256 ephem scanPubkey spendPubkey = some (sharedS, pkOut)) :
    stealthSecret grp sha256 scan ephemPubkey spendPubkey = some (sharedS, pkOut) ∧
      ∃ secret, stealthSharedToSecretSpend grp sharedS spend = some secret ∧
        stealthSecretSpend grp sha256 scan ephemPubkey spend = some secret ∧
        secretToPublicKey grp secret = some pkOut ∧ 0 < bin2bn secret ∧
        bin2bn secret < grp.order := by
  obtain ⟨-, -, hQ⟩ := h.oct2point_of_pointToBytes hscan
  obtain ⟨-, -, hR⟩ := h.oct2point_of_pointToBytes hspend
  obtain ⟨-, -, hP⟩ := h.oct2point_of_pointToBytes hephem
  have hshared : bin2bn scan • bin2bn ephem • grp.generator =
      bin2bn ephem • bin2bn scan • grp.generator := smul_comm ..
  have hsend' := hsend
  simp only [stealthSecret, hQ, hR, Option.bind_eq_bind, Option.bind_some,
    Option.bind_eq_some_iff, Option.pure_def, Option.some.injEq, Prod.mk.injEq] at hsend
  obtain ⟨vchOutQ, hvchOutQ, pk, hpk, rfl, rfl⟩ := hsend
  refine ⟨?_, ?_⟩
  · simp only [stealthSecret, hQ, hP] at hsend' ⊢
    rw [Option.bind_eq_bind, Option.bind_some, hshared]
    exact hsend'
  · obtain ⟨secret, hsecret, hkey, hpos, hlt⟩ := h.spend_secret hpk
    refine ⟨secret, hsecret, ?_, hkey, hpos, hlt⟩
    rw [← hsecret]
    simp only [stealthSecretSpend, hP, Option.bind_eq_bind, Option.bind_some, hshared, hvchOutQ]
    rfl

/-- A secret of one byte. -/
def small (b : UInt8) : EcSecret := ⟨List.replicate 31 0 ++ [b], rfl⟩

/-- A group of eleven points; the last byte of a point tells which it is. -/
def elevenPoints : ECGroup (ZMod 11) where
  generator := 1
  order := 11
  point2oct P := if P = 0 then [0] else 2 :: (small (UInt8.ofNat P.val)).val
  oct2point oct := if oct.length = 33 then (oct.getLast?.map fun b => (b.toNat : ZMod 11)) else none

theorem elevenPoints_lawful : elevenPoints.Lawful where
  order_pos := by decide
  order_le := by decide
  order_nsmul := by decide
  length_zero := by decide
  length_point2oct := by decide
  oct2point_point2oct := by decide

/-- A payment with the secrets 3, 4 and 5, where the shared secret is 2. -/
theorem payment_agrees_small :
    stealthSecret elevenPoints (fun _ => small 2) (small 3) (2 :: (small 5).val)
        (2 :: (small 4).val) = some (small 2, 2 :: (small 6).val) ∧
      ∃ secret, stealthSharedToSecretSpend elevenPoints (small 2) (small 4) = some secret ∧
        stealthSecretSpend elevenPoints (fun _ => small 2) (small 3) (2 :: (small 5).val)
          (small 4) = some secret ∧
        secretToPublicKey elevenPoints secret = some (2 :: (small 6).val) ∧ 0 < bin2bn secret ∧
        bin2bn secret < elevenPoints.order := by
  have hscan : secretToPublicKey elevenPoints (small 3) = some (2 :: (small 3).val) := by decide
  have hspend : secretToPublicKey elevenPoints (small 4) = some (2 :: (small 4).val) := by decide
  have hephem : secretToPublicKey elevenPoints (small 5) = some (2 :: (small 5).val) := by decide
  exact payment_agrees elevenPoints_lawful hscan hspend hephem (by decide)

end Stealth

end Breakout
