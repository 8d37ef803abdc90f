/-
# Headers: what is serialised and what is hashed

A header has two layouts.  Below version 7 it is serialised with `nNonce`, and from version 7 on with
`nHeight`, `nNonce64` and `mix_hash` instead.  `GetHash` chooses among three functions, and asks
whether the version *is* 7.  Before the third fork it hashes what is serialised.  After it, a header
of a version above 7 is serialised in one layout and hashed in the other: `nNonce` is hashed and not
sent, the other three are sent and not hashed.

`header_determined_iff` says that these are all the headers for which the bytes and the id part.
-/
import Breakout.Block

namespace Breakout

open Lib

/-! ## 1. What is hashed -/

/-- What `GetHash` hashes, and with which function. -/
inductive HeaderPreimage where
  | sha256d (header : List UInt8)
  | scrypt (header : List UInt8)
  | progpow (nHeight : Nat) (input : List UInt8) (mixHash : UInt256) (nNonce64 : UInt64)
deriving DecidableEq

/-- The hash of a preimage. -/
def HeaderPreimage.hashed (K : Crypto) : HeaderPreimage → Run UInt256
  | .sha256d header => .ok (K.hash header)
  | .scrypt header => .ok (K.scryptBlockhash header)
  | .progpow nHeight input mixHash nNonce64 =>
    if mixHash = 0 then .error (.throw "CBlock::GetHash(): TSNH mix_hash is null")
    else .ok (K.progpowNoVerify nHeight (K.hash input) mixHash nNonce64)

namespace CBlock

/-- `CKAWPOWInput`, serialised. -/
def kawpowInput (block : CBlock) : List UInt8 := block.commonHeader ++ serUInt32 block.nHeight

/-- What the id of a block is a hash of. -/
def headerPreimage (block : CBlock) : HeaderPreimage :=
  if getFork block.nTime.toNat < .fork003 then .sha256d block.serializeHeader
  else if block.isKawpowBlock = false then .scrypt block.classicHeader
  else .progpow block.nHeight.toNat block.kawpowInput block.mixHash block.nNonce64

/-- The fields of a header that every version has. -/
def commonFields (block : CBlock) : Int32 × UInt256 × UInt256 × UInt32 × UInt32 :=
  (block.nVersion, block.hashPrevBlock, block.hashMerkleRoot, block.nTime, block.nBits)

/-- The header's first bytes determine these fields, whatever comes behind. -/
theorem commonFields_eq {a b : CBlock} {x y : List UInt8}
    (h : a.commonHeader ++ x = b.commonHeader ++ y) : a.commonFields = b.commonFields := by
  have hpf := prefixFree_serInt32.prod (prefixFree_serUInt256.prod
    (prefixFree_serUInt256.prod (prefixFree_serUInt32.prod prefixFree_serUInt32)))
  exact (hpf (a := a.commonFields) (b := b.commonFields) (by simp) (by simp) x y h).1

theorem exists_serializeHeader (block : CBlock) :
    ∃ x, block.serializeHeader = block.commonHeader ++ x := by
  unfold CBlock.serializeHeader
  split
  · exact ⟨_, rfl⟩
  · exact ⟨_, rfl⟩

/-- The id is the hash of the preimage. -/
theorem getHash_eq (K : Crypto) (block : CBlock) :
    block.getHash K = block.headerPreimage.hashed K := by
  unfold getHash headerPreimage
  split_ifs with hfork hversion hmix
  · rfl
  · rfl
  · rw [HeaderPreimage.hashed, if_pos hmix]
  · rw [HeaderPreimage.hashed, if_neg hmix]
    rfl

end CBlock

/-! ## 2. Reading a header -/

/-- `READWRITE` of an `unsigned int`, reading. -/
def readUInt32 (s : List UInt8) : Option (UInt32 × List UInt8) :=
  (readSize 4 s).map fun p => (UInt32.ofNat p.1, p.2)

/-- `READWRITE` of an `int`, reading. -/
def readInt32 (s : List UInt8) : Option (Int32 × List UInt8) :=
  (readSize 4 s).map fun p => (Int32.ofBitVec (BitVec.ofNat 32 p.1), p.2)

/-- `READWRITE` of a `uint64_t`, reading. -/
def readUInt64 (s : List UInt8) : Option (UInt64 × List UInt8) :=
  (readSize 8 s).map fun p => (UInt64.ofNat p.1, p.2)

/-- `READWRITE` of a `uint256`, reading. -/
def readUInt256 (s : List UInt8) : Option (UInt256 × List UInt8) :=
  (readSize 32 s).map fun p => (BitVec.ofNat 256 p.1, p.2)

/-- A header as `CBlock` reads it, on top of `SetNull`; and what follows it. -/
def unserializeHeader (s : List UInt8) : Option (CBlock × List UInt8) := do
  let (nVersion, s) ← readInt32 s
  let (hashPrevBlock, s) ← readUInt256 s
  let (hashMerkleRoot, s) ← readUInt256 s
  let (nTime, s) ← readUInt32 s
  let (nBits, s) ← readUInt32 s
  if nVersion < CBlock.kawpowVersion then
    let (nNonce, s) ← readUInt32 s
    return (⟨nVersion, hashPrevBlock, hashMerkleRoot, nTime, nBits, nNonce, 0, 0, 0, [], []⟩, s)
  else
    let (nHeight, s) ← readUInt32 s
    let (nNonce64, s) ← readUInt64 s
    let (mixHash, s) ← readUInt256 s
    return (⟨nVersion, hashPrevBlock, hashMerkleRoot, nTime, nBits, 0, nHeight, nNonce64, mixHash,
      [], []⟩, s)

@[simp] theorem readUInt32_ser (x : UInt32) (rest : List UInt8) :
    readUInt32 (serUInt32 x ++ rest) = some (x, rest) := by
  rw [readUInt32, serUInt32, readSize_leBytes x.toNat_lt]
  simp

@[simp] theorem readInt32_ser (x : Int32) (rest : List UInt8) :
    readInt32 (serInt32 x ++ rest) = some (x, rest) := by
  rw [readInt32, serInt32, readSize_leBytes x.toBitVec.isLt]
  simp

@[simp] theorem readUInt64_ser (x : UInt64) (rest : List UInt8) :
    readUInt64 (leBytes 8 x.toNat ++ rest) = some (x, rest) := by
  rw [readUInt64, readSize_leBytes x.toNat_lt]
  simp

@[simp] theorem readUInt256_ser (x : UInt256) (rest : List UInt8) :
    readUInt256 (serUInt256 x ++ rest) = some (x, rest) := by
  rw [readUInt256, serUInt256, readSize_leBytes x.isLt]
  simp

namespace CBlock

/-- What is left of a block when its header is sent: the fields of its layout. -/
def headerRead (block : CBlock) : CBlock :=
  if block.nVersion < kawpowVersion then
    { block with nHeight := 0, nNonce64 := 0, mixHash := 0, vtx := [], vchBlockSig := [] }
  else { block with nNonce := 0, vtx := [], vchBlockSig := [] }

/-- **A header is read back**, up to the fields that its layout does not have. -/
theorem unserializeHeader_serializeHeader (block : CBlock) (rest : List UInt8) :
    unserializeHeader (block.serializeHeader ++ rest) = some (block.headerRead, rest) := by
  unfold serializeHeader headerRead unserializeHeader
  split
  · next hversion =>
    simp [classicHeader, commonHeader, hversion]
  · next hversion =>
    simp [commonHeader, hversion]

theorem serializeHeader_headerRead (block : CBlock) :
    block.headerRead.serializeHeader = block.serializeHeader := by
  unfold headerRead
  split
  · next hversion =>
    simp [serializeHeader, hversion, classicHeader, commonHeader]
  · next hversion =>
    simp [serializeHeader, hversion, commonHeader]

/-! ## 3. Where the layout and the hash part -/

/-- The header is serialised in one layout and hashed in the other. -/
def TwoLayouts (block : CBlock) : Prop :=
  Fork.fork003 ≤ getFork block.nTime.toNat ∧ kawpowVersion < block.nVersion

variable {block : CBlock}

theorem not_twoLayouts (h : ¬ block.TwoLayouts) (hfork : ¬ getFork block.nTime.toNat < .fork003)
    (hversion : block.isKawpowBlock = false) : block.nVersion < kawpowVersion := by
  have hle : ¬ kawpowVersion < block.nVersion := fun hlt => h ⟨Fork.not_lt.mp hfork, hlt⟩
  refine Int32.lt_of_le_of_ne (Int32.not_lt.mp hle) ?_
  simpa [isKawpowBlock] using hversion

theorem not_lt_of_isKawpowBlock (h : ¬ block.isKawpowBlock = false) :
    block.nVersion = kawpowVersion ∧ ¬ block.nVersion < kawpowVersion := by
  have hversion : block.nVersion = kawpowVersion := by simpa [isKawpowBlock] using h
  exact ⟨hversion, by rw [hversion]; exact Int32.lt_irrefl⟩

/-- A header that is read back hashes the same. -/
theorem headerPreimage_headerRead (h : ¬ block.TwoLayouts) :
    block.headerRead.headerPreimage = block.headerPreimage := by
  have htime : block.headerRead.nTime = block.nTime := by
    unfold headerRead
    split <;> rfl
  have hkawpow : block.headerRead.isKawpowBlock = block.isKawpowBlock := by
    unfold headerRead
    split <;> rfl
  unfold headerPreimage
  rw [htime, hkawpow, serializeHeader_headerRead]
  split_ifs with hfork hversion
  · rfl
  · rw [headerRead, if_pos (not_twoLayouts h hfork hversion)]
    rfl
  · rw [headerRead, if_neg (not_lt_of_isKawpowBlock hversion).2]
    rfl

/-- The preimage of the id determines what is serialised. -/
theorem serializeHeader_eq_of_preimage (h : ¬ block.TwoLayouts) {other : CBlock}
    (heq : other.headerPreimage = block.headerPreimage) :
    other.serializeHeader = block.serializeHeader := by
  unfold headerPreimage at heq
  split_ifs at heq with hfork' hfork hversion hversion' hversion hversion'
  · exact HeaderPreimage.sha256d.inj heq
  · have hclassic := HeaderPreimage.scrypt.inj heq
    have hlt := not_twoLayouts h ‹_› ‹_›
    have hfields := commonFields_eq hclassic
    have hsame : other.nVersion = block.nVersion := congrArg Prod.fst hfields
    rw [serializeHeader, serializeHeader, if_pos hlt, if_pos (by rwa [hsame]), hclassic]
  · obtain ⟨hheight, hinput, hmix, hnonce⟩ := HeaderPreimage.progpow.inj heq
    rw [serializeHeader, serializeHeader, if_neg (not_lt_of_isKawpowBlock ‹_›).2,
      if_neg (not_lt_of_isKawpowBlock ‹_›).2, ← List.append_assoc, ← List.append_assoc, hmix,
      hnonce]
    exact congrArg (· ++ _) hinput

/-- Where the layouts differ, the height is sent and not hashed. -/
theorem TwoLayouts.other (h : block.TwoLayouts) :
    ∃ other : CBlock, other.headerPreimage = block.headerPreimage ∧
      other.serializeHeader ≠ block.serializeHeader := by
  obtain ⟨hfork, hversion⟩ := h
  have hnot : ¬ getFork block.nTime.toNat < .fork003 := Fork.not_lt.mpr hfork
  have hkawpow : block.isKawpowBlock = false := by
    simpa [isKawpowBlock] using (Int32.ne_of_lt hversion).symm
  refine ⟨{ block with nHeight := block.nHeight + 1 }, ?_, fun heq => ?_⟩
  · have hkawpow' : ({ block with nHeight := block.nHeight + 1 } : CBlock).isKawpowBlock =
        false := hkawpow
    simp only [headerPreimage, if_neg hnot, if_pos hkawpow, if_pos hkawpow']
    rfl
  · have hlt : ¬ block.nVersion < kawpowVersion := Int32.lt_asymm hversion
    simp only [serializeHeader, if_neg hlt] at heq
    have hrest := List.append_cancel_left heq
    obtain ⟨hheight, -⟩ := prefixFree_serUInt32 trivial trivial _ _ hrest
    simp at hheight

end CBlock

/-- **When the bytes of a header and its id say the same.**  The header is read back with the same
id, and what the id hashes determines every byte, if and only if it does not have two layouts. -/
theorem header_determined_iff (K : Crypto) (block : CBlock) :
    ((∃ read, unserializeHeader block.serializeHeader = some (read, []) ∧
        read.getHash K = block.getHash K) ∧
      ∀ other : CBlock, other.headerPreimage = block.headerPreimage →
        other.serializeHeader = block.serializeHeader) ↔ ¬ block.TwoLayouts := by
  constructor
  · rintro ⟨-, hall⟩ htwo
    obtain ⟨other, hsame, hne⟩ := htwo.other
    exact hne (hall other hsame)
  · intro h
    refine ⟨⟨block.headerRead, ?_, ?_⟩, fun other heq => CBlock.serializeHeader_eq_of_preimage h heq⟩
    · have hread := block.unserializeHeader_serializeHeader []
      rwa [List.append_nil] at hread
    · rw [CBlock.getHash_eq, CBlock.getHash_eq, CBlock.headerPreimage_headerRead h]

/-- A header of version 8 after the third fork. -/
def header8 (nNonce nHeight : UInt32) : CBlock :=
  ⟨8, 0, 0, 1777836782, 0x1d00ffff, nNonce, nHeight, 0, 0, [], []⟩

/-- **One id for two headers, and two ids for one.**  Headers that differ in the height are sent as
different bytes and hash the same bytes; one with a nonce is read back with another preimage. -/
theorem header8_not_determined :
    ((header8 0 1).headerPreimage = (header8 0 2).headerPreimage ∧
      (header8 0 1).serializeHeader ≠ (header8 0 2).serializeHeader) ∧
      unserializeHeader (header8 5 1).serializeHeader = some (header8 0 1, []) ∧
      (header8 0 1).headerPreimage ≠ (header8 5 1).headerPreimage :=
  ⟨⟨by decide +kernel, by decide +kernel⟩, by decide +kernel, by decide +kernel⟩

/-! ## 4. The fields of the extended layout -/

namespace CBlock

/-- The id is a hash of `nHeight`, `nNonce64` and `mix_hash`, among other things. -/
def HashesExtended (block : CBlock) : Prop :=
  if getFork block.nTime.toNat < .fork003 then ¬ block.nVersion < kawpowVersion
  else block.isKawpowBlock = true

instance (block : CBlock) : Decidable block.HashesExtended := by
  unfold HashesExtended
  infer_instance

/-- A header with other values in these fields, and without the transactions. -/
def withExtended (block : CBlock) (nHeight : UInt32) (nNonce64 : UInt64) (mixHash : UInt256) :
    CBlock :=
  { block with
    nHeight := nHeight, nNonce64 := nNonce64, mixHash := mixHash, vtx := [], vchBlockSig := [] }

/-- When two headers that differ in these fields at most have one preimage. -/
theorem headerPreimage_withExtended (block : CBlock) (nHeight : UInt32) (nNonce64 : UInt64)
    (mixHash : UInt256) :
    (block.withExtended nHeight nNonce64 mixHash).headerPreimage = block.headerPreimage ↔
      ¬ block.HashesExtended ∨
        (nHeight = block.nHeight ∧ nNonce64 = block.nNonce64 ∧ mixHash = block.mixHash) := by
  have htime : (block.withExtended nHeight nNonce64 mixHash).nTime = block.nTime := rfl
  have hkawpow : (block.withExtended nHeight nNonce64 mixHash).isKawpowBlock =
      block.isKawpowBlock := rfl
  unfold headerPreimage HashesExtended
  rw [htime, hkawpow]
  split_ifs with hfork hversion
  · rw [HeaderPreimage.sha256d.injEq]
    by_cases hlt : block.nVersion < kawpowVersion
    · have hlt' : (block.withExtended nHeight nNonce64 mixHash).nVersion < kawpowVersion := hlt
      rw [serializeHeader, serializeHeader, if_pos hlt, if_pos hlt']
      exact iff_of_true rfl (.inl (not_not.mpr hlt))
    · have hlt' : ¬ (block.withExtended nHeight nNonce64 mixHash).nVersion < kawpowVersion := hlt
      rw [serializeHeader, serializeHeader, if_neg hlt, if_neg hlt']
      constructor
      · intro h
        obtain ⟨hheight, hrest⟩ := prefixFree_serUInt32 trivial trivial _ _
          (List.append_cancel_left h)
        have hread := congrArg readUInt64 hrest
        rw [readUInt64_ser, readUInt64_ser, Option.some_inj, Prod.mk.injEq] at hread
        obtain ⟨hnonce, hmix⟩ := hread
        have hmix := congrArg (fun s => readUInt256 (s ++ [])) hmix
        rw [readUInt256_ser, readUInt256_ser, Option.some_inj, Prod.mk.injEq] at hmix
        exact .inr ⟨hheight, hnonce, hmix.1⟩
      · rintro (hnot | ⟨rfl, rfl, rfl⟩)
        · exact absurd hlt hnot
        · rfl
  · exact iff_of_true rfl (.inl (by simp [hversion]))
  · have htrue : block.isKawpowBlock = true := by simpa using hversion
    rw [HeaderPreimage.progpow.injEq]
    constructor
    · rintro ⟨hheight, -, hmix, hnonce⟩
      exact .inr ⟨UInt32.toNat_inj.mp hheight, hnonce, hmix⟩
    · rintro (hnot | ⟨rfl, rfl, rfl⟩)
      · exact absurd htrue hnot
      · exact ⟨rfl, rfl, rfl, rfl⟩

end CBlock

end Breakout
