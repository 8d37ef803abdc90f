/-
# Transactions: data, serialisation, identifiers

The data types of `main.h` under their own names, their network serialisation byte by byte,
and the transaction id.  The id is the hash of the serialisation with every input script
blanked, except for a coinbase from the third fork on, which is hashed whole
(`CTransaction::GetHash`).

Nothing here is assumed about the hash.  What identifiers determine is derived in section 4
from a premise about a SET of transactions: the hash has no collision among the preimages of
that set.  A hash into 256 bits cannot be injective on all byte strings, so a premise about
all of them would be false; about the transactions a node ever sees it is the usual one.
-/
import Breakout.Colors
import Breakout.Script

namespace Breakout

open Lib

/-! ## 1. Data -/

abbrev UInt256 := BitVec 256

instance : LawfulBEq UInt256 := inferInstance

structure COutPoint where
  hash : UInt256
  n : UInt32
deriving DecidableEq, Repr

def COutPoint.isNull (o : COutPoint) : Bool := o.hash == 0 && o.n == 0xffffffff

structure CTxIn where
  prevout : COutPoint
  scriptSig : CScript
  nSequence : UInt32
deriving DecidableEq, Repr

structure CTxOut where
  nValue : Int64
  nColor : Int32
  scriptPubKey : CScript
deriving DecidableEq, Repr

def CTxOut.isEmpty (o : CTxOut) : Bool := o.nValue == 0 && o.scriptPubKey.isEmpty

structure CTransaction where
  nVersion : Int32
  nTime : UInt32
  vin : List CTxIn
  vout : List CTxOut
  nLockTime : UInt32
  strTxComment : List UInt8
  nServiceTypeID : UInt32
deriving DecidableEq, Repr

namespace CTransaction

def isCoinBase (tx : CTransaction) : Bool :=
  match tx.vin with
  | [txin] => txin.prevout.isNull && !tx.vout.isEmpty
  | _ => false

def isCoinStake (tx : CTransaction) : Bool :=
  match tx.vin, tx.vout with
  | txin :: _, out0 :: _ :: _ => !txin.prevout.isNull && out0.isEmpty
  | _, _ => false

def doesMature (tx : CTransaction) : Bool := tx.isCoinBase || tx.isCoinStake

def getColor (tx : CTransaction) : Int32 :=
  match tx.vout with
  | [] => Color.none.toInt32
  | out0 :: _ => out0.nColor

def getStakeColor (tx : CTransaction) : Int32 :=
  if tx.isCoinStake then
    match tx.vout with
    | _ :: out1 :: _ => out1.nColor
    | _ => Color.none.toInt32
  else Color.none.toInt32

def getLegacySigOpCount (tx : CTransaction) : Nat :=
  (tx.vin.map fun txin => getSigOpCount txin.scriptSig false).sum +
    (tx.vout.map fun txout => getSigOpCount txout.scriptPubKey false).sum

variable {tx : CTransaction}

theorem isCoinBase_iff :
    tx.isCoinBase = true ↔ (∃ txin, tx.vin = [txin] ∧ txin.prevout.isNull = true) ∧ tx.vout ≠ [] := by
  unfold isCoinBase
  split
  · next txin h => simp [h]
  · next h =>
    simp only [Bool.false_eq_true, false_iff, not_and, ne_eq]
    rintro ⟨txin, hv, -⟩
    exact absurd hv (h txin)

theorem isCoinBase_not_isCoinStake (h : tx.isCoinBase = true) :
    tx.isCoinStake = false := by
  obtain ⟨⟨txin, hv, hn⟩, -⟩ := isCoinBase_iff.mp h
  unfold isCoinStake
  rw [hv]
  split
  · next t _ _ _ he _ =>
    cases he
    simp [hn]
  · rfl

end CTransaction

/-! ## 2. Serialisation -/

def maxSize : Nat := 0x02000000

/-- `READWRITE` of a `uint256`: its 32 bytes, lowest first. -/
def serUInt256 (x : UInt256) : List UInt8 := leBytes 32 x.toNat
/-- `READWRITE` of an `unsigned int`. -/
def serUInt32 (x : UInt32) : List UInt8 := leBytes 4 x.toNat
/-- `READWRITE` of an `int`: the bytes of its two's complement. -/
def serInt32 (x : Int32) : List UInt8 := leBytes 4 x.toBitVec.toNat
/-- `READWRITE` of an `int64_t`. -/
def serInt64 (x : Int64) : List UInt8 := leBytes 8 x.toBitVec.toNat
/-- `READWRITE` of a byte vector or a string. -/
def serBytes (b : List UInt8) : List UInt8 := encVec (fun x => [x]) b

def COutPoint.serialize (o : COutPoint) : List UInt8 := serUInt256 o.hash ++ serUInt32 o.n

def CTxIn.serialize (i : CTxIn) : List UInt8 :=
  i.prevout.serialize ++ (serBytes i.scriptSig ++ serUInt32 i.nSequence)

def CTxOut.serialize (o : CTxOut) : List UInt8 :=
  serInt64 o.nValue ++ (serInt32 o.nColor ++ serBytes o.scriptPubKey)

def CTransaction.serialize (tx : CTransaction) : List UInt8 :=
  serInt32 tx.nVersion ++ (serUInt32 tx.nTime ++ (encVec CTxIn.serialize tx.vin ++
    (encVec CTxOut.serialize tx.vout ++ (serUInt32 tx.nLockTime ++
      (serBytes tx.strTxComment ++ serUInt32 tx.nServiceTypeID)))))

theorem prefixFree_serUInt256 : PrefixFree (fun _ => True) serUInt256 :=
  prefixFree_of_length (k := 32) (by simp [serUInt256]) fun a b _ _ h =>
    BitVec.eq_of_toNat_eq (leBytes_inj a.isLt b.isLt h)

theorem prefixFree_serUInt32 : PrefixFree (fun _ => True) serUInt32 :=
  prefixFree_of_length (k := 4) (by simp [serUInt32]) fun a b _ _ h =>
    UInt32.toNat_inj.mp (leBytes_inj a.toNat_lt b.toNat_lt h)

theorem prefixFree_serInt32 : PrefixFree (fun _ => True) serInt32 :=
  prefixFree_of_length (k := 4) (by simp [serInt32]) fun a b _ _ h =>
    Int32.toBitVec_inj.mp
      (BitVec.eq_of_toNat_eq (leBytes_inj a.toBitVec.isLt b.toBitVec.isLt h))

theorem prefixFree_serInt64 : PrefixFree (fun _ => True) serInt64 :=
  prefixFree_of_length (k := 8) (by simp [serInt64]) fun a b _ _ h =>
    Int64.toBitVec_inj.mp
      (BitVec.eq_of_toNat_eq (leBytes_inj a.toBitVec.isLt b.toBitVec.isLt h))

theorem prefixFree_serBytes : PrefixFree (fun b => b.length < 2 ^ 64) serBytes := by
  have h1 : PrefixFree (fun _ : UInt8 => True) (fun x => [x]) :=
    prefixFree_of_length (k := 1) (by simp) fun a b _ _ h => by simpa using h
  exact (prefixFree_vec h1).mono fun b hb => ⟨hb, fun _ _ => trivial⟩

theorem prefixFree_outPoint : PrefixFree (fun _ => True) COutPoint.serialize := by
  refine ((prefixFree_serUInt256.prod prefixFree_serUInt32).comap
    (f := fun o : COutPoint => (o.hash, o.n)) ?_).mono fun _ _ => ⟨trivial, trivial⟩
  rintro ⟨⟩ ⟨⟩ h
  simpa using h

theorem prefixFree_txIn :
    PrefixFree (fun i : CTxIn => i.scriptSig.length < 2 ^ 64) CTxIn.serialize := by
  refine ((prefixFree_outPoint.prod (prefixFree_serBytes.prod prefixFree_serUInt32)).comap
    (f := fun i : CTxIn => (i.prevout, i.scriptSig, i.nSequence)) ?_).mono
      fun _ h => ⟨trivial, h, trivial⟩
  rintro ⟨⟩ ⟨⟩ h
  simpa using h

theorem prefixFree_txOut :
    PrefixFree (fun o : CTxOut => o.scriptPubKey.length < 2 ^ 64) CTxOut.serialize := by
  refine ((prefixFree_serInt64.prod (prefixFree_serInt32.prod prefixFree_serBytes)).comap
    (f := fun o : CTxOut => (o.nValue, o.nColor, o.scriptPubKey)) ?_).mono
      fun _ h => ⟨trivial, trivial, h⟩
  rintro ⟨⟩ ⟨⟩ h
  simpa using h

theorem length_le_serBytes (b : List UInt8) : b.length ≤ (serBytes b).length :=
  length_le_encVec (by simp) b

theorem length_serialize_txIn (i : CTxIn) : 1 + i.scriptSig.length ≤ i.serialize.length := by
  have := length_le_serBytes i.scriptSig
  simp only [CTxIn.serialize, COutPoint.serialize, serUInt256, serUInt32, List.length_append,
    length_leBytes]
  omega

theorem length_serialize_txOut (o : CTxOut) :
    1 + o.scriptPubKey.length ≤ o.serialize.length := by
  have := length_le_serBytes o.scriptPubKey
  simp only [CTxOut.serialize, serInt64, serInt32, List.length_append, length_leBytes]
  omega

/-- A transaction whose serialisation has a length.  A vector in memory cannot have `2^64`
elements; `CheckTransaction` refuses anything above a megabyte. -/
def CTransaction.Sized (tx : CTransaction) : Prop := tx.serialize.length < 2 ^ 64

/-- **The serialisation determines the transaction.** -/
theorem prefixFree_transaction : PrefixFree CTransaction.Sized CTransaction.serialize := by
  refine ((prefixFree_serInt32.prod (prefixFree_serUInt32.prod
    ((prefixFree_vec prefixFree_txIn).prod ((prefixFree_vec prefixFree_txOut).prod
      (prefixFree_serUInt32.prod (prefixFree_serBytes.prod prefixFree_serUInt32)))))).comap
    (f := fun tx : CTransaction => (tx.nVersion, tx.nTime, tx.vin, tx.vout, tx.nLockTime,
      tx.strTxComment, tx.nServiceTypeID)) ?_).mono ?_
  · rintro ⟨⟩ ⟨⟩ h
    simpa using h
  · intro tx h
    simp only [CTransaction.Sized, CTransaction.serialize, List.length_append] at h
    have hin := length_le_encVec (e := CTxIn.serialize)
      (fun i => by have := length_serialize_txIn i; omega) tx.vin
    have hout := length_le_encVec (e := CTxOut.serialize)
      (fun o => by have := length_serialize_txOut o; omega) tx.vout
    have hcom := length_le_serBytes tx.strTxComment
    refine ⟨trivial, trivial, ⟨show tx.vin.length < 2 ^ 64 by omega, fun i hi => ?_⟩,
      ⟨show tx.vout.length < 2 ^ 64 by omega, fun o ho => ?_⟩, trivial,
      show tx.strTxComment.length < 2 ^ 64 by omega, trivial⟩
    · have := length_serialize_txIn i
      have := length_le_encVec_of_mem (e := CTxIn.serialize) (l := tx.vin) hi
      omega
    · have := length_serialize_txOut o
      have := length_le_encVec_of_mem (e := CTxOut.serialize) (l := tx.vout) ho
      omega

/-! ## 3. Cryptographic functions and the transaction id -/

/-- The functions the program takes from its cryptographic libraries.  `verify` is
`CPubKey::Verify` at a key that is valid in form; `scryptBlockhash` takes the eighty header
bytes; `progpowNoVerify` is `progpow::hash_no_verify` at a height, header hash, mix hash and
nonce. -/
structure Crypto where
  hash : List UInt8 → UInt256
  sha256 : List UInt8 → List UInt8
  sha1 : List UInt8 → List UInt8
  ripemd160 : List UInt8 → List UInt8
  verify : List UInt8 → UInt256 → List UInt8 → Bool
  scryptBlockhash : List UInt8 → UInt256
  progpowNoVerify : Nat → UInt256 → UInt256 → UInt64 → UInt256

/-- Functions to evaluate examples with: the hash keeps the first 32 bytes, `signed` lists the
signatures that were made, and every header has enough work. -/
def Crypto.sample (signed : List (List UInt8 × UInt256 × List UInt8)) : Crypto where
  hash b := BitVec.ofNat 256 (leNat (b.take 32))
  sha256 b := b
  sha1 b := b
  ripemd160 b := b
  verify pubkey hash sig := decide ((pubkey, hash, sig) ∈ signed)
  scryptBlockhash _ := 0
  progpowNoVerify _ _ _ _ := 0

/-- Functions to evaluate examples with in which ids matter; ids are small and depend on every byte. -/
def forkCrypto : Crypto :=
  { Crypto.sample [] with hash := fun b => BitVec.ofNat 256 (leNat (b ++ [1]) % (2 ^ 127 - 1)) }

variable (K : Crypto)

/-- The input scripts blanked. -/
def CTransaction.blankSigs (tx : CTransaction) : CTransaction :=
  { tx with vin := tx.vin.map fun txin => { txin with scriptSig := [] } }

/-- Is the transaction id taken over the input scripts too? -/
def CTransaction.hashesSigs (tx : CTransaction) : Bool :=
  tx.isCoinBase && decide (Fork.fork003 ≤ getFork tx.nTime.toNat)

/-- What `CTransaction::GetHash` serialises. -/
def CTransaction.hashed (tx : CTransaction) : CTransaction :=
  if tx.hashesSigs then tx else tx.blankSigs

def CTransaction.getHash (tx : CTransaction) : UInt256 := K.hash tx.hashed.serialize

/-! ## 4. What an id determines -/

/-- No two transactions of `T` with different hash preimages have the same id, and they have
a size. -/
structure CollisionFree (T : Set CTransaction) : Prop where
  sized : ∀ tx ∈ T, tx.Sized
  inj : ∀ a ∈ T, ∀ b ∈ T, a.getHash K = b.getHash K → a.hashed.serialize = b.hashed.serialize

variable {K}

theorem CTransaction.length_serialize_blankSigs (tx : CTransaction) :
    tx.blankSigs.serialize.length ≤ tx.serialize.length := by
  have hin : ∀ i : CTxIn,
      (CTxIn.serialize { i with scriptSig := [] }).length ≤ i.serialize.length := by
    intro i
    have h0 : (serBytes []).length ≤ (serBytes i.scriptSig).length := by
      have : 1 ≤ (compactSize i.scriptSig.length).length := by
        unfold compactSize
        split_ifs <;> simp
      simp only [serBytes, encVec, List.length_append]
      simp only [List.length_nil, List.flatMap_nil]
      have h1 : (compactSize 0).length = 1 := rfl
      omega
    simp only [CTxIn.serialize, List.length_append]
    omega
  have hflat : ∀ l : List CTxIn,
      ((l.map fun i => { i with scriptSig := [] }).flatMap CTxIn.serialize).length ≤
        (l.flatMap CTxIn.serialize).length := by
    intro l
    induction l with
    | nil => simp
    | cons i l ih =>
      have := hin i
      simp only [List.map_cons, List.flatMap_cons, List.length_append]
      omega
  have := hflat tx.vin
  simp only [CTransaction.blankSigs, CTransaction.serialize, encVec, List.length_append,
    List.length_map]
  omega

theorem CTransaction.Sized.hashed {tx : CTransaction} (h : tx.Sized) : tx.hashed.Sized := by
  unfold CTransaction.hashed
  split
  · exact h
  · exact Nat.lt_of_le_of_lt tx.length_serialize_blankSigs h

variable {T : Set CTransaction} {a b : CTransaction}

/-- **Within a collision-free set, the id determines the hashed transaction.** -/
theorem CollisionFree.hashed_eq (h : CollisionFree K T) (ha : a ∈ T) (hb : b ∈ T)
    (he : a.getHash K = b.getHash K) :
    a.hashed = b.hashed :=
  prefixFree_transaction.injOn (h.sized a ha).hashed (h.sized b hb).hashed (h.inj a ha b hb he)

@[simp] theorem CTransaction.hashed_vout (tx : CTransaction) : tx.hashed.vout = tx.vout := by
  unfold CTransaction.hashed
  split <;> rfl

@[simp] theorem CTransaction.hashed_nTime (tx : CTransaction) : tx.hashed.nTime = tx.nTime := by
  unfold CTransaction.hashed
  split <;> rfl

@[simp] theorem CTransaction.hashed_strTxComment (tx : CTransaction) :
    tx.hashed.strTxComment = tx.strTxComment := by
  unfold CTransaction.hashed
  split <;> rfl

@[simp] theorem CTransaction.hashed_nServiceTypeID (tx : CTransaction) :
    tx.hashed.nServiceTypeID = tx.nServiceTypeID := by
  unfold CTransaction.hashed
  split <;> rfl

@[simp] theorem CTransaction.hashed_prevouts (tx : CTransaction) :
    tx.hashed.vin.map CTxIn.prevout = tx.vin.map CTxIn.prevout := by
  unfold CTransaction.hashed
  split
  · rfl
  · simp [CTransaction.blankSigs, Function.comp_def]

/-- The id determines the outputs. -/
theorem CollisionFree.vout_eq (h : CollisionFree K T) (ha : a ∈ T) (hb : b ∈ T)
    (he : a.getHash K = b.getHash K) :
    a.vout = b.vout := by
  simpa using congrArg CTransaction.vout (h.hashed_eq ha hb he)

/-- The id determines the timestamp. -/
theorem CollisionFree.nTime_eq (h : CollisionFree K T) (ha : a ∈ T) (hb : b ∈ T)
    (he : a.getHash K = b.getHash K) :
    a.nTime = b.nTime := by
  simpa using congrArg CTransaction.nTime (h.hashed_eq ha hb he)

/-- The id determines which outputs the transaction spends. -/
theorem CollisionFree.prevouts_eq (h : CollisionFree K T) (ha : a ∈ T) (hb : b ∈ T)
    (he : a.getHash K = b.getHash K) :
    a.vin.map CTxIn.prevout = b.vin.map CTxIn.prevout := by
  simpa using congrArg (fun tx => tx.vin.map CTxIn.prevout) (h.hashed_eq ha hb he)

/-- What spends the same outputs and has the same outputs is a coinbase or not alike. -/
theorem CTransaction.isCoinBase_congr (hin : a.vin.map CTxIn.prevout = b.vin.map CTxIn.prevout)
    (hout : a.vout = b.vout) :
    a.isCoinBase = b.isCoinBase := by
  have key : ∀ {x y : CTransaction}, x.vin.map CTxIn.prevout = y.vin.map CTxIn.prevout →
      x.vout = y.vout → x.isCoinBase = true → y.isCoinBase = true := by
    intro x y hin hout hx
    obtain ⟨⟨txin, hv, hn⟩, hne⟩ := isCoinBase_iff.mp hx
    rw [hv, List.map_singleton] at hin
    obtain ⟨t, ht, hp⟩ := List.map_eq_singleton_iff.mp hin.symm
    exact isCoinBase_iff.mpr ⟨⟨t, ht, by rw [hp]; exact hn⟩, hout ▸ hne⟩
  rw [Bool.eq_iff_iff]
  exact ⟨key hin hout, key hin.symm hout.symm⟩

end Breakout
