/-
# A transaction from hexadecimal text

`DecodeHexTx` turns the text that a remote call carries into a transaction.  The text has to be
hexadecimal, its bytes have to be those of a transaction, and no byte may be left.  The scripts are
tested as well: each of them has to fall into instructions that exist and to be of a possible size.

The last two tests decide nothing.  Where one of them fails the function falls through to the
`return true` after the block, so a text with anything behind the transaction is accepted, and so is
one whose scripts are no scripts.  `decodeHexTx_iff` says that these are the texts on which the
function is wrong, and the only ones.

A stream is what is left to read.  The source counts the bytes it has read in 32 bits; no request
carries as many.
-/
import Breakout.Headers
import Breakout.HexText
import Breakout.Interpreter
import Breakout.Lib.Reader

namespace Breakout

open Lib

/-! ## 1. Reading a transaction -/

/-- A length that was written in more bytes than it takes is refused. -/
def canonical (least : Nat) : Option (Nat × List UInt8) → Option (Nat × List UInt8)
  | none => none
  | some (xSize, is) => if xSize < least then none else some (xSize, is)

/-- The length that `chSize` announces. -/
def sizeBehind (chSize : UInt8) (is : List UInt8) : Option (Nat × List UInt8) :=
  if chSize < 253 then some (chSize.toNat, is)
  else if chSize = 253 then canonical 253 (readSize 2 is)
  else if chSize = 254 then canonical 0x10000 (readSize 4 is)
  else canonical 0x100000000 (readSize 8 is)

def readCompactSize : List UInt8 → Option (Nat × List UInt8)
  | [] => none
  | chSize :: is =>
    match sizeBehind chSize is with
    | none => none
    | some (nSizeRet, is) => if nSizeRet > maxSize then none else some (nSizeRet, is)

/-- `READWRITE` of an `int64_t`, reading. -/
def readInt64 (is : List UInt8) : Option (Int64 × List UInt8) :=
  (readSize 8 is).map fun p => (Int64.ofBitVec (BitVec.ofNat 64 p.1), p.2)

/-- One byte of a byte vector or a string. -/
def readByte : List UInt8 → Option (UInt8 × List UInt8)
  | [] => none
  | b :: is => some (b, is)

/-- `READWRITE` of a byte vector or a string, reading. -/
def readBytes (is : List UInt8) : Option (List UInt8 × List UInt8) :=
  readVec readCompactSize readByte is

def COutPoint.unserialize (is : List UInt8) : Option (COutPoint × List UInt8) := do
  let (hash, is) ← readUInt256 is
  let (n, is) ← readUInt32 is
  return (⟨hash, n⟩, is)

def CTxIn.unserialize (is : List UInt8) : Option (CTxIn × List UInt8) := do
  let (prevout, is) ← COutPoint.unserialize is
  let (scriptSig, is) ← readBytes is
  let (nSequence, is) ← readUInt32 is
  return (⟨prevout, scriptSig, nSequence⟩, is)

def CTxOut.unserialize (is : List UInt8) : Option (CTxOut × List UInt8) := do
  let (nValue, is) ← readInt64 is
  let (nColor, is) ← readInt32 is
  let (scriptPubKey, is) ← readBytes is
  return (⟨nValue, nColor, scriptPubKey⟩, is)

def CTransaction.unserialize (is : List UInt8) : Option (CTransaction × List UInt8) := do
  let (nVersion, is) ← readInt32 is
  let (nTime, is) ← readUInt32 is
  let (vin, is) ← readVec readCompactSize CTxIn.unserialize is
  let (vout, is) ← readVec readCompactSize CTxOut.unserialize is
  let (nLockTime, is) ← readUInt32 is
  let (strTxComment, is) ← readBytes is
  let (nServiceTypeID, is) ← readUInt32 is
  return (⟨nVersion, nTime, vin, vout, nLockTime, strTxComment, nServiceTypeID⟩, is)

/-- No length that is written with the transaction exceeds `MAX_SIZE`. -/
structure CTransaction.WithinMaxSize (tx : CTransaction) : Prop where
  vin : tx.vin.length ≤ maxSize
  scriptSig : ∀ txin ∈ tx.vin, txin.scriptSig.length ≤ maxSize
  vout : tx.vout.length ≤ maxSize
  scriptPubKey : ∀ txout ∈ tx.vout, txout.scriptPubKey.length ≤ maxSize
  strTxComment : tx.strTxComment.length ≤ maxSize

/-! ## 2. The readers invert the serialisation -/

theorem reads_readSize (k : Nat) : Reads (· < 256 ^ k) (leBytes k) (readSize k) := by
  intro bs n rest
  constructor
  · intro hread
    unfold readSize at hread
    split at hread
    · cases hread
    · next hlen =>
      rw [Option.some.injEq, Prod.mk.injEq] at hread
      obtain ⟨rfl, rfl⟩ := hread
      have htake : (bs.take k).length = k := List.length_take_of_le (not_lt.mp hlen)
      have hlt := leNat_lt (bs.take k)
      have hback := leBytes_leNat (bs.take k)
      rw [htake] at hlt hback
      exact ⟨hlt, by rw [hback, List.take_append_drop]⟩
  · rintro ⟨hn, rfl⟩
    exact readSize_leBytes hn rest

/-- One of the three longer spellings of a length. -/
theorem canonical_iff {least k : Nat} {marker : UInt8}
    (hwrite : ∀ n, least ≤ n → n < 256 ^ k → compactSize n = marker :: leBytes k n)
    (bs : List UInt8) (n : Nat) (rest : List UInt8) :
    canonical least (readSize k bs) = some (n, rest) ↔
      (least ≤ n ∧ n < 256 ^ k) ∧ marker :: bs = compactSize n ++ rest := by
  constructor
  · intro hread
    cases hsize : readSize k bs with
    | none =>
      rw [hsize] at hread
      cases hread
    | some p =>
      obtain ⟨xSize, is⟩ := p
      obtain ⟨hlt, rfl⟩ := (reads_readSize k bs xSize is).mp hsize
      rw [hsize, canonical] at hread
      split at hread
      · cases hread
      · next hleast =>
        rw [Option.some.injEq, Prod.mk.injEq] at hread
        obtain ⟨rfl, rfl⟩ := hread
        refine ⟨⟨not_lt.mp hleast, hlt⟩, ?_⟩
        rw [hwrite xSize (not_lt.mp hleast) hlt, List.cons_append]
  · rintro ⟨⟨hleast, hlt⟩, hbs⟩
    rw [hwrite n hleast hlt, List.cons_append, List.cons.injEq] at hbs
    rw [(reads_readSize k bs n rest).mpr ⟨hlt, hbs.2⟩, canonical, if_neg (not_lt.mpr hleast)]

/-- The first byte of a length tells which spelling it is. -/
theorem compactSize_marker {n : Nat} (hn : n < 2 ^ 64) {marker : UInt8} {bs rest : List UInt8}
    (h : marker :: bs = compactSize n ++ rest) :
    marker < 253 ∧ n < 253 ∨ marker = 253 ∧ 253 ≤ n ∧ n < 256 ^ 2 ∨
      marker = 254 ∧ 0x10000 ≤ n ∧ n < 256 ^ 4 ∨ marker = 255 ∧ 0x100000000 ≤ n ∧ n < 256 ^ 8 := by
  unfold compactSize at h
  split_ifs at h with h1 h2 h3
  · obtain ⟨rfl, -⟩ := List.cons.inj h
    refine Or.inl ⟨UInt8.lt_iff_toNat_lt.mpr ?_, h1⟩
    rw [UInt8.toNat_ofNat']
    exact lt_of_le_of_lt (Nat.mod_le _ _) h1
  · exact Or.inr (Or.inl ⟨(List.cons.inj h).1, by omega, by norm_num; omega⟩)
  · exact Or.inr (Or.inr (Or.inl ⟨(List.cons.inj h).1, by omega, by norm_num; omega⟩))
  · exact Or.inr (Or.inr (Or.inr ⟨(List.cons.inj h).1, by omega, by norm_num; omega⟩))

/-- What is behind a marker, which a length of its range has. -/
theorem behindMarker_iff {least k n : Nat} {marker : UInt8} {bs rest : List UInt8}
    (hwrite : ∀ n, least ≤ n → n < 256 ^ k → compactSize n = marker :: leBytes k n)
    (hk : 256 ^ k ≤ 2 ^ 64)
    (hrange : n < 2 ^ 64 → marker :: bs = compactSize n ++ rest → least ≤ n ∧ n < 256 ^ k) :
    canonical least (readSize k bs) = some (n, rest) ↔
      n < 2 ^ 64 ∧ marker :: bs = compactSize n ++ rest := by
  rw [canonical_iff hwrite]
  constructor
  · rintro ⟨hn, heq⟩
    exact ⟨hn.2.trans_le hk, heq⟩
  · rintro ⟨hn, heq⟩
    exact ⟨hrange hn heq, heq⟩

theorem sizeBehind_iff {chSize : UInt8} {is : List UInt8} {n : Nat} {rest : List UInt8} :
    sizeBehind chSize is = some (n, rest) ↔ n < 2 ^ 64 ∧ chSize :: is = compactSize n ++ rest := by
  have h2 : ∀ n, 253 ≤ n → n < 256 ^ 2 → compactSize n = 253 :: leBytes 2 n := fun n hle hlt => by
    rw [compactSize, if_neg (by omega), if_pos (by norm_num at hlt; omega)]
  have h4 : ∀ n, 0x10000 ≤ n → n < 256 ^ 4 → compactSize n = 254 :: leBytes 4 n :=
    fun n hle hlt => by
      rw [compactSize, if_neg (by omega), if_neg (by omega), if_pos (by norm_num at hlt; omega)]
  have h8 : ∀ n, 0x100000000 ≤ n → n < 256 ^ 8 → compactSize n = 255 :: leBytes 8 n :=
    fun n hle hlt => by
      rw [compactSize, if_neg (by omega), if_neg (by omega), if_neg (by omega)]
  unfold sizeBehind
  split_ifs with hlt h253 h254
  · rw [Option.some.injEq, Prod.mk.injEq]
    have hbyte : chSize.toNat < 253 := UInt8.lt_iff_toNat_lt.mp hlt
    constructor
    · rintro ⟨rfl, rfl⟩
      refine ⟨by omega, ?_⟩
      rw [compactSize, if_pos hbyte, UInt8.ofNat_toNat]
      rfl
    · rintro ⟨hn, heq⟩
      rcases compactSize_marker hn heq with ⟨-, hsmall⟩ | ⟨rfl, -⟩ | ⟨rfl, -⟩ | ⟨rfl, -⟩
      · rw [compactSize, if_pos hsmall, List.singleton_append, List.cons.injEq] at heq
        obtain ⟨rfl, rfl⟩ := heq
        refine ⟨?_, rfl⟩
        rw [UInt8.toNat_ofNat']
        omega
      · exact absurd hlt (by decide)
      · exact absurd hlt (by decide)
      · exact absurd hlt (by decide)
  · subst h253
    refine behindMarker_iff h2 (by decide) fun hn heq => ?_
    rcases compactSize_marker hn heq with ⟨h, -⟩ | ⟨-, h⟩ | ⟨h, -⟩ | ⟨h, -⟩
    · exact absurd h (by decide)
    · exact h
    · cases h
    · cases h
  · subst h254
    refine behindMarker_iff h4 (by decide) fun hn heq => ?_
    rcases compactSize_marker hn heq with ⟨h, -⟩ | ⟨h, -⟩ | ⟨-, h⟩ | ⟨h, -⟩
    · exact absurd h (by decide)
    · cases h
    · exact h
    · cases h
  · obtain rfl : chSize = 255 := by
      have hne2 : chSize.toNat ≠ 253 := fun h => h253 (UInt8.toNat_inj.mp h)
      have hne4 : chSize.toNat ≠ 254 := fun h => h254 (UInt8.toNat_inj.mp h)
      have hge : ¬ chSize.toNat < 253 := fun h => hlt (UInt8.lt_iff_toNat_lt.mpr h)
      have hbyte := chSize.toNat_lt
      exact UInt8.toNat_inj.mp (show chSize.toNat = 255 by omega)
    refine behindMarker_iff h8 (by decide) fun hn heq => ?_
    rcases compactSize_marker hn heq with ⟨h, -⟩ | ⟨h, -⟩ | ⟨h, -⟩ | ⟨-, h⟩
    · exact absurd h (by decide)
    · cases h
    · cases h
    · exact h

theorem reads_readCompactSize : Reads (· ≤ maxSize) compactSize readCompactSize := by
  intro bs n rest
  cases bs with
  | nil =>
    constructor
    · intro hread
      cases hread
    · rintro ⟨-, heq⟩
      unfold compactSize at heq
      split_ifs at heq <;> cases heq
  | cons chSize is =>
    rw [readCompactSize]
    constructor
    · intro hread
      cases hsize : sizeBehind chSize is with
      | none =>
        rw [hsize] at hread
        cases hread
      | some p =>
        obtain ⟨nSizeRet, is'⟩ := p
        rw [hsize] at hread
        dsimp only at hread
        split at hread
        · cases hread
        · next hmax =>
          rw [Option.some.injEq, Prod.mk.injEq] at hread
          obtain ⟨rfl, rfl⟩ := hread
          rw [sizeBehind_iff] at hsize
          exact ⟨not_lt.mp hmax, hsize.2⟩
    · rintro ⟨hmax, heq⟩
      have hn : n < 2 ^ 64 := lt_of_le_of_lt hmax (by decide)
      rw [Iff.mpr sizeBehind_iff ⟨hn, heq⟩]
      exact if_neg (not_lt.mpr hmax)

theorem reads_readByte : Reads (fun _ => True) (fun b : UInt8 => [b]) readByte := by
  intro bs b rest
  cases bs with
  | nil => simp [readByte]
  | cons c is =>
    rw [readByte, Option.some.injEq, Prod.mk.injEq, List.singleton_append, List.cons.injEq]
    exact ⟨fun ⟨hb, hr⟩ => ⟨trivial, hb, hr⟩, fun ⟨_, hb, hr⟩ => ⟨hb, hr⟩⟩

theorem reads_readBytes : Reads (·.length ≤ maxSize) serBytes readBytes := by
  intro bs b rest
  rw [readBytes, Reads.vec reads_readCompactSize reads_readByte]
  exact ⟨fun ⟨⟨hlen, _⟩, heq⟩ => ⟨hlen, heq⟩, fun ⟨hlen, heq⟩ => ⟨⟨hlen, fun _ _ => trivial⟩, heq⟩⟩

theorem reads_readUInt256 : Reads (fun _ => True) serUInt256 readUInt256 :=
  (reads_readSize 32).map (BitVec.ofNat 256) BitVec.toNat (fun x => x.isLt)
    (fun _ hn => by rw [BitVec.toNat_ofNat]; exact Nat.mod_eq_of_lt hn)
    (fun x => by rw [BitVec.ofNat_toNat, BitVec.setWidth_eq])

theorem reads_readUInt32 : Reads (fun _ => True) serUInt32 readUInt32 :=
  (reads_readSize 4).map UInt32.ofNat UInt32.toNat (fun x => x.toNat_lt)
    (fun _ hn => by rw [UInt32.toNat_ofNat']; exact Nat.mod_eq_of_lt hn)
    (fun _ => UInt32.ofNat_toNat)

theorem reads_readInt32 : Reads (fun _ => True) serInt32 readInt32 :=
  (reads_readSize 4).map (fun n => Int32.ofBitVec (BitVec.ofNat 32 n)) (fun x => x.toBitVec.toNat)
    (fun x => x.toBitVec.isLt)
    (fun _ hn => by
      rw [Int32.toBitVec_ofBitVec, BitVec.toNat_ofNat]
      exact Nat.mod_eq_of_lt hn)
    (fun x => by rw [BitVec.ofNat_toNat, BitVec.setWidth_eq, Int32.ofBitVec_toBitVec])

theorem reads_readInt64 : Reads (fun _ => True) serInt64 readInt64 :=
  (reads_readSize 8).map (fun n => Int64.ofBitVec (BitVec.ofNat 64 n)) (fun x => x.toBitVec.toNat)
    (fun x => x.toBitVec.isLt)
    (fun _ hn => by
      rw [Int64.toBitVec_ofBitVec, BitVec.toNat_ofNat]
      exact Nat.mod_eq_of_lt hn)
    (fun x => by rw [BitVec.ofNat_toNat, BitVec.setWidth_eq, Int64.ofBitVec_toBitVec])

theorem reads_outPoint : Reads (fun _ => True) COutPoint.serialize COutPoint.unserialize := by
  intro bs o rest
  constructor
  · intro hread
    simp only [COutPoint.unserialize, bind, Option.bind_eq_some_iff, pure, Option.some.injEq,
      Prod.mk.injEq] at hread
    obtain ⟨⟨hash, is⟩, hhash, ⟨n, is'⟩, hn, rfl, rfl⟩ := hread
    obtain ⟨-, rfl⟩ := (reads_readUInt256 ..).mp hhash
    obtain ⟨-, rfl⟩ := (reads_readUInt32 ..).mp hn
    exact ⟨trivial, by rw [COutPoint.serialize, List.append_assoc]⟩
  · rintro ⟨-, rfl⟩
    simp only [COutPoint.unserialize, COutPoint.serialize, List.append_assoc, bind, Option.bind_some,
      Reads.read reads_readUInt256 trivial, Reads.read reads_readUInt32 trivial]
    rfl

theorem reads_txIn :
    Reads (fun i : CTxIn => i.scriptSig.length ≤ maxSize) CTxIn.serialize CTxIn.unserialize := by
  intro bs i rest
  constructor
  · intro hread
    simp only [CTxIn.unserialize, bind, Option.bind_eq_some_iff, pure, Option.some.injEq,
      Prod.mk.injEq] at hread
    obtain ⟨⟨prevout, is⟩, hprev, ⟨scriptSig, is1⟩, hsig, ⟨nSequence, is2⟩, hseq, rfl, rfl⟩ := hread
    obtain ⟨-, rfl⟩ := (reads_outPoint ..).mp hprev
    obtain ⟨hlen, rfl⟩ := (reads_readBytes ..).mp hsig
    obtain ⟨-, rfl⟩ := (reads_readUInt32 ..).mp hseq
    exact ⟨hlen, by simp only [CTxIn.serialize, List.append_assoc]⟩
  · rintro ⟨hlen, rfl⟩
    simp only [CTxIn.unserialize, CTxIn.serialize, List.append_assoc, bind, Option.bind_some,
      Reads.read reads_outPoint trivial, Reads.read reads_readBytes hlen,
      Reads.read reads_readUInt32 trivial]
    rfl

theorem reads_txOut :
    Reads (fun o : CTxOut => o.scriptPubKey.length ≤ maxSize) CTxOut.serialize
      CTxOut.unserialize := by
  intro bs o rest
  constructor
  · intro hread
    simp only [CTxOut.unserialize, bind, Option.bind_eq_some_iff, pure, Option.some.injEq,
      Prod.mk.injEq] at hread
    obtain ⟨⟨nValue, is⟩, hvalue, ⟨nColor, is1⟩, hcolor, ⟨scriptPubKey, is2⟩, hkey, rfl, rfl⟩ := hread
    obtain ⟨-, rfl⟩ := (reads_readInt64 ..).mp hvalue
    obtain ⟨-, rfl⟩ := (reads_readInt32 ..).mp hcolor
    obtain ⟨hlen, rfl⟩ := (reads_readBytes ..).mp hkey
    exact ⟨hlen, by simp only [CTxOut.serialize, List.append_assoc]⟩
  · rintro ⟨hlen, rfl⟩
    simp only [CTxOut.unserialize, CTxOut.serialize, List.append_assoc, bind, Option.bind_some,
      Reads.read reads_readInt64 trivial, Reads.read reads_readInt32 trivial,
      Reads.read reads_readBytes hlen]
    rfl

/-- **A stream is read as a transaction exactly when it begins with one.** -/
theorem reads_transaction :
    Reads CTransaction.WithinMaxSize CTransaction.serialize CTransaction.unserialize := by
  have hvin := Reads.vec reads_readCompactSize reads_txIn
  have hvout := Reads.vec reads_readCompactSize reads_txOut
  intro bs tx rest
  constructor
  · intro hread
    simp only [CTransaction.unserialize, bind, Option.bind_eq_some_iff, pure, Option.some.injEq,
      Prod.mk.injEq] at hread
    obtain ⟨⟨nVersion, is⟩, hversion, ⟨nTime, is1⟩, htime, ⟨vin, is2⟩, hin, ⟨vout, is3⟩, hout,
      ⟨nLockTime, is4⟩, hlock, ⟨strTxComment, is5⟩, hcomment, ⟨nServiceTypeID, is6⟩, hservice,
      rfl, rfl⟩ := hread
    obtain ⟨-, rfl⟩ := (reads_readInt32 ..).mp hversion
    obtain ⟨-, rfl⟩ := (reads_readUInt32 ..).mp htime
    obtain ⟨⟨hinlen, hsigs⟩, rfl⟩ := (hvin ..).mp hin
    obtain ⟨⟨houtlen, hkeys⟩, rfl⟩ := (hvout ..).mp hout
    obtain ⟨-, rfl⟩ := (reads_readUInt32 ..).mp hlock
    obtain ⟨hcomlen, rfl⟩ := (reads_readBytes ..).mp hcomment
    obtain ⟨-, rfl⟩ := (reads_readUInt32 ..).mp hservice
    exact ⟨⟨hinlen, hsigs, houtlen, hkeys, hcomlen⟩,
      by simp only [CTransaction.serialize, List.append_assoc]⟩
  · rintro ⟨h, rfl⟩
    simp only [CTransaction.unserialize, CTransaction.serialize, List.append_assoc, bind,
      Option.bind_some, Reads.read reads_readInt32 trivial, Reads.read reads_readUInt32 trivial,
      hvin.read ⟨h.vin, h.scriptSig⟩, hvout.read ⟨h.vout, h.scriptPubKey⟩,
      Reads.read reads_readBytes h.strTxComment]
    rfl

/-! ## 3. The text -/

namespace Util

/-- `phexdigit` of `util.cpp`; `none` stands for -1. -/
def phexdigit (c : Char) : Option UInt8 :=
  if '0' ≤ c ∧ c ≤ '9' then some (UInt8.ofNat (c.toNat - 48))
  else if 'a' ≤ c ∧ c ≤ 'f' then some (UInt8.ofNat (c.toNat - 87))
  else if 'A' ≤ c ∧ c ≤ 'F' then some (UInt8.ofNat (c.toNat - 55))
  else none

end Util

def isHex (str : List Char) : Bool :=
  str.all (fun c => (Util.phexdigit c).isSome) && decide (str.length > 0) &&
    decide (str.length % 2 = 0)

/-- `ParseHex`.  The text ends with a character that is no digit. -/
def parseHex : List Char → List UInt8
  | [] => []
  | [_] => []
  | c :: c' :: rest =>
    if isSpace c then parseHex (c' :: rest)
    else
      match Util.phexdigit c, Util.phexdigit c' with
      | some n, some m => (n <<< 4 ||| m) :: parseHex rest
      | _, _ => []

/-! ## 4. `DecodeHexTx` -/

/-- `MAX_OPCODE`: `OP_NOP10` -/
def maxOpcode : UInt8 := 0xb9

def maxScriptSize : Nat := 10000

/-- The loop of `CScript::HasValidOps`. -/
def validOpsLoop : Nat → CScript → Bool
  | 0, _ => true
  | fuel + 1, s =>
    if s = [] then true
    else
      match getOp s with
      | none => false
      | some (opcode, item, rest) =>
        if opcode > maxOpcode ∨ item.length > maxScriptElementSize then false
        else validOpsLoop fuel rest

def hasValidOps (s : CScript) : Bool := validOpsLoop s.length s

def checkTxScriptsSanity (tx : CTransaction) : Bool :=
  (tx.isCoinBase || tx.vin.all fun txin =>
      hasValidOps txin.scriptSig && decide (txin.scriptSig.length ≤ maxScriptSize)) &&
    tx.vout.all fun txout =>
      hasValidOps txout.scriptPubKey && decide (txout.scriptPubKey.length ≤ maxScriptSize)

/-- `DecodeHexTx`: the transaction, where it returns true. -/
def decodeHexTx (strHexTx : List Char) : Option CTransaction :=
  if isHex strHexTx = false then none
  else
    match CTransaction.unserialize (parseHex strHexTx) with
    -- reading past the end and a length that is too large throw
    | none => none
    | some (tx, ssData) =>
      if ssData = [] ∧ checkTxScriptsSanity tx = true then some tx
      -- the `return true` after the block
      else some tx

/-- The text is hexadecimal, of one transaction and nothing behind it, and the scripts of the
transaction are sane. -/
def IsHexTx (strHexTx : List Char) : Prop :=
  ∃ tx : CTransaction, isHex strHexTx = true ∧ tx.WithinMaxSize ∧
    parseHex strHexTx = tx.serialize ∧ checkTxScriptsSanity tx = true

/-- The text is hexadecimal and begins with a transaction, and either something is behind it or a
script of it is not sane. -/
def IsSpoiledTx (strHexTx : List Char) : Prop :=
  ∃ (tx : CTransaction) (rest : List UInt8), isHex strHexTx = true ∧ tx.WithinMaxSize ∧
    parseHex strHexTx = tx.serialize ++ rest ∧ (rest ≠ [] ∨ checkTxScriptsSanity tx = false)

/-- What the function accepts: whatever begins with a transaction. -/
theorem decodeHexTx_eq_some_iff {strHexTx : List Char} {tx : CTransaction} :
    decodeHexTx strHexTx = some tx ↔
      isHex strHexTx = true ∧ tx.WithinMaxSize ∧ ∃ rest, parseHex strHexTx = tx.serialize ++ rest := by
  unfold decodeHexTx
  by_cases hhex : isHex strHexTx = true
  · rw [if_neg (by rw [hhex]; decide)]
    constructor
    · intro h
      cases hread : CTransaction.unserialize (parseHex strHexTx) with
      | none =>
        rw [hread] at h
        cases h
      | some p =>
        obtain ⟨tx', rest⟩ := p
        rw [hread] at h
        dsimp only at h
        rw [ite_self, Option.some.injEq] at h
        subst h
        obtain ⟨hmax, hbs⟩ := (reads_transaction ..).mp hread
        exact ⟨hhex, hmax, rest, hbs⟩
    · rintro ⟨-, hmax, rest, hbs⟩
      rw [hbs, Reads.read reads_transaction hmax]
      dsimp only
      rw [ite_self]
  · rw [Bool.not_eq_true] at hhex
    rw [if_pos hhex]
    refine iff_of_false (by simp) fun h => ?_
    rw [hhex] at h
    cases h.1

/-- **When the answer is right.**  `DecodeHexTx` returns true exactly for the texts of one sane
transaction, except on the texts that begin with a transaction and are spoiled. -/
theorem decodeHexTx_iff (strHexTx : List Char) :
    ((decodeHexTx strHexTx).isSome = true ↔ IsHexTx strHexTx) ↔ ¬ IsSpoiledTx strHexTx := by
  constructor
  · rintro h ⟨tx, rest, hhex, hmax, hbs, hbad⟩
    have hsome : decodeHexTx strHexTx = some tx := decodeHexTx_eq_some_iff.mpr ⟨hhex, hmax, rest, hbs⟩
    obtain ⟨tx', -, hmax', hbs', hsane⟩ := h.mp (by rw [hsome]; rfl)
    obtain ⟨rfl, hrest⟩ := reads_transaction.prefixFree hmax hmax' rest []
      (by rw [← hbs, hbs', List.append_nil])
    rcases hbad with hne | hinsane
    · exact hne hrest
    · rw [hsane] at hinsane
      cases hinsane
  · intro hfine
    constructor
    · intro h
      obtain ⟨tx, hsome⟩ := Option.isSome_iff_exists.mp h
      obtain ⟨hhex, hmax, rest, hbs⟩ := decodeHexTx_eq_some_iff.mp hsome
      have hrest : rest = [] := by
        by_contra hne
        exact hfine ⟨tx, rest, hhex, hmax, hbs, Or.inl hne⟩
      have hsane : checkTxScriptsSanity tx = true := by
        by_contra hne
        exact hfine ⟨tx, rest, hhex, hmax, hbs, Or.inr (Bool.not_eq_true _ ▸ hne)⟩
      exact ⟨tx, hhex, hmax, by rw [hbs, hrest, List.append_nil], hsane⟩
    · rintro ⟨tx, hhex, hmax, hbs, -⟩
      rw [decodeHexTx_eq_some_iff.mpr ⟨hhex, hmax, [], by rw [hbs, List.append_nil]⟩]
      rfl

/-- A transaction without inputs and outputs, and one byte behind it. -/
def trailingText : List Char := "01000000000000000000000000000000000000ff".toList

/-- **A byte too many**: the text is accepted. -/
theorem trailing_byte_accepted :
    (decodeHexTx trailingText).isSome = true ∧ ¬ IsHexTx trailingText := by
  have hread : decodeHexTx trailingText = some ⟨1, 0, [], [], 0, [], 0⟩ := by decide +kernel
  refine ⟨by rw [hread]; rfl, ?_⟩
  rintro ⟨tx, hhex, hmax, hbs, -⟩
  have hsome : decodeHexTx trailingText = some tx :=
    decodeHexTx_eq_some_iff.mpr ⟨hhex, hmax, [], by rw [hbs, List.append_nil]⟩
  rw [hread, Option.some.injEq] at hsome
  subst hsome
  exact absurd hbs (by decide +kernel)

end Breakout
