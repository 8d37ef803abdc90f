/-
# What a signature signs

`SignatureHash` hashes the transaction id followed by an edited copy of the transaction, and
`CheckSig` verifies a signature against it, through a cache of signatures that verified
before.  Because the id comes first in the preimage, two transactions with different ids
have different preimages whatever the editing did to the copies (`preimage_ne`).

Two paths hash nothing: an input index outside the inputs, and `SIGHASH_SINGLE` at an input
with no output of the same index.  They return the constant one for every transaction.  So a
signature made on such a path is good for every transaction on such a path, and this is the
only way two transactions with different ids can share a signature hash
(`signatureHash_ne_iff_not_both_constant`).
-/
import Breakout.Transaction

namespace Breakout

open Lib

variable (K : Crypto)

/-! ## 1. `SignatureHash` -/

def sighashNone : Int32 := 2
def sighashSingle : Int32 := 3
def sighashAnyonecanpay : Int32 := 0x80

/-- `CTxOut::SetNull` -/
def CTxOut.null : CTxOut := ⟨-1, Color.none.toInt32, []⟩

/-- The inputs with every script blanked but that of input `nIn`, which becomes the script
being signed for. -/
def signingInputs (scriptCode : CScript) (vin : List CTxIn) (nIn : Nat) : List CTxIn :=
  vin.mapIdx fun i txin => { txin with scriptSig := if i = nIn then scriptCode else [] }

/-- "Let the others update at will." -/
def freeSequences (vin : List CTxIn) (nIn : Nat) : List CTxIn :=
  vin.mapIdx fun i txin => if i = nIn then txin else { txin with nSequence := 0 }

/-- The inputs and outputs as the base hash type edits them; `none` where `SIGHASH_SINGLE`
finds no output of the input's index. -/
def editForHashType (vin : List CTxIn) (vout : List CTxOut) (nIn : Nat) (nHashType : Int32) :
    Option (List CTxIn × List CTxOut) :=
  if nHashType &&& 0x1f = sighashNone then some (freeSequences vin nIn, [])
  else if nHashType &&& 0x1f = sighashSingle then
    vout[nIn]?.map fun txout =>
      (freeSequences vin nIn, List.replicate nIn CTxOut.null ++ [txout])
  else some (vin, vout)

/-- The edited copy `txTmp`, or `none` where `SignatureHash` returns before hashing. -/
def sighashTx (scriptCode : CScript) (txTo : CTransaction) (nIn : Nat) (nHashType : Int32) :
    Option CTransaction :=
  if txTo.vin.length ≤ nIn then none
  else
    let vin := signingInputs (findAndDelete scriptCode [opCodeseparator]) txTo.vin nIn
    (editForHashType vin txTo.vout nIn nHashType).map fun (vin, vout) =>
      if nHashType &&& sighashAnyonecanpay ≠ 0 then
        { txTo with vin := (vin.drop nIn).take 1, vout := vout }
      else { txTo with vin := vin, vout := vout }

/-- The bytes `SignatureHash` hashes, or `none` on the paths that hash nothing. -/
def sighashPreimage (scriptCode : CScript) (txTo : CTransaction) (nIn : Nat)
    (nHashType : Int32) : Option (List UInt8) :=
  (sighashTx scriptCode txTo nIn nHashType).map fun txTmp =>
    (if getFork txTo.nTime.toNat < .fork007 ∨ txTo.isCoinBase = false
      then serUInt256 (txTo.getHash K) else []) ++
      (txTmp.serialize ++ serInt32 nHashType)

def signatureHash (scriptCode : CScript) (txTo : CTransaction) (nIn : Nat)
    (nHashType : Int32) : UInt256 :=
  match sighashPreimage K scriptCode txTo nIn nHashType with
  | none => 1
  | some bytes => K.hash bytes

/-- The inputs at which `SignatureHash` returns its constant. -/
def ConstantSighash (txTo : CTransaction) (nIn : Nat) (nHashType : Int32) : Prop :=
  txTo.vin.length ≤ nIn ∨ (nHashType &&& 0x1f = sighashSingle ∧ txTo.vout.length ≤ nIn)

variable {nIn : Nat} {nHashType : Int32} {scriptCode : CScript} {txTo : CTransaction}

theorem editForHashType_eq_none_iff {vin : List CTxIn} {vout : List CTxOut} :
    editForHashType vin vout nIn nHashType = none ↔
      nHashType &&& 0x1f = sighashSingle ∧ vout.length ≤ nIn := by
  unfold editForHashType
  split
  · next hnone =>
    have hns : ¬ nHashType &&& 0x1f = sighashSingle := by
      rw [hnone]
      decide
    simp [hns]
  · split
    · next hsingle => simp [hsingle]
    · next hsingle => simp [hsingle]

theorem sighashTx_eq_none_iff :
    sighashTx scriptCode txTo nIn nHashType = none ↔ ConstantSighash txTo nIn nHashType := by
  unfold sighashTx ConstantSighash
  split
  · next hin => simp [hin]
  · next hin => simp [hin, editForHashType_eq_none_iff]

theorem sighashPreimage_eq_none_iff :
    sighashPreimage K scriptCode txTo nIn nHashType = none ↔
      ConstantSighash txTo nIn nHashType := by
  rw [sighashPreimage, Option.map_eq_none_iff, sighashTx_eq_none_iff]

/-- Of a transaction that is not a coinbase, the preimage starts with the id. -/
theorem sighashPreimage_starts_with_id {bytes : List UInt8} (hcb : txTo.isCoinBase = false)
    (h : sighashPreimage K scriptCode txTo nIn nHashType = some bytes) :
    ∃ rest, bytes = serUInt256 (txTo.getHash K) ++ rest := by
  obtain ⟨txTmp, -, rfl⟩ := Option.map_eq_some_iff.mp h
  rw [if_pos (Or.inr hcb)]
  exact ⟨_, rfl⟩

/-- Different ids, different preimages: the id is prefix-free, so what follows it cannot make
up for it. -/
theorem preimage_ne {code₁ code₂ : CScript} {tx₁ tx₂ : CTransaction} {nIn₁ nIn₂ : Nat}
    {ht₁ ht₂ : Int32} {b₁ b₂ : List UInt8}
    (hcb₁ : tx₁.isCoinBase = false) (hcb₂ : tx₂.isCoinBase = false)
    (hne : tx₁.getHash K ≠ tx₂.getHash K)
    (h₁ : sighashPreimage K code₁ tx₁ nIn₁ ht₁ = some b₁)
    (h₂ : sighashPreimage K code₂ tx₂ nIn₂ ht₂ = some b₂) : b₁ ≠ b₂ := by
  obtain ⟨r₁, rfl⟩ := sighashPreimage_starts_with_id K hcb₁ h₁
  obtain ⟨r₂, rfl⟩ := sighashPreimage_starts_with_id K hcb₂ h₂
  intro heq
  exact hne (prefixFree_serUInt256 trivial trivial r₁ r₂ heq).1

/-! ## 2. `CheckSig` and its cache -/

/-- The length a public key's first byte announces; zero when there is no such form. -/
def pubKeyLen (chHeader : UInt8) : Nat :=
  if chHeader = 2 ∨ chHeader = 3 then 33
  else if chHeader = 4 ∨ chHeader = 6 ∨ chHeader = 7 then 65
  else 0

/-- `CPubKey(vch).IsValid()` -/
def isValidPubKey (vch : Valtype) : Bool :=
  match vch with
  | [] => false
  | b :: _ => decide (0 < pubKeyLen b ∧ vch.length = pubKeyLen b)

/-- `CPubKey(vch).Verify(hash, vchSig)` -/
def pubKeyVerify (vch : Valtype) (hash : UInt256) (vchSig : Valtype) : Bool :=
  isValidPubKey vch && K.verify vch hash vchSig

/-- The hash type `CheckSig` works with and the signature without it; `none` where it gives
up on the hash type. -/
def splitHashType (vchSig : Valtype) (nHashType : Int32) : Option (Valtype × Int32) :=
  match vchSig.getLast? with
  | none => none
  | some b =>
    let back := Int32.ofNat b.toNat
    if nHashType = 0 ∨ nHashType = back then some (vchSig.dropLast, back) else none

/-- `CheckSig` without its cache. -/
def checkSig (vchSig vchPubKey : Valtype) (scriptCode : CScript) (txTo : CTransaction)
    (nIn : Nat) (nHashType : Int32) : Bool :=
  if isValidPubKey vchPubKey = false then false
  else
    match splitHashType vchSig nHashType with
    | none => false
    | some (sig, ht) => pubKeyVerify K vchPubKey (signatureHash K scriptCode txTo nIn ht) sig

/-- `CSignatureCache::setValid`: signature hash, signature, public key. -/
abbrev SigCache := List (UInt256 × Valtype × Valtype)

/-- The eviction loop of `CSignatureCache::Set`.  `rnd i` is the entry the `i`-th random hash
picks; every round removes one entry, so the length bounds the rounds. -/
def evictLoop (nMaxCacheSize : Int) (rnd : Nat → Nat) : Nat → SigCache → SigCache
  | 0, cache => cache
  | fuel + 1, cache =>
    if nMaxCacheSize < cache.length then
      evictLoop nMaxCacheSize rnd fuel (cache.eraseIdx (rnd fuel % cache.length))
    else cache

def SigCache.set (nMaxCacheSize : Int) (rnd : Nat → Nat) (cache : SigCache)
    (k : UInt256 × Valtype × Valtype) : SigCache :=
  if nMaxCacheSize ≤ 0 then cache
  else (evictLoop nMaxCacheSize rnd cache.length cache).insert k

/-- `CheckSig`: the verdict and the cache it leaves.  `fNoCache` is the `SCRIPT_VERIFY_NOCACHE`
flag. -/
def checkSigCached (nMaxCacheSize : Int) (rnd : Nat → Nat) (cache : SigCache)
    (vchSig vchPubKey : Valtype) (scriptCode : CScript) (txTo : CTransaction) (nIn : Nat)
    (nHashType : Int32) (fNoCache : Bool) : Bool × SigCache :=
  if isValidPubKey vchPubKey = false then (false, cache)
  else
    match splitHashType vchSig nHashType with
    | none => (false, cache)
    | some (sig, ht) =>
      let sighash := signatureHash K scriptCode txTo nIn ht
      if (sighash, sig, vchPubKey) ∈ cache then (true, cache)
      else if pubKeyVerify K vchPubKey sighash sig = false then (false, cache)
      else if fNoCache then (true, cache)
      else (true, cache.set nMaxCacheSize rnd (sighash, sig, vchPubKey))

/-- The caches a run of `CheckSig` calls can leave, whatever it was called with. -/
inductive CacheReachable : SigCache → Prop
  | empty : CacheReachable []
  | call {cache : SigCache} (h : CacheReachable cache) (nMax : Int) (rnd : Nat → Nat)
      (vchSig vchPubKey : Valtype) (scriptCode : CScript) (txTo : CTransaction) (nIn : Nat)
      (nHashType : Int32) (fNoCache : Bool) :
      CacheReachable (checkSigCached K nMax rnd cache vchSig vchPubKey scriptCode txTo nIn
        nHashType fNoCache).2

/-- Every cached signature verifies. -/
def CacheSound (cache : SigCache) : Prop :=
  ∀ k ∈ cache, pubKeyVerify K k.2.2 k.1 k.2.1 = true

theorem mem_evictLoop {nMax : Int} {rnd : Nat → Nat} {k : UInt256 × Valtype × Valtype} :
    ∀ (fuel : Nat) (cache : SigCache), k ∈ evictLoop nMax rnd fuel cache → k ∈ cache
  | 0, _, h => h
  | fuel + 1, cache, h => by
    rw [evictLoop] at h
    split at h
    · exact List.mem_of_mem_eraseIdx (mem_evictLoop fuel _ h)
    · exact h

variable {K}

variable {cache : SigCache}

theorem CacheSound.set {nMax : Int} {rnd : Nat → Nat} {k : UInt256 × Valtype × Valtype}
    (h : CacheSound K cache) (hk : pubKeyVerify K k.2.2 k.1 k.2.1 = true) :
    CacheSound K (cache.set nMax rnd k) := by
  unfold SigCache.set
  split
  · exact h
  · intro j hj
    rcases List.mem_insert_iff.mp hj with rfl | hj
    · exact hk
    · exact h j (mem_evictLoop _ _ hj)

/-- One call keeps the cache sound, and a sound cache does not change the verdict. -/
theorem checkSigCached_spec (h : CacheSound K cache) (nMax : Int) (rnd : Nat → Nat)
    (vchSig vchPubKey : Valtype) (scriptCode : CScript) (txTo : CTransaction) (nIn : Nat)
    (nHashType : Int32) (fNoCache : Bool) :
    let r := checkSigCached K nMax rnd cache vchSig vchPubKey scriptCode txTo nIn nHashType fNoCache
    r.1 = checkSig K vchSig vchPubKey scriptCode txTo nIn nHashType ∧ CacheSound K r.2 := by
  unfold checkSigCached checkSig
  by_cases hv : isValidPubKey vchPubKey = false
  · simp [hv, h]
  · simp only [if_neg hv]
    cases hs : splitHashType vchSig nHashType with
    | none => exact ⟨rfl, h⟩
    | some p =>
      obtain ⟨sig, ht⟩ := p
      dsimp only
      by_cases hmem : (signatureHash K scriptCode txTo nIn ht, sig, vchPubKey) ∈ cache
      · rw [if_pos hmem]
        exact ⟨(h _ hmem).symm, h⟩
      · rw [if_neg hmem]
        by_cases hver : pubKeyVerify K vchPubKey (signatureHash K scriptCode txTo nIn ht) sig
          = false
        · rw [if_pos hver]
          exact ⟨hver.symm, h⟩
        · have hver' := Bool.not_eq_false _ ▸ hver
          rw [if_neg hver]
          split
          · exact ⟨hver'.symm, h⟩
          · exact ⟨hver'.symm, h.set hver'⟩

/-- **The cache never lies**: after any run of calls it holds only signatures that verify. -/
theorem CacheReachable.sound (h : CacheReachable K cache) :
    CacheSound K cache := by
  induction h with
  | empty => intro k hk; cases hk
  | call _ nMax rnd vchSig vchPubKey scriptCode txTo nIn nHashType fNoCache ih =>
    exact (checkSigCached_spec ih nMax rnd vchSig vchPubKey scriptCode txTo nIn nHashType
      fNoCache).2

/-- **The cache changes no verdict**: from whatever cache a run of calls can leave. -/
theorem checkSigCached_eq {cache : SigCache} (h : CacheReachable K cache) (nMax : Int)
    (rnd : Nat → Nat) (vchSig vchPubKey : Valtype) (scriptCode : CScript) (txTo : CTransaction)
    (nIn : Nat) (nHashType : Int32) (fNoCache : Bool) :
    (checkSigCached K nMax rnd cache vchSig vchPubKey scriptCode txTo nIn nHashType fNoCache).1 =
      checkSig K vchSig vchPubKey scriptCode txTo nIn nHashType :=
  (checkSigCached_spec h.sound nMax rnd vchSig vchPubKey scriptCode txTo nIn nHashType fNoCache).1

/-- What an accepted signature has been verified against. -/
theorem checkSig_eq_true {vchSig vchPubKey : Valtype} {scriptCode : CScript}
    {txTo : CTransaction} {nIn : Nat} {nHashType : Int32}
    (h : checkSig K vchSig vchPubKey scriptCode txTo nIn nHashType = true) :
    ∃ sig ht, splitHashType vchSig nHashType = some (sig, ht) ∧
      pubKeyVerify K vchPubKey (signatureHash K scriptCode txTo nIn ht) sig = true := by
  unfold checkSig at h
  split at h
  · cases h
  · split at h
    · cases h
    · next sig ht hs => exact ⟨sig, ht, hs, h⟩

/-! ## 3. Can one signature serve two transactions? -/

/-- The hash type a signature carries in its last byte. -/
def sigHashType (vchSig : Valtype) : Int32 := Int32.ofNat ((vchSig.getLast?.getD 0).toNat)

variable (K) in
/-- An input of a transaction that is not a coinbase, with a signature `CheckSig` accepted for
it, from any cache a run of calls can leave. -/
structure SignedInput where
  txTo : CTransaction
  nIn : Nat
  scriptCode : CScript
  vchSig : Valtype
  vchPubKey : Valtype
  nHashType : Int32
  fNoCache : Bool
  nMaxCacheSize : Int
  rnd : Nat → Nat
  cache : SigCache
  notCoinBase : txTo.isCoinBase = false
  cacheReachable : CacheReachable K cache
  accepted : (checkSigCached K nMaxCacheSize rnd cache vchSig vchPubKey scriptCode txTo nIn
    nHashType fNoCache).1 = true

namespace SignedInput

/-- The bytes hashed for the signature, if any. -/
def preimage (a : SignedInput K) : Option (List UInt8) :=
  sighashPreimage K a.scriptCode a.txTo a.nIn (sigHashType a.vchSig)

/-- The signature hash. -/
def sighash (a : SignedInput K) : UInt256 :=
  signatureHash K a.scriptCode a.txTo a.nIn (sigHashType a.vchSig)

/-- Is the signature hash the constant one? -/
def IsConstant (a : SignedInput K) : Prop :=
  ConstantSighash a.txTo a.nIn (sigHashType a.vchSig)

theorem preimage_eq_none_iff (a : SignedInput K) : a.preimage = none ↔ a.IsConstant :=
  sighashPreimage_eq_none_iff K

variable {a : SignedInput K}

theorem sighash_of_preimage {b : List UInt8} (h : a.preimage = some b) :
    a.sighash = K.hash b := by
  have h' : sighashPreimage K a.scriptCode a.txTo a.nIn (sigHashType a.vchSig) = some b := h
  simp only [sighash, signatureHash, h']

theorem sighash_of_isConstant (h : a.IsConstant) : a.sighash = 1 := by
  have h' : sighashPreimage K a.scriptCode a.txTo a.nIn (sigHashType a.vchSig) = none :=
    a.preimage_eq_none_iff.mpr h
  simp only [sighash, signatureHash, h']

end SignedInput

/-- What is asked of the hash at the preimages of two inputs: that they do not collide, and
that neither hits the constant which stands for "nothing was hashed". -/
structure SighashResists (a b : SignedInput K) : Prop where
  inj : ∀ x ∈ a.preimage, ∀ y ∈ b.preimage, K.hash x = K.hash y → x = y
  ne_one_left : ∀ x ∈ a.preimage, K.hash x ≠ 1
  ne_one_right : ∀ y ∈ b.preimage, K.hash y ≠ 1

/-- **When a signature fixes the transaction.**  Two accepted inputs of transactions with
different ids have different signature hashes, unless both are on a path that hashes
nothing. -/
theorem sighash_ne_iff_not_both_constant (a b : SignedInput K)
    (hne : a.txTo.getHash K ≠ b.txTo.getHash K) (hres : SighashResists a b) :
    a.sighash ≠ b.sighash ↔ ¬ (a.IsConstant ∧ b.IsConstant) := by
  constructor
  · rintro hs ⟨ha, hb⟩
    exact hs ((SignedInput.sighash_of_isConstant ha).trans
      (SignedInput.sighash_of_isConstant hb).symm)
  · intro hnot
    cases ha : a.preimage with
    | none =>
      have hca := a.preimage_eq_none_iff.mp ha
      cases hb : b.preimage with
      | none => exact absurd ⟨hca, b.preimage_eq_none_iff.mp hb⟩ hnot
      | some y =>
        rw [SignedInput.sighash_of_isConstant hca, SignedInput.sighash_of_preimage hb]
        exact (hres.ne_one_right y hb).symm
    | some x =>
      rw [SignedInput.sighash_of_preimage ha]
      cases hb : b.preimage with
      | none =>
        rw [SignedInput.sighash_of_isConstant (b.preimage_eq_none_iff.mp hb)]
        exact hres.ne_one_left x ha
      | some y =>
        rw [SignedInput.sighash_of_preimage hb]
        exact fun heq =>
          preimage_ne K a.notCoinBase b.notCoinBase hne ha hb (hres.inj x ha y hb heq)

/-- A transaction with two inputs and one output. -/
def twoInOneOut (nTime : UInt32) : CTransaction :=
  ⟨1, nTime, [⟨⟨7, 0⟩, [], 0xffffffff⟩, ⟨⟨8, 0⟩, [], 0xffffffff⟩],
    [⟨100000000, Color.brk.toInt32, []⟩], 0, [], 0⟩

/-- A byte string with the form of a compressed public key. -/
def samplePubKey : Valtype := 2 :: List.replicate 32 1

/-- The second input of `twoInOneOut nTime`, with a signature accepted for it. -/
def signSecondInput (signed : List (List UInt8 × UInt256 × List UInt8)) (nTime : UInt32)
    (vchSig : Valtype)
    (accepted : (checkSigCached (Crypto.sample signed) 50000 id [] vchSig samplePubKey []
      (twoInOneOut nTime) 1 0 true).1 = true) : SignedInput (Crypto.sample signed) where
  txTo := twoInOneOut nTime
  nIn := 1
  scriptCode := []
  vchSig := vchSig
  vchPubKey := samplePubKey
  nHashType := 0
  fNoCache := true
  nMaxCacheSize := 50000
  rnd := id
  cache := []
  notCoinBase := rfl
  cacheReachable := .empty
  accepted := accepted

/-- The key signs both transactions whole, under `SIGHASH_ALL`. -/
def signedAll : List (List UInt8 × UInt256 × List UInt8) :=
  [(samplePubKey, (twoInOneOut 1).getHash (Crypto.sample []), [0x30]),
   (samplePubKey, (twoInOneOut 2).getHash (Crypto.sample []), [0x31])]

/-- The second check of a signature finds it in the cache. -/
theorem checkSigCached_eq_second :
    let K := Crypto.sample signedAll
    let cache := (checkSigCached K 50000 id [] [0x30, 1] samplePubKey [] (twoInOneOut 1) 1 0 false).2
    cache ≠ [] ∧
      (checkSigCached K 50000 id cache [0x30, 1] samplePubKey [] (twoInOneOut 1) 1 0 false).1 =
        checkSig K [0x30, 1] samplePubKey [] (twoInOneOut 1) 1 0 :=
  ⟨by decide, checkSigCached_eq (.call .empty ..) ..⟩

theorem sighashAll_tells_apart :
    let a := signSecondInput signedAll 1 [0x30, 1] (by decide)
    let b := signSecondInput signedAll 2 [0x31, 1] (by decide)
    a.sighash ≠ b.sighash ↔ ¬ (a.IsConstant ∧ b.IsConstant) :=
  sighash_ne_iff_not_both_constant _ _ (by decide)
    ⟨by decide, by decide, by decide⟩

/-- **One signature, two transactions.**  The key made a single signature, on the constant; it
is accepted for the second input of two transactions with different ids, neither of which has
a second output. -/
theorem sighashSingle_serves_two_txids :
    let K := Crypto.sample [(samplePubKey, 1, [0x30])]
    ∃ a b : SignedInput K, a.vchSig = b.vchSig ∧ a.vchPubKey = b.vchPubKey ∧
      a.sighash = b.sighash ∧ a.txTo.getHash K ≠ b.txTo.getHash K :=
  ⟨signSecondInput _ 1 [0x30, 3] (by decide), signSecondInput _ 2 [0x30, 3] (by decide),
    rfl, rfl, by decide, by decide⟩

end Breakout
