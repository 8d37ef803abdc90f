/-
# Who may sign a proof-of-stake block

The key a block signature is checked against is taken from one of four places: the staked output, the
script of the coinstake's first input, or the second output of the coinstake, which pays to a key or has
one behind `OP_RETURN`.  Which one it is depends on the shape of the script of the first input, and
nobody signs that script.

What binds the choice is the other check.  `CheckProofOfStake` verifies the first input, so the owner of
the staked output has signed the coinstake.  An input whose script has the shape of a signature and a
key leaves just these two; and a signature is never a key.  So the block is signed by the
owner, or by a key that is named in what the owner signed (`block_signer`).  The signature hash starts
with the id of the coinstake, so that whatever its hash type the second output is fixed.
-/
import Breakout.Kernel
import Breakout.StandardScripts

namespace Breakout

open Lib

variable (K : Crypto)

/-! ## 1. Keys -/

/-- A signature scheme nobody forges: whoever has signed what, a signature that verifies was made. -/
structure SoundScheme where
  Signed : Valtype → UInt256 → Prop
  sound : ∀ vchPubKey hash vchSig, pubKeyVerify K vchPubKey hash vchSig = true →
    Signed vchPubKey hash

/-- The owner of the key has signed the transaction, at its first input. -/
def SoundScheme.SignedTx {K : Crypto} (S : SoundScheme K) (vchPubKey : Valtype) (tx : CTransaction) :
    Prop :=
  ∃ scriptCode nHashType, S.Signed vchPubKey (signatureHash K scriptCode tx 0 nHashType)

/-- The output pays to a key, or to the hash of one. -/
def PaysToKey (script : CScript) : Prop :=
  ∃ sols, solver script = (true, .pubkey, sols) ∨ solver script = (true, .pubkeyhash, sols)

/-- A key that the output pays to. -/
inductive OwnKey (script : CScript) (vchPubKey : Valtype) : Prop where
  | pubkey (h : solver script = (true, .pubkey, [vchPubKey]))
  | pubkeyhash (h : solver script = (true, .pubkeyhash, [hash160 K vchPubKey]))

/-- A key that the output names: it pays to it, or has it behind `OP_RETURN`. -/
inductive NamesKey (script : CScript) (vchPubKey : Valtype) : Prop where
  | pubkey (h : solver script = (true, .pubkey, [vchPubKey]))
  | opReturn {vch pc rest : CScript} {opcode : UInt8} (h : getOp script = some (opReturn, vch, pc))
      (hpush : getOp pc = some (opcode, vchPubKey, rest))

/-- The block signature verifies under the key. -/
def SignedBy (block : CBlock) (vchPubKey : Valtype) : Prop :=
  ∃ hash, block.getHash K = .ok hash ∧ pubKeyVerify K vchPubKey hash block.vchBlockSig = true

/-- The output that the first input of the transaction spends, as the store has it. -/
def KernelOutput (st : TxStore) (tx : CTransaction) (txout : CTxOut) : Prop :=
  ∃ txin txPrev idx, tx.vin.head? = some txin ∧
    readFromDisk st.txdb st.disk txin.prevout = some (txPrev, idx) ∧
    txPrev.vout[txin.prevout.n.toNat]? = some txout

variable {K} {S : SoundScheme K} {block : CBlock} {coinstake : CTransaction} {txin : CTxIn}
  {txout out1 : CTxOut} {st : TxStore} {script : CScript} {vchPubKey : Valtype}

/-! ## 2. What the owner has signed -/

variable {fTestNet : Bool} {bnStakeModifier : UInt256} {node : StakeNode} {nBits : UInt32}
  {proof : UInt256 × UInt256} {vchSig vch : Valtype} {scriptSig : CScript}

/-- An accepted kernel verifies against the output it spends. -/
theorem checkProofOfStake_verifies
    (h : checkProofOfStake K fTestNet bnStakeModifier node coinstake nBits = .ok proof)
    (hkernel : KernelOutput node.store coinstake txout) (hin : coinstake.vin.head? = some txin) :
    verifyScript K ⟨coinstake, 0, 0, 0⟩ txin.scriptSig txout.scriptPubKey = true := by
  obtain ⟨txin', txPrev, idx, hin', hread, hout⟩ := hkernel
  rw [hin] at hin'
  obtain rfl := Option.some_inj.mp hin'
  unfold checkProofOfStake at h
  cases hvin : coinstake.vin with
  | nil => simp [hvin] at hin
  | cons first ins =>
    rw [hvin, List.head?_cons, Option.some_inj] at hin
    subst hin
    simp only [hvin, hread, bind_eq_ok, refuse_eq_ok, Bool.not_eq_false] at h
    obtain ⟨-, -, -, hverify, -⟩ := h
    unfold verifySignature at hverify
    simp only [hvin, List.getElem?_cons_zero, hout] at hverify
    split at hverify
    · cases hverify
    · exact hverify

/-- A signature that checks was made by the owner of the key. -/
theorem SoundScheme.signedTx {scriptCode : CScript}
    (h : checkSig K vchSig vchPubKey scriptCode coinstake 0 0 = true) :
    S.SignedTx vchPubKey coinstake := by
  obtain ⟨sig, nHashType, -, hverify⟩ := checkSig_eq_true h
  exact ⟨scriptCode, nHashType, S.sound _ _ _ hverify⟩

/-- **The owner of the kernel output has signed the coinstake.** -/
theorem owner_signed (S : SoundScheme K) (hpays : PaysToKey script)
    (hverify : verifyScript K ⟨coinstake, 0, 0, 0⟩ txin.scriptSig script = true) :
    ∃ owner, OwnKey K script owner ∧ S.SignedTx owner coinstake := by
  obtain ⟨sols, hsolver | hsolver⟩ := hpays
  · obtain ⟨key, rfl, hpay⟩ := payToPubKey_of_solver hsolver
    obtain ⟨vchSig, r, scriptCode, -, -, hsig⟩ := verifyScript_pubkey hpay hverify
    exact ⟨key, .pubkey hsolver, SoundScheme.signedTx hsig⟩
  · obtain ⟨hash, rfl, hpay⟩ := payToPubKeyHash_of_solver hsolver
    obtain ⟨key, vchSig, r, scriptCode, -, rfl, hsig⟩ := verifyScript_pubkeyhash hpay hverify
    exact ⟨key, .pubkeyhash hsolver, SoundScheme.signedTx hsig⟩

/-! ## 3. The script of the first input -/

/-- A signature has the wrong header for a key. -/
theorem not_isValidPubKey (h : checkSignatureEncoding vch 0 = true) :
    isValidPubKey vch = false := by
  have hheader : vch.getD 0 0 = 0x30 := by
    unfold checkSignatureEncoding at h
    have hflag : hasFlag 0 scriptVerifyAllowEmptySig = false := by decide
    rw [hflag, Bool.false_and, Bool.false_or, Bool.and_eq_true, isLowDERSignature,
      Bool.and_eq_true, isDERSignature] at h
    simp only [Bool.and_eq_true, beq_iff_eq] at h
    exact h.1.1.1.1.1.1.1.2
  cases vch with
  | nil => rfl
  | cons b rest =>
    rw [List.getD_cons_zero] at hheader
    subst hheader
    rw [isValidPubKey]
    exact decide_eq_false fun hlen => absurd hlen.1 (by decide)

theorem ne_nil_of_checkSignatureEncoding (h : checkSignatureEncoding vch 0 = true) :
    vch ≠ [] := by
  rintro rfl
  revert h
  decide

/-- What a script with the shape of a signature and a key consists of. -/
theorem getScriptSigType_p2pkh (h : getScriptSigType scriptSig = .p2pkh) :
    ∃ opcode₁ vchSig pc opcode₂ key, getOp scriptSig = some (opcode₁, vchSig, pc) ∧
      checkSignatureEncoding vchSig 0 = true ∧ getOp pc = some (opcode₂, key, []) ∧
      (key.length = 33 ∨ key.length = 65) := by
  unfold getScriptSigType at h
  split at h
  · cases h
  · next opcode₁ vchSig pc hfirst =>
    split_ifs at h with hencoding hend
    split at h
    · cases h
    · next opcode₂ key pc' hsecond =>
      split_ifs at h with hmore hlen
      rw [not_not] at hmore
      rw [hmore] at hsecond
      exact ⟨opcode₁, vchSig, pc, opcode₂, key, hfirst, Bool.not_eq_false _ ▸ hencoding, hsecond, hlen⟩

/-- The key that is taken from such a script is its second item. -/
theorem getPubKeyFromP2PKH_eq {pc : CScript} {opcode₁ opcode₂ : UInt8} {key found : Valtype}
    (h₁ : getOp scriptSig = some (opcode₁, vchSig, pc)) (h₂ : getOp pc = some (opcode₂, key, []))
    (hne₁ : vchSig ≠ []) (hne₂ : key ≠ []) (h : getPubKeyFromP2PKH scriptSig = some found) :
    found = key := by
  have hlen₁ := getOp_length h₁
  have hlen₂ := getOp_length h₂
  obtain ⟨fuel, hfuel⟩ : ∃ fuel, scriptSig.length = fuel + 2 := ⟨scriptSig.length - 2, by
    rw [List.length_nil] at hlen₂
    omega⟩
  have hnotend : ∀ {s : CScript} {r}, getOp s = some r → s ≠ [] := by
    rintro s r hs rfl
    cases hs
  have hpush : ∀ {opcode : UInt8}, opcode ≤ opPushdata4 → ¬ opcode > op16 :=
    fun hle hgt => absurd (UInt8.lt_of_lt_of_le hgt hle) (by decide)
  have hnil : pushedItems fuel [] = some [] := by
    cases fuel with
    | zero => rfl
    | succ fuel => rw [pushedItems, if_pos rfl]
  have hitems : pushedItems scriptSig.length scriptSig = some [vchSig, key] := by
    rw [hfuel, pushedItems, if_neg (hnotend h₁), h₁]
    dsimp only
    rw [if_neg (hpush (getOp_push h₁ hne₁)), pushedItems, if_neg (hnotend h₂), h₂]
    dsimp only
    rw [if_neg (hpush (getOp_push h₂ hne₂)), hnil]
    rfl
  unfold getPubKeyFromP2PKH at h
  rw [hitems] at h
  dsimp only at h
  split_ifs at h
  exact (Option.some_inj.mp h).symm

/-- **The key in the script of the first input is the owner's**, if a block signature verifies under
it. -/
theorem ownKey_of_p2pkh (hpays : PaysToKey script)
    (hverify : verifyScript K ⟨coinstake, 0, 0, 0⟩ txin.scriptSig script = true)
    (htype : getScriptSigType txin.scriptSig = .p2pkh)
    (hkey : getPubKeyFromP2PKH txin.scriptSig = some vchPubKey) (hvalid : isValidPubKey vchPubKey = true) :
    OwnKey K script vchPubKey := by
  obtain ⟨opcode₁, vchSig, pc, opcode₂, key, h₁, hencoding, h₂, hlen⟩ := getScriptSigType_p2pkh htype
  have hne₁ := ne_nil_of_checkSignatureEncoding hencoding
  have hne₂ : key ≠ [] := by
    rintro rfl
    simp at hlen
  obtain rfl := getPubKeyFromP2PKH_eq h₁ h₂ hne₁ hne₂ hkey
  obtain ⟨sols, hsolver | hsolver⟩ := hpays
  · -- the second item would be the signature
    obtain ⟨owner, rfl, hpay⟩ := payToPubKey_of_solver hsolver
    obtain ⟨sig, r, scriptCode, hstack, hsigEncoding, -⟩ := verifyScript_pubkey hpay hverify
    have htwo := evalScript_two_pushes h₁ h₂ hne₁ hne₂ hstack
    obtain ⟨rfl, -⟩ := List.cons.inj htwo
    rw [not_isValidPubKey hsigEncoding] at hvalid
    cases hvalid
  · obtain ⟨hash, rfl, hpay⟩ := payToPubKeyHash_of_solver hsolver
    obtain ⟨owner, sig, r, scriptCode, hstack, rfl, -⟩ := verifyScript_pubkeyhash hpay hverify
    have htwo := evalScript_two_pushes h₁ h₂ hne₁ hne₂ hstack
    obtain ⟨rfl, -⟩ := List.cons.inj htwo
    exact .pubkeyhash hsolver

/-! ## 4. The block signature -/

theorem signedBy_of_verifyBlockSig (h : verifyBlockSig K block vchPubKey = .ok .sigOk) :
    SignedBy K block vchPubKey :=
  verifyBlockSig_eq_sigOk_iff.mp h

theorem SignedBy.isValidPubKey (h : SignedBy K block vchPubKey) : isValidPubKey vchPubKey = true := by
  obtain ⟨hash, -, hverify⟩ := h
  rw [pubKeyVerify, Bool.and_eq_true] at hverify
  exact hverify.1

/-- The second output of the coinstake names the key. -/
theorem namesKey_of_checkSigVout1 (h : checkSigVout1 K block script = .ok .sigOk) :
    ∃ key, NamesKey script key ∧ SignedBy K block key := by
  unfold checkSigVout1 at h
  split at h
  · cases h
  · next key sols hsolver =>
    obtain ⟨key', hsols, -⟩ := payToPubKey_of_solver hsolver
    obtain ⟨rfl, rfl⟩ := List.cons.inj hsols
    exact ⟨key, .pubkey hsolver, signedBy_of_verifyBlockSig h⟩
  · split at h
    · cases h
    · next opcode vch pc hop =>
      split at h
      · cases h
      · next hreturn =>
        rw [not_not] at hreturn
        subst hreturn
        split at h
        · cases h
        · next opcode' key rest hpush =>
          split at h
          · cases h
          · exact ⟨key, .opReturn hop hpush, signedBy_of_verifyBlockSig h⟩

/-- **The key of a good block signature**, for a kernel that verifies.  `hsame` says that the output
`CheckBlock` reads is the kernel output. -/
theorem key_of_sigOk (hpays : PaysToKey txout.scriptPubKey)
    (hverify : verifyScript K ⟨coinstake, 0, 0, 0⟩ txin.scriptSig txout.scriptPubKey = true)
    (hsame : ∀ txPrev idx prevout, readFromDisk st.txdb st.disk txin.prevout = some (txPrev, idx) →
      txPrev.vout[txin.prevout.n.toNat]? = some prevout → prevout = txout)
    (h : checkSigCoinStake K st block txin out1 = .ok .sigOk) :
    (∃ key, OwnKey K txout.scriptPubKey key ∧ SignedBy K block key) ∨
      ∃ key, NamesKey out1.scriptPubKey key ∧ SignedBy K block key := by
  unfold checkSigCoinStake at h
  split_ifs at h with hfork
  · cases htype : getScriptSigType txin.scriptSig with
    | p2pk =>
      simp only [htype] at h
      obtain ⟨txPrev, idx, prevout, key, sols, hread, hprev, hsolver, hsig⟩ :=
        checkSigP2PK_eq_sigOk_iff.mp h
      obtain rfl := hsame txPrev idx prevout hread hprev
      obtain ⟨key', hsols, -⟩ := payToPubKey_of_solver hsolver
      obtain ⟨rfl, rfl⟩ := List.cons.inj hsols
      exact Or.inl ⟨key, .pubkey hsolver, signedBy_of_verifyBlockSig hsig⟩
    | p2pkh =>
      simp only [htype] at h
      cases hkey : getPubKeyFromP2PKH txin.scriptSig with
      | none => simp [hkey] at h
      | some key =>
        simp only [hkey] at h
        have hsigned := signedBy_of_verifyBlockSig h
        exact Or.inl ⟨key, ownKey_of_p2pkh hpays hverify htype hkey hsigned.isValidPubKey, hsigned⟩
    | unknown =>
      simp only [htype] at h
      exact Or.inr (namesKey_of_checkSigVout1 h)
  · exact Or.inr (namesKey_of_checkSigVout1 h)

/-- The two checks of a block whose coinstake is `coinstake`: the signature that `CheckBlock` accepts,
and the input that `CheckProofOfStake` accepts. -/
theorem key_of_accepted {clock : Clock} (S : SoundScheme K) {coinbase : CTransaction}
    {rest : List CTransaction} (hvtx : block.vtx = coinbase :: coinstake :: rest)
    (hpos : block.isProofOfStake = true)
    (hblock : checkBlock K clock st block true true true = .ok ())
    (hstake : checkProofOfStake K fTestNet bnStakeModifier node coinstake nBits = .ok proof)
    (hkernel : KernelOutput node.store coinstake txout) (hpays : PaysToKey txout.scriptPubKey)
    (hsame : ∀ prevout, KernelOutput st coinstake prevout → prevout = txout) :
    (∃ key, OwnKey K txout.scriptPubKey key ∧ SignedBy K block key) ∨
      ∃ out1 key owner, coinstake.vout[1]? = some out1 ∧ NamesKey out1.scriptPubKey key ∧
        SignedBy K block key ∧ OwnKey K txout.scriptPubKey owner ∧ S.SignedTx owner coinstake := by
  have hsig := (checkBlock_eq_ok_iff.mp hblock).2 hpos
  obtain ⟨_, _, _, txin, ins, out0, out1, outs, hv, hin, hout⟩ := exists_coinstake hpos
  rw [hvtx] at hv
  cases hv
  have hne : block.vchBlockSig ≠ [] := by
    intro hnil
    simp [checkBlockSignature, hpos, hnil] at hsig
  have hhead : coinstake.vin.head? = some txin := by rw [hin, List.head?_cons]
  have hverify := checkProofOfStake_verifies hstake hkernel hhead
  rw [checkBlockSignature_eq hpos hne hvtx hin hout] at hsig
  have hkey := key_of_sigOk hpays hverify
    (fun txPrev idx prevout hread hprev => hsame prevout ⟨txin, txPrev, idx, hhead, hread, hprev⟩) hsig
  rcases hkey with hown | ⟨key, hnames, hsigned⟩
  · exact Or.inl hown
  · obtain ⟨owner, hown, howner⟩ := owner_signed S hpays hverify
    exact Or.inr ⟨out1, key, owner, by rw [hout]; rfl, hnames, hsigned, hown, howner⟩

theorem KernelOutput.unique {txout' : CTxOut} (h : KernelOutput st coinstake txout)
    (h' : KernelOutput st coinstake txout') : txout' = txout := by
  obtain ⟨txin, txPrev, idx, hin, hread, hout⟩ := h
  obtain ⟨txin', txPrev', idx', hin', hread', hout'⟩ := h'
  rw [hin] at hin'
  obtain rfl := Option.some_inj.mp hin'
  rw [hread] at hread'
  cases hread'
  rw [hout] at hout'
  exact (Option.some_inj.mp hout').symm

/-- **Who has signed an accepted proof-of-stake block**: if the kernel output pays to a key or to the
hash of one, the block signature verifies under the output's own key, or under a key that is named in
the second output of the coinstake, and the owner of the kernel output has signed the coinstake. -/
theorem block_signer (K : Crypto) (S : SoundScheme K) (clock : Clock) (bnStakeModifier : UInt256)
    (node : StakeNode) (block : CBlock) (coinbase coinstake : CTransaction)
    (rest : List CTransaction) (nBits : UInt32) (proof : UInt256 × UInt256) (txout : CTxOut)
    (hvtx : block.vtx = coinbase :: coinstake :: rest) (hpos : block.isProofOfStake = true)
    (hblock : checkBlock K clock node.store block true true true = .ok ())
    (hstake : checkProofOfStake K clock.fTestNet bnStakeModifier node coinstake nBits = .ok proof)
    (hkernel : KernelOutput node.store coinstake txout) (hpays : PaysToKey txout.scriptPubKey) :
    (∃ key, OwnKey K txout.scriptPubKey key ∧ SignedBy K block key) ∨
      ∃ out1 key owner, coinstake.vout[1]? = some out1 ∧ NamesKey out1.scriptPubKey key ∧
        SignedBy K block key ∧ OwnKey K txout.scriptPubKey owner ∧ S.SignedTx owner coinstake :=
  key_of_accepted S hvtx hpos hblock hstake hkernel hpays fun _ h => hkernel.unique h

/-! ## 5. A block that is accepted -/

/-- The coinstake of `stakedBlock`. -/
def stakedCoinstake : CTransaction := stakedBlock.vtx.getD 1 stakedTx

/-- The owner of `stakedTx`'s key has signed the block and the coinstake. -/
def bothSigned : List (List UInt8 × UInt256 × List UInt8) :=
  [(samplePubKey, 0, [0x30]),
    (samplePubKey, signatureHash (Crypto.sample []) (0x21 :: samplePubKey ++ [opChecksig]) stakedCoinstake
      0 1, [0x30, 6, 2, 1, 1, 2, 1, 1])]

/-- Nothing is signed but what verifies. -/
def soundSample : SoundScheme (Crypto.sample bothSigned) where
  Signed vchPubKey hash := ∃ vchSig, pubKeyVerify (Crypto.sample bothSigned) vchPubKey hash vchSig = true
  sound _ _ vchSig h := ⟨vchSig, h⟩

/-- A node that has the staked transaction, and builds on a block that does not hold it. -/
def stakingNode : StakeNode where
  store := .single (Crypto.sample bothSigned) stakedTx
  hasBlock _ _ := true
  pindexPrev := { genesisIndex ⟨1, 5, firstFile_notNull⟩ with nTime := 1777836000, nHeight := 600 }
  ancestors := []

/-- What `block_signer` says of `stakedBlock`. -/
theorem block_signer_staked :
    (∃ key, OwnKey (Crypto.sample bothSigned) (0x21 :: samplePubKey ++ [opChecksig]) key ∧
      SignedBy (Crypto.sample bothSigned) stakedBlock key) ∨
    ∃ out1 key owner, stakedCoinstake.vout[1]? = some out1 ∧ NamesKey out1.scriptPubKey key ∧
      SignedBy (Crypto.sample bothSigned) stakedBlock key ∧
      OwnKey (Crypto.sample bothSigned) (0x21 :: samplePubKey ++ [opChecksig]) owner ∧
      soundSample.SignedTx owner stakedCoinstake :=
  block_signer (Crypto.sample bothSigned) soundSample ⟨false, 1777836782⟩ 0 stakingNode stakedBlock
    (stakedBlock.vtx.getD 0 stakedTx) stakedCoinstake [] 0 (0, 0)
    ⟨100000000, Color.brx.toInt32, 0x21 :: samplePubKey ++ [opChecksig]⟩ rfl (by decide)
    (by decide +kernel) (by decide +kernel)
    ⟨⟨⟨stakedTx.getHash (Crypto.sample bothSigned), 0⟩, [9, 0x30, 6, 2, 1, 1, 2, 1, 1, 1], 0⟩, stakedTx,
      .new ⟨1, 0, 0⟩ 1, by decide +kernel, by decide +kernel, rfl⟩
    ⟨[samplePubKey], Or.inl (by decide)⟩

end Breakout
