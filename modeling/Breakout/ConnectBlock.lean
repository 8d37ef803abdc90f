/-
# `ConnectBlock` and `DisconnectBlock`

A block is connected to the tip of a branch in five parts: `CheckBlock` again without the block
signature, a loop over the transactions that spends, enters and adds up, the reward of a
proof-of-work or a proof-of-stake block, the two counters of every colour, and the burned
outputs.  The definitions keep this order; every early exit of the source is a `refuse` at the
place where the source makes it.

Two differences between the branches for the two kinds of blocks matter later and are kept.  The
proof-of-work branch restarts SIS from its money supply at the boundary between the fourth and
the fifth fork (`totalMintPrev`), and the proof-of-stake branch overwrites that with the parent's
own counter.
-/
import Breakout.Inputs

namespace Breakout

open Lib

variable (K : Crypto)

/-! ## 1. The loop over the transactions -/

/-- What stays fixed while a block is connected: `pindex` is its index, `pprev` its parent's and
`ancestors` the parent's ancestors. -/
structure ConnectCtx where
  env : NodeEnv
  txdb : TxDB
  pindex : CBlockIndex
  pprev : CBlockIndex
  ancestors : List CBlockIndex
  fProofOfStake : Bool
  fJustCheck : Bool

/-- What the loop carries. -/
structure ConnectState where
  mapQueuedChanges : TxDB
  vFees : Color → Int64
  vValueIn : Color → Int64
  vValueOut : Color → Int64
  nMintValue : Int64
  nMintColor : Int32
  nSigOps : Nat
  nTxPos : UInt32

def scriptVerifyNocache : UInt32 := 1

/-- The flags a block's scripts are verified with. -/
def blockScriptFlags : UInt32 := scriptVerifyNocache ||| standardScriptVerifyFlags

/-- The checks a coinstake gets in a block. -/
def checkCoinStake (tx : CTransaction) (mapValuesIn mapValuesOut : ColorsMap) : Run Unit :=
  if tx.isCoinStake then do
    refuse (0 < mapValuesOut.get tx.getColor - mapValuesIn.get tx.getColor) 100
      "ConnectBlock() : CoinStake reward is greater than 0"
    refuse (tx.vout.length > 101) 100 "ConnectBlock() : Too many CoinStake outputs"
    refuse (∃ txout ∈ tx.vout.tail, txout.nValue = 0) 100 "ConnectBlock() : CoinStake output is 0"
  else .ok ()

/-- The fees of one transaction, colour by colour. -/
def addFees (mapValuesIn mapValuesOut : ColorsMap) :
    List Color → (Color → Int64) → Run (Color → Int64)
  | [], vFees => .ok vFees
  | c :: colors, vFees =>
    if scavengable c = false then addFees mapValuesIn mapValuesOut colors vFees
    else do
      refuse (mapValuesIn.get c.toInt32 - mapValuesOut.get c.toInt32 < 0) 100
        "ConnectBlock() : outputs exceeds inputs"
      addFees mapValuesIn mapValuesOut colors
        (Function.update vFees c
          (vFees c + (mapValuesIn.get c.toInt32 - mapValuesOut.get c.toInt32)))

/-- The branch for the coinbase; all that a proof-of-stake block mints is its first output. -/
def connectCoinBase (ctx : ConnectCtx) (s : ConnectState) (tx : CTransaction) :
    Run ConnectState :=
  match tx.vout with
  | [] => .error (.oob 0)
  | out0 :: rest => do
    refuse (ctx.fProofOfStake = true ∧ rest ≠ []) 100 "ConnectBlock() : PoS tx has >1 outputs"
    return { s with nMintValue := out0.nValue, nMintColor := out0.nColor }

/-- The branch for every other transaction. -/
def connectSpender (ctx : ConnectCtx) (s : ConnectState) (tx : CTransaction)
    (posThisTx : CDiskTxPos) : Run ConnectState := do
  let mapInputs ← fetchInputs ctx.env (s.mapQueuedChanges.over ctx.txdb) tx
  let nP2SHSigOps ← tx.getP2SHSigOpCount mapInputs
  refuse (s.nSigOps + nP2SHSigOps > maxBlockSigops) 100 "ConnectBlock() : too many sigops"
  let mapValuesIn ← tx.fillValuesIn mapInputs
  let vValueIn ← tally mapValuesIn.mapAmounts s.vValueIn
  checkCoinStake tx mapValuesIn (tx.fillValuesOut false)
  let vFees ← addFees mapValuesIn (tx.fillValuesOut false) realColors s.vFees
  let queued ← connectInputs K ctx.env.clock.fTestNet tx mapInputs s.mapQueuedChanges posThisTx
    ctx.pindex (ctx.pprev :: ctx.ancestors) blockScriptFlags
  return { s with
    mapQueuedChanges := queued
    vFees := vFees
    vValueIn := vValueIn
    nSigOps := s.nSigOps + nP2SHSigOps }

/-- `if (tx.IsCoinBase()) … else …` -/
def connectBranch (ctx : ConnectCtx) (s : ConnectState) (tx : CTransaction)
    (posThisTx : CDiskTxPos) : Run ConnectState :=
  if tx.isCoinBase then connectCoinBase ctx s tx else connectSpender K ctx s tx posThisTx

/-- The state with the outputs of `tx` counted and the position moved past it. -/
def ConnectState.advance (s : ConnectState) (fJustCheck : Bool) (tx : CTransaction)
    (vValueOut : Color → Int64) : ConnectState :=
  { s with
    vValueOut := vValueOut
    nSigOps := s.nSigOps + tx.getLegacySigOpCount
    nTxPos := if fJustCheck then s.nTxPos else s.nTxPos + UInt32.ofNat tx.serialize.length }

/-- The body of the loop. -/
def connectTx (ctx : ConnectCtx) (s : ConnectState) (tx : CTransaction) : Run ConnectState := do
  refuse (∃ idx ∈ ctx.txdb (tx.getHash K), ∃ pos ∈ idx.vSpent, pos.isNull = true) 100
    "ConnectBlock() : tried to overwrite transaction"
  refuse (s.nSigOps + tx.getLegacySigOpCount > maxBlockSigops) 100
    "ConnectBlock() : too many sigops"
  refuse (∃ txout ∈ tx.vout, checkColor txout.nColor = false) 100
    "ConnectBlock() : invalid color for output"
  let vValueOut ← tally (tx.fillValuesOut false).mapAmounts s.vValueOut
  let posThisTx : CDiskTxPos := ⟨ctx.pindex.nFile, ctx.pindex.nBlockPos, s.nTxPos⟩
  let s' ← connectBranch K ctx (s.advance ctx.fJustCheck tx vValueOut) tx posThisTx
  return { s' with
    mapQueuedChanges := s'.mapQueuedChanges.update (tx.getHash K) (.new posThisTx tx.vout.length) }

/-- The loop. -/
def connectTxs (ctx : ConnectCtx) : List CTransaction → ConnectState → Run ConnectState
  | [], s => .ok s
  | tx :: vtx, s => do
    let s' ← connectTx K ctx s tx
    connectTxs ctx vtx s'

/-! ## 2. What the block mints -/

/-- "some clients had negative vTotalMint so do a hard reset" -/
def fReset (pprev pindex : CBlockIndex) : Bool :=
  decide (getFork pprev.nTime.toNat = .fork004 ∧ getFork pindex.nTime.toNat = .fork005)

/-- The total the parent has minted of a colour, after the reset. -/
def totalMintPrev (pprev pindex : CBlockIndex) (c : Color) : Int64 :=
  if c = .sis ∧ fReset pprev pindex = true then pprev.vMoneySupply c else pprev.vTotalMint c

/-- What a proof-of-work block may mint again of a colour: coins that were minted and lost. -/
def vScavengedFees (pprev pindex : CBlockIndex) (c : Color) : Int64 :=
  if c ≠ .none ∧ scavengable c = true then totalMintPrev pprev pindex c - pprev.vMoneySupply c
  else 0

/-- The outputs of a proof-of-work coinbase past the first: fees, and not in the reward's
colour. -/
def checkCoinBaseFees (reward : Color) (vFees : Color → Int64) : List (Int32 × Int64) → Run Unit
  | [] => .ok ()
  | (n, x) :: rest => do
    refuse (n = reward.toInt32) 100 "ConnectBlock() : reward currency in non-coinbase output"
    let c ← tableIndex n
    refuse (x > vFees c) 100 "ConnectBlock() : fees exceeded for currency"
    checkCoinBaseFees reward vFees rest

/-- `if (IsProofOfWork())`: the totals it leaves. -/
def connectWork (pprev pindex : CBlockIndex) (coinbase : CTransaction) (vFees : Color → Int64) :
    Run (Color → Int64) :=
  let reward := getProofOfWorkReward pprev
  match coinbase.vout with
  | [] => .error (.oob 0)
  | out0 :: _ => do
    refuse (coinbase.getColor ≠ reward.nColor.toInt32) 100
      "ConnectBlock() : coinbase currency is wrong"
    refuse (out0.nValue > reward.nValue + vFees reward.nColor) 100
      "ConnectBlock() : coinbase reward exceeded"
    checkCoinBaseFees reward.nColor vFees (coinbase.fillValuesOut true).mapAmounts
    return Function.update (totalMintPrev pprev pindex) reward.nColor
      (totalMintPrev pprev pindex reward.nColor + reward.nValue)

/-- `if (IsProofOfStake())`: the totals it leaves. -/
def connectStake (pprev pindex : CBlockIndex) (coinstake : CTransaction) (nMintValue : Int64)
    (nMintColor : Int32) : Run (Color → Int64) := do
  refuse (checkColor coinstake.getColor = false) 100
    "ConnectBlock() : stake currency is not valid"
  let stake ← tableIndex coinstake.getColor
  refuse (nMintColor ≠ (mintColor stake).toInt32) 100
    "ConnectBlock() : mint is wrong color for coinstake"
  let reward := getProofOfStakeReward pprev stake
  refuse (nMintValue > reward.nValue) 100 "ConnectBlock() : coinstake pays too much"
  return Function.update (totalMintPrev pprev pindex) reward.nColor
    (pprev.vTotalMint reward.nColor + reward.nValue)

/-- The two counters of every colour. -/
structure Counters where
  vTotalMint : Color → Int64
  vMoneySupply : Color → Int64

/-- A burned output comes off both counters. -/
def Counters.burn (k : Counters) (c : Color) (v : Int64) : Counters where
  vTotalMint := Function.update k.vTotalMint c (k.vTotalMint c - v)
  vMoneySupply := Function.update k.vMoneySupply c (k.vMoneySupply c - v)

/-- The outputs of one transaction: null data is burned, and what is no standard output at all is
refused before the first fork. -/
def burnOutputs (nTime : Nat) : List CTxOut → Counters → Run Counters
  | [], k => .ok k
  | txout :: vout, k =>
    match solver txout.scriptPubKey with
    | (false, _, _) =>
      if getFork nTime < .fork001 then
        .error (.reject 0 "Connect() : cannot connect tx with nonstandard output")
      else burnOutputs nTime vout k
    | (true, .nullData, _) => do
      let c ← tableIndex txout.nColor
      burnOutputs nTime vout (k.burn c txout.nValue)
    | (true, _, _) => burnOutputs nTime vout k

/-- The outputs of all transactions. -/
def burnTxs : List CTransaction → Counters → Run Counters
  | [], k => .ok k
  | tx :: vtx, k => do
    let k' ← burnOutputs tx.nTime.toNat tx.vout k
    burnTxs vtx k'

/-- "check for unspendable outputs to adjust money supply and total mint" -/
def connectBurns (pprev : CBlockIndex) (vtx : List CTransaction) (k : Counters) : Run Counters :=
  if burnProtocolStartTime ≤ pprev.nTime.toNat then burnTxs vtx k else .ok k

/-! ## 3. The whole block -/

/-- The size of a serialised header of a version. -/
def headerSize (nVersion : Int32) : Nat := if nVersion < CBlock.kawpowVersion then 80 else 120

theorem CBlock.length_serializeHeader (block : CBlock) :
    block.serializeHeader.length = headerSize block.nVersion := by
  unfold serializeHeader headerSize
  split <;>
    simp [classicHeader, commonHeader, serInt32, serUInt32, serUInt256]

/-- The state the loop starts in.  The first position is computed from the size of an empty block
of the index's version. -/
def ConnectState.init (nAdjustedTime : Nat) (pindex : CBlockIndex) (fJustCheck : Bool)
    (vtx : List CTransaction) : ConnectState where
  mapQueuedChanges _ := none
  vFees _ := 0
  vValueIn _ := 0
  vValueOut _ := 0
  nMintValue := 0
  nMintColor := Color.none.toInt32
  nSigOps := 0
  nTxPos :=
    if fJustCheck then 1
    else pindex.nBlockPos +
      UInt32.ofNat (headerSize (CBlock.defaultVersion nAdjustedTime pindex.nVersion) +
        (compactSize vtx.length).length)

/-- What the loop's fees come to once a proof-of-work block has scavenged. -/
def totalFees (ctx : ConnectCtx) (s : ConnectState) (c : Color) : Int64 :=
  if ctx.fProofOfStake then s.vFees c else s.vFees c + vScavengedFees ctx.pprev ctx.pindex c

/-- The reward part for either kind of block. -/
def connectReward (ctx : ConnectCtx) (vtx : List CTransaction) (s : ConnectState) :
    Run (Color → Int64) :=
  match vtx with
  | [] => .error (.oob 0)
  | coinbase :: rest =>
    if ctx.fProofOfStake then
      match rest with
      | [] => .error (.oob 1)
      | coinstake :: _ => connectStake ctx.pprev ctx.pindex coinstake s.nMintValue s.nMintColor
    else connectWork ctx.pprev ctx.pindex coinbase (totalFees ctx s)

/-- The money supply before burning. -/
def moneySupply (ctx : ConnectCtx) (s : ConnectState) (c : Color) : Int64 :=
  if c = .none then ctx.pindex.vMoneySupply c
  else ctx.pprev.vMoneySupply c + s.vValueOut c - s.vValueIn c

/-- What the coinbase paid, as the index records it. -/
def coinbaseAmount (ctx : ConnectCtx) (s : ConnectState) (c : Color) : Int64 :=
  if c = .none then ctx.pindex.vCoinbase c
  else s.vValueOut c - s.vValueIn c + totalFees ctx s c -
    (if ctx.fProofOfStake then 0 else vScavengedFees ctx.pprev ctx.pindex c)

/-- The index of the block as it is written. -/
def finishIndex (ctx : ConnectCtx) (vtx : List CTransaction) (s : ConnectState) (k : Counters) :
    CBlockIndex :=
  let colorAt := fun i => ((vtx[i]?).map (·.getColor)).getD Color.none.toInt32
  { ctx.pindex with
    vTotalMint := k.vTotalMint
    vMoneySupply := k.vMoneySupply
    vCoinbase := coinbaseAmount ctx s
    nStakeColor := if ctx.fProofOfStake then colorAt 1 else Color.none.toInt32
    nCoinbaseColor := colorAt 0 }

/-- The index to write and the changes to the database, before anything is written. -/
def connectBody (ctx : ConnectCtx) (block : CBlock) : Run (CBlockIndex × TxDB) := do
  checkBlock K ctx.env.clock ⟨ctx.txdb, ctx.env.disk⟩ block (!ctx.fJustCheck) (!ctx.fJustCheck) false
  let s ← connectTxs K ctx block.vtx
    (.init ctx.env.clock.nAdjustedTime ctx.pindex ctx.fJustCheck block.vtx)
  let vTotalMint ← connectReward ctx block.vtx s
  let k ← connectBurns ctx.pprev block.vtx ⟨vTotalMint, moneySupply ctx s⟩
  return (finishIndex ctx block.vtx s k, s.mapQueuedChanges)

/-- `CBlock::ConnectBlock`: the index it leaves and the database it leaves. -/
def connectBlock (env : NodeEnv) (txdb : TxDB) (pindex pprev : CBlockIndex)
    (ancestors : List CBlockIndex) (block : CBlock) (fJustCheck : Bool) :
    Run (CBlockIndex × TxDB) := do
  let (pindex', queued) ← connectBody K
    ⟨env, txdb, pindex, pprev, ancestors, block.isProofOfStake, fJustCheck⟩ block
  refuse (fJustCheck = false ∧ env.fExplore = false) 0
    "ConnectBlock() : ExploreConnectBlock failed"
  return (pindex', if fJustCheck then txdb else queued.over txdb)

/-! ## 4. `DisconnectBlock` -/

/-- The loop, over the transactions last to first. -/
def disconnectTxs : List CTransaction → TxDB → Run TxDB
  | [], txdb => .ok txdb
  | tx :: vtx, txdb => do
    let txdb' ← disconnectInputs K txdb tx
    disconnectTxs vtx txdb'

/-- `CBlock::DisconnectBlock`: the database it leaves. -/
def disconnectBlock (env : NodeEnv) (txdb : TxDB) (block : CBlock) : Run TxDB := do
  let txdb' ← disconnectTxs K block.vtx.reverse txdb
  refuse (env.fExplore = false) 0 "DisconnectBlock() : ExploreDisconnectBlock failed"
  return txdb'

end Breakout
