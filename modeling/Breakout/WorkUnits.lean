/-
# Work units that share a block

`getwork` and `getworkex` hand out the eighty bytes of a header, padded, the bytes of each word in
reverse order.  Under the merkle root they remember the block and the script that its coinbase had.
A submission finds the block by the root, writes its time, its nonce and the script remembered into
it, and builds the root again.  So all units of a tip share the few blocks that were made for it,
and each of them can be rebuilt as long as these blocks differ from what they were in nothing but
what a submission writes.

Three things go wrong.  `getwork` clears `pindexPrev` and then gives it to `CreateNewBlock`, which
reads its height: no request for work gets past that (`getwork_null`).  `getworkex` sets
`pindexPrev` before it has a block, so the request after one that got none updates a block that is
not there.  And a coinbase that comes with a submission takes the place of the block's own, with
which the older units of the block were made.

`serves_of_careful` says that nothing else does: in a run without requests to `getwork`, in which
`getworkex` is not asked again when it has no block, the coinbases that are sent change the script
alone and the tip does not come back to a block whose units were dropped, every unit of the tip is
rebuilt.

Calls that are refused before anything is touched (no connections, initial download) are left out.
What a node does meanwhile with `CreateNewBlock`, `IncrementExtraNonce` and the templates is a step
too.
-/
import Breakout.Lib.History
import Breakout.HexTx
import Breakout.Templates
import Mathlib.Logic.Function.Basic

namespace Breakout

open Lib

/-! ## 1. The bytes of a work unit -/

/-- The `tmp.block` of `FormatHashBuffers`. -/
@[ext] structure HashedHeader where
  nVersion : Int32
  hashPrevBlock : UInt256
  hashMerkleRoot : UInt256
  nTime : UInt32
  nBits : UInt32
  nNonce : UInt32
deriving DecidableEq

/-- `ByteReverse` of each word. -/
def byteReverse : List UInt8 → List UInt8
  | a :: b :: c :: d :: rest => d :: c :: b :: a :: byteReverse rest
  | rest => rest

def formatHashBlocks (data : List UInt8) : List UInt8 :=
  let blocks := 1 + (data.length + 8) / 64
  data ++ (0x80 :: (List.replicate (64 * blocks - data.length - 5) 0 ++
    (leBytes 4 (8 * data.length)).reverse))

namespace HashedHeader

def bytes (h : HashedHeader) : List UInt8 :=
  serInt32 h.nVersion ++ (serUInt256 h.hashPrevBlock ++ (serUInt256 h.hashMerkleRoot ++
    (serUInt32 h.nTime ++ (serUInt32 h.nBits ++ serUInt32 h.nNonce))))

/-- `FormatHashBuffers`, the bytes of `pdata`. -/
def data (h : HashedHeader) : List UInt8 := byteReverse (formatHashBlocks h.bytes)

/-- `(CBlock*) &vchData[0]`, as far as it is read. -/
def read (s : List UInt8) : Option HashedHeader := do
  let (nVersion, s) ← readInt32 s
  let (hashPrevBlock, s) ← readUInt256 s
  let (hashMerkleRoot, s) ← readUInt256 s
  let (nTime, s) ← readUInt32 s
  let (nBits, s) ← readUInt32 s
  let (nNonce, _) ← readUInt32 s
  return ⟨nVersion, hashPrevBlock, hashMerkleRoot, nTime, nBits, nNonce⟩

/-- `pdata` of a submission. -/
def ofSubmission (vchData : List UInt8) : Option HashedHeader :=
  if vchData.length = 128 then read (byteReverse vchData) else none

end HashedHeader

theorem byteReverse_byteReverse (s : List UInt8) : byteReverse (byteReverse s) = s := by
  fun_induction byteReverse s with
  | case1 a b c d rest ih => rw [byteReverse, ih]
  | case2 rest hshort => rw [byteReverse.eq_2 rest hshort]

theorem length_byteReverse (s : List UInt8) : (byteReverse s).length = s.length := by
  fun_induction byteReverse s with
  | case1 a b c d rest ih => simp only [List.length_cons, ih]
  | case2 rest hshort => rfl

namespace HashedHeader

theorem length_bytes (h : HashedHeader) : h.bytes.length = 80 := by
  simp only [bytes, serInt32, serUInt256, serUInt32, List.length_append, length_leBytes]

theorem length_data (h : HashedHeader) : h.data.length = 128 := by
  rw [data, length_byteReverse, formatHashBlocks]
  simp only [List.length_append, List.length_cons, List.length_replicate, List.length_reverse,
    length_leBytes, length_bytes]

/-- The header is read back from the work unit. -/
theorem ofSubmission_data (h : HashedHeader) : ofSubmission h.data = some h := by
  rw [ofSubmission, if_pos h.length_data, data, byteReverse_byteReverse, formatHashBlocks, bytes]
  simp only [List.append_assoc, read, bind, Option.bind_some, readInt32_ser, readUInt256_ser,
    readUInt32_ser]
  rfl

end HashedHeader

/-! ## 2. Blocks and their coinbases -/

namespace CBlock

/-- The header that a work unit carries. -/
def hashedHeader (block : CBlock) : HashedHeader :=
  ⟨block.nVersion, block.hashPrevBlock, block.hashMerkleRoot, block.nTime, block.nBits,
    block.nNonce⟩

/-- `pblock->vtx[0].vin[0].scriptSig`, if there is one. -/
def scriptSig0 (block : CBlock) : Option CScript :=
  (block.vtx.head?.bind (·.vin.head?)).map (·.scriptSig)

/-- "give it 12 seconds for a new getwork" -/
def Aged (fTestNet : Bool) (block : CBlock) : Prop :=
  ∃ coinbase ∈ block.vtx.head?,
    futureDrift fTestNet coinbase.nTime.toNat + 12 ≤ block.nTime.toNat

instance (fTestNet : Bool) (block : CBlock) : Decidable (block.Aged fTestNet) :=
  inferInstanceAs (Decidable (∃ _ ∈ _, _))

/-- The block of a submission with the script remembered, if it has an input for it. -/
def rebuild (K : Crypto) (scriptSig : CScript) (block : CBlock) : Option CBlock :=
  if block.scriptSig0 = none then none else some ((block.withScriptSig scriptSig).withRoot K)

/-- The block with another coinbase read over its own.  `torn` is what a read leaves that fails. -/
def withCoinbase (torn : CTransaction → List UInt8 → CTransaction) (coinbase : List UInt8)
    (block : CBlock) : CBlock :=
  { block with
    vtx := block.vtx.modifyHead fun tx =>
      match CTransaction.unserialize coinbase with
      | some (txNew, _) => txNew
      | none => torn tx coinbase }

/-- The mix hash that `CheckWork` may have written. -/
def withMix (mixHash : Option UInt256) (block : CBlock) : CBlock :=
  { block with mixHash := mixHash.getD block.mixHash }

end CBlock

/-- What `CreateNewBlock` puts together: a coinbase with one input, the transactions of the pool,
the target, and the time before it is brought up to date. -/
structure Assembled where
  coinbase : CTransaction
  vtx : List CTransaction
  nBits : UInt32
  nTime : UInt32
  vinSingle : coinbase.vin.length = 1

/-- The block, its header not filled in. -/
def Assembled.block (a : Assembled) : CBlock :=
  ⟨CBlock.kawpowVersion, 0, 0, a.nTime, a.nBits, 0, 0, 0, 0, a.coinbase :: a.vtx, []⟩

/-! ## 3. The calls -/

/-- The two calls, each with statics of its own. -/
inductive WorkCall where
  | getwork
  | getworkex
deriving DecidableEq

/-- The statics of a call.  A block is its place in `vNewBlock`. -/
structure WorkStatics where
  mapNewBlock : UInt256 → Option (Nat × CScript)
  vNewBlock : List CBlock
  nTransactionsUpdatedLast : UInt32
  pindexPrev : Option TipIndex
  nStart : Int
  pblock : Option Nat
  nExtraNonce : UInt32

/-- What a request meets: the count of the pool's changes, `GetTime()`, the adjusted time in
`CreateNewBlock` and at the update, the past limit of the tip, and what is put together. -/
structure WorkRequest where
  nTransactionsUpdated : UInt32
  nTime : Int
  nTimeCreated : Nat
  nTimeUpdated : Nat
  nPastTimeLimit : Nat
  assembled : Option Assembled

/-- A work unit that was handed out: by which call, for which tip, with which header. -/
structure WorkUnit where
  call : WorkCall
  tip : TipIndex
  header : HashedHeader

/-- How the program ends. -/
inductive BadAccess where
  | null
  | pastEnd
deriving DecidableEq

/-- The statics of both calls and the templates, where the best block is.

The last two fields are not in the program: the units handed out, and whether it has ended. -/
structure WorkState where
  statics : WorkCall → WorkStatics
  templates : Templates
  units : List WorkUnit
  ended : Option BadAccess

/-- A step.  The `mixHash` of a submission is the one that `CheckWork` writes, if it does; what
other parts of the node do with the templates, and a change of the tip, is a step of these. -/
inductive WorkStep where
  | getwork (request : WorkRequest)
  | getworkex (request : WorkRequest)
  | submit (vchData : List UInt8) (mixHash : Option UInt256)
  | submitex (vchData coinbase : List UInt8) (mixHash : Option UInt256)
  | templates (op : TemplateStep)

namespace WorkStatics

def initial : WorkStatics := ⟨fun _ => none, [], 0, none, 0, none, 0⟩

/-- `*pblock` -/
def block (w : WorkStatics) : Option CBlock := w.pblock.bind fun i => w.vNewBlock[i]?

/-- "Deallocate old blocks since they're obsolete now" -/
def dropOld (w : WorkStatics) (pindexBest : TipIndex) : WorkStatics :=
  if w.pindexPrev ≠ some pindexBest then { w with mapNewBlock := fun _ => none, vNewBlock := [] }
  else w

/-- The transactions have changed, and the block is more than a minute old. -/
def Late (w : WorkStatics) (request : WorkRequest) : Prop :=
  request.nTransactionsUpdated ≠ w.nTransactionsUpdatedLast ∧ request.nTime - w.nStart > 60

instance (w : WorkStatics) (request : WorkRequest) : Decidable (w.Late request) :=
  inferInstanceAs (Decidable (_ ∧ _))

/-- "Get saved block": its place, the script remembered, and the block with the time and the nonce
of the submission. -/
def saved (w : WorkStatics) (vchData : List UInt8) : Option (Nat × CScript × CBlock) := do
  let pdata ← HashedHeader.ofSubmission vchData
  let (i, scriptSig) ← w.mapNewBlock pdata.hashMerkleRoot
  let block ← w.vNewBlock[i]?
  return (i, scriptSig, { block with nTime := pdata.nTime, nNonce := pdata.nNonce })

end WorkStatics

namespace WorkState

def initial (pindexBest : TipIndex) : WorkState :=
  ⟨fun _ => .initial, .initial pindexBest, [], none⟩

def pindexBest (s : WorkState) : TipIndex := s.templates.pindexBest

def stop (s : WorkState) (access : BadAccess) : WorkState := { s with ended := some access }

def setStatics (s : WorkState) (call : WorkCall) (w : WorkStatics) : WorkState :=
  { s with statics := Function.update s.statics call w }

/-- A block of a call is written. -/
def setBlock (s : WorkState) (call : WorkCall) (i : Nat) (block : CBlock) : WorkState :=
  s.setStatics call
    { s.statics call with vNewBlock := (s.statics call).vNewBlock.set i block }

variable (K : Crypto) (fTestNet : Bool) (torn : CTransaction → List UInt8 → CTransaction)

/-- The end of a request, from "Update nTime" on. -/
def handOut (s : WorkState) (call : WorkCall) (updateTime : CBlock → CBlock) : WorkState :=
  let w := s.statics call
  match w.pblock, w.block, w.pindexPrev with
  | some i, some block, some pindexPrev =>
    let block := { updateTime block with nNonce := 0 }
    let (block, nExtraNonce, templates) :=
      s.templates.incrementExtraNonce K block pindexPrev w.nExtraNonce
    match block.scriptSig0 with
    | none => s.stop .pastEnd
    | some scriptSig =>
      { s.setStatics call
          { w with
            vNewBlock := w.vNewBlock.set i block
            mapNewBlock :=
              Function.update w.mapNewBlock block.hashMerkleRoot (some (i, scriptSig))
            nExtraNonce := nExtraNonce } with
        templates := templates
        units := ⟨call, pindexPrev, block.hashedHeader⟩ :: s.units }
  | _, _, _ => s.stop .null

/-- "Create new block", on the block that the pointer `pindexPrev` points to, and the rest of the
request.  `w` is what the statics are before. -/
def renew (s : WorkState) (call : WorkCall) (w : WorkStatics) (pindexPrev : Option TipIndex)
    (pindexPrevNew : TipIndex) (request : WorkRequest) (updateTime : CBlock → CBlock) : WorkState :=
  match pindexPrev with
  | none => s.stop .null                         -- pindexPrev->nHeight
  | some pindexPrev =>
    match s.templates.createNewBlock K pindexPrev (request.assembled.map Assembled.block) false
        request.nTimeCreated with
    | (none, templates) =>                       -- "Out of memory"
      { s.setStatics call { w with pblock := none } with templates := templates }
    | (some block, templates) =>
      let w := { w with
        pblock := some w.vNewBlock.length
        vNewBlock := w.vNewBlock ++ [block]
        pindexPrev := some pindexPrevNew }
      { s.setStatics call w with templates := templates }.handOut K call updateTime

/-- `getwork`, a request -/
def getwork (s : WorkState) (request : WorkRequest) : WorkState :=
  let w := s.statics .getwork
  let updateTime := CBlock.updateTime request.nTimeUpdated
  if w.pindexPrev = some s.pindexBest ∧ ¬ w.Late request ∧ w.block = none then
    s.stop .null                                 -- pblock->GetBlockTime()
  else if w.pindexPrev ≠ some s.pindexBest ∨ w.Late request ∨ ∃ block ∈ w.block, block.Aged fTestNet
      then
    let w := { w.dropOld s.pindexBest with
      pindexPrev := none
      nTransactionsUpdatedLast := request.nTransactionsUpdated
      nStart := request.nTime }
    s.renew K .getwork w w.pindexPrev s.pindexBest request updateTime
  else s.handOut K .getwork updateTime

/-- Does `getworkex` make a new block? -/
def Renews (s : WorkState) (request : WorkRequest) : Prop :=
  (s.statics .getworkex).pindexPrev ≠ some s.pindexBest ∨ (s.statics .getworkex).Late request

instance (s : WorkState) (request : WorkRequest) : Decidable (s.Renews request) :=
  inferInstanceAs (Decidable (_ ∨ _))

/-- `getworkex`, a request -/
def getworkex (s : WorkState) (request : WorkRequest) : WorkState :=
  let updateTime (block : CBlock) : CBlock :=
    { block with nTime := UInt32.ofNat (max (request.nPastTimeLimit + 1) request.nTimeUpdated) }
  if s.Renews request then
    let w := { (s.statics .getworkex).dropOld s.pindexBest with
      nTransactionsUpdatedLast := request.nTransactionsUpdated
      pindexPrev := some s.pindexBest
      nStart := request.nTime }
    s.renew K .getworkex w w.pindexPrev s.pindexBest request updateTime
  else s.handOut K .getworkex updateTime

/-- A submission, up to what `CheckWork` writes.  An empty coinbase is none, and `getwork` takes
none. -/
def submission (s : WorkState) (call : WorkCall) (vchData coinbase : List UInt8)
    (mixHash : Option UInt256) : WorkState :=
  match (s.statics call).saved vchData with
  | none => s                                    -- "Invalid parameter", or not found
  | some (i, scriptSig, block) =>
    if coinbase = [] then
      match block.rebuild K scriptSig with
      | none => s.stop .pastEnd
      | some block => s.setBlock call i (block.withMix mixHash)
    else if CTransaction.unserialize coinbase = none then
      s.setBlock call i (block.withCoinbase torn coinbase)
    else s.setBlock call i (((block.withCoinbase torn coinbase).withRoot K).withMix mixHash)

/-- One step; there is none after the end. -/
def step (s : WorkState) (op : WorkStep) : WorkState :=
  if s.ended ≠ none then s
  else
    match op with
    | .getwork request => s.getwork K fTestNet request
    | .getworkex request => s.getworkex K request
    | .submit vchData mixHash => s.submission K torn .getwork vchData [] mixHash
    | .submitex vchData coinbase mixHash => s.submission K torn .getworkex vchData coinbase mixHash
    | .templates op => { s with templates := s.templates.step K op }

end WorkState

/-! ## 4. What is claimed of the units, and what keeps it -/

/-- They differ in nothing but what submissions write: the times, the nonces, the roots, the mix
hashes, and the script of the first input. -/
structure CBlock.Alike (a b : CBlock) : Prop where
  nVersion : b.nVersion = a.nVersion
  hashPrevBlock : b.hashPrevBlock = a.hashPrevBlock
  nBits : b.nBits = a.nBits
  vtx : (b.withScriptSig []).vtx = (a.withScriptSig []).vtx

namespace WorkUnit

/-- The work unit submitted with another time and another nonce. -/
def solved (u : WorkUnit) (nTime nNonce : UInt32) : HashedHeader :=
  { u.header with nTime := nTime, nNonce := nNonce }

end WorkUnit

namespace WorkState

variable (K : Crypto) (torn : CTransaction → List UInt8 → CTransaction)

/-- **The unit is rebuilt**: whatever the time and the nonce, the submission finds a block and makes
it one with the submitted header. -/
def Rebuilds (s : WorkState) (u : WorkUnit) : Prop :=
  ∀ nTime nNonce, ∃ i scriptSig block pblock,
    (s.statics u.call).saved (u.solved nTime nNonce).data = some (i, scriptSig, block) ∧
      block.rebuild K scriptSig = some pblock ∧ pblock.hashedHeader = u.solved nTime nNonce

/-- **The units of the tip can be submitted**, and nothing null has been dereferenced. -/
structure Serves (s : WorkState) : Prop where
  running : s.ended ≠ some .null
  units : ∀ u ∈ s.units, u.tip = s.pindexBest → s.Rebuilds K u

/-- **The step is one that does no harm.**

`getworkex` is not asked when it has no block; and a new block with another target cannot have the
root of an older unit.  A coinbase that is sent differs from the block's in the script of its first
input.  The tip does not change to one for which there are units that were dropped. -/
def Careful (s : WorkState) : WorkStep → Prop
  | .getwork _ => False
  | .getworkex request =>
    if s.Renews request then
      ∀ a ∈ request.assembled, ∀ u ∈ s.units, u.tip = s.pindexBest → u.header.nBits ≠ a.nBits →
        ∀ scriptSig, (a.block.withScriptSig scriptSig).buildMerkleTree K ≠ u.header.hashMerkleRoot
    else (s.statics .getworkex).pblock ≠ none
  | .submit .. => True
  | .submitex vchData coinbase _ =>
    coinbase ≠ [] → ∀ i scriptSig block,
      (s.statics .getworkex).saved vchData = some (i, scriptSig, block) →
        block.Alike (block.withCoinbase torn coinbase)
  | .templates (.tipChange pindexNew) =>
    ∀ u ∈ s.units, u.tip = pindexNew → (s.statics .getworkex).pindexPrev = some pindexNew
  | .templates _ => True

end WorkState

/-! ## 5. Alike blocks -/

namespace CBlock

variable {K : Crypto} {a b c : CBlock}

theorem withScriptSig_withScriptSig (scriptSig scriptSig' : CScript) (block : CBlock) :
    (block.withScriptSig scriptSig').withScriptSig scriptSig = block.withScriptSig scriptSig := by
  unfold withScriptSig
  simp only [List.modifyHead_modifyHead, Function.comp_def]

theorem vtx_withScriptSig_congr (h : b.vtx = a.vtx) (scriptSig : CScript) :
    (b.withScriptSig scriptSig).vtx = (a.withScriptSig scriptSig).vtx := by
  unfold withScriptSig
  dsimp only
  rw [h]

theorem buildMerkleTree_congr (h : b.vtx = a.vtx) : b.buildMerkleTree K = a.buildMerkleTree K := by
  unfold buildMerkleTree
  rw [h]

theorem scriptSig0_withScriptSig (scriptSig : CScript) (block : CBlock) :
    (block.withScriptSig scriptSig).scriptSig0 = block.scriptSig0.map fun _ => scriptSig := by
  unfold scriptSig0 withScriptSig
  rcases block.vtx with - | ⟨⟨nVersion, nTime, - | ⟨txin, vin⟩, vout⟩, vtx⟩
  · rfl
  · rfl
  · rfl

theorem scriptSig0_congr (h : b.vtx = a.vtx) : b.scriptSig0 = a.scriptSig0 := by
  unfold scriptSig0
  rw [h]

/-- What does not touch the transactions. -/
theorem Alike.of_vtx (hversion : b.nVersion = a.nVersion)
    (hprev : b.hashPrevBlock = a.hashPrevBlock) (hbits : b.nBits = a.nBits)
    (hvtx : b.vtx = a.vtx) : a.Alike b :=
  ⟨hversion, hprev, hbits, vtx_withScriptSig_congr hvtx []⟩

theorem Alike.refl (a : CBlock) : a.Alike a := ⟨rfl, rfl, rfl, rfl⟩

theorem Alike.trans (h : a.Alike b) (h' : b.Alike c) : a.Alike c :=
  ⟨h'.nVersion.trans h.nVersion, h'.hashPrevBlock.trans h.hashPrevBlock, h'.nBits.trans h.nBits,
    h'.vtx.trans h.vtx⟩

/-- The script of the first input is written. -/
theorem alike_withScriptSig (scriptSig : CScript) (a : CBlock) :
    a.Alike (a.withScriptSig scriptSig) :=
  ⟨rfl, rfl, rfl, by rw [withScriptSig_withScriptSig]⟩

variable {scriptSig : CScript}

theorem alike_rebuild (h : a.rebuild K scriptSig = some b) : a.Alike b := by
  unfold rebuild at h
  split_ifs at h
  obtain rfl := Option.some.inj h
  exact (alike_withScriptSig scriptSig a).trans (.of_vtx rfl rfl rfl rfl)

/-- With one script they have the same transactions. -/
theorem Alike.vtx_withScriptSig (h : a.Alike b) (scriptSig : CScript) :
    (b.withScriptSig scriptSig).vtx = (a.withScriptSig scriptSig).vtx := by
  rw [← withScriptSig_withScriptSig scriptSig [] b, ← withScriptSig_withScriptSig scriptSig [] a]
  exact vtx_withScriptSig_congr h.vtx scriptSig

/-- With one script they have the same root. -/
theorem Alike.buildMerkleTree (h : a.Alike b) (scriptSig : CScript) :
    (b.withScriptSig scriptSig).buildMerkleTree K = (a.withScriptSig scriptSig).buildMerkleTree K :=
  buildMerkleTree_congr (h.vtx_withScriptSig scriptSig)

/-- Writing the script that is there changes nothing. -/
theorem vtx_withScriptSig_self (h : a.scriptSig0 = some scriptSig) :
    (a.withScriptSig scriptSig).vtx = a.vtx := by
  unfold scriptSig0 at h
  unfold withScriptSig
  dsimp only
  generalize a.vtx = vtx at h ⊢
  rcases vtx with - | ⟨⟨nVersion, nTime, - | ⟨txin, vin⟩, vout⟩, vtx⟩
  · rfl
  · rfl
  · obtain rfl : txin.scriptSig = scriptSig := Option.some.inj h
    rfl

/-- Both have a first input, or neither has. -/
theorem Alike.scriptSig0_eq_none (h : a.Alike b) : b.scriptSig0 = none ↔ a.scriptSig0 = none := by
  have hblank := scriptSig0_congr h.vtx
  rw [scriptSig0_withScriptSig, scriptSig0_withScriptSig] at hblank
  rw [← Option.map_eq_none_iff (f := fun _ => ([] : CScript)), hblank, Option.map_eq_none_iff]

/-- A block on the tip, as `CreateNewBlock` makes them, with an input to write a script into. -/
structure MadeFor (block : CBlock) (tip : TipIndex) : Prop where
  nVersion : block.nVersion = kawpowVersion
  hashPrevBlock : block.hashPrevBlock = tip.hashBlock
  scriptSig0 : block.scriptSig0 ≠ none

theorem MadeFor.of_alike {tip : TipIndex} (h : a.MadeFor tip) (hlike : a.Alike b) :
    b.MadeFor tip where
  nVersion := hlike.nVersion.trans h.nVersion
  hashPrevBlock := hlike.hashPrevBlock.trans h.hashPrevBlock
  scriptSig0 hnone := h.scriptSig0 (hlike.scriptSig0_eq_none.mp hnone)

/-- Filling in the header keeps the version, the target and the transactions. -/
theorem fillHeader_spec (K : Crypto) (pindexPrev : TipIndex) (nAdjustedTime : Nat)
    (block : CBlock) :
    let filled := fillHeader K pindexPrev false nAdjustedTime block
    filled.nVersion = block.nVersion ∧ filled.hashPrevBlock = pindexPrev.hashBlock ∧
      filled.nBits = block.nBits ∧ filled.vtx = block.vtx := by
  unfold fillHeader
  dsimp only
  rw [if_neg Bool.false_ne_true]
  split_ifs
  · exact ⟨rfl, rfl, rfl, rfl⟩
  · exact ⟨rfl, rfl, rfl, rfl⟩

end CBlock

theorem Assembled.scriptSig0_block (a : Assembled) : a.block.scriptSig0 ≠ none := by
  obtain ⟨txin, hvin⟩ := List.length_eq_one_iff.mp a.vinSingle
  rw [CBlock.scriptSig0, Assembled.block]
  simp [hvin]

/-! ## 6. The statics of a call -/

namespace WorkStatics

variable {K : Crypto} {w : WorkStatics} {units : List WorkUnit} {u : WorkUnit} {i : Nat}
  {block block' : CBlock} {tip : TipIndex}

/-- The root of the unit is remembered, with a block and a script that give it. -/
def Standing (K : Crypto) (w : WorkStatics) (u : WorkUnit) : Prop :=
  ∃ i scriptSig block, w.mapNewBlock u.header.hashMerkleRoot = some (i, scriptSig) ∧
    w.vNewBlock[i]? = some block ∧
    (block.withScriptSig scriptSig).buildMerkleTree K = u.header.hashMerkleRoot ∧
    block.nBits = u.header.nBits

/-- **The units of `pindexPrev` stand.**  Its blocks were made for it, and the one that is used next
has no root in common with a unit of another target. -/
structure Sound (K : Crypto) (w : WorkStatics) (units : List WorkUnit) : Prop where
  blocks : ∀ block ∈ w.vNewBlock, ∃ tip, w.pindexPrev = some tip ∧ block.MadeFor tip
  pblock : ∀ i, w.pblock = some i → ∃ block, w.vNewBlock[i]? = some block
  stands : ∀ u ∈ units, w.pindexPrev = some u.tip → w.Standing K u
  apart : ∀ block, w.block = some block → ∀ u ∈ units, w.pindexPrev = some u.tip →
    u.header.nBits ≠ block.nBits →
      ∀ scriptSig, (block.withScriptSig scriptSig).buildMerkleTree K ≠ u.header.hashMerkleRoot

theorem block_eq_some (hi : w.pblock = some i) : w.block = w.vNewBlock[i]? := by
  rw [WorkStatics.block, hi, Option.bind_some]

variable {scriptSig : CScript} {l : List CBlock} {j : Nat}

/-- The block of a submission is one of the blocks but for the time and the nonce. -/
theorem exists_of_saved {vchData : List UInt8} (h : w.saved vchData = some (i, scriptSig, block)) :
    ∃ b, w.vNewBlock[i]? = some b ∧ b.Alike block := by
  simp only [saved, bind, Option.bind_eq_some_iff, pure, Option.some.injEq, Prod.mk.injEq] at h
  obtain ⟨pdata, -, ⟨j, scriptSig'⟩, -, b, hb, rfl, rfl, rfl⟩ := h
  exact ⟨b, hb, .of_vtx rfl rfl rfl rfl⟩

/-- Nothing is found when nothing was handed out. -/
theorem saved_initial (vchData : List UInt8) : initial.saved vchData = none := by
  rw [saved]
  cases HashedHeader.ofSubmission vchData with
  | none => rfl
  | some pdata => rfl

/-- A block is at its place before an alike one takes it. -/
theorem exists_alike_of_set (hi : l[i]? = some block) (hlike : block.Alike block') {c : CBlock}
    (hj : (l.set i block')[j]? = some c) :
    ∃ b, l[j]? = some b ∧ b.Alike c := by
  by_cases hij : i = j
  · subst hij
    obtain ⟨hlt, -⟩ := List.getElem?_eq_some_iff.mp hi
    rw [List.getElem?_set_self hlt, Option.some.injEq] at hj
    exact ⟨block, hi, hj ▸ hlike⟩
  · rw [List.getElem?_set_ne hij] at hj
    exact ⟨c, hj, .refl c⟩

/-- A block is still there when an alike one has taken a place. -/
theorem exists_alike_set (hi : l[i]? = some block) (hlike : block.Alike block') {b : CBlock}
    (hj : l[j]? = some b) :
    ∃ c, (l.set i block')[j]? = some c ∧ b.Alike c := by
  by_cases hij : i = j
  · subst hij
    obtain ⟨hlt, -⟩ := List.getElem?_eq_some_iff.mp hi
    obtain rfl : block = b := Option.some.inj (hi.symm.trans hj)
    exact ⟨block', List.getElem?_set_self hlt, hlike⟩
  · exact ⟨b, (List.getElem?_set_ne hij).trans hj, .refl b⟩

/-- **An alike block takes the place.** -/
theorem Sound.set (h : w.Sound K units) (hi : w.vNewBlock[i]? = some block)
    (hlike : block.Alike block') :
    { w with vNewBlock := w.vNewBlock.set i block' }.Sound K units where
  blocks c hc := by
    obtain ⟨j, hj⟩ := List.mem_iff_getElem?.mp hc
    obtain ⟨b, hb, hbc⟩ := exists_alike_of_set hi hlike hj
    obtain ⟨tip, htip, hmade⟩ := h.blocks b (List.mem_of_getElem? hb)
    exact ⟨tip, htip, hmade.of_alike hbc⟩
  pblock j hj := by
    obtain ⟨b, hb⟩ := h.pblock j hj
    obtain ⟨c, hc, -⟩ := exists_alike_set hi hlike hb
    exact ⟨c, hc⟩
  stands u hu htip := by
    obtain ⟨j, scriptSig, b, hmap, hb, hroot, hbits⟩ := h.stands u hu htip
    obtain ⟨c, hc, hbc⟩ := exists_alike_set hi hlike hb
    exact ⟨j, scriptSig, c, hmap, hc, (hbc.buildMerkleTree scriptSig).trans hroot,
      hbc.nBits.trans hbits⟩
  apart c hc u hu htip hbits scriptSig := by
    obtain ⟨j, hj, hget⟩ := Option.bind_eq_some_iff.mp hc
    obtain ⟨b, hb, hbc⟩ := exists_alike_of_set hi hlike hget
    have hblock : w.block = some b := (block_eq_some (w := w) hj).trans hb
    rw [hbc.buildMerkleTree scriptSig]
    exact h.apart b hblock u hu htip (hbc.nBits ▸ hbits) scriptSig

/-- **A unit is handed out** with the block that is used next. -/
theorem Sound.remember (h : w.Sound K units) (hpblock : w.pblock = some i)
    (hi : w.vNewBlock[i]? = some block) (hscript : block.scriptSig0 = some scriptSig)
    (hroot : block.hashMerkleRoot = block.buildMerkleTree K) (call : WorkCall) (tip : TipIndex)
    (nExtraNonce : UInt32) :
    { w with
      mapNewBlock := Function.update w.mapNewBlock block.hashMerkleRoot (some (i, scriptSig))
      nExtraNonce := nExtraNonce }.Sound K (⟨call, tip, block.hashedHeader⟩ :: units) := by
  have hblock : w.block = some block := (block_eq_some hpblock).trans hi
  have hself : (block.withScriptSig scriptSig).buildMerkleTree K = block.hashMerkleRoot :=
    (CBlock.buildMerkleTree_congr (CBlock.vtx_withScriptSig_self hscript)).trans hroot.symm
  constructor
  · exact h.blocks
  · exact h.pblock
  · intro u hu htip
    rcases List.mem_cons.mp hu with rfl | hu
    · exact ⟨i, scriptSig, block, Function.update_self .., hi, hself, rfl⟩
    · by_cases heq : u.header.hashMerkleRoot = block.hashMerkleRoot
      · have hbits : block.nBits = u.header.nBits := by
          by_contra hne
          exact h.apart block hblock u hu htip (Ne.symm hne) scriptSig (hself.trans heq.symm)
        refine ⟨i, scriptSig, block, ?_, hi, hself.trans heq.symm, hbits⟩
        rw [heq]
        exact Function.update_self ..
      · obtain ⟨j, scriptSig', b, hmap, hb, hstand⟩ := h.stands u hu htip
        exact ⟨j, scriptSig', b, (Function.update_of_ne heq ..).trans hmap, hb, hstand⟩
  · intro c hc u hu htip hbits
    obtain rfl : block = c := Option.some.inj (hblock.symm.trans hc)
    rcases List.mem_cons.mp hu with rfl | hu
    · exact absurd rfl hbits
    · exact h.apart block hblock u hu htip hbits

/-- What was made for another tip is dropped: there is no block to use next. -/
theorem Sound.dropOld (h : w.Sound K units) (hcurrent : ∀ u ∈ units, u.tip = tip →
      w.pindexPrev = some tip) (nTransactionsUpdated : UInt32) (nStart : Int) :
    { w.dropOld tip with
      nTransactionsUpdatedLast := nTransactionsUpdated
      pindexPrev := some tip
      nStart := nStart
      pblock := none }.Sound K units := by
  by_cases htip : w.pindexPrev = some tip
  · rw [WorkStatics.dropOld, if_neg (not_not.mpr htip)]
    exact ⟨fun block hblock => htip ▸ h.blocks block hblock, nofun,
      fun u hu hu' => h.stands u hu (htip.trans hu'), nofun⟩
  · rw [WorkStatics.dropOld, if_pos htip]
    refine ⟨fun _ hmem => absurd hmem List.not_mem_nil, nofun, fun u hu hu' => ?_, nofun⟩
    exact absurd (hcurrent u hu (Option.some.inj hu').symm) htip

/-- **A new block** is the one to use next. -/
theorem Sound.append (h : w.Sound K units) (htip : w.pindexPrev = some tip)
    (hmade : block.MadeFor tip) (hapart : ∀ u ∈ units, u.tip = tip → u.header.nBits ≠ block.nBits →
      ∀ scriptSig, (block.withScriptSig scriptSig).buildMerkleTree K ≠ u.header.hashMerkleRoot) :
    { w with
      pblock := some w.vNewBlock.length
      vNewBlock := w.vNewBlock ++ [block]
      pindexPrev := some tip }.Sound K units where
  blocks b hb := by
    rcases List.mem_append.mp hb with hb | hb
    · exact htip ▸ h.blocks b hb
    · obtain rfl := List.mem_singleton.mp hb
      exact ⟨tip, rfl, hmade⟩
  pblock i hi := by
    obtain rfl : w.vNewBlock.length = i := Option.some.inj hi
    exact ⟨block, List.getElem?_concat_length ..⟩
  stands u hu hu' := by
    obtain ⟨j, scriptSig, b, hmap, hb, hstand⟩ := h.stands u hu (htip.trans hu')
    obtain ⟨hlt, -⟩ := List.getElem?_eq_some_iff.mp hb
    exact ⟨j, scriptSig, b, hmap, (List.getElem?_append_left hlt).trans hb, hstand⟩
  apart b hb u hu hu' := by
    have hlast : (w.vNewBlock ++ [block])[w.vNewBlock.length]? = some b := hb
    obtain rfl : block = b := Option.some.inj ((List.getElem?_concat_length ..).symm.trans hlast)
    exact hapart u hu (Option.some.inj hu').symm

end WorkStatics

/-! ## 7. The steps -/

namespace Templates

variable {K : Crypto}

theorem createNewBlock_pindexBest (s : Templates) (pindexPrev : TipIndex)
    (assembled : Option CBlock) (fProofOfStake : Bool) (nAdjustedTime : Nat) :
    (s.createNewBlock K pindexPrev assembled fProofOfStake nAdjustedTime).2.pindexBest =
      s.pindexBest := by
  unfold createNewBlock
  cases assembled with
  | none => rfl
  | some pblock =>
    dsimp only
    split_ifs
    · rfl
    · rfl

theorem incrementExtraNonce_pindexBest (s : Templates) (pblock : CBlock) (pindexPrev : TipIndex)
    (nExtraNonce : UInt32) :
    (s.incrementExtraNonce K pblock pindexPrev nExtraNonce).2.2.pindexBest = s.pindexBest := by
  rcases incrementExtraNonce_state (K := K) s pblock pindexPrev nExtraNonce with heq | heq
  · rw [heq]
    rfl
  · rw [heq]

/-- The block has a new script, and its root. -/
theorem incrementExtraNonce_fst (s : Templates) (pblock : CBlock) (pindexPrev : TipIndex)
    (nExtraNonce : UInt32) :
    ∃ scriptSig, (s.incrementExtraNonce K pblock pindexPrev nExtraNonce).1 =
      (pblock.withScriptSig scriptSig).withRoot K := by
  unfold incrementExtraNonce
  dsimp only
  generalize (if s.hashPrevBlock ≠ pblock.hashPrevBlock then 0 else nExtraNonce) + 1 = n
  split_ifs
  · exact ⟨_, rfl⟩
  · exact ⟨_, rfl⟩

theorem renew_pindexBest (s : Templates) (call : TemplateCall) :
    (s.renew K call).pindexBest = s.pindexBest := by
  unfold renew
  dsimp only
  have hclear : ∀ c : Prop, [Decidable c] → ∀ t : Templates, t.pindexBest = s.pindexBest →
      (if c then t else { s with pindexPrev := none }).pindexBest = s.pindexBest := by
    intro c _ t ht
    split_ifs
    · exact ht
    · rfl
  have hcleared := hclear (call.fIsKawpow ∧ s.fLastTemplateKawpow = false)
    { s with
      mapKawpowBlockTemplates := .empty, pindexPrev := none, fLastTemplateKawpow := true } rfl
  generalize (if call.fIsKawpow ∧ s.fLastTemplateKawpow = false then _ else _ : Templates) = t
    at hcleared ⊢
  have hcreate := createNewBlock_pindexBest (K := K) { t with lastheader := [] } t.pindexBest
    call.assembled false call.nTimeCreated
  generalize createNewBlock K { t with lastheader := [] } t.pindexBest call.assembled false
    call.nTimeCreated = r at hcreate ⊢
  obtain ⟨pblock, t'⟩ := r
  cases pblock with
  | none => exact hcreate.trans hcleared
  | some pblock => exact hcreate.trans hcleared

theorem getblocktemplatekawpow_pindexBest (s : Templates) (call : TemplateCall) :
    (s.getblocktemplatekawpow K call).pindexBest = s.pindexBest := by
  have hready : (if s.pindexPrev = some s.pindexBest then s else s.renew K call).pindexBest =
      s.pindexBest := by
    split_ifs
    · rfl
    · exact renew_pindexBest s call
  unfold getblocktemplatekawpow
  dsimp only
  generalize (if s.pindexPrev = some s.pindexBest then s else s.renew K call) = t at hready ⊢
  cases t.pblock with
  | none => exact hready
  | some pblock =>
    dsimp only
    split_ifs
    · exact hready
    · exact hready
    · exact hready

/-- Only a change of the tip changes the best block. -/
theorem step_pindexBest (s : Templates) {op : TemplateStep}
    (h : ∀ pindexNew, op ≠ .tipChange pindexNew) : (s.step K op).pindexBest = s.pindexBest := by
  cases op with
  | createNewBlock pindexPrev assembled fProofOfStake nAdjustedTime =>
    exact createNewBlock_pindexBest ..
  | incrementExtraNonce pblock pindexPrev nExtraNonce => exact incrementExtraNonce_pindexBest ..
  | getblocktemplatekawpow call => exact getblocktemplatekawpow_pindexBest ..
  | tipChange pindexNew => exact absurd rfl (h pindexNew)

end Templates

namespace WorkState

variable {K : Crypto} {fTestNet : Bool} {torn : CTransaction → List UInt8 → CTransaction}
  {s : WorkState} {w : WorkStatics}

/-- **What a run keeps**: `getwork` has handed out nothing, and the units of `getworkex` stand. -/
structure Sound (K : Crypto) (s : WorkState) : Prop where
  running : s.ended = none
  getwork : s.statics .getwork = .initial
  getworkex : (s.statics .getworkex).Sound K s.units
  units : ∀ u ∈ s.units, u.call = .getworkex ∧ u.header.nVersion = CBlock.kawpowVersion ∧
    u.header.hashPrevBlock = u.tip.hashBlock
  current : ∀ u ∈ s.units, u.tip = s.pindexBest →
    (s.statics .getworkex).pindexPrev = some s.pindexBest

theorem sound_initial (K : Crypto) (pindexBest : TipIndex) : (initial pindexBest).Sound K where
  running := rfl
  getwork := rfl
  getworkex := ⟨nofun, nofun, nofun, nofun⟩
  units := nofun
  current := nofun

/-- A submission of a unit of the tip finds its block. -/
theorem Sound.rebuilds (h : s.Sound K) {u : WorkUnit} (hu : u ∈ s.units)
    (htip : u.tip = s.pindexBest) : s.Rebuilds K u := by
  intro nTime nNonce
  obtain ⟨hcall, hversion, hprev⟩ := h.units u hu
  have hpindex : (s.statics .getworkex).pindexPrev = some u.tip := htip ▸ h.current u hu htip
  obtain ⟨i, scriptSig, block, hmap, hi, hroot, hbits⟩ := h.getworkex.stands u hu hpindex
  obtain ⟨tip, htip', hmade⟩ := h.getworkex.blocks block (List.mem_of_getElem? hi)
  obtain rfl : u.tip = tip := Option.some.inj (hpindex.symm.trans htip')
  have hsaved : (s.statics u.call).saved (u.solved nTime nNonce).data =
      some (i, scriptSig, { block with nTime := nTime, nNonce := nNonce }) := by
    rw [hcall, WorkStatics.saved, HashedHeader.ofSubmission_data]
    have hmap' : (s.statics .getworkex).mapNewBlock (u.solved nTime nNonce).hashMerkleRoot =
      some (i, scriptSig) := hmap
    simp only [bind, Option.bind_some, hmap', hi]
    rfl
  refine ⟨i, scriptSig, _, _, hsaved, if_neg hmade.scriptSig0, ?_⟩
  exact HashedHeader.ext (hmade.nVersion.trans hversion.symm) (hmade.hashPrevBlock.trans hprev.symm)
    hroot rfl hbits rfl

theorem Sound.serves (h : s.Sound K) : s.Serves K where
  running hnull := by
    rw [h.running] at hnull
    cases hnull
  units u hu htip := h.rebuilds hu htip

/-- What a unit that is submitted as it was handed out is rebuilt into. -/
theorem Serves.rebuilt (h : s.Serves K) : ∀ u ∈ s.units, u.tip = s.pindexBest →
    (((s.statics u.call).saved (u.solved u.header.nTime u.header.nNonce).data).bind fun found =>
      found.2.2.rebuild K found.2.1).map CBlock.hashedHeader =
        some (u.solved u.header.nTime u.header.nNonce) := by
  intro u hu htip
  obtain ⟨i, scriptSig, block, pblock, hsaved, hrebuild, hheader⟩ :=
    h.units u hu htip u.header.nTime u.header.nNonce
  rw [hsaved, Option.bind_some, hrebuild, Option.map_some, hheader]

/-- **No request to `getwork` returns**: there is no tip that the new block could be made on. -/
theorem getwork_null (h : s.statics .getwork = .initial) (request : WorkRequest) :
    (s.getwork K fTestNet request).ended = some .null := by
  unfold getwork
  rw [h]
  dsimp only
  rw [if_neg (fun hnow => by cases hnow.1), if_pos (Or.inl nofun)]
  rfl

theorem statics_setStatics (call : WorkCall) : (s.setStatics call w).statics call = w := by
  rw [setStatics]
  exact Function.update_self ..

theorem statics_setStatics_of_ne {call call' : WorkCall} (h : call' ≠ call) :
    (s.setStatics call w).statics call' = s.statics call' := by
  rw [setStatics]
  exact Function.update_of_ne h ..

variable {t : Templates} {updateTime : CBlock → CBlock}

/-- The statics of `getworkex`, the templates and the units are written, on the same tip. -/
theorem Sound.write (h : s.Sound K) (hbest : t.pindexBest = s.pindexBest) {units : List WorkUnit}
    (hw : w.Sound K units)
    (hunits : ∀ u ∈ units, u ∈ s.units ∨ u.call = .getworkex ∧
      u.header.nVersion = CBlock.kawpowVersion ∧ u.header.hashPrevBlock = u.tip.hashBlock)
    (hcurrent : ∀ u ∈ units, u.tip = s.pindexBest → w.pindexPrev = some s.pindexBest) :
    { s.setStatics .getworkex w with templates := t, units := units }.Sound K where
  running := h.running
  getwork := by
    have heq : (s.setStatics .getworkex w).statics .getwork = s.statics .getwork :=
      statics_setStatics_of_ne nofun
    exact heq.trans h.getwork
  getworkex := by
    have heq : (s.setStatics .getworkex w).statics .getworkex = w := statics_setStatics _
    exact heq.symm ▸ hw
  units u hu := (hunits u hu).elim (h.units u) id
  current u hu htip := by
    have heq : (s.setStatics .getworkex w).statics .getworkex = w := statics_setStatics _
    have hnow := hcurrent u hu (htip.trans hbest)
    rw [← heq, ← hbest] at hnow
    exact hnow

/-- **A request that has a block hands out a unit.** -/
theorem Sound.handOut (h : s.Sound K)
    (htip : (s.statics .getworkex).pindexPrev = some s.pindexBest)
    (hpblock : (s.statics .getworkex).pblock ≠ none)
    (hupdate : ∀ block : CBlock, block.Alike (updateTime block)) :
    (s.handOut K .getworkex updateTime).Sound K := by
  obtain ⟨i, hi⟩ := Option.ne_none_iff_exists'.mp hpblock
  obtain ⟨block, hblock⟩ := h.getworkex.pblock i hi
  have hget : (s.statics .getworkex).block = some block :=
    (WorkStatics.block_eq_some hi).trans hblock
  unfold WorkState.handOut
  dsimp only
  split
  case h_2 hno => exact absurd htip (hno i block s.pindexBest hi hget)
  case h_1 i' block₀ pindexPrev hi' hget' htip' =>
  obtain rfl : i = i' := Option.some.inj (hi.symm.trans hi')
  obtain rfl : block = block₀ := Option.some.inj (hget.symm.trans hget')
  obtain rfl : s.pindexBest = pindexPrev := Option.some.inj (htip.symm.trans htip')
  obtain ⟨scriptSig, hfst⟩ := Templates.incrementExtraNonce_fst (K := K) s.templates
    { updateTime block with nNonce := 0 } s.pindexBest (s.statics .getworkex).nExtraNonce
  have hbest := Templates.incrementExtraNonce_pindexBest (K := K) s.templates
    { updateTime block with nNonce := 0 } s.pindexBest (s.statics .getworkex).nExtraNonce
  generalize s.templates.incrementExtraNonce K { updateTime block with nNonce := 0 } s.pindexBest
    (s.statics .getworkex).nExtraNonce = r at hfst hbest ⊢
  obtain ⟨block', nExtraNonce, templates⟩ := r
  dsimp only at hfst hbest ⊢
  have hlike : block.Alike block' := by
    rw [hfst]
    exact (hupdate block).trans ((CBlock.Alike.of_vtx rfl rfl rfl rfl).trans
      ((CBlock.alike_withScriptSig scriptSig _).trans (.of_vtx rfl rfl rfl rfl)))
  obtain ⟨tip, htip', hmade⟩ := h.getworkex.blocks block (List.mem_of_getElem? hblock)
  obtain rfl : s.pindexBest = tip := Option.some.inj (htip.symm.trans htip')
  have hmade' := hmade.of_alike hlike
  obtain ⟨scriptSig', hscript⟩ := Option.ne_none_iff_exists'.mp hmade'.scriptSig0
  rw [hscript]
  dsimp only
  obtain ⟨hlt, -⟩ := List.getElem?_eq_some_iff.mp hblock
  have hroot : block'.hashMerkleRoot = block'.buildMerkleTree K := by
    rw [hfst]
    rfl
  have hset := h.getworkex.set hblock hlike
  have hsound := hset.remember hi (List.getElem?_set_self hlt) hscript hroot .getworkex s.pindexBest
    nExtraNonce
  refine h.write hbest hsound ?_ ?_
  · intro u hu
    rcases List.mem_cons.mp hu with rfl | hu
    · exact Or.inr ⟨rfl, hmade'.nVersion, hmade'.hashPrevBlock⟩
    · exact Or.inl hu
  · exact fun _ _ _ => htip

/-- The same with statics that are written before. -/
theorem Sound.handOut_new (h : s.Sound K) (hbest : t.pindexBest = s.pindexBest)
    (hw : w.Sound K s.units) (htip : w.pindexPrev = some s.pindexBest) (hpblock : w.pblock ≠ none)
    (hupdate : ∀ block : CBlock, block.Alike (updateTime block)) :
    ({ s.setStatics .getworkex w with templates := t }.handOut K .getworkex
      updateTime).Sound K := by
  have heq : (s.setStatics .getworkex w).statics .getworkex = w := statics_setStatics _
  have hnew := h.write hbest hw (fun _ hu => Or.inl hu) fun _ _ _ => htip
  refine hnew.handOut ?_ ?_ hupdate
  · have hpindex : ((s.setStatics .getworkex w).statics .getworkex).pindexPrev =
        some t.pindexBest := by rw [heq, htip, hbest]
    exact hpindex
  · have hpblock' : ((s.setStatics .getworkex w).statics .getworkex).pblock ≠ none := by
      rwa [heq]
    exact hpblock'

/-- **A request does no harm**, unless there is no block to hand out. -/
theorem Sound.step_getworkex (h : s.Sound K) {request : WorkRequest}
    (hcareful : s.Careful K torn (.getworkex request)) : (s.getworkex K request).Sound K := by
  unfold WorkState.getworkex
  dsimp only
  by_cases hrenews : s.Renews request
  · rw [Careful, if_pos hrenews] at hcareful
    rw [if_pos hrenews]
    unfold renew
    dsimp only
    have hdrop := h.getworkex.dropOld h.current request.nTransactionsUpdated request.nTime
    have hfst := Templates.createNewBlock_fst (K := K) s.templates s.pindexBest
      (request.assembled.map Assembled.block) false request.nTimeCreated
    have hbest := Templates.createNewBlock_pindexBest (K := K) s.templates s.pindexBest
      (request.assembled.map Assembled.block) false request.nTimeCreated
    generalize s.templates.createNewBlock K s.pindexBest (request.assembled.map Assembled.block)
      false request.nTimeCreated = r at hfst hbest ⊢
    obtain ⟨created, templates⟩ := r
    dsimp only at hfst hbest ⊢
    cases created with
    | none => exact h.write hbest hdrop (fun _ hu => Or.inl hu) fun _ _ _ => rfl
    | some block =>
      obtain ⟨_, hassembled, hfilled⟩ := Option.map_eq_some_iff.mp hfst.symm
      obtain ⟨a, ha, rfl⟩ := Option.map_eq_some_iff.mp hassembled
      obtain ⟨hversion, hprev, hbits, hvtx⟩ :=
        CBlock.fillHeader_spec K s.pindexBest request.nTimeCreated a.block
      rw [hfilled] at hversion hprev hbits hvtx
      have hmade : block.MadeFor s.pindexBest := by
        refine ⟨hversion, hprev, ?_⟩
        rw [CBlock.scriptSig0_congr hvtx]
        exact a.scriptSig0_block
      have hsound := hdrop.append rfl hmade (by
        intro u hu htip hne scriptSig
        rw [CBlock.buildMerkleTree_congr (CBlock.vtx_withScriptSig_congr hvtx scriptSig)]
        exact hcareful a ha u hu htip (fun heq => hne (heq.trans hbits.symm)) scriptSig)
      exact h.handOut_new hbest hsound rfl (Option.some_ne_none _)
        fun block => .of_vtx rfl rfl rfl rfl
  · rw [Careful, if_neg hrenews] at hcareful
    rw [if_neg hrenews]
    have htip : (s.statics .getworkex).pindexPrev = some s.pindexBest :=
      not_not.mp fun hne => hrenews (Or.inl hne)
    exact h.handOut htip hcareful fun block => .of_vtx rfl rfl rfl rfl

/-- An alike block takes the place. -/
theorem Sound.setBlock (h : s.Sound K) {i : Nat} {block block' : CBlock}
    (hi : (s.statics .getworkex).vNewBlock[i]? = some block) (hlike : block.Alike block') :
    (s.setBlock .getworkex i block').Sound K :=
  h.write rfl (h.getworkex.set hi hlike) (fun _ hu => Or.inl hu) h.current

/-- **A submission does no harm**, unless its coinbase differs from the block's in more than the
script. -/
theorem Sound.submission (h : s.Sound K) {vchData coinbase : List UInt8} {mixHash : Option UInt256}
    (hcareful : s.Careful K torn (.submitex vchData coinbase mixHash)) :
    (s.submission K torn .getworkex vchData coinbase mixHash).Sound K := by
  rw [Careful] at hcareful
  unfold WorkState.submission
  cases hsaved : (s.statics .getworkex).saved vchData with
  | none => exact h
  | some found =>
    obtain ⟨i, scriptSig, block⟩ := found
    obtain ⟨b, hb, hlike⟩ := WorkStatics.exists_of_saved hsaved
    dsimp only
    by_cases hcoinbase : coinbase = []
    · rw [if_pos hcoinbase]
      cases hrebuild : block.rebuild K scriptSig with
      | none =>
        obtain ⟨tip, -, hmade⟩ := h.getworkex.blocks b (List.mem_of_getElem? hb)
        rw [CBlock.rebuild, if_neg (hmade.of_alike hlike).scriptSig0] at hrebuild
        cases hrebuild
      | some block' =>
        exact h.setBlock hb ((hlike.trans (CBlock.alike_rebuild hrebuild)).trans
          (.of_vtx rfl rfl rfl rfl))
    · have hown := hlike.trans (hcareful hcoinbase i scriptSig block hsaved)
      rw [if_neg hcoinbase]
      split_ifs
      · exact h.setBlock hb hown
      · exact h.setBlock hb (hown.trans (.of_vtx rfl rfl rfl rfl))

/-- What the other parts of the node do does no harm, unless the tip comes back. -/
theorem Sound.templates (h : s.Sound K) {op : TemplateStep}
    (hcareful : s.Careful K torn (.templates op)) :
    { s with templates := s.templates.step K op }.Sound K where
  running := h.running
  getwork := h.getwork
  getworkex := h.getworkex
  units := h.units
  current u hu htip := by
    by_cases hchange : ∃ pindexNew, op = .tipChange pindexNew
    · obtain ⟨pindexNew, rfl⟩ := hchange
      exact hcareful u hu htip
    · have hbest := Templates.step_pindexBest (K := K) s.templates fun pindexNew heq =>
        hchange ⟨pindexNew, heq⟩
      exact (h.current u hu (htip.trans hbest)).trans (congrArg some hbest.symm)

/-- **A careful step keeps what a run keeps.** -/
theorem Sound.step (h : s.Sound K) {op : WorkStep} (hcareful : s.Careful K torn op) :
    (s.step K fTestNet torn op).Sound K := by
  unfold WorkState.step
  rw [if_neg (not_not.mpr h.running)]
  cases op with
  | getwork request => exact hcareful.elim
  | getworkex request => exact h.step_getworkex hcareful
  | submit vchData mixHash =>
    dsimp only
    unfold WorkState.submission
    rw [h.getwork, WorkStatics.saved_initial]
    exact h
  | submitex vchData coinbase mixHash => exact h.submission hcareful
  | templates op => exact h.templates hcareful

/-! ## 8. Runs -/

/-- **In a careful run every unit of the tip can be submitted**, and no request dereferences a null
block or block index. -/
theorem serves_of_careful (K : Crypto) (fTestNet : Bool)
    (torn : CTransaction → List UInt8 → CTransaction) (pindexBest : TipIndex) (ops : List WorkStep)
    (h : EveryStep (step K fTestNet torn) (initial pindexBest) (Careful K torn) ops) :
    Everywhere (step K fTestNet torn) (initial pindexBest) (Serves K) ops := by
  intro ops' hpre
  have hsound := everywhere_of_everyStep (sound_initial K pindexBest)
    (fun s op hs hcareful => hs.step hcareful) h ops' hpre
  exact hsound.serves

/-- What is put together with an empty pool. -/
def emptyPool : Assembled where
  coinbase :=
    ⟨1, 1777836782, [⟨⟨0, 0xffffffff⟩, [2, 89, 2], 0⟩], [⟨0, Color.sis.toInt32, [op1]⟩], 0, [], 0⟩
  vtx := []
  nBits := 0x1d00ffff
  nTime := 1777836782
  vinSingle := rfl

/-- A request that finds nothing changed in the pool. -/
def quietRequest (nTime : Nat) (assembled : Option Assembled) : WorkRequest :=
  ⟨1, nTime, nTime, nTime, 1777836782, assembled⟩

/-- Two requests, the second of which writes its script into the block of the first. -/
def twoRequests : List WorkStep :=
  [.getworkex (quietRequest 1777836790 (some emptyPool)),
    .getworkex (quietRequest 1777836791 none)]

/-- The submission of the `n`-th unit, the newest first, with another coinbase than its own. -/
def submitted (n : Nat) (coinbase : List UInt8) : WorkStep :=
  let s := twoRequests.foldl (step forkCrypto false fun tx _ => tx) (initial ⟨7, 600⟩)
  .submitex ((s.units[n]?.map (·.header.data)).getD []) coinbase none

/-- A careful run: two requests, and the older unit is submitted. -/
theorem serves_of_careful_twoRequests :
    Everywhere (step forkCrypto false fun tx _ => tx) (initial ⟨7, 600⟩) (Serves forkCrypto)
      (twoRequests ++ [submitted 1 []]) := by
  refine serves_of_careful forkCrypto false (fun tx _ => tx) ⟨7, 600⟩ _ (everyStep_append.mpr
    ⟨(@everyStep_append _ _ _ _ _ [_] _).mpr ⟨(@everyStep_append _ _ _ _ _ [] _).mpr ⟨?_, ?_⟩, ?_⟩,
      ?_⟩)
  · intro ops' o hpre
    simp at hpre
  · rw [Careful, if_pos (by decide)]
    intro _ _ u hu
    cases hu
  · rw [Careful, if_neg (by decide +kernel)]
    decide +kernel
  · exact fun hne => absurd rfl hne

/-- **No work, and work that is lost**: the first request to `getwork` dereferences a null block
index; `getworkex` dereferences a null block when it is asked again after it has got none; and a
coinbase that is sent with the second unit of a block leaves the first without its own. -/
theorem work_lost :
    ([WorkStep.getwork (quietRequest 1777836790 (some emptyPool))].foldl
        (step forkCrypto false fun tx _ => tx) (initial ⟨7, 600⟩)).ended = some .null ∧
      ([WorkStep.getworkex (quietRequest 1777836790 none),
          .getworkex (quietRequest 1777836791 (some emptyPool))].foldl
        (step forkCrypto false fun tx _ => tx) (initial ⟨7, 600⟩)).ended = some .null ∧
      ¬ Serves forkCrypto
        ((twoRequests ++ [submitted 0 ({ emptyPool.coinbase with nLockTime := 1 }).serialize]).foldl
          (step forkCrypto false fun tx _ => tx) (initial ⟨7, 600⟩)) :=
  ⟨by decide +kernel, by decide +kernel, fun h => absurd h.rebuilt (by decide +kernel)⟩

end WorkState

end Breakout
