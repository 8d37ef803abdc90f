/-
# The store of secure messages

`SecureMsgStore` appends a message to the file of its bucket and enters a token with the offset;
`SecureMsgBuildBucketSet` makes the tokens from the files again.  The hash of a bucket is what peers
compare.

Three things go wrong.  `SecureMsgScanBuckets` removes every file it has scanned, as
`SecureMsgWalletUnlocked` does with its own, and the tokens stay.  `SecureMsgReceive` hashes the
bucket that the bunch is for, and a message may belong to another.  A payload of less than eight
bytes is stored, but not skipped when the tokens are made again.

`store_right` is about runs in which none of this happens.
-/
import Breakout.Lib.RecordFile
import Breakout.SecMsgReceive

namespace Breakout

open Lib

namespace SecMsg

/-! ## 1. The directory -/

/-- The files of the directory `smsgStore`. -/
inductive FileName where
  | dat (bucket : Int64)
  | wl (bucket : Int64)
deriving DecidableEq

namespace SmsgNode

def remove (node : SmsgNode) : FileName → SmsgNode
  | .dat bucket => { node with files := Function.update node.files bucket none }
  | .wl bucket => { node with wlFiles := Function.update node.wlFiles bucket none }

end SmsgNode

/-- The loop over a file: each message that is there to its end is scanned. -/
def scanFile (C : SmsgCrypto) (now : Int64) : Nat → Valtype → SmsgNode → Run SmsgNode
  | 0, _, node => .ok node
  | fuel + 1, rest, node =>
    if rest.length < smsgHdrLen then .ok node
    else
      let header := rest.take smsgHdrLen
      let nPayload := UInt32.ofNat (leNat (header.drop 100))
      let vchData := (rest.drop smsgHdrLen).take nPayload.toNat
      if vchData.length ≠ nPayload.toNat then .ok node
      else secureMsgScanMessage C now ⟨header, 0⟩ ⟨vchData, 0⟩ nPayload node >>= fun (_, node) =>
        scanFile C now fuel (rest.drop (smsgHdrLen + nPayload.toNat)) node

/-- `SecureMsgScanBuckets`, for the files as the directory lists them. -/
def secureMsgScanBuckets (C : SmsgCrypto) (now : Int64) (listing : List FileName) (node : SmsgNode) :
    Run SmsgNode :=
  if !node.fSecMsgEnabled || node.fLocked then .ok node
  else listing.foldlM (fun node name =>
    match name with
    | .dat fileTime =>
      match node.files fileTime with
      | none => .ok node
      | some file =>
        if fileTime < now - smsgRetention then .ok (node.remove name)
        else do
          let node ← scanFile C now (file.length + 1) file node
          -- "remove wl file when scanned"
          return node.remove name
    | .wl fileTime =>
      if fileTime < now - smsgRetention then .ok (node.remove name) else .ok node) node

def secureMsgWalletUnlocked (C : SmsgCrypto) (now : Int64) (listing : List FileName)
    (node : SmsgNode) : Run SmsgNode :=
  if !node.fSecMsgEnabled || node.fLocked then .ok node
  else listing.foldlM (fun node name =>
    match name with
    | .dat _ => .ok node
    | .wl fileTime =>
      match node.wlFiles fileTime with
      | none => .ok node
      | some file =>
        if fileTime < now - smsgRetention then .ok (node.remove name)
        else do
          let node ← scanFile C now (file.length + 1) file node
          return node.remove name) node

/-- A round of `ThreadSecureMsg`: expired buckets go with their files, and locks are counted down.
-/
def threadSecureMsg (now : Int64) (node : SmsgNode) : SmsgNode :=
  let expired bucket := (node.smsgBuckets bucket).isSome && decide (bucket < now - smsgRetention)
  { node with
    smsgBuckets := fun bucket =>
      if expired bucket then none
      else (node.smsgBuckets bucket).map fun b =>
        if b.nLockCount > 0 then
          { b with
            nLockCount := b.nLockCount - 1
            nLockPeerId := if b.nLockCount - 1 = 0 then 0 else b.nLockPeerId }
        else b
    files := fun bucket => if expired bucket then none else node.files bucket
    wlFiles := fun bucket => if expired bucket then none else node.wlFiles bucket }

/-! ## 2. `SecureMsgBuildBucketSet` -/

/-- The loop over a file: the tokens of its messages.  After a message with less than eight bytes it
goes on where its payload begins. -/
def buildTokens : Nat → Nat → Valtype → List SecMsgToken → List SecMsgToken
  | 0, _, _, tokenSet => tokenSet
  | fuel + 1, ofs, rest, tokenSet =>
    if rest.length < smsgHdrLen then tokenSet
    else
      let header := rest.take smsgHdrLen
      let nPayload := (UInt32.ofNat (leNat (header.drop 100))).toNat
      if nPayload < 8 then buildTokens fuel (ofs + smsgHdrLen) (rest.drop smsgHdrLen) tokenSet
      else
        let sample := (rest.drop smsgHdrLen).take 8
        if sample.length ≠ 8 then tokenSet
        else buildTokens fuel (ofs + (smsgHdrLen + nPayload)) (rest.drop (smsgHdrLen + nPayload))
          (insertToken ⟨Int64.ofNat (leNat ((header.drop 7).take 8)), sample, ofs⟩ tokenSet)

/-- A file of the directory. -/
def buildFile (C : SmsgCrypto) (now : Int64) (node : SmsgNode) (name : FileName) : SmsgNode :=
  match name with
  | .dat fileTime =>
    if fileTime < now - smsgRetention then node.remove name
    else
      match node.files fileTime with
      | none => node
      | some file =>
        let b := node.bucket fileTime
        let b := { b with setTokens := buildTokens (file.length + 1) 0 file b.setTokens }
        node.setBucket fileTime (b.hashBucket C now)
  | .wl fileTime => if fileTime < now - smsgRetention then node.remove name else node

def secureMsgBuildBucketSet (C : SmsgCrypto) (now : Int64) (listing : List FileName)
    (node : SmsgNode) : SmsgNode := listing.foldl (buildFile C now) node

/-- The directory lists each file once. -/
structure Lists (node : SmsgNode) (listing : List FileName) : Prop where
  nodup : listing.Nodup
  mem : ∀ bucket, FileName.dat bucket ∈ listing ↔ node.files bucket ≠ none
  memLocked : ∀ bucket, FileName.wl bucket ∈ listing ↔ node.wlFiles bucket ≠ none

/-- `SecureMsgDisable` and `SecureMsgEnable`: the buckets are made from the files again. -/
def rebuilt (C : SmsgCrypto) (now : Int64) (listing : List FileName) (node : SmsgNode) : SmsgNode :=
  secureMsgBuildBucketSet C now listing { node with smsgBuckets := fun _ => none }

/-! ## 3. Messages that are stored -/

/-- A message: a header that states the length of the payload. -/
structure SecureMessage where
  header : Valtype
  payload : Valtype
  size : header.length = smsgHdrLen
  stated : payload.length = leNat (header.drop 100)
  small : payload.length < 2 ^ 31

namespace SecureMessage

/-- What is appended to the file. -/
def bytes (m : SecureMessage) : Valtype := m.header ++ m.payload

/-- Its time. -/
def timestamp (m : SecureMessage) : Int64 := Int64.ofNat (leNat ((m.header.drop 7).take 8))

/-- Its sample. -/
def sample (m : SecureMessage) : Valtype :=
  if m.payload.length < 8 then List.replicate 8 0 else m.payload.take 8

/-- Its token, when it begins at an offset. -/
def token (m : SecureMessage) (ofs : Nat) : SecMsgToken := ⟨m.timestamp, m.sample, ofs⟩

/-- It is neither too old nor known, so that it is stored. -/
def Stores (now : Int64) (m : SecureMessage) (node : SmsgNode) : Prop :=
  timely now m.timestamp = true ∧
    findToken (m.token 0) (node.bucket (bucketOf m.timestamp)).setTokens = none

instance (now : Int64) (m : SecureMessage) (node : SmsgNode) : Decidable (m.Stores now node) :=
  inferInstanceAs (Decidable (_ ∧ _))

/-- What a header and a payload are read as. -/
def parse (header payload : Valtype) : Option SecureMessage :=
  if h : header.length = smsgHdrLen ∧ payload.length = leNat (header.drop 100) ∧
      payload.length < 2 ^ 31 then
    some ⟨header, payload, h.1, h.2.1, h.2.2⟩
  else none

/-- The pointers and the length are those of the message. -/
structure At (m : SecureMessage) (pHeader pPayload : Ptr) (nPayload : UInt32) : Prop where
  holds : pHeader.Holds smsgHdrLen
  header : pHeader.slice smsgHdrLen = m.header
  holdsPayload : pPayload.Holds nPayload.toNat
  payload : pPayload.slice nPayload.toNat = m.payload

end SecureMessage

/-- What was stored in each bucket and has not expired. -/
abbrev Log := Int64 → List SecureMessage

/-- A message was stored. -/
def Log.add (log : Log) (m : SecureMessage) : Log :=
  Function.update log (bucketOf m.timestamp) (log (bucketOf m.timestamp) ++ [m])

/-- Expired messages are forgotten. -/
def Log.expire (log : Log) (now : Int64) : Log := fun b => if b < now - smsgRetention then [] else log b

/-- The tokens of messages in a file. -/
def tokensOf (l : List SecureMessage) : List SecMsgToken :=
  overRecords SecureMessage.bytes (fun ofs m => insertToken (m.token ofs)) 0 l []

/-- The file and the tokens of a bucket are those of the messages that were stored. -/
structure BucketOk (node : SmsgNode) (b : Int64) (l : List SecureMessage) : Prop where
  file : node.files b = if l = [] then none else some (records SecureMessage.bytes l)
  tokens : (node.bucket b).setTokens = tokensOf l
  messages : ∀ m ∈ l, bucketOf m.timestamp = b ∧ 8 ≤ m.payload.length

/-- The hash of a bucket is that of its tokens. -/
def HashOk (C : SmsgCrypto) (node : SmsgNode) (b : Int64) : Prop :=
  ∀ bkt, node.smsgBuckets b = some bkt → bkt.hash = C.xxh32 (bkt.setTokens.flatMap SecMsgToken.sample)

section

variable {C : SmsgCrypto} {node node' : SmsgNode} {b : Int64} {l : List SecureMessage}
  {m : SecureMessage} {now : Int64} {pHeader pPayload : Ptr} {nPayload : UInt32}

theorem BucketOk.congr (h : BucketOk node b l) (hfiles : node'.files b = node.files b)
    (htokens : (node'.bucket b).setTokens = (node.bucket b).setTokens) : BucketOk node' b l :=
  ⟨hfiles.trans h.file, htokens.trans h.tokens, h.messages⟩

theorem BucketOk.file_getD (h : BucketOk node b l) :
    (node.files b).getD [] = records SecureMessage.bytes l := by
  rw [h.file]
  split_ifs with hnil
  · rw [hnil]
    rfl
  · rfl

theorem SecureMessage.At.toNat (h : m.At pHeader pPayload nPayload) :
    nPayload.toNat = m.payload.length := by
  rw [← h.payload, Ptr.length_slice h.holdsPayload]

theorem SecureMessage.At.timestamp (h : m.At pHeader pPayload nPayload) :
    SecMsg.timestamp pHeader = .ok m.timestamp := by
  rw [timestamp_of_holds h.holds, SecureMessage.timestamp, ← h.header]
  congr 3
  rw [Ptr.slice, Ptr.slice, Ptr.add, List.drop_take, List.take_take, List.drop_drop]
  rfl

theorem SecureMessage.At.token (h : m.At pHeader pPayload nPayload) :
    SecMsgToken.new m.timestamp pPayload nPayload 0 = .ok (m.token 0) := by
  have hsmall := m.small
  have hnat := h.toNat
  have htoInt : nPayload.toInt32.toInt = nPayload.toNat := by
    change (nPayload.toBitVec).toInt = (nPayload.toBitVec.toNat : Int)
    rw [BitVec.toInt_eq_toNat_cond]
    change nPayload.toBitVec.toNat = _ at hnat
    split_ifs <;> omega
  have height : (8 : Int32).toInt = 8 := by decide
  have hint : nPayload.toInt32 < 8 ↔ m.payload.length < 8 := by
    rw [Int32.lt_iff_toInt_lt]
    omega
  unfold SecMsgToken.new SecureMessage.token SecureMessage.sample
  by_cases hshort : m.payload.length < 8
  · rw [if_pos (hint.mpr hshort), if_pos hshort]
    rfl
  · rw [if_neg (mt hint.mp hshort), if_neg hshort,
      Ptr.read_of_holds (h.holdsPayload.mono (by omega)), ← h.payload, Ptr.slice, Ptr.slice,
      List.take_take, min_eq_left (by omega)]
    rfl

/-- The node after a message was stored. -/
def storedNode (C : SmsgCrypto) (now : Int64) (m : SecureMessage) (fUpdateBucket : Bool)
    (node : SmsgNode) : SmsgNode :=
  let bucket := bucketOf m.timestamp
  let ofs := ((node.files bucket).getD []).length
  let b := node.bucket bucket
  let b := { b with setTokens := insertToken (m.token ofs) b.setTokens }
  (node.append bucket m.bytes).setBucket bucket (if fUpdateBucket then b.hashBucket C now else b)

variable {fUpdateBucket : Bool}

/-- **What storing does**: the message is appended and its token is entered, or nothing is done. -/
theorem secureMsgStore_of_at (h : m.At pHeader pPayload nPayload) :
    secureMsgStore C now pHeader pPayload nPayload fUpdateBucket node =
      .ok (if m.Stores now node then (0, storedNode C now m fUpdateBucket node) else (1, node)) := by
  unfold secureMsgStore
  rw [h.timestamp]
  change (if _ then _ else _) = _
  split
  · next hlate =>
    rw [if_neg fun hstores => absurd hstores.1 (by simpa using hlate)]
    rfl
  · next htimely =>
    rw [h.token]
    change (if _ then _ else _) = _
    split
    · next hfound =>
      rw [if_neg fun hstores => absurd hfound (by rw [hstores.2]; decide)]
      -- the token was found, so that the bucket was there
      cases hbucket : node.smsgBuckets (bucketOf m.timestamp) with
      | none =>
        rw [SmsgNode.bucket, hbucket] at hfound
        cases hfound
      | some bkt =>
        rw [SmsgNode.setBucket, SmsgNode.bucket, hbucket, Option.getD_some, ← hbucket,
          Function.update_eq_self]
        rfl
    · next hfound =>
      rw [if_pos ⟨by simpa using htimely, by simpa using hfound⟩, Ptr.read_of_holds h.holds,
        Ptr.read_of_holds h.holdsPayload, h.header, h.payload]
      rfl

theorem secureMsgStore_cases {rv : Nat} (h : m.At pHeader pPayload nPayload)
    (hstore : secureMsgStore C now pHeader pPayload nPayload fUpdateBucket node = .ok (rv, node')) :
    (rv = 1 ∧ node' = node) ∨
      (rv = 0 ∧ m.Stores now node ∧ node' = storedNode C now m fUpdateBucket node) := by
  rw [secureMsgStore_of_at h] at hstore
  split_ifs at hstore with hstores
  · cases hstore
    exact Or.inr ⟨rfl, hstores, rfl⟩
  · cases hstore
    exact Or.inl ⟨rfl, rfl⟩

theorem storedNode_files (b : Int64) :
    (storedNode C now m fUpdateBucket node).files b =
      if b = bucketOf m.timestamp then some ((node.files b).getD [] ++ m.bytes) else node.files b := by
  unfold storedNode SmsgNode.setBucket SmsgNode.append
  simp only [Function.update_apply]
  split_ifs with hb <;> simp [hb]

theorem storedNode_tokens (b : Int64) :
    ((storedNode C now m fUpdateBucket node).bucket b).setTokens =
      if b = bucketOf m.timestamp then
        insertToken (m.token ((node.files b).getD []).length) (node.bucket b).setTokens
      else (node.bucket b).setTokens := by
  unfold storedNode SmsgNode.setBucket SmsgNode.append SmsgNode.bucket
  simp only [Function.update_apply]
  split_ifs with hb hupdate
  · rw [hb]
    rfl
  · rw [hb]
    rfl
  · rfl

theorem log_add (log : Log) (b : Int64) :
    log.add m b = if b = bucketOf m.timestamp then log b ++ [m] else log b := by
  rw [Log.add, Function.update_apply]
  split_ifs with hb
  · rw [hb]
  · rfl

theorem tokensOf_snoc : tokensOf (l ++ [m]) =
    insertToken (m.token (records SecureMessage.bytes l).length) (tokensOf l) := by
  rw [tokensOf, overRecords_snoc, Nat.zero_add]
  rfl

/-- **A message more** in its bucket, and the others as they were. -/
theorem BucketOk.stored {log : Log} (h : BucketOk node b (log b)) (hlong : 8 ≤ m.payload.length) :
    BucketOk (storedNode C now m fUpdateBucket node) b (log.add m b) := by
  rw [log_add]
  split_ifs with hb
  · refine ⟨?_, ?_, ?_⟩
    · rw [storedNode_files, if_pos hb, h.file_getD, if_neg (by simp), records_append, records_cons,
        records_nil, List.append_nil]
    · rw [storedNode_tokens, if_pos hb, h.file_getD, h.tokens, tokensOf_snoc]
    · intro m' hm'
      rcases List.mem_append.mp hm' with hm' | hm'
      · exact h.messages m' hm'
      · rw [List.mem_singleton] at hm'
        subst hm'
        exact ⟨hb.symm, hlong⟩
  · exact h.congr (by rw [storedNode_files, if_neg hb]) (by rw [storedNode_tokens, if_neg hb])

theorem storedNode_buckets (hb : b ≠ bucketOf m.timestamp) :
    (storedNode C now m fUpdateBucket node).smsgBuckets b = node.smsgBuckets b := by
  unfold storedNode SmsgNode.setBucket SmsgNode.append
  exact Function.update_of_ne hb _ _

theorem HashOk.stored (h : HashOk C node b) : HashOk C (storedNode C now m true node) b := by
  intro bkt hbkt
  by_cases hb : b = bucketOf m.timestamp
  · subst hb
    unfold storedNode SmsgNode.setBucket at hbkt
    simp only [Function.update_self, if_true, Option.some.injEq] at hbkt
    rw [← hbkt]
    rfl
  · rw [storedNode_buckets hb] at hbkt
    exact h bkt hbkt

end

/-! ## 4. Scanning leaves the store alone -/

/-- The buckets and their files are as they were. -/
structure Untouched (node node' : SmsgNode) : Prop where
  smsgBuckets : node'.smsgBuckets = node.smsgBuckets
  files : node'.files = node.files

section

variable {C : SmsgCrypto} {node node' node'' : SmsgNode} {b : Int64} {l : List SecureMessage}
  {now : Int64} {pHeader pPayload : Ptr} {nPayload : UInt32}

theorem Untouched.refl (node : SmsgNode) : Untouched node node := ⟨rfl, rfl⟩

theorem Untouched.trans (h : Untouched node node') (h' : Untouched node' node'') :
    Untouched node node'' := ⟨h'.smsgBuckets.trans h.smsgBuckets, h'.files.trans h.files⟩

theorem Untouched.bucketOk (h : Untouched node node') (hb : BucketOk node b l) : BucketOk node' b l :=
  hb.congr (by rw [h.files]) (by rw [SmsgNode.bucket, SmsgNode.bucket, h.smsgBuckets])

theorem Untouched.hashOk (h : Untouched node node') (hb : HashOk C node b) : HashOk C node' b := by
  intro bkt hbkt
  rw [h.smsgBuckets] at hbkt
  exact hb bkt hbkt

variable {rv : Nat} {listing : List FileName}

theorem secureMsgStoreUnscanned_untouched
    (h : secureMsgStoreUnscanned now pHeader pPayload nPayload node = .ok (rv, node')) :
    Untouched node node' := by
  unfold secureMsgStoreUnscanned at h
  obtain ⟨timestamp, -, h⟩ := bind_eq_ok.mp h
  split at h
  · cases h
    exact .refl node
  · obtain ⟨header, -, h⟩ := bind_eq_ok.mp h
    obtain ⟨payload, -, h⟩ := bind_eq_ok.mp h
    cases h
    exact ⟨rfl, rfl⟩

theorem secureMsgScanMessage_untouched
    (h : secureMsgScanMessage C now pHeader pPayload nPayload node = .ok (rv, node')) :
    Untouched node node' := by
  unfold secureMsgScanMessage at h
  split at h
  · obtain ⟨⟨rv, node⟩, hstore, h⟩ := bind_eq_ok.mp h
    cases h
    exact secureMsgStoreUnscanned_untouched hstore
  · obtain ⟨header, -, h⟩ := bind_eq_ok.mp h
    obtain ⟨payload, -, h⟩ := bind_eq_ok.mp h
    split at h
    · cases h
      exact .refl node
    · obtain ⟨sample, -, h⟩ := bind_eq_ok.mp h
      dsimp only at h
      split at h
      · cases h
        exact .refl node
      · cases h
        exact ⟨rfl, rfl⟩

theorem scanFile_untouched : ∀ {fuel : Nat} {rest : Valtype} {node node' : SmsgNode},
    scanFile C now fuel rest node = .ok node' → Untouched node node'
  | 0, _, node, _, h => by
    cases h
    exact .refl node
  | fuel + 1, rest, node, node', h => by
    unfold scanFile at h
    split at h
    · cases h
      exact .refl node
    · dsimp only at h
      split at h
      · cases h
        exact .refl node
      · obtain ⟨⟨rv, next⟩, hscan, h⟩ := bind_eq_ok.mp h
        exact (secureMsgScanMessage_untouched hscan).trans (scanFile_untouched h)

/-- A loop over the directory whose rounds leave the store alone. -/
theorem foldlM_untouched {f : SmsgNode → FileName → Run SmsgNode}
    (hf : ∀ {node name node'}, f node name = .ok node' → Untouched node node') :
    ∀ {listing : List FileName} {node node' : SmsgNode},
      listing.foldlM f node = .ok node' → Untouched node node'
  | [], node, _, h => by
    cases h
    exact .refl node
  | name :: listing, node, node', h => by
    rw [List.foldlM_cons] at h
    obtain ⟨next, hnext, h⟩ := bind_eq_ok.mp h
    exact (hf hnext).trans (foldlM_untouched hf h)

/-- Unlocking the wallet touches only its own files. -/
theorem secureMsgWalletUnlocked_untouched
    (h : secureMsgWalletUnlocked C now listing node = .ok node') : Untouched node node' := by
  unfold secureMsgWalletUnlocked at h
  split at h
  · cases h
    exact .refl node
  · refine foldlM_untouched ?_ h
    intro node name node' hround
    cases name with
    | dat fileTime =>
      cases hround
      exact .refl node
    | wl fileTime =>
      dsimp only at hround
      split at hround
      · cases hround
        exact .refl node
      · split at hround
        · cases hround
          exact ⟨rfl, rfl⟩
        · obtain ⟨next, hscan, hround⟩ := bind_eq_ok.mp hround
          cases hround
          exact (scanFile_untouched hscan).trans ⟨rfl, rfl⟩

/-- Without files of buckets there is nothing to remove. -/
theorem secureMsgScanBuckets_untouched
    (hnone : node.fSecMsgEnabled = false ∨ node.fLocked = true ∨
      ∀ b, FileName.dat b ∈ listing → node.files b = none)
    (h : secureMsgScanBuckets C now listing node = .ok node') : Untouched node node' := by
  unfold secureMsgScanBuckets at h
  split at h
  · cases h
    exact .refl node
  · next hgo =>
    have hfiles : ∀ b, FileName.dat b ∈ listing → node.files b = none := by
      rcases hnone with hoff | hlocked | hfiles
      · exact absurd hgo (by simp [hoff])
      · exact absurd hgo (by simp [hlocked])
      · exact hfiles
    clear hnone hgo
    induction listing generalizing node with
    | nil =>
      cases h
      exact .refl _
    | cons name listing ih =>
      rw [List.foldlM_cons] at h
      obtain ⟨next, hround, h⟩ := bind_eq_ok.mp h
      have hnext : Untouched node next := by
        cases name with
        | dat fileTime =>
          dsimp only at hround
          rw [hfiles fileTime (List.mem_cons_self ..)] at hround
          cases hround
          exact .refl node
        | wl fileTime =>
          dsimp only at hround
          split at hround
          · cases hround
            exact ⟨rfl, rfl⟩
          · cases hround
            exact .refl node
      refine hnext.trans (ih h fun b hb => ?_)
      rw [hnext.files, hfiles b (List.mem_cons_of_mem _ hb)]

end

/-! ## 5. The tokens made again -/

section

variable {C : SmsgCrypto} {node : SmsgNode} {b : Int64} {now : Int64}

theorem SecureMessage.toNat_stated (m : SecureMessage) :
    (UInt32.ofNat (leNat (m.header.drop 100))).toNat = m.payload.length := by
  have hsmall := m.small
  rw [← m.stated]
  exact UInt32.toNat_ofNat_of_lt' (by simp only [UInt32.size]; omega)

theorem SecureMessage.take_header (m : SecureMessage) (rest : Valtype) :
    (m.bytes ++ rest).take smsgHdrLen = m.header := by
  rw [SecureMessage.bytes, List.append_assoc]
  exact List.take_left' m.size

theorem SecureMessage.drop_header (m : SecureMessage) (rest : Valtype) :
    (m.bytes ++ rest).drop smsgHdrLen = m.payload ++ rest := by
  rw [SecureMessage.bytes, List.append_assoc]
  exact List.drop_left' m.size

theorem SecureMessage.length_bytes (m : SecureMessage) :
    m.bytes.length = smsgHdrLen + m.payload.length := by
  rw [SecureMessage.bytes, List.length_append, m.size]

/-- **Going through a file gives the tokens of its messages**, if all of them have eight bytes. -/
theorem buildTokens_records : ∀ {l : List SecureMessage} {fuel ofs : Nat}
    {tokenSet : List SecMsgToken}, (∀ m ∈ l, 8 ≤ m.payload.length) →
      (records SecureMessage.bytes l).length < fuel →
      buildTokens fuel ofs (records SecureMessage.bytes l) tokenSet =
        overRecords SecureMessage.bytes (fun ofs m => insertToken (m.token ofs)) ofs l tokenSet
  | _, 0, _, _, _, hfuel => absurd hfuel (by omega)
  | [], fuel + 1, _, _, _, _ => rfl
  | m :: l, fuel + 1, ofs, tokenSet, hlong, hfuel => by
    have hm := hlong m (List.mem_cons_self ..)
    have hlength := m.length_bytes
    rw [records_cons, List.length_append, hlength] at hfuel
    have hheader : ¬ (m.bytes ++ records SecureMessage.bytes l).length < smsgHdrLen := by
      rw [List.length_append, hlength]
      omega
    have hsample : (m.payload ++ records SecureMessage.bytes l).take 8 = m.payload.take 8 :=
      List.take_append_of_le_length hm
    have hnext : (m.bytes ++ records SecureMessage.bytes l).drop (smsgHdrLen + m.payload.length) =
        records SecureMessage.bytes l := List.drop_left' hlength
    have height : (m.payload.take 8).length = 8 := by
      rw [List.length_take, min_eq_left hm]
    have htoken : m.token ofs = ⟨m.timestamp, m.payload.take 8, ofs⟩ := by
      rw [SecureMessage.token, SecureMessage.sample, if_neg (by omega)]
    rw [records_cons, buildTokens, if_neg hheader]
    dsimp only
    rw [m.take_header, m.toNat_stated, if_neg (by omega), m.drop_header, hsample,
      if_neg (not_not.mpr height), hnext, overRecords, hlength, htoken,
      buildTokens_records (fun m' hm' => hlong m' (List.mem_cons_of_mem _ hm')) (by omega)]
    rfl

variable (C node now) in
/-- Files of other buckets do not matter. -/
theorem buildFile_other {name : FileName} (h : name ≠ .dat b) :
    (buildFile C now node name).files b = node.files b ∧
      (buildFile C now node name).smsgBuckets b = node.smsgBuckets b := by
  cases name with
  | wl fileTime =>
    unfold buildFile
    dsimp only
    split_ifs <;> exact ⟨rfl, rfl⟩
  | dat fileTime =>
    have hne : b ≠ fileTime := fun heq => h (heq ▸ rfl)
    unfold buildFile
    dsimp only
    split
    · exact ⟨Function.update_of_ne hne _ _, rfl⟩
    · split
      · exact ⟨rfl, rfl⟩
      · exact ⟨rfl, Function.update_of_ne hne _ _⟩

variable (C now) in
theorem buildBucketSet_other : ∀ {listing : List FileName} (node : SmsgNode),
    FileName.dat b ∉ listing →
      (secureMsgBuildBucketSet C now listing node).files b = node.files b ∧
        (secureMsgBuildBucketSet C now listing node).smsgBuckets b = node.smsgBuckets b
  | [], _, _ => ⟨rfl, rfl⟩
  | name :: listing, node, h => by
    obtain ⟨hne, hrest⟩ := not_or.mp (mt List.mem_cons.mpr h)
    obtain ⟨hfiles, hbuckets⟩ := buildBucketSet_other (buildFile C now node name) hrest
    obtain ⟨hfiles', hbuckets'⟩ := buildFile_other C node now (Ne.symm hne)
    exact ⟨hfiles.trans hfiles', hbuckets.trans hbuckets'⟩

/-- The file of a bucket makes its tokens. -/
theorem buildFile_bucket {l : List SecureMessage}
    (hfile : node.files b = some (records SecureMessage.bytes l)) (hempty : node.smsgBuckets b = none)
    (hlong : ∀ m ∈ l, 8 ≤ m.payload.length) (hnew : ¬ b < now - smsgRetention) :
    (buildFile C now node (.dat b)).files b = node.files b ∧
      (buildFile C now node (.dat b)).smsgBuckets b =
        some (SecMsgBucket.hashBucket C now { SecMsgBucket.new with setTokens := tokensOf l }) := by
  unfold buildFile
  dsimp only
  rw [if_neg hnew, hfile]
  refine ⟨hfile, ?_⟩
  have hnone : (node.bucket b).setTokens = [] := by
    rw [SmsgNode.bucket, hempty]
    rfl
  have hbucket : node.bucket b = SecMsgBucket.new := by
    rw [SmsgNode.bucket, hempty]
    rfl
  dsimp only [SmsgNode.setBucket]
  rw [Function.update_self, hbucket]
  congr 2
  dsimp only [SecMsgBucket.new]
  rw [buildTokens_records hlong (Nat.lt_succ_self _)]
  rfl

theorem BucketOk.empty (hfile : node.files b = none) (hbucket : node.smsgBuckets b = none) :
    BucketOk node b [] := by
  refine ⟨hfile, ?_, fun m hm => absurd hm List.not_mem_nil⟩
  rw [SmsgNode.bucket, hbucket]
  rfl

theorem HashOk.empty (hbucket : node.smsgBuckets b = none) : HashOk C node b := by
  intro bkt hbkt
  rw [hbucket] at hbkt
  cases hbkt

/-- **What is made of a bucket**: nothing if its file is not there or has expired, and otherwise its
tokens, and their hash. -/
theorem rebuilt_bucket {listing : List FileName} {l : List SecureMessage} (hlists : Lists node listing)
    (hb : BucketOk node b l) :
    BucketOk (rebuilt C now listing node) b (if b < now - smsgRetention then [] else l) ∧
      HashOk C (rebuilt C now listing node) b := by
  by_cases hmem : FileName.dat b ∈ listing
  · obtain ⟨pre, post, rfl⟩ := List.append_of_mem hmem
    obtain ⟨-, hpost, hpre⟩ := List.nodup_append.mp hlists.nodup
    have hpre : FileName.dat b ∉ pre := fun h => hpre _ h _ (List.mem_cons_self ..) rfl
    have hpost : FileName.dat b ∉ post := (List.nodup_cons.mp hpost).1
    unfold rebuilt secureMsgBuildBucketSet
    rw [List.foldl_append, List.foldl_cons]
    set start : SmsgNode := { node with smsgBuckets := fun _ => none }
    obtain ⟨hfiles, hbuckets⟩ := buildBucketSet_other C now start hpre
    unfold secureMsgBuildBucketSet at hfiles hbuckets
    set before := pre.foldl (buildFile C now) start
    obtain ⟨hfiles', hbuckets'⟩ := buildBucketSet_other C now (buildFile C now before (.dat b)) hpost
    unfold secureMsgBuildBucketSet at hfiles' hbuckets'
    split_ifs with hexpired
    · have hremove : buildFile C now before (.dat b) = before.remove (.dat b) := if_pos hexpired
      rw [hremove] at hfiles' hbuckets' ⊢
      have hgone := hbuckets'.trans hbuckets
      exact ⟨.empty (hfiles'.trans (Function.update_self ..)) hgone, .empty hgone⟩
    · have hl : l ≠ [] := fun hnil => (hlists.mem b).mp hmem (by rw [hb.file, if_pos hnil])
      have hfile : before.files b = some (records SecureMessage.bytes l) :=
        hfiles.trans (hb.file.trans (if_neg hl))
      obtain ⟨hkept, hmade⟩ := buildFile_bucket (C := C) hfile hbuckets
        (fun m hm => (hb.messages m hm).2) hexpired
      rw [hkept, hfile] at hfiles'
      rw [hmade] at hbuckets'
      refine ⟨⟨hfiles'.trans (if_neg hl).symm, ?_, hb.messages⟩, fun bkt hbkt => ?_⟩
      · rw [SmsgNode.bucket, hbuckets']
        rfl
      · rw [hbuckets', Option.some.injEq] at hbkt
        rw [← hbkt]
        rfl
  · have hfile : node.files b = none := not_not.mp (mt (hlists.mem b).mpr hmem)
    have hl : l = [] := by
      by_contra hl
      rw [hb.file, if_neg hl] at hfile
      cases hfile
    obtain ⟨hfiles, hbuckets⟩ :=
      buildBucketSet_other C now { node with smsgBuckets := fun _ => none } hmem
    rw [hl, ite_self]
    exact ⟨.empty (hfiles.trans hfile) hbuckets, .empty hbuckets⟩

end

/-! ## 6. Retrieving, and expiry -/

section

variable {C : SmsgCrypto} {node : SmsgNode} {b : Int64} {l : List SecureMessage}
  {token t : SecMsgToken} {now : Int64}

theorem mem_insertToken : ∀ {s : List SecMsgToken}, t ∈ insertToken token s → t = token ∨ t ∈ s
  | [], h => Or.inl (List.mem_singleton.mp h)
  | x :: s, h => by
    unfold insertToken at h
    split_ifs at h
    · exact List.mem_cons.mp h
    · rcases List.mem_cons.mp h with rfl | h
      · exact Or.inr (List.mem_cons_self ..)
      · exact (mem_insertToken h).imp_right (List.mem_cons_of_mem _)
    · exact Or.inr h

theorem insertToken_ne_nil (s : List SecMsgToken) : insertToken token s ≠ [] := by
  cases s with
  | nil => exact List.cons_ne_nil _ _
  | cons x s =>
    unfold insertToken
    split_ifs <;> exact List.cons_ne_nil _ _

/-- At the offset of a message, the message is read. -/
theorem retrieve_record {pre post : List SecureMessage} {m : SecureMessage}
    (hfile : node.files (bucketOf m.timestamp) =
      some (records SecureMessage.bytes (pre ++ m :: post))) :
    secureMsgRetrieve node (m.token (records SecureMessage.bytes pre).length) = some m.bytes := by
  unfold secureMsgRetrieve
  change (match node.files (bucketOf m.timestamp) with | none => none | some file => _) = _
  have hrest : (records SecureMessage.bytes (pre ++ m :: post)).drop
      (m.token (records SecureMessage.bytes pre).length).offset =
        m.bytes ++ records SecureMessage.bytes post := drop_records pre post
  have hpayload : (m.payload ++ records SecureMessage.bytes post).take m.payload.length = m.payload :=
    List.take_left' rfl
  rw [hfile]
  dsimp only
  rw [hrest, m.take_header, m.toNat_stated, m.drop_header, hpayload,
    if_neg (not_not.mpr m.size), if_neg (not_not.mpr rfl)]
  rfl

/-- **A token of a bucket** is that of a message that was stored there, and finds it. -/
theorem BucketOk.retrieve (h : BucketOk node b l) (hmem : token ∈ (node.bucket b).setTokens) :
    bucketOf token.timestamp = b ∧ ∃ pre m post, l = pre ++ m :: post ∧
      token = m.token (records SecureMessage.bytes pre).length ∧
        secureMsgRetrieve node token = some m.bytes := by
  rw [h.tokens, tokensOf] at hmem
  rcases of_mem_overRecords SecureMessage.token mem_insertToken hmem with
    hnil | ⟨pre, m, post, rfl, htoken⟩
  · exact absurd hnil List.not_mem_nil
  · rw [Nat.zero_add] at htoken
    subst htoken
    have hbucket : bucketOf m.timestamp = b :=
      (h.messages m (List.mem_append_right _ (List.mem_cons_self ..))).1
    have hfile : node.files (bucketOf m.timestamp) =
        some (records SecureMessage.bytes (pre ++ m :: post)) := by
      rw [hbucket, h.file, if_neg (by simp)]
    exact ⟨hbucket, pre, m, post, rfl, rfl, retrieve_record hfile⟩

/-- A bucket that has messages is there. -/
theorem BucketOk.isSome (h : BucketOk node b l) (hl : l ≠ []) : (node.smsgBuckets b).isSome := by
  cases hbucket : node.smsgBuckets b with
  | some bkt => rfl
  | none =>
    have htokens := h.tokens
    rw [SmsgNode.bucket, hbucket] at htokens
    obtain ⟨pre, m, rfl⟩ := (List.eq_nil_or_concat' l).resolve_left hl
    rw [tokensOf_snoc] at htokens
    exact absurd htokens.symm (insertToken_ne_nil _)

theorem threadSecureMsg_tokens (h : ¬ b < now - smsgRetention) :
    ((threadSecureMsg now node).bucket b).setTokens = (node.bucket b).setTokens := by
  unfold threadSecureMsg SmsgNode.bucket
  simp only [h, decide_false, Bool.and_false, Bool.false_eq_true, if_false]
  cases node.smsgBuckets b with
  | none => rfl
  | some bkt =>
    rw [Option.map_some, Option.getD_some, Option.getD_some]
    split_ifs <;> rfl

/-- **Expiry** takes what has expired, and nothing else. -/
theorem BucketOk.expired (h : BucketOk node b l) :
    BucketOk (threadSecureMsg now node) b (if b < now - smsgRetention then [] else l) := by
  split_ifs with hold
  · by_cases hl : l = []
    · subst hl
      have hfile := h.file
      rw [if_pos rfl] at hfile
      refine ⟨?_, ?_, fun m hm => absurd hm List.not_mem_nil⟩
      · unfold threadSecureMsg
        dsimp only
        rw [hfile, ite_self, if_pos rfl]
      · have htokens := h.tokens
        rw [SmsgNode.bucket] at htokens ⊢
        unfold threadSecureMsg
        cases hbucket : node.smsgBuckets b with
        | none => simp [hbucket, SecMsgBucket.new, tokensOf, overRecords]
        | some bkt => simp [hbucket, hold, SecMsgBucket.new, tokensOf, overRecords]
    · have hgone : (node.smsgBuckets b).isSome && decide (b < now - smsgRetention) := by
        rw [h.isSome hl, decide_eq_true hold]
        rfl
      unfold threadSecureMsg
      exact .empty (if_pos hgone) (if_pos hgone)
  · refine h.congr ?_ (threadSecureMsg_tokens hold)
    unfold threadSecureMsg
    simp only [hold, decide_false, Bool.and_false, Bool.false_eq_true, if_false]

theorem HashOk.expired (h : HashOk C node b) : HashOk C (threadSecureMsg now node) b := by
  intro bkt hbkt
  unfold threadSecureMsg at hbkt
  dsimp only at hbkt
  split_ifs at hbkt
  obtain ⟨old, hold, rfl⟩ := Option.map_eq_some_iff.mp hbkt
  split_ifs <;> exact h old hold

end

/-! ## 7. A bunch of messages -/

/-- The message that begins in a bunch. -/
def messageAt (vchData : Valtype) (n : UInt32) : Option SecureMessage :=
  let pHeader : Ptr := ⟨vchData, n.toNat⟩
  SecureMessage.parse (pHeader.slice smsgHdrLen)
    ((pHeader.add smsgHdrLen).slice (statedSize pHeader).toNat)

/-- What the loop over a bunch stores: where it goes on after a message, the message was stored. -/
def bunchLog (C : SmsgCrypto) (clock : Nat → Int64) (vchData : Valtype) :
    Nat → Nat → UInt32 → Exchange → Log → Log
  | 0, _, _, _, log => log
  | k + 1, i, n, x, log =>
    match bunchMessage C (clock (i + 1)) vchData n x with
    | .ok (some n', x') =>
      bunchLog C clock vchData k (i + 1) n' x'
        (if n' = n then log else (messageAt vchData n).elim log log.add)
    | _ => log

/-- The bunch is looked at. -/
def LooksAt (now : Int64) (vchData : Valtype) : Prop :=
  12 ≤ vchData.length ∧ timely now (bunchTime vchData) = true ∧ 0 < firstCount vchData ∧
    firstCount vchData ≤ 500

instance (now : Int64) (vchData : Valtype) : Decidable (LooksAt now vchData) :=
  inferInstanceAs (Decidable (_ ∧ _))

/-- What `SecureMsgReceive` stores. -/
def receiveLog (C : SmsgCrypto) (clock : Nat → Int64) (vchData : Valtype) (x : Exchange) (log : Log) :
    Log :=
  if LooksAt (clock 0) vchData then
    bunchLog C clock vchData (firstCount vchData).toNat 0 12 x log
  else log

/-- If the message is stored, it is one of the bunch's bucket, with eight bytes. -/
def TakenRight (C : SmsgCrypto) (vchData : Valtype) (now : Int64) (n : UInt32) (x : Exchange) : Prop :=
  let pHeader : Ptr := ⟨vchData, n.toNat⟩
  ∀ m, messageAt vchData n = some m →
    secureMsgValidate C pHeader (pHeader.add smsgHdrLen) (statedSize pHeader) = .ok 0 →
      m.Stores now x.node → bucketOf m.timestamp = bunchTime vchData ∧ 8 ≤ m.payload.length

/-- So is every message that the loop comes to. -/
def BunchRight (C : SmsgCrypto) (clock : Nat → Int64) (vchData : Valtype) (x : Exchange) : Prop :=
  LooksAt (clock 0) vchData →
    BunchAll C clock vchData (TakenRight C vchData) (firstCount vchData).toNat 0 12 x

/-- The buckets are right, and hashed, but for one that may not be. -/
structure StoreOk (C : SmsgCrypto) (unhashed : Option Int64) (node : SmsgNode) (log : Log) : Prop where
  buckets : ∀ b, BucketOk node b (log b)
  hashes : ∀ b, unhashed ≠ some b → HashOk C node b

section

variable {C : SmsgCrypto} {now : Int64} {clock : Nat → Int64} {vchData : Valtype} {n : UInt32}
  {x x' : Exchange} {next : Option UInt32} {node node' : SmsgNode} {log : Log} {time : Int64}
  {m : SecureMessage} {pHeader : Ptr}

theorem messageAt_of_holds (h : (⟨vchData, n.toNat⟩ : Ptr).Holds smsgHdrLen)
    (hpayload : ((⟨vchData, n.toNat⟩ : Ptr).add smsgHdrLen).Holds
      (statedSize ⟨vchData, n.toNat⟩).toNat)
    (hsmall : (statedSize ⟨vchData, n.toNat⟩).toNat ≤ smsgMaxMsgWorst) :
    ∃ m, messageAt vchData n = some m ∧
      m.At ⟨vchData, n.toNat⟩ ((⟨vchData, n.toNat⟩ : Ptr).add smsgHdrLen)
        (statedSize ⟨vchData, n.toNat⟩) := by
  set pHeader : Ptr := ⟨vchData, n.toNat⟩ with hpHeader
  have hlength := Ptr.length_slice hpayload
  have hstated : leNat ((pHeader.slice smsgHdrLen).drop 100) = (statedSize pHeader).toNat := by
    have hbytes : (pHeader.slice smsgHdrLen).drop 100 = (pHeader.add 100).slice 4 := by
      rw [Ptr.slice, Ptr.slice, Ptr.add, List.drop_take, List.drop_drop]
      rfl
    have hfour : ((pHeader.add 100).slice 4).length = 4 := Ptr.length_slice (Ptr.holds_add.mpr h)
    have hlt := leNat_lt ((pHeader.add 100).slice 4)
    rw [hfour] at hlt
    rw [hbytes, statedSize, UInt32.toNat_ofNat_of_lt' hlt]
  have hparse : (pHeader.slice smsgHdrLen).length = smsgHdrLen ∧
      ((pHeader.add smsgHdrLen).slice (statedSize pHeader).toNat).length =
        leNat ((pHeader.slice smsgHdrLen).drop 100) ∧
      ((pHeader.add smsgHdrLen).slice (statedSize pHeader).toNat).length < 2 ^ 31 :=
    ⟨Ptr.length_slice h, hlength.trans hstated.symm, by
      rw [hlength]
      exact lt_of_le_of_lt hsmall (by decide)⟩
  exact ⟨_, dif_pos hparse, h, rfl, hpayload, rfl⟩

/-- **What a round of the loop does**: the store is left alone, and the loop ends or stays where it
is; or the message is stored, and not hashed. -/
theorem bunchMessage_cases (hsize : vchData.length ≤ 0x02000000) (hn : n.toNat ≤ vchData.length)
    (h : bunchMessage C now vchData n x = .ok (next, x')) :
    (Untouched x.node x'.node ∧ (next = none ∨ next = some n)) ∨
      ∃ m n', messageAt vchData n = some m ∧ next = some n' ∧ n' ≠ n ∧
        secureMsgValidate C ⟨vchData, n.toNat⟩ ((⟨vchData, n.toNat⟩ : Ptr).add smsgHdrLen)
          (statedSize ⟨vchData, n.toNat⟩) = .ok 0 ∧
        m.Stores now x.node ∧ Untouched (storedNode C now m false x.node) x'.node := by
  unfold bunchMessage at h
  have hroom := room_iff hsize hn
  split at h
  · cases h
    exact Or.inl ⟨.refl _, Or.inl rfl⟩
  · next hyes =>
    have hheader := hroom.mp hyes
    dsimp only at h
    rw [payloadSize_of_holds hheader] at h
    obtain ⟨rv, hv, h⟩ := bind_eq_ok.mp (show secureMsgValidate _ _ _ _ >>= _ = _ from h)
    split at h
    · cases h
      exact Or.inl ⟨.refl _, Or.inr rfl⟩
    · next hzero =>
      obtain rfl : rv = 0 := not_ne_iff.mp hzero
      obtain ⟨hlooked, hpayload⟩ := holds_of_validate hheader hv
      obtain ⟨m, hm, hat⟩ := messageAt_of_holds hheader hpayload hlooked.2
      obtain ⟨⟨rv, node⟩, hstore, h⟩ := bind_eq_ok.mp h
      dsimp only at h
      rcases secureMsgStore_cases hat hstore with ⟨rfl, rfl⟩ | ⟨rfl, hstores, rfl⟩
      · rw [if_pos (by decide)] at h
        cases h
        exact Or.inl ⟨.refl _, Or.inl rfl⟩
      · rw [if_neg (by decide)] at h
        obtain ⟨⟨_, node⟩, hscan, h⟩ := bind_eq_ok.mp h
        cases h
        refine Or.inr ⟨m, _, hm, rfl, fun heq => ?_, hv, hstores, secureMsgScanMessage_untouched hscan⟩
        -- a message and its header are less than 2 ^ 32 bytes
        have hnext := congrArg UInt32.toNat heq
        have hshort := hlooked.2
        have hlt := n.toNat_lt
        rw [UInt32.toNat_add, UInt32.toNat_add] at hnext
        change (n.toNat + (104 + _) % 2 ^ 32) % 2 ^ 32 = _ at hnext
        change _ ≤ 4218 at hshort
        omega

theorem StoreOk.untouched {unhashed : Option Int64} (h : StoreOk C unhashed node log)
    (hframe : Untouched node node') : StoreOk C unhashed node' log :=
  ⟨fun b => hframe.bucketOk (h.buckets b), fun b hb => hframe.hashOk (h.hashes b hb)⟩

/-- A message that is stored without a hash leaves one bucket open. -/
theorem StoreOk.stored (h : StoreOk C (some time) node log) (hbucket : bucketOf m.timestamp = time)
    (hlong : 8 ≤ m.payload.length) :
    StoreOk C (some time) (storedNode C now m false node) (log.add m) := by
  refine ⟨fun b => (h.buckets b).stored hlong, fun b hb bkt hbkt => ?_⟩
  have hother : b ≠ bucketOf m.timestamp := fun heq => hb (by rw [heq, hbucket])
  rw [storedNode_buckets hother] at hbkt
  exact h.hashes b hb bkt hbkt

/-- **The loop keeps the store**, with the bucket of the bunch open. -/
theorem StoreOk.bunchLoop (hsize : vchData.length ≤ 0x02000000) :
    ∀ {k i : Nat} {n : UInt32} {x : Exchange} {log : Log}, n.toNat ≤ vchData.length →
      BunchAll C clock vchData (TakenRight C vchData) k i n x →
        StoreOk C (some (bunchTime vchData)) x.node log →
          bunchLoop C clock vchData k i n x = .ok x' →
            StoreOk C (some (bunchTime vchData)) x'.node (bunchLog C clock vchData k i n x log)
  | 0, _, _, _, _, _, _, h, hloop => by
    cases hloop
    exact h
  | k + 1, i, n, x, log, hn, hall, h, hloop => by
    rw [SecMsg.bunchLoop] at hloop
    obtain ⟨⟨next, x₁⟩, hround, hloop⟩ := bind_eq_ok.mp hloop
    rw [bunchLog, hround]
    rcases bunchMessage_cases hsize hn hround with
      ⟨hframe, rfl | rfl⟩ | ⟨m, n', hm, rfl, hne, hv, hstores, hframe⟩
    · cases hloop
      exact h.untouched hframe
    · dsimp only
      rw [if_pos rfl]
      exact StoreOk.bunchLoop hsize hn (hall.2 _ _ hround) (h.untouched hframe) hloop
    · obtain ⟨hbucket, hlong⟩ := hall.1 m hm hv hstores
      dsimp only
      rw [if_neg hne, hm]
      exact StoreOk.bunchLoop hsize (le_of_bunchMessage hsize hn hround) (hall.2 _ _ hround)
        ((h.stored hbucket hlong).untouched hframe) hloop

/-- A bucket of the same tokens, with their hash. -/
theorem StoreOk.setBucket {bkt bkt' : SecMsgBucket} (h : StoreOk C (some time) node log)
    (hbkt : node.smsgBuckets time = some bkt) (htokens : bkt'.setTokens = bkt.setTokens)
    (hhash : bkt'.hash = C.xxh32 (bkt'.setTokens.flatMap SecMsgToken.sample)) :
    StoreOk C none (node.setBucket time bkt') log := by
  refine ⟨fun b => (h.buckets b).congr rfl ?_, fun b _ found hfound => ?_⟩
  · unfold SmsgNode.bucket SmsgNode.setBucket
    dsimp only
    rw [Function.update_apply]
    split_ifs with hb
    · rw [hb, hbkt, Option.getD_some, Option.getD_some, htokens]
    · rfl
  · unfold SmsgNode.setBucket at hfound
    dsimp only at hfound
    rw [Function.update_apply] at hfound
    split_ifs at hfound with hb
    · cases hfound
      exact hhash
    · exact h.hashes b (by simpa using Ne.symm hb) found hfound

/-- A bunch that is not looked at: its bucket is released at most. -/
theorem secureMsgReceive_of_not_looksAt (h : ¬ LooksAt (clock 0) vchData) :
    ∃ x', secureMsgReceive C clock vchData x = .ok (1, x') ∧
      (x'.node = x.node ∨ ∃ bkt, x.node.smsgBuckets (bunchTime vchData) = some bkt ∧
        x'.node = x.node.setBucket (bunchTime vchData) { bkt with nLockCount := 0 }) := by
  unfold secureMsgReceive
  split
  · exact ⟨x, rfl, Or.inl rfl⟩
  · next hlong =>
    have hlength : 12 ≤ vchData.length := by omega
    rw [readUInt32_firstCount (by omega), readTime_bunchTime hlength, ok_bind, ok_bind]
    change ∃ x', (if bunchTime vchData > clock 0 + smsgTimeLeeway then _ else _) = _ ∧ _
    split
    · exact ⟨x, rfl, Or.inl rfl⟩
    split
    · exact ⟨x, rfl, Or.inl rfl⟩
    split
    · dsimp only
      split
      · exact ⟨_, rfl, Or.inl rfl⟩
      · next bkt hbkt => exact ⟨_, rfl, Or.inr ⟨bkt, hbkt, rfl⟩⟩
    · next hlate hearly hgood =>
      rw [not_or] at hgood
      exact absurd ⟨hlength, by simp [timely, hlate, hearly],
        UInt32.pos_iff_ne_zero.mpr hgood.1, UInt32.not_lt.mp hgood.2⟩ h

/-- After the loop over a bunch: its bucket is released and hashed. -/
def closeBunch (C : SmsgCrypto) (now time : Int64) (x : Exchange) : Nat × Exchange :=
  match x.node.smsgBuckets time with
  | none => (1, x)
  | some b =>
    let b := { b with nLockCount := 0, nLockPeerId := 0 }.hashBucket C now
    (0, { x with node := x.node.setBucket time b })

/-- A bunch that is looked at. -/
theorem secureMsgReceive_of_looksAt (h : LooksAt (clock 0) vchData) :
    secureMsgReceive C clock vchData x =
      (SecMsg.bunchLoop C clock vchData (firstCount vchData).toNat 0 12 x >>= fun x' =>
        .ok (closeBunch C (clock 0) (bunchTime vchData) x')) := by
  obtain ⟨hlength, htimely, hpos, hfew⟩ := h
  unfold secureMsgReceive
  rw [if_neg (by omega), readUInt32_firstCount (by omega), readTime_bunchTime hlength]
  simp only [timely, Bool.and_eq_true, Bool.not_eq_true', decide_eq_false_iff_not] at htimely
  change (if _ then _ else _) = _
  rw [if_neg htimely.1, if_neg htimely.2,
    if_neg (not_or.mpr ⟨UInt32.pos_iff_ne_zero.mp hpos, UInt32.not_lt.mpr hfew⟩)]
  congr 1
  funext x'
  unfold closeBunch
  cases x'.node.smsgBuckets (bunchTime vchData) <;> rfl

/-- **`SecureMsgReceive` keeps the store** when it stores what belongs to the bunch's bucket. -/
theorem StoreOk.receive (hsize : vchData.length ≤ 0x02000000) {rv : Nat}
    (hright : BunchRight C clock vchData x) (h : StoreOk C none x.node log)
    (hreceive : secureMsgReceive C clock vchData x = .ok (rv, x')) :
    StoreOk C none x'.node (receiveLog C clock vchData x log) := by
  have hopen : StoreOk C (some (bunchTime vchData)) x.node log :=
    ⟨h.buckets, fun b _ => h.hashes b (by simp)⟩
  unfold receiveLog
  split_ifs with hlooks
  · rw [secureMsgReceive_of_looksAt hlooks] at hreceive
    obtain ⟨x₁, hloop, hclose⟩ := bind_eq_ok.mp hreceive
    have hstart : (12 : UInt32).toNat ≤ vchData.length := hlooks.1
    have hstored := StoreOk.bunchLoop hsize hstart (hright hlooks) hopen hloop
    unfold closeBunch at hclose
    split at hclose
    · next hnone =>
      cases hclose
      refine ⟨hstored.buckets, fun b _ => ?_⟩
      by_cases hb : b = bunchTime vchData
      · rw [hb]
        exact .empty hnone
      · exact hstored.hashes b (by simpa using Ne.symm hb)
    · next bkt hbkt =>
      cases hclose
      exact hstored.setBucket hbkt rfl rfl
  · obtain ⟨x₁, hclosed, hnode⟩ := @secureMsgReceive_of_not_looksAt C _ _ x hlooks
    cases hclosed.symm.trans hreceive
    rcases hnode with hnode | ⟨bkt, hbkt, hnode⟩
    · rwa [hnode]
    · rw [hnode]
      exact hopen.setBucket hbkt rfl (h.hashes _ (by simp) bkt hbkt)

end

/-! ## 8. Runs -/

/-- What happens to the store.  The directory lists its files in any order. -/
inductive StoreOp where
  | store (now : Int64) (m : SecureMessage) (fUpdateBucket : Bool)
  | receive (clock : Nat → Int64) (vchData : Received) (pfrom : SmsgPeer)
  | scanBuckets (now : Int64) (listing : List FileName)
  | walletUnlocked (now : Int64) (listing : List FileName)
  | expire (now : Int64)
  | restart (now : Int64) (listing : List FileName)
  | configure (fLocked : Bool) (smsgAddresses : List SecMsgAddress)

namespace StoreOp

/-- The node after an operation, and what is stored then. -/
def apply (C : SmsgCrypto) : StoreOp → SmsgNode × Log → Run (SmsgNode × Log)
  | store now m fUpdateBucket, (node, log) => do
    let (rv, node) ← secureMsgStore C now ⟨m.header, 0⟩ ⟨m.payload, 0⟩
      (UInt32.ofNat m.payload.length) fUpdateBucket node
    return (node, if rv = 0 then log.add m else log)
  | receive clock vchData pfrom, (node, log) => do
    let x : Exchange := ⟨node, pfrom, 0, []⟩
    let (_, x') ← secureMsgReceive C clock vchData.val x
    return (x'.node, receiveLog C clock vchData.val x log)
  | scanBuckets now listing, (node, log) => do
    let node ← secureMsgScanBuckets C now listing node
    return (node, log)
  | walletUnlocked now listing, (node, log) => do
    let node ← secureMsgWalletUnlocked C now listing node
    return (node, log)
  | expire now, (node, log) => .ok (threadSecureMsg now node, log.expire now)
  | restart now listing, (node, log) => .ok (rebuilt C now listing node, log.expire now)
  | configure fLocked smsgAddresses, (node, log) =>
    .ok ({ node with fLocked := fLocked, smsgAddresses := smsgAddresses }, log)

/-- The files are those of the directory. -/
def Listed : StoreOp → SmsgNode × Log → Prop
  | scanBuckets _ listing, (node, _) => Lists node listing
  | walletUnlocked _ listing, (node, _) => Lists node listing
  | restart _ listing, (node, _) => Lists node listing
  | _, _ => True

/-- What is stored is hashed and has eight bytes, a bunch is of one bucket, and buckets are not
scanned while there are files. -/
def Fits (C : SmsgCrypto) : StoreOp → SmsgNode × Log → Prop
  | store now m fUpdateBucket, (node, _) =>
    m.Stores now node → fUpdateBucket = true ∧ 8 ≤ m.payload.length
  | receive clock vchData pfrom, (node, _) => BunchRight C clock vchData.val ⟨node, pfrom, 0, []⟩
  | scanBuckets _ listing, (node, _) => node.fSecMsgEnabled = false ∨ node.fLocked = true ∨
      ∀ b, FileName.dat b ∈ listing → node.files b = none
  | _, _ => True

end StoreOp

/-- Runs from a node that has stored nothing, of operations that have a property. -/
inductive StoreRun (C : SmsgCrypto) (P : StoreOp → SmsgNode × Log → Prop) : SmsgNode × Log → Prop
  | start (node : SmsgNode) (hbuckets : ∀ b, node.smsgBuckets b = none)
      (hfiles : ∀ b, node.files b = none) : StoreRun C P (node, fun _ => [])
  | step {s s' : SmsgNode × Log} (h : StoreRun C P s) (op : StoreOp) (hlisted : op.Listed s)
      (hop : P op s) (hs' : op.apply C s = .ok s') : StoreRun C P s'

/-- What the store promises: tokens are in the buckets of their times and find what was stored, a
bucket has the hash of its tokens, and the files make the tokens that have not expired. -/
structure StoreRight (C : SmsgCrypto) (s : SmsgNode × Log) : Prop where
  inBucket : ∀ b, ∀ token ∈ (s.1.bucket b).setTokens, bucketOf token.timestamp = b
  retrieve : ∀ b, ∀ token ∈ (s.1.bucket b).setTokens, ∃ m ∈ s.2 b,
    token.timestamp = m.timestamp ∧ token.sample = m.sample ∧
      secureMsgRetrieve s.1 token = some (m.header ++ m.payload)
  hash : ∀ b, HashOk C s.1 b
  rebuild : ∀ now listing, Lists s.1 listing → ∀ b,
    ((rebuilt C now listing s.1).bucket b).setTokens =
      ((threadSecureMsg now s.1).bucket b).setTokens

section

variable {C : SmsgCrypto} {s s' : SmsgNode × Log}

theorem SecureMessage.at_self (m : SecureMessage) :
    m.At ⟨m.header, 0⟩ ⟨m.payload, 0⟩ (UInt32.ofNat m.payload.length) := by
  have hsmall := m.small
  have hnat : (UInt32.ofNat m.payload.length).toNat = m.payload.length :=
    UInt32.toNat_ofNat_of_lt' (by simp only [UInt32.size]; omega)
  refine ⟨holds_start.mpr ?_, List.take_of_length_le m.size.le, holds_start.mpr ?_,
    List.take_of_length_le ?_⟩
  · rw [m.size, Nat.zero_add]
  · rw [hnat, Nat.zero_add]
  · rw [hnat]
    rfl

/-- **Each operation that fits keeps the store.** -/
theorem StoreOk.apply {op : StoreOp} (h : StoreOk C none s.1 s.2) (hlisted : op.Listed s)
    (hfits : op.Fits C s) (hs' : op.apply C s = .ok s') : StoreOk C none s'.1 s'.2 := by
  obtain ⟨node, log⟩ := s
  cases op with
  | store now m fUpdateBucket =>
    obtain ⟨⟨rv, node'⟩, hstore, hs'⟩ := bind_eq_ok.mp hs'
    cases hs'
    rcases secureMsgStore_cases m.at_self hstore with ⟨rfl, rfl⟩ | ⟨rfl, hstores, rfl⟩
    · exact h
    · obtain ⟨rfl, hlong⟩ := hfits hstores
      exact ⟨fun b => (h.buckets b).stored hlong, fun b hb => (h.hashes b hb).stored⟩
  | receive clock vchData pfrom =>
    obtain ⟨⟨rv, x'⟩, hreceive, hs'⟩ := bind_eq_ok.mp hs'
    cases hs'
    exact StoreOk.receive vchData.property hfits h hreceive
  | scanBuckets now listing =>
    obtain ⟨node', hscan, hs'⟩ := bind_eq_ok.mp hs'
    cases hs'
    exact h.untouched (secureMsgScanBuckets_untouched hfits hscan)
  | walletUnlocked now listing =>
    obtain ⟨node', hscan, hs'⟩ := bind_eq_ok.mp hs'
    cases hs'
    exact h.untouched (secureMsgWalletUnlocked_untouched hscan)
  | expire now =>
    cases hs'
    exact ⟨fun b => (h.buckets b).expired, fun b hb => (h.hashes b hb).expired⟩
  | restart now listing =>
    cases hs'
    exact ⟨fun b => (rebuilt_bucket hlisted (h.buckets b)).1,
      fun b _ => (rebuilt_bucket hlisted (h.buckets b)).2⟩
  | configure fLocked smsgAddresses =>
    cases hs'
    exact h.untouched ⟨rfl, rfl⟩

theorem StoreRun.ok (h : StoreRun C (StoreOp.Fits C) s) : StoreOk C none s.1 s.2 := by
  induction h with
  | start node hbuckets hfiles =>
    exact ⟨fun b => .empty (hfiles b) (hbuckets b), fun b _ => .empty (hbuckets b)⟩
  | step _ op hlisted hop hs' ih => exact ih.apply hlisted hop hs'

/-- **The store keeps its promises** in every run whose operations fit. -/
theorem store_right (h : StoreRun C (StoreOp.Fits C) s) : StoreRight C s := by
  have hok := h.ok
  refine ⟨fun b token hmem => ((hok.buckets b).retrieve hmem).1, fun b token hmem => ?_,
    fun b => hok.hashes b (by simp), fun now listing hlists b => ?_⟩
  · obtain ⟨-, pre, m, post, hlog, rfl, hretrieve⟩ := (hok.buckets b).retrieve hmem
    refine ⟨m, ?_, rfl, rfl, hretrieve⟩
    rw [hlog]
    exact List.mem_append_right _ (List.mem_cons_self ..)
  · rw [(rebuilt_bucket hlists (hok.buckets b)).1.tokens, (hok.buckets b).expired.tokens]

end

theorem length_small : ([1, 2, 3, 4, 5, 6, 7, 8] : Valtype).length < 2 ^ 31 := by decide

/-- A message with a payload of eight bytes. -/
def sampleMessage : SecureMessage where
  header := List.replicate 7 0 ++ leBytes 8 6000 ++ List.replicate 85 0 ++ leBytes 4 8
  payload := [1, 2, 3, 4, 5, 6, 7, 8]
  size := by decide
  stated := by decide
  small := length_small

/-- The node that has stored it. -/
def sampleStored : SmsgNode × Log :=
  (storedNode sampleCrypto 6000 sampleMessage true freshNode, Log.add (fun _ => []) sampleMessage)

theorem sampleStored_run {P : StoreOp → SmsgNode × Log → Prop}
    (h : P (.store 6000 sampleMessage true) (freshNode, fun _ => [])) :
    StoreRun sampleCrypto P sampleStored :=
  .step (.start freshNode (fun _ => rfl) fun _ => rfl) (.store 6000 sampleMessage true) trivial h rfl

theorem store_right_stored : StoreRight sampleCrypto sampleStored :=
  store_right (sampleStored_run fun _ => ⟨rfl, by decide⟩)

theorem sampleStored_lists : Lists sampleStored.1 [.dat 6000] := by
  refine ⟨by decide, fun bucket => ?_, fun bucket => ?_⟩
  · have htime : bucketOf sampleMessage.timestamp = 6000 := by decide
    rw [sampleStored, storedNode_files, htime, List.mem_singleton, FileName.dat.injEq]
    split_ifs with hb
    · exact iff_of_true hb (by simp)
    · exact iff_of_false hb (by simp [freshNode])
  · exact iff_of_false (by simp) fun h => h rfl

/-- **Scanning takes the file away**, and the token that is left finds nothing. -/
theorem scanned_away :
    ∃ s, StoreRun sampleCrypto (fun _ _ => True) s ∧ ¬ StoreRight sampleCrypto s := by
  refine ⟨(sampleStored.1.remove (.dat 6000), sampleStored.2),
    .step (sampleStored_run trivial) (.scanBuckets 6000 [.dat 6000]) sampleStored_lists trivial rfl,
    fun h => ?_⟩
  obtain ⟨m, -, -, -, hretrieve⟩ := h.retrieve 6000 (sampleMessage.token 0) (by decide)
  cases hretrieve

end SecMsg

end Breakout
