/-
# A wallet as a ring of keys

The wallet is a ring of keys (`Ring`) with a passphrase and a lock: this is what a user sees of it.
Some entries have a public key and no key yet.

`Shows` is how the wallet of `WalletCrypt` stands for a ring: in the open, locked while it was
empty, or encrypted.  The runs of both are about crypto that decrypts what it has encrypted
(`Lawful`), and about operations that bring keys of the right size and no passphrase that opens the
wallet by chance (`EachFits`).
-/
import Breakout.WalletCrypt

namespace Breakout

open Lib Std
open SecMsg (keyIdOf)

/-! ## 1. The ring -/

/-- Keys by their ids, the passphrase, if there is one, and whether the ring is locked. -/
structure Ring where
  entries : ExtTreeMap UInt160 (Valtype × Option CKey)
  pass : Option Valtype
  locked : Bool

/-- What is done with a wallet. -/
inductive WalletOp where
  | addKey (key : CKey)
  | receiveStealth (ckey : CKey)
  | encryptWallet (strWalletPassphrase vMasterKey vchSalt : Valtype) (nMeasured : UInt32)
      (generated : List CKey)
  | lock
  | unlock (strWalletPassphrase : Valtype) (lockedOK : Bool)
  | changePassphrase (strOld strNew : Valtype) (nMeasured : UInt32)

namespace Ring

/-- A new one. -/
def new : Ring := ⟨∅, none, false⟩

variable (K : Crypto) (C : WalletCrypto) (expand : Valtype → Option CKey)

/-- A key is put on the ring. -/
def put (r : Ring) (key : CKey) : Ring :=
  { r with entries := r.entries.insert (keyIdOf K (C.pubKeyOf key)) (C.pubKeyOf key, some key) }

def addKey (r : Ring) (key : CKey) : Bool × Ring :=
  if r.locked then (false, r) else (true, r.put K C key)

/-- While the ring is locked the key is not known. -/
def receiveStealth (r : Ring) (ckey : CKey) : Ring :=
  if keyIdOf K (C.pubKeyOf ckey) ∈ r.entries then r
  else if r.locked then
    { r with entries := r.entries.insert (keyIdOf K (C.pubKeyOf ckey)) (C.pubKeyOf ckey, none) }
  else r.put K C ckey

/-- The entry with the first id. -/
def first (r : Ring) : Option (Valtype × Option CKey) := r.entries.toList.head?.map (·.2)

/-- It can be opened unless the first entry has no key. -/
def opens (r : Ring) : Bool :=
  match r.first with
  | some (_, none) => false
  | _ => true

/-- The key that is made for a public key, if it fits. -/
def made (vchPubKey : Valtype) : Option CKey :=
  (expand vchPubKey).filter fun ckey => C.pubKeyOf ckey = vchPubKey

/-- An entry with the key that is made for it, if it has none. -/
def fillEntry (entry : Valtype × Option CKey) : Valtype × Option CKey :=
  match entry.2 with
  | some key => (entry.1, some key)
  | none => (entry.1, made C expand entry.1)

/-- The keys that can be made are filled in. -/
def fill (r : Ring) : Ring := { r with entries := r.entries.map fun _ => fillEntry C expand }

/-- A ring without a passphrase is locked only if it is empty, and then for good. -/
def lock (r : Ring) : Bool × Ring :=
  if r.locked then (true, r)
  else if r.pass.isNone && !r.entries.isEmpty then (false, r)
  else (true, { r with locked := true })

def unlock (r : Ring) (pass : Valtype) (lockedOK : Bool) : Bool × Ring :=
  if !lockedOK && !r.locked then (false, r)
  else
    match r.pass with
    | none => (true, r)
    | some right =>
      if pass = right ∧ r.opens = true then (true, { r.fill C expand with locked := false })
      else (false, r)

/-- If it fails, the ring is left locked. -/
def changePassphrase (r : Ring) (old pass : Valtype) : Bool × Ring :=
  match r.pass with
  | none => (false, r.lock.2)
  | some right =>
    if old = right ∧ r.opens = true then (true, { r.fill C expand with pass := some pass })
    else (false, { r with locked := true })

def encryptWallet (r : Ring) (pass : Valtype) (generated : List CKey) : Bool × Ring :=
  if r.pass.isSome || r.locked then (false, r)
  else (true, { generated.foldl (put K C) r with pass := some pass, locked := true })

/-- One of the operations; a payment has no result. -/
def step (r : Ring) : WalletOp → Bool × Ring
  | .addKey key => r.addKey K C key
  | .receiveStealth ckey => (true, r.receiveStealth K C ckey)
  | .encryptWallet pass _ _ _ generated => r.encryptWallet K C pass generated
  | .lock => r.lock
  | .unlock pass lockedOK => r.unlock C expand pass lockedOK
  | .changePassphrase old pass _ => r.changePassphrase C expand old pass

/-- All of them, with what they return. -/
def run : List WalletOp → Ring → List Bool × Ring
  | [], r => ([], r)
  | op :: ops, r =>
    ((r.step K C expand op).1 :: (run ops (r.step K C expand op).2).1,
      (run ops (r.step K C expand op).2).2)

end Ring

/-! ## 2. The wallet -/

namespace CryptWallet

variable (K : Crypto) (C : WalletCrypto) (expand : Valtype → Option CKey)
  (nDerivationMethodIndex : UInt32)

/-- One of the operations; `none` is the end of the program. -/
def step (w : CryptWallet) : WalletOp → Option (Bool × CryptWallet)
  | .addKey key => some (w.withStore (w.addKey K C key))
  | .receiveStealth ckey => some (true, w.receiveStealth K C ckey)
  | .encryptWallet strWalletPassphrase vMasterKey vchSalt nMeasured generated =>
    w.encryptWallet K C expand nDerivationMethodIndex strWalletPassphrase vMasterKey vchSalt
      nMeasured generated
  | .lock => some w.lock
  | .unlock strWalletPassphrase lockedOK => some (w.unlock K C expand strWalletPassphrase lockedOK)
  | .changePassphrase strOld strNew nMeasured =>
    some (w.changeWalletPassphrase K C expand strOld strNew nMeasured)

/-- All of them, with what they return. -/
def run : List WalletOp → CryptWallet → Option (List Bool × CryptWallet)
  | [], w => some ([], w)
  | op :: ops, w => do
    let (result, w) ← w.step K C expand nDerivationMethodIndex op
    let (results, w) ← run ops w
    return (result :: results, w)

end CryptWallet

/-! ## 3. The assumptions -/

/-- Decryption undoes encryption, and nothing is not the encryption of anything. -/
structure WalletCrypto.Lawful (C : WalletCrypto) : Prop where
  decrypt_encrypt : ∀ key iv pt, C.decrypt key iv (C.encrypt key iv pt) = some pt
  decrypt_nil : ∀ key iv, C.decrypt key iv [] = none
  compressed : ∀ key, isCompressed (C.pubKeyOf key) = key.fCompressed

/-- To evaluate examples with: a box with the key on it. -/
def WalletCrypto.box : WalletCrypto where
  encrypt key _ pt := 1 :: (key ++ pt)
  decrypt key _ ct :=
    if ct.head? = some 1 ∧ (ct.drop 1).take key.length = key then some ((ct.drop 1).drop key.length)
    else none
  bytesToKey strKeyData _ _ := (strKeyData, [])
  scryptHash strKeyData _ _ := strKeyData
  pubKeyOf key := if key.fCompressed then 2 :: key.vch else 4 :: (key.vch ++ List.replicate 32 0)

theorem lawful_box : WalletCrypto.box.Lawful where
  decrypt_encrypt key iv pt := by simp [WalletCrypto.box]
  decrypt_nil key iv := by simp [WalletCrypto.box]
  compressed key := by
    cases hcompressed : key.fCompressed <;>
      simp [WalletCrypto.box, isCompressed, hcompressed, key.size]

theorem length_boxKey (b : UInt8) : (List.replicate 32 b).length = 32 := List.length_replicate

/-- A key for the examples. -/
def boxKey (b : UInt8) : CKey := ⟨List.replicate 32 b, true, length_boxKey b⟩

section

variable (K : Crypto) (C : WalletCrypto)

/-- The master key that a passphrase opens the wallet with. -/
def CryptWallet.opened (w : CryptWallet) (strWalletPassphrase : Valtype) : Option Valtype := do
  let (_, pMasterKey) ← w.mapMasterKeys.head?
  let (chKey, chIV) ← setKeyFromPassphrase C strWalletPassphrase pMasterKey.vchSalt
    pMasterKey.nDeriveIterations pMasterKey.nDerivationMethod
  let vMasterKey ← C.decrypt chKey chIV pMasterKey.vchCryptedKey
  if (w.toCCryptoKeyStore.unlock K C vMasterKey).1 then some vMasterKey else none

/-- The passphrase is the right one, or it does not open the wallet by chance. -/
def CryptWallet.NotGuessed (w : CryptWallet) (r : Ring) (pass : Valtype) : Prop :=
  ∀ right ∈ r.pass, pass = right ∨ (w.opened K C pass).isNone = true

/-- An operation with what it draws, a key of 32 bytes and a salt of 8, or with a passphrase. -/
def CryptWallet.Fits (w : CryptWallet) (r : Ring) : WalletOp → Prop
  | .encryptWallet _ vMasterKey vchSalt _ _ =>
    vMasterKey.length = walletCryptoKeySize ∧ vchSalt.length = walletCryptoSaltSize
  | .unlock pass _ => w.NotGuessed K C r pass
  | .changePassphrase old _ _ => w.NotGuessed K C r old
  | _ => True

variable (expand : Valtype → Option CKey) (nDerivationMethodIndex : UInt32)

/-- All operations are, in the wallet as it is then. -/
def CryptWallet.EachFits : List WalletOp → CryptWallet → Ring → Prop
  | [], _, _ => True
  | op :: ops, w, r => w.Fits K C r op ∧
    ∀ p ∈ w.step K C expand nDerivationMethodIndex op,
      EachFits ops p.2 (r.step K C expand op).2

instance CryptWallet.decNotGuessed (w : CryptWallet) (r : Ring) (pass : Valtype) :
    Decidable (w.NotGuessed K C r pass) :=
  inferInstanceAs (Decidable (∀ right ∈ r.pass, pass = right ∨ (w.opened K C pass).isNone = true))

instance CryptWallet.decFits (w : CryptWallet) (r : Ring) (op : WalletOp) :
    Decidable (w.Fits K C r op) :=
  match op with
  | .addKey _ => isTrue trivial
  | .receiveStealth _ => isTrue trivial
  | .encryptWallet _ vMasterKey vchSalt _ _ => inferInstanceAs (Decidable
    (vMasterKey.length = walletCryptoKeySize ∧ vchSalt.length = walletCryptoSaltSize))
  | .lock => isTrue trivial
  | .unlock pass _ => CryptWallet.decNotGuessed K C w r pass
  | .changePassphrase old _ _ => CryptWallet.decNotGuessed K C w r old

instance CryptWallet.decEachFits : (ops : List WalletOp) → (w : CryptWallet) → (r : Ring) →
    Decidable (w.EachFits K C expand nDerivationMethodIndex ops r)
  | [], _, _ => isTrue trivial
  | op :: ops, w, r =>
    have := fun p : Bool × CryptWallet => decEachFits ops p.2 (r.step K C expand op).2
    inferInstanceAs (Decidable (w.Fits K C r op ∧
      ∀ p ∈ w.step K C expand nDerivationMethodIndex op,
        p.2.EachFits K C expand nDerivationMethodIndex ops (r.step K C expand op).2))

end

/-! ## 4. The wallet and the ring -/

section

variable (K : Crypto) (C : WalletCrypto)

/-- An entry as the wallet has it. -/
def sealEntry (mk : Valtype) (entry : Valtype × Option CKey) : Valtype × Valtype :=
  (entry.1, match entry.2 with
    | none => []
    | some key => C.encrypt mk (serUInt256 (K.hash entry.1)) key.vch)

/-- The entries stand under their ids, and the keys fit. -/
def Ring.Keyed (r : Ring) : Prop :=
  ∀ (id : UInt160) entry, r.entries[id]? = some entry →
    id = keyIdOf K entry.1 ∧ ∀ key, entry.2 = some key → C.pubKeyOf key = entry.1

/-- Before it is encrypted. -/
structure Plain (w : CryptWallet) (r : Ring) : Prop where
  fUseCrypto : w.fUseCrypto = false
  vMasterKey : w.vMasterKey = []
  mapCryptedKeys : w.mapCryptedKeys = ∅
  mapMasterKeys : w.mapMasterKeys = []
  pass : r.pass = none
  locked : r.locked = false
  entries : ∀ id : UInt160,
    r.entries[id]? = w.mapKeys[id]?.map fun key => (C.pubKeyOf key, some key)

/-- Locked when it was empty, without a passphrase. -/
structure Stuck (w : CryptWallet) (r : Ring) : Prop where
  fUseCrypto : w.fUseCrypto = true
  vMasterKey : w.vMasterKey = []
  mapKeys : w.mapKeys = ∅
  mapMasterKeys : w.mapMasterKeys = []
  pass : r.pass = none
  locked : r.locked = true
  entries : ∀ id : UInt160, w.mapCryptedKeys[id]? = r.entries[id]?.map (sealEntry K C [])
  keyless : ∀ (id : UInt160) entry, r.entries[id]? = some entry → entry.2 = none

/-- Encrypted. -/
structure Sealed (w : CryptWallet) (r : Ring) (mk right : Valtype) (nID : UInt32)
    (master : CMasterKey) (kiv : Valtype × Valtype) : Prop where
  fUseCrypto : w.fUseCrypto = true
  mapKeys : w.mapKeys = ∅
  mapMasterKeys : w.mapMasterKeys = [(nID, master)]
  pass : r.pass = some right
  derived : setKeyFromPassphrase C right master.vchSalt master.nDeriveIterations
    master.nDerivationMethod = some kiv
  crypted : master.vchCryptedKey = C.encrypt kiv.1 kiv.2 mk
  size : mk.length = walletCryptoKeySize
  vMasterKey : w.vMasterKey = if r.locked then [] else mk
  entries : ∀ id : UInt160, w.mapCryptedKeys[id]? = r.entries[id]?.map (sealEntry K C mk)

/-- The wallet is as the ring says. -/
inductive Shows (w : CryptWallet) (r : Ring) : Prop
  | plain (h : Plain C w r)
  | stuck (h : Stuck K C w r)
  | sealed (mk right : Valtype) (nID : UInt32) (master : CMasterKey) (kiv : Valtype × Valtype)
      (h : Sealed K C w r mk right nID master kiv)

end

variable {K : Crypto} {C : WalletCrypto} {expand : Valtype → Option CKey} {w : CryptWallet}
  {r : Ring} {mk right : Valtype} {nID : UInt32} {master : CMasterKey} {kiv : Valtype × Valtype}

/-! ## 5. Maps -/

variable {V V' : Type}

theorem getElem?_insert_ite (m : ExtTreeMap UInt160 V) (k a : UInt160) (v : V) :
    (m.insert k v)[a]? = if k = a then some v else m[a]? := by
  rw [ExtTreeMap.getElem?_insert]
  by_cases h : k = a
  · rw [if_pos h, if_pos (Std.compare_eq_iff_eq.mpr h)]
  · rw [if_neg h, if_neg (mt Std.compare_eq_iff_eq.mp h)]

/-- A map with other values at the same keys has the same first key. -/
theorem minKey?_congr {m : ExtTreeMap UInt160 V} {m' : ExtTreeMap UInt160 V'} {f : V → V'}
    (h : ∀ id : UInt160, m'[id]? = m[id]?.map f) : m'.minKey? = m.minKey? := by
  have hmem : ∀ id : UInt160, id ∈ m' ↔ id ∈ m := by
    intro id
    rw [ExtTreeMap.mem_iff_isSome_getElem?, ExtTreeMap.mem_iff_isSome_getElem?, h id,
      Option.isSome_map]
  cases hmin : m.minKey? with
  | none =>
    rw [ExtTreeMap.minKey?_eq_none_iff] at hmin ⊢
    rw [ExtTreeMap.eq_empty_iff_forall_not_mem]
    intro id
    rw [hmem, hmin]
    exact ExtTreeMap.not_mem_empty
  | some id =>
    rw [ExtTreeMap.minKey?_eq_some_iff_mem_and_forall] at hmin ⊢
    exact ⟨(hmem id).mpr hmin.1, fun k hk => hmin.2 k ((hmem k).mp hk)⟩

theorem first_eq (m : ExtTreeMap UInt160 V) :
    m.toList.head?.map (·.2) = m.minKey?.bind fun id => m[id]? := by
  rw [ExtTreeMap.minKey?_eq_head?_keys, ← ExtTreeMap.map_fst_toList_eq_keys, List.head?_map]
  cases hlist : m.toList with
  | nil => rfl
  | cons p l =>
    have hmem : (p.1, p.2) ∈ m.toList := by simp [hlist]
    simp [ExtTreeMap.mem_toList_iff_getElem?_eq_some.mp hmem]

/-- So it has the first entry of the other one. -/
theorem first_congr {m : ExtTreeMap UInt160 V} {m' : ExtTreeMap UInt160 V'} {f : V → V'}
    (h : ∀ id : UInt160, m'[id]? = m[id]?.map f) :
    m'.toList.head?.map (·.2) = (m.toList.head?.map (·.2)).map f := by
  rw [first_eq, first_eq, minKey?_congr h]
  cases m.minKey? with
  | none => rfl
  | some id => exact h id

/-- The first entry stands under some id. -/
theorem Ring.getElem?_first {entry : Valtype × Option CKey} (h : r.first = some entry) :
    ∃ id : UInt160, r.entries.minKey? = some id ∧ r.entries[id]? = some entry := by
  rw [Ring.first, first_eq, Option.bind_eq_some_iff] at h
  exact h

/-! ## 6. Secrets -/

theorem encryptSecret_eq (hsize : mk.length = walletCryptoKeySize) (pt : Valtype) (iv : UInt256) :
    encryptSecret C mk pt iv = some (C.encrypt mk (serUInt256 iv) pt) := by
  rw [encryptSecret, if_neg (not_not.mpr hsize)]

/-- An encrypted key is got back. -/
theorem decryptKey_encrypt (hC : C.Lawful) (hsize : mk.length = walletCryptoKeySize) (key : CKey) :
    decryptKey K C mk (C.pubKeyOf key)
      (C.encrypt mk (serUInt256 (K.hash (C.pubKeyOf key))) key.vch) = some key := by
  unfold decryptKey decryptSecret
  rw [if_neg (not_not.mpr hsize), hC.decrypt_encrypt]
  simp only [Option.bind_eq_bind, Option.bind_some, hC.compressed, dif_pos key.size]

theorem decryptKey_nil (hC : C.Lawful) (mk vchPubKey : Valtype) :
    decryptKey K C mk vchPubKey [] = none := by
  unfold decryptKey decryptSecret
  split_ifs
  · rfl
  · rw [hC.decrypt_nil]
    rfl

theorem encrypt_ne_nil (hC : C.Lawful) (key iv pt : Valtype) : C.encrypt key iv pt ≠ [] := by
  intro h
  have hback := hC.decrypt_encrypt key iv pt
  rw [h, hC.decrypt_nil] at hback
  cases hback

/-! ## 7. The key store -/

section

variable {s : CCryptoKeyStore}

theorem setCrypted_of (h : s.fUseCrypto = true) : s.setCrypted = (true, s) := by
  rw [CCryptoKeyStore.setCrypted, if_pos h]

theorem addCryptedKey_of (h : s.fUseCrypto = true) (vchPubKey vchCryptedSecret : Valtype) :
    s.addCryptedKey K vchPubKey vchCryptedSecret = (true, { s with
      mapCryptedKeys :=
        s.mapCryptedKeys.insert (keyIdOf K vchPubKey) (vchPubKey, vchCryptedSecret) }) := by
  unfold CCryptoKeyStore.addCryptedKey
  rw [setCrypted_of h]

theorem isLocked_of (h : s.fUseCrypto = true) : s.isLocked = s.vMasterKey.isEmpty := by
  simp [CCryptoKeyStore.isLocked, h]

theorem addKey_locked (h : s.fUseCrypto = true) (hkey : s.vMasterKey = []) (key : CKey) :
    s.addKey K C key = (false, s) := by
  simp [CCryptoKeyStore.addKey, CCryptoKeyStore.addKeyPubKey, isLocked_of h, h, hkey]

theorem isEmpty_of_size (hsize : mk.length = walletCryptoKeySize) : mk.isEmpty = false := by
  cases mk with
  | nil => simp [walletCryptoKeySize] at hsize
  | cons => rfl

theorem addKey_unlocked (h : s.fUseCrypto = true) (hkey : s.vMasterKey = mk)
    (hsize : mk.length = walletCryptoKeySize) (key : CKey) :
    s.addKey K C key = (true, { s with
      mapCryptedKeys := s.mapCryptedKeys.insert (keyIdOf K (C.pubKeyOf key))
        (sealEntry K C mk (C.pubKeyOf key, some key)) }) := by
  subst hkey
  have hlocked : s.isLocked = false := by rw [isLocked_of h, isEmpty_of_size hsize]
  unfold CCryptoKeyStore.addKey CCryptoKeyStore.addKeyPubKey
  rw [if_neg (by simp [h]), if_neg (by simp [hlocked]), encryptSecret_eq hsize]
  exact addCryptedKey_of h _ _

/-- The loop encrypts one key after the other. -/
theorem encryptLoop_of (h : s.fUseCrypto = true) (hsize : mk.length = walletCryptoKeySize)
    (keys : List CKey) :
    s.encryptLoop K C mk keys = (true, { s with
      mapCryptedKeys := keys.foldl (fun m key => m.insert (keyIdOf K (C.pubKeyOf key))
        (sealEntry K C mk (C.pubKeyOf key, some key))) s.mapCryptedKeys }) := by
  induction keys generalizing s with
  | nil => rfl
  | cons key keys ih =>
    unfold CCryptoKeyStore.encryptLoop
    simp only [encryptSecret_eq hsize, addCryptedKey_of h]
    exact ih h

end

end Breakout
