/-
# An encrypted wallet

An encrypted wallet keeps its keys encrypted under a master key, and the master key encrypted under
a passphrase.  Locking forgets the master key, and unlocking decrypts it and tries it on the first
of the keys.  A payment to a stealth address that comes while the wallet is locked leaves a public
key with an empty secret, which is filled in when the wallet is unlocked.

These are the functions of `keystore.cpp`, `crypter.cpp` and `wallet.cpp` that the state of the
wallet goes through: what they are good for is in `WalletRing`.

AES, the derivation of a key from a passphrase and the curve are parameters.  The wallet file is
left out, and what the stealth addresses of the wallet make of a public key is a function.
-/
import Breakout.SecMsgKeys

namespace Breakout

open Lib Std
open SecMsg (keyIdOf)

instance : TransOrd UInt160 := inferInstance

/-! ## 1. `CCrypter` -/

/-- `CKey`: a valid one. -/
structure CKey where
  vch : Valtype
  fCompressed : Bool
  size : vch.length = 32
deriving DecidableEq

/-- The functions of the library: AES-256-CBC with a key and an initialisation vector, what is
derived from a passphrase, and the public key of a key. -/
structure WalletCrypto where
  encrypt : Valtype → Valtype → Valtype → Valtype
  decrypt : Valtype → Valtype → Valtype → Option Valtype
  bytesToKey : Valtype → Valtype → UInt32 → Valtype × Valtype
  scryptHash : Valtype → Valtype → UInt32 → Valtype
  pubKeyOf : CKey → Valtype

structure CMasterKey where
  vchCryptedKey : Valtype
  vchSalt : Valtype
  nDerivationMethod : UInt32
  nDeriveIterations : UInt32

def walletCryptoKeySize : Nat := 32

def walletCryptoSaltSize : Nat := 8

def isCompressed (vchPubKey : Valtype) : Bool := vchPubKey.length = 33

variable (K : Crypto) (C : WalletCrypto)

/-- `SetKeyFromPassphrase`: the key and the vector, if there are any. -/
def setKeyFromPassphrase (strKeyData chSalt : Valtype) (nRounds nDerivationMethod : UInt32) :
    Option (Valtype × Valtype) :=
  if nRounds < 1 ∨ chSalt.length ≠ walletCryptoSaltSize then none
  else if nDerivationMethod = 0 then some (C.bytesToKey strKeyData chSalt nRounds)
  else if nDerivationMethod = 1 then
    some (C.bytesToKey (C.scryptHash strKeyData chSalt nRounds) chSalt nRounds)
  else none

def encryptSecret (vMasterKey vchPlaintext : Valtype) (nIV : UInt256) : Option Valtype :=
  if vMasterKey.length ≠ walletCryptoKeySize then none
  else some (C.encrypt vMasterKey (serUInt256 nIV) vchPlaintext)

def decryptSecret (vMasterKey vchCiphertext : Valtype) (nIV : UInt256) : Option Valtype :=
  if vMasterKey.length ≠ walletCryptoKeySize then none
  else C.decrypt vMasterKey (serUInt256 nIV) vchCiphertext

/-- `DecryptSecret`, and `CKey::Set` of the 32 bytes it has given. -/
def decryptKey (vMasterKey vchPubKey vchCryptedSecret : Valtype) : Option CKey := do
  let vchSecret ← decryptSecret C vMasterKey vchCryptedSecret (K.hash vchPubKey)
  if h : vchSecret.length = 32 then some ⟨vchSecret, isCompressed vchPubKey, h⟩ else none

/-! ## 2. `CCryptoKeyStore` -/

structure CCryptoKeyStore where
  mapKeys : ExtTreeMap UInt160 CKey
  fUseCrypto : Bool
  mapCryptedKeys : ExtTreeMap UInt160 (Valtype × Valtype)
  vMasterKey : Valtype

namespace CCryptoKeyStore

/-- `CCryptoKeyStore()` -/
def new : CCryptoKeyStore := ⟨∅, false, ∅, []⟩

def isLocked (s : CCryptoKeyStore) : Bool := s.fUseCrypto && s.vMasterKey.isEmpty

def setCrypted (s : CCryptoKeyStore) : Bool × CCryptoKeyStore :=
  if s.fUseCrypto then (true, s)
  else if !s.mapKeys.isEmpty then (false, s)
  else (true, { s with fUseCrypto := true })

def lockKeyStore (s : CCryptoKeyStore) : Bool × CCryptoKeyStore :=
  match s.setCrypted with
  | (false, s) => (false, s)
  | (true, s) => (true, { s with vMasterKey := [] })

/-- `mapCryptedKeys.begin()` -/
def first (s : CCryptoKeyStore) : Option (Valtype × Valtype) :=
  s.mapCryptedKeys.toList.head?.map (·.2)

/-- `Unlock`.  The loop over the keys ends in its first round. -/
def unlock (s : CCryptoKeyStore) (vMasterKeyIn : Valtype) : Bool × CCryptoKeyStore :=
  match s.setCrypted with
  | (false, s) => (false, s)
  | (true, s) =>
    match s.first with
    | none => (true, { s with vMasterKey := vMasterKeyIn })
    | some (vchPubKey, vchCryptedSecret) =>
      match decryptKey K C vMasterKeyIn vchPubKey vchCryptedSecret with
      | none => (false, s)
      | some key =>
        if C.pubKeyOf key = vchPubKey then (true, { s with vMasterKey := vMasterKeyIn })
        else (false, s)

def addCryptedKey (s : CCryptoKeyStore) (vchPubKey vchCryptedSecret : Valtype) :
    Bool × CCryptoKeyStore :=
  match s.setCrypted with
  | (false, s) => (false, s)
  | (true, s) =>
    (true, { s with
      mapCryptedKeys :=
        s.mapCryptedKeys.insert (keyIdOf K vchPubKey) (vchPubKey, vchCryptedSecret) })

def addKeyPubKey (s : CCryptoKeyStore) (key : CKey) (pubkey : Valtype) : Bool × CCryptoKeyStore :=
  if !s.fUseCrypto then (true, { s with mapKeys := s.mapKeys.insert (keyIdOf K pubkey) key })
  else if s.isLocked then (false, s)
  else
    match encryptSecret C s.vMasterKey key.vch (K.hash pubkey) with
    | none => (false, s)
    | some vchCryptedSecret => s.addCryptedKey K pubkey vchCryptedSecret

def addKey (s : CCryptoKeyStore) (key : CKey) : Bool × CCryptoKeyStore :=
  s.addKeyPubKey K C key (C.pubKeyOf key)

def haveKey (s : CCryptoKeyStore) (address : UInt160) : Bool :=
  if !s.fUseCrypto then decide (address ∈ s.mapKeys) else decide (address ∈ s.mapCryptedKeys)

def getKey (s : CCryptoKeyStore) (address : UInt160) : Option CKey :=
  if !s.fUseCrypto then s.mapKeys[address]?
  else s.mapCryptedKeys[address]?.bind fun entry => decryptKey K C s.vMasterKey entry.1 entry.2

/-- `GetPubKey`; watch-only keys are left out. -/
def getPubKey (s : CCryptoKeyStore) (address : UInt160) : Option Valtype :=
  if !s.fUseCrypto then s.mapKeys[address]?.map C.pubKeyOf
  else s.mapCryptedKeys[address]?.map (·.1)

/-- The loop of `EncryptKeys`. -/
def encryptLoop (vMasterKeyIn : Valtype) : List CKey → CCryptoKeyStore → Bool × CCryptoKeyStore
  | [], s => (true, s)
  | key :: keys, s =>
    match encryptSecret C vMasterKeyIn key.vch (K.hash (C.pubKeyOf key)) with
    | none => (false, s)
    | some vchCryptedSecret =>
      match s.addCryptedKey K (C.pubKeyOf key) vchCryptedSecret with
      | (false, s) => (false, s)
      | (true, s) => encryptLoop vMasterKeyIn keys s

def encryptKeys (s : CCryptoKeyStore) (vMasterKeyIn : Valtype) : Bool × CCryptoKeyStore :=
  if !s.mapCryptedKeys.isEmpty || s.fUseCrypto then (false, s)
  else
    match encryptLoop K C vMasterKeyIn (s.mapKeys.toList.map (·.2))
        { s with fUseCrypto := true } with
    | (false, s) => (false, s)
    | (true, s) => (true, { s with mapKeys := ∅ })

end CCryptoKeyStore

/-! ## 3. `CWallet` -/

/-- What `CWallet` adds to it. -/
structure CryptWallet extends CCryptoKeyStore where
  mapMasterKeys : List (UInt32 × CMasterKey)
  nMasterKeyMaxID : UInt32

namespace CryptWallet

/-- A new wallet. -/
def new : CryptWallet := ⟨.new, [], 0⟩

/-- The key store is replaced. -/
def withStore (w : CryptWallet) (r : Bool × CCryptoKeyStore) : Bool × CryptWallet :=
  (r.1, { w with toCCryptoKeyStore := r.2 })

def lock (w : CryptWallet) : Bool × CryptWallet :=
  if w.isLocked then (true, w) else w.withStore w.lockKeyStore

/-- The loop body of `UnlockStealthAddresses` that fills in a secret that is missing.  `expand` is
the key that the stealth addresses of the wallet make of a public key. -/
def unlockStealthKey (expand : Valtype → Option CKey) (w : CryptWallet) (id : UInt160) :
    CryptWallet :=
  match w.mapCryptedKeys[id]? with
  | some (pubKey, []) =>
    match expand pubKey with
    | none => w
    | some ckey => if C.pubKeyOf ckey ≠ pubKey then w else (w.withStore (w.addKey K C ckey)).2
  | _ => w

/-- `UnlockStealthAddresses`, the second loop. -/
def unlockStealthAddresses (expand : Valtype → Option CKey) (w : CryptWallet) : CryptWallet :=
  w.mapCryptedKeys.keys.foldl (unlockStealthKey K C expand) w

def unlock (expand : Valtype → Option CKey) (w : CryptWallet) (strWalletPassphrase : Valtype)
    (lockedOK : Bool) : Bool × CryptWallet :=
  if !lockedOK && !w.isLocked then (false, w)
  else
    match w.mapMasterKeys with
    | [] => (true, w.unlockStealthAddresses K C expand)
    | (_, pMasterKey) :: _ =>
      match setKeyFromPassphrase C strWalletPassphrase pMasterKey.vchSalt
          pMasterKey.nDeriveIterations pMasterKey.nDerivationMethod with
      | none => (false, w)
      | some (chKey, chIV) =>
        match C.decrypt chKey chIV pMasterKey.vchCryptedKey with
        | none => (false, w)
        | some vMasterKey =>
          match w.withStore (w.toCCryptoKeyStore.unlock K C vMasterKey) with
          | (false, w) => (false, w)
          | (true, w) => (true, w.unlockStealthAddresses K C expand)

/-- "if (nDeriveIterations < 25000) nDeriveIterations = 25000" -/
def atLeast (nDeriveIterations : UInt32) : UInt32 :=
  if nDeriveIterations < 25000 then 25000 else nDeriveIterations

/-- The loop of `ChangeWalletPassphrase`.  `nMeasured` are the iterations that the measurement has
come to, and `before` are the master keys that were tried. -/
def changeLoop (expand : Valtype → Option CKey) (strOld strNew : Valtype) (nMeasured : UInt32)
    (fWasLocked : Bool) (before : List (UInt32 × CMasterKey)) :
    List (UInt32 × CMasterKey) → CryptWallet → Bool × CryptWallet
  | [], w => (false, w)
  | (nID, pMasterKey) :: rest, w =>
    match setKeyFromPassphrase C strOld pMasterKey.vchSalt pMasterKey.nDeriveIterations
        pMasterKey.nDerivationMethod with
    | none => (false, w)
    | some (chKey, chIV) =>
      match C.decrypt chKey chIV pMasterKey.vchCryptedKey with
      | none => (false, w)
      | some vMasterKey =>
        match w.withStore (w.toCCryptoKeyStore.unlock K C vMasterKey) with
        | (false, w) =>
          changeLoop expand strOld strNew nMeasured fWasLocked (before ++ [(nID, pMasterKey)]) rest
            w
        | (true, w) =>
          let w := w.unlockStealthAddresses K C expand
          let nDeriveIterations := atLeast nMeasured
          match setKeyFromPassphrase C strNew pMasterKey.vchSalt nDeriveIterations
              pMasterKey.nDerivationMethod with
          | none => (false, { w with
              mapMasterKeys := before ++ (nID, { pMasterKey with
                nDeriveIterations := nDeriveIterations }) :: rest })
          | some (chKey, chIV) =>
            let w := { w with
              mapMasterKeys := before ++ (nID, { pMasterKey with
                nDeriveIterations := nDeriveIterations
                vchCryptedKey := C.encrypt chKey chIV vMasterKey }) :: rest }
            (true, if fWasLocked then w.lock.2 else w)

def changeWalletPassphrase (expand : Valtype → Option CKey) (w : CryptWallet)
    (strOld strNew : Valtype) (nMeasured : UInt32) : Bool × CryptWallet :=
  let fWasLocked := w.isLocked
  let w := w.lock.2
  changeLoop K C expand strOld strNew nMeasured fWasLocked [] w.mapMasterKeys w

/-- The keys of `NewKeyPool`, which does nothing while the wallet is locked. -/
def newKeyPool (w : CryptWallet) (generated : List CKey) : CryptWallet :=
  if w.isLocked then w
  else generated.foldl (fun w key => (w.withStore (w.addKey K C key)).2) w

/-- The derivation method of `CMasterKey(nDerivationMethodIndex)`. -/
def derivationMethod (nDerivationMethodIndex : UInt32) : UInt32 :=
  if nDerivationMethodIndex = 1 then 1 else 0

/-- `EncryptWallet`; `none` is `exit(1)`.  `vMasterKey` and `vchSalt` are drawn. -/
def encryptWallet (expand : Valtype → Option CKey) (nDerivationMethodIndex : UInt32)
    (w : CryptWallet) (strWalletPassphrase vMasterKey vchSalt : Valtype) (nMeasured : UInt32)
    (generated : List CKey) : Option (Bool × CryptWallet) :=
  if w.fUseCrypto then some (false, w)
  else
    let nDerivationMethod := derivationMethod nDerivationMethodIndex
    let nDeriveIterations := atLeast nMeasured
    match setKeyFromPassphrase C strWalletPassphrase vchSalt nDeriveIterations
        nDerivationMethod with
    | none => some (false, w)
    | some (chKey, chIV) =>
      let nID := w.nMasterKeyMaxID + 1
      let kMasterKey : CMasterKey :=
        ⟨C.encrypt chKey chIV vMasterKey, vchSalt, nDerivationMethod, nDeriveIterations⟩
      let w := { w with
        nMasterKeyMaxID := nID
        mapMasterKeys := w.mapMasterKeys ++ [(nID, kMasterKey)] }
      match w.withStore (w.encryptKeys K C vMasterKey) with
      -- "die and let the user reload their unencrypted wallet"
      | (false, _) => none
      | (true, w) =>
        let w := w.lock.2
        let w := (w.unlock K C expand strWalletPassphrase false).2
        let w := w.newKeyPool K C generated
        some (true, w.lock.2)

/-- What `FindStealthTransactions` does with a payment to the wallet.  The key is made from the
secret of the stealth address, which is encrypted while the wallet is locked. -/
def receiveStealth (w : CryptWallet) (ckey : CKey) : CryptWallet :=
  if w.haveKey (keyIdOf K (C.pubKeyOf ckey)) then w
  -- add key without secret
  else if w.isLocked then (w.withStore (w.addCryptedKey K (C.pubKeyOf ckey) [])).2
  else (w.withStore (w.addKey K C ckey)).2

end CryptWallet

end Breakout
