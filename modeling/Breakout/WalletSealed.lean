/-
# The operations of an encrypted wallet

What every operation of the wallet does to a ring that it stands for, while it is encrypted
(`Sealed`), locked without a passphrase (`Stuck`) and before it is encrypted (`Plain`).  The main
lemmas are `Sealed.unlock`, `Sealed.changePassphrase` and `Plain.encryptWallet`.
-/
import Breakout.WalletRing

namespace Breakout

open Lib Std
open SecMsg (keyIdOf)

variable {K : Crypto} {C : WalletCrypto} {expand : Valtype → Option CKey} {w : CryptWallet}
  {r : Ring} {mk right : Valtype} {nID : UInt32} {master : CMasterKey} {kiv : Valtype × Valtype}

/-! ## 1. An encrypted wallet -/

namespace Sealed

theorem isLocked (h : Sealed K C w r mk right nID master kiv) : w.isLocked = r.locked := by
  rw [isLocked_of h.fUseCrypto, h.vMasterKey]
  cases r.locked with
  | false => simp [isEmpty_of_size h.size]
  | true => simp

theorem haveKey (h : Sealed K C w r mk right nID master kiv) (id : UInt160) :
    w.haveKey id = decide (id ∈ r.entries) := by
  simp only [CCryptoKeyStore.haveKey, h.fUseCrypto, ExtTreeMap.mem_iff_isSome_getElem?, h.entries,
    Option.isSome_map]
  rfl

theorem getPubKey (h : Sealed K C w r mk right nID master kiv) (id : UInt160) :
    w.getPubKey C id = r.entries[id]?.map (·.1) := by
  simp only [CCryptoKeyStore.getPubKey, h.fUseCrypto, h.entries, Option.map_map]
  rfl

/-- An unlocked wallet gives out the keys of the ring. -/
theorem getKey (hC : C.Lawful) (hr : r.Keyed K C) (h : Sealed K C w r mk right nID master kiv)
    (hlocked : r.locked = false) (id : UInt160) :
    w.getKey K C id = r.entries[id]?.bind (·.2) := by
  simp only [CCryptoKeyStore.getKey, h.fUseCrypto, h.entries, h.vMasterKey, hlocked]
  cases hentry : r.entries[id]? with
  | none => rfl
  | some entry =>
    obtain ⟨vchPubKey, key⟩ := entry
    cases key with
    | none => exact decryptKey_nil hC _ _
    | some key =>
      obtain rfl := (hr id _ hentry).2 key rfl
      exact decryptKey_encrypt hC h.size key

/-- The lock forgets the master key. -/
theorem lock (h : Sealed K C w r mk right nID master kiv) :
    w.lock.1 = true ∧ Sealed K C w.lock.2 { r with locked := true } mk right nID master kiv := by
  unfold CryptWallet.lock
  rw [h.isLocked]
  cases hlocked : r.locked with
  | false =>
    rw [if_neg Bool.false_ne_true, CCryptoKeyStore.lockKeyStore, setCrypted_of h.fUseCrypto]
    exact ⟨rfl, { h with vMasterKey := rfl }⟩
  | true =>
    refine ⟨rfl, { h with vMasterKey := ?_ }⟩
    have hkey := h.vMasterKey
    rwa [hlocked] at hkey

theorem put (h : Sealed K C w r mk right nID master kiv) (id : UInt160)
    (entry : Valtype × Option CKey) :
    Sealed K C { w with mapCryptedKeys := w.mapCryptedKeys.insert id (sealEntry K C mk entry) }
      { r with entries := r.entries.insert id entry } mk right nID master kiv := by
  refine { h with entries := ?_ }
  intro id'
  rw [getElem?_insert_ite, getElem?_insert_ite, h.entries]
  by_cases hid : id = id'
  · rw [if_pos hid, if_pos hid, Option.map_some]
  · rw [if_neg hid, if_neg hid]

theorem addKey (h : Sealed K C w r mk right nID master kiv) (hlocked : r.locked = false)
    (key : CKey) :
    (w.addKey K C key).1 = true ∧
      Sealed K C (w.withStore (w.addKey K C key)).2 (r.put K C key) mk right nID master kiv := by
  have hkey : w.vMasterKey = mk := by
    have hkey := h.vMasterKey
    rwa [hlocked] at hkey
  rw [addKey_unlocked h.fUseCrypto hkey h.size]
  exact ⟨rfl, h.put _ _⟩

theorem addKeys (h : Sealed K C w r mk right nID master kiv) (hlocked : r.locked = false)
    (generated : List CKey) :
    Sealed K C (generated.foldl (fun w key => (w.withStore (w.addKey K C key)).2) w)
      (generated.foldl (Ring.put K C) r) mk right nID master kiv := by
  induction generated generalizing w r with
  | nil => exact h
  | cons key generated ih => exact ih (h.addKey hlocked key).2 hlocked

theorem receiveStealth (h : Sealed K C w r mk right nID master kiv) (ckey : CKey) :
    Sealed K C (w.receiveStealth K C ckey) (r.receiveStealth K C ckey) mk right nID master kiv := by
  unfold CryptWallet.receiveStealth Ring.receiveStealth
  rw [h.haveKey, h.isLocked]
  by_cases hmem : keyIdOf K (C.pubKeyOf ckey) ∈ r.entries
  · rw [if_pos (decide_eq_true hmem), if_pos hmem]
    exact h
  · rw [if_neg (by simp [hmem]), if_neg hmem]
    cases hlocked : r.locked with
    | false => exact (h.addKey hlocked ckey).2
    | true =>
      rw [if_pos rfl, if_pos rfl, addCryptedKey_of h.fUseCrypto]
      have hput := h.put (keyIdOf K (C.pubKeyOf ckey)) (C.pubKeyOf ckey, none)
      rwa [hlocked] at hput

/-! ### Unlocking -/

theorem first (h : Sealed K C w r mk right nID master kiv) :
    w.first = r.first.map (sealEntry K C mk) := first_congr h.entries

/-- **The master key is accepted if the first key has a secret.** -/
theorem store_unlock (hC : C.Lawful) (hr : r.Keyed K C)
    (h : Sealed K C w r mk right nID master kiv) :
    w.toCCryptoKeyStore.unlock K C mk =
      if r.opens then (true, { w.toCCryptoKeyStore with vMasterKey := mk })
      else (false, w.toCCryptoKeyStore) := by
  unfold CCryptoKeyStore.unlock Ring.opens
  simp only [setCrypted_of h.fUseCrypto, h.first]
  cases hfirst : r.first with
  | none => rfl
  | some entry =>
    obtain ⟨vchPubKey, key⟩ := entry
    obtain ⟨id, -, hentry⟩ := Ring.getElem?_first hfirst
    cases key with
    | none =>
      simp only [Option.map_some, sealEntry, decryptKey_nil hC, Bool.false_eq_true, if_false]
    | some key =>
      obtain rfl := (hr id _ hentry).2 key rfl
      simp only [Option.map_some, sealEntry, decryptKey_encrypt hC h.size, if_true]

/-- The right passphrase decrypts it. -/
theorem opened_right (hC : C.Lawful) (hr : r.Keyed K C)
    (h : Sealed K C w r mk right nID master kiv) :
    w.opened K C right = if r.opens then some mk else none := by
  unfold CryptWallet.opened
  rw [h.mapMasterKeys]
  simp only [List.head?_cons, Option.bind_eq_bind, Option.bind_some, h.derived, h.crypted,
    hC.decrypt_encrypt, h.store_unlock hC hr]
  cases r.opens <;> rfl

end Sealed

/-! ### Filling in -/

/-- An entry is filled in. -/
def Ring.fillAt (C : WalletCrypto) (expand : Valtype → Option CKey) (r : Ring) (id : UInt160) :
    Ring :=
  { r with entries := r.entries.alter id fun entry => entry.map (fillEntry C expand) }

theorem getElem?_fillAt (id id' : UInt160) : (r.fillAt C expand id).entries[id']? =
    if id = id' then r.entries[id']?.map (Ring.fillEntry C expand) else r.entries[id']? := by
  rw [Ring.fillAt, ExtTreeMap.getElem?_alter]
  by_cases hid : id = id'
  · rw [if_pos (Std.compare_eq_iff_eq.mpr hid), if_pos hid, hid]
  · rw [if_neg (mt Std.compare_eq_iff_eq.mp hid), if_neg hid]

/-- To fill in twice is no more than once. -/
theorem fillEntry_fillEntry (entry : Valtype × Option CKey) :
    Ring.fillEntry C expand (Ring.fillEntry C expand entry) = Ring.fillEntry C expand entry := by
  obtain ⟨vchPubKey, key⟩ := entry
  cases key with
  | some key => rfl
  | none =>
    cases hmade : Ring.made C expand vchPubKey with
    | none => simp [Ring.fillEntry, hmade]
    | some key => simp [Ring.fillEntry, hmade]

theorem getElem?_foldl_fillAt (ids : List UInt160) (r : Ring) (id : UInt160) :
    (ids.foldl (Ring.fillAt C expand) r).entries[id]? =
      if id ∈ ids then r.entries[id]?.map (Ring.fillEntry C expand) else r.entries[id]? := by
  induction ids generalizing r with
  | nil => simp
  | cons a ids ih =>
    rw [List.foldl_cons, ih, getElem?_fillAt]
    by_cases ha : a = id
    · subst ha
      simp only [if_true, Option.map_map, List.mem_cons, true_or]
      have htwice : Ring.fillEntry C expand ∘ Ring.fillEntry C expand = Ring.fillEntry C expand :=
        funext fillEntry_fillEntry
      rw [htwice, ite_self]
    · simp [ha, Ne.symm ha]

theorem locked_foldl_fillAt (ids : List UInt160) (r : Ring) :
    (ids.foldl (Ring.fillAt C expand) r).locked = r.locked := by
  induction ids generalizing r with
  | nil => rfl
  | cons id ids ih => exact ih (r.fillAt C expand id)

/-- The entries keep their ids when keys that fit are filled in. -/
theorem Ring.Keyed.fillAt (hr : r.Keyed K C) (id : UInt160) :
    (r.fillAt C expand id).Keyed K C := by
  intro id' entry hentry
  rw [getElem?_fillAt] at hentry
  split_ifs at hentry with hid
  · rw [Option.map_eq_some_iff] at hentry
    obtain ⟨before, hbefore, rfl⟩ := hentry
    obtain ⟨hkey, hfits⟩ := hr id' before hbefore
    obtain ⟨vchPubKey, key⟩ := before
    cases key with
    | some key => exact ⟨hkey, hfits⟩
    | none =>
      refine ⟨hkey, ?_⟩
      intro key hmade
      have hfilter := (Option.filter_eq_some_iff.mp hmade).2
      exact of_decide_eq_true hfilter
  · exact hr id' entry hentry

namespace Sealed

/-- Nothing is done where nothing can be filled in. -/
theorem fillAt_of_fixed (h : Sealed K C w r mk right nID master kiv) {id : UInt160}
    (hfixed : r.entries[id]?.map (Ring.fillEntry C expand) = r.entries[id]?) :
    Sealed K C w (r.fillAt C expand id) mk right nID master kiv := by
  refine { h with entries := ?_ }
  intro id'
  rw [getElem?_fillAt, h.entries]
  split_ifs with hid
  · rw [← hid, hfixed]
  · rfl

/-- The loop body fills in an entry. -/
theorem unlockStealthKey (hC : C.Lawful) (hr : r.Keyed K C)
    (h : Sealed K C w r mk right nID master kiv) (hlocked : r.locked = false) (id : UInt160) :
    Sealed K C (w.unlockStealthKey K C expand id) (r.fillAt C expand id) mk right nID master
      kiv := by
  unfold CryptWallet.unlockStealthKey
  rw [h.entries]
  cases hentry : r.entries[id]? with
  | none => exact h.fillAt_of_fixed (by rw [hentry]; rfl)
  | some entry =>
    obtain ⟨vchPubKey, key⟩ := entry
    cases key with
    | some key =>
      -- a secret that is there is not empty
      have hkeep : Sealed K C w (r.fillAt C expand id) mk right nID master kiv :=
        h.fillAt_of_fixed (by rw [hentry]; rfl)
      simp only [Option.map_some, sealEntry]
      cases hsecret : C.encrypt mk (serUInt256 (K.hash vchPubKey)) key.vch with
      | nil => exact absurd hsecret (encrypt_ne_nil hC _ _ _)
      | cons c cs => exact hkeep
    | none =>
      obtain ⟨hid, -⟩ := hr id _ hentry
      simp only [Option.map_some, sealEntry]
      cases hmade : expand vchPubKey with
      | none =>
        refine h.fillAt_of_fixed ?_
        simp [hentry, Ring.fillEntry, Ring.made, hmade]
      | some ckey =>
        by_cases hfits : C.pubKeyOf ckey = vchPubKey
        · have hput := (h.addKey hlocked ckey).2
          simp only [hfits, ne_eq, not_true_eq_false, if_false]
          refine { hput with entries := ?_ }
          intro id'
          rw [hput.entries, getElem?_fillAt, Ring.put, getElem?_insert_ite, hfits]
          have hid : id = keyIdOf K vchPubKey := hid
          rw [← hid]
          by_cases hat : id = id'
          · subst hat
            simp [hentry, Ring.fillEntry, Ring.made, hmade, Option.filter, hfits]
          · rw [if_neg hat, if_neg hat]
        · simp only [ne_eq, hfits, not_false_eq_true, if_true]
          refine h.fillAt_of_fixed ?_
          simp [hentry, Ring.fillEntry, Ring.made, hmade, hfits]

theorem unlockStealthKeys (hC : C.Lawful) (hr : r.Keyed K C)
    (h : Sealed K C w r mk right nID master kiv) (hlocked : r.locked = false) (ids : List UInt160) :
    Sealed K C (ids.foldl (CryptWallet.unlockStealthKey K C expand) w)
      (ids.foldl (Ring.fillAt C expand) r) mk right nID master kiv := by
  induction ids generalizing w r with
  | nil => exact h
  | cons id ids ih => exact ih (hr.fillAt id) (h.unlockStealthKey hC hr hlocked id) hlocked

/-- What has no secret yet is filled in, where a key can be made. -/
theorem unlockStealth (hC : C.Lawful) (hr : r.Keyed K C)
    (h : Sealed K C w r mk right nID master kiv) (hlocked : r.locked = false) :
    Sealed K C (w.unlockStealthAddresses K C expand) (r.fill C expand) mk right nID master kiv := by
  have hkeys := @unlockStealthKeys K C expand w r mk right nID master kiv hC hr h hlocked
    w.mapCryptedKeys.keys
  refine { hkeys with pass := h.pass, vMasterKey := ?_, entries := ?_ }
  · have hkey := hkeys.vMasterKey
    rwa [locked_foldl_fillAt] at hkey
  · intro id
    rw [CryptWallet.unlockStealthAddresses, hkeys.entries, getElem?_foldl_fillAt, Ring.fill,
      ExtTreeMap.getElem?_map]
    by_cases hid : id ∈ w.mapCryptedKeys.keys
    · rw [if_pos hid]
    · have hnone := h.entries id
      rw [ExtTreeMap.mem_keys, ExtTreeMap.mem_iff_isSome_getElem?, hnone, Option.isSome_map,
        Option.not_isSome_iff_eq_none] at hid
      rw [if_neg (by rwa [ExtTreeMap.mem_keys, ExtTreeMap.mem_iff_isSome_getElem?, hnone,
        Option.isSome_map, Option.not_isSome_iff_eq_none]), hid]
      rfl

end Sealed

/-! ### Passphrases -/

theorem one_le_atLeast (nDeriveIterations : UInt32) :
    ¬ CryptWallet.atLeast nDeriveIterations < 1 := by
  rw [CryptWallet.atLeast]
  split_ifs with h
  · decide
  · rw [UInt32.lt_iff_toNat_lt] at h ⊢
    intro hone
    exact h (hone.trans (by decide))

/-- A passphrase gives a key wherever another one does. -/
theorem setKeyFromPassphrase_isSome {strKeyData chSalt : Valtype}
    {nRounds nDerivationMethod : UInt32}
    (h : setKeyFromPassphrase C strKeyData chSalt nRounds nDerivationMethod = some kiv)
    (strKeyData' : Valtype) {nRounds' : UInt32} (hrounds : ¬ nRounds' < 1) :
    ∃ kiv', setKeyFromPassphrase C strKeyData' chSalt nRounds' nDerivationMethod = some kiv' := by
  unfold setKeyFromPassphrase at h ⊢
  split_ifs at h with hbad hzero hone
  · have hsalt : ¬ (nRounds' < 1 ∨ chSalt.length ≠ walletCryptoSaltSize) := by
      rintro (hlt | hsalt)
      · exact hrounds hlt
      · exact hbad (Or.inr hsalt)
    rw [if_neg hsalt, if_pos hzero]
    exact ⟨_, rfl⟩
  · have hsalt : ¬ (nRounds' < 1 ∨ chSalt.length ≠ walletCryptoSaltSize) := by
      rintro (hlt | hsalt)
      · exact hrounds hlt
      · exact hbad (Or.inr hsalt)
    rw [if_neg hsalt, if_neg hzero, if_pos hone]
    exact ⟨_, rfl⟩

/-- The key store takes the master key, or nothing is changed. -/
theorem unlock_cases {s : CCryptoKeyStore} (h : s.fUseCrypto = true) (vMasterKeyIn : Valtype) :
    s.unlock K C vMasterKeyIn = (true, { s with vMasterKey := vMasterKeyIn }) ∨
      s.unlock K C vMasterKeyIn = (false, s) := by
  unfold CCryptoKeyStore.unlock
  simp only [setCrypted_of h]
  cases hfirst : s.first with
  | none => exact Or.inl rfl
  | some entry =>
    cases hkey : decryptKey K C vMasterKeyIn entry.1 entry.2 with
    | none => exact Or.inr (by simp [hkey])
    | some key =>
      by_cases hfits : C.pubKeyOf key = entry.1
      · exact Or.inl (by simp [hkey, hfits])
      · exact Or.inr (by simp [hkey, hfits])

/-- It does not matter whether it was locked. -/
theorem unlock_fst {s : CCryptoKeyStore} (h : s.fUseCrypto = true)
    (vMasterKey vMasterKeyIn : Valtype) :
    ({ s with vMasterKey := vMasterKey }.unlock K C vMasterKeyIn).1 =
      (s.unlock K C vMasterKeyIn).1 := by
  unfold CCryptoKeyStore.unlock
  have h' : { s with vMasterKey := vMasterKey }.fUseCrypto = true := h
  have hsame : { s with vMasterKey := vMasterKey }.first = s.first := rfl
  simp only [setCrypted_of h, setCrypted_of h', hsame]
  cases hfirst : s.first with
  | none => rfl
  | some entry =>
    cases hkey : decryptKey K C vMasterKeyIn entry.1 entry.2 with
    | none => simp [hkey]
    | some key => simp [hkey, apply_ite Prod.fst]

namespace Sealed

theorem lock_eq (h : Sealed K C w r mk right nID master kiv) :
    w.lock.2 = { w with vMasterKey := [] } := by
  unfold CryptWallet.lock
  rw [h.isLocked]
  cases hlocked : r.locked with
  | false =>
    rw [if_neg Bool.false_ne_true, CCryptoKeyStore.lockKeyStore, setCrypted_of h.fUseCrypto]
    rfl
  | true =>
    have hkey : w.vMasterKey = [] := by
      have hkey := h.vMasterKey
      rwa [hlocked] at hkey
    rw [if_pos rfl, ← hkey]

theorem opened_lock (h : Sealed K C w r mk right nID master kiv) (pass : Valtype) :
    w.lock.2.opened K C pass = w.opened K C pass := by
  rw [h.lock_eq]
  simp only [CryptWallet.opened, unlock_fst h.fUseCrypto]

/-- A passphrase that does not open the wallet is refused. -/
theorem unlock_refused (h : Sealed K C w r mk right nID master kiv) {pass : Valtype}
    (hpass : w.opened K C pass = none) (lockedOK : Bool) :
    w.unlock K C expand pass lockedOK = (false, w) := by
  unfold CryptWallet.unlock
  unfold CryptWallet.opened at hpass
  rw [h.mapMasterKeys] at hpass ⊢
  simp only [List.head?_cons, Option.bind_eq_bind, Option.bind_some] at hpass
  split_ifs
  · rfl
  · cases hkey : setKeyFromPassphrase C pass master.vchSalt master.nDeriveIterations
      master.nDerivationMethod with
    | none => simp [hkey]
    | some kiv' =>
      rw [hkey, Option.bind_some] at hpass
      cases hdecrypt : C.decrypt kiv'.1 kiv'.2 master.vchCryptedKey with
      | none => simp [hkey, hdecrypt]
      | some mk' =>
        rw [hdecrypt, Option.bind_some] at hpass
        rcases @unlock_cases K C _ h.fUseCrypto mk' with hyes | hno
        · simp [hyes] at hpass
        · simp [hkey, hdecrypt, hno, CryptWallet.withStore]

/-- The right passphrase is no guess. -/
theorem notGuessed (h : Sealed K C w r mk right nID master kiv) : w.NotGuessed K C r right := by
  intro right' hright'
  exact Or.inl (Option.some.inj (h.pass.symm.trans hright'))

/-- Nor is the passphrase changed then. -/
theorem change_refused (h : Sealed K C w r mk right nID master kiv) {pass : Valtype}
    (hpass : w.opened K C pass = none) (strNew : Valtype) (nMeasured : UInt32) (fWasLocked : Bool) :
    CryptWallet.changeLoop K C expand pass strNew nMeasured fWasLocked [] w.mapMasterKeys w =
      (false, w) := by
  unfold CryptWallet.opened at hpass
  rw [h.mapMasterKeys] at hpass ⊢
  simp only [List.head?_cons, Option.bind_eq_bind, Option.bind_some] at hpass
  simp only [CryptWallet.changeLoop]
  cases hkey : setKeyFromPassphrase C pass master.vchSalt master.nDeriveIterations
    master.nDerivationMethod with
  | none => rfl
  | some kiv' =>
    rw [hkey, Option.bind_some] at hpass
    cases hdecrypt : C.decrypt kiv'.1 kiv'.2 master.vchCryptedKey with
    | none => simp [hdecrypt]
    | some mk' =>
      rw [hdecrypt, Option.bind_some] at hpass
      rcases @unlock_cases K C _ h.fUseCrypto mk' with hyes | hno
      · simp [hyes] at hpass
      · simp [hdecrypt, hno, CryptWallet.withStore]

variable (expand) in
/-- The right passphrase unlocks the wallet, and what can be made is filled in. -/
theorem unlock (hC : C.Lawful) (hr : r.Keyed K C) (h : Sealed K C w r mk right nID master kiv)
    {pass : Valtype} (hguess : w.NotGuessed K C r pass) (lockedOK : Bool) :
    (w.unlock K C expand pass lockedOK).1 = (r.unlock C expand pass lockedOK).1 ∧
      Sealed K C (w.unlock K C expand pass lockedOK).2 (r.unlock C expand pass lockedOK).2 mk right
        nID master kiv := by
  have hpass := hguess right h.pass
  by_cases hopens : pass = right ∧ r.opens = true
  · obtain ⟨rfl, hopens⟩ := hopens
    unfold CryptWallet.unlock Ring.unlock
    rw [h.isLocked, h.mapMasterKeys, h.pass]
    simp only [h.derived, h.crypted, hC.decrypt_encrypt, h.store_unlock hC hr, hopens, if_true,
      true_and, CryptWallet.withStore]
    split_ifs
    · exact ⟨rfl, h⟩
    · refine ⟨rfl, ?_⟩
      have hopen : Sealed K C { w with vMasterKey := mk } { r with locked := false } mk pass nID
          master kiv := { h with vMasterKey := rfl }
      have hropen : Ring.Keyed K C { r with locked := false } := hr
      exact hopen.unlockStealth hC hropen rfl
  · have hrefused : w.opened K C pass = none := by
      rcases hpass with rfl | hpass
      · rw [h.opened_right hC hr]
        simp only [true_and] at hopens
        rw [if_neg hopens]
      · exact Option.isNone_iff_eq_none.mp hpass
    rw [h.unlock_refused hrefused]
    unfold Ring.unlock
    rw [h.pass]
    simp only [hopens, if_false, ite_self]
    exact ⟨trivial, h⟩

/-- The master key as it is encrypted under a new passphrase. -/
def rekeyed (C : WalletCrypto) (master : CMasterKey) (nMeasured : UInt32) (kiv : Valtype × Valtype)
    (mk : Valtype) : CMasterKey :=
  { master with
    nDeriveIterations := CryptWallet.atLeast nMeasured
    vchCryptedKey := C.encrypt kiv.1 kiv.2 mk }

theorem change_accepted {strOld strNew : Valtype} {nMeasured : UInt32} {kiv' : Valtype × Valtype}
    (hold : setKeyFromPassphrase C strOld master.vchSalt master.nDeriveIterations
      master.nDerivationMethod = some kiv)
    (hdecrypt : C.decrypt kiv.1 kiv.2 master.vchCryptedKey = some mk)
    (hunlock : w.toCCryptoKeyStore.unlock K C mk =
      (true, { w.toCCryptoKeyStore with vMasterKey := mk }))
    (hnew : setKeyFromPassphrase C strNew master.vchSalt (CryptWallet.atLeast nMeasured)
      master.nDerivationMethod = some kiv') (fWasLocked : Bool) :
    CryptWallet.changeLoop K C expand strOld strNew nMeasured fWasLocked [] [(nID, master)] w =
      (true, if fWasLocked then
        { CryptWallet.unlockStealthAddresses K C expand { w with vMasterKey := mk } with
          mapMasterKeys := [(nID, rekeyed C master nMeasured kiv' mk)] }.lock.2
      else
        { CryptWallet.unlockStealthAddresses K C expand { w with vMasterKey := mk } with
          mapMasterKeys := [(nID, rekeyed C master nMeasured kiv' mk)] }) := by
  simp only [CryptWallet.changeLoop, hold, hdecrypt, hunlock, hnew, CryptWallet.withStore]
  rfl

variable (expand) in
/-- The master key is encrypted under the new passphrase. -/
theorem changePassphrase (hC : C.Lawful) (hr : r.Keyed K C)
    (h : Sealed K C w r mk right nID master kiv) {old : Valtype}
    (hguess : w.NotGuessed K C r old)
    (pass : Valtype) (nMeasured : UInt32) :
    (w.changeWalletPassphrase K C expand old pass nMeasured).1 =
        (r.changePassphrase C expand old pass).1 ∧
      ∃ right' master' kiv', Sealed K C (w.changeWalletPassphrase K C expand old pass nMeasured).2
        (r.changePassphrase C expand old pass).2 mk right' nID master' kiv' := by
  have hold := hguess right h.pass
  have hlock := h.lock.2
  have hchange : w.changeWalletPassphrase K C expand old pass nMeasured =
      CryptWallet.changeLoop K C expand old pass nMeasured w.isLocked [] w.lock.2.mapMasterKeys
        w.lock.2 := rfl
  by_cases hopens : old = right ∧ r.opens = true
  · have hr' : Ring.Keyed K C { r with locked := true } := hr
    have hunlock := hlock.store_unlock hC hr'
    rw [show Ring.opens { r with locked := true } = true from hopens.2, if_pos rfl] at hunlock
    obtain ⟨kiv', hkiv'⟩ := setKeyFromPassphrase_isSome h.derived pass (one_le_atLeast nMeasured)
    have hold := h.derived
    rw [← hopens.1] at hold
    have hdecrypt : C.decrypt kiv.1 kiv.2 master.vchCryptedKey = some mk := by
      rw [h.crypted, hC.decrypt_encrypt]
    rw [hlock.mapMasterKeys, change_accepted hold hdecrypt hunlock hkiv', h.isLocked] at hchange
    have hring : r.changePassphrase C expand old pass =
        (true, { r.fill C expand with pass := some pass, locked := r.locked }) := by
      simp only [Ring.changePassphrase, h.pass, hopens, and_self, if_true]
      rfl
    rw [hchange, hring]
    -- the wallet is open when the keys are filled in
    have hopen : Sealed K C { w.lock.2 with vMasterKey := mk } { r with locked := false } mk right
        nID master kiv := { hlock with vMasterKey := rfl }
    have hropen : Ring.Keyed K C { r with locked := false } := hr
    have hfilled := @unlockStealth K C expand _ _ mk right nID master kiv hC hropen hopen rfl
    have hchanged : Sealed K C
        { CryptWallet.unlockStealthAddresses K C expand { w.lock.2 with vMasterKey := mk } with
          mapMasterKeys := [(nID, rekeyed C master nMeasured kiv' mk)] }
        { r.fill C expand with pass := some pass, locked := false } mk pass nID
        (rekeyed C master nMeasured kiv' mk) kiv' :=
      { hfilled with mapMasterKeys := rfl, pass := rfl, derived := hkiv', crypted := rfl }
    refine ⟨rfl, pass, rekeyed C master nMeasured kiv' mk, kiv', ?_⟩
    cases r.locked with
    | false => exact hchanged
    | true => exact hchanged.lock.2
  · have hrefused : w.lock.2.opened K C old = none := by
      rw [h.opened_lock]
      rcases hold with rfl | hold
      · rw [h.opened_right hC hr]
        simp only [true_and] at hopens
        rw [if_neg hopens]
      · exact Option.isNone_iff_eq_none.mp hold
    rw [hlock.change_refused hrefused] at hchange
    have hring : r.changePassphrase C expand old pass = (false, { r with locked := true }) := by
      simp only [Ring.changePassphrase, h.pass, hopens, if_false]
    rw [hchange, hring]
    exact ⟨rfl, right, master, kiv, hlock⟩

end Sealed

/-! ## 2. A wallet without a passphrase -/

/-- Without the master key nothing can be filled in. -/
theorem unlockStealth_locked (h : w.fUseCrypto = true) (hkey : w.vMasterKey = []) :
    w.unlockStealthAddresses K C expand = w := by
  have hbody : ∀ id, w.unlockStealthKey K C expand id = w := by
    intro id
    unfold CryptWallet.unlockStealthKey
    simp only [addKey_locked h hkey, CryptWallet.withStore]
    cases hentry : w.mapCryptedKeys[id]? with
    | none => rfl
    | some entry =>
      obtain ⟨vchPubKey, secret⟩ := entry
      cases secret with
      | cons c cs => rfl
      | nil =>
        cases hmade : expand vchPubKey with
        | none => simp [hmade]
        | some ckey => simp [hmade]
  unfold CryptWallet.unlockStealthAddresses
  generalize w.mapCryptedKeys.keys = ids
  induction ids with
  | nil => rfl
  | cons id ids ih => rw [List.foldl_cons, hbody, ih]

namespace Stuck

theorem isLocked (h : Stuck K C w r) : w.isLocked = true := by
  rw [isLocked_of h.fUseCrypto, h.vMasterKey]
  rfl

theorem haveKey (h : Stuck K C w r) (id : UInt160) : w.haveKey id = decide (id ∈ r.entries) := by
  simp only [CCryptoKeyStore.haveKey, h.fUseCrypto, ExtTreeMap.mem_iff_isSome_getElem?, h.entries,
    Option.isSome_map]
  rfl

theorem getPubKey (h : Stuck K C w r) (id : UInt160) :
    w.getPubKey C id = r.entries[id]?.map (·.1) := by
  simp only [CCryptoKeyStore.getPubKey, h.fUseCrypto, h.entries, Option.map_map]
  rfl

theorem lock_eq (h : Stuck K C w r) : w.lock = (true, w) := by
  rw [CryptWallet.lock, h.isLocked, if_pos rfl]

/-- All that comes in is a public key. -/
theorem receiveStealth (h : Stuck K C w r) (ckey : CKey) :
    Stuck K C (w.receiveStealth K C ckey) (r.receiveStealth K C ckey) := by
  unfold CryptWallet.receiveStealth Ring.receiveStealth
  rw [h.haveKey, h.isLocked, h.locked]
  by_cases hmem : keyIdOf K (C.pubKeyOf ckey) ∈ r.entries
  · rw [if_pos (decide_eq_true hmem), if_pos hmem]
    exact h
  · rw [if_neg (by simp [hmem]), if_neg hmem, if_pos rfl, if_pos rfl,
      addCryptedKey_of h.fUseCrypto]
    refine { h with locked := rfl, entries := ?_, keyless := ?_ }
    · intro id
      rw [getElem?_insert_ite]
      simp only [CryptWallet.withStore]
      rw [getElem?_insert_ite, h.entries]
      split_ifs <;> rfl
    · intro id entry hentry
      rw [getElem?_insert_ite] at hentry
      split_ifs at hentry
      · obtain rfl := Option.some.inj hentry
        rfl
      · exact h.keyless id entry hentry

variable (expand) in
theorem unlock (h : Stuck K C w r) (pass : Valtype) (lockedOK : Bool) :
    w.unlock K C expand pass lockedOK = (true, w) ∧
      r.unlock C expand pass lockedOK = (true, r) := by
  unfold CryptWallet.unlock Ring.unlock
  rw [h.isLocked, h.locked, h.mapMasterKeys, h.pass]
  simp [unlockStealth_locked h.fUseCrypto h.vMasterKey]

end Stuck

namespace Plain

theorem isLocked (h : Plain C w r) : w.isLocked = false := by
  simp [CCryptoKeyStore.isLocked, h.fUseCrypto]

theorem haveKey (h : Plain C w r) (id : UInt160) : w.haveKey id = decide (id ∈ r.entries) := by
  simp only [CCryptoKeyStore.haveKey, h.fUseCrypto, ExtTreeMap.mem_iff_isSome_getElem?, h.entries,
    Option.isSome_map]
  rfl

theorem getPubKey (h : Plain C w r) (id : UInt160) :
    w.getPubKey C id = r.entries[id]?.map (·.1) := by
  simp only [CCryptoKeyStore.getPubKey, h.fUseCrypto, h.entries, Option.map_map]
  rfl

theorem getKey (h : Plain C w r) (id : UInt160) : w.getKey K C id = r.entries[id]?.bind (·.2) := by
  simp only [CCryptoKeyStore.getKey, h.fUseCrypto, h.entries]
  cases w.mapKeys[id]? <;> rfl

theorem addKey (h : Plain C w r) (key : CKey) :
    (w.addKey K C key).1 = true ∧ Plain C (w.withStore (w.addKey K C key)).2 (r.put K C key) := by
  have hadd : w.addKey K C key = (true, { w.toCCryptoKeyStore with
      mapKeys := w.mapKeys.insert (keyIdOf K (C.pubKeyOf key)) key }) := by
    rw [CCryptoKeyStore.addKey, CCryptoKeyStore.addKeyPubKey, if_pos (by simp [h.fUseCrypto])]
  rw [hadd]
  refine ⟨rfl, { h with entries := ?_ }⟩
  intro id
  simp only [CryptWallet.withStore, Ring.put]
  rw [getElem?_insert_ite, getElem?_insert_ite, h.entries]
  split_ifs <;> rfl

theorem receiveStealth (h : Plain C w r) (ckey : CKey) :
    Plain C (w.receiveStealth K C ckey) (r.receiveStealth K C ckey) := by
  unfold CryptWallet.receiveStealth Ring.receiveStealth
  rw [h.haveKey, h.isLocked, h.locked]
  by_cases hmem : keyIdOf K (C.pubKeyOf ckey) ∈ r.entries
  · rw [if_pos (decide_eq_true hmem), if_pos hmem]
    exact h
  · rw [if_neg (by simp [hmem]), if_neg hmem]
    exact (h.addKey ckey).2

theorem isEmpty (h : Plain C w r) : r.entries.isEmpty = w.mapKeys.isEmpty := by
  rw [Bool.eq_iff_iff, ExtTreeMap.isEmpty_iff, ExtTreeMap.isEmpty_iff,
    ← ExtTreeMap.minKey?_eq_none_iff, ← ExtTreeMap.minKey?_eq_none_iff, minKey?_congr h.entries]

variable (K) in
/-- It can be locked only while it is empty. -/
theorem lock (h : Plain C w r) :
    w.lock.1 = r.lock.1 ∧ Shows K C w.lock.2 r.lock.2 := by
  unfold CryptWallet.lock Ring.lock
  rw [h.isLocked, h.locked, h.pass, CCryptoKeyStore.lockKeyStore, CCryptoKeyStore.setCrypted,
    h.isEmpty]
  simp only [h.fUseCrypto, Bool.false_eq_true, if_false, Option.isNone_none, Bool.true_and]
  cases hempty : w.mapKeys.isEmpty with
  | false => exact ⟨rfl, .plain h⟩
  | true =>
    have hnone : ∀ id : UInt160, r.entries[id]? = none := by
      intro id
      have hmap := ExtTreeMap.isEmpty_iff.mp hempty
      rw [h.entries, hmap]
      simp
    refine ⟨rfl, .stuck ?_⟩
    refine ⟨rfl, rfl, ExtTreeMap.isEmpty_iff.mp hempty, h.mapMasterKeys, rfl, rfl, ?_, ?_⟩
    · intro id
      simp only [CryptWallet.withStore, Bool.not_true, Bool.false_eq_true, if_false]
      rw [h.mapCryptedKeys, hnone id]
      simp
    · intro id entry hentry
      have hsome : r.entries[id]? = some entry := hentry
      rw [hnone id] at hsome
      cases hsome

variable (K expand) in
theorem unlock (h : Plain C w r) (pass : Valtype) (lockedOK : Bool) :
    w.unlock K C expand pass lockedOK = (lockedOK, w) ∧
      r.unlock C expand pass lockedOK = (lockedOK, r) := by
  have hkeys : w.unlockStealthAddresses K C expand = w := by
    rw [CryptWallet.unlockStealthAddresses, ExtTreeMap.keys_eq_nil_iff.mpr h.mapCryptedKeys]
    rfl
  unfold CryptWallet.unlock Ring.unlock
  rw [h.isLocked, h.locked, h.mapMasterKeys, h.pass]
  cases lockedOK with
  | false => exact ⟨rfl, rfl⟩
  | true => simp [hkeys]

variable (K expand) in
theorem changePassphrase (h : Plain C w r) (old pass : Valtype) (nMeasured : UInt32) :
    w.changeWalletPassphrase K C expand old pass nMeasured = (false, w.lock.2) ∧
      r.changePassphrase C expand old pass = (false, r.lock.2) := by
  have hmaster : w.lock.2.mapMasterKeys = [] := by
    rw [CryptWallet.lock, h.isLocked]
    exact h.mapMasterKeys
  unfold CryptWallet.changeWalletPassphrase Ring.changePassphrase
  simp only [hmaster, h.pass]
  exact ⟨rfl, trivial⟩

end Plain

/-! ## 3. Encrypting a wallet -/

/-- Keys of a map that are inserted under their ids into another one. -/
theorem getElem?_foldl_insert {V : Type} {f : CKey → V} {idOf : CKey → UInt160}
    {keysOf : ExtTreeMap UInt160 CKey} {keys : List CKey}
    (hkeys : ∀ key ∈ keys, keysOf[idOf key]? = some key) (m : ExtTreeMap UInt160 V) (id : UInt160) :
    (keys.foldl (fun m key => m.insert (idOf key) (f key)) m)[id]? =
      if id ∈ keys.map idOf then keysOf[id]?.map f else m[id]? := by
  induction keys generalizing m with
  | nil => simp
  | cons key keys ih =>
    rw [List.foldl_cons, ih (fun key hkey => hkeys key (List.mem_cons_of_mem _ hkey)),
      getElem?_insert_ite, List.map_cons]
    by_cases hrest : id ∈ keys.map idOf
    · rw [if_pos hrest, if_pos (List.mem_cons_of_mem _ hrest)]
    · rw [if_neg hrest]
      by_cases hid : idOf key = id
      · have hkey := hkeys key (List.mem_cons_self ..)
        rw [hid] at hkey
        rw [if_pos hid, if_pos (by simp [hid]), hkey, Option.map_some]
      · rw [if_neg hid, if_neg]
        intro hmem
        rcases List.mem_cons.mp hmem with heq | hmem
        · exact hid heq.symm
        · exact hrest hmem

namespace Plain

/-- All keys are encrypted, and the wallet is locked. -/
theorem encryptKeys (hr : r.Keyed K C) (h : Plain C w r) (hsize : mk.length = walletCryptoKeySize)
    (hderived : setKeyFromPassphrase C right master.vchSalt master.nDeriveIterations
      master.nDerivationMethod = some kiv)
    (hcrypted : master.vchCryptedKey = C.encrypt kiv.1 kiv.2 mk) (nMax : UInt32) :
    ∃ s, w.encryptKeys K C mk = (true, s) ∧
      Sealed K C ⟨s, [(nID, master)], nMax⟩ { r with pass := some right, locked := true } mk right
        nID master kiv := by
  have hloop := @encryptLoop_of K C mk { w.toCCryptoKeyStore with fUseCrypto := true } rfl hsize
    (w.mapKeys.toList.map (·.2))
  refine ⟨{ w.toCCryptoKeyStore with
    mapKeys := ∅
    fUseCrypto := true
    mapCryptedKeys := (w.mapKeys.toList.map (·.2)).foldl
      (fun m key => m.insert (keyIdOf K (C.pubKeyOf key))
        (sealEntry K C mk (C.pubKeyOf key, some key))) w.mapCryptedKeys }, ?_, ?_⟩
  · unfold CCryptoKeyStore.encryptKeys
    rw [if_neg (by simp [h.mapCryptedKeys, h.fUseCrypto]), hloop]
  · refine ⟨rfl, rfl, rfl, rfl, hderived, hcrypted, hsize, h.vMasterKey, ?_⟩
    intro id
    have hkeyed : ∀ (id : UInt160) key, w.mapKeys[id]? = some key →
        keyIdOf K (C.pubKeyOf key) = id := by
      intro id key hkey
      have hentry := h.entries id
      rw [hkey] at hentry
      exact (hr id _ hentry).1.symm
    have hkeys : ∀ key ∈ w.mapKeys.toList.map (·.2),
        w.mapKeys[keyIdOf K (C.pubKeyOf key)]? = some key := by
      intro key hmem
      obtain ⟨⟨id, key'⟩, hpair, rfl⟩ := List.mem_map.mp hmem
      have hkey := ExtTreeMap.mem_toList_iff_getElem?_eq_some.mp hpair
      rw [hkeyed id key' hkey]
      exact hkey
    rw [getElem?_foldl_insert hkeys, h.mapCryptedKeys]
    simp only [h.entries]
    by_cases hid : id ∈ (w.mapKeys.toList.map (·.2)).map fun key => keyIdOf K (C.pubKeyOf key)
    · rw [if_pos hid, Option.map_map]
      rfl
    · -- there is no key under another id
      have hnone : w.mapKeys[id]? = none := by
        cases hkey : w.mapKeys[id]? with
        | none => rfl
        | some key =>
          have hmem := ExtTreeMap.mem_toList_iff_getElem?_eq_some.mpr hkey
          exact absurd (List.mem_map.mpr ⟨key, List.mem_map.mpr ⟨_, hmem, rfl⟩, hkeyed id key hkey⟩)
            hid
      rw [if_neg hid, hnone]
      simp

/-- Every entry has a key. -/
theorem hasKeys (h : Plain C w r) (id : UInt160) : r.entries[id]? = none ∨
    ∃ key, r.entries[id]? = some (C.pubKeyOf key, some key) := by
  rw [h.entries]
  cases w.mapKeys[id]? with
  | none => exact Or.inl rfl
  | some key => exact Or.inr ⟨key, rfl⟩

theorem opens (h : Plain C w r) : r.opens = true := by
  unfold Ring.opens
  cases hfirst : r.first with
  | none => rfl
  | some entry =>
    obtain ⟨id, -, hentry⟩ := Ring.getElem?_first hfirst
    rcases h.hasKeys id with hnone | ⟨key, hkey⟩
    · rw [hnone] at hentry
      cases hentry
    · rw [hkey] at hentry
      obtain rfl := Option.some.inj hentry
      rfl

theorem fill (h : Plain C w r) : r.entries.map (fun _ => Ring.fillEntry C expand) = r.entries := by
  apply ExtTreeMap.ext_getElem?
  intro id
  rw [ExtTreeMap.getElem?_map]
  rcases h.hasKeys id with hnone | ⟨key, hkey⟩
  · rw [hnone]
    rfl
  · rw [hkey]
    rfl

/-- The master key of a wallet that is encrypted. -/
def newMaster (C : WalletCrypto) (kiv : Valtype × Valtype) (mk vchSalt : Valtype)
    (nDerivationMethodIndex nMeasured : UInt32) : CMasterKey :=
  ⟨C.encrypt kiv.1 kiv.2 mk, vchSalt, CryptWallet.derivationMethod nDerivationMethodIndex,
    CryptWallet.atLeast nMeasured⟩

theorem encryptWallet_eq {nDerivationMethodIndex nMeasured : UInt32} {pass vchSalt : Valtype}
    {s : CCryptoKeyStore} (h : Plain C w r)
    (hkiv : setKeyFromPassphrase C pass vchSalt (CryptWallet.atLeast nMeasured)
      (CryptWallet.derivationMethod nDerivationMethodIndex) = some kiv)
    (hkeys : w.encryptKeys K C mk = (true, s)) (generated : List CKey) :
    w.encryptWallet K C expand nDerivationMethodIndex pass mk vchSalt nMeasured generated =
      some (true, ((CryptWallet.unlock K C expand (CryptWallet.lock ⟨s,
        [(w.nMasterKeyMaxID + 1, newMaster C kiv mk vchSalt nDerivationMethodIndex nMeasured)],
        w.nMasterKeyMaxID + 1⟩).2 pass false).2.newKeyPool K C generated).lock.2) := by
  unfold CryptWallet.encryptWallet
  rw [if_neg (by simp [h.fUseCrypto])]
  simp only [hkiv, hkeys, h.mapMasterKeys, CryptWallet.withStore, List.nil_append, newMaster]

end Plain

/-- The ring after some keys, but for the lock and the passphrase. -/
theorem entries_foldl_put (generated : List CKey) {r r' : Ring} (h : r.entries = r'.entries) :
    (generated.foldl (Ring.put K C) r).entries = (generated.foldl (Ring.put K C) r').entries ∧
      (generated.foldl (Ring.put K C) r).pass = r.pass := by
  induction generated generalizing r r' with
  | nil => exact ⟨h, rfl⟩
  | cons key generated ih =>
    have hput : (r.put K C key).entries = (r'.put K C key).entries := by
      simp only [Ring.put, h]
    exact ih hput

/-- There is a key for the passphrase of a new wallet. -/
theorem setKeyFromPassphrase_new {vchSalt : Valtype} (hsalt : vchSalt.length = walletCryptoSaltSize)
    (pass : Valtype) (nDerivationMethodIndex nMeasured : UInt32) :
    ∃ kiv, setKeyFromPassphrase C pass vchSalt (CryptWallet.atLeast nMeasured)
      (CryptWallet.derivationMethod nDerivationMethodIndex) = some kiv := by
  have hfits : ¬ (CryptWallet.atLeast nMeasured < 1 ∨ vchSalt.length ≠ walletCryptoSaltSize) := by
    rintro (hlt | hne)
    · exact one_le_atLeast _ hlt
    · exact hne hsalt
  unfold setKeyFromPassphrase CryptWallet.derivationMethod
  rw [if_neg hfits]
  by_cases hscrypt : nDerivationMethodIndex = 1
  · rw [if_pos hscrypt, if_neg (by decide), if_pos rfl]
    exact ⟨_, rfl⟩
  · rw [if_neg hscrypt, if_pos rfl]
    exact ⟨_, rfl⟩

/-- **The wallet is encrypted**, and its key pool is made again. -/
theorem Plain.encryptWallet (hC : C.Lawful) (hr : r.Keyed K C) (h : Plain C w r)
    {vMasterKey vchSalt : Valtype} (hsize : vMasterKey.length = walletCryptoKeySize)
    (hsalt : vchSalt.length = walletCryptoSaltSize) (nDerivationMethodIndex nMeasured : UInt32)
    (pass : Valtype) (generated : List CKey) :
    ∃ w', w.encryptWallet K C expand nDerivationMethodIndex pass vMasterKey vchSalt nMeasured
        generated = some ((r.encryptWallet K C pass generated).1, w') ∧
      Shows K C w' (r.encryptWallet K C pass generated).2 := by
  obtain ⟨kiv, hkiv⟩ := @setKeyFromPassphrase_new C _ hsalt pass nDerivationMethodIndex nMeasured
  obtain ⟨s, hkeys, hsealed⟩ := @Plain.encryptKeys K C w r vMasterKey pass (w.nMasterKeyMaxID + 1)
    (Plain.newMaster C kiv vMasterKey vchSalt nDerivationMethodIndex nMeasured) kiv hr h hsize hkiv
    rfl (w.nMasterKeyMaxID + 1)
  have hring : r.encryptWallet K C pass generated =
      (true, { generated.foldl (Ring.put K C) r with pass := some pass, locked := true }) := by
    rw [Ring.encryptWallet, if_neg (by simp [h.pass, h.locked])]
  rw [hring]
  refine ⟨_, h.encryptWallet_eq hkiv hkeys generated, ?_⟩
  -- locked, and unlocked again for the key pool
  have hr' : Ring.Keyed K C { r with pass := some pass, locked := true } := hr
  have hunlock := (@Sealed.unlock K C expand _ _ _ _ _ _ _ hC hr' hsealed.lock.2 pass
    hsealed.lock.2.notGuessed false).2
  have hopened : Ring.unlock C expand { r with pass := some pass, locked := true } pass false =
      (true, { r with pass := some pass, locked := false }) := by
    have hopens : Ring.opens { r with pass := some pass, locked := true } = true := h.opens
    simp only [Ring.unlock, Ring.fill, hopens, h.fill, Bool.not_false, Bool.not_true,
      Bool.and_false, Bool.false_eq_true, and_self, if_false, if_true]
  rw [hopened] at hunlock
  have hpool := (hunlock.addKeys rfl generated).lock.2
  obtain ⟨hentries, hpass⟩ := @entries_foldl_put K C generated
    { r with pass := some pass, locked := false } r rfl
  rw [hentries, hpass] at hpool
  rw [CryptWallet.newKeyPool, hunlock.isLocked, if_neg Bool.false_ne_true]
  exact .sealed _ _ _ _ _ hpool

end Breakout
