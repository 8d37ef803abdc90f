/-
# What an encrypted wallet keeps

`wallet_refines` says that the wallet does what the ring does, over any run from a new wallet: it
returns the same, and gives out the same keys.

So no key is lost (`key_kept`).  But the keys can be out of reach: an unlock tries the first key
only, and if that one has no secret yet the right passphrase is refused (`unlock_iff`).  Then the
secret is never filled in either, and the wallet stays locked for good (`locked_out`).  All this
takes is a payment to a stealth address while the wallet is locked, to a key whose id is below all
others.
-/
import Breakout.WalletSealed

namespace Breakout

open Lib Std
open SecMsg (keyIdOf)

variable {K : Crypto} {C : WalletCrypto} {expand : Valtype → Option CKey} {w : CryptWallet}
  {r : Ring} {mk right : Valtype} {nID : UInt32} {master : CMasterKey} {kiv : Valtype × Valtype}

/-! ## 1. The refinement -/

variable {nDerivationMethodIndex : UInt32}

namespace Shows

theorem isLocked (h : Shows K C w r) : w.isLocked = r.locked := by
  cases h with
  | plain h => rw [h.isLocked, h.locked]
  | stuck h => rw [h.isLocked, h.locked]
  | sealed _ _ _ _ _ h => exact h.isLocked

theorem haveKey (h : Shows K C w r) (id : UInt160) : w.haveKey id = decide (id ∈ r.entries) := by
  cases h with
  | plain h => exact h.haveKey id
  | stuck h => exact h.haveKey id
  | sealed _ _ _ _ _ h => exact h.haveKey id

theorem getPubKey (h : Shows K C w r) (id : UInt160) :
    w.getPubKey C id = r.entries[id]?.map (·.1) := by
  cases h with
  | plain h => exact h.getPubKey id
  | stuck h => exact h.getPubKey id
  | sealed _ _ _ _ _ h => exact h.getPubKey id

theorem getKey (hC : C.Lawful) (hr : r.Keyed K C) (h : Shows K C w r) (hlocked : r.locked = false)
    (id : UInt160) : w.getKey K C id = r.entries[id]?.bind (·.2) := by
  cases h with
  | plain h => exact h.getKey id
  | stuck h =>
    rw [h.locked] at hlocked
    cases hlocked
  | sealed _ _ _ _ _ h => exact h.getKey hC hr hlocked id

/-- **One operation on the wallet is one on the ring.** -/
theorem step (hC : C.Lawful) (hr : r.Keyed K C) (h : Shows K C w r) (op : WalletOp)
    (hfits : w.Fits K C r op) :
    ∃ w', w.step K C expand nDerivationMethodIndex op = some ((r.step K C expand op).1, w') ∧
      Shows K C w' (r.step K C expand op).2 := by
  cases op with
  | addKey key =>
    refine ⟨(w.withStore (w.addKey K C key)).2, ?_⟩
    simp only [CryptWallet.step, Ring.step, Ring.addKey]
    cases h with
    | plain h =>
      obtain ⟨hresult, hstate⟩ := h.addKey (K := K) key
      rw [h.locked, if_neg Bool.false_ne_true]
      exact ⟨congrArg some (Prod.ext hresult rfl), .plain hstate⟩
    | stuck h =>
      rw [h.locked, if_pos rfl, addKey_locked h.fUseCrypto h.vMasterKey]
      exact ⟨rfl, .stuck h⟩
    | sealed mk right nID master kiv h =>
      cases hlocked : r.locked with
      | false =>
        obtain ⟨hresult, hstate⟩ := h.addKey hlocked key
        rw [if_neg Bool.false_ne_true]
        exact ⟨congrArg some (Prod.ext hresult rfl), .sealed _ _ _ _ _ hstate⟩
      | true =>
        have hkey := h.vMasterKey
        rw [hlocked] at hkey
        rw [if_pos rfl, addKey_locked h.fUseCrypto hkey]
        exact ⟨rfl, .sealed _ _ _ _ _ h⟩
  | receiveStealth ckey =>
    refine ⟨w.receiveStealth K C ckey, rfl, ?_⟩
    cases h with
    | plain h => exact .plain (h.receiveStealth ckey)
    | stuck h => exact .stuck (h.receiveStealth ckey)
    | sealed _ _ _ _ _ h => exact .sealed _ _ _ _ _ (h.receiveStealth ckey)
  | encryptWallet pass vMasterKey vchSalt nMeasured generated =>
    cases h with
    | plain h =>
      exact h.encryptWallet hC hr hfits.1 hfits.2 nDerivationMethodIndex nMeasured pass generated
    | stuck h =>
      refine ⟨w, ?_, ?_⟩
      · simp [CryptWallet.step, Ring.step, CryptWallet.encryptWallet, Ring.encryptWallet,
          h.fUseCrypto, h.locked]
      · simpa [Ring.step, Ring.encryptWallet, h.locked] using Shows.stuck h
    | sealed mk right nID master kiv h =>
      refine ⟨w, ?_, ?_⟩
      · simp [CryptWallet.step, Ring.step, CryptWallet.encryptWallet, Ring.encryptWallet,
          h.fUseCrypto, h.pass]
      · simpa [Ring.step, Ring.encryptWallet, h.pass] using Shows.sealed mk right nID master kiv h
  | lock =>
    refine ⟨w.lock.2, ?_⟩
    simp only [CryptWallet.step, Ring.step]
    cases h with
    | plain h =>
      obtain ⟨hresult, hstate⟩ := h.lock K
      exact ⟨congrArg some (Prod.ext hresult rfl), hstate⟩
    | stuck h =>
      rw [h.lock_eq, Ring.lock, h.locked, if_pos rfl]
      exact ⟨rfl, .stuck h⟩
    | sealed mk right nID master kiv h =>
      obtain ⟨hresult, hstate⟩ := h.lock
      have hring : r.lock = (true, { r with locked := true }) := by
        cases hlocked : r.locked with
        | false => simp [Ring.lock, hlocked, h.pass]
        | true => rw [Ring.lock, if_pos hlocked, ← hlocked]
      rw [hring]
      exact ⟨congrArg some (Prod.ext hresult rfl), .sealed _ _ _ _ _ hstate⟩
  | unlock pass lockedOK =>
    refine ⟨(w.unlock K C expand pass lockedOK).2, ?_⟩
    simp only [CryptWallet.step, Ring.step]
    cases h with
    | plain h =>
      obtain ⟨hwallet, hring⟩ := h.unlock K expand pass lockedOK
      rw [hwallet, hring]
      exact ⟨rfl, .plain h⟩
    | stuck h =>
      obtain ⟨hwallet, hring⟩ := h.unlock expand pass lockedOK
      rw [hwallet, hring]
      exact ⟨rfl, .stuck h⟩
    | sealed _ _ _ _ _ h =>
      obtain ⟨hresult, hstate⟩ := h.unlock expand hC hr hfits lockedOK
      exact ⟨congrArg some (Prod.ext hresult rfl), .sealed _ _ _ _ _ hstate⟩
  | changePassphrase old pass nMeasured =>
    refine ⟨(w.changeWalletPassphrase K C expand old pass nMeasured).2, ?_⟩
    simp only [CryptWallet.step, Ring.step]
    cases h with
    | plain h =>
      obtain ⟨hwallet, hring⟩ := h.changePassphrase K expand old pass nMeasured
      rw [hwallet, hring]
      exact ⟨rfl, (h.lock K).2⟩
    | stuck h =>
      have hwallet : w.changeWalletPassphrase K C expand old pass nMeasured = (false, w) := by
        unfold CryptWallet.changeWalletPassphrase
        simp only [h.lock_eq, h.mapMasterKeys, CryptWallet.changeLoop]
      have hring : r.changePassphrase C expand old pass = (false, r) := by
        simp [Ring.changePassphrase, Ring.lock, h.pass, h.locked]
      rw [hwallet, hring]
      exact ⟨rfl, .stuck h⟩
    | sealed _ _ _ _ _ h =>
      obtain ⟨hresult, right, master, kiv, hstate⟩ :=
        h.changePassphrase expand hC hr hfits pass nMeasured
      exact ⟨congrArg some (Prod.ext hresult rfl), .sealed _ _ _ _ _ hstate⟩

end Shows

namespace Ring

variable {id : UInt160} {key : CKey}

theorem keyed_new : Ring.new.Keyed K C := by
  intro id entry hentry
  simp [Ring.new] at hentry

theorem Keyed.put (hr : r.Keyed K C) (key : CKey) : (r.put K C key).Keyed K C := by
  intro id entry hentry
  rw [Ring.put, getElem?_insert_ite] at hentry
  split_ifs at hentry with hid
  · obtain rfl := Option.some.inj hentry
    refine ⟨hid.symm, ?_⟩
    rintro key' hkey
    rw [Option.some.inj hkey]
  · exact hr id entry hentry

theorem Keyed.receiveStealth (hr : r.Keyed K C) (ckey : CKey) :
    (r.receiveStealth K C ckey).Keyed K C := by
  unfold Ring.receiveStealth
  split_ifs
  · exact hr
  · intro id entry hentry
    rw [getElem?_insert_ite] at hentry
    split_ifs at hentry with hid
    · obtain rfl := Option.some.inj hentry
      refine ⟨hid.symm, ?_⟩
      intro key hkey
      cases hkey
    · exact hr id entry hentry
  · exact hr.put ckey

theorem Keyed.fill (hr : r.Keyed K C) : (r.fill C expand).Keyed K C := by
  intro id entry hentry
  have hfilled := @Keyed.fillAt K C expand r hr id
  refine hfilled id entry ?_
  rw [getElem?_fillAt, if_pos rfl]
  rwa [Ring.fill, ExtTreeMap.getElem?_map] at hentry

theorem Keyed.foldl_put (hr : r.Keyed K C) (generated : List CKey) :
    (generated.foldl (Ring.put K C) r).Keyed K C := by
  induction generated generalizing r with
  | nil => exact hr
  | cons key generated ih => exact ih (hr.put key)

/-- The entries stand under their ids after any operation. -/
theorem Keyed.step (hr : r.Keyed K C) (op : WalletOp) : (r.step K C expand op).2.Keyed K C := by
  cases op with
  | addKey key =>
    simp only [Ring.step, Ring.addKey]
    split_ifs
    · exact hr
    · exact hr.put key
  | receiveStealth ckey => exact hr.receiveStealth ckey
  | encryptWallet pass vMasterKey vchSalt nMeasured generated =>
    simp only [Ring.step, Ring.encryptWallet]
    split_ifs
    · exact hr
    · exact hr.foldl_put generated
  | lock =>
    simp only [Ring.step, Ring.lock]
    split_ifs <;> exact hr
  | unlock pass lockedOK =>
    simp only [Ring.step, Ring.unlock]
    cases r.pass with
    | none => split_ifs <;> exact hr
    | some right =>
      dsimp only
      split_ifs
      · exact hr
      · exact hr.fill
      · exact hr
  | changePassphrase old pass nMeasured =>
    simp only [Ring.step, Ring.changePassphrase]
    cases r.pass with
    | none =>
      simp only [Ring.lock]
      split_ifs <;> exact hr
    | some right =>
      dsimp only
      split_ifs
      · exact hr.fill
      · exact hr

end Ring

theorem Shows.run (hC : C.Lawful) (ops : List WalletOp) (hr : r.Keyed K C) (h : Shows K C w r)
    (hfits : w.EachFits K C expand nDerivationMethodIndex ops r) :
    ∃ w', w.run K C expand nDerivationMethodIndex ops = some ((r.run K C expand ops).1, w') ∧
      Shows K C w' (r.run K C expand ops).2 ∧ (r.run K C expand ops).2.Keyed K C := by
  induction ops generalizing w r with
  | nil => exact ⟨w, rfl, h, hr⟩
  | cons op ops ih =>
    obtain ⟨hop, hrest⟩ := hfits
    obtain ⟨w', hstep, hshows⟩ := h.step hC hr op hop
    obtain ⟨w'', hrun, hshows', hr'⟩ := ih (hr.step op) hshows (hrest _ hstep)
    refine ⟨w'', ?_, hshows', hr'⟩
    simp only [CryptWallet.run, hstep, Option.bind_eq_bind, Option.bind_some, hrun]
    rfl

theorem shows_new : Shows K C .new .new := by
  refine .plain ⟨rfl, rfl, rfl, rfl, rfl, rfl, ?_⟩
  intro id
  simp [Ring.new, CryptWallet.new, CCryptoKeyStore.new]

/-- **The wallet does what the ring does.**  The program does not end in any run, every operation
returns the same, and the wallet has the same keys, and gives them out unless it is locked. -/
theorem wallet_refines (hC : C.Lawful) (ops : List WalletOp)
    (hfits : CryptWallet.EachFits K C expand nDerivationMethodIndex ops .new .new) :
    ∃ w, CryptWallet.run K C expand nDerivationMethodIndex ops .new =
        some ((Ring.new.run K C expand ops).1, w) ∧
      w.isLocked = (Ring.new.run K C expand ops).2.locked ∧
      ∀ id : UInt160,
        w.haveKey id = decide (id ∈ (Ring.new.run K C expand ops).2.entries) ∧
        w.getPubKey C id = (Ring.new.run K C expand ops).2.entries[id]?.map (·.1) ∧
        (w.isLocked = false →
          w.getKey K C id = (Ring.new.run K C expand ops).2.entries[id]?.bind (·.2)) := by
  obtain ⟨w, hrun, hshows, hr⟩ := Shows.run hC ops Ring.keyed_new shows_new hfits
  refine ⟨w, hrun, hshows.isLocked, ?_⟩
  intro id
  refine ⟨hshows.haveKey id, hshows.getPubKey id, ?_⟩
  intro hlocked
  rw [hshows.isLocked] at hlocked
  exact hshows.getKey hC hr hlocked id

/-- A wallet is encrypted, paid while it is locked, and unlocked at the second attempt. -/
def sampleOps : List WalletOp :=
  [.addKey (boxKey 1), .encryptWallet [9] (List.replicate 32 5) (List.replicate 8 6) 0 [],
    .receiveStealth (boxKey 2), .unlock [8] false, .unlock [9] false,
    .changePassphrase [9] [7] 0]

/-- The stealth addresses make the key of the payment. -/
def sampleExpand (vchPubKey : Valtype) : Option CKey :=
  if vchPubKey = WalletCrypto.box.pubKeyOf (boxKey 2) then some (boxKey 2) else none

theorem wallet_refines_sample :
    ∃ w, CryptWallet.run (Crypto.sample []) .box sampleExpand 0 sampleOps .new =
        some ((Ring.new.run (Crypto.sample []) .box sampleExpand sampleOps).1, w) ∧
      w.isLocked = (Ring.new.run (Crypto.sample []) .box sampleExpand sampleOps).2.locked ∧
      ∀ id : UInt160,
        w.haveKey id =
          decide (id ∈ (Ring.new.run (Crypto.sample []) .box sampleExpand sampleOps).2.entries) ∧
        w.getPubKey .box id =
          (Ring.new.run (Crypto.sample []) .box sampleExpand sampleOps).2.entries[id]?.map (·.1) ∧
        (w.isLocked = false → w.getKey (Crypto.sample []) .box id =
          (Ring.new.run (Crypto.sample []) .box sampleExpand sampleOps).2.entries[id]?.bind
            (·.2)) :=
  wallet_refines lawful_box sampleOps (by decide +kernel)

/-! ## 2. What becomes of a key -/

/-- The keys that an operation brings. -/
def WalletOp.keys : WalletOp → List CKey
  | .addKey key => [key]
  | .encryptWallet _ _ _ _ generated => generated
  | _ => []

/-- The operations that need the master key. -/
def WalletOp.needsKey : WalletOp → Bool
  | .receiveStealth _ => false
  | .lock => false
  | _ => true

namespace Ring

variable {id : UInt160} {key : CKey}

theorem holds_put {key' : CKey} (h : r.entries[id]? = some (C.pubKeyOf key, some key))
    (hid : keyIdOf K (C.pubKeyOf key') = id → key' = key) :
    (r.put K C key').entries[id]? = some (C.pubKeyOf key, some key) := by
  rw [Ring.put, getElem?_insert_ite]
  split_ifs with heq
  · rw [hid heq]
  · exact h

theorem holds_fill (h : r.entries[id]? = some (C.pubKeyOf key, some key)) :
    (r.fill C expand).entries[id]? = some (C.pubKeyOf key, some key) := by
  rw [Ring.fill, ExtTreeMap.getElem?_map, h]
  rfl

theorem holds_foldl_put {generated : List CKey}
    (hid : ∀ key' ∈ generated, keyIdOf K (C.pubKeyOf key') = id → key' = key)
    (h : r.entries[id]? = some (C.pubKeyOf key, some key)) :
    (generated.foldl (Ring.put K C) r).entries[id]? = some (C.pubKeyOf key, some key) := by
  induction generated generalizing r with
  | nil => exact h
  | cons key' generated ih =>
    refine ih (fun k hk => hid k (List.mem_cons_of_mem _ hk)) ?_
    exact holds_put h (hid key' (List.mem_cons_self ..))

/-- A key stays on the ring unless another one with its id comes. -/
theorem holds_step {op : WalletOp}
    (hid : ∀ key' ∈ op.keys, keyIdOf K (C.pubKeyOf key') = id → key' = key)
    (h : r.entries[id]? = some (C.pubKeyOf key, some key)) :
    (r.step K C expand op).2.entries[id]? = some (C.pubKeyOf key, some key) := by
  cases op with
  | addKey key' =>
    simp only [Ring.step, Ring.addKey]
    split_ifs
    · exact h
    · exact holds_put h (hid key' (List.mem_singleton.mpr rfl))
  | receiveStealth ckey =>
    simp only [Ring.step, Ring.receiveStealth]
    split_ifs with hmem
    · exact h
    · -- the id of the payment is another one
      rw [getElem?_insert_ite, if_neg]
      · exact h
      · intro heq
        rw [heq, ExtTreeMap.mem_iff_isSome_getElem?, h] at hmem
        exact hmem rfl
    · refine holds_put h ?_
      intro heq
      rw [heq, ExtTreeMap.mem_iff_isSome_getElem?, h] at hmem
      exact absurd rfl hmem
  | encryptWallet pass vMasterKey vchSalt nMeasured generated =>
    simp only [Ring.step, Ring.encryptWallet]
    split_ifs
    · exact h
    · exact holds_foldl_put hid h
  | lock =>
    simp only [Ring.step, Ring.lock]
    split_ifs <;> exact h
  | unlock pass lockedOK =>
    simp only [Ring.step, Ring.unlock]
    cases r.pass with
    | none => split_ifs <;> exact h
    | some right =>
      dsimp only
      split_ifs
      · exact h
      · exact holds_fill h
      · exact h
  | changePassphrase old pass nMeasured =>
    simp only [Ring.step, Ring.changePassphrase]
    cases r.pass with
    | none =>
      simp only [Ring.lock]
      split_ifs <;> exact h
    | some right =>
      dsimp only
      split_ifs
      · exact holds_fill h
      · exact h

theorem holds_run {ops : List WalletOp}
    (hid : ∀ op ∈ ops, ∀ key' ∈ op.keys, keyIdOf K (C.pubKeyOf key') = id → key' = key)
    (h : r.entries[id]? = some (C.pubKeyOf key, some key)) :
    (r.run K C expand ops).2.entries[id]? = some (C.pubKeyOf key, some key) := by
  induction ops generalizing r with
  | nil => exact h
  | cons op ops ih =>
    refine ih (fun o ho => hid o (List.mem_cons_of_mem _ ho)) ?_
    exact holds_step (hid op (List.mem_cons_self ..)) h

end Ring

/-- **No key is lost.**  A key that an unlocked wallet has given out once is given out again after
any operations whenever the wallet is not locked, unless another key with the same id has come. -/
theorem key_kept (hC : C.Lawful) {before after : List WalletOp} {results : List Bool}
    {w : CryptWallet} {id : UInt160} {key : CKey}
    (hbefore : CryptWallet.EachFits K C expand nDerivationMethodIndex before .new .new)
    (hrun : CryptWallet.run K C expand nDerivationMethodIndex before .new = some (results, w))
    (hlocked : w.isLocked = false) (hkey : w.getKey K C id = some key)
    (hafter : w.EachFits K C expand nDerivationMethodIndex after (Ring.new.run K C expand before).2)
    (hid : ∀ op ∈ after, ∀ key' ∈ op.keys, keyIdOf K (C.pubKeyOf key') = id → key' = key) :
    ∃ results' w', w.run K C expand nDerivationMethodIndex after = some (results', w') ∧
      w'.haveKey id = true ∧ (w'.isLocked = false → w'.getKey K C id = some key) := by
  obtain ⟨w₀, hrun₀, hshows, hr⟩ := Shows.run hC before Ring.keyed_new shows_new hbefore
  rw [hrun] at hrun₀
  obtain ⟨-, rfl⟩ := Prod.mk.inj (Option.some.inj hrun₀)
  have hopen := hlocked
  rw [hshows.isLocked] at hopen
  rw [hshows.getKey hC hr hopen, Option.bind_eq_some_iff] at hkey
  obtain ⟨⟨vchPubKey, _⟩, hentry, hsome⟩ := hkey
  obtain rfl := hsome
  obtain rfl := (hr id _ hentry).2 key rfl
  obtain ⟨w', hrun', hshows', hr'⟩ := hshows.run hC after hr hafter
  have hholds := @Ring.holds_run K C expand _ id key after hid hentry
  refine ⟨_, w', hrun', ?_, ?_⟩
  · rw [hshows'.haveKey, decide_eq_true_iff, ExtTreeMap.mem_iff_isSome_getElem?, hholds]
    rfl
  · intro hlocked'
    rw [hshows'.isLocked] at hlocked'
    rw [hshows'.getKey hC hr' hlocked', hholds]
    rfl

theorem ran_addKey : (CryptWallet.run (Crypto.sample []) .box sampleExpand 0
    [.addKey (boxKey 1)] .new).isSome = true := by decide +kernel

/-- The wallet of one key. -/
def sampleWallet : CryptWallet := (Option.get _ ran_addKey).2

theorem key_kept_sample : ∃ results' w', sampleWallet.run (Crypto.sample []) .box sampleExpand 0
    [.encryptWallet [9] (List.replicate 32 5) (List.replicate 8 6) 0 [boxKey 3],
      .unlock [9] false] = some (results', w') ∧
    w'.haveKey (keyIdOf (Crypto.sample []) (2 :: (boxKey 1).vch)) = true ∧
    (w'.isLocked = false → w'.getKey (Crypto.sample []) .box
      (keyIdOf (Crypto.sample []) (2 :: (boxKey 1).vch)) = some (boxKey 1)) :=
  key_kept lawful_box (by decide +kernel) (Option.some_get ran_addKey).symm (by decide +kernel)
    (by decide +kernel) (by decide +kernel) (by decide +kernel)

/-! ## 3. When the right passphrase is refused -/

/-- The first key has no secret where the ring does not open. -/
theorem Sealed.first_iff (hC : C.Lawful) (h : Sealed K C w r mk right nID master kiv) :
    r.opens = true ↔ ∀ entry, w.first = some entry → entry.2 ≠ [] := by
  rw [h.first, Ring.opens]
  cases hfirst : r.first with
  | none => simp
  | some entry =>
    obtain ⟨vchPubKey, key⟩ := entry
    cases key with
    | none => simp [sealEntry]
    | some key => simp [sealEntry, encrypt_ne_nil hC]

/-- A wallet with a passphrase is encrypted. -/
theorem Shows.sealed_of (h : Shows K C w r) (hpass : r.pass = some right) :
    ∃ mk right' nID master kiv, Sealed K C w r mk right' nID master kiv := by
  cases h with
  | plain h =>
    rw [h.pass] at hpass
    cases hpass
  | stuck h =>
    rw [h.pass] at hpass
    cases hpass
  | sealed mk right' nID master kiv h => exact ⟨mk, right', nID, master, kiv, h⟩

/-- **An unlock tries the first key only.**  In any run the right passphrase of a locked wallet is
accepted exactly if the first of the keys, by their ids, has a secret. -/
theorem unlock_iff (hC : C.Lawful) {ops : List WalletOp} {results : List Bool} {w : CryptWallet}
    (hfits : CryptWallet.EachFits K C expand nDerivationMethodIndex ops .new .new)
    (hrun : CryptWallet.run K C expand nDerivationMethodIndex ops .new = some (results, w))
    (hlocked : w.isLocked = true) (hpass : (Ring.new.run K C expand ops).2.pass = some right)
    (lockedOK : Bool) :
    (w.unlock K C expand right lockedOK).1 = true ↔
      ∀ entry, w.first = some entry → entry.2 ≠ [] := by
  obtain ⟨w₀, hrun₀, hshows, hr⟩ := Shows.run hC ops Ring.keyed_new shows_new hfits
  rw [hrun] at hrun₀
  obtain ⟨-, rfl⟩ := Prod.mk.inj (Option.some.inj hrun₀)
  obtain ⟨mk, right', nID, master, kiv, h⟩ := hshows.sealed_of hpass
  have hsame := h.pass
  rw [hpass] at hsame
  obtain rfl := Option.some.inj hsame
  rw [← h.first_iff hC, (h.unlock expand hC hr h.notGuessed lockedOK).1, Ring.unlock]
  rw [hshows.isLocked] at hlocked
  simp only [hlocked, hpass, Bool.not_true, Bool.and_false, Bool.false_eq_true, if_false, true_and]
  cases (Ring.new.run K C expand ops).2.opens <;> simp

/-- A payment to an id below all others, while the wallet is locked. -/
def shutOps : List WalletOp :=
  [.addKey (boxKey 1), .encryptWallet [9] (List.replicate 32 5) (List.replicate 8 6) 0 [],
    .receiveStealth (boxKey 0)]

theorem ran_shutOps : (CryptWallet.run (Crypto.sample []) .box sampleExpand 0 shutOps
    .new).isSome = true := by decide +kernel

def shutWallet : CryptWallet := (Option.get _ ran_shutOps).2

theorem unlock_iff_shut :
    (shutWallet.unlock (Crypto.sample []) .box sampleExpand [9] false).1 = true ↔
      ∀ entry, shutWallet.first = some entry → entry.2 ≠ [] :=
  unlock_iff lawful_box (by decide +kernel) (Option.some_get ran_shutOps).symm (by decide +kernel)
    (by decide +kernel) false

/-- The right passphrase is refused. -/
example : (shutWallet.unlock (Crypto.sample []) .box sampleExpand [9] false).1 = false := by
  decide +kernel

/-- A locked ring whose first entry has no key. -/
structure Ring.Shut (r : Ring) : Prop where
  locked : r.locked = true
  pass : r.pass.isSome = true
  opens : r.opens = false

namespace Ring.Shut

theorem first (h : r.Shut) : ∃ (id : UInt160) (vchPubKey : Valtype),
    r.entries.minKey? = some id ∧ r.entries[id]? = some (vchPubKey, none) := by
  have hopens := h.opens
  unfold Ring.opens at hopens
  cases hfirst : r.first with
  | none =>
    rw [hfirst] at hopens
    cases hopens
  | some entry =>
    obtain ⟨vchPubKey, key⟩ := entry
    obtain ⟨id, hmin, hentry⟩ := Ring.getElem?_first hfirst
    rw [hfirst] at hopens
    cases key with
    | none => exact ⟨id, vchPubKey, hmin, hentry⟩
    | some key => cases hopens

/-- A public key that comes in may be the first one, but it has no key either. -/
theorem receiveStealth (h : r.Shut) (ckey : CKey) : (r.receiveStealth K C ckey).Shut := by
  unfold Ring.receiveStealth
  split_ifs with hmem hlocked
  · exact h
  · refine ⟨h.locked, h.pass, ?_⟩
    obtain ⟨id, vchPubKey, hmin, hfirst⟩ := h.first
    have hne : keyIdOf K (C.pubKeyOf ckey) ≠ id := by
      intro heq
      rw [heq, ExtTreeMap.mem_iff_isSome_getElem?, hfirst] at hmem
      exact hmem rfl
    simp only [Ring.opens, Ring.first, first_eq, ExtTreeMap.minKey?_insert, hmin, Option.elim_some,
      Option.bind_some]
    by_cases hle : (compare (keyIdOf K (C.pubKeyOf ckey)) id).isLE = true
    · rw [if_pos hle, getElem?_insert_ite, if_pos rfl]
    · rw [if_neg hle, getElem?_insert_ite, if_neg hne, hfirst]
  · exact absurd h.locked hlocked

/-- Nothing is done with it, and nothing that needs the master key succeeds. -/
theorem step (h : r.Shut) (op : WalletOp) :
    (r.step K C expand op).2.Shut ∧ (op.needsKey = true → (r.step K C expand op).1 = false) := by
  obtain ⟨right, hright⟩ := Option.isSome_iff_exists.mp h.pass
  have hclosed : ∀ p : Prop, ¬ (p ∧ r.opens = true) := by
    rintro p ⟨-, hopens⟩
    rw [h.opens] at hopens
    cases hopens
  cases op with
  | addKey key =>
    simp only [Ring.step, Ring.addKey, h.locked, if_true]
    exact ⟨h, fun _ => trivial⟩
  | receiveStealth ckey => exact ⟨h.receiveStealth ckey, fun hneeds => by cases hneeds⟩
  | encryptWallet pass vMasterKey vchSalt nMeasured generated =>
    simp only [Ring.step, Ring.encryptWallet, h.pass, Bool.true_or, if_true]
    exact ⟨h, fun _ => trivial⟩
  | lock =>
    simp only [Ring.step, Ring.lock, h.locked, if_true]
    exact ⟨h, fun hneeds => by cases hneeds⟩
  | unlock pass lockedOK =>
    simp only [Ring.step, Ring.unlock, h.locked, hright, if_neg (hclosed _), Bool.not_true,
      Bool.and_false, Bool.false_eq_true, if_false]
    exact ⟨h, fun _ => trivial⟩
  | changePassphrase old pass nMeasured =>
    simp only [Ring.step, Ring.changePassphrase, hright, if_neg (hclosed _)]
    exact ⟨⟨rfl, by rw [← hright]; exact h.pass, h.opens⟩, fun _ => trivial⟩

theorem run (h : r.Shut) (ops : List WalletOp) :
    (r.run K C expand ops).2.Shut ∧
      ∀ p ∈ ops.zip (r.run K C expand ops).1, p.1.needsKey = true → p.2 = false := by
  induction ops generalizing r with
  | nil => exact ⟨h, by simp⟩
  | cons op ops ih =>
    obtain ⟨hstep, hresult⟩ := @step K C expand r h op
    obtain ⟨hrun, hresults⟩ := ih hstep
    refine ⟨hrun, ?_⟩
    intro p hp
    rcases List.mem_cons.mp hp with rfl | hp
    · exact hresult
    · exact hresults p hp

end Ring.Shut

/-- A locked wallet gives out no key. -/
theorem Sealed.getKey_locked (h : Sealed K C w r mk right nID master kiv)
    (hlocked : r.locked = true) (id : UInt160) : w.getKey K C id = none := by
  have hkey := h.vMasterKey
  rw [hlocked, if_pos rfl] at hkey
  simp only [CCryptoKeyStore.getKey, h.fUseCrypto, hkey]
  cases w.mapCryptedKeys[id]? with
  | none => rfl
  | some entry => simp [decryptKey, decryptSecret, walletCryptoKeySize]

/-- **A wallet can be locked for good.**  Once the first key of a locked wallet has no secret,
whatever is done: the wallet stays locked, every unlock and every change of the passphrase fails,
and no key is given out. -/
theorem locked_out (hC : C.Lawful) {ops more : List WalletOp} {results : List Bool}
    {w : CryptWallet} {entry : Valtype × Valtype}
    (hfits : CryptWallet.EachFits K C expand nDerivationMethodIndex ops .new .new)
    (hrun : CryptWallet.run K C expand nDerivationMethodIndex ops .new = some (results, w))
    (hlocked : w.isLocked = true) (hmaster : w.mapMasterKeys ≠ [])
    (hfirst : w.first = some entry) (hempty : entry.2 = [])
    (hmore : w.EachFits K C expand nDerivationMethodIndex more (Ring.new.run K C expand ops).2) :
    ∃ results' w', w.run K C expand nDerivationMethodIndex more = some (results', w') ∧
      w'.isLocked = true ∧ (∀ id : UInt160, w'.getKey K C id = none) ∧
      ∀ p ∈ more.zip results', p.1.needsKey = true → p.2 = false := by
  obtain ⟨w₀, hrun₀, hshows, hr⟩ := Shows.run hC ops Ring.keyed_new shows_new hfits
  rw [hrun] at hrun₀
  obtain ⟨-, rfl⟩ := Prod.mk.inj (Option.some.inj hrun₀)
  have hshut : (Ring.new.run K C expand ops).2.Shut := by
    rw [hshows.isLocked] at hlocked
    cases hshows with
    | plain h => exact absurd h.mapMasterKeys hmaster
    | stuck h => exact absurd h.mapMasterKeys hmaster
    | sealed mk right nID master kiv h =>
      refine ⟨hlocked, by rw [h.pass]; rfl, ?_⟩
      cases hopens : (Ring.new.run K C expand ops).2.opens with
      | false => rfl
      | true => exact absurd hempty ((h.first_iff hC).mp hopens entry hfirst)
  obtain ⟨w', hrun', hshows', -⟩ := hshows.run hC more hr hmore
  obtain ⟨hshut', hresults⟩ := @Ring.Shut.run K C expand _ hshut more
  refine ⟨_, w', hrun', by rw [hshows'.isLocked, hshut'.locked], ?_, hresults⟩
  obtain ⟨right, hright⟩ := Option.isSome_iff_exists.mp hshut'.pass
  obtain ⟨mk, right', nID, master, kiv, h⟩ := hshows'.sealed_of hright
  exact h.getKey_locked hshut'.locked

theorem locked_out_shut : ∃ results' w', shutWallet.run (Crypto.sample []) .box sampleExpand 0
    [.unlock [9] false, .changePassphrase [9] [7] 0, .addKey (boxKey 3)] = some (results', w') ∧
    w'.isLocked = true ∧ (∀ id : UInt160, w'.getKey (Crypto.sample []) .box id = none) ∧
    ∀ p ∈ [WalletOp.unlock [9] false, .changePassphrase [9] [7] 0,
        .addKey (boxKey 3)].zip results',
      p.1.needsKey = true → p.2 = false :=
  locked_out lawful_box (by decide +kernel) (Option.some_get ran_shutOps).symm (by decide +kernel)
    (by decide +kernel) (by decide +kernel : shutWallet.first =
      some (2 :: (boxKey 0).vch, [])) rfl (by decide +kernel)

end Breakout
