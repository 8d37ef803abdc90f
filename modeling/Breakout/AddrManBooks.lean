/-
# The books of the address manager

Two things are kept in every state.  The ids of `mapInfo` are those in `vRandom`, at the positions
that the entries have, and those that `mapAddr` finds by the addresses of the entries (`Roster`).
The buckets, the reference counts and the two counters agree (`Ledger`).

Moving an id in `vRandom` does not touch the second, and moving an entry between buckets does not
touch the first; only a new entry and one that is deleted touch both.
-/
import Breakout.Lib.Slots
import Breakout.AddrMan

namespace Breakout

open Lib

namespace CAddrMan

/-! ## 1. What is kept -/

/-- `mapInfo`, `mapAddr` and `vRandom` are inverse to each other, and no id is given twice. -/
structure Roster (m : CAddrMan) : Prop where
  slots : Slots m.vRandom fun n => (m.mapInfo n).nRandomPos
  mem : ∀ n, n ∈ m.vRandom ↔ n ∈ m.ids
  addr : ∀ a n, m.mapAddr a = some n ↔ n ∈ m.ids ∧ (m.mapInfo n).addr.key = a
  fresh : ∀ n ∈ m.ids, n < m.nIdCount

/-- The buckets and what is counted. -/
abbrev Ledger (pending : Option Int) (ids : Finset Int) (m : CAddrMan) : Prop :=
  Books 64 4 ids pending (fun n => (m.mapInfo n).fInTried) (fun n => (m.mapInfo n).nRefCount)
    m.vvTried m.vvNew m.nTried m.nNew

/-- The times of an entry are not negative, and a tried one was connected to. -/
def Timely (info : CAddrInfo) : Prop :=
  (info.fInTried = true → info.nLastSuccess ≠ 0) ∧ 0 ≤ info.nLastTry ∧ 0 ≤ info.nLastSuccess

/-- All that is kept; the times only where those given to the manager fit. -/
structure Sound (fits : Prop) (pending : Option Int) (m : CAddrMan) : Prop where
  roster : Roster m
  ledger : Ledger pending m.ids m
  timely : fits → ∀ n ∈ m.ids, Timely (m.mapInfo n)

/-- Entries changed places in `vRandom`. -/
structure Moved (m m' : CAddrMan) : Prop where
  entry : ∀ n, ∃ p, m'.mapInfo n = { m.mapInfo n with nRandomPos := p }
  rest : m' = { m with mapInfo := m'.mapInfo, vRandom := m'.vRandom }

variable {K : Crypto} {nKey : Valtype} {fits : Prop} {m m' m'' : CAddrMan} {pending : Option Int}
  {ids : Finset Int} {n : Int} {info : CAddrInfo} {b : Fin 256} {k : Fin 64} {i j : Nat} {rnd : Nat → Nat}

theorem info_of_mem (hn : n ∈ m.ids) : m.info n = .ok (m.mapInfo n) := if_pos hn

theorem setInfo_mapInfo (k : Int) :
    (m.setInfo n info).mapInfo k = if k = n then info else m.mapInfo k := Function.update_apply ..

/-- A field of the entry that stays as it was. -/
theorem setInfo_field {α : Type} (f : CAddrInfo → α) (h : f info = f (m.mapInfo n)) (k : Int) :
    f ((m.setInfo n info).mapInfo k) = f (m.mapInfo k) := by
  rw [setInfo_mapInfo]
  split_ifs with hk
  · rw [hk, h]
  · rfl

theorem setInfo_timely (h : fits → ∀ k ∈ m.ids, Timely (m.mapInfo k))
    (hinfo : fits → n ∈ m.ids → Timely info) :
    fits → ∀ k ∈ m.ids, Timely ((m.setInfo n info).mapInfo k) := by
  intro hfits k hk
  rw [setInfo_mapInfo]
  split_ifs with hkn
  · exact hinfo hfits (hkn ▸ hk)
  · exact h hfits k hk

theorem setInfo_fInTried : (fun k => ((m.setInfo n info).mapInfo k).fInTried) =
    Function.update (fun k => (m.mapInfo k).fInTried) n info.fInTried :=
  funext fun k => Function.apply_update (fun _ => CAddrInfo.fInTried) m.mapInfo n info k

theorem setInfo_nRefCount : (fun k => ((m.setInfo n info).mapInfo k).nRefCount) =
    Function.update (fun k => (m.mapInfo k).nRefCount) n info.nRefCount :=
  funext fun k => Function.apply_update (fun _ => CAddrInfo.nRefCount) m.mapInfo n info k

theorem slot_of_getElem? {v : List Int} (h : v[i]? = some n) : slot v i = .ok n := by
  unfold slot
  rw [if_pos (Int.natCast_nonneg i), Int.toNat_natCast, h]

theorem Moved.refl (m : CAddrMan) : Moved m m := ⟨fun n => ⟨(m.mapInfo n).nRandomPos, rfl⟩, rfl⟩

theorem Moved.fInTried (h : Moved m m') (n : Int) :
    (m'.mapInfo n).fInTried = (m.mapInfo n).fInTried := by
  obtain ⟨p, hp⟩ := h.entry n
  rw [hp]

theorem Moved.nRefCount (h : Moved m m') (n : Int) :
    (m'.mapInfo n).nRefCount = (m.mapInfo n).nRefCount := by
  obtain ⟨p, hp⟩ := h.entry n
  rw [hp]

theorem Moved.key (h : Moved m m') (n : Int) : (m'.mapInfo n).addr.key = (m.mapInfo n).addr.key := by
  obtain ⟨p, hp⟩ := h.entry n
  rw [hp]

theorem Moved.ledger (h : Moved m m') (hb : Ledger pending ids m) : Ledger pending ids m' := by
  have hrest := hb.congr (fun n _ => h.fInTried n) fun n _ => h.nRefCount n
  rw [h.rest]
  exact hrest

/-- An entry with the address and the position that it had. -/
theorem Roster.setInfo (h : Roster m) (haddr : info.addr = (m.mapInfo n).addr)
    (hpos : info.nRandomPos = (m.mapInfo n).nRandomPos) : Roster (m.setInfo n info) := by
  refine ⟨h.slots.congr fun k _ => setInfo_field CAddrInfo.nRandomPos hpos k, h.mem, fun a k => ?_,
    h.fresh⟩
  rw [setInfo_field (fun info => info.addr) haddr k]
  exact h.addr a k

/-- The buckets and the counters do not matter. -/
theorem Roster.buckets (h : Roster m) (nTried : Int) (vvTried : Fin 64 → List Int) (nNew : Int)
    (vvNew : Fin 256 → Finset Int) :
    Roster { m with nTried := nTried, vvTried := vvTried, nNew := nNew, vvNew := vvNew } :=
  ⟨h.slots, h.mem, h.addr, h.fresh⟩

/-- An entry with the counts that it had. -/
theorem ledger_setInfo (h : Ledger pending ids m) (htried : info.fInTried = (m.mapInfo n).fInTried)
    (hrefs : info.nRefCount = (m.mapInfo n).nRefCount) : Ledger pending ids (m.setInfo n info) :=
  h.congr (fun k _ => setInfo_field CAddrInfo.fInTried htried k)
    fun k _ => setInfo_field CAddrInfo.nRefCount hrefs k

variable {addr : CNetAddr} {l : List Int}

theorem find_eq_some (h : Roster m) (hfind : m.find addr = some n) :
    n ∈ m.ids ∧ (m.mapInfo n).addr.key = addr.key :=
  (h.addr addr.key n).mp (Option.filter_eq_some_iff.mp hfind).1

theorem find_eq_none (h : Roster m) (hfind : m.find addr = none) :
    m.mapAddr addr.key = none := by
  cases hid : m.mapAddr addr.key with
  | none => rfl
  | some n =>
    rw [find, hid, Option.filter_some_eq_none] at hfind
    exact absurd ((h.addr addr.key n).mp hid).1 (by simpa using hfind)

/-! ## 2. Places in `vRandom` -/

/-- **Two entries change places**, and no assertion fails. -/
theorem swapRandom_spec (h : Roster m) (hi : i < m.vRandom.length) (hj : j < m.vRandom.length) :
    ∃ m', m.swapRandom i j = .ok m' ∧ Roster m' ∧ Moved m m' ∧
      m'.vRandom.length = m.vRandom.length ∧ m'.vRandom[j]? = m.vRandom[i]? := by
  by_cases hij : i = j
  · subst hij
    exact ⟨m, if_pos rfl, h, .refl m, rfl, rfl⟩
  obtain ⟨a, ha⟩ : ∃ a, m.vRandom[i]? = some a := ⟨_, List.getElem?_eq_getElem hi⟩
  obtain ⟨b, hb⟩ : ∃ b, m.vRandom[j]? = some b := ⟨_, List.getElem?_eq_getElem hj⟩
  have hab : b ≠ a := fun heq => hij (h.slots.index_unique ha (heq ▸ hb))
  have haid : a ∈ m.ids := (h.mem a).mp (List.mem_of_getElem? ha)
  have hbid : b ∈ m.ids := (h.mem b).mp (List.mem_of_getElem? hb)
  have hperm := Slots.swap_perm ha hb
  set l := (m.vRandom.set i b).set j a with hl
  set f := Function.update (Function.update m.mapInfo a { m.mapInfo a with nRandomPos := j }) b
    { m.mapInfo b with nRandomPos := i } with hf
  have hentry : ∀ n, ∃ p, f n = { m.mapInfo n with nRandomPos := p } := by
    intro n
    rw [hf, Function.update_apply]
    split_ifs with hn
    · exact ⟨i, by rw [hn]⟩
    · rw [Function.update_apply]
      split_ifs with hn
      · exact ⟨j, by rw [hn]⟩
      · exact ⟨_, rfl⟩
  have hmoved : Moved m { m with mapInfo := f, vRandom := l } := ⟨hentry, rfl⟩
  refine ⟨{ m with mapInfo := f, vRandom := l }, ?_, ⟨?_, ?_, ?_, h.fresh⟩, hmoved, hperm.length_eq, ?_⟩
  · have hne : ¬ ((i : Int) = j) := by exact_mod_cast hij
    have hinfo : (m.setInfo a { m.mapInfo a with nRandomPos := j }).info b = .ok (m.mapInfo b) := by
      rw [info_of_mem (m := m.setInfo a _) hbid, setInfo_mapInfo, if_neg hab]
    unfold swapRandom
    rw [if_neg hne, slot_of_getElem? ha, slot_of_getElem? hb]
    dsimp only [bind, Except.bind]
    rw [info_of_mem haid]
    dsimp only
    rw [hinfo]
    rfl
  · refine (h.slots.swap ha hb).congr fun n _ => ?_
    dsimp only
    rw [hf]
    simp only [Function.update_apply]
    split_ifs <;> rfl
  · intro n
    rw [← h.mem n]
    exact hperm.mem_iff
  · intro a' n
    rw [h.addr a' n]
    exact and_congr_right fun _ => by rw [← hmoved.key n]
  · dsimp only
    rw [hl, List.getElem?_set, if_pos rfl, if_pos (by rwa [List.length_set]), ha]

theorem forget_spec (h : Roster m) (hn : n ∈ m.ids) :
    ∃ m', m.forget n = .ok m' ∧ Roster m' ∧
      (∀ k, ∃ p, m'.mapInfo k = { m.mapInfo k with nRandomPos := p }) ∧
      m' = { m with mapInfo := m'.mapInfo, vRandom := m'.vRandom, mapAddr := m'.mapAddr,
                    ids := m.ids.erase n, nNew := m.nNew - 1 } := by
  obtain ⟨i, hpos, hi⟩ := h.slots.getElem?_pos ((h.mem n).mpr hn)
  obtain ⟨hlt, -⟩ := List.getElem?_eq_some_iff.mp hi
  have hlast : m.vRandom.length - 1 < m.vRandom.length := by omega
  obtain ⟨m₁, hswap, h₁, hmoved, hlength, hmove⟩ := swapRandom_spec h hlt hlast
  have hend : m₁.vRandom[m₁.vRandom.length - 1]? = some n := by rw [hlength, hmove, hi]
  have hids : m₁.ids = m.ids := by rw [hmoved.rest]
  have hcast : (m.vRandom.length : Int) - 1 = (m.vRandom.length - 1 : Nat) := by omega
  refine ⟨{ m₁ with
    vRandom := m₁.vRandom.dropLast
    mapAddr := Function.update m₁.mapAddr (m.mapInfo n).addr.key none
    ids := m₁.ids.erase n
    nNew := m₁.nNew - 1 }, ?_, ⟨h₁.slots.dropLast, fun k => ?_, fun a k => ?_, fun k hk => ?_⟩,
    hmoved.entry, ?_⟩
  · unfold forget
    rw [info_of_mem hn]
    dsimp only [bind, Except.bind]
    rw [hpos, hcast, hswap]
    rfl
  · dsimp only
    rw [h₁.slots.mem_dropLast hend, h₁.mem, Finset.mem_erase, and_comm]
  · dsimp only
    rw [Function.update_apply, Finset.mem_erase]
    have hback := h₁.addr a k
    split_ifs with ha
    · refine ⟨fun hnone => absurd hnone (by simp), fun ⟨⟨hne, hk⟩, hkey⟩ => absurd ?_ hne⟩
      -- only one entry has the address
      have hself := (h₁.addr a n).mpr ⟨hids ▸ hn, by rw [hmoved.key n, ha]⟩
      rw [hback.mpr ⟨hk, hkey⟩] at hself
      exact Option.some.inj hself
    · rw [hback]
      refine ⟨fun ⟨hk, hkey⟩ => ⟨⟨fun heq => ha ?_, hk⟩, hkey⟩, fun ⟨⟨_, hk⟩, hkey⟩ => ⟨hk, hkey⟩⟩
      rw [← hkey, heq, hmoved.key n]
  · exact h₁.fresh k (Finset.mem_of_mem_erase hk)
  · rw [hmoved.rest]

/-! ## 3. New buckets -/

/-- **An entry leaves a bucket**, and is deleted when that was its last one. -/
theorem unreference_spec (h : Sound fits pending m) (hn : n ∈ m.vvNew b) (hpending : pending ≠ some n) :
    ∃ m', m.unreference b n = .ok m' ∧ Sound fits pending m' ∧
      m'.vvNew = Function.update m.vvNew b ((m.vvNew b).erase n) := by
  obtain ⟨hid, hdown⟩ := h.ledger.inLower b n hn
  set info : CAddrInfo := { m.mapInfo n with nRefCount := (m.mapInfo n).nRefCount - 1 } with hinfo
  have hroster : Roster (m.setInfo n info) := h.roster.setInfo rfl rfl
  have hother : ∀ {k}, k ≠ n → (m.setInfo n info).mapInfo k = m.mapInfo k := fun hk => by
    rw [setInfo_mapInfo, if_neg hk]
  by_cases hlast : (m.mapInfo n).nRefCount - 1 = 0
  · obtain ⟨m₁, hforget, hroster₁, hentry, hrest⟩ := forget_spec hroster hid
    have hids : m₁.ids = m.ids.erase n := by rw [hrest]; rfl
    have hnew : m₁.vvNew = m.vvNew := by rw [hrest]; rfl
    have hkept : ∀ k ∈ m.ids.erase n, ∃ p, m₁.mapInfo k = { m.mapInfo k with nRandomPos := p } := by
      intro k hk
      rw [← hother (Finset.mem_erase.mp hk).1]
      exact hentry k
    have hdrop : Ledger pending (m.ids.erase n) { m with
        mapInfo := m₁.mapInfo
        vvNew := Function.update m.vvNew b ((m.vvNew b).erase n)
        nNew := m.nNew - 1 } := by
      refine (h.ledger.drop hn hpending (by omega)).congr (fun k hk => ?_) fun k hk => ?_ <;>
      · obtain ⟨p, hp⟩ := hkept k hk
        dsimp only
        rw [hp]
    refine ⟨{ m₁ with vvNew := Function.update m₁.vvNew b ((m₁.vvNew b).erase n) }, ?_,
      ⟨hroster₁.buckets .., ?_, fun hfits k hk => ?_⟩, ?_⟩
    · unfold unreference
      rw [info_of_mem hid]
      dsimp only [bind, Except.bind]
      rw [if_pos hlast, hforget]
      rfl
    · dsimp only
      rw [hnew, hids]
      rw [hrest]
      rw [hrest] at hdrop
      exact hdrop
    · obtain ⟨p, hp⟩ := hkept k (hids ▸ hk)
      dsimp only
      rw [hp]
      exact h.timely hfits k (Finset.mem_of_mem_erase (hids ▸ hk))
    · dsimp only
      rw [hnew]
  · refine ⟨{ m.setInfo n info with vvNew := Function.update m.vvNew b ((m.vvNew b).erase n) }, ?_,
      ⟨hroster.buckets .., ?_, setInfo_timely h.timely fun hfits hn => h.timely hfits n hn⟩, rfl⟩
    · unfold unreference
      rw [info_of_mem hid]
      dsimp only [bind, Except.bind]
      rw [if_neg hlast]
      rfl
    · refine (h.ledger.leave hn hpending (by omega)).congr (fun k _ => ?_) fun k _ => ?_
      · exact setInfo_field CAddrInfo.fInTried (by rfl) k
      · exact congrFun setInfo_nRefCount k

theorem findTerrible_spec (nNow : Int64) (hl : ∀ k ∈ l, k ∈ m.ids) :
    ∃ o, m.findTerrible nNow l = .ok o ∧ ∀ k, o = some k → k ∈ l := by
  induction l with
  | nil => exact ⟨none, rfl, fun k hk => absurd hk (by simp)⟩
  | cons a rest ih =>
    obtain ⟨o, ho, hmem⟩ := ih fun k hk => hl k (List.mem_cons_of_mem a hk)
    unfold findTerrible
    rw [info_of_mem (hl a List.mem_cons_self)]
    dsimp only [bind, Except.bind]
    split_ifs
    · exact ⟨some a, rfl, fun k hk => Option.some.inj hk ▸ List.mem_cons_self⟩
    · exact ⟨o, ho, fun k hk => List.mem_cons_of_mem a (hmem k hk)⟩

/-- One is found when one of the numbers is a place in the list. -/
theorem findOldest_spec (picks : List Nat) {o : Option Int} (hl : ∀ k ∈ l, k ∈ m.ids)
    (hold : ∀ k, o = some k → k ∈ m.ids)
    (hpick : o ≠ none ∨ ∃ j ∈ picks, i ≤ j ∧ j < i + l.length) :
    ∃ k, m.findOldest picks i l o = .ok (some k) ∧ (k ∈ l ∨ o = some k) := by
  induction l generalizing i o with
  | nil =>
    rcases hpick with hsome | ⟨j, -, hlo, hhi⟩
    · obtain ⟨k, rfl⟩ := Option.ne_none_iff_exists'.mp hsome
      exact ⟨k, rfl, Or.inr rfl⟩
    · rw [List.length_nil] at hhi
      omega
  | cons a rest ih =>
    have ha : a ∈ m.ids := hl a List.mem_cons_self
    have hrest : ∀ k ∈ rest, k ∈ m.ids := fun k hk => hl k (List.mem_cons_of_mem a hk)
    unfold findOldest
    by_cases hi : i ∈ picks
    · rw [if_neg (not_not.mpr hi)]
      -- from here on there is one
      have hgo : ∀ k, k = a ∨ o = some k → ∃ k',
          m.findOldest picks (i + 1) rest (some k) = .ok (some k') ∧
            (k' ∈ a :: rest ∨ o = some k') := by
        intro k hk
        obtain ⟨k', hfind, hmem⟩ := ih (i := i + 1) (o := some k) hrest
          (fun k' hk' => by
            obtain rfl := Option.some.inj hk'
            rcases hk with rfl | hk
            · exact ha
            · exact hold k hk) (Or.inl (by simp))
        refine ⟨k', hfind, ?_⟩
        rcases hmem with hmem | hmem
        · exact Or.inl (List.mem_cons_of_mem a hmem)
        · obtain rfl := Option.some.inj hmem
          rcases hk with rfl | hk
          · exact Or.inl List.mem_cons_self
          · exact Or.inr hk
      cases o with
      | none => exact hgo a (Or.inl rfl)
      | some old =>
        dsimp only
        rw [info_of_mem ha, info_of_mem (hold old rfl)]
        dsimp only [bind, Except.bind]
        split_ifs
        · exact hgo a (Or.inl rfl)
        · exact hgo old (Or.inr rfl)
    · rw [if_pos hi]
      obtain ⟨k, hfind, hmem⟩ := ih (i := i + 1) hrest hold (by
        rcases hpick with hsome | ⟨j, hj, hlo, hhi⟩
        · exact Or.inl hsome
        · have hne : j ≠ i := fun heq => hi (heq ▸ hj)
          rw [List.length_cons] at hhi
          exact Or.inr ⟨j, hj, by omega, by omega⟩)
      exact ⟨k, hfind, hmem.imp (List.mem_cons_of_mem a) id⟩

theorem getRandInt_lt {r nMax : Nat} (h : 0 < nMax) : getRandInt r nMax < nMax := by
  unfold getRandInt
  rw [if_neg (by omega)]
  exact Nat.mod_lt r h

/-- **A bucket that is full** loses one entry. -/
theorem shrinkNew_spec (nNow : Int64) (rnd : Nat → Nat) (h : Sound fits pending m)
    (hb : 0 < (m.vvNew b).card) (hpending : ∀ k ∈ m.vvNew b, pending ≠ some k) :
    ∃ r m' k, m.shrinkNew b nNow rnd = .ok (r, m') ∧ Sound fits pending m' ∧ k ∈ m.vvNew b ∧
      m'.vvNew = Function.update m.vvNew b ((m.vvNew b).erase k) := by
  have hmem : ∀ {k}, k ∈ (m.vvNew b).sort ↔ k ∈ m.vvNew b := Finset.mem_sort ..
  have hids : ∀ k ∈ (m.vvNew b).sort, k ∈ m.ids := fun k hk => (h.ledger.inLower b k (hmem.mp hk)).1
  obtain ⟨o, hterrible, ho⟩ := findTerrible_spec nNow hids
  unfold shrinkNew
  dsimp only
  rw [hterrible]
  dsimp only [bind, Except.bind]
  cases o with
  | some k =>
    have hk := hmem.mp (ho k rfl)
    obtain ⟨m', hm', hsound, hnew⟩ := unreference_spec h hk (hpending k hk)
    exact ⟨0, m', k, by dsimp only; rw [hm']; rfl, hsound, hk, hnew⟩
  | none =>
    set picks := (List.range 4).map fun i => getRandInt (rnd i) (m.vvNew b).sort.length
    have hpick : ∃ j ∈ picks, 0 ≤ j ∧ j < 0 + (m.vvNew b).sort.length := by
      refine ⟨_, List.mem_map.mpr ⟨0, by simp, rfl⟩, Nat.zero_le _, ?_⟩
      rw [Nat.zero_add]
      exact getRandInt_lt (by rwa [Finset.length_sort])
    obtain ⟨k, hfind, hk⟩ := findOldest_spec picks (o := none) hids (fun k hk => absurd hk (by simp))
      (Or.inr hpick)
    have hk := hmem.mp (hk.resolve_right (by simp))
    obtain ⟨m', hm', hsound, hnew⟩ := unreference_spec h hk (hpending k hk)
    dsimp only
    rw [hfind]
    exact ⟨1, m', k, by dsimp only; rw [hm']; rfl, hsound, hk, hnew⟩

variable (K nKey) in
/-- **An entry that has counted a bucket** is put in it. -/
theorem putNew_spec (source : CNetAddr) (nNow : Int64) (rnd : Nat → Nat)
    (h : Sound fits (some n)
      (m.setInfo n { m.mapInfo n with nRefCount := (m.mapInfo n).nRefCount + 1 }))
    (hout : n ∉ m.vvNew ((m.mapInfo n).getNewBucket K nKey source)) :
    ∃ m', m.putNew K nKey n source nNow rnd = .ok m' ∧ Sound fits none m' := by
  set m₁ := m.setInfo n { m.mapInfo n with nRefCount := (m.mapInfo n).nRefCount + 1 } with hm₁
  set b := (m.mapInfo n).getNewBucket K nKey source with hb
  have hid : n ∈ m.ids := (h.ledger.isPending n rfl).1
  have hout₁ : n ∉ m₁.vvNew b := hout
  have hsettle : ∀ {m₂ : CAddrMan}, Sound fits (some n) m₂ → n ∉ m₂.vvNew b → (m₂.vvNew b).card < 64 →
      Sound fits none { m₂ with vvNew := Function.update m₂.vvNew b (insert n (m₂.vvNew b)) } :=
    fun h₂ hout₂ hroom => ⟨h₂.roster.buckets ..,
      h₂.ledger.settle hout₂ hroom, h₂.timely⟩
  unfold putNew
  rw [info_of_mem hid]
  dsimp only [bind, Except.bind]
  rw [← hb, if_neg hout, ← hm₁]
  by_cases hfull : (m₁.vvNew b).card = 64
  · obtain ⟨r, m₂, k, hshrink, h₂, hk, hnew⟩ := shrinkNew_spec nNow rnd h (b := b) (by omega)
      fun k hk heq => hout₁ (Option.some.inj heq ▸ hk)
    rw [if_pos hfull, hshrink]
    refine ⟨_, rfl, hsettle h₂ ?_ ?_⟩
    · rw [hnew, Function.update_self]
      exact fun hn => hout₁ (Finset.mem_of_mem_erase hn)
    · rw [hnew, Function.update_self, Finset.card_erase_of_mem hk]
      omega
  · rw [if_neg hfull]
    exact ⟨_, rfl, hsettle h hout₁ (lt_of_le_of_ne (h.ledger.lowerCap b) hfull)⟩

/-! ## 4. `Add_` -/

/-- An entry with the address, the position and the counts that it had. -/
theorem Sound.setInfo (h : Sound fits pending m) (haddr : info.addr = (m.mapInfo n).addr)
    (hpos : info.nRandomPos = (m.mapInfo n).nRandomPos)
    (htried : info.fInTried = (m.mapInfo n).fInTried)
    (hrefs : info.nRefCount = (m.mapInfo n).nRefCount)
    (htimely : fits → n ∈ m.ids → Timely info) : Sound fits pending (m.setInfo n info) :=
  ⟨h.roster.setInfo haddr hpos, ledger_setInfo h.ledger htried hrefs, setInfo_timely h.timely htimely⟩

/-- **An entry counts one bucket more.** -/
theorem Sound.count (h : Sound fits none m) (hn : n ∈ m.ids) (hdown : (m.mapInfo n).fInTried = false)
    (hmost : (m.mapInfo n).nRefCount ≠ 4) :
    Sound fits (some n) (m.setInfo n { m.mapInfo n with nRefCount := (m.mapInfo n).nRefCount + 1 }) := by
  refine ⟨h.roster.setInfo rfl rfl, ?_, setInfo_timely h.timely fun hfits hn => h.timely hfits n hn⟩
  refine (h.ledger.count hn hdown hmost).congr (fun k _ => ?_) fun k _ => ?_
  · exact setInfo_field CAddrInfo.fInTried (by rfl) k
  · exact congrFun setInfo_nRefCount k

variable {addr : CAddress} {source : CNetAddr}

theorem create_roster (h : Roster m) (hnone : m.mapAddr addr.addr.key = none) :
    Roster (m.create addr source).2 := by
  have hfresh : m.nIdCount ∉ m.ids := fun hid => lt_irrefl _ (h.fresh _ hid)
  have hother : ∀ {k}, k ∈ m.ids → k ≠ m.nIdCount := fun hk heq => hfresh (heq ▸ hk)
  unfold create
  refine ⟨?_, fun k => ?_, fun a k => ?_, fun k hk => ?_⟩
  · refine (h.slots.push fun hmem => hfresh ((h.mem _).mp hmem)).congr fun k _ => ?_
    dsimp only
    rw [Function.update_apply, Function.update_apply]
    split_ifs <;> rfl
  · dsimp only
    rw [List.mem_append, List.mem_singleton, Finset.mem_insert, h.mem k, or_comm]
  · dsimp only
    rw [Function.update_apply, Finset.mem_insert]
    split_ifs with ha
    · rw [Option.some.injEq]
      refine ⟨fun heq => ⟨Or.inl heq.symm, by rw [← heq, Function.update_self, ha]; rfl⟩,
        fun ⟨hk, hkey⟩ => ?_⟩
      rcases hk with hk | hk
      · exact hk.symm
      · -- no entry has the address
        rw [Function.update_of_ne (hother hk)] at hkey
        rw [← ha, (h.addr a k).mpr ⟨hk, hkey⟩] at hnone
        cases hnone
    · rw [h.addr a k]
      refine ⟨fun ⟨hk, hkey⟩ => ⟨Or.inr hk, by rwa [Function.update_of_ne (hother hk)]⟩,
        fun ⟨hk, hkey⟩ => ?_⟩
      rcases hk with hk | hk
      · rw [hk, Function.update_self] at hkey
        exact absurd hkey.symm ha
      · rw [Function.update_of_ne (hother hk)] at hkey
        exact ⟨hk, hkey⟩
  · dsimp only
    rcases Finset.mem_insert.mp hk with hk | hk
    · rw [hk]
      omega
    · have := h.fresh k hk
      omega

/-- **A new entry** counts its first bucket. -/
theorem Sound.enter {info : CAddrInfo} (h : Sound fits none m)
    (hnone : m.mapAddr addr.addr.key = none) (haddr : info.addr = addr.addr)
    (hpos : info.nRandomPos = m.vRandom.length) (htried : info.fInTried = false)
    (hrefs : info.nRefCount = 1) (htimely : Timely info) :
    Sound fits (some m.nIdCount)
      ({ (m.create addr source).2 with nNew := m.nNew + 1 }.setInfo m.nIdCount info) := by
  have hfresh : m.nIdCount ∉ m.ids := fun hid => lt_irrefl _ (h.roster.fresh _ hid)
  have hroster : Roster (m.create addr source).2 := create_roster h.roster hnone
  have hself : (m.create addr source).2.mapInfo m.nIdCount =
      { CAddrInfo.new addr source with nRandomPos := m.vRandom.length } := Function.update_self ..
  have hother : ∀ {k}, k ≠ m.nIdCount → (m.create addr source).2.mapInfo k = m.mapInfo k := fun hk =>
    Function.update_of_ne hk ..
  refine ⟨?_, ?_, fun hfits k hk => ?_⟩
  · refine Roster.setInfo (m := { (m.create addr source).2 with nNew := m.nNew + 1 })
      (hroster.buckets ..) ?_ ?_
    · rw [haddr, hself]
      rfl
    · rw [hpos, hself]
  · refine (h.ledger.enter hfresh (by norm_num)).congr (fun k _ => ?_) fun k _ => ?_ <;>
    · rw [setInfo_mapInfo, Function.update_apply]
      split_ifs with hk
      · assumption
      · rw [hother hk]
  · rw [setInfo_mapInfo]
    split_ifs with hkn
    · exact htimely
    · rw [hother hkn]
      exact h.timely hfits k ((Finset.mem_insert.mp hk).resolve_left hkn)

theorem refreshed_frame (info : CAddrInfo) (addr : CAddress) (nTimePenalty nNow : Int64) :
    ∃ nTime nServices, refreshed info addr nTimePenalty nNow =
      { info with nTime := nTime, nServices := nServices } := ⟨_, _, rfl⟩

variable (K nKey) in
theorem add_spec (h : Sound fits none m) (addr : CAddress) (source : CNetAddr)
    (nTimePenalty nNow : Int64) (rnd : Nat → Nat) :
    ∃ r m', m.add K nKey addr source nTimePenalty nNow rnd = .ok (r, m') ∧ Sound fits none m' := by
  unfold add
  split_ifs with hroutable
  · exact ⟨false, m, rfl, h⟩
  cases hfind : m.find addr.addr with
  | some n =>
    obtain ⟨hn, -⟩ := find_eq_some h.roster hfind
    obtain ⟨nTime, nServices, hinfo⟩ := refreshed_frame (m.mapInfo n) addr nTimePenalty nNow
    dsimp only
    rw [hinfo]
    set info : CAddrInfo := { m.mapInfo n with nTime := nTime, nServices := nServices }
    have h₁ : Sound fits none (m.setInfo n info) :=
      h.setInfo rfl rfl rfl rfl fun hfits hn => h.timely hfits n hn
    have hself : (m.setInfo n info).mapInfo n = info := Function.update_self ..
    split_ifs with hnews htried hmost hchance
    · exact ⟨false, _, rfl, h₁⟩
    · exact ⟨false, _, rfl, h₁⟩
    · exact ⟨false, _, rfl, h₁⟩
    · exact ⟨false, _, rfl, h₁⟩
    · by_cases hin : n ∈ (m.setInfo n info).vvNew (info.getNewBucket K nKey source)
      · refine ⟨false, m.setInfo n info, ?_, h₁⟩
        unfold putNew
        rw [info_of_mem (m := m.setInfo n info) hn, hself]
        dsimp only [bind, Except.bind]
        rw [if_pos hin]
        rfl
      · have hcount := h₁.count hn (by rw [hself]; simpa using htried) (by rw [hself]; exact hmost)
        obtain ⟨m', hput, h'⟩ := putNew_spec K nKey source nNow (fun i => rnd (i + 1)) hcount
          (by rw [hself]; exact hin)
        rw [hput]
        exact ⟨false, m', rfl, h'⟩
  | none =>
    have hnone := find_eq_none h.roster hfind
    dsimp only
    set n := m.nIdCount with hn
    set pinfo := (m.create addr source).2.mapInfo n with hpinfo
    have hself : pinfo = { CAddrInfo.new addr source with nRandomPos := m.vRandom.length } :=
      Function.update_self ..
    set info : CAddrInfo := { pinfo with nTime := penalized pinfo.toCAddress nTimePenalty }
    set m₁ : CAddrMan := { (m.create addr source).2 with nNew := m.nNew + 1 }
    have hinfo : (m₁.setInfo n info).mapInfo n = info := Function.update_self ..
    have htwice : (m₁.setInfo n info).setInfo n { info with nRefCount := info.nRefCount + 1 } =
        m₁.setInfo n { info with nRefCount := info.nRefCount + 1 } := by
      simp only [CAddrMan.setInfo, Function.update_idem]
    have henter : Sound fits (some n) ((m₁.setInfo n info).setInfo n
        { (m₁.setInfo n info).mapInfo n with
          nRefCount := ((m₁.setInfo n info).mapInfo n).nRefCount + 1 }) := by
      rw [hinfo, htwice]
      have hfields : info.addr = addr.addr ∧ info.nRandomPos = m.vRandom.length ∧
          info.fInTried = false ∧ info.nRefCount = 0 ∧ info.nLastTry = 0 ∧ info.nLastSuccess = 0 := by
        dsimp only [info]
        rw [hself]
        exact ⟨rfl, rfl, rfl, rfl, rfl, rfl⟩
      obtain ⟨haddr, hpos, htried, hrefs, htry, hsuccess⟩ := hfields
      refine h.enter hnone haddr hpos htried (by dsimp only; rw [hrefs]; rfl) ⟨fun ht => ?_, ?_, ?_⟩
      · rw [htried] at ht
        cases ht
      · dsimp only
        rw [htry]
        exact Int64.le_refl 0
      · dsimp only
        rw [hsuccess]
        exact Int64.le_refl 0
    obtain ⟨m', hput, h'⟩ := putNew_spec K nKey source nNow (fun i => rnd (i + 1)) henter fun hin => by
      have hid := (h.ledger.inLower _ n hin).1
      exact lt_irrefl _ (h.roster.fresh n hid)
    refine ⟨true, m', ?_, h'⟩
    change (putNew K nKey (m₁.setInfo n info) n source nNow fun i => rnd (i + 1)) >>=
      (fun m => .ok (true, m)) = .ok (true, m')
    rw [hput]
    rfl

/-! ## 5. Tried buckets -/

/-- What the rounds of `SelectTried` have: the same bucket in some order, and from the first round
on a place in it. -/
def Scanned (vTried : List Int) (rounds : Nat) : List Int × Option Int × Int → Prop
  | (l, nOldest, nOldestPos) => l.Perm vTried ∧ (∀ old, nOldest = some old → old ∈ vTried) ∧
    (nOldest = none → rounds = 0) ∧ (nOldest ≠ none → ∃ p : Nat, nOldestPos = p ∧ p < vTried.length)

theorem selectRound_spec {vTried : List Int} (hids : ∀ n ∈ vTried, n ∈ m.ids) (hi : i < vTried.length)
    (st : List Int × Option Int × Int) (h : Scanned vTried i st) :
    ∃ st', m.selectRound rnd st i = .ok st' ∧ Scanned vTried (i + 1) st' := by
  obtain ⟨l, nOldest, nOldestPos⟩ := st
  obtain ⟨hperm, hold, hnone, hpos⟩ := h
  rw [← hperm.length_eq] at hi
  set nPos := getRandInt (rnd i) (l.length - i) + i with hnPos
  have hlt : nPos < l.length := by
    have hpick : getRandInt (rnd i) (l.length - i) < l.length - i := getRandInt_lt (by omega)
    omega
  have htemp : l[nPos]? = some l[nPos] := List.getElem?_eq_getElem hlt
  have hfirst : l[i]? = some l[i] := List.getElem?_eq_getElem hi
  have hperm' : ((l.set nPos l[i]).set i l[nPos]).Perm vTried :=
    (Slots.swap_perm htemp hfirst).trans hperm
  have hmem : l[nPos] ∈ vTried := hperm.mem_iff.mp (List.getElem_mem hlt)
  have hplace : ∃ p : Nat, (nPos : Int) = p ∧ p < vTried.length := ⟨nPos, rfl, hperm.length_eq ▸ hlt⟩
  have hscanned : Scanned vTried (i + 1) ((l.set nPos l[i]).set i l[nPos], some l[nPos], nPos) :=
    ⟨hperm', fun old heq => Option.some.inj heq ▸ hmem, fun h => absurd h (by simp), fun _ => hplace⟩
  unfold selectRound
  dsimp only
  rw [← hnPos, slot_of_getElem? htemp, slot_of_getElem? hfirst]
  cases nOldest with
  | none => exact ⟨_, rfl, hscanned⟩
  | some old =>
    dsimp only [bind, Except.bind]
    rw [info_of_mem (hids _ hmem), info_of_mem (hids old (hold old rfl))]
    dsimp only
    split_ifs
    · exact ⟨_, rfl, hscanned⟩
    · exact ⟨_, rfl, hperm', hold, fun h => absurd h (by simp), fun _ => hpos (by simp)⟩

/-- **A place in the bucket**, whose order may change. -/
theorem selectTried_spec (rnd : Nat → Nat) (hids : ∀ n ∈ m.vvTried k, n ∈ m.ids)
    (hfull : 0 < (m.vvTried k).length) :
    ∃ (p : Nat) (l : List Int), m.selectTried k rnd =
        .ok (p, { m with vvTried := Function.update m.vvTried k l }) ∧
      l.Perm (m.vvTried k) ∧ p < l.length := by
  obtain ⟨⟨l, nOldest, nOldestPos⟩, hrounds, hperm, -, hnone, hpos⟩ :=
    foldlM_range_ok (f := m.selectRound rnd) (P := Scanned (m.vvTried k)) (min 4 (m.vvTried k).length)
      (fun i hi st hst => selectRound_spec hids (by omega) st hst) (a := (m.vvTried k, none, -1))
      ⟨.refl _, fun old h => absurd h (by simp), fun _ => rfl, fun h => absurd rfl h⟩
  obtain ⟨p, rfl, hlt⟩ := hpos fun h => by
    have := hnone h
    omega
  refine ⟨p, l, ?_, hperm, hperm.length_eq ▸ hlt⟩
  unfold selectTried
  dsimp only
  rw [hrounds]
  rfl

variable (K nKey) in
/-- The new bucket that an evicted entry goes back to. -/
def backBucket (m : CAddrMan) (nOrigin : Fin 256) (old : Int) : Fin 256 :=
  if (m.vvNew ((m.mapInfo old).getNewBucket K nKey (m.mapInfo old).source)).card < 64 then
    (m.mapInfo old).getNewBucket K nKey (m.mapInfo old).source
  else nOrigin

variable (K nKey) in
/-- What `MakeTried` does with the entry that was selected. -/
theorem replaceTried_eq {nOrigin : Fin 256} {p : Nat} {l : List Int} {old : Int}
    (hselect : m.selectTried k rnd = .ok (p, { m with vvTried := Function.update m.vvTried k l }))
    (hat : l[p]? = some old) (hold : old ∈ m.ids) (hne : n ≠ old) :
    m.replaceTried K nKey n k nOrigin rnd =
      .ok { (m.setInfo old { m.mapInfo old with fInTried := false, nRefCount := 1 }).setInfo n
          { m.mapInfo n with fInTried := true } with
        vvTried := Function.update (Function.update m.vvTried k l) k (l.set p n)
        vvNew := Function.update m.vvNew (backBucket K nKey m nOrigin old)
          (insert old (m.vvNew (backBucket K nKey m nOrigin old)))
        nNew := m.nNew + 1 } := by
  set m₀ : CAddrMan := { m with vvTried := Function.update m.vvTried k l } with hm₀
  set infoOld : CAddrInfo := { m.mapInfo old with fInTried := false, nRefCount := 1 } with hinfoOld
  have hl : m₀.vvTried k = l := Function.update_self ..
  have hl' : ∀ info, (m₀.setInfo old info).vvTried k = l := fun _ => hl
  have hslot : slot (m₀.vvTried k) p = .ok old := slot_of_getElem? (hl.symm ▸ hat)
  have hinfo : m₀.info old = .ok (m.mapInfo old) := info_of_mem (m := m₀) hold
  have hself : (m₀.setInfo old infoOld).mapInfo n = m.mapInfo n := by
    rw [setInfo_mapInfo, if_neg hne]
  unfold replaceTried
  rw [hselect]
  dsimp only [bind, Except.bind]
  rw [hslot]
  dsimp only
  rw [hinfo]
  dsimp only
  rw [hself, hl']
  rfl

variable (K nKey) in
/-- **A full tried bucket**: the entry takes the place of another, which goes back to a new bucket.
-/
theorem replaceTried_spec {nOrigin : Fin 256} (rnd : Nat → Nat) (hroster : Roster m)
    (hledger : Ledger none (m.ids.erase n) m) (hn : n ∈ m.ids) (hrefs : (m.mapInfo n).nRefCount = 0)
    (hfull : 0 < (m.vvTried k).length) (hroom : (m.vvNew nOrigin).card < 64)
    (htimely : fits → ∀ j ∈ m.ids, Timely (m.mapInfo j))
    (hsuccess : fits → (m.mapInfo n).nLastSuccess ≠ 0) :
    ∃ m', m.replaceTried K nKey n k nOrigin rnd = .ok m' ∧ Sound fits none m' := by
  have hids : ∀ j ∈ m.vvTried k, j ∈ m.ids := fun j hj =>
    Finset.mem_of_mem_erase (hledger.inUpper k j hj).1
  obtain ⟨p, l, hselect, hperm, hp⟩ := selectTried_spec rnd hids hfull
  set old := l[p] with hold
  have hat : l[p]? = some old := List.getElem?_eq_getElem hp
  have holdMem : old ∈ m.vvTried k := hperm.mem_iff.mp (List.getElem_mem hp)
  have hne : n ≠ old := fun heq => (Finset.mem_erase.mp (hledger.inUpper k old holdMem).1).1 heq.symm
  have holdId : old ∈ m.ids := hids old holdMem
  set infoOld : CAddrInfo := { m.mapInfo old with fInTried := false, nRefCount := 1 } with hinfoOld
  have hbroom : (m.vvNew (backBucket K nKey m nOrigin old)).card < 64 := by
    unfold backBucket
    split_ifs with hplace
    · exact hplace
    · exact hroom
  set info : CAddrInfo := { m.mapInfo n with fInTried := true } with hinfo
  set m₁ := (m.setInfo old infoOld).setInfo n info with hm₁
  have hentry : ∀ j, m₁.mapInfo j =
      if j = n then info else if j = old then infoOld else m.mapInfo j := by
    intro j
    rw [hm₁, setInfo_mapInfo, setInfo_mapInfo]
  have hroster₁ : Roster m₁ := by
    have hsunk : Roster (m.setInfo old infoOld) := hroster.setInfo rfl rfl
    refine hsunk.setInfo ?_ ?_ <;> rw [setInfo_mapInfo, if_neg hne]
  have hl : Function.update m.vvTried k l k = l := Function.update_self ..
  have hevict := (hledger.permute hperm).evict (Finset.notMem_erase n _) (hl.symm ▸ hat) hbroom
    (by norm_num) hrefs
  rw [Finset.insert_erase hn, hl] at hevict
  refine ⟨_, replaceTried_eq K nKey hselect hat holdId hne, hroster₁.buckets ..,
    hevict.congr (fun j _ => ?_) fun j _ => ?_, fun hfits j hj => ?_⟩
  · dsimp only
    rw [hentry, Function.update_apply, Function.update_apply]
    split_ifs <;> rfl
  · dsimp only
    rw [hentry, Function.update_apply]
    split_ifs with hjn hjo hjo
    · exact absurd (hjn.symm.trans hjo) hne
    · rw [hjn]
    · rfl
    · rfl
  · dsimp only
    rw [hentry]
    split_ifs with hjn hjo
    · exact ⟨fun _ => hsuccess hfits, (htimely hfits n hn).2⟩
    · exact ⟨fun h => absurd h (by simp [hinfoOld]), (htimely hfits old holdId).2⟩
    · exact htimely hfits j hj

theorem assertThat_ok {c : Prop} [Decidable c] (h : c) : assertThat c = .ok () := if_pos h

/-- The entry is taken out of all new buckets. -/
def lifted (m : CAddrMan) (n : Int) : CAddrMan :=
  { m.setInfo n { m.mapInfo n with nRefCount := (m.mapInfo n).nRefCount - holders m.vvNew n } with
    vvNew := fun b => (m.vvNew b).erase n
    nNew := m.nNew - 1 }

variable (K nKey) in
/-- The two ways of `MakeTried`. -/
theorem makeTried_eq {nOrigin : Fin 256} (hin : n ∈ m.vvNew nOrigin) (hn : n ∈ m.ids)
    (hcount : (m.mapInfo n).nRefCount = holders m.vvNew n) :
    m.makeTried K nKey n nOrigin rnd =
      if (m.vvTried ((m.mapInfo n).getTriedBucket K nKey)).length < 64 then
        .ok { (m.lifted n).setInfo n { (m.lifted n).mapInfo n with fInTried := true } with
          vvTried := Function.update m.vvTried ((m.mapInfo n).getTriedBucket K nKey)
            (m.vvTried ((m.mapInfo n).getTriedBucket K nKey) ++ [n])
          nTried := m.nTried + 1 }
      else (m.lifted n).replaceTried K nKey n ((m.mapInfo n).getTriedBucket K nKey) nOrigin rnd := by
  have hself : (m.lifted n).mapInfo n =
      { m.mapInfo n with nRefCount := (m.mapInfo n).nRefCount - holders m.vvNew n } :=
    Function.update_self ..
  unfold makeTried
  rw [assertThat_ok hin, info_of_mem hn]
  dsimp only [bind, Except.bind]
  rw [assertThat_ok (by omega), hself]
  rfl

variable (K nKey) in
/-- **An entry is moved from its new buckets** to a tried bucket. -/
theorem makeTried_spec {nOrigin : Fin 256} (rnd : Nat → Nat) (h : Sound fits none m)
    (hin : n ∈ m.vvNew nOrigin) (hsuccess : fits → (m.mapInfo n).nLastSuccess ≠ 0) :
    ∃ m', m.makeTried K nKey n nOrigin rnd = .ok m' ∧ Sound fits none m' := by
  obtain ⟨hn, hdown⟩ := h.ledger.inLower nOrigin n hin
  obtain ⟨hcount, -⟩ := h.ledger.isDown n hn hdown
  rw [if_neg (by simp)] at hcount
  set info : CAddrInfo :=
    { m.mapInfo n with nRefCount := (m.mapInfo n).nRefCount - holders m.vvNew n } with hinfo
  have hzero : (m.mapInfo n).nRefCount - holders m.vvNew n = 0 := by omega
  set m₁ := m.lifted n with hm₁
  have hself : m₁.mapInfo n = info := Function.update_self ..
  have hother : ∀ {j}, j ≠ n → m₁.mapInfo j = m.mapInfo j := fun hj => Function.update_of_ne hj ..
  have hroster : Roster m₁ := by
    have hset : Roster (m.setInfo n info) := h.roster.setInfo rfl rfl
    exact hset.buckets ..
  have hlift : Ledger none (m.ids.erase n) m₁ := by
    refine (h.ledger.lift hn hdown 0).congr (fun j hj => ?_) fun j hj => ?_
    · rw [hother (Finset.mem_erase.mp hj).1]
    · rw [hother (Finset.mem_erase.mp hj).1, Function.update_of_ne (Finset.mem_erase.mp hj).1]
  have htimely : fits → ∀ j ∈ m.ids, Timely (m₁.mapInfo j) := by
    intro hfits j hj
    by_cases hjn : j = n
    · rw [hjn, hself]
      exact h.timely hfits n hn
    · rw [hother hjn]
      exact h.timely hfits j hj
  set k := (m.mapInfo n).getTriedBucket K nKey with hk
  set tried : CAddrInfo := { info with fInTried := true } with htried
  rw [makeTried_eq K nKey hin hn (by omega), ← hm₁, hself]
  split_ifs with hplace
  · have hroster' : Roster (m₁.setInfo n tried) := hroster.setInfo (by rw [hself]) (by rw [hself])
    have hput := hlift.place (Finset.notMem_erase n _) hplace (by rw [hself]; exact hzero)
    rw [Finset.insert_erase hn] at hput
    refine ⟨_, rfl, hroster'.buckets ..,
      hput.congr (fun j _ => ?_) fun j _ => ?_, fun hfits j hj => ?_⟩
    · exact congrFun setInfo_fInTried j
    · exact setInfo_field CAddrInfo.nRefCount (by rw [hself]) j
    · have htried' : fits → n ∈ m₁.ids → Timely tried := fun hfits hn =>
        ⟨fun _ => hsuccess hfits, (h.timely hfits n hn).2⟩
      exact setInfo_timely (m := m₁) htimely htried' hfits j hj
  · refine replaceTried_spec K nKey rnd hroster hlift hn (by rw [hself]; exact hzero)
      (Nat.lt_of_lt_of_le (by decide) (not_lt.mp hplace)) ?_ htimely fun hfits => by
        rw [hself]; exact hsuccess hfits
    -- the entry has just left this bucket
    change ((m.vvNew nOrigin).erase n).card < 64
    have hcap := h.ledger.lowerCap nOrigin
    have hpos := Finset.card_pos.mpr ⟨n, hin⟩
    rw [Finset.card_erase_of_mem hin]
    omega

variable (K nKey) in
/-- **`Good_`**, with a time that is positive where the times fit. -/
theorem good_spec (h : Sound fits none m) (addr : CService) (nTime : Int64) (rnd : Nat → Nat)
    (hfits : fits → 0 < nTime) : ∃ m', m.good K nKey addr nTime rnd = .ok m' ∧ Sound fits none m' := by
  unfold good
  cases hfind : m.find addr.addr with
  | none => exact ⟨m, rfl, h⟩
  | some n =>
    set info : CAddrInfo := { m.mapInfo n with
      nLastSuccess := nTime, nLastTry := nTime, nTime := shortTime nTime, nAttempts := 0 } with hinfo
    have hself : (m.setInfo n info).mapInfo n = info := Function.update_self ..
    have h₁ : Sound fits none (m.setInfo n info) :=
      h.setInfo rfl rfl rfl rfl fun hf _ =>
        ⟨fun _ => (Int64.ne_of_lt (hfits hf)).symm, Int64.le_of_lt (hfits hf), Int64.le_of_lt (hfits hf)⟩
    dsimp only
    split_ifs with hservice htried
    · exact ⟨m, rfl, h⟩
    · exact ⟨_, rfl, h₁⟩
    · cases hbucket : ((List.range 256).map fun n => Fin.ofNat 256 (n + getRandInt (rnd 0) 256)).find?
          (fun nB => n ∈ (m.setInfo n info).vvNew nB) with
      | none => exact ⟨_, rfl, h₁⟩
      | some nUBucket =>
        have hin := List.find?_some hbucket
        exact makeTried_spec K nKey (fun i => rnd (i + 1)) h₁ (by simpa using hin) fun hf => by
          rw [hself]
          exact (Int64.ne_of_lt (hfits hf)).symm

/-! ## 6. The other operations -/

/-- **`Attempt_`**, with a time that is not negative where the times fit. -/
theorem attempt_spec (h : Sound fits none m) (addr : CService) (nTime : Int64)
    (hfits : fits → 0 ≤ nTime) : Sound fits none (m.attempt addr nTime) := by
  unfold attempt
  cases hfind : m.find addr.addr with
  | none => exact h
  | some n =>
    dsimp only
    split_ifs
    · exact h
    · exact h.setInfo rfl rfl rfl rfl fun hf hn =>
        ⟨(h.timely hf n hn).1, hfits hf, (h.timely hf n hn).2.2⟩

theorem connected_spec (h : Sound fits none m) (addr : CService) (nTime : Int64) :
    Sound fits none (m.connected addr nTime) := by
  unfold connected
  cases hfind : m.find addr.addr with
  | none => exact h
  | some n =>
    dsimp only
    split_ifs
    · exact h
    · exact h.setInfo rfl rfl rfl rfl fun hf hn => h.timely hf n hn
    · exact h

/-- **`Select_`** reads entries that there are. -/
theorem select_ok (h : Sound fits none m) (fUseTried : Bool) (draws : List Draw) :
    ∃ a, m.select fUseTried draws = .ok a := by
  induction draws with
  | nil => exact ⟨default, rfl⟩
  | cons draw draws ih =>
    unfold select
    dsimp only
    set bucket := if fUseTried then m.vvTried (Fin.ofNat 64 draw.nBucket)
      else (m.vvNew (Fin.ofNat 256 draw.nBucket)).sort with hbucket
    have hids : ∀ n ∈ bucket, n ∈ m.ids := by
      intro n hn
      rw [hbucket] at hn
      split_ifs at hn
      · exact (h.ledger.inUpper _ n hn).1
      · exact (h.ledger.inLower _ n ((Finset.mem_sort ..).mp hn)).1
    by_cases hsize : m.vRandom.length = 0
    · exact ⟨default, if_pos hsize⟩
    by_cases hempty : bucket.length = 0
    · rw [if_neg hsize, if_pos hempty]
      exact ih
    have hlt : getRandInt draw.nPos bucket.length < bucket.length := getRandInt_lt (by omega)
    rw [if_neg hsize, if_neg hempty, slot_of_getElem? (List.getElem?_eq_getElem hlt)]
    dsimp only [bind, Except.bind]
    rw [info_of_mem (hids _ (List.getElem_mem hlt))]
    dsimp only
    split_ifs
    · exact ⟨_, rfl⟩
    · exact ih

theorem Sound.moved (h : Sound fits pending m) (hroster : Roster m') (hmoved : Moved m m') :
    Sound fits pending m' := by
  have hids : m'.ids = m.ids := by rw [hmoved.rest]
  refine ⟨hroster, hids ▸ hmoved.ledger h.ledger, fun hf n hn => ?_⟩
  obtain ⟨p, hp⟩ := hmoved.entry n
  rw [hp]
  exact h.timely hf n (hids ▸ hn)

/-- **`GetAddr_`** moves entries only. -/
theorem getAddr_spec (h : Sound fits none m) (rnd : Nat → Nat) :
    ∃ m' vAddr, m.getAddr rnd = .ok (m', vAddr) ∧ Sound fits none m' := by
  set nNodes := min (23 * m.vRandom.length / 100) 2500 with hnodes
  have hle : nNodes ≤ m.vRandom.length := by omega
  obtain ⟨⟨m', vAddr⟩, hfold, h', -⟩ := foldlM_range_ok (f := getAddrRound rnd)
    (P := fun _ st => Sound fits none st.1 ∧ st.1.vRandom.length = m.vRandom.length) nNodes
    (fun n hn st hst => by
      obtain ⟨m₁, vAddr⟩ := st
      obtain ⟨h₁, hlength⟩ := hst
      dsimp only at h₁ hlength
      have hlt : getRandInt (rnd n) (m₁.vRandom.length - n) + n < m₁.vRandom.length := by
        have hpick : getRandInt (rnd n) (m₁.vRandom.length - n) < m₁.vRandom.length - n :=
          getRandInt_lt (by omega)
        omega
      obtain ⟨m₂, hswap, hroster, hmoved, hlength', -⟩ :=
        swapRandom_spec h₁.roster (i := n) (by omega) hlt
      have h₂ := h₁.moved hroster hmoved
      have hn₂ : n < m₂.vRandom.length := by omega
      have hid : m₂.vRandom[n] ∈ m₂.ids := (hroster.mem _).mp (List.getElem_mem hn₂)
      refine ⟨(m₂, vAddr ++ [(m₂.mapInfo m₂.vRandom[n]).toCAddress]), ?_, h₂, hlength'.trans hlength⟩
      unfold getAddrRound
      dsimp only
      rw [hswap]
      dsimp only [bind, Except.bind]
      rw [slot_of_getElem? (List.getElem?_eq_getElem hn₂)]
      dsimp only
      rw [info_of_mem hid]
      rfl) (a := (m, [])) ⟨h, rfl⟩
  exact ⟨m', vAddr, hfold, h'⟩

end CAddrMan

end Breakout
