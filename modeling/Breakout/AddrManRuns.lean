/-
# Every run of the address manager is consistent

Whatever addresses are added, tried and connected to, at whatever times and with whatever random
choices, no assertion fails, the indexes agree, every bucket has at most 64 entries, and an entry is
in the buckets that are counted.

The source has a check of its own, `Check_`, which is compiled in for debugging.  Beyond what is
kept in any case it demands that a tried entry has a time of its last success, which is zero until
`Good` gives it one, and that times are not negative.  Callers give the present time, and then the
check passes.
-/
import Breakout.AddrManBooks

namespace Breakout

open Lib

namespace CAddrMan

variable (K : Crypto) (nKey : Valtype)

/-! ## 1. Runs -/

/-- An operation, with the times and the random numbers that it is given. -/
inductive Op where
  | add (addr : CAddress) (source : CNetAddr) (nTimePenalty nNow : Int64) (rnd : Nat → Nat)
  | good (addr : CService) (nTime : Int64) (rnd : Nat → Nat)
  | attempt (addr : CService) (nTime : Int64)
  | connected (addr : CService) (nTime : Int64)
  | select (fUseTried : Bool) (draws : List Draw)
  | getAddr (rnd : Nat → Nat)

/-- The state after an operation. -/
def step (m : CAddrMan) : Op → Run CAddrMan
  | .add addr source nTimePenalty nNow rnd => do
    let (_, m) ← m.add K nKey addr source nTimePenalty nNow rnd
    return m
  | .good addr nTime rnd => m.good K nKey addr nTime rnd
  | .attempt addr nTime => .ok (m.attempt addr nTime)
  | .connected addr nTime => .ok (m.connected addr nTime)
  | .select fUseTried draws => do
    let _ ← m.select fUseTried draws
    return m
  | .getAddr rnd => do
    let (m, _) ← m.getAddr rnd
    return m

/-- The state after a sequence of operations. -/
def run (ops : List Op) : Run CAddrMan := ops.foldlM (step K nKey) new

/-- The times are such as a clock has: `Good` after the epoch, `Attempt` not before it. -/
def Op.Timed : Op → Prop
  | .good _ nTime _ => 0 < nTime
  | .attempt _ nTime => 0 ≤ nTime
  | _ => True

variable {K nKey} {fits : Prop} {m : CAddrMan} {pending : Option Int} {n : Int}

theorem sound_new : Sound fits none new := by
  refine ⟨⟨.nil, fun n => ?_, fun a n => ?_, fun n hn => absurd hn (Finset.notMem_empty n)⟩, .empty,
    fun _ n hn => absurd hn (Finset.notMem_empty n)⟩
  · simp [new]
  · simp [new]

/-- **One operation** keeps everything. -/
theorem step_sound (h : Sound fits none m) (op : Op) (hop : fits → op.Timed) :
    ∃ m', step K nKey m op = .ok m' ∧ Sound fits none m' := by
  cases op with
  | add addr source nTimePenalty nNow rnd =>
    obtain ⟨r, m', hadd, h'⟩ := add_spec K nKey h addr source nTimePenalty nNow rnd
    exact ⟨m', by rw [step, hadd]; rfl, h'⟩
  | good addr nTime rnd => exact good_spec K nKey h addr nTime rnd hop
  | attempt addr nTime => exact ⟨_, rfl, attempt_spec h addr nTime hop⟩
  | connected addr nTime => exact ⟨_, rfl, connected_spec h addr nTime⟩
  | select fUseTried draws =>
    obtain ⟨a, ha⟩ := select_ok h fUseTried draws
    exact ⟨m, by rw [step, ha]; rfl, h⟩
  | getAddr rnd =>
    obtain ⟨m', vAddr, haddr, h'⟩ := getAddr_spec h rnd
    exact ⟨m', by rw [step, haddr]; rfl, h'⟩

variable (K nKey) in
/-- **A run** keeps everything. -/
theorem run_sound (ops : List Op) :
    ∃ m, run K nKey ops = .ok m ∧ Sound (∀ op ∈ ops, op.Timed) none m :=
  foldlM_ok ops (fun _ op hop h => step_sound h op fun hfits => hfits op hop) sound_new

/-! ## 2. The check -/

variable {l : List Int}

theorem foldlM_checkTried {s : Finset Int} (hl : l.Nodup) (h : ∀ n ∈ l, n ∈ s) :
    l.foldlM checkTried s = some (s \ l.toFinset) := by
  induction l generalizing s with
  | nil => simp
  | cons n rest ih =>
    obtain ⟨hn, hrest⟩ := List.nodup_cons.mp hl
    have hstep : checkTried s n = some (s.erase n) := if_pos (h n List.mem_cons_self)
    rw [List.foldlM_cons, hstep]
    refine (ih hrest fun k hk => ?_).trans ?_
    · exact Finset.mem_erase.mpr ⟨fun heq => hn (heq ▸ hk), h k (List.mem_cons_of_mem n hk)⟩
    · rw [List.toFinset_cons, Finset.erase_eq, sdiff_sdiff_left, Finset.sup_eq_union,
        Finset.singleton_union]

theorem foldlM_checkNew {f : Int → Int} (h : ∀ n, (l.count n : Int) ≤ f n) :
    l.foldlM checkNew f = some fun n => f n - l.count n := by
  induction l generalizing f with
  | nil => simp
  | cons n rest ih =>
    have hn := h n
    rw [List.count_cons_self] at hn
    have hstep : checkNew f n = some (Function.update f n (f n - 1)) := if_pos (by omega)
    rw [List.foldlM_cons, hstep]
    refine (ih fun k => ?_).trans ?_
    · rw [Function.update_apply]
      split_ifs with hk
      · subst hk
        omega
      · have hle := h k
        rw [List.count_cons_of_ne (Ne.symm hk)] at hle
        exact hle
    · congr 1
      funext k
      rw [Function.update_apply]
      split_ifs with hk
      · subst hk
        rw [List.count_cons_self]
        omega
      · rw [List.count_cons_of_ne (Ne.symm hk)]

/-- What gets through the tried buckets is there once, and tried. -/
theorem of_foldlM_checkTried {s s' : Finset Int} (h : l.foldlM checkTried s = some s') :
    l.Nodup ∧ ∀ n ∈ l, n ∈ s := by
  induction l generalizing s with
  | nil => simp
  | cons n rest ih =>
    rw [List.foldlM_cons] at h
    unfold checkTried at h
    by_cases hn : n ∈ s
    · rw [if_pos hn] at h
      obtain ⟨hnodup, hrest⟩ := ih h
      refine ⟨List.nodup_cons.mpr ⟨fun hmem => ?_, hnodup⟩, fun k hk => ?_⟩
      · exact Finset.notMem_erase n s (hrest n hmem)
      · rcases List.mem_cons.mp hk with rfl | hk
        · exact hn
        · exact Finset.mem_of_mem_erase (hrest k hk)
    · rw [if_neg hn] at h
      cases h

/-- What gets through the new buckets is counted often enough. -/
theorem of_foldlM_checkNew {f g : Int → Int} (hf : ∀ n, 0 ≤ f n) (h : l.foldlM checkNew f = some g)
    (n : Int) : (l.count n : Int) ≤ f n := by
  induction l generalizing f with
  | nil => simpa using hf n
  | cons k rest ih =>
    rw [List.foldlM_cons] at h
    unfold checkNew at h
    by_cases hk : f k ≠ 0
    · rw [if_pos hk] at h
      have hpos := hf k
      have hrest := ih (fun i => ?_) h
      · rw [Function.update_apply] at hrest
        rw [List.count_cons]
        split_ifs at hrest with hnk
        · subst hnk
          simp only [beq_self_eq_true, if_true]
          omega
        · rw [if_neg (by simpa using Ne.symm hnk)]
          exact hrest
      · rw [Function.update_apply]
        split_ifs with hi
        · omega
        · exact hf i
    · rw [if_neg hk] at h
      cases h

/-- The new buckets hold an entry as often as it counts. -/
theorem count_vvNew (m : CAddrMan) (n : Int) :
    ((List.finRange 256).flatMap fun b => (m.vvNew b).sort).count n = holders m.vvNew n := by
  rw [List.count_flatMap, holders, Finset.card_filter, Fin.sum_univ_def]
  congr 2
  funext b
  rw [Function.comp_apply, (Finset.sort_nodup ..).count]
  exact if_congr (Finset.mem_sort ..) rfl rfl

/-- A check goes on when the condition for its code does not hold. -/
theorem ite_code_eq_zero_iff {c : Prop} [Decidable c] {code rest : Int} (hcode : code ≠ 0) :
    (if c then code else rest) = 0 ↔ ¬ c ∧ rest = 0 := by
  by_cases hc : c <;> simp [hc, hcode]

theorem checkEntry_eq_zero_iff : m.checkEntry n = 0 ↔
    ((m.mapInfo n).fInTried = true → (m.mapInfo n).nLastSuccess ≠ 0 ∧ (m.mapInfo n).nRefCount = 0) ∧
    ((m.mapInfo n).fInTried = false →
      1 ≤ (m.mapInfo n).nRefCount ∧ (m.mapInfo n).nRefCount ≤ 4) ∧
    (m.mapAddr (m.mapInfo n).addr.key).getD 0 = n ∧
    (0 ≤ (m.mapInfo n).nRandomPos ∧ m.vRandom[(m.mapInfo n).nRandomPos.toNat]? = some n) ∧
    0 ≤ (m.mapInfo n).nLastTry ∧ 0 ≤ (m.mapInfo n).nLastSuccess := by
  unfold checkEntry
  dsimp only
  iterate 8 rw [ite_code_eq_zero_iff (by decide)]
  rw [not_or, not_not, not_not, not_lt, Int64.not_lt, Int64.not_lt]
  cases (m.mapInfo n).fInTried with
  | true => simp [and_assoc]
  | false =>
    simp only [Bool.false_eq_true, false_and, not_false_eq_true, true_and, forall_const,
      false_implies, and_true]
    constructor
    · rintro ⟨hrange, hzero, hrest⟩
      exact ⟨by omega, hrest⟩
    · rintro ⟨hrange, hrest⟩
      exact ⟨by omega, by omega, hrest⟩

theorem Sound.checkEntry (h : Sound True none m) (hn : n ∈ m.ids) : m.checkEntry n = 0 := by
  obtain ⟨hsuccess, htry, hlast⟩ := h.timely trivial n hn
  obtain ⟨i, hpos, hi⟩ := h.roster.slots.getElem?_pos ((h.roster.mem n).mpr hn)
  have haddr := (h.roster.addr (m.mapInfo n).addr.key n).mpr ⟨hn, rfl⟩
  refine checkEntry_eq_zero_iff.mpr ⟨fun htried => ?_, fun hdown => ?_, ?_, ?_, htry, hlast⟩
  · exact ⟨hsuccess htried, (h.ledger.isUp n hn htried).1⟩
  · exact (h.ledger.isDown n hn hdown).2
  · rw [haddr, Option.getD_some]
  · rw [hpos, Int.toNat_natCast, hi]
    exact ⟨Int.natCast_nonneg i, rfl⟩

theorem Sound.length (h : Sound fits pending m) : (m.vRandom.length : Int) = m.nTried + m.nNew := by
  have hids : m.vRandom.toFinset = m.ids := by
    ext n
    rw [List.mem_toFinset, h.roster.mem]
  have hcard := List.toFinset_card_of_nodup h.roster.slots.nodup
  have hsplit := Finset.card_filter_add_card_filter_not (s := m.ids)
    fun n => (m.mapInfo n).fInTried = true
  simp only [Bool.not_eq_true] at hsplit
  rw [hids] at hcard
  rw [h.ledger.tallyUp, h.ledger.tallyDown, census, census]
  omega

/-- The tried buckets hold each entry that is tried once. -/
theorem Sound.vvTried_nodup (h : Sound fits pending m) :
    ((List.finRange 64).flatMap m.vvTried).Nodup := by
  refine List.nodup_flatMap.mpr ⟨fun k _ => h.ledger.nodup k, ?_⟩
  refine (List.nodup_finRange 64).imp fun hne n hn hn' => hne ?_
  exact h.ledger.once _ _ n hn hn'

theorem Sound.mem_vvTried (h : Sound fits pending m) :
    n ∈ (List.finRange 64).flatMap m.vvTried ↔ n ∈ m.setTried := by
  rw [List.mem_flatMap, setTried, Finset.mem_filter]
  constructor
  · rintro ⟨k, -, hk⟩
    exact h.ledger.inUpper k n hk
  · rintro ⟨hn, htried⟩
    obtain ⟨-, k, hk⟩ := h.ledger.isUp n hn htried
    exact ⟨k, List.mem_finRange k, hk⟩

/-- What an entry counts is the number of buckets that hold it. -/
theorem Sound.holders (h : Sound fits none m) (n : Int) :
    (holders m.vvNew n : Int) = m.mapNew n := by
  unfold mapNew
  split_ifs with hn
  · obtain ⟨hcount, -⟩ := h.ledger.isDown n hn.1 hn.2
    rw [hcount]
    simp
  · rw [Nat.cast_eq_zero]
    by_contra hne
    obtain ⟨b, hb⟩ := Finset.card_pos.mp (Nat.pos_of_ne_zero hne)
    exact hn (h.ledger.inLower b n (by simpa using hb))

/-- What `Check_` looks for. -/
structure Checked (m : CAddrMan) : Prop where
  length : (m.vRandom.length : Int) = m.nTried + m.nNew
  entry : ∀ n ∈ m.ids, m.checkEntry n = 0
  tallyTried : (m.setTried.card : Int) = m.nTried
  tallyNew : ((m.ids.filter fun n => (m.mapInfo n).fInTried = false).card : Int) = m.nNew
  nodup : ((List.finRange 64).flatMap m.vvTried).Nodup
  mem_vvTried : ∀ n, n ∈ (List.finRange 64).flatMap m.vvTried ↔ n ∈ m.setTried
  held : ∀ n, (holders m.vvNew n : Int) = m.mapNew n

/-- The counted entries are those that are not tried. -/
theorem filter_mapNew (hentry : ∀ n ∈ m.ids, m.checkEntry n = 0) :
    m.ids.filter (m.mapNew · ≠ 0) = m.ids.filter fun n => (m.mapInfo n).fInTried = false := by
  refine Finset.filter_congr fun n hn => ?_
  unfold mapNew
  split_ifs with hdown
  · have hrange := (checkEntry_eq_zero_iff.mp (hentry n hn)).2.1 hdown.2
    exact iff_of_true (by omega) hdown.2
  · exact iff_of_false (not_not.mpr rfl) fun hfalse => hdown ⟨hn, hfalse⟩

theorem mapNew_nonneg (hentry : ∀ n ∈ m.ids, m.checkEntry n = 0) (n : Int) : 0 ≤ m.mapNew n := by
  unfold mapNew
  split_ifs with hdown
  · have hrange := (checkEntry_eq_zero_iff.mp (hentry n hdown.1)).2.1 hdown.2
    omega
  · exact le_refl 0

/-- The loop over the entries finds no fault. -/
theorem find_checkEntry_iff :
    (m.ids.sort.map m.checkEntry).find? (· ≠ 0) = none ↔ ∀ n ∈ m.ids, m.checkEntry n = 0 := by
  rw [List.find?_eq_none]
  simp

/-- **The check passes** exactly when it finds what it looks for. -/
theorem check_eq_zero_iff : m.check = 0 ↔ Checked m := by
  constructor
  · intro h
    unfold CAddrMan.check at h
    obtain ⟨hlength, h⟩ := (ite_code_eq_zero_iff (by decide)).mp h
    cases hfind : (m.ids.sort.map m.checkEntry).find? (· ≠ 0) with
    | some code =>
      rw [hfind] at h
      have hcode := List.find?_some hfind
      rw [decide_eq_true_eq] at hcode
      exact absurd h hcode
    | none =>
      have hentry := find_checkEntry_iff.mp hfind
      rw [hfind] at h
      obtain ⟨hup, h⟩ := (ite_code_eq_zero_iff (by decide)).mp h
      obtain ⟨hdown, h⟩ := (ite_code_eq_zero_iff (by decide)).mp h
      cases htried : ((List.finRange 64).flatMap m.vvTried).foldlM checkTried m.setTried with
      | none =>
        rw [htried] at h
        cases h
      | some left =>
        rw [htried] at h
        dsimp only at h
        cases hnew : ((List.finRange 256).flatMap fun b => (m.vvNew b).sort).foldlM checkNew
            m.mapNew with
        | none =>
          rw [hnew] at h
          cases h
        | some counts =>
          rw [hnew] at h
          obtain ⟨hleft, h⟩ := (ite_code_eq_zero_iff (by decide)).mp h
          obtain ⟨hcounts, -⟩ := (ite_code_eq_zero_iff (by decide)).mp h
          obtain ⟨hnodup, hsub⟩ := of_foldlM_checkTried htried
          have hle := of_foldlM_checkNew (mapNew_nonneg hentry) hnew
          rw [foldlM_checkTried hnodup hsub, Option.some.injEq] at htried
          rw [foldlM_checkNew hle, Option.some.injEq] at hnew
          refine ⟨not_not.mp hlength, hentry, not_not.mp hup, ?_, hnodup, fun n => ⟨hsub n, ?_⟩,
            fun n => ?_⟩
          · rw [← filter_mapNew hentry]
            exact not_not.mp hdown
          · intro hn
            rw [not_not, ← htried, Finset.sdiff_eq_empty_iff_subset] at hleft
            exact List.mem_toFinset.mp (hleft hn)
          · rw [← count_vvNew]
            by_cases hn : n ∈ m.ids
            · have hzero := Finset.filter_eq_empty_iff.mp (not_not.mp hcounts) hn
              rw [not_not, ← hnew] at hzero
              dsimp only at hzero
              omega
            · have hout : m.mapNew n = 0 := if_neg fun hmem => hn hmem.1
              have hcount := hle n
              omega
  · intro h
    have hcount : ∀ n,
        (((List.finRange 256).flatMap fun b => (m.vvNew b).sort).count n : Int) = m.mapNew n := by
      intro n
      rw [count_vvNew]
      exact h.held n
    have htried := foldlM_checkTried h.nodup fun n hn => (h.mem_vvTried n).mp hn
    have hnew := foldlM_checkNew fun n => (hcount n).le
    have hdown := h.tallyNew
    rw [← filter_mapNew h.entry] at hdown
    unfold CAddrMan.check
    rw [if_neg (not_not.mpr h.length), find_checkEntry_iff.mpr h.entry]
    dsimp only
    rw [if_neg (not_not.mpr h.tallyTried), if_neg (not_not.mpr hdown), htried, hnew]
    dsimp only
    rw [if_neg, if_neg]
    · rw [not_not, Finset.filter_eq_empty_iff]
      intro n _
      rw [not_not, hcount, sub_self]
    · rw [not_not, Finset.sdiff_eq_empty_iff_subset]
      intro n hn
      exact List.mem_toFinset.mpr ((h.mem_vvTried n).mpr hn)

/-- **The check passes** where the times fit. -/
theorem Sound.check (h : Sound True none m) : m.check = 0 :=
  check_eq_zero_iff.mpr
    { length := h.length
      entry := fun _ hn => h.checkEntry hn
      tallyTried := h.ledger.tallyUp.symm
      tallyNew := h.ledger.tallyDown.symm
      nodup := h.vvTried_nodup
      mem_vvTried := fun _ => h.mem_vvTried
      held := h.holders }

/-! ## 3. Consistency -/

/-- The indexes agree, the counts are right, an entry is where it is counted, and no bucket has more
than 64 entries. -/
structure Consistent (m : CAddrMan) : Prop where
  mapAddr : ∀ a n, m.mapAddr a = some n ↔ n ∈ m.ids ∧ (m.mapInfo n).addr.key = a
  vRandom : ∀ n, n ∈ m.vRandom ↔ n ∈ m.ids
  nRandomPos : ∀ n ∈ m.ids, ∀ i : Nat, m.vRandom[i]? = some n ↔ (m.mapInfo n).nRandomPos = i
  nTried : m.nTried = (m.ids.filter fun n => (m.mapInfo n).fInTried = true).card
  nNew : m.nNew = (m.ids.filter fun n => (m.mapInfo n).fInTried = false).card
  nRefCount : ∀ n ∈ m.ids, (m.mapInfo n).fInTried = false →
    (m.mapInfo n).nRefCount = (Finset.univ.filter fun b => n ∈ m.vvNew b).card ∧
      1 ≤ (m.mapInfo n).nRefCount ∧ (m.mapInfo n).nRefCount ≤ 4
  fInTried : ∀ n ∈ m.ids, (m.mapInfo n).fInTried = true →
    (m.mapInfo n).nRefCount = 0 ∧ ∃! k, n ∈ m.vvTried k
  vvNew : ∀ b, ∀ n ∈ m.vvNew b, n ∈ m.ids ∧ (m.mapInfo n).fInTried = false
  vvTried : ∀ k, ∀ n ∈ m.vvTried k, n ∈ m.ids ∧ (m.mapInfo n).fInTried = true
  once : ∀ k, (m.vvTried k).Nodup
  sizeNew : ∀ b, (m.vvNew b).card ≤ 64
  sizeTried : ∀ k, (m.vvTried k).length ≤ 64

theorem Sound.consistent (h : Sound fits none m) : Consistent m where
  mapAddr := h.roster.addr
  vRandom := h.roster.mem
  nRandomPos n hn i := by
    refine ⟨h.roster.slots i n, fun hpos => ?_⟩
    obtain ⟨j, hj, hget⟩ := h.roster.slots.getElem?_pos ((h.roster.mem n).mpr hn)
    obtain rfl : i = j := by
      rw [hpos] at hj
      exact_mod_cast hj
    exact hget
  nTried := h.ledger.tallyUp
  nNew := h.ledger.tallyDown
  nRefCount n hn hdown := by
    obtain ⟨hcount, hlo, hhi⟩ := h.ledger.isDown n hn hdown
    rw [if_neg (by simp), Int.add_zero] at hcount
    exact ⟨hcount, hlo, hhi⟩
  fInTried n hn htried := by
    obtain ⟨hrefs, k, hk⟩ := h.ledger.isUp n hn htried
    exact ⟨hrefs, k, hk, fun k' hk' => h.ledger.once k' k n hk' hk⟩
  vvNew := h.ledger.inLower
  vvTried := h.ledger.inUpper
  once := h.ledger.nodup
  sizeNew := h.ledger.lowerCap
  sizeTried := h.ledger.upperCap

variable (K nKey) in
/-- **After every sequence of operations** the manager is consistent, and no assertion has failed.
Its own check passes when the times were those of a clock. -/
theorem run_consistent (ops : List Op) :
    ∃ m, run K nKey ops = .ok m ∧ Consistent m ∧ ((∀ op ∈ ops, op.Timed) → m.check = 0) := by
  obtain ⟨m, hrun, h⟩ := run_sound K nKey ops
  refine ⟨m, hrun, h.consistent, fun htimed => ?_⟩
  exact Sound.check ⟨h.roster, h.ledger, fun _ => h.timely htimed⟩

/-! ## 4. A success at time zero -/

/-- `Check_` where the only entry fails. -/
theorem check_of_only (hlength : (m.vRandom.length : Int) = m.nTried + m.nNew) (hids : m.ids = {n})
    (hentry : m.checkEntry n ≠ 0) : m.check = m.checkEntry n := by
  have hfirst : (m.ids.sort.map m.checkEntry).find? (· ≠ 0) = some (m.checkEntry n) := by
    rw [hids, Finset.sort_singleton, List.map_singleton, List.find?_singleton,
      if_pos (by simpa using hentry)]
  unfold CAddrMan.check
  rw [if_neg (not_not.mpr hlength), hfirst]

/-- 8.8.8.8, with a port. -/
def sampleAddress : CAddress where
  addr := CNetAddr.ofInAddr default ⟨[8, 8, 8, 8], rfl⟩
  port := 50542
  nServices := 1
  nTime := 1600000000
  nLastTry := 0

example : sampleAddress.addr.isRoutable = true ∧ sampleAddress.addr.getGroup = [1, 8, 8] := by
  decide

/-- It is heard of, and connected to at time zero. -/
def untimedOps : List Op :=
  [.add sampleAddress sampleAddress.addr 0 1600000000 fun _ => 0,
    .good sampleAddress.toCService 0 fun _ => 0]

/-- **The check fails** although all is consistent: a tried entry has no time of its success. -/
theorem untimed_check_fails :
    ∃ m, run (Crypto.sample []) (List.replicate 32 7) untimedOps = .ok m ∧ m.check = -1 := by
  obtain ⟨m, hrun, hids, hlength, hentry⟩ :
      ∃ m, run (Crypto.sample []) (List.replicate 32 7) untimedOps = .ok m ∧ m.ids = {0} ∧
        (m.vRandom.length : Int) = m.nTried + m.nNew ∧ m.checkEntry 0 = -1 :=
    ⟨_, rfl, by decide +kernel, by decide +kernel, by decide +kernel⟩
  refine ⟨m, hrun, ?_⟩
  rw [check_of_only hlength hids (by rw [hentry]; decide), hentry]

end CAddrMan

end Breakout
