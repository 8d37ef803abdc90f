/-
# Two tiers of buckets

Entries are kept in buckets of two tiers.  An entry is up, and then in one bucket of the upper tier, or
it is down, in some buckets of the lower tier; it counts these, and is dropped when it is in none.
Buckets have a capacity.  How many entries are up and how many are down is counted too.

`Books` says that all of this agrees, for the entries of a set and but for one that is pending: it has
counted a bucket that it is not in yet.  The steps by which a program moves entries keep the books, each
by a lemma of its own, and a program's step is one of them or a few in a row.
-/
import Mathlib.Tactic

namespace Lib

variable {ι κ β : Type} [DecidableEq ι] [Fintype β]

/-! ## 1. Counting -/

/-- How many of a set a test sorts one way. -/
def census (ids : Finset ι) (up : ι → Bool) (c : Bool) : Nat := (ids.filter (up · = c)).card

/-- How many buckets an entry is in. -/
def holders (lower : β → Finset ι) (n : ι) : Nat := (Finset.univ.filter (n ∈ lower ·)).card

section

variable {ids : Finset ι} {up up' : ι → Bool} {c : Bool} {lower : β → Finset ι} {b : β} {n m : ι}

omit [DecidableEq ι] in
theorem census_congr (h : ∀ m ∈ ids, up' m = up m) : census ids up' c = census ids up c := by
  unfold census
  congr 1
  exact Finset.filter_congr fun m hm => by rw [h m hm]

theorem census_insert (h : n ∉ ids) :
    census (insert n ids) up c = census ids up c + if up n = c then 1 else 0 := by
  unfold census
  rw [Finset.filter_insert]
  split_ifs
  · exact Finset.card_insert_of_notMem fun hn => h (Finset.mem_filter.mp hn).1
  · rfl

theorem census_erase (up : ι → Bool) (c : Bool) (h : n ∈ ids) :
    census (ids.erase n) up c + (if up n = c then 1 else 0) = census ids up c := by
  rw [← census_insert (Finset.notMem_erase n ids), Finset.insert_erase h]

theorem holders_erase_all :
    holders (fun b => (lower b).erase n) m = if m = n then 0 else holders lower m := by
  unfold holders
  split_ifs with hm
  · subst hm
    simp
  · congr 1
    ext b
    simp [hm]

theorem holders_pos (h : n ∈ lower b) : 0 < holders lower n :=
  Finset.card_pos.mpr ⟨b, by simpa using h⟩

variable [DecidableEq β]

theorem holders_insert (h : n ∉ lower b) :
    holders (Function.update lower b (insert n (lower b))) m =
      holders lower m + if m = n then 1 else 0 := by
  unfold holders
  split_ifs with hm
  · subst hm
    have hset : Finset.univ.filter (m ∈ Function.update lower b (insert m (lower b)) ·) =
        insert b (Finset.univ.filter (m ∈ lower ·)) := by
      ext b'
      by_cases hb : b' = b
      · subst hb
        simp
      · simp [hb]
    rw [hset, Finset.card_insert_of_notMem (by simpa using h)]
  · congr 1
    ext b'
    by_cases hb : b' = b
    · subst hb
      simp [hm]
    · simp [hb]

theorem holders_erase (h : n ∈ lower b) :
    holders (Function.update lower b ((lower b).erase n)) m + (if m = n then 1 else 0) =
      holders lower m := by
  have hback : Function.update (Function.update lower b ((lower b).erase n)) b
      (insert n (Function.update lower b ((lower b).erase n) b)) = lower := by
    rw [Function.update_self, Finset.insert_erase h, Function.update_idem, Function.update_eq_self]
  have hout : n ∉ Function.update lower b ((lower b).erase n) b := by
    rw [Function.update_self]
    exact Finset.notMem_erase n _
  rw [← holders_insert hout, hback]

end

/-! ## 2. The books -/

/-- Everything agrees, for the entries of a set: whether they are up, the buckets that they count, the
buckets of both tiers, and how many entries are up and down. -/
structure Books (cap most : Nat) (ids : Finset ι) (pending : Option ι) (up : ι → Bool) (refs : ι → Int)
    (upper : κ → List ι) (lower : β → Finset ι) (nUp nDown : Int) : Prop where
  inUpper : ∀ k, ∀ n ∈ upper k, n ∈ ids ∧ up n = true
  isUp : ∀ n ∈ ids, up n = true → refs n = 0 ∧ ∃ k, n ∈ upper k
  once : ∀ k k' n, n ∈ upper k → n ∈ upper k' → k = k'
  nodup : ∀ k, (upper k).Nodup
  upperCap : ∀ k, (upper k).length ≤ cap
  inLower : ∀ b, ∀ n ∈ lower b, n ∈ ids ∧ up n = false
  lowerCap : ∀ b, (lower b).card ≤ cap
  isDown : ∀ n ∈ ids, up n = false →
    refs n = holders lower n + (if pending = some n then 1 else 0) ∧
      1 ≤ refs n ∧ refs n ≤ most
  isPending : ∀ n, pending = some n → n ∈ ids ∧ up n = false
  tallyUp : nUp = census ids up true
  tallyDown : nDown = census ids up false

namespace Books

variable {cap most : Nat} {ids : Finset ι} {pending : Option ι} {up : ι → Bool} {refs : ι → Int}
  {upper : κ → List ι} {lower : β → Finset ι} {nUp nDown : Int} {n : ι} {b : β} {k : κ}

theorem empty : Books cap most ∅ none up refs (fun _ : κ => []) (fun _ : β => (∅ : Finset ι)) 0 0 := by
  constructor <;> simp [census]

/-- **A new entry** counts a bucket. -/
theorem enter (h : Books cap most ids none up refs upper lower nUp nDown) (hn : n ∉ ids)
    (hmost : 1 ≤ most) :
    Books cap most (insert n ids) (some n)
      (Function.update up n false) (Function.update refs n 1) upper lower nUp (nDown + 1) := by
  have hne : ∀ {m}, m ∈ ids → m ≠ n := fun hm heq => hn (heq ▸ hm)
  have hup : ∀ {m}, m ∈ ids → Function.update up n false m = up m := fun hm =>
    Function.update_of_ne (hne hm) ..
  refine ⟨fun k m hm => ?_, fun m hm hmup => ?_, h.once, h.nodup, h.upperCap, fun b m hm => ?_,
    h.lowerCap, fun m hm hdown => ?_, fun m hm => ?_, ?_, ?_⟩
  · obtain ⟨hids, hmup⟩ := h.inUpper k m hm
    exact ⟨Finset.mem_insert_of_mem hids, (hup hids).trans hmup⟩
  · rcases Finset.mem_insert.mp hm with rfl | hm
    · rw [Function.update_self] at hmup
      cases hmup
    · rw [hup hm] at hmup
      rw [Function.update_of_ne (hne hm)]
      exact h.isUp m hm hmup
  · obtain ⟨hids, hdown⟩ := h.inLower b m hm
    exact ⟨Finset.mem_insert_of_mem hids, (hup hids).trans hdown⟩
  · rcases Finset.mem_insert.mp hm with rfl | hm
    · have hnone : holders lower m = 0 := by
        by_contra hne
        obtain ⟨b, hb⟩ := Finset.card_pos.mp (Nat.pos_of_ne_zero hne)
        exact hn (h.inLower b m (by simpa using hb)).1
      rw [Function.update_self, hnone, if_pos rfl]
      omega
    · rw [hup hm] at hdown
      rw [Function.update_of_ne (hne hm), if_neg (by simpa using (hne hm).symm)]
      simpa using h.isDown m hm hdown
  · cases hm
    exact ⟨Finset.mem_insert_self .., Function.update_self ..⟩
  · rw [census_insert hn, census_congr fun m hm => hup hm, Function.update_self, if_neg (by simp)]
    exact h.tallyUp
  · rw [census_insert hn, census_congr fun m hm => hup hm, Function.update_self, if_pos rfl, h.tallyDown]
    rfl

/-- **One bucket more** is counted. -/
theorem count (h : Books cap most ids none up refs upper lower nUp nDown) (hn : n ∈ ids)
    (hdown : up n = false) (hmost : refs n ≠ most) :
    Books cap most ids (some n) up (Function.update refs n (refs n + 1)) upper lower nUp nDown := by
  obtain ⟨hrefs, hpos, hle⟩ := h.isDown n hn hdown
  refine ⟨h.inUpper, fun m hm hup => ?_, h.once, h.nodup, h.upperCap, h.inLower, h.lowerCap,
    fun m hm hmdown => ?_, fun m hm => ?_, h.tallyUp, h.tallyDown⟩
  · have hne : m ≠ n := fun heq => by
      rw [heq, hdown] at hup
      cases hup
    rw [Function.update_of_ne hne]
    exact h.isUp m hm hup
  · by_cases hmn : m = n
    · subst hmn
      rw [Function.update_self, if_pos rfl]
      rw [if_neg (by simp)] at hrefs
      omega
    · rw [Function.update_of_ne hmn, if_neg (by simpa using Ne.symm hmn)]
      simpa using h.isDown m hm hmdown
  · cases hm
    exact ⟨hn, hdown⟩

/-- **An entry leaves all its buckets** and is nowhere for now. -/
theorem lift (h : Books cap most ids none up refs upper lower nUp nDown) (hn : n ∈ ids)
    (hdown : up n = false) (r : Int) :
    Books cap most (ids.erase n) none up (Function.update refs n r) upper
      (fun b => (lower b).erase n) nUp (nDown - 1) := by
  have hup : ∀ {m}, up m = true → m ≠ n := fun hm heq => by
    rw [heq, hdown] at hm
    cases hm
  refine ⟨fun k m hm => ?_, fun m hm hmup => ?_, h.once, h.nodup, h.upperCap, fun b m hm => ?_,
    fun b => (Finset.card_erase_le).trans (h.lowerCap b), fun m hm hmdown => ?_,
    fun m hm => absurd hm (by simp), ?_, ?_⟩
  · obtain ⟨hids, hmup⟩ := h.inUpper k m hm
    exact ⟨Finset.mem_erase.mpr ⟨hup hmup, hids⟩, hmup⟩
  · rw [Function.update_of_ne (hup hmup)]
    exact h.isUp m (Finset.mem_of_mem_erase hm) hmup
  · obtain ⟨hne, hm⟩ := Finset.mem_erase.mp hm
    obtain ⟨hids, hmdown⟩ := h.inLower b m hm
    exact ⟨Finset.mem_erase.mpr ⟨hne, hids⟩, hmdown⟩
  · obtain ⟨hne, hids⟩ := Finset.mem_erase.mp hm
    rw [Function.update_of_ne hne, holders_erase_all, if_neg hne]
    exact h.isDown m hids hmdown
  · have htally := census_erase up true hn
    rw [if_neg (by simp [hdown])] at htally
    rw [h.tallyUp]
    omega
  · have htally := census_erase up false hn
    rw [if_pos hdown] at htally
    rw [h.tallyDown]
    omega

theorem congr {up' : ι → Bool} {refs' : ι → Int}
    (h : Books cap most ids pending up refs upper lower nUp nDown) (hup : ∀ n ∈ ids, up' n = up n)
    (hrefs : ∀ n ∈ ids, refs' n = refs n) :
    Books cap most ids pending up' refs' upper lower nUp nDown := by
  refine ⟨fun k m hm => ?_, fun m hm hmup => ?_, h.once, h.nodup, h.upperCap, fun b m hm => ?_,
    h.lowerCap, fun m hm hdown => ?_, fun m hm => ?_, ?_, ?_⟩
  · obtain ⟨hids, hmup⟩ := h.inUpper k m hm
    exact ⟨hids, (hup m hids).trans hmup⟩
  · rw [hrefs m hm]
    exact h.isUp m hm ((hup m hm).symm.trans hmup)
  · obtain ⟨hids, hdown⟩ := h.inLower b m hm
    exact ⟨hids, (hup m hids).trans hdown⟩
  · rw [hrefs m hm]
    exact h.isDown m hm ((hup m hm).symm.trans hdown)
  · obtain ⟨hids, hdown⟩ := h.isPending m hm
    exact ⟨hids, (hup m hids).trans hdown⟩
  · rw [census_congr hup]
    exact h.tallyUp
  · rw [census_congr hup]
    exact h.tallyDown

section

variable [DecidableEq κ]

/-- The order in an upper bucket does not matter. -/
theorem permute {l : List ι} (h : Books cap most ids pending up refs upper lower nUp nDown)
    (hperm : l.Perm (upper k)) :
    Books cap most ids pending up refs (Function.update upper k l) lower nUp nDown := by
  have hmem : ∀ {k' m}, m ∈ Function.update upper k l k' ↔ m ∈ upper k' := by
    intro k' m
    rw [Function.update_apply]
    split_ifs with hk
    · rw [hk, hperm.mem_iff]
    · rfl
  refine ⟨fun k' m hm => h.inUpper k' m (hmem.mp hm), fun m hm hup => ?_,
    fun k₁ k₂ m hm₁ hm₂ => h.once k₁ k₂ m (hmem.mp hm₁) (hmem.mp hm₂), fun k' => ?_, fun k' => ?_,
    h.inLower, h.lowerCap, h.isDown, h.isPending, h.tallyUp, h.tallyDown⟩
  · obtain ⟨hrefs, k', hk'⟩ := h.isUp m hm hup
    exact ⟨hrefs, k', hmem.mpr hk'⟩
  · rw [Function.update_apply]
    split_ifs
    · exact hperm.nodup_iff.mpr (h.nodup k)
    · exact h.nodup k'
  · rw [Function.update_apply]
    split_ifs
    · exact hperm.length_eq.le.trans (h.upperCap k)
    · exact h.upperCap k'

/-- **An entry from nowhere goes up.** -/
theorem place (h : Books cap most ids none up refs upper lower nUp nDown) (hn : n ∉ ids)
    (hroom : (upper k).length < cap) (hrefs : refs n = 0) :
    Books cap most (insert n ids) none (Function.update up n true) refs
      (Function.update upper k (upper k ++ [n])) lower (nUp + 1) nDown := by
  have hne : ∀ {m}, m ∈ ids → m ≠ n := fun hm heq => hn (heq ▸ hm)
  have hup : ∀ {m}, m ∈ ids → Function.update up n true m = up m := fun hm =>
    Function.update_of_ne (hne hm) ..
  have hmem : ∀ {k' m}, m ∈ Function.update upper k (upper k ++ [n]) k' ↔
      m ∈ upper k' ∨ (k' = k ∧ m = n) := by
    intro k' m
    rw [Function.update_apply]
    split_ifs with hk
    · simp [hk]
    · simp [hk]
  refine ⟨fun k' m hm => ?_, fun m hm hmup => ?_, fun k₁ k₂ m hm₁ hm₂ => ?_, fun k' => ?_,
    fun k' => ?_, fun b m hm => ?_, h.lowerCap, fun m hm hdown => ?_,
    fun m hm => absurd hm (by simp), ?_, ?_⟩
  · rcases hmem.mp hm with hm | ⟨-, rfl⟩
    · obtain ⟨hids, hmup⟩ := h.inUpper k' m hm
      exact ⟨Finset.mem_insert_of_mem hids, (hup hids).trans hmup⟩
    · exact ⟨Finset.mem_insert_self .., Function.update_self ..⟩
  · rcases Finset.mem_insert.mp hm with rfl | hm
    · exact ⟨hrefs, k, hmem.mpr (Or.inr ⟨rfl, rfl⟩)⟩
    · obtain ⟨hzero, k', hk'⟩ := h.isUp m hm ((hup hm).symm.trans hmup)
      exact ⟨hzero, k', hmem.mpr (Or.inl hk')⟩
  · rcases hmem.mp hm₁ with hin₁ | ⟨hk₁, hmn⟩
    · rcases hmem.mp hm₂ with hin₂ | ⟨-, hmn⟩
      · exact h.once k₁ k₂ m hin₁ hin₂
      · exact absurd hmn (hne (h.inUpper k₁ m hin₁).1)
    · rcases hmem.mp hm₂ with hin₂ | ⟨hk₂, -⟩
      · exact absurd hmn (hne (h.inUpper k₂ m hin₂).1)
      · rw [hk₁, hk₂]
  · rw [Function.update_apply]
    split_ifs
    · refine List.nodup_append.mpr ⟨h.nodup k, List.nodup_singleton n, fun m hm m' hm' => ?_⟩
      rw [List.mem_singleton.mp hm']
      exact hne (h.inUpper k m hm).1
    · exact h.nodup k'
  · rw [Function.update_apply]
    split_ifs
    · rw [List.length_append]
      exact hroom
    · exact h.upperCap k'
  · obtain ⟨hids, hdown⟩ := h.inLower b m hm
    exact ⟨Finset.mem_insert_of_mem hids, (hup hids).trans hdown⟩
  · rcases Finset.mem_insert.mp hm with rfl | hm
    · rw [Function.update_self] at hdown
      cases hdown
    · exact h.isDown m hm ((hup hm).symm.trans hdown)
  · rw [census_insert hn, census_congr fun m hm => hup hm, Function.update_self, if_pos rfl, h.tallyUp]
    rfl
  · rw [census_insert hn, census_congr fun m hm => hup hm, Function.update_self, if_neg (by simp)]
    exact h.tallyDown

end

variable [DecidableEq β]

/-- **The bucket that was counted** is entered. -/
theorem settle (h : Books cap most ids (some n) up refs upper lower nUp nDown) (hb : n ∉ lower b)
    (hroom : (lower b).card < cap) :
    Books cap most ids none up refs upper (Function.update lower b (insert n (lower b))) nUp nDown := by
  refine ⟨h.inUpper, h.isUp, h.once, h.nodup, h.upperCap, fun b' m hm => ?_, fun b' => ?_,
    fun m hm hdown => ?_, fun m hm => absurd hm (by simp), h.tallyUp, h.tallyDown⟩
  · rw [Function.update_apply] at hm
    split_ifs at hm with hb'
    · rcases Finset.mem_insert.mp hm with rfl | hm
      · exact h.isPending m rfl
      · exact h.inLower b m hm
    · exact h.inLower b' m hm
  · rw [Function.update_apply]
    split_ifs
    · exact (Finset.card_insert_le ..).trans hroom
    · exact h.lowerCap b'
  · obtain ⟨hrefs, hbounds⟩ := h.isDown m hm hdown
    refine ⟨?_, hbounds⟩
    rw [holders_insert hb, hrefs]
    by_cases hmn : m = n
    · subst hmn
      simp
    · simp [hmn, Ne.symm hmn]

/-- **An entry leaves a bucket**, and stays in others. -/
theorem leave (h : Books cap most ids pending up refs upper lower nUp nDown) (hb : n ∈ lower b)
    (hpending : pending ≠ some n) (hrefs : refs n ≠ 1) :
    Books cap most ids pending up (Function.update refs n (refs n - 1)) upper
      (Function.update lower b ((lower b).erase n)) nUp nDown := by
  obtain ⟨hn, hdown⟩ := h.inLower b n hb
  refine ⟨h.inUpper, fun m hm hup => ?_, h.once, h.nodup, h.upperCap, fun b' m hm => ?_, fun b' => ?_,
    fun m hm hmdown => ?_, h.isPending, h.tallyUp, h.tallyDown⟩
  · have hne : m ≠ n := fun heq => by
      rw [heq, hdown] at hup
      cases hup
    rw [Function.update_of_ne hne]
    exact h.isUp m hm hup
  · rw [Function.update_apply] at hm
    split_ifs at hm with hb'
    · exact h.inLower b m (Finset.mem_of_mem_erase hm)
    · exact h.inLower b' m hm
  · rw [Function.update_apply]
    split_ifs
    · exact (Finset.card_erase_le).trans (h.lowerCap b)
    · exact h.lowerCap b'
  · obtain ⟨hcount, hpos, hle⟩ := h.isDown m hm hmdown
    have hheld := holders_erase (m := m) hb
    by_cases hmn : m = n
    · subst hmn
      rw [if_pos rfl] at hheld
      rw [Function.update_self, if_neg hpending] at *
      omega
    · rw [if_neg hmn] at hheld
      rw [Function.update_of_ne hmn]
      omega

/-- **An entry leaves its last bucket**, and goes. -/
theorem drop (h : Books cap most ids pending up refs upper lower nUp nDown) (hb : n ∈ lower b)
    (hpending : pending ≠ some n) (hrefs : refs n = 1) :
    Books cap most (ids.erase n) pending up refs upper
      (Function.update lower b ((lower b).erase n)) nUp (nDown - 1) := by
  obtain ⟨hn, hdown⟩ := h.inLower b n hb
  obtain ⟨hcount, -⟩ := h.isDown n hn hdown
  have hheld := holders_erase (m := n) hb
  rw [if_pos rfl] at hheld
  have hup : ∀ {m}, up m = true → m ≠ n := fun hm heq => by
    rw [heq, hdown] at hm
    cases hm
  refine ⟨fun k m hm => ?_, fun m hm hmup => h.isUp m (Finset.mem_of_mem_erase hm) hmup, h.once,
    h.nodup, h.upperCap, fun b' m hm => ?_, fun b' => ?_, fun m hm hmdown => ?_, fun m hm => ?_, ?_, ?_⟩
  · obtain ⟨hids, hmup⟩ := h.inUpper k m hm
    exact ⟨Finset.mem_erase.mpr ⟨hup hmup, hids⟩, hmup⟩
  · have hkept : m ∈ lower b' := by
      rw [Function.update_apply] at hm
      split_ifs at hm with hb'
      · exact hb' ▸ Finset.mem_of_mem_erase hm
      · exact hm
    obtain ⟨hids, hmdown⟩ := h.inLower b' m hkept
    refine ⟨Finset.mem_erase.mpr ⟨fun heq => ?_, hids⟩, hmdown⟩
    -- it was in one bucket only
    subst heq
    have hpos := holders_pos hm
    rw [if_neg hpending] at hcount
    omega
  · rw [Function.update_apply]
    split_ifs
    · exact (Finset.card_erase_le).trans (h.lowerCap b)
    · exact h.lowerCap b'
  · obtain ⟨hne, hids⟩ := Finset.mem_erase.mp hm
    have hother := holders_erase (m := m) hb
    rw [if_neg hne, Nat.add_zero] at hother
    rw [hother]
    exact h.isDown m hids hmdown
  · obtain ⟨hids, hmdown⟩ := h.isPending m hm
    exact ⟨Finset.mem_erase.mpr ⟨fun heq => hpending (heq ▸ hm), hids⟩, hmdown⟩
  · have htally := census_erase up true hn
    rw [if_neg (by simp [hdown])] at htally
    rw [h.tallyUp]
    omega
  · have htally := census_erase up false hn
    rw [if_pos hdown] at htally
    rw [h.tallyDown]
    omega

variable [DecidableEq κ] {old : ι}

/-- **An entry that is up goes down**, to one bucket. -/
theorem sink (h : Books cap most ids none up refs upper lower nUp nDown) (hold : old ∈ upper k)
    (hroom : (lower b).card < cap) (hmost : 1 ≤ most) :
    Books cap most ids none (Function.update up old false) (Function.update refs old 1)
      (Function.update upper k ((upper k).erase old))
      (Function.update lower b (insert old (lower b))) (nUp - 1) (nDown + 1) := by
  obtain ⟨hids, hup⟩ := h.inUpper k old hold
  have hnone : ∀ b', old ∉ lower b' := fun b' hb' => by
    rw [(h.inLower b' old hb').2] at hup
    cases hup
  have hother : ∀ {m}, m ≠ old → Function.update up old false m = up m := fun hm =>
    Function.update_of_ne hm ..
  have hmem : ∀ {k' m}, m ∈ Function.update upper k ((upper k).erase old) k' ↔
      m ≠ old ∧ m ∈ upper k' := by
    intro k' m
    rw [Function.update_apply]
    split_ifs with hk
    · rw [hk, (h.nodup k).mem_erase_iff]
    · refine ⟨fun hm => ⟨fun heq => hk ?_, hm⟩, And.right⟩
      exact h.once k' k m hm (heq ▸ hold)
  have hrest : ∀ c, census (ids.erase old) (Function.update up old false) c =
      census (ids.erase old) up c := fun c =>
    census_congr fun m hm => hother (Finset.mem_erase.mp hm).1
  refine ⟨fun k' m hm => ?_, fun m hm hmup => ?_, fun k₁ k₂ m hm₁ hm₂ => ?_, fun k' => ?_,
    fun k' => ?_, fun b' m hm => ?_, fun b' => ?_, fun m hm hdown => ?_,
    fun m hm => absurd hm (by simp), ?_, ?_⟩
  · obtain ⟨hne, hm⟩ := hmem.mp hm
    rw [hother hne]
    exact h.inUpper k' m hm
  · have hne : m ≠ old := fun heq => by
      rw [heq, Function.update_self] at hmup
      cases hmup
    obtain ⟨hzero, k', hk'⟩ := h.isUp m hm ((hother hne).symm.trans hmup)
    rw [Function.update_of_ne hne]
    exact ⟨hzero, k', hmem.mpr ⟨hne, hk'⟩⟩
  · exact h.once k₁ k₂ m (hmem.mp hm₁).2 (hmem.mp hm₂).2
  · rw [Function.update_apply]
    split_ifs
    · exact (h.nodup k).erase old
    · exact h.nodup k'
  · rw [Function.update_apply]
    split_ifs
    · exact List.length_erase_le.trans (h.upperCap k)
    · exact h.upperCap k'
  · rw [Function.update_apply] at hm
    have hmove : m = old ∨ m ∈ lower b' := by
      split_ifs at hm with hb'
      · rw [hb']
        exact Finset.mem_insert.mp hm
      · exact Or.inr hm
    rcases hmove with rfl | hm
    · exact ⟨hids, Function.update_self ..⟩
    · obtain ⟨hm', hdown⟩ := h.inLower b' m hm
      exact ⟨hm', (hother fun heq => hnone b' (heq ▸ hm)).trans hdown⟩
  · rw [Function.update_apply]
    split_ifs
    · exact (Finset.card_insert_le ..).trans hroom
    · exact h.lowerCap b'
  · rw [holders_insert (hnone b)]
    by_cases hmn : m = old
    · subst hmn
      have hzero : holders lower m = 0 := by
        by_contra hne
        obtain ⟨b', hb'⟩ := Finset.card_pos.mp (Nat.pos_of_ne_zero hne)
        exact hnone b' (by simpa using hb')
      rw [Function.update_self, hzero]
      simpa using hmost
    · rw [Function.update_of_ne hmn, if_neg hmn]
      simpa using h.isDown m hm ((hother hmn).symm.trans hdown)
  · have hbefore := census_erase up true hids
    have hafter := census_erase (Function.update up old false) true hids
    rw [if_pos hup] at hbefore
    rw [hrest, Function.update_self, if_neg (by simp)] at hafter
    rw [h.tallyUp]
    omega
  · have hbefore := census_erase up false hids
    have hafter := census_erase (Function.update up old false) false hids
    rw [if_neg (by simp [hup])] at hbefore
    rw [hrest, Function.update_self, if_pos rfl] at hafter
    rw [h.tallyDown]
    omega

/-- **An entry from nowhere takes the place** of one that is up, which goes down. -/
theorem evict {p : Nat} (h : Books cap most ids none up refs upper lower nUp nDown) (hn : n ∉ ids)
    (hold : (upper k)[p]? = some old) (hroom : (lower b).card < cap) (hmost : 1 ≤ most)
    (hrefs : refs n = 0) :
    Books cap most (insert n ids) none (Function.update (Function.update up old false) n true)
      (Function.update refs old 1) (Function.update upper k ((upper k).set p n))
      (Function.update lower b (insert old (lower b))) nUp (nDown + 1) := by
  have hmem : old ∈ upper k := List.mem_of_getElem? hold
  obtain ⟨hp, hget⟩ := List.getElem?_eq_some_iff.mp hold
  have hne : n ≠ old := fun heq => hn (heq ▸ (h.inUpper k old hmem).1)
  have hsunk := h.sink hmem hroom hmost
  have hlength : (Function.update upper k ((upper k).erase old) k).length < cap := by
    rw [Function.update_self, List.length_erase_of_mem hmem]
    have := h.upperCap k
    omega
  have hplaced := hsunk.place hn hlength (by rw [Function.update_of_ne hne, hrefs])
  have hset : ((upper k).set p n).Perm (n :: (upper k).eraseIdx p) := List.set_perm_cons_eraseIdx hp n
  have hrest : ((upper k).eraseIdx p).Perm ((upper k).erase old) := by
    have hleft := List.getElem_cons_eraseIdx_perm hp
    rw [hget] at hleft
    exact (hleft.trans (List.perm_cons_erase hmem)).cons_inv
  rw [Function.update_self, Function.update_idem] at hplaced
  have hperm := hplaced.permute (k := k) (l := (upper k).set p n) (by
    rw [Function.update_self]
    exact hset.trans ((hrest.cons n).trans (List.perm_append_singleton n _).symm))
  rw [Function.update_idem, Int.sub_add_cancel] at hperm
  exact hperm

end Books

end Lib
