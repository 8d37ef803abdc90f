/-
# The address book

The wallet keeps names of addresses twice: in `mapAddressBook` under the destination, and in its
database under the text of the address.  A text has a colour; the order of the destinations has
none, so that the map holds one entry for a key, whatever colours it was named in, under the colour
that came first.

`addressBook_iff` says when the map is what the database will be read back as, with one entry for
every destination and colour that was named and not deleted: in every state of a run, exactly when
every step finds the key in the colour it is about.
-/
import Breakout.Lib.History
import Breakout.Addresses

namespace Breakout

open Lib

variable (K : Crypto) (fTestNet : Bool)

namespace Wallet

/-! ## 1. A map of destinations -/

/-- The destinations a `std::map` takes for one: neither comes before the other. -/
def equiv (a b : CTxDestination) : Bool := !a.lt b && !b.lt a

/-- Entries of a `std::map`. -/
abbrev DestMap := List (CTxDestination × String)

namespace DestMap

/-- `m[address] = strName`: an entry that is there keeps its key. -/
def assign (m : DestMap) (address : CTxDestination) (strName : String) : DestMap :=
  if m.any fun e => equiv e.1 address then
    m.map fun e => if equiv e.1 address then (e.1, strName) else e
  else m ++ [(address, strName)]

/-- `m.erase(address)` -/
def erase (m : DestMap) (address : CTxDestination) : DestMap :=
  m.filter fun e => !equiv e.1 address

end DestMap

/-! ## 2. The book -/

/-- The map, and the records "name" of the wallet database. -/
structure AddressBook where
  mapAddressBook : DestMap
  names : List (List Char × String)

namespace AddressBook

def writeName (names : List (List Char × String)) (strAddress : List Char) (strName : String) :
    List (List Char × String) :=
  names.filter (fun r => r.1 != strAddress) ++ [(strAddress, strName)]

def eraseName (names : List (List Char × String)) (strAddress : List Char) :
    List (List Char × String) :=
  names.filter fun r => r.1 != strAddress

def setAddressBookName (b : AddressBook) (address : CTxDestination) (nColor : Int32)
    (strName : String) : AddressBook where
  mapAddressBook := b.mapAddressBook.assign address strName
  names := writeName b.names (addressText K fTestNet address nColor) strName

def delAddressBookName (b : AddressBook) (address : CTxDestination) : AddressBook where
  mapAddressBook := b.mapAddressBook.erase address
  names := eraseName b.names (addressText K fTestNet address address.color)

/-- What `ReadKeyValue` makes of the records, in the order in which they are read. -/
def load (records : List (List Char × String)) : DestMap :=
  records.foldl (fun m r => m.assign (textAddress K fTestNet r.1) r.2) []

end AddressBook

/-- A call. -/
inductive AddressBookOp where
  | setAddressBookName (address : CTxDestination) (nColor : Int32) (strName : String)
  | delAddressBookName (address : CTxDestination)

/-- A book, with what was named in it and not deleted. -/
structure NamedBook extends AddressBook where
  named : CTxDestination → Option String

namespace NamedBook

def empty : NamedBook := ⟨⟨[], []⟩, fun _ => none⟩

/-- One call. -/
def step (s : NamedBook) : AddressBookOp → NamedBook
  | .setAddressBookName address nColor strName =>
    ⟨s.setAddressBookName K fTestNet address nColor strName,
      Function.update s.named (address.recolor nColor) (some strName)⟩
  | .delAddressBookName address =>
    ⟨s.delAddressBookName K fTestNet address, Function.update s.named address none⟩

/-- **The map is in step** with the database, whatever the order in which it is read, and with what
was named. -/
structure InStep (s : NamedBook) : Prop where
  loaded : ∀ records, records.Perm s.names →
    s.mapAddressBook.Perm (AddressBook.load K fTestNet records)
  once : (s.mapAddressBook.map Prod.fst).Nodup
  named : ∀ d strName, (d, strName) ∈ s.mapAddressBook ↔ s.named d = some strName

/-- **The key has the colour that the call is about**: what is named is a key or a script in a valid
colour, the entry that the map has for it, or will have, is in that colour; and what is deleted is.
-/
def ColorAgrees (s : NamedBook) : AddressBookOp → Prop
  | .setAddressBookName address nColor _ =>
    ((address.recolor nColor).Encodes ∨ address = .noDestination) ∧
      (∀ e ∈ s.mapAddressBook, equiv e.1 address = true → e.1 = address.recolor nColor) ∧
      ((∀ e ∈ s.mapAddressBook, equiv e.1 address = false) →
        address = address.recolor nColor ∧ ∀ e ∈ s.mapAddressBook, e.1 ≠ address)
  | .delAddressBookName address =>
    (∀ e ∈ s.mapAddressBook, equiv e.1 address = true → e.1 = address) ∧
      (¬ address.Encodes → ∀ e ∈ s.mapAddressBook, e.1 ≠ .noDestination)

end NamedBook

/-! ## 3. Destinations that are taken for one -/

@[simp] theorem equiv_noDestination (a : CTxDestination) : equiv .noDestination a = false := by
  cases a <;> simp [equiv, CTxDestination.lt, CTxDestination.which]

theorem equiv_comm (a b : CTxDestination) : equiv a b = equiv b a := Bool.and_comm ..

@[simp] theorem equiv_noDestination' (a : CTxDestination) : equiv a .noDestination = false := by
  rw [equiv_comm, equiv_noDestination]

/-- All but one are taken for themselves. -/
theorem equiv_self {a : CTxDestination} (h : a ≠ .noDestination) : equiv a a = true := by
  cases a with
  | noDestination => exact absurd rfl h
  | keyID => simp [equiv, CTxDestination.lt]
  | scriptID => simp [equiv, CTxDestination.lt]
  | stealth => simp [equiv, CTxDestination.lt]

/-- The colour is not looked at. -/
theorem equiv_recolor (a b : CTxDestination) (nColor : Int32) :
    equiv (a.recolor nColor) b = equiv a b := by
  cases a <;> cases b <;> rfl

theorem equiv_trans {a b c : CTxDestination} (h : equiv a b = true) (h' : equiv b c = true) :
    equiv a c = true := by
  cases a <;> cases b <;>
    simp [equiv, CTxDestination.lt, CTxDestination.which] at h <;>
    cases c <;> simp [equiv, CTxDestination.lt, CTxDestination.which] at h' ⊢
  · omega
  · omega
  · exact ⟨List.le_trans h'.1 h.1, List.le_trans h.2 h'.2⟩

namespace DestMap

variable {m : DestMap} {address d : CTxDestination} {strName name : String}

/-- No two keys are taken for one. -/
def Apart (m : DestMap) : Prop := m.Pairwise fun e e' => equiv e.1 e'.1 = false

variable {e : CTxDestination × String}

theorem Apart.eq_of_equiv (hm : m.Apart) {e' : CTxDestination × String} (he : e ∈ m) (he' : e' ∈ m)
    (h : equiv e.1 e'.1 = true) : e = e' := by
  by_contra hne
  have hsymm : Std.Symm fun e e' : CTxDestination × String => equiv e.1 e'.1 = false :=
    ⟨fun _ _ hab => (equiv_comm ..).trans hab⟩
  have hapart := List.Pairwise.forall hm he he' hne
  rw [h] at hapart
  cases hapart

theorem assign_of_mem (he : e ∈ m) (h : equiv e.1 address = true) :
    m.assign address strName = m.map fun e => if equiv e.1 address then (e.1, strName) else e := by
  rw [assign, if_pos (List.any_eq_true.mpr ⟨e, he, h⟩)]

theorem assign_of_forall (h : ∀ e ∈ m, equiv e.1 address = false) :
    m.assign address strName = m ++ [(address, strName)] := by
  rw [assign, if_neg]
  intro hany
  obtain ⟨e, he, hequiv⟩ := List.any_eq_true.mp hany
  rw [h e he] at hequiv
  cases hequiv

theorem exists_or_forall (m : DestMap) (address : CTxDestination) :
    (∃ e ∈ m, equiv e.1 address = true) ∨ ∀ e ∈ m, equiv e.1 address = false := by
  by_cases h : ∃ e ∈ m, equiv e.1 address = true
  · exact .inl h
  · exact .inr fun e he => Bool.eq_false_iff.mpr fun hequiv => h ⟨e, he, hequiv⟩

theorem mem_assign_of_mem (he : e ∈ m) (h : equiv e.1 address = true) :
    (d, name) ∈ m.assign address strName ↔
      (equiv d address = true ∧ name = strName ∧ ∃ n, (d, n) ∈ m) ∨
        (equiv d address = false ∧ (d, name) ∈ m) := by
  rw [assign_of_mem he h, List.mem_map]
  constructor
  · rintro ⟨e', he', heq⟩
    split at heq
    · next hequiv =>
      obtain ⟨rfl, rfl⟩ := Prod.mk.inj heq
      exact .inl ⟨hequiv, rfl, e'.2, he'⟩
    · next hnot =>
      subst heq
      exact .inr ⟨by simpa using hnot, he'⟩
  · rintro (⟨hequiv, rfl, n, hmem⟩ | ⟨hnot, hmem⟩)
    · exact ⟨(d, n), hmem, by simp [hequiv]⟩
    · exact ⟨(d, name), hmem, by simp [hnot]⟩

theorem map_fst_assign_of_mem (he : e ∈ m) (h : equiv e.1 address = true) :
    (m.assign address strName).map Prod.fst = m.map Prod.fst := by
  rw [assign_of_mem he h, List.map_map]
  refine List.map_congr_left fun e' _ => ?_
  rw [Function.comp_apply]
  split
  · rfl
  · rfl

theorem apart_iff : m.Apart ↔ (m.map Prod.fst).Pairwise fun a b => equiv a b = false := by
  rw [List.pairwise_map]
  rfl

theorem Apart.assign (hm : m.Apart) (address : CTxDestination) (strName : String) :
    (m.assign address strName).Apart := by
  rcases exists_or_forall m address with ⟨e, he, h⟩ | hnone
  · rw [apart_iff, map_fst_assign_of_mem he h, ← apart_iff]
    exact hm
  · rw [assign_of_forall hnone, Apart, List.pairwise_append]
    refine ⟨hm, List.pairwise_singleton .., fun e he e' he' => ?_⟩
    rw [List.mem_singleton.mp he']
    exact hnone e he

theorem Apart.erase (hm : m.Apart) (address : CTxDestination) : (m.erase address).Apart :=
  hm.filter _

theorem mem_erase : (d, name) ∈ m.erase address ↔ (d, name) ∈ m ∧ equiv d address = false := by
  rw [erase, List.mem_filter, Bool.not_eq_true']

end DestMap

/-! ## 4. Reading the database -/

namespace AddressBook

open DestMap

variable {K fTestNet} {l : List (List Char × String)} {d : CTxDestination} {name : String}

/-- The destinations are those of the texts. -/
theorem exists_of_mem_load (h : (d, name) ∈ load K fTestNet l) :
    ∃ r ∈ l, textAddress K fTestNet r.1 = d := by
  induction l using List.reverseRecOn generalizing name with
  | nil => cases h
  | append_singleton l r ih =>
    rw [load, List.foldl_append] at h
    change (d, name) ∈ (load K fTestNet l).assign (textAddress K fTestNet r.1) r.2 at h
    rcases exists_or_forall (load K fTestNet l) (textAddress K fTestNet r.1) with
      ⟨e, he, hequiv⟩ | hnone
    · rcases (mem_assign_of_mem he hequiv).mp h with ⟨-, -, n, hmem⟩ | ⟨-, hmem⟩
      · obtain ⟨r', hr', heq⟩ := ih hmem
        exact ⟨r', List.mem_append_left _ hr', heq⟩
      · obtain ⟨r', hr', heq⟩ := ih hmem
        exact ⟨r', List.mem_append_left _ hr', heq⟩
    · rw [assign_of_forall hnone] at h
      rcases List.mem_append.mp h with hmem | hmem
      · obtain ⟨r', hr', heq⟩ := ih hmem
        exact ⟨r', List.mem_append_left _ hr', heq⟩
      · have heq := congrArg Prod.fst (List.mem_singleton.mp hmem)
        exact ⟨r, List.mem_append_right _ (List.mem_singleton.mpr rfl), heq.symm⟩

/-- What is no destination is read as often as there are records of it. -/
theorem noDestination_mem_load :
    (.noDestination, name) ∈ load K fTestNet l ↔
      ∃ r ∈ l, textAddress K fTestNet r.1 = .noDestination ∧ r.2 = name := by
  induction l using List.reverseRecOn with
  | nil => simp [load]
  | append_singleton l r ih =>
    rw [load, List.foldl_append]
    change (_, name) ∈ (load K fTestNet l).assign (textAddress K fTestNet r.1) r.2 ↔ _
    rcases exists_or_forall (load K fTestNet l) (textAddress K fTestNet r.1) with
      ⟨e, he, hequiv⟩ | hnone
    · have hsome : textAddress K fTestNet r.1 ≠ .noDestination := by
        intro heq
        rw [heq, equiv_noDestination'] at hequiv
        cases hequiv
      rw [mem_assign_of_mem he hequiv]
      simp [ih, hsome]
    · rw [assign_of_forall hnone, List.mem_append, ih]
      simp [or_and_right, exists_or, eq_comm]

/-- Records of destinations that are not taken for one are read as they are. -/
theorem load_of_apart
    (h : l.Pairwise fun r r' => equiv (textAddress K fTestNet r.1) (textAddress K fTestNet r'.1) =
      false) :
    load K fTestNet l = l.map fun r => (textAddress K fTestNet r.1, r.2) := by
  induction l using List.reverseRecOn with
  | nil => rfl
  | append_singleton l r ih =>
    obtain ⟨hl, -, hr⟩ := List.pairwise_append.mp h
    rw [load, List.foldl_append]
    change (load K fTestNet l).assign (textAddress K fTestNet r.1) r.2 = _
    rw [ih hl, assign_of_forall, List.map_append]
    · rfl
    · intro e he
      obtain ⟨r', hr', rfl⟩ := List.mem_map.mp he
      exact hr r' hr' r (List.mem_singleton.mpr rfl)

end AddressBook

/-! ## 5. What is always so -/

namespace NamedBook

open DestMap AddressBook

variable {K fTestNet} {s : NamedBook} {address d : CTxDestination} {nColor : Int32}
  {strName name : String}

/-- The text of a destination in its own colour. -/
def textOf (K : Crypto) (fTestNet : Bool) (d : CTxDestination) : List Char :=
  addressText K fTestNet d d.color

theorem addressText_eq (address : CTxDestination) (nColor : Int32) :
    addressText K fTestNet address nColor = textOf K fTestNet (address.recolor nColor) := by
  cases address with
  | noDestination =>
    exact (addressText_of_not_encodes id).trans (addressText_of_not_encodes id).symm
  | stealth => exact (addressText_of_not_encodes id).trans (addressText_of_not_encodes id).symm
  | keyID => rfl
  | scriptID => rfl

theorem recolor_color (d : CTxDestination) : d.recolor d.color = d := by cases d <;> rfl

theorem textAddress_textOf (h : d.Encodes) :
    textAddress K fTestNet (textOf K fTestNet d) = d := by
  have hback : textAddress K fTestNet (addressText K fTestNet d d.color) = d.recolor d.color :=
    textAddress_addressText (by rwa [recolor_color])
  rwa [recolor_color] at hback

theorem textOf_of_not (h : ¬ d.Encodes) : textOf K fTestNet d = notValid :=
  addressText_of_not_encodes (by rwa [recolor_color])

theorem CTxDestination.Encodes.ne (h : d.Encodes) : d ≠ .noDestination := by
  rintro rfl
  exact h

theorem textOf_ne (h : d.Encodes) : textOf K fTestNet d ≠ notValid := by
  intro heq
  have hback : textAddress K fTestNet (textOf K fTestNet d) = d := textAddress_textOf h
  rw [heq, textAddress_notValid] at hback
  exact CTxDestination.Encodes.ne h hback.symm

theorem textOf_inj {d' : CTxDestination} (h : d.Encodes) (h' : d'.Encodes) :
    textOf K fTestNet d = textOf K fTestNet d' ↔ d = d' := by
  refine ⟨fun heq => ?_, fun heq => heq ▸ rfl⟩
  have hback : textAddress K fTestNet (textOf K fTestNet d) = d := textAddress_textOf h
  rw [← hback, heq, textAddress_textOf h']

/-- What holds of the two stores in every state of a run. -/
structure Kept (K : Crypto) (fTestNet : Bool) (s : NamedBook) : Prop where
  apart : DestMap.Apart s.mapAddressBook
  once : (s.names.map Prod.fst).Nodup
  encoded : ∀ d name, d.Encodes → ((textOf K fTestNet d, name) ∈ s.names ↔ s.named d = some name)
  text : ∀ r ∈ s.names, r.1 = notValid ∨ ∃ d : CTxDestination, d.Encodes ∧ r.1 = textOf K fTestNet d

variable {names : List (List Char × String)} {t t' : List Char} {r : List Char × String}

theorem mem_writeName :
    (t', name) ∈ writeName names t strName ↔
      (t' = t ∧ name = strName) ∨ (t' ≠ t ∧ (t', name) ∈ names) := by
  rw [writeName, List.mem_append, List.mem_filter, List.mem_singleton, Prod.mk.injEq, bne_iff_ne,
    or_comm, and_comm (b := t' ≠ t)]

theorem mem_eraseName :
    (t', name) ∈ eraseName names t ↔ t' ≠ t ∧ (t', name) ∈ names := by
  rw [eraseName, List.mem_filter, bne_iff_ne, and_comm]

theorem nodup_eraseName (h : (names.map Prod.fst).Nodup) (t : List Char) :
    ((eraseName names t).map Prod.fst).Nodup :=
  h.sublist (List.filter_sublist.map _)

theorem nodup_writeName (h : (names.map Prod.fst).Nodup) (t : List Char) :
    ((writeName names t strName).map Prod.fst).Nodup := by
  rw [writeName, List.map_append]
  refine List.nodup_append.mpr ⟨nodup_eraseName h t, List.nodup_singleton _, ?_⟩
  intro t' hin t'' hin' heq
  obtain ⟨r, hr, rfl⟩ := List.mem_map.mp hin
  rw [List.mem_singleton.mp hin'] at heq
  have hne := (List.mem_filter.mp hr).2
  rw [heq] at hne
  simp at hne

/-- A text that is written is one of those there can be. -/
theorem textOf_cases (d : CTxDestination) :
    textOf K fTestNet d = notValid ∨
      ∃ d' : CTxDestination, d'.Encodes ∧ textOf K fTestNet d = textOf K fTestNet d' := by
  by_cases h : d.Encodes
  · exact .inr ⟨d, h, rfl⟩
  · exact .inl (textOf_of_not h)

theorem Kept.step (h : s.Kept K fTestNet) (op : AddressBookOp) :
    (s.step K fTestNet op).Kept K fTestNet := by
  cases op with
  | setAddressBookName address nColor strName =>
    refine ⟨h.apart.assign .., ?_, fun d name hd => ?_, fun r hr => ?_⟩
    · exact nodup_writeName h.once _
    · change (_, _) ∈ writeName s.names (addressText K fTestNet address nColor) strName ↔ _
      rw [addressText_eq, mem_writeName, h.encoded d name hd]
      change _ ↔ Function.update s.named (address.recolor nColor) (some strName) d = some name
      by_cases heq : d = address.recolor nColor
      · subst heq
        simp [eq_comm]
      · have htext : textOf K fTestNet d ≠ textOf K fTestNet (address.recolor nColor) := by
          by_cases hrec : (address.recolor nColor).Encodes
          · rwa [Ne, textOf_inj hd hrec]
          · rw [textOf_of_not hrec]
            exact textOf_ne hd
        simp [htext, Function.update_of_ne heq]
    · change r ∈ writeName s.names (addressText K fTestNet address nColor) strName at hr
      rw [addressText_eq] at hr
      obtain ⟨t, n⟩ := r
      rcases mem_writeName.mp hr with ⟨rfl, -⟩ | ⟨-, hr⟩
      · exact textOf_cases _
      · exact h.text _ hr
  | delAddressBookName address =>
    refine ⟨h.apart.erase _, ?_, fun d name hd => ?_, fun r hr => ?_⟩
    · exact nodup_eraseName h.once _
    · change (_, _) ∈ eraseName s.names (textOf K fTestNet address) ↔ _
      rw [mem_eraseName, h.encoded d name hd]
      change _ ↔ Function.update s.named address none d = some name
      by_cases heq : d = address
      · subst heq
        simp
      · have htext : textOf K fTestNet d ≠ textOf K fTestNet address := by
          by_cases hrec : address.Encodes
          · rwa [Ne, textOf_inj hd hrec]
          · rw [textOf_of_not hrec]
            exact textOf_ne hd
        simp [htext, Function.update_of_ne heq]
    · exact h.text r (List.mem_filter.mp hr).1

/-! ## 6. Being in step, in terms of what was named -/

/-- What being in step comes to. -/
structure Matches (s : NamedBook) : Prop where
  named : ∀ d name, (d, name) ∈ s.mapAddressBook ↔ s.named d = some name
  notValid : ∀ name, (Wallet.notValid, name) ∈ s.names ↔ s.named .noDestination = some name
  encodes : ∀ d name, s.named d = some name → d.Encodes ∨ d = .noDestination
  once : (s.mapAddressBook.map Prod.fst).Nodup

/-- The destination that a record is read as. -/
theorem Kept.textAddress_of_mem (h : s.Kept K fTestNet) (hr : r ∈ s.names) :
    (r.1 = notValid ∧ textAddress K fTestNet r.1 = .noDestination) ∨
      (textAddress K fTestNet r.1).Encodes ∧
        r.1 = textOf K fTestNet (textAddress K fTestNet r.1) := by
  rcases h.text r hr with heq | ⟨d, hd, heq⟩
  · exact .inl ⟨heq, by rw [heq, textAddress_notValid]⟩
  · rw [heq, textAddress_textOf hd]
    exact .inr ⟨hd, rfl⟩

/-- A record is of something that was named. -/
theorem Kept.named_of_mem (h : s.Kept K fTestNet) (hm : s.Matches) (hr : r ∈ s.names) :
    s.named (textAddress K fTestNet r.1) = some r.2 := by
  obtain ⟨t, name⟩ := r
  rcases h.textAddress_of_mem hr with ⟨heq, hdest⟩ | ⟨hd, heq⟩
  · dsimp only at heq hdest ⊢
    rw [hdest, ← hm.notValid, ← heq]
    exact hr
  · dsimp only at heq hd ⊢
    rw [← h.encoded _ _ hd, ← heq]
    exact hr

theorem Kept.exists_record (h : s.Kept K fTestNet) (hm : s.Matches) :
    (∃ r ∈ s.names, textAddress K fTestNet r.1 = d ∧ r.2 = name) ↔ s.named d = some name := by
  constructor
  · rintro ⟨r, hr, rfl, rfl⟩
    exact h.named_of_mem hm hr
  · intro hnamed
    rcases hm.encodes d name hnamed with hd | rfl
    · exact ⟨_, (h.encoded d name hd).mpr hnamed, textAddress_textOf hd, rfl⟩
    · exact ⟨_, (hm.notValid name).mpr hnamed, textAddress_notValid, rfl⟩

/-- No two records are read as one entry. -/
theorem Kept.records_apart (h : s.Kept K fTestNet) (hm : s.Matches) :
    s.names.Pairwise fun r r' =>
      equiv (textAddress K fTestNet r.1) (textAddress K fTestNet r'.1) = false := by
  have honce : s.names.Pairwise fun r r' => r.1 ≠ r'.1 := List.pairwise_map.mp h.once
  refine honce.imp_of_mem fun {r r'} hr hr' hne => ?_
  by_contra hequiv
  rw [Bool.not_eq_false] at hequiv
  have hmem := (hm.named _ _).mpr (h.named_of_mem hm hr)
  have hmem' := (hm.named _ _).mpr (h.named_of_mem hm hr')
  have heq := congrArg Prod.fst (h.apart.eq_of_equiv hmem hmem' hequiv)
  dsimp only at heq
  refine hne ?_
  rcases h.textAddress_of_mem hr with ⟨hr, hd⟩ | ⟨hd, hr⟩
  · rw [hd, equiv_noDestination] at hequiv
    cases hequiv
  · rcases h.textAddress_of_mem hr' with ⟨hr', hd'⟩ | ⟨hd', hr'⟩
    · rw [hd', equiv_noDestination'] at hequiv
      cases hequiv
    · rw [hr, hr', heq]

theorem Matches.nodup (h : s.Matches) : s.mapAddressBook.Nodup := h.once.of_map _

/-- **When the map is in step.** -/
theorem Kept.inStep_iff (h : s.Kept K fTestNet) : s.InStep K fTestNet ↔ s.Matches := by
  constructor
  · intro hin
    have hmem : ∀ d name, (d, name) ∈ load K fTestNet s.names ↔ s.named d = some name := by
      intro d name
      rw [← hin.named, (hin.loaded s.names (List.Perm.refl _)).mem_iff]
    refine ⟨hin.named, fun name => ?_, fun d name hnamed => ?_, hin.once⟩
    · rw [← hmem, noDestination_mem_load]
      constructor
      · exact fun hr => ⟨_, hr, textAddress_notValid, rfl⟩
      · rintro ⟨⟨t, n⟩, hr, hdest, rfl⟩
        rcases h.textAddress_of_mem hr with ⟨heq, -⟩ | ⟨hd, -⟩
        · rwa [← heq]
        · rw [hdest] at hd
          exact hd.elim
    · obtain ⟨r, hr, rfl⟩ := exists_of_mem_load ((hmem d name).mpr hnamed)
      rcases h.textAddress_of_mem hr with ⟨-, hd⟩ | ⟨hd, -⟩
      · exact .inr hd
      · exact .inl hd
  · intro hm
    refine ⟨fun records hperm => ?_, hm.once, hm.named⟩
    have hsymm : Std.Symm fun r r' : List Char × String =>
        equiv (textAddress K fTestNet r.1) (textAddress K fTestNet r'.1) = false :=
      ⟨fun _ _ hab => (equiv_comm ..).trans hab⟩
    have hapart := (h.records_apart hm).perm hperm.symm fun hab => (equiv_comm ..).trans hab
    have honce : (records.map fun r => (textAddress K fTestNet r.1, r.2)).Nodup := by
      have hrecords : records.Nodup := (hperm.nodup_iff).mpr (h.once.of_map _)
      refine (List.nodup_map_iff_inj_on hrecords).mpr fun r hr r' hr' heq => ?_
      by_contra hne
      have hnot := List.Pairwise.forall hapart hr hr' hne
      obtain ⟨hdest, hname⟩ := Prod.mk.inj heq
      rw [hdest] at hnot
      rcases h.textAddress_of_mem (hperm.mem_iff.mp hr) with ⟨ht, hd⟩ | ⟨hd, ht⟩
      · rcases h.textAddress_of_mem (hperm.mem_iff.mp hr') with ⟨ht', -⟩ | ⟨hd', -⟩
        · exact hne (Prod.ext (ht.trans ht'.symm) hname)
        · rw [← hdest, hd] at hd'
          exact hd'.elim
      · rw [equiv_self (hdest ▸ CTxDestination.Encodes.ne hd)] at hnot
        cases hnot
    rw [load_of_apart hapart, List.perm_ext_iff_of_nodup hm.nodup honce]
    rintro ⟨d, name⟩
    rw [hm.named, ← h.exists_record hm, List.mem_map]
    simp only [Prod.mk.injEq, hperm.mem_iff]

/-! ## 7. One call -/

theorem named_set : (s.step K fTestNet (.setAddressBookName address nColor strName)).named =
    Function.update s.named (address.recolor nColor) (some strName) := rfl

theorem mapAddressBook_set :
    (s.step K fTestNet (.setAddressBookName address nColor strName)).mapAddressBook =
      DestMap.assign s.mapAddressBook address strName := rfl

theorem names_set : (s.step K fTestNet (.setAddressBookName address nColor strName)).names =
    writeName s.names (textOf K fTestNet (address.recolor nColor)) strName := by
  rw [← addressText_eq]
  rfl

/-- The colour of a key does not tell it from itself. -/
theorem equiv_recolor_self (h : address ≠ .noDestination) :
    equiv (address.recolor nColor) address = true := by
  rw [equiv_recolor]
  exact equiv_self h

/-- **When a name is set in step.** -/
theorem Matches.set_iff (hk : s.Kept K fTestNet) (hm : s.Matches) :
    (s.step K fTestNet (.setAddressBookName address nColor strName)).Matches ↔
      s.ColorAgrees (.setAddressBookName address nColor strName) := by
  have hnew : (s.step K fTestNet (.setAddressBookName address nColor strName)).named
      (address.recolor nColor) = some strName := by
    rw [named_set, Function.update_self]
  constructor
  · intro hm'
    have hin := (hm'.named _ _).mpr hnew
    rw [mapAddressBook_set] at hin
    have hencodes := hm'.encodes _ _ hnew
    refine ⟨?_, fun e he hequiv => ?_, fun hnone => ?_⟩
    · refine hencodes.imp_right fun hno => ?_
      cases address with
      | noDestination => rfl
      | keyID => cases hno
      | scriptID => cases hno
      | stealth => cases hno
    · have hsome : address ≠ .noDestination := by
        rintro rfl
        rw [equiv_noDestination'] at hequiv
        cases hequiv
      rcases (mem_assign_of_mem he hequiv).mp hin with ⟨hself, -, n, hmem⟩ | ⟨hnot, -⟩
      · have hsame := equiv_trans hequiv ((equiv_comm ..).trans hself)
        exact congrArg Prod.fst (hk.apart.eq_of_equiv he hmem hsame)
      · rw [equiv_recolor_self hsome] at hnot
        cases hnot
    · have honce := hm'.once
      rw [mapAddressBook_set, assign_of_forall hnone] at honce
      rw [assign_of_forall hnone] at hin
      have hfresh : ∀ e ∈ s.mapAddressBook, e.1 ≠ address := by
        intro e he heq
        rw [List.map_append] at honce
        exact (List.nodup_append.mp honce).2.2 _ (List.mem_map_of_mem he) _
          (List.mem_singleton.mpr rfl) heq
      refine ⟨?_, hfresh⟩
      rcases List.mem_append.mp hin with hmem | hmem
      · have hnot := hnone _ hmem
        by_cases hsome : address = .noDestination
        · rw [hsome]
          rfl
        · rw [equiv_recolor_self hsome] at hnot
          cases hnot
      · exact (congrArg Prod.fst (List.mem_singleton.mp hmem)).symm
  · rintro ⟨hvalid, hhas, hwill⟩
    have hencodes : ∀ d name, Function.update s.named (address.recolor nColor) (some strName) d =
        some name → d.Encodes ∨ d = .noDestination := by
      intro d name hnamed
      by_cases heq : d = address.recolor nColor
      · rw [heq]
        refine hvalid.imp_right ?_
        rintro rfl
        rfl
      · rw [Function.update_of_ne heq] at hnamed
        exact hm.encodes d name hnamed
    have htext : ∀ name, (Wallet.notValid, name) ∈
        writeName s.names (textOf K fTestNet (address.recolor nColor)) strName ↔
          Function.update s.named (address.recolor nColor) (some strName) .noDestination =
            some name := by
      intro name
      rw [mem_writeName]
      by_cases hrec : (address.recolor nColor).Encodes
      · rw [Function.update_of_ne (CTxDestination.Encodes.ne hrec).symm, ← hm.notValid]
        have hne : Wallet.notValid ≠ textOf K fTestNet (address.recolor nColor) :=
          (textOf_ne hrec).symm
        simp [hne]
      · obtain rfl := hvalid.resolve_left hrec
        rw [textOf_of_not hrec]
        simp [CTxDestination.recolor, eq_comm]
    rcases exists_or_forall s.mapAddressBook address with ⟨e, he, hequiv⟩ | hnone
    · -- the key is there, in the colour that is named
      have hkey := hhas e he hequiv
      have hself : equiv (address.recolor nColor) address = true := hkey ▸ hequiv
      refine ⟨fun d name => ?_, fun name => ?_, hencodes, ?_⟩
      · rw [mapAddressBook_set, named_set, mem_assign_of_mem he hequiv]
        by_cases heq : d = address.recolor nColor
        · subst heq
          have hthere : ∃ n, (address.recolor nColor, n) ∈ s.mapAddressBook := ⟨e.2, hkey ▸ he⟩
          simp [hself, hthere, eq_comm]
        · rw [Function.update_of_ne heq, ← hm.named]
          constructor
          · rintro (⟨hd, -, n, hmem⟩ | ⟨-, hmem⟩)
            · exact absurd (hhas _ hmem hd) heq
            · exact hmem
          · intro hmem
            refine .inr ⟨Bool.eq_false_iff.mpr fun hd => heq (hhas _ hmem hd), hmem⟩
      · rw [names_set, named_set]
        exact htext name
      · rw [mapAddressBook_set, map_fst_assign_of_mem he hequiv]
        exact hm.once
    · -- the key is new
      obtain ⟨hkey, hfresh⟩ := hwill hnone
      refine ⟨fun d name => ?_, fun name => ?_, hencodes, ?_⟩
      · rw [mapAddressBook_set, named_set, assign_of_forall hnone, ← hkey, List.mem_append,
          List.mem_singleton, Prod.mk.injEq]
        by_cases heq : d = address
        · subst heq
          have hnot : (d, name) ∉ s.mapAddressBook := fun hmem => hfresh _ hmem rfl
          simp [hnot, eq_comm]
        · rw [Function.update_of_ne heq, hm.named]
          simp [heq]
      · rw [names_set, named_set]
        exact htext name
      · rw [mapAddressBook_set, assign_of_forall hnone, List.map_append]
        refine List.nodup_append.mpr ⟨hm.once, List.nodup_singleton _, ?_⟩
        intro d hin d' hin' heq
        obtain ⟨e, he, rfl⟩ := List.mem_map.mp hin
        rw [List.mem_singleton.mp hin'] at heq
        exact hfresh e he heq

/-- **When a name is deleted in step.** -/
theorem Matches.del_iff (hm : s.Matches) :
    (s.step K fTestNet (.delAddressBookName address)).Matches ↔
      s.ColorAgrees (.delAddressBookName address) := by
  have hmap : (s.step K fTestNet (.delAddressBookName address)).mapAddressBook =
    DestMap.erase s.mapAddressBook address := rfl
  have hnames : (s.step K fTestNet (.delAddressBookName address)).names =
    eraseName s.names (textOf K fTestNet address) := rfl
  have hnamed : (s.step K fTestNet (.delAddressBookName address)).named =
    Function.update s.named address none := rfl
  constructor
  · intro hm'
    have hgone : ∀ d name, (d, name) ∈ s.mapAddressBook → equiv d address = true → d = address := by
      intro d name hmem hequiv
      by_contra hne
      have hstays : (s.step K fTestNet (.delAddressBookName address)).named d = some name := by
        rw [hnamed, Function.update_of_ne hne, ← hm.named]
        exact hmem
      have hnot := (mem_erase.mp (hmap ▸ (hm'.named _ _).mpr hstays)).2
      rw [hequiv] at hnot
      cases hnot
    refine ⟨fun e he hequiv => hgone e.1 e.2 he hequiv, fun hinvalid e he heq => ?_⟩
    -- the record of no destination is erased, and the entry is not
    have hmem : (.noDestination, e.2) ∈ s.mapAddressBook := heq ▸ he
    have hstays := (hm'.named .noDestination e.2).mp (by
      rw [hmap, mem_erase]
      exact ⟨hmem, equiv_noDestination _⟩)
    have hrecord := (hm'.notValid e.2).mpr hstays
    rw [hnames, mem_eraseName, textOf_of_not hinvalid] at hrecord
    exact hrecord.1 rfl
  · rintro ⟨hhas, hinvalid⟩
    refine ⟨fun d name => ?_, fun name => ?_, fun d name hd => ?_, ?_⟩
    · rw [hmap, hnamed, mem_erase]
      by_cases heq : d = address
      · subst heq
        rw [Function.update_self]
        refine ⟨fun ⟨hmem, hnot⟩ => ?_, nofun⟩
        by_cases hsome : d = .noDestination
        · subst hsome
          exact absurd rfl (hinvalid id _ hmem)
        · rw [equiv_self hsome] at hnot
          cases hnot
      · rw [Function.update_of_ne heq, ← hm.named]
        refine ⟨And.left, fun hmem => ⟨hmem, Bool.eq_false_iff.mpr fun hequiv => ?_⟩⟩
        exact heq (hhas _ hmem hequiv)
    · rw [hnames, hnamed, mem_eraseName, hm.notValid]
      by_cases hvalid : address.Encodes
      · rw [Function.update_of_ne (CTxDestination.Encodes.ne hvalid).symm]
        exact and_iff_right (textOf_ne hvalid).symm
      · rw [textOf_of_not hvalid]
        refine ⟨fun h => absurd rfl h.1, fun h => ?_⟩
        have hnot : s.named .noDestination = some name := by
          by_cases heq : address = .noDestination
          · rw [heq, Function.update_self] at h
            cases h
          · rwa [Function.update_of_ne (Ne.symm heq)] at h
        exact absurd rfl (hinvalid hvalid _ ((hm.named _ _).mpr hnot))
    · rw [hnamed] at hd
      by_cases heq : d = address
      · rw [heq, Function.update_self] at hd
        cases hd
      · rw [Function.update_of_ne heq] at hd
        exact hm.encodes d name hd
    · rw [hmap]
      exact hm.once.sublist (List.filter_sublist.map _)

/-! ## 8. Runs -/

theorem kept_empty : empty.Kept K fTestNet :=
  ⟨List.Pairwise.nil, List.nodup_nil, fun _ _ _ => by simp [empty], nofun⟩

theorem matches_empty : empty.Matches :=
  ⟨fun _ _ => by simp [empty], fun _ => by simp [empty], nofun, List.nodup_nil⟩

/-- The book after these calls. -/
def run (K : Crypto) (fTestNet : Bool) (ops : List AddressBookOp) : NamedBook :=
  ops.foldl (step K fTestNet) empty

/-- **When the address book is in step with its database**: after every part of a sequence of calls
the map is what the database is read back as, with one entry for every destination and colour that
was named and not deleted, exactly when every call is about the colour that the map has the key in.
-/
theorem addressBook_iff (ops : List AddressBookOp) :
    (∀ ops', ops' <+: ops → (run K fTestNet ops').InStep K fTestNet) ↔
      ∀ ops' op, ops' ++ [op] <+: ops → (run K fTestNet ops').ColorAgrees op := by
  refine everywhere_iff (J := Kept K fTestNet) kept_empty
    (kept_empty.inStep_iff.mpr matches_empty) (fun s op hk _ => hk.step op)
    (fun s op hk hin => ?_) ops
  rw [(hk.step op).inStep_iff]
  cases op with
  | setAddressBookName address nColor strName => exact Matches.set_iff hk (hk.inStep_iff.mp hin)
  | delAddressBookName address => exact Matches.del_iff (hk.inStep_iff.mp hin)

/-- A key named in BRX and then in BRK. -/
def twoColors : List AddressBookOp :=
  [.setAddressBookName (.keyID 7 Color.brx.toInt32) Color.brx.toInt32 "a",
    .setAddressBookName (.keyID 7 Color.brk.toInt32) Color.brk.toInt32 "b"]

/-- **One entry for two colours**: the map has the key in BRX only, under the name it was given in
BRK; and when it is deleted in BRK, the map is empty, while its record in BRX stays. -/
theorem one_entry_for_two :
    (run forkCrypto false twoColors).mapAddressBook = [(.keyID 7 Color.brx.toInt32, "b")] ∧
      ¬ (run forkCrypto false twoColors).InStep forkCrypto false ∧
      (run forkCrypto false
        (twoColors ++ [.delAddressBookName (.keyID 7 Color.brk.toInt32)])).mapAddressBook = [] ∧
      (run forkCrypto false
        (twoColors ++ [.delAddressBookName (.keyID 7 Color.brk.toInt32)])).named
          (.keyID 7 Color.brx.toInt32) = some "a" := by
  have hmap : (run forkCrypto false twoColors).mapAddressBook =
      [(.keyID 7 Color.brx.toInt32, "b")] := rfl
  refine ⟨hmap, fun h => ?_, rfl, rfl⟩
  have hin := (h.named (.keyID 7 Color.brk.toInt32) "b").mpr rfl
  rw [hmap] at hin
  exact absurd hin (by decide)

end NamedBook

end Wallet

end Breakout
