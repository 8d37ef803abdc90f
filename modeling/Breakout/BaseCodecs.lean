/-
# Base 64 and base 32

The two encoders and the two decoders are one machine each, with other tables: a switch over the
bits that are left, and at the end a last digit and its padding.  A decoder ends at the first
character that is no digit and then asks, in most of its modes, for the padding that belongs there
and for no digit after it.  In the mode of a whole number of groups it asks for nothing.

So a text of digits and `'='`s that passes is the text the encoder writes, in small letters for base
32, with the `'='`s the encoder has and possibly more (`codecs_read_back`): `"AAAA="` passes.
-/
import Breakout.Lib.Repack
import Breakout.Transaction

namespace Breakout

open Lib

/-! ## 1. Base 32 -/

def pbase32 : List Char := "abcdefghijklmnopqrstuvwxyz234567".toList

/-- The digits `EncodeBase32` writes for a byte, its next mode, and the bits it has left. -/
def encodeStep (mode left enc : Nat) : List Nat × Nat × Nat :=
  match mode with
  | 0 => ([enc >>> 3], 1, (enc &&& 7) <<< 2)
  | 1 => ([left ||| enc >>> 6, (enc >>> 1) &&& 31], 2, (enc &&& 1) <<< 4)
  | 2 => ([left ||| enc >>> 4], 3, (enc &&& 15) <<< 1)
  | 3 => ([left ||| enc >>> 7, (enc >>> 2) &&& 31], 4, (enc &&& 3) <<< 3)
  | _ => ([left ||| enc >>> 5, enc &&& 31], 0, left)

def nPadding (mode : Nat) : Nat := [0, 6, 4, 3, 1].getD mode 0

/-- The loop of `EncodeBase32`. -/
def encodeLoop (mode left : Nat) : Valtype → List Char
  | [] => if mode = 0 then [] else pbase32.getD left 'a' :: List.replicate (nPadding mode) '='
  | b :: bs =>
    match encodeStep mode left b.toNat with
    | (digits, mode, left) => digits.map (pbase32.getD · 'a') ++ encodeLoop mode left bs

def encodeBase32 (pch : Valtype) : List Char := encodeLoop 0 0 pch

/-- `decode32_table` -/
def decode32 (c : Char) : Option Nat :=
  if '2' ≤ c ∧ c ≤ '7' then some (c.toNat - 24)
  else if 'A' ≤ c ∧ c ≤ 'Z' then some (c.toNat - 65)
  else if 'a' ≤ c ∧ c ≤ 'z' then some (c.toNat - 97)
  else none

/-- The byte `DecodeBase32` has after a digit, if any, its next mode, and the bits it keeps. -/
def decodeStep (mode left dec : Nat) : List Nat × Nat × Nat :=
  match mode with
  | 0 => ([], 1, dec)
  | 1 => ([left <<< 3 ||| dec >>> 2], 2, dec &&& 3)
  | 2 => ([], 3, left <<< 5 ||| dec)
  | 3 => ([left <<< 1 ||| dec >>> 4], 4, dec &&& 15)
  | 4 => ([left <<< 4 ||| dec >>> 1], 5, dec &&& 1)
  | 5 => ([], 6, left <<< 5 ||| dec)
  | 6 => ([left <<< 2 ||| dec >>> 3], 7, dec &&& 7)
  | _ => ([left <<< 5 ||| dec], 0, left)

/-- The loop of `DecodeBase32`: it ends at what is no digit. -/
def decodeLoop (mode left : Nat) : List Char → Valtype
  | [] => []
  | c :: cs =>
    match decode32 c with
    | none => []
    | some dec =>
      match decodeStep mode left dec with
      | (bytes, mode, left) => bytes.map UInt8.ofNat ++ decodeLoop mode left cs

def decodeBase32 (p : List Char) : Valtype := decodeLoop 0 0 p

/-! ## 2. The machines -/

/-- What the two codecs differ in. -/
structure Codec where
  /-- The bits of a digit. -/
  width : Nat
  /-- `pbase64`, `pbase32` -/
  alphabet : List Char
  /-- The switch of the encoder. -/
  encodeStep : RepackStep
  /-- The `'='`s after a last digit that is not full. -/
  nPadding : Nat → Nat
  /-- `decode64_table`, `decode32_table` -/
  table : Char → Option Nat
  /-- The switch of the decoder. -/
  decodeStep : RepackStep
  /-- The `'='`s the decoder wants in a mode, or that no text ends there. -/
  required : Nat → Option Nat

namespace Codec

/-- The loop of an encoder. -/
def encodeLoop (C : Codec) (mode left : Nat) : Valtype → List Char
  | [] => if mode = 0 then [] else C.alphabet.getD left 'a' :: List.replicate (C.nPadding mode) '='
  | b :: bs =>
    match C.encodeStep mode left b.toNat with
    | (digits, mode, left) => digits.map (C.alphabet.getD · 'a') ++ C.encodeLoop mode left bs

/-- `EncodeBase64`, `EncodeBase32` -/
def encode (C : Codec) (pch : Valtype) : List Char := C.encodeLoop 0 0 pch

/-- The loop of a decoder: the bytes, the mode it ends in, what it has left, and the rest of the
text. -/
def decodeLoop (C : Codec) (mode left : Nat) : List Char → Valtype × Nat × Nat × List Char
  | [] => ([], mode, left, [])
  | c :: cs =>
    match C.table c with
    | none => ([], mode, left, c :: cs)
    | some dec =>
      match C.decodeStep mode left dec with
      | (bytes, mode, left) =>
        match C.decodeLoop mode left cs with
        | (vchRet, last) => (bytes.map UInt8.ofNat ++ vchRet, last)

/-- `p[i]`, of a text with a NUL after it. -/
def charAt (p : List Char) (i : Nat) : Char := p.getD i (Char.ofNat 0)

/-- `*pfInvalid`.  With no bits left over (mode 0) the rest of the text is not looked at. -/
def invalid (C : Codec) (mode left : Nat) (p : List Char) : Bool :=
  if mode = 0 then false
  else
    match C.required mode with
    | none => true
    | some n => left != 0 || (List.range n).any (fun i => charAt p i != '=') ||
        (C.table (charAt p n)).isSome

/-- `DecodeBase64`, `DecodeBase32`: the bytes, and `*pfInvalid`. -/
def decode (C : Codec) (p : List Char) : Valtype × Bool :=
  match C.decodeLoop 0 0 p with
  | (vchRet, mode, left, p) => (vchRet, C.invalid mode left p)

end Codec

def pbase64 : List Char :=
  "ABCDEFGHIJKLMNOPQRSTUVWXYZabcdefghijklmnopqrstuvwxyz0123456789+/".toList

/-- `decode64_table` -/
def decode64 (c : Char) : Option Nat :=
  if 'A' ≤ c ∧ c ≤ 'Z' then some (c.toNat - 65)
  else if 'a' ≤ c ∧ c ≤ 'z' then some (c.toNat - 71)
  else if '0' ≤ c ∧ c ≤ '9' then some (c.toNat + 4)
  else if c = '+' then some 62
  else if c = '/' then some 63
  else none

/-- Base 64. -/
def base64 : Codec where
  width := 6
  alphabet := pbase64
  encodeStep mode left enc :=
    match mode with
    | 0 => ([enc >>> 2], 1, (enc &&& 3) <<< 4)
    | 1 => ([left ||| enc >>> 4], 2, (enc &&& 15) <<< 2)
    | _ => ([left ||| enc >>> 6, enc &&& 63], 0, left)
  nPadding mode := if mode = 1 then 2 else 1
  table := decode64
  decodeStep mode left dec :=
    match mode with
    | 0 => ([], 1, dec)
    | 1 => ([left <<< 2 ||| dec >>> 4], 2, dec &&& 15)
    | 2 => ([left <<< 4 ||| dec >>> 2], 3, dec &&& 3)
    | _ => ([left <<< 6 ||| dec], 0, left)
  required mode :=
    match mode with
    | 2 => some 2
    | 3 => some 1
    | _ => none

/-- Base 32. -/
def base32 : Codec where
  width := 5
  alphabet := pbase32
  encodeStep := encodeStep
  nPadding := nPadding
  table := decode32
  decodeStep := decodeStep
  required mode :=
    match mode with
    | 2 => some 6
    | 4 => some 4
    | 5 => some 3
    | 7 => some 1
    | _ => none

def encodeBase64 (pch : Valtype) : List Char := base64.encode pch

/-- `DecodeBase64`: the bytes, and `*pfInvalid`. -/
def decodeBase64 (p : List Char) : Valtype × Bool := base64.decode p

/-- `DecodeBase32`, with `*pfInvalid`. -/
def decodeBase32Flagged (p : List Char) : Valtype × Bool := base32.decode p

theorem base32_encodeLoop : ∀ (bs : Valtype) (mode left : Nat),
    base32.encodeLoop mode left bs = encodeLoop mode left bs
  | [], _, _ => rfl
  | _ :: bs, _, _ => congrArg (_ ++ ·) (base32_encodeLoop bs _ _)

theorem base32_decodeLoop : ∀ (p : List Char) (mode left : Nat),
    (base32.decodeLoop mode left p).1 = decodeLoop mode left p
  | [], mode, left => rfl
  | c :: cs, mode, left => by
    rw [Codec.decodeLoop, decodeLoop]
    rw [show base32.table c = decode32 c from rfl]
    cases decode32 c with
    | none => rfl
    | some dec => exact congrArg (_ ++ ·) (base32_decodeLoop cs _ _)

/-- The encoder of base 32. -/
theorem base32_encode (pch : Valtype) : base32.encode pch = encodeBase32 pch :=
  base32_encodeLoop pch 0 0

/-- The bytes are those of `DecodeBase32` without the flag. -/
theorem decodeBase32Flagged_fst (p : List Char) :
    (decodeBase32Flagged p).1 = decodeBase32 p :=
  base32_decodeLoop p 0 0

/-! ## 3. What makes a codec read back -/

namespace Codec

/-- What the tables and the switches of a codec have to do with each other.  Every field but one is
checked on finitely many cases. -/
structure Lawful (C : Codec) where
  /-- The spelling of a digit. -/
  fold : Char → Char
  /-- The modes of the encoder. -/
  encodeModes : Nat
  /-- The bits the encoder has not written, by mode. -/
  encodeBits : Nat → Nat
  /-- The modes of the decoder, one for each digit of a group. -/
  group : Nat
  /-- The bits the decoder has not written, by mode. -/
  decodeBits : Nat → Nat
  width_pos : 0 < C.width
  width_le : C.width ≤ 8
  table_alphabet : ∀ d < 2 ^ C.width, C.table (C.alphabet.getD d 'a') = some d
  ascii : ∀ c, (C.table c).isSome → c.toNat < 128
  alphabet_table : ∀ n < 128, ∀ d ∈ C.table (Char.ofNat n),
    d < 2 ^ C.width ∧ C.alphabet.getD d 'a' = fold (Char.ofNat n)
  table_pad : C.table '=' = none
  table_nul : C.table (Char.ofNat 0) = none
  encodes : Repacker 8 C.width encodeModes C.encodeStep encodeBits
    fun mode v => v * 2 ^ (C.width - encodeBits mode)
  decodes : Repacker C.width 8 group C.decodeStep decodeBits fun _ v => v
  encodeBits_lt : ∀ mode < encodeModes, encodeBits mode < C.width
  encodeBits_pos : ∀ mode < encodeModes, mode ≠ 0 → 0 < encodeBits mode
  decodeBits_lt : ∀ mode < group, decodeBits mode < 8
  decodeBits_pos : ∀ mode < group, mode ≠ 0 → 0 < decodeBits mode
  next : ∀ mode < group, ∀ left d, (C.decodeStep mode left d).2.1 = (mode + 1) % group
  /-- A text can end where less than a digit is left over. -/
  required_isSome : ∀ mode < group, (C.required mode).isSome → decodeBits mode < C.width
  /-- The decoder wants the `'='`s the encoder fills up a group with. -/
  required_eq : ∀ e < encodeModes, e ≠ 0 → ∀ mode < group,
    decodeBits mode = C.width - encodeBits e →
      C.required mode = some (C.nPadding e) ∧ C.nPadding e = group - mode

variable {C : Codec}

/-- What the loop of the encoder writes. -/
theorem encodeLoop_eq : ∀ (bs : Valtype) (mode left : Nat), C.encodeLoop mode left bs =
    (runSteps C.encodeStep mode left (bs.map UInt8.toNat)).1.map (C.alphabet.getD · 'a') ++
      C.encodeLoop (runSteps C.encodeStep mode left (bs.map UInt8.toNat)).2.1
        (runSteps C.encodeStep mode left (bs.map UInt8.toNat)).2.2 []
  | [], mode, left => rfl
  | b :: bs, mode, left => by
    rw [List.map_cons, runSteps]
    dsimp only
    rw [List.map_append, List.append_assoc, ← encodeLoop_eq bs]
    rfl

/-- What the loop of the decoder reads: digits, and then what does not begin with one. -/
theorem decodeLoop_eq {rest : List Char} (hrest : ∀ c ∈ rest.head?, C.table c = none) :
    ∀ (w : List Char) (ds : List Nat) (mode left : Nat), w.map C.table = ds.map some →
      C.decodeLoop mode left (w ++ rest) =
        ((runSteps C.decodeStep mode left ds).1.map UInt8.ofNat,
          (runSteps C.decodeStep mode left ds).2.1, (runSteps C.decodeStep mode left ds).2.2, rest)
  | [], [], mode, left, _ => by
    rw [List.nil_append, runSteps]
    cases rest with
    | nil => rfl
    | cons c cs => rw [decodeLoop, hrest c rfl, List.map_nil]
  | c :: w, d :: ds, mode, left, h => by
    obtain ⟨hc, hw⟩ := List.cons_eq_cons.mp h
    rw [List.cons_append, decodeLoop, hc, runSteps]
    dsimp only
    rw [decodeLoop_eq hrest w ds _ _ hw, List.map_append]

theorem charAt_replicate (k i : Nat) :
    charAt (List.replicate k '=') i = if i < k then '=' else Char.ofNat 0 := by
  rw [charAt, List.getD_eq_getElem?_getD, List.getElem?_replicate]
  split_ifs <;> rfl

/-- `'='`s are no digits, and neither is the NUL after them. -/
theorem Lawful.table_charAt (L : C.Lawful) (k i : Nat) :
    C.table (charAt (List.replicate k '=') i) = none := by
  rw [charAt_replicate]
  split_ifs
  · exact L.table_pad
  · exact L.table_nul

/-- **When the flag is down**, on a text that ends in `'='`s. -/
theorem Lawful.invalid_eq_false (L : C.Lawful) (mode left k : Nat) :
    C.invalid mode left (List.replicate k '=') = false ↔
      mode = 0 ∨ mode ≠ 0 ∧ left = 0 ∧ ∃ n ≤ k, C.required mode = some n := by
  have hpad : ∀ n, ((List.range n).any fun i => charAt (List.replicate k '=') i != '=') = false ↔
      n ≤ k := by
    intro n
    rw [List.any_eq_false]
    constructor
    · intro h
      by_contra hn
      refine h k (List.mem_range.mpr (not_le.mp hn)) ?_
      rw [charAt_replicate, if_neg (lt_irrefl k)]
      decide
    · intro hn i hi
      rw [charAt_replicate, if_pos (lt_of_lt_of_le (List.mem_range.mp hi) hn)]
      decide
  rw [invalid]
  by_cases hmode : mode = 0
  · simp [hmode]
  · rw [if_neg hmode]
    cases C.required mode with
    | none => simp [hmode]
    | some n => simp [L.table_charAt, hpad, hmode]

/-- The `'='`s that belong after a text that ends in a mode. -/
def Lawful.Closes (L : C.Lawful) (mode pads : Nat) : Prop :=
  mode = 0 ∧ pads = 0 ∨ mode ≠ 0 ∧ C.required mode = some pads ∧ pads = L.group - mode

/-- **What the encoder writes**: digits that are worth what the bytes are, filled up with zeros, and
the padding that the decoder wants after them. -/
theorem Lawful.encode_spec (L : C.Lawful) (pch : Valtype) : ∃ es p pads,
    C.encode pch = es.map (C.alphabet.getD · 'a') ++ List.replicate pads '=' ∧
      Padded 8 C.width (pch.map UInt8.toNat) es p ∧ p < C.width ∧
      ∀ mode < L.group, L.decodeBits mode = p → L.Closes mode pads := by
  have hsmall : ∀ d ∈ pch.map UInt8.toNat, d < 2 ^ 8 := by
    intro d hd
    obtain ⟨b, -, rfl⟩ := List.mem_map.mp hd
    exact b.toNat_lt
  obtain ⟨v, hv, hlt, hleft⟩ := L.encodes.run hsmall 0
  have hloop := encodeLoop_eq (C := C) pch 0 0
  generalize runSteps C.encodeStep 0 0 (pch.map UInt8.toNat) = r at hv hlt hleft hloop
  obtain ⟨es, e, left⟩ := r
  dsimp only at hv hlt hleft hloop
  by_cases he : e = 0
  · subst he
    rw [L.encodes.bits_zero] at hv
    refine ⟨es, 0, 0, hloop.trans (by rw [encodeLoop, if_pos rfl]; rfl), hv.padded_zero,
      L.width_pos, fun mode hmode hbits => Or.inl ⟨?_, rfl⟩⟩
    by_contra hne
    exact absurd hbits (L.decodeBits_pos mode hmode hne).ne'
  · refine ⟨es ++ [v * 2 ^ (C.width - L.encodeBits e)], C.width - L.encodeBits e, C.nPadding e,
      hloop.trans ?_, hv.pad (L.encodeBits_lt e hlt).le, ?_,
      fun mode hmode hbits => Or.inr ⟨?_, ?_⟩⟩
    · rw [encodeLoop, if_neg he, hleft he, List.map_append, List.append_assoc]
      rfl
    · exact Nat.sub_lt L.width_pos (L.encodeBits_pos e hlt he)
    · rintro rfl
      have hzero := L.decodes.bits_zero
      have hlow := L.encodeBits_lt e hlt
      omega
    · exact L.required_eq e hlt he mode hmode hbits

/-- **What the decoder reads**: bytes that are worth what the digits are, up to what it has left. -/
theorem Lawful.decode_spec (L : C.Lawful) {ds : List Nat} (hds : ∀ d ∈ ds, d < 2 ^ C.width) :
    ∃ fs mode left v, Repacks C.width 8 ds fs (L.decodeBits mode) v ∧ mode < L.group ∧
      mode = ds.length % L.group ∧ (mode ≠ 0 → left = v) ∧
      ∀ w k, w.map C.table = ds.map some → C.decode (w ++ List.replicate k '=') =
        (fs.map UInt8.ofNat, C.invalid mode left (List.replicate k '=')) := by
  obtain ⟨v, hv, hlt, hleft⟩ := L.decodes.run hds 0
  refine ⟨_, _, _, v, hv, hlt, ?_, hleft, fun w k hw => ?_⟩
  · have hmode : ∀ (ds : List Nat) (mode left : Nat), mode < L.group →
        (runSteps C.decodeStep mode left ds).2.1 = (mode + ds.length) % L.group := by
      intro ds
      induction ds with
      | nil => exact fun mode left hmode => (Nat.mod_eq_of_lt hmode).symm
      | cons d ds ih =>
        intro mode left hmode
        rw [runSteps]
        dsimp only
        rw [L.next mode hmode, ih _ _ (Nat.mod_lt _ (Nat.zero_lt_of_lt hmode)), Nat.mod_add_mod,
          List.length_cons, Nat.add_assoc, Nat.add_comm 1]
    rw [hmode ds 0 0 L.decodes.modes_pos, Nat.zero_add]
  · have hrest : ∀ c ∈ (List.replicate k '=').head?, C.table c = none := by
      intro c hc
      rw [List.eq_of_mem_replicate (List.mem_of_mem_head? hc)]
      exact L.table_pad
    rw [decode, decodeLoop_eq hrest w ds 0 0 hw]

/-- The bytes that are encoded are decoded. -/
theorem Lawful.decode_encode (L : C.Lawful) (pch : Valtype) :
    C.decode (C.encode pch) = (pch, false) := by
  obtain ⟨es, p, pads, htext, hpadded, hp, hcloses⟩ := L.encode_spec pch
  obtain ⟨fs, mode, left, v, hv, hlt, -, hleft, hdecode⟩ := L.decode_spec hpadded.small
  have hsmall : ∀ d ∈ pch.map UInt8.toNat, d < 2 ^ 8 := by
    intro d hd
    obtain ⟨b, -, rfl⟩ := List.mem_map.mp hd
    exact b.toNat_lt
  obtain ⟨hfs, hbits, hzero⟩ := hpadded.repacks (by decide) hsmall hv
    (lt_of_lt_of_le hp L.width_le) (L.decodeBits_lt mode hlt)
  have htable : (es.map (C.alphabet.getD · 'a')).map C.table = es.map some := by
    rw [List.map_map]
    exact List.map_congr_left fun d hd => L.table_alphabet d (hpadded.small d hd)
  rw [htext, hdecode _ pads htable, hfs, List.map_map]
  refine Prod.ext ?_ ((L.invalid_eq_false mode left pads).mpr ?_)
  · exact (List.map_congr_left fun b _ => UInt8.ofNat_toNat).trans (List.map_id _)
  · obtain ⟨hmode, -⟩ | ⟨hmode, hrequired, -⟩ := hcloses mode hlt hbits
    · exact Or.inl hmode
    · exact Or.inr ⟨hmode, (hleft hmode).trans hzero, pads, le_rfl, hrequired⟩

/-- **A text that is decoded is encoded again**, with the padding that belongs there. -/
theorem Lawful.encode_decode (L : C.Lawful) {w : List Char} {k : Nat}
    (hw : ∀ c ∈ w, (C.table c).isSome) (h : (C.decode (w ++ List.replicate k '=')).2 = false) :
    C.encode (C.decode (w ++ List.replicate k '=')).1 =
        w.map L.fold ++ List.replicate ((L.group - w.length % L.group) % L.group) '=' ∧
      (L.group - w.length % L.group) % L.group ≤ k := by
  have hdigit : ∀ c ∈ w, ∃ d, C.table c = some d ∧ d < 2 ^ C.width ∧
      C.alphabet.getD d 'a' = L.fold c := by
    intro c hc
    obtain ⟨d, hd⟩ := Option.isSome_iff_exists.mp (hw c hc)
    have hcheck := L.alphabet_table c.toNat (L.ascii c (hw c hc)) d
    rw [Char.ofNat_toNat] at hcheck
    exact ⟨d, hd, hcheck hd⟩
  obtain ⟨ds, hlen, htable, hds, hfold⟩ : ∃ ds : List Nat, ds.length = w.length ∧
      w.map C.table = ds.map some ∧ (∀ d ∈ ds, d < 2 ^ C.width) ∧
      ds.map (C.alphabet.getD · 'a') = w.map L.fold := by
    choose! digit htable hlt hfold using hdigit
    refine ⟨w.map digit, List.length_map _, ?_, ?_, ?_⟩
    · rw [List.map_map]
      exact List.map_congr_left htable
    · exact List.forall_mem_map.mpr hlt
    · rw [List.map_map]
      exact List.map_congr_left hfold
  obtain ⟨fs, mode, left, v, hv, hlt, hmode, hleft, hdecode⟩ := L.decode_spec hds
  rw [hdecode w k htable] at h ⊢
  dsimp only at h ⊢
  rw [← hlen, ← hmode]
  have hbytes : (fs.map UInt8.ofNat).map UInt8.toNat = fs := by
    rw [List.map_map]
    exact (List.map_congr_left fun d hd => UInt8.toNat_ofNat_of_lt' (hv.small d hd)).trans
      (List.map_id _)
  obtain ⟨es, p, pads, htext, hpadded, hp, hcloses⟩ := L.encode_spec (fs.map UInt8.ofNat)
  rw [hbytes] at hpadded
  have hend : v = 0 ∧ L.decodeBits mode < C.width := by
    obtain rfl | ⟨hne, hzero, n, -, hrequired⟩ := (L.invalid_eq_false mode left k).mp h
    · have hrest := hv.rest
      rw [L.decodes.bits_zero] at hrest ⊢
      exact ⟨Nat.lt_one_iff.mp hrest, L.width_pos⟩
    · exact ⟨(hleft hne).symm.trans hzero,
        L.required_isSome mode hlt (Option.isSome_iff_exists.mpr ⟨n, hrequired⟩)⟩
  obtain ⟨rfl, hbits⟩ := hend
  obtain ⟨rfl, hsame⟩ := hpadded.unique L.width_pos (hv.padded_swap hds) hp hbits
  rw [htext, hfold]
  obtain ⟨rfl, rfl⟩ | ⟨hne, hrequired, hpads⟩ := hcloses mode hlt hsame.symm
  · rw [Nat.sub_zero, Nat.mod_self]
    exact ⟨rfl, Nat.zero_le k⟩
  · have hgroup : (L.group - mode) % L.group = pads := by
      rw [Nat.mod_eq_of_lt (by omega), hpads]
    rw [hgroup]
    refine ⟨rfl, ?_⟩
    obtain rfl | ⟨-, -, n, hn, hsome⟩ := (L.invalid_eq_false mode left k).mp h
    · exact absurd rfl hne
    · rw [hrequired] at hsome
      exact (Option.some.inj hsome).trans_le hn

end Codec

/-! ## 4. The two codecs -/

theorem masks (x : Nat) : x &&& 1 = x % 2 ∧ x &&& 3 = x % 4 ∧ x &&& 7 = x % 8 ∧ x &&& 15 = x % 16 ∧
    x &&& 31 = x % 32 ∧ x &&& 63 = x % 64 :=
  ⟨Nat.and_two_pow_sub_one_eq_mod x 1, Nat.and_two_pow_sub_one_eq_mod x 2,
    Nat.and_two_pow_sub_one_eq_mod x 3, Nat.and_two_pow_sub_one_eq_mod x 4,
    Nat.and_two_pow_sub_one_eq_mod x 5, Nat.and_two_pow_sub_one_eq_mod x 6⟩

/-- What is or-ed into the room a shift has made is added. -/
theorem shifted_or (x y : Nat) : (y < 2 → x * 2 ||| y = x * 2 + y) ∧
    (y < 4 → x * 4 ||| y = x * 4 + y) ∧ (y < 8 → x * 8 ||| y = x * 8 + y) ∧
    (y < 16 → x * 16 ||| y = x * 16 + y) ∧ (y < 32 → x * 32 ||| y = x * 32 + y) ∧
    (y < 64 → x * 64 ||| y = x * 64 + y) :=
  ⟨mul_two_pow_or x 1, mul_two_pow_or x 2, mul_two_pow_or x 3, mul_two_pow_or x 4,
    mul_two_pow_or x 5, mul_two_pow_or x 6⟩

/-- `// we have no bits`, `// we have two bits`, `// we have four bits` -/
theorem base64_encodes : Repacker 8 6 3 base64.encodeStep ([0, 2, 4].getD · 0)
    fun mode v => v * 2 ^ (6 - [0, 2, 4].getD mode 0) where
  modes_pos := by decide
  bits_zero := rfl
  stale _ _ := rfl
  step := by
    intro mode hmode v hv d hd
    interval_cases mode <;>
      simp (disch := omega) only [base64, List.getD_cons_zero, List.getD_cons_succ,
        Nat.shiftLeft_eq, Nat.shiftRight_eq_div_pow, Nat.reducePow, Nat.reduceSub, Nat.div_one,
        Nat.mod_one, masks, shifted_or, digitsValue_singleton, digitsValue_pair, List.length_cons,
        List.length_nil, List.forall_mem_cons, List.not_mem_nil, false_imp_iff, implies_true,
        true_and, and_true, ne_eq, not_true_eq_false] at hv hd ⊢ <;>
      omega

/-- `// we have no bits and get 6`, and so on. -/
theorem base64_decodes : Repacker 6 8 4 base64.decodeStep ([0, 6, 4, 2].getD · 0) fun _ v => v where
  modes_pos := by decide
  bits_zero := rfl
  stale _ _ := rfl
  step := by
    intro mode hmode v hv d hd
    interval_cases mode <;>
      simp (disch := omega) only [base64, List.getD_cons_zero, List.getD_cons_succ,
        Nat.shiftLeft_eq, Nat.shiftRight_eq_div_pow, Nat.reducePow, Nat.div_one,
        Nat.mod_one, masks, shifted_or, digitsValue_singleton, digitsValue_nil, List.length_cons,
        List.length_nil, List.forall_mem_cons, List.not_mem_nil, false_imp_iff, implies_true,
        true_and, and_true, ne_eq, not_true_eq_false] at hv hd ⊢ <;>
      omega

/-- `// we have no bits`, `// we have three bits`, and so on. -/
theorem base32_encodes : Repacker 8 5 5 encodeStep ([0, 3, 1, 4, 2].getD · 0)
    fun mode v => v * 2 ^ (5 - [0, 3, 1, 4, 2].getD mode 0) where
  modes_pos := by decide
  bits_zero := rfl
  stale _ _ := rfl
  step := by
    intro mode hmode v hv d hd
    interval_cases mode <;>
      simp (disch := omega) only [encodeStep, List.getD_cons_zero, List.getD_cons_succ,
        Nat.shiftLeft_eq, Nat.shiftRight_eq_div_pow, Nat.reducePow, Nat.reduceSub, Nat.div_one,
        Nat.mod_one, masks, shifted_or, digitsValue_singleton, digitsValue_pair, List.length_cons,
        List.length_nil, List.forall_mem_cons, List.not_mem_nil, false_imp_iff, implies_true,
        true_and, and_true, ne_eq, not_true_eq_false] at hv hd ⊢ <;>
      omega

/-- `// we have no bits and get 5`, `// we have 5 bits and keep 2`, and so on. -/
theorem base32_decodes :
    Repacker 5 8 8 decodeStep ([0, 5, 2, 7, 4, 1, 6, 3].getD · 0) fun _ v => v where
  modes_pos := by decide
  bits_zero := rfl
  stale _ _ := rfl
  step := by
    intro mode hmode v hv d hd
    interval_cases mode <;>
      simp (disch := omega) only [decodeStep, List.getD_cons_zero, List.getD_cons_succ,
        Nat.shiftLeft_eq, Nat.shiftRight_eq_div_pow, Nat.reducePow, Nat.div_one,
        Nat.mod_one, masks, shifted_or, digitsValue_singleton, digitsValue_nil, List.length_cons,
        List.length_nil, List.forall_mem_cons, List.not_mem_nil, false_imp_iff, implies_true,
        true_and, and_true, ne_eq, not_true_eq_false] at hv hd ⊢ <;>
      omega

theorem decode64_ascii (c : Char) (h : (decode64 c).isSome) : c.toNat < 128 := by
  have hle : ∀ d : Char, c ≤ d → c.toNat ≤ d.toNat := fun d h => UInt32.le_iff_toNat_le.mp h
  rw [decode64] at h
  split_ifs at h with h1 h2 h3 h4 h5
  · exact lt_of_le_of_lt (hle 'Z' h1.2) (by decide)
  · exact lt_of_le_of_lt (hle 'z' h2.2) (by decide)
  · exact lt_of_le_of_lt (hle '9' h3.2) (by decide)
  · rw [h4]
    decide
  · rw [h5]
    decide
  · cases h

theorem decode32_ascii (c : Char) (h : (decode32 c).isSome) : c.toNat < 128 := by
  have hle : ∀ d : Char, c ≤ d → c.toNat ≤ d.toNat := fun d h => UInt32.le_iff_toNat_le.mp h
  rw [decode32] at h
  split_ifs at h with h1 h2 h3
  · exact lt_of_le_of_lt (hle '7' h1.2) (by decide)
  · exact lt_of_le_of_lt (hle 'Z' h2.2) (by decide)
  · exact lt_of_le_of_lt (hle 'z' h3.2) (by decide)
  · cases h

/-- Base 64 reads back. -/
def base64Lawful : base64.Lawful where
  fold := id
  encodeModes := 3
  encodeBits := ([0, 2, 4].getD · 0)
  group := 4
  decodeBits := ([0, 6, 4, 2].getD · 0)
  width_pos := by decide
  width_le := by decide
  table_alphabet := by decide +kernel
  ascii := decode64_ascii
  alphabet_table := by decide +kernel
  table_pad := rfl
  table_nul := rfl
  encodes := base64_encodes
  decodes := base64_decodes
  encodeBits_lt := by decide
  encodeBits_pos := by decide
  decodeBits_lt := by decide
  decodeBits_pos := by decide
  next := by
    intro mode hmode left d
    interval_cases mode <;> rfl
  required_isSome := by decide
  required_eq := by decide

/-- Base 32 reads back. -/
def base32Lawful : base32.Lawful where
  fold := Char.toLower
  encodeModes := 5
  encodeBits := ([0, 3, 1, 4, 2].getD · 0)
  group := 8
  decodeBits := ([0, 5, 2, 7, 4, 1, 6, 3].getD · 0)
  width_pos := by decide
  width_le := by decide
  table_alphabet := by decide +kernel
  ascii := decode32_ascii
  alphabet_table := by decide +kernel
  table_pad := rfl
  table_nul := rfl
  encodes := base32_encodes
  decodes := base32_decodes
  encodeBits_lt := by decide
  encodeBits_pos := by decide
  decodeBits_lt := by decide
  decodeBits_pos := by decide
  next := by
    intro mode hmode left d
    interval_cases mode <;> rfl
  required_isSome := by decide
  required_eq := by decide

theorem decodeBase32_encodeBase32 (pch : Valtype) : decodeBase32 (encodeBase32 pch) = pch := by
  rw [← decodeBase32Flagged_fst, ← base32_encode, decodeBase32Flagged, base32Lawful.decode_encode]

/-! ## 5. Reading back -/

/-- What is encoded is decoded, and a text of digits and `'='`s that is decoded with the flag down
is encoded again, in the encoder's spelling and with the `'='`s that fill up its last group, which
it has. -/
structure ReadsBack (encode : Valtype → List Char) (decode : List Char → Valtype × Bool)
    (table : Char → Option Nat) (fold : Char → Char) (group : Nat) : Prop where
  decode_encode : ∀ pch, decode (encode pch) = (pch, false)
  encode_decode : ∀ (w : List Char) (k : Nat), (∀ c ∈ w, (table c).isSome) →
    (decode (w ++ List.replicate k '=')).2 = false →
      encode (decode (w ++ List.replicate k '=')).1 =
          w.map fold ++ List.replicate ((group - w.length % group) % group) '=' ∧
        (group - w.length % group) % group ≤ k

/-- **Both codecs read back**, up to `'='`s that are too many and, in base 32, up to letter case. -/
theorem codecs_read_back : ReadsBack encodeBase64 decodeBase64 decode64 id 4 ∧
    ReadsBack encodeBase32 decodeBase32Flagged decode32 Char.toLower 8 := by
  refine ⟨⟨base64Lawful.decode_encode, fun w k => base64Lawful.encode_decode⟩, ⟨?_, ?_⟩⟩
  · intro pch
    rw [← base32_encode]
    exact base32Lawful.decode_encode pch
  · intro w k hw h
    rw [← base32_encode]
    exact base32Lawful.encode_decode hw h

/-- `"AAAA="` passes, and is not what is encoded. -/
theorem surplus_padding : ¬ ∀ (w : List Char) (k : Nat), (∀ c ∈ w, (decode64 c).isSome) →
    (decodeBase64 (w ++ List.replicate k '=')).2 = false →
      encodeBase64 (decodeBase64 (w ++ List.replicate k '=')).1 = w ++ List.replicate k '=' := by
  intro h
  have hbad := h ['A', 'A', 'A', 'A'] 1 (by simp [decode64]) (by decide)
  exact absurd (congrArg List.length hbad) (by decide)

end Breakout
