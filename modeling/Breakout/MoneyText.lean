/-
# Amounts as text

`FormatMoney` writes an amount with eight decimals, cuts zeros down to two decimals, and by default
puts the ticker of the colour behind it.  `ParseMoney` reads whole digits, a point, and as many
decimals as the cent of the colour allows.

They are the inverse of each other on less than every amount (`money_text_iff`).  What carries its
ticker or a plus sign is refused, and so is the largest amount of the colour with eleven digits,
since the reader guards against an overflow by allowing ten.  Of what is read, three things are
wrong or worse.  Where a coin cannot be divided the guard on the decimals lets one unit through, so
one hundredth is read as one coin.  And the number of colours is taken for a colour, with which the
tables are read behind their end.
-/
import Breakout.AddressBytes
import Breakout.Colors
import Breakout.Lib.Decimal

namespace Breakout

open Lib

/-! ## 1. Writing -/

def colorTicker (c : Color) : List Char :=
  match c.val with
  | 0 => "<none>".toList
  | 1 => "BRX".toList
  | 2 => "BRK".toList
  | 3 => "BAM".toList
  | 4 => "DJK".toList
  | 57 => "SIS".toList
  | n => ['D', "A23456789TJQK".toList.getD ((n - 5) % 13) ' ', "SDCH".toList.getD ((n - 5) / 13) ' ']

/-- `%0*d`: a number in at least `width` characters, filled with zeros. -/
def printInt (width : Nat) (x : Int64) : List Char :=
  let digits := Nat.toDigits 10 x.toInt.natAbs
  if x < 0 then '-' :: (List.replicate (width - 1 - digits.length) '0' ++ digits)
  else List.replicate (width - digits.length) '0' ++ digits

/-- "Right-trim excess zeros": the loop of `FormatMoney`, on the text from its end.  A zero goes
while there is a digit two places in front of it. -/
def trimZeros : List Char → List Char
  | z :: b :: a :: rest =>
    if z = '0' ∧ a.isDigit = true then trimZeros (b :: a :: rest) else z :: b :: a :: rest
  | s => s

def formatMoney (n : Int64) (nColor : Int32) (fPlus fShowTicker : Bool) : Run (List Char) :=
  if checkColor nColor = false then .ok []
  else do
    let c ← tableIndex nColor
    let nAbs := if n > 0 then n else -n
    let str := printInt 0 (nAbs / coin c) ++ '.' :: printInt 8 (nAbs % coin c)
    let str := (trimZeros str.reverse).reverse
    let str := if n < 0 then '-' :: str else if fPlus = true ∧ n > 0 then '+' :: str else str
    return if fShowTicker then str ++ ' ' :: colorTicker c else str

/-! ## 2. Reading -/

/-- `c_str`: a text up to its first null character. -/
def cStr (str : List Char) : List Char := str.takeWhile (· ≠ '\x00')

/-- The loop that collects `strWhole`, up to the point, a space or the end: the digits and what is
left.  Nothing else may stand there. -/
def scanWhole : List Char → Option (List Char × List Char)
  | [] => some ([], [])
  | c :: p =>
    if c = '.' ∨ isSpace c = true then some ([], c :: p)
    else if c.isDigit = false then none
    else (scanWhole p).map fun q => (c :: q.1, q.2)

/-- The loop behind the point: the units and what is left. -/
def scanFraction (nMult nUnits : Int64) : List Char → Int64 × List Char
  | [] => (nUnits, [])
  | c :: p =>
    if c.isDigit = true ∧ nMult > 0 then
      scanFraction (nMult / 10) (nUnits + nMult * Int64.ofNat (c.toNat - 48)) p
    else (nUnits, c :: p)

def atoi64 (str : List Char) : Int64 := Int64.ofInt (strtol str).1

/-- The branch of the first loop at a point. -/
def parseUnits (nColor : Int32) : List Char → Run (Int64 × List Char)
  | [] => return (0, [])
  | d :: p =>
    if d = '.' then do
      let c ← tableIndex nColor
      return scanFraction (cent c * 10) 0 p
    else return (0, d :: p)

/-- `ParseMoney`: the amount, where it returns true. -/
def parseMoney (str : List Char) (nColor : Int32) : Run Int64 := do
  refuse (nColor < 1 ∨ nColor > Int32.ofNat nColors) 0 ""
  match scanWhole ((cStr str).dropWhile isSpace) with
  | none => .error (.reject 0 "")
  | some (strWhole, p) => do
    let (nUnits, p) ← parseUnits nColor p
    refuse (p.all isSpace = false) 0 ""
    refuse (strWhole.length > 10) 0 ""
    let c ← tableIndex nColor
    refuse (nUnits < 0 ∨ nUnits > coin c) 0 ""
    return atoi64 strWhole * coin c + nUnits

/-! ## 3. What a text spells -/

/-- Behind leading spaces, the digits `W`, a point and the digits `F`, and spaces; the point may be
missing, and then there is no `F`. -/
def Spells (str W F : List Char) : Prop :=
  AllDigits W ∧ AllDigits F ∧ ∃ point after, (point = '.' :: F ∨ point = [] ∧ F = []) ∧
    (∀ c ∈ after, isSpace c = true) ∧ str.dropWhile isSpace = W ++ (point ++ after)

/-- How many decimals `ParseMoney` reads. -/
def decimalsRead (c : Color) : Nat := if coin c = 1 then 2 else 8

/-- `nMult` when so many decimals may still be read. -/
def scale : Nat → Int64
  | 0 => 0
  | j + 1 => Int64.ofNat (10 ^ j)

/-- What the decimals `F` are worth to `ParseMoney`. -/
def unitsRead (c : Color) (F : List Char) : Nat :=
  Nat.ofDigitChars 10 F 0 * 10 ^ (decimalsRead c - F.length)

variable {c : Color} {rest W str F : List Char} {u r n : Int64}

theorem cent_eq_scale (h : c ≠ Color.none) : cent c * 10 = scale (decimalsRead c) := by
  revert c
  decide

theorem coin_cases (h : c ≠ Color.none) : coin c = 1 ∨ coin c = 100000000 := by
  revert c
  decide

theorem isSpace_not_isDigit {c : Char} (h : isSpace c = true) : c.isDigit = false := by
  by_contra hd
  rw [Bool.not_eq_false] at hd
  have hrange := toNat_of_isDigit hd
  rw [isSpace, Bool.or_eq_true, Bool.and_eq_true, beq_iff_eq, decide_eq_true_eq,
    decide_eq_true_eq] at h
  rcases h with rfl | ⟨-, hle⟩
  · exact absurd hd (by decide)
  · have : c.toNat ≤ 13 := hle
    omega

theorem noDigit_of_spaces {s : List Char} (h : ∀ c ∈ s, isSpace c = true) : NoDigit s :=
  fun _ hc => isSpace_not_isDigit (h _ (List.mem_of_mem_head? hc))

/-- Where the first loop can stop. -/
def Stops (rest : List Char) : Prop := ∀ c, rest.head? = some c → c = '.' ∨ isSpace c = true

theorem Stops.noDigit (h : Stops rest) : NoDigit rest := by
  intro c hc
  rcases h c hc with rfl | hspace
  · rfl
  · exact isSpace_not_isDigit hspace

theorem scanWhole_iff {p : List Char} :
    scanWhole p = some (W, rest) ↔ p = W ++ rest ∧ AllDigits W ∧ Stops rest := by
  induction p generalizing W with
  | nil =>
    rw [scanWhole, Option.some.injEq, Prod.mk.injEq]
    constructor
    · rintro ⟨rfl, rfl⟩
      exact ⟨rfl, fun _ => nofun, fun _ => nofun⟩
    · rintro ⟨h, -, -⟩
      obtain ⟨rfl, rfl⟩ := List.append_eq_nil_iff.mp h.symm
      exact ⟨rfl, rfl⟩
  | cons c p ih =>
    rw [scanWhole]
    split
    · next hstop =>
      rw [Option.some.injEq, Prod.mk.injEq]
      have hno : c.isDigit = false := by
        rcases hstop with rfl | hspace
        · rfl
        · exact isSpace_not_isDigit hspace
      constructor
      · rintro ⟨rfl, rfl⟩
        refine ⟨rfl, fun _ => nofun, fun d hd => ?_⟩
        cases hd
        exact hstop
      · rintro ⟨h, hW, -⟩
        cases W with
        | nil => exact ⟨rfl, h⟩
        | cons d W =>
          rw [List.cons_append, List.cons.injEq] at h
          have hd := hW d List.mem_cons_self
          rw [← h.1, hno] at hd
          cases hd
    · next hstop =>
      split
      · next hno =>
        refine iff_of_false (by simp) ?_
        rintro ⟨h, hW, hrest⟩
        cases W with
        | nil =>
          rw [List.nil_append] at h
          exact hstop (hrest c (by rw [← h]; rfl))
        | cons d W =>
          rw [List.cons_append, List.cons.injEq] at h
          have hd := hW d List.mem_cons_self
          rw [← h.1, hno] at hd
          cases hd
      · next hdigit =>
        rw [Bool.not_eq_false] at hdigit
        rw [Option.map_eq_some_iff]
        constructor
        · rintro ⟨⟨W', rest'⟩, hscan, heq⟩
          obtain ⟨rfl, rfl⟩ := Prod.mk.inj heq
          obtain ⟨rfl, hW, hrest⟩ := ih.mp hscan
          refine ⟨rfl, fun d hd => ?_, hrest⟩
          rcases List.mem_cons.mp hd with rfl | hd
          · exact hdigit
          · exact hW d hd
        · rintro ⟨h, hW, hrest⟩
          cases W with
          | nil =>
            rw [List.nil_append] at h
            exact absurd (hrest c (by rw [← h]; rfl)) hstop
          | cons d W =>
            rw [List.cons_append, List.cons.injEq] at h
            obtain ⟨rfl, rfl⟩ := h
            exact ⟨(W, rest), ih.mpr ⟨rfl, hW.sublist (List.sublist_cons_self ..), hrest⟩, rfl⟩

theorem scale_div (j : Nat) (hj : j < 8) : scale (j + 1) / 10 = scale j := by
  revert j
  decide

theorem scale_toInt (j : Nat) (hj : j < 8) : (scale (j + 1)).toInt = 10 ^ j := by
  revert j
  decide

/-- **The decimals that are read**, and what they are worth in units. -/
theorem scanFraction_spec : ∀ (p : List Char) (j : Nat) (u : Int64), j ≤ 8 → 0 ≤ u.toInt →
    u.toInt + 10 ^ j ≤ 10 ^ 8 →
    ∃ F rest, p = F ++ rest ∧ AllDigits F ∧ F.length ≤ j ∧ (F.length = j ∨ NoDigit rest) ∧
      (scanFraction (scale j) u p).2 = rest ∧
      (scanFraction (scale j) u p).1.toInt = u.toInt + Nat.ofDigitChars 10 F 0 * 10 ^ (j - F.length)
  | [], j, u, hj, hu, hmax => by
    refine ⟨[], [], rfl, fun _ => nofun, by simp, Or.inr fun _ => nofun, rfl, by simp [scanFraction]⟩
  | c :: p, 0, u, hj, hu, hmax => by
    have hstop : scanFraction (scale 0) u (c :: p) = (u, c :: p) := by
      rw [scanFraction, if_neg (by rw [scale]; exact fun h => absurd h.2 (by decide))]
    refine ⟨[], c :: p, rfl, fun _ => nofun, by simp, Or.inl rfl, by rw [hstop], by simp [hstop]⟩
  | c :: p, j + 1, u, hj, hu, hmax => by
    by_cases hdigit : c.isDigit = true
    · have hrange := toNat_of_isDigit hdigit
      have hpos : scale (j + 1) > 0 := by
        rw [gt_iff_lt, Int64.lt_iff_toInt_lt, scale_toInt j (by omega)]
        positivity
      have hpow : (10 : Int) ^ (j + 1) = 10 * 10 ^ j := by ring
      have hten : (0 : Int) < 10 ^ j := by positivity
      have hd : (Int64.ofNat (c.toNat - 48)).toInt = (c.toNat - 48 : Nat) :=
        Int64.toInt_ofNat_of_lt (by omega)
      have hprod : (10 : Int) ^ j * (c.toNat - 48 : Nat) ≤ 10 ^ j * 9 :=
        mul_le_mul_of_nonneg_left (by omega) hten.le
      have hprod0 : (0 : Int) ≤ 10 ^ j * (c.toNat - 48 : Nat) := by positivity
      have hmul : (scale (j + 1) * Int64.ofNat (c.toNat - 48)).toInt =
          10 ^ j * (c.toNat - 48 : Nat) := by
        rw [Int64.toInt_mul, scale_toInt j (by omega), hd, Int.bmod_eq_of_le (by omega) (by omega)]
      have hadd : (u + scale (j + 1) * Int64.ofNat (c.toNat - 48)).toInt =
          u.toInt + 10 ^ j * (c.toNat - 48 : Nat) := by
        rw [Int64.toInt_add, hmul, Int.bmod_eq_of_le (by omega) (by omega)]
      obtain ⟨F, rest, hp, hF, hlen, hend, hrest, hunits⟩ := scanFraction_spec p j
        (u + scale (j + 1) * Int64.ofNat (c.toNat - 48)) (by omega) (by omega) (by omega)
      have hstep : scanFraction (scale (j + 1)) u (c :: p) =
          scanFraction (scale j) (u + scale (j + 1) * Int64.ofNat (c.toNat - 48)) p := by
        rw [scanFraction, if_pos ⟨hdigit, hpos⟩, scale_div j (by omega)]
      refine ⟨c :: F, rest, by rw [hp, List.cons_append], ?_, by simpa using hlen,
        hend.imp (fun h => by rw [List.length_cons, h]) id, by rw [hstep, hrest], ?_⟩
      · intro d hd
        rcases List.mem_cons.mp hd with rfl | hd
        · exact hdigit
        · exact hF d hd
      · obtain ⟨k, rfl⟩ := Nat.exists_eq_add_of_le hlen
        have hsub : F.length + k + 1 - (F.length + 1) = k := by omega
        rw [hstep, hunits, hadd, ofDigitChars_cons_eq, List.length_cons, hsub,
          Nat.add_sub_cancel_left]
        push_cast
        ring
    · have hstop : scanFraction (scale (j + 1)) u (c :: p) = (u, c :: p) := by
        rw [scanFraction, if_neg fun h => hdigit h.1]
      refine ⟨[], c :: p, rfl, fun _ => nofun, by simp, Or.inr fun d hd => ?_, by rw [hstop],
        by simp [hstop]⟩
      cases hd
      exact Bool.not_eq_true _ ▸ hdigit

/-! ## 4. What is read -/

theorem Spells.unique {W' F' : List Char} (h : Spells str W F) (h' : Spells str W' F') :
    W = W' ∧ F = F' := by
  have hno : ∀ {point after F : List Char}, (point = '.' :: F ∨ point = [] ∧ F = []) →
      (∀ c ∈ after, isSpace c = true) → NoDigit (point ++ after) := by
    rintro point after F (rfl | ⟨rfl, -⟩) hafter
    · intro c hc
      cases hc
      rfl
    · exact noDigit_of_spaces hafter
  obtain ⟨hW, hF, point, after, hpoint, hafter, hstr⟩ := h
  obtain ⟨hW', hF', point', after', hpoint', hafter', hstr'⟩ := h'
  rw [hstr] at hstr'
  obtain ⟨rfl, htail⟩ := digits_append_inj hW hW' (hno hpoint hafter) (hno hpoint' hafter') hstr'
  refine ⟨rfl, ?_⟩
  have hspace : ∀ {F after after' : List Char}, (∀ c ∈ after', isSpace c = true) →
      '.' :: F ++ after ≠ after' := by
    rintro F after _ hspaces rfl
    exact absurd (hspaces '.' (by simp)) (by decide)
  rcases hpoint with rfl | ⟨rfl, rfl⟩ <;> rcases hpoint' with rfl | ⟨rfl, rfl⟩
  · rw [List.cons_append, List.cons_append, List.cons.injEq] at htail
    exact (digits_append_inj hF hF' (noDigit_of_spaces hafter) (noDigit_of_spaces hafter')
      htail.2).1
  · exact absurd htail (hspace hafter')
  · exact absurd htail.symm (hspace hafter)
  · rfl

/-- Nothing but digits, spaces and points is in a text that spells an amount. -/
theorem Spells.chars (h : Spells str W F) :
    ∀ c ∈ str, c.isDigit = true ∨ isSpace c = true ∨ c = '.' := by
  obtain ⟨hW, hF, point, after, hpoint, hafter, hstr⟩ := h
  intro c hc
  rw [← List.takeWhile_append_dropWhile (p := isSpace) (l := str), hstr] at hc
  simp only [List.mem_append] at hc
  rcases hc with hc | hc | hc | hc
  · exact Or.inr (Or.inl (List.mem_takeWhile_imp hc))
  · exact Or.inl (hW c hc)
  · rcases hpoint with rfl | ⟨rfl, -⟩
    · rcases List.mem_cons.mp hc with rfl | hc
      · exact Or.inr (Or.inr rfl)
      · exact Or.inl (hF c hc)
    · cases hc
  · exact Or.inr (Or.inl (hafter c hc))

theorem atoi64_digits (hW : AllDigits W) (hlen : W.length ≤ 10) :
    (atoi64 W).toInt = Nat.ofDigitChars 10 W 0 := by
  cases W with
  | nil => rfl
  | cons c W =>
    have hdigit := hW c List.mem_cons_self
    have hrange := toNat_of_isDigit hdigit
    have hspace : isSpace c = false := by
      by_contra hs
      rw [Bool.not_eq_false] at hs
      rw [isSpace_not_isDigit hs] at hdigit
      cases hdigit
    have hlt : Nat.ofDigitChars 10 (c :: W) 0 < 10 ^ 10 :=
      lt_of_lt_of_le (ofDigitChars_lt hW) (Nat.pow_le_pow_right (by decide) hlen)
    have htake : (c :: W).takeWhile Char.isDigit = c :: W := List.takeWhile_eq_self_iff.mpr hW
    have hminus : c ≠ '-' := by rintro rfl; exact absurd hdigit (by decide)
    have hplus : c ≠ '+' := by rintro rfl; exact absurd hdigit (by decide)
    have hval : (strtol (c :: W)).1 = Nat.ofDigitChars 10 (c :: W) 0 := by
      have hfold : (c :: W).foldl (fun n c => 10 * n + (c.toNat - 48)) 0 =
          Nat.ofDigitChars 10 (c :: W) 0 := Nat.ofDigitChars_eq_foldl.symm
      unfold strtol
      rw [List.dropWhile_cons_of_neg (by rw [hspace]; decide)]
      dsimp only
      split
      · next h => exact absurd (List.cons.inj h).1 hminus
      · next h => exact absurd (List.cons.inj h).1 hplus
      · dsimp only
        rw [htake, if_neg (List.cons_ne_nil c W), hfold]
        dsimp only
        omega
    rw [atoi64, hval]
    exact toInt_ofInt_of_fits ⟨by omega, by omega⟩

theorem parseUnits_of_ne {nColor : Int32} (h : rest.head? ≠ some '.') :
    parseUnits nColor rest = .ok (0, rest) := by
  cases rest with
  | nil => rfl
  | cons d p =>
    rw [parseUnits, if_neg fun hd => h (by rw [hd]; rfl)]
    rfl

/-- What is read behind a point. -/
theorem parseUnits_point (hc : c ≠ Color.none) (p : List Char) :
    ∃ F after u, p = F ++ after ∧ AllDigits F ∧ F.length ≤ decimalsRead c ∧
      (F.length = decimalsRead c ∨ NoDigit after) ∧
      parseUnits c.toInt32 ('.' :: p) = .ok (u, after) ∧
      u.toInt = unitsRead c F := by
  have hle : decimalsRead c ≤ 8 := by
    unfold decimalsRead
    split <;> decide
  have hpow : (10 : Int) ^ decimalsRead c ≤ 10 ^ 8 := pow_le_pow_right₀ (by decide) hle
  obtain ⟨F, after, hp, hF, hlen, hend, hafter, hunits⟩ :=
    scanFraction_spec p (decimalsRead c) 0 hle (by decide) (by simpa using hpow)
  refine ⟨F, after, (scanFraction (scale (decimalsRead c)) 0 p).1, hp, hF, hlen, hend, ?_, ?_⟩
  · rw [parseUnits, if_pos rfl, tableIndex_toInt32, ← hafter, ← cent_eq_scale hc]
    rfl
  · rw [hunits, unitsRead]
    push_cast
    simp

/-- The checks behind the two loops. -/
theorem parseMoney_of_scan (hc : c ≠ Color.none) {after : List Char}
    (hscan : scanWhole ((cStr str).dropWhile isSpace) = some (W, rest))
    (hunits : parseUnits c.toInt32 rest = .ok (u, after)) :
    parseMoney str c.toInt32 = .ok r ↔ (∀ d ∈ after, isSpace d = true) ∧ W.length ≤ 10 ∧
      ¬ (u < 0 ∨ u > coin c) ∧ atoi64 W * coin c + u = r := by
  have hcolor : ∀ d : Color, d ≠ Color.none →
      ¬ (d.toInt32 < 1 ∨ d.toInt32 > Int32.ofNat nColors) := by
    decide
  unfold parseMoney
  rw [hscan]
  simp only [bind_eq_ok, refuse_eq_ok, hunits, tableIndex_toInt32, pure_eq_ok, Except.ok.injEq,
    exists_eq_left', Bool.not_eq_false, List.all_eq_true, not_lt]
  constructor
  · rintro ⟨-, -, -, hspaces, -, hlen, -, hrange, heq⟩
    exact ⟨hspaces, hlen, hrange, heq⟩
  · rintro ⟨hspaces, hlen, hrange, heq⟩
    exact ⟨(), hcolor c hc, (), hspaces, (), hlen, (), hrange, heq⟩

/-- No overflow on the way to the amount. -/
theorem toInt_parsed (hc : c ≠ Color.none) (hW : AllDigits W) (hlen : W.length ≤ 10)
    (h0 : 0 ≤ u.toInt) (hu : u.toInt ≤ (coin c).toInt) :
    (atoi64 W * coin c + u).toInt =
      Nat.ofDigitChars 10 W 0 * (coin c).toInt + u.toInt := by
  have hwhole := atoi64_digits hW hlen
  have hlt : Nat.ofDigitChars 10 W 0 < 10 ^ 10 :=
    lt_of_lt_of_le (ofDigitChars_lt hW) (Nat.pow_le_pow_right (by decide) hlen)
  rcases coin_cases hc with hcoin | hcoin
  · have hone : (coin c).toInt = 1 := by rw [hcoin]; rfl
    rw [Int64.toInt_add, Int64.toInt_mul, hwhole, hone,
      Int.bmod_eq_of_le (n := Nat.ofDigitChars 10 W 0 * 1) (by omega) (by omega),
      Int.bmod_eq_of_le (by omega) (by omega)]
  · have hcoins : (coin c).toInt = 100000000 := by rw [hcoin]; rfl
    rw [Int64.toInt_add, Int64.toInt_mul, hwhole, hcoins,
      Int.bmod_eq_of_le (n := Nat.ofDigitChars 10 W 0 * 100000000) (by omega) (by omega),
      Int.bmod_eq_of_le (by omega) (by omega)]

/-- **The texts that are accepted, and the amount.** -/
theorem parseMoney_ok_iff (hc : c ≠ Color.none) :
    parseMoney str c.toInt32 = .ok r ↔
      ∃ W F, Spells (cStr str) W F ∧ W.length ≤ 10 ∧ F.length ≤ decimalsRead c ∧
        (unitsRead c F : Int) ≤ (coin c).toInt ∧
        r.toInt = Nat.ofDigitChars 10 W 0 * (coin c).toInt + unitsRead c F := by
  constructor
  · intro h
    cases hscan : scanWhole ((cStr str).dropWhile isSpace) with
    | none =>
      unfold parseMoney at h
      rw [hscan] at h
      simp at h
    | some q =>
      obtain ⟨W, rest⟩ := q
      obtain ⟨hstr, hW, -⟩ := scanWhole_iff.mp hscan
      by_cases hdot : rest.head? = some '.'
      · obtain ⟨p, rfl⟩ := List.head?_eq_some_iff.mp hdot
        obtain ⟨F, after, u, rfl, hF, hplaces, -, hunits, hu⟩ := parseUnits_point hc p
        obtain ⟨hspaces, hlen, hrange, rfl⟩ := (parseMoney_of_scan hc hscan hunits).mp h
        rw [not_or, Int64.not_lt, Int64.not_lt, Int64.le_iff_toInt_le, Int64.le_iff_toInt_le]
          at hrange
        have hspells : Spells (cStr str) W F :=
          ⟨hW, hF, '.' :: F, after, Or.inl rfl, hspaces, by rw [hstr, List.cons_append]⟩
        refine ⟨W, F, hspells, hlen, hplaces, by rw [← hu]; exact hrange.2, ?_⟩
        rw [toInt_parsed hc hW hlen hrange.1 hrange.2, hu]
      · obtain ⟨hspaces, hlen, hrange, rfl⟩ :=
          (parseMoney_of_scan hc hscan (parseUnits_of_ne hdot)).mp h
        rw [not_or, Int64.not_lt, Int64.not_lt, Int64.le_iff_toInt_le, Int64.le_iff_toInt_le]
          at hrange
        have hspells : Spells (cStr str) W [] :=
          ⟨hW, fun _ => nofun, [], rest, Or.inr ⟨rfl, rfl⟩, hspaces, by rw [hstr, List.nil_append]⟩
        have hzero : unitsRead c [] = 0 := by rw [unitsRead, Nat.ofDigitChars_nil, Nat.zero_mul]
        refine ⟨W, [], hspells, hlen, Nat.zero_le _, by rw [hzero]; exact hrange.2, ?_⟩
        rw [toInt_parsed hc hW hlen hrange.1 hrange.2, hzero]
        rfl
  · rintro ⟨W, F, ⟨hW, hF, point, after, hpoint, hafter, hstr⟩, hlen, hplaces, hunits, hr⟩
    have hreads : ∃ u, parseUnits c.toInt32 (point ++ after) = .ok (u, after) ∧
        u.toInt = unitsRead c F ∧ Stops (point ++ after) := by
      rcases hpoint with rfl | ⟨rfl, rfl⟩
      · obtain ⟨F', after', u, hp, hF', -, hend, hparse, hu⟩ := parseUnits_point hc (F ++ after)
        obtain ⟨rfl, rfl⟩ : F' = F ∧ after' = after := by
          rcases hend with hfull | hno
          · exact digits_append_inj_of_length hF' (noDigit_of_spaces hafter) (by omega) hp.symm
          · exact digits_append_inj hF' hF hno (noDigit_of_spaces hafter) hp.symm
        refine ⟨u, hparse, hu, fun d hd => ?_⟩
        cases hd
        exact Or.inl rfl
      · have hne : after.head? ≠ some '.' := fun hd =>
          absurd (hafter '.' (List.mem_of_mem_head? hd)) (by decide)
        refine ⟨0, parseUnits_of_ne hne, ?_, fun d hd => Or.inr ?_⟩
        · rw [unitsRead, Nat.ofDigitChars_nil, Nat.zero_mul]
          rfl
        · exact hafter d (List.mem_of_mem_head? hd)
    obtain ⟨u, hparse, hu, hstops⟩ := hreads
    have hscan := scanWhole_iff.mpr ⟨hstr, hW, hstops⟩
    have h0 : 0 ≤ u.toInt := by rw [hu]; exact Int.natCast_nonneg _
    rw [← hu] at hunits hr
    refine (parseMoney_of_scan hc hscan hparse).mpr ⟨hafter, hlen, ?_, ?_⟩
    · rw [not_or, Int64.not_lt, Int64.not_lt, Int64.le_iff_toInt_le, Int64.le_iff_toInt_le]
      exact ⟨h0, hunits⟩
    · exact Int64.toInt_inj.mp (by rw [toInt_parsed hc hW hlen h0 hunits, hr])

/-! ## 5. When the codec is right -/

/-- The amount comes back from its text. -/
def RoundTrips (n : Int64) (c : Color) (fPlus fShowTicker : Bool) : Prop :=
  ∃ str, formatMoney n c.toInt32 fPlus fShowTicker = .ok str ∧ parseMoney str c.toInt32 = .ok n

/-- No table is read outside the colours, and what is accepted is read as the amount it spells. -/
def ReadsExactly (str : List Char) (nColor : Int32) : Prop :=
  InBounds (parseMoney str nColor) ∧ ∀ r, parseMoney str nColor = .ok r →
    ∃ (c : Color) (W F : List Char), nColor = c.toInt32 ∧ c ≠ Color.none ∧ Spells (cStr str) W F ∧
      (r.toInt : ℚ) = decimal W F * (coin c).toInt

/-- The text gets the reader to a table: digits up to a point, or at most ten of them and spaces. -/
def ReachesTable (str : List Char) : Prop :=
  ∃ W rest, AllDigits W ∧ (cStr str).dropWhile isSpace = W ++ rest ∧
    (rest.head? = some '.' ∨ W.length ≤ 10 ∧ ∀ c ∈ rest, isSpace c = true)

/-- The text spells one hundredth behind the point, of a colour that cannot be divided. -/
def SpellsHundredth (str : List Char) (nColor : Int32) : Prop :=
  ∃ (c : Color) (W : List Char), nColor = c.toInt32 ∧ coin c = 1 ∧ W.length ≤ 10 ∧
    Spells (cStr str) W ['0', '1']

/-- Decimals that are worth at most one unit where two are read. -/
theorem hundredth (hF : AllDigits F) (hlen : F.length ≤ 2)
    (hle : Nat.ofDigitChars 10 F 0 * 10 ^ (2 - F.length) ≤ 1) :
    Nat.ofDigitChars 10 F 0 = 0 ∨ F = ['0', '1'] := by
  match F, hF, hlen with
  | [], _, _ => exact Or.inl rfl
  | [a], hF, _ =>
    simp only [List.length_singleton] at hle
    omega
  | [a, b], hF, _ =>
    have ha := toNat_of_isDigit (hF a (by simp))
    have hb := toNat_of_isDigit (hF b (by simp))
    have hof : ∀ {d : Char}, 48 ≤ d.toNat → ∀ k, d.toNat - 48 = k → d = Char.ofNat (48 + k) := by
      intro d hd k hk
      rw [← Char.ofNat_toNat d]
      congr 1
      omega
    simp only [ofDigitChars_cons_eq, List.length_cons, List.length_nil, Nat.ofDigitChars_nil] at hle ⊢
    by_cases hone : b.toNat - 48 = 1
    · right
      rw [hof ha.1 0 (by omega), hof hb.1 1 hone]
    · left
      omega
  | _ :: _ :: _ :: _, _, hlen => simp at hlen

theorem inBounds_parseMoney (str : List Char) : InBounds (parseMoney str c.toInt32) := by
  have hunits : ∀ p, InBounds (parseUnits c.toInt32 p) := by
    intro p
    cases p with
    | nil => exact inBounds_ok _
    | cons d p =>
      rw [parseUnits, tableIndex_toInt32]
      split <;> exact inBounds_ok _
  unfold parseMoney
  refine inBounds_bind.mpr ⟨inBounds_refuse, fun _ _ => ?_⟩
  cases scanWhole ((cStr str).dropWhile isSpace) with
  | none => exact fun _ => nofun
  | some q =>
    refine inBounds_bind.mpr ⟨hunits _, fun _ _ => inBounds_bind.mpr ⟨inBounds_refuse, fun _ _ =>
      inBounds_bind.mpr ⟨inBounds_refuse, fun _ _ => ?_⟩⟩⟩
    rw [tableIndex_toInt32]
    exact inBounds_bind.mpr ⟨inBounds_ok _, fun _ _ =>
      inBounds_bind.mpr ⟨inBounds_refuse, fun _ _ => inBounds_ok _⟩⟩

theorem readsExactly_color (hc : c ≠ Color.none) (str : List Char) :
    ReadsExactly str c.toInt32 ↔ ¬ SpellsHundredth str c.toInt32 := by
  constructor
  · rintro ⟨-, hexact⟩ ⟨d, W, hd, hone, hlen, hspells⟩
    obtain rfl : c = d := Color.toInt32_inj.mp hd
    have hcoin : (coin c).toInt = 1 := by rw [hone]; rfl
    have hunits : unitsRead c ['0', '1'] = 1 := by
      rw [unitsRead, decimalsRead, if_pos hone]
      decide
    have hlt : Nat.ofDigitChars 10 W 0 < 10 ^ 10 :=
      lt_of_lt_of_le (ofDigitChars_lt hspells.1) (Nat.pow_le_pow_right (by decide) hlen)
    have hr : (Int64.ofInt (Nat.ofDigitChars 10 W 0 + 1)).toInt = Nat.ofDigitChars 10 W 0 + 1 :=
      toInt_ofInt_of_fits ⟨by omega, by omega⟩
    have hread : parseMoney str c.toInt32 = .ok (Int64.ofInt (Nat.ofDigitChars 10 W 0 + 1)) := by
      refine (parseMoney_ok_iff hc).mpr ⟨W, ['0', '1'], hspells, hlen, ?_, ?_, ?_⟩
      · rw [decimalsRead, if_pos hone]
        decide
      · rw [hunits, hcoin]
        decide
      · rw [hr, hunits, hcoin]
        omega
    obtain ⟨d, W', F', hd, -, hspells', heq⟩ := hexact _ hread
    obtain rfl : c = d := Color.toInt32_inj.mp hd
    obtain ⟨rfl, rfl⟩ := hspells.unique hspells'
    have hval : Nat.ofDigitChars 10 ['0', '1'] 0 = 1 := by decide
    rw [hr, hcoin, decimal, hval] at heq
    push_cast at heq
    norm_num at heq
  · intro hno
    refine ⟨inBounds_parseMoney str, fun r hr => ?_⟩
    obtain ⟨W, F, hspells, hlen, hplaces, hunits, hr⟩ := (parseMoney_ok_iff hc).mp hr
    refine ⟨c, W, F, rfl, hc, hspells, ?_⟩
    rw [hr]
    rcases coin_cases hc with hone | hcoin
    · have hcoin : (coin c).toInt = 1 := by rw [hone]; rfl
      rw [decimalsRead, if_pos hone] at hplaces
      rw [hcoin, unitsRead, decimalsRead, if_pos hone] at hunits
      rcases hundredth hspells.2.1 hplaces (by omega) with hzero | rfl
      · rw [hcoin, unitsRead, hzero, decimal, hzero]
        push_cast
        ring
      · exact absurd ⟨c, W, rfl, hone, hlen, hspells⟩ hno
    · have hne : coin c ≠ 1 := by rw [hcoin]; decide
      have hcoins : (coin c).toInt = 10 ^ 8 := by rw [hcoin]; rfl
      rw [decimalsRead, if_neg hne] at hplaces
      rw [hcoins, unitsRead, decimalsRead, if_neg hne]
      have hscale := decimal_mul_pow (W := W) hplaces
      push_cast at hscale ⊢
      rw [← hscale]
      norm_num

/-- `N_COLORS`, taken for a colour. -/
theorem readsExactly_nColors (str : List Char) :
    ReadsExactly str (Int32.ofNat nColors) ↔ ¬ ReachesTable str := by
  have hoff : tableIndex (Int32.ofNat nColors) = .error (.oob 58) := by decide
  have hstart : ∀ {α : Type} (next : Unit → Run α), (refuse (Int32.ofNat nColors < 1 ∨
      Int32.ofNat nColors > Int32.ofNat nColors) 0 "" >>= next) = next () := by
    intro α next
    rw [refuse, if_neg (by decide)]
    rfl
  cases hscan : scanWhole ((cStr str).dropWhile isSpace) with
  | none =>
    have hparse : parseMoney str (Int32.ofNat nColors) = .error (.reject 0 "") := by
      unfold parseMoney
      rw [hstart, hscan]
    refine iff_of_true ⟨by rw [hparse]; exact fun _ => nofun, by rw [hparse]; exact fun _ => nofun⟩ ?_
    rintro ⟨W, rest, hW, hstr, hrest⟩
    have hstops : Stops rest := by
      rcases hrest with hdot | ⟨-, hspaces⟩
      · intro d hd
        rw [hdot] at hd
        cases hd
        exact Or.inl rfl
      · exact fun d hd => Or.inr (hspaces d (List.mem_of_mem_head? hd))
    rw [scanWhole_iff.mpr ⟨hstr, hW, hstops⟩] at hscan
    cases hscan
  | some q =>
    obtain ⟨W, rest⟩ := q
    obtain ⟨hstr, hW, hstops⟩ := scanWhole_iff.mp hscan
    by_cases hreach : rest.head? = some '.' ∨ W.length ≤ 10 ∧ ∀ c ∈ rest, isSpace c = true
    · have hparse : parseMoney str (Int32.ofNat nColors) = .error (.oob 58) := by
        unfold parseMoney
        rw [hstart, hscan]
        by_cases hdot : rest.head? = some '.'
        · obtain ⟨p, rfl⟩ := List.head?_eq_some_iff.mp hdot
          dsimp only
          rw [parseUnits, if_pos rfl, hoff]
          rfl
        · obtain ⟨hlen, hspaces⟩ := hreach.resolve_left hdot
          dsimp only
          rw [parseUnits_of_ne hdot, hoff]
          have hall : rest.all isSpace = true := List.all_eq_true.mpr hspaces
          simp only [refuse, bind, Except.bind, hall, if_neg (not_lt.mpr hlen)]
          rfl
      refine iff_of_false ?_ (not_not.mpr ⟨W, rest, hW, hstr, hreach⟩)
      rintro ⟨hin, -⟩
      exact hin 58 hparse
    · rw [not_or] at hreach
      obtain ⟨hdot, hguard⟩ := hreach
      have hparse : parseMoney str (Int32.ofNat nColors) = .error (.reject 0 "") := by
        unfold parseMoney
        rw [hstart, hscan]
        dsimp only
        rw [parseUnits_of_ne hdot]
        by_cases hspaces : ∀ c ∈ rest, isSpace c = true
        · have hlen : W.length > 10 := not_le.mp fun hlen => hguard ⟨hlen, hspaces⟩
          have hall : rest.all isSpace = true := List.all_eq_true.mpr hspaces
          simp only [refuse, bind, Except.bind, hall, if_pos hlen]
          rfl
        · have hall : rest.all isSpace = false := by
            rw [Bool.eq_false_iff]
            exact fun h => hspaces (List.all_eq_true.mp h)
          simp only [refuse, bind, Except.bind, hall]
          rfl
      refine iff_of_true ⟨by rw [hparse]; exact fun _ => nofun, by rw [hparse]; exact fun _ => nofun⟩ ?_
      rintro ⟨W', rest', hW', hstr', hreach'⟩
      have hno' : NoDigit rest' := by
        rcases hreach' with hdot' | ⟨-, hspaces⟩
        · intro d hd
          rw [hdot'] at hd
          cases hd
          rfl
        · exact noDigit_of_spaces hspaces
      obtain ⟨rfl, rfl⟩ := digits_append_inj hW hW' hstops.noDigit hno' (by rw [← hstr, hstr'])
      rcases hreach' with hdot' | hguard'
      · exact hdot hdot'
      · exact hguard hguard'

theorem readsExactly_iff (str : List Char) (nColor : Int32) :
    ReadsExactly str nColor ↔
      ¬ (nColor = Int32.ofNat nColors ∧ ReachesTable str) ∧ ¬ SpellsHundredth str nColor := by
  have hno : ∀ c : Color, c.toInt32 ≠ Int32.ofNat nColors := by decide
  by_cases hcolor : ∃ c : Color, c ≠ Color.none ∧ nColor = c.toInt32
  · obtain ⟨c, hc, rfl⟩ := hcolor
    rw [readsExactly_color hc, and_iff_right fun h => hno c h.1]
  by_cases hlast : nColor = Int32.ofNat nColors
  · subst hlast
    rw [readsExactly_nColors, and_iff_left]
    · exact ⟨fun h h' => h h'.2, fun h h' => h ⟨rfl, h'⟩⟩
    · rintro ⟨c, -, hc, -⟩
      exact hno c hc.symm
  · have hout : nColor < 1 ∨ nColor > Int32.ofNat nColors := by
      by_contra hin
      rw [not_or, Int32.not_lt, Int32.not_lt, Int32.le_iff_toInt_le, Int32.le_iff_toInt_le] at hin
      have hone : (1 : Int32).toInt = 1 := by decide
      have hmax : (Int32.ofNat nColors).toInt = 58 := by decide
      have hne : nColor.toInt ≠ 58 := fun h => hlast (Int32.toInt_inj.mp (by rw [h, hmax]))
      obtain ⟨c, rfl⟩ := inTable_iff.mp (show InTable nColor from ⟨by omega, by
        simp only [nColors]
        omega⟩)
      refine hcolor ⟨c, ?_, rfl⟩
      rintro rfl
      exact absurd hin.1 (by decide)
    have hparse : parseMoney str nColor = .error (.reject 0 "") := by
      unfold parseMoney
      rw [refuse, if_pos hout]
      rfl
    refine iff_of_true ⟨by rw [hparse]; exact fun _ => nofun, by rw [hparse]; exact fun _ => nofun⟩
      ⟨fun h => hlast h.1, ?_⟩
    rintro ⟨c, W, rfl, hone, -⟩
    refine hcolor ⟨c, ?_, rfl⟩
    rintro rfl
    exact absurd hone (by decide)

/-! ## 6. What is written -/

theorem trimZeros_spec (w : List Char) : ∀ ds : List Char, AllDigits ds → 2 ≤ ds.length →
    ∃ k ds', ds = List.replicate k '0' ++ ds' ∧ trimZeros (ds ++ '.' :: w) = ds' ++ '.' :: w
  | [], _, hlen => by simp at hlen
  | [_], _, hlen => by simp at hlen
  | [z, b], _, _ => by
    refine ⟨0, [z, b], rfl, ?_⟩
    rw [List.cons_append, List.cons_append, List.nil_append, trimZeros,
      if_neg fun h => absurd h.2 (by decide)]
  | z :: b :: a :: rest, hds, _ => by
    by_cases hz : z = '0' ∧ a.isDigit = true
    · obtain ⟨k, ds', hsplit, htrim⟩ := trimZeros_spec w (b :: a :: rest)
        (hds.sublist (List.sublist_cons_self ..)) (by simp)
      refine ⟨k + 1, ds', by rw [hz.1, hsplit, List.replicate_succ, List.cons_append], ?_⟩
      rw [← htrim, List.cons_append, List.cons_append, List.cons_append, trimZeros, if_pos hz]
    · refine ⟨0, z :: b :: a :: rest, rfl, ?_⟩
      rw [List.cons_append, List.cons_append, List.cons_append, trimZeros, if_neg hz]

/-- The digits of a number below `10 ^ width`, filled to that width. -/
theorem printInt_spec {width : Nat} {x : Int64} (h0 : 0 ≤ x.toInt) (hwidth : 0 < width)
    (hlt : x.toInt < 10 ^ width) :
    ∃ F, printInt width x = F ∧ AllDigits F ∧ F.length = width ∧
      (Nat.ofDigitChars 10 F 0 : Int) = x.toInt := by
  obtain ⟨n, hn⟩ := Int.eq_ofNat_of_zero_le h0
  rw [hn] at hlt
  have hlen : (Nat.toDigits 10 n).length ≤ width :=
    (Nat.length_toDigits_le_iff (by decide) hwidth).mpr (by exact_mod_cast hlt)
  have hneg : ¬ x < 0 := by
    rw [Int64.not_lt, Int64.le_iff_toInt_le]
    exact h0
  refine ⟨_, rfl, ?_, ?_, ?_⟩ <;> rw [printInt, if_neg hneg, hn, Int.natAbs_natCast]
  · exact (allDigits_replicate _).append (allDigits_toDigits n)
  · rw [List.length_append, List.length_replicate]
    omega
  · rw [Nat.ofDigitChars_append, Nat.ofDigitChars_replicate_zero, Nat.mul_zero,
      Nat.ofDigitChars_ten_toDigits]

/-- Eight decimals, of which zeros are cut. -/
theorem trimmed_spec (hF : AllDigits F) (hlen : F.length = 8) (w : List Char) :
    ∃ F', (trimZeros (w ++ '.' :: F).reverse).reverse = w ++ '.' :: F' ∧ AllDigits F' ∧
      F'.length ≤ 8 ∧
      Nat.ofDigitChars 10 F' 0 * 10 ^ (8 - F'.length) = Nat.ofDigitChars 10 F 0 := by
  have hrev : AllDigits F.reverse := fun c hc => hF c (List.mem_reverse.mp hc)
  obtain ⟨k, ds, hsplit, htrim⟩ := trimZeros_spec w.reverse F.reverse hrev
    (by rw [List.length_reverse]; omega)
  have hback : F = ds.reverse ++ List.replicate k '0' := by
    rw [← List.reverse_reverse F, hsplit, List.reverse_append, List.reverse_replicate]
  have hcount : ds.reverse.length + k = 8 := by
    rw [← hlen, hback, List.length_append, List.length_replicate]
  refine ⟨ds.reverse, ?_, hF.sublist (by rw [hback]; exact List.sublist_append_left ..), by omega, ?_⟩
  · rw [List.reverse_append, List.reverse_cons, List.append_assoc, List.singleton_append, htrim,
      List.reverse_append, List.reverse_cons, List.reverse_reverse, List.append_assoc,
      List.singleton_append]
  · have hk : 8 - ds.reverse.length = k := by omega
    rw [hback, Nat.ofDigitChars_append, Nat.ofDigitChars_replicate_zero, hk, Nat.mul_comm]

/-- **The text of an amount**: its whole digits, a point, decimals that are worth the rest, and the
sign and ticker that were asked for. -/
theorem formatMoney_spec (hc : c ≠ Color.none) (hn : moneyRange n c = true)
    (fPlus fShowTicker : Bool) :
    ∃ F, formatMoney n c.toInt32 fPlus fShowTicker =
        .ok ((if fPlus = true ∧ n > 0 then ['+'] else []) ++
          (Nat.toDigits 10 (n.toInt / (coin c).toInt).toNat ++ '.' :: F) ++
            if fShowTicker = true then ' ' :: colorTicker c else []) ∧
      AllDigits F ∧ F.length ≤ decimalsRead c ∧ (unitsRead c F : Int) = n.toInt % (coin c).toInt := by
  obtain ⟨h0, -⟩ := moneyRange_iff.mp hn
  have hneg : ¬ n < 0 := by
    rw [Int64.not_lt, Int64.le_iff_toInt_le]
    exact h0
  have habs : (if n > 0 then n else -n) = n := by
    split
    · rfl
    · next hpos =>
      have hzero : n = 0 := Int64.le_antisymm (Int64.not_lt.mp hpos) (Int64.not_lt.mp hneg)
      rw [hzero]
      rfl
  have hcheck : checkColor c.toInt32 = true := (checkColor_toInt32 c).mpr hc
  have hcoin : 0 < (coin c).toInt ∧ coin c ≠ -1 := by
    rcases coin_cases hc with h | h <;> rw [h] <;> decide
  have hquot : (n / coin c).toInt = n.toInt / (coin c).toInt := by
    rw [Int64.toInt_div_of_ne_right _ _ hcoin.2, Int.tdiv_eq_ediv_of_nonneg h0]
  have hrem : (n % coin c).toInt = n.toInt % (coin c).toInt := by
    rw [Int64.toInt_mod, Int.tmod_eq_emod_of_nonneg h0]
  have hquot0 : 0 ≤ n.toInt / (coin c).toInt := Int.ediv_nonneg h0 hcoin.1.le
  have hrem0 : 0 ≤ n.toInt % (coin c).toInt := Int.emod_nonneg _ hcoin.1.ne'
  have hwhole : printInt 0 (n / coin c) = Nat.toDigits 10 (n.toInt / (coin c).toInt).toNat := by
    have hneg' : ¬ n / coin c < 0 := by
      rw [Int64.not_lt, Int64.le_iff_toInt_le, hquot]
      exact hquot0
    rw [printInt, if_neg hneg', Nat.zero_sub, List.replicate_zero, List.nil_append, hquot]
    congr 1
    omega
  -- the decimals, with the zeros cut
  have hdecimals : ∃ F, (trimZeros (printInt 0 (n / coin c) ++ '.' :: printInt 8 (n % coin c)).reverse).reverse =
        printInt 0 (n / coin c) ++ '.' :: F ∧
      AllDigits F ∧ F.length ≤ decimalsRead c ∧ (unitsRead c F : Int) = n.toInt % (coin c).toInt := by
    rcases coin_cases hc with hone | hcoins
    · have hzero : n % coin c = 0 := by
        apply Int64.toInt_inj.mp
        rw [hrem, hone]
        exact Int.emod_one _
      have hprint : printInt 8 (n % coin c) = "00000000".toList := by
        rw [hzero]
        decide
      refine ⟨['0', '0'], ?_, by decide, ?_, ?_⟩
      · have htrim : ∀ w, trimZeros (('.' :: "00000000".toList).reverse ++ w) =
            '0' :: '0' :: '.' :: w := fun _ => rfl
        rw [hprint, List.reverse_append, htrim]
        simp
      · rw [decimalsRead, if_pos hone]
        decide
      · rw [unitsRead, decimalsRead, if_pos hone, ← hrem, hzero]
        decide
    · have hne : coin c ≠ 1 := by rw [hcoins]; decide
      have hlt : (n % coin c).toInt < 10 ^ 8 := by
        rw [hrem, hcoins]
        exact Int.emod_lt_of_pos _ (by decide)
      obtain ⟨F, hprint, hF, hlen, hval⟩ :=
        @printInt_spec 8 _ (by rw [hrem]; exact hrem0) (by decide) hlt
      obtain ⟨F', htrim, hF', hlen', hval'⟩ := trimmed_spec hF hlen (printInt 0 (n / coin c))
      refine ⟨F', by rw [hprint, htrim], hF', by rw [decimalsRead, if_neg hne]; exact hlen', ?_⟩
      rw [unitsRead, decimalsRead, if_neg hne, hval', hval, hrem]
  obtain ⟨F, htrim, hF, hplaces, hunits⟩ := hdecimals
  refine ⟨F, ?_, hF, hplaces, hunits⟩
  unfold formatMoney
  rw [if_neg (by rw [hcheck]; decide), tableIndex_toInt32]
  change Except.ok _ = _
  rw [Except.ok.injEq, habs, htrim, if_neg hneg, hwhole]
  split_ifs <;> simp

theorem isDigit_ne_null {c : Char} (h : c.isDigit = true) : c ≠ '\x00' := by
  rintro rfl
  exact absurd h (by decide)

theorem cStr_eq (h : ∀ c ∈ str, c ≠ '\x00') : cStr str = str :=
  List.takeWhile_eq_self_iff.mpr fun c hc => decide_eq_true (h c hc)

/-- Every ticker has a character that no amount has. -/
theorem exists_mem_colorTicker (c : Color) : ∃ d ∈ colorTicker c,
    ¬ (d.isDigit = true ∨ isSpace d = true ∨ d = '.') := by
  have hany : (colorTicker c).any (fun d =>
      decide (¬ (d.isDigit = true ∨ isSpace d = true ∨ d = '.'))) = true := by
    revert c
    decide
  obtain ⟨d, hd, hother⟩ := List.any_eq_true.mp hany
  exact ⟨d, hd, of_decide_eq_true hother⟩

theorem colorTicker_ne_null (c : Color) : ∀ d ∈ colorTicker c, d ≠ '\x00' := by
  have hall : (colorTicker c).all (fun d => decide (d ≠ '\x00')) = true := by
    revert c
    decide
  exact fun d hd => of_decide_eq_true (List.all_eq_true.mp hall d hd)

theorem spells_text (q : Nat) (hF : AllDigits F) :
    Spells (Nat.toDigits 10 q ++ '.' :: F) (Nat.toDigits 10 q) F := by
  have hq := allDigits_toDigits q
  refine ⟨hq, hF, '.' :: F, [], Or.inl rfl, fun _ => nofun, ?_⟩
  cases hd : Nat.toDigits 10 q with
  | nil => exact absurd hd Nat.toDigits_ne_nil
  | cons d ds =>
    have hdigit := hq d (by rw [hd]; exact List.mem_cons_self)
    rw [List.append_nil, List.cons_append, List.dropWhile_cons_of_neg]
    intro hspace
    rw [isSpace_not_isDigit hspace] at hdigit
    cases hdigit

/-- The most coins of a colour have ten digits or fewer, but for one colour, whose coins are units.
-/
theorem maxMoney_digits : ∀ c : Color, c ≠ Color.none →
    (maxMoney c).toInt < 10 ^ 10 * (coin c).toInt ∨
      c = Color.bam ∧ (maxMoney c).toInt = 10 ^ 10 ∧ (coin c).toInt = 1 := by
  decide

/-- **When an amount comes back**: written without ticker and sign, and with ten digits or fewer. -/
theorem roundTrips_iff (hc : c ≠ Color.none) (hn : moneyRange n c = true)
    (fPlus fShowTicker : Bool) :
    RoundTrips n c fPlus fShowTicker ↔ fShowTicker = false ∧ (fPlus = false ∨ n = 0) ∧
      ¬ (c = Color.bam ∧ n = 10000000000) := by
  obtain ⟨h0, hmax⟩ := moneyRange_iff.mp hn
  obtain ⟨F, hformat, hF, hplaces, hunits⟩ := formatMoney_spec hc hn fPlus fShowTicker
  have hcoin : 0 < (coin c).toInt := by
    rcases coin_cases hc with h | h <;> rw [h] <;> decide
  have hquot0 : 0 ≤ n.toInt / (coin c).toInt := Int.ediv_nonneg h0 hcoin.le
  have hbody : ∀ d ∈ Nat.toDigits 10 (n.toInt / (coin c).toInt).toNat ++ '.' :: F, d ≠ '\x00' := by
    intro d hd
    rcases List.mem_append.mp hd with hd | hd
    · exact isDigit_ne_null (allDigits_toDigits _ d hd)
    · rcases List.mem_cons.mp hd with rfl | hd
      · decide
      · exact isDigit_ne_null (hF d hd)
  have hspells := spells_text (n.toInt / (coin c).toInt).toNat hF
  -- ten digits are enough, but for the one amount
  have hten : (Nat.toDigits 10 (n.toInt / (coin c).toInt).toNat).length ≤ 10 ↔
      ¬ (c = Color.bam ∧ n = 10000000000) := by
    rw [Nat.length_toDigits_le_iff (by decide) (by decide)]
    rcases maxMoney_digits c hc with hlt | ⟨rfl, hmoney, hone⟩
    · have hq : n.toInt / (coin c).toInt < 10 ^ 10 :=
        Int.ediv_lt_of_lt_mul hcoin (lt_of_le_of_lt hmax hlt)
      refine iff_of_true (by omega) ?_
      rintro ⟨rfl, -⟩
      exact absurd hlt (by decide)
    · rw [hone, Int.ediv_one, and_iff_right rfl, ← Int64.toInt_inj]
      have hall : (10000000000 : Int64).toInt = 10000000000 := by decide
      omega
  have hunit : (unitsRead c F : Int) ≤ (coin c).toInt := by
    rw [hunits]
    exact (Int.emod_lt_of_pos _ hcoin).le
  have hvalue : n.toInt = Nat.ofDigitChars 10 (Nat.toDigits 10 (n.toInt / (coin c).toInt).toNat) 0 *
      (coin c).toInt + unitsRead c F := by
    rw [Nat.ofDigitChars_ten_toDigits, Int.toNat_of_nonneg hquot0, hunits]
    exact (Int.ediv_mul_add_emod ..).symm
  constructor
  · rintro ⟨str, hstr, hparse⟩
    rw [hformat, Except.ok.injEq] at hstr
    subst hstr
    obtain ⟨W, F', hspells', hlen, -⟩ := (parseMoney_ok_iff hc).mp hparse
    rw [cStr_eq] at hspells'
    · have hchars := hspells'.chars
      have hticker : fShowTicker = false := by
        by_contra hshow
        obtain ⟨d, hd, hbad⟩ := exists_mem_colorTicker c
        rw [Bool.not_eq_false] at hshow
        refine hbad (hchars d (List.mem_append_right _ ?_))
        rw [if_pos hshow]
        exact List.mem_cons_of_mem _ hd
      have hsign : ¬ (fPlus = true ∧ n > 0) := by
        intro hplus
        rw [if_pos hplus] at hchars
        exact absurd (hchars '+' (by simp)) (by decide)
      rw [if_neg hsign, hticker, if_neg (by decide), List.nil_append, List.append_nil] at hspells'
      obtain ⟨rfl, -⟩ := hspells.unique hspells'
      refine ⟨hticker, ?_, hten.mp hlen⟩
      by_cases hplus : fPlus = true
      · refine Or.inr (Int64.toInt_inj.mp ?_)
        have hle : ¬ n > 0 := fun hpos => hsign ⟨hplus, hpos⟩
        rw [gt_iff_lt, Int64.not_lt, Int64.le_iff_toInt_le] at hle
        exact le_antisymm hle h0
      · exact Or.inl (Bool.not_eq_true _ ▸ hplus)
    · intro d hd
      rcases List.mem_append.mp hd with hd | hd
      · rcases List.mem_append.mp hd with hd | hd
        · split at hd
          · rw [List.mem_singleton.mp hd]
            decide
          · cases hd
        · exact hbody d hd
      · split at hd
        · rcases List.mem_cons.mp hd with rfl | hd
          · decide
          · exact colorTicker_ne_null c d hd
        · cases hd
  · rintro ⟨rfl, hsign, hamount⟩
    refine ⟨_, hformat, ?_⟩
    have hplain : ¬ (fPlus = true ∧ n > 0) := by
      rintro ⟨hplus, hpos⟩
      rcases hsign with h | rfl
      · rw [h] at hplus
        cases hplus
      · exact absurd hpos (by decide)
    rw [if_neg hplain, if_neg (by decide), List.nil_append, List.append_nil]
    exact (parseMoney_ok_iff hc).mpr ⟨_, F, by rw [cStr_eq hbody]; exact hspells, hten.mpr hamount,
      hplaces, hunit, hvalue⟩

/-- **What holds of amounts as text.**  For every colour and every amount in its range, with and
without sign and ticker, the amount comes back from its text exactly when there is neither, and it
is not the one of eleven digits.  And for every text and every number for a colour, what is accepted
is read exactly and no table is left, exactly when a colour is given and no hundredth is spelled of
a colour that cannot be divided. -/
theorem money_text_iff {c : Color} (hc : c ≠ Color.none) {n : Int64} (hn : moneyRange n c = true)
    (fPlus fShowTicker : Bool) (str : List Char) (nColor : Int32) :
    (RoundTrips n c fPlus fShowTicker ↔ fShowTicker = false ∧ (fPlus = false ∨ n = 0) ∧
      ¬ (c = Color.bam ∧ n = 10000000000)) ∧
    (ReadsExactly str nColor ↔
      ¬ (nColor = Int32.ofNat nColors ∧ ReachesTable str) ∧ ¬ SpellsHundredth str nColor) :=
  ⟨roundTrips_iff hc hn fPlus fShowTicker, readsExactly_iff str nColor⟩

/-- A coin and a half of BRX. -/
theorem money_text_iff_brx :
    RoundTrips 150000000 Color.brx false false ∧ ReadsExactly "1.5".toList Color.brx.toInt32 := by
  have hiff := money_text_iff (c := .brx) (n := 150000000) (by decide) (by decide) false false
    "1.5".toList Color.brx.toInt32
  refine ⟨hiff.1.mpr ⟨rfl, Or.inl rfl, by decide⟩, hiff.2.mpr ⟨fun h => ?_, ?_⟩⟩
  · exact absurd h.1 (by decide)
  · rintro ⟨c, W, hcolor, hcoin, -⟩
    rw [← Color.toInt32_injective hcolor] at hcoin
    exact absurd hcoin (by decide)

/-- **The ways to be wrong**: one hundredth of a coin that cannot be divided is read as one coin,
the number of colours is an index, ten billion coins do not come back, and with a ticker no amount
does. -/
theorem hundredth_read_as_coin :
    (parseMoney "0.01".toList Color.bam.toInt32 = .ok 1 ∧
      ¬ ReadsExactly "0.01".toList Color.bam.toInt32) ∧
    parseMoney "1".toList (Int32.ofNat nColors) = .error (.oob 58) ∧
    ¬ RoundTrips 10000000000 Color.bam false false ∧ ¬ RoundTrips 0 Color.brx false true := by
  refine ⟨⟨by decide +kernel, fun h => ?_⟩, by decide +kernel, fun h => ?_, fun h => ?_⟩
  · refine (readsExactly_color (by decide) _).mp h ⟨Color.bam, ['0'], rfl, by decide, by decide, ?_⟩
    exact ⟨by decide, by decide, ".01".toList, [], Or.inl rfl, nofun, by decide⟩
  · exact ((roundTrips_iff (by decide) (by decide) _ _).mp h).2.2 ⟨rfl, rfl⟩
  · exact absurd ((roundTrips_iff (by decide) (by decide) _ _).mp h).1 (by decide)

end Breakout
