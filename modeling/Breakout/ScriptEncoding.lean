/-
# Scripts are read as they were written

`operator<<` appends an opcode, or data after its length in one of four forms.  `GetOp2` reads one
instruction and moves on.  It compares the length with what is left of the script, and what is left
it takes as an `unsigned int`: in a script of `2^32` bytes and more, a push may be refused that is
there.

`decodeItems_iff` says for which sequences that does not happen; every script below `2^32` bytes is
among them (`ScriptItem.fits_of_length`).  And whatever bytes it is given, `GetOp2` moves forward
and stays inside (`getOp2_advances`).
-/
import Breakout.Script
import Mathlib.Data.List.GetD

namespace Breakout

open Lib

/-! ## 1. Writing and reading -/

/-- What is appended to a script: data, or an opcode that pushes none. -/
inductive ScriptItem where
  | push (vch : { vch : Valtype // vch.length < 2 ^ 32 })
  | op (opcode : { opcode : UInt8 // opPushdata4 < opcode })

/-- `operator<<` of an item. -/
def ScriptItem.bytes : ScriptItem → CScript
  | .push vch => pushData vch.val
  | .op opcode => [opcode.val]

/-- The items appended to an empty script. -/
def encodeItems (items : List ScriptItem) : CScript := items.flatMap ScriptItem.bytes

/-- The size of the immediate operand at `pc`, and where the operand begins. -/
def operandSize (script : CScript) (opcode : UInt8) (pc : Nat) : Option (Nat × Nat) :=
  if opcode < opPushdata1 then some (opcode.toNat, pc)
  else if opcode = opPushdata1 then
    if script.length - pc < 1 then none else some ((script.getD pc 0).toNat, pc + 1)
  else if opcode = opPushdata2 then
    if script.length - pc < 2 then none else some (leNat ((script.drop pc).take 2), pc + 2)
  else
    if script.length - pc < 4 then none else some (leNat ((script.drop pc).take 4), pc + 4)

/-- `GetOp2`: the opcode, the data it pushes, and where the next instruction begins. -/
def getOp2 (script : CScript) (pc : Nat) : Option (UInt8 × Valtype × Nat) :=
  if script.length ≤ pc then none
  else
    let opcode := script.getD pc 0
    if opcode ≤ opPushdata4 then
      match operandSize script opcode (pc + 1) with
      | none => none
      | some (nSize, pc) =>
        -- `(unsigned int)(end() - pc) < nSize`
        if (script.length - pc) % 2 ^ 32 < nSize then none
        else some (opcode, (script.drop pc).take nSize, pc + nSize)
    else some (opcode, [], pc + 1)

variable {script : CScript} {opcode : UInt8}

theorem operandSize_le {pc nSize pc' : Nat} (h : operandSize script opcode pc = some (nSize, pc'))
    (hpc : pc ≤ script.length) :
    pc ≤ pc' ∧ pc' ≤ script.length := by
  unfold operandSize at h
  split_ifs at h <;> cases h <;> omega

/-- **`GetOp2` moves forward, and not past the end.** -/
theorem getOp2_advances {pc pc' : Nat} {vch : Valtype}
    (h : getOp2 script pc = some (opcode, vch, pc')) : pc < pc' ∧ pc' ≤ script.length := by
  unfold getOp2 at h
  dsimp only at h
  split_ifs at h with hend hpush
  · have hpc : pc + 1 ≤ script.length := by omega
    split at h
    · cases h
    · next nSize pc'' hsize =>
      obtain ⟨hle, hin⟩ := operandSize_le hsize hpc
      split_ifs at h with hroom
      cases h
      -- what is left is no less than what the comparison takes it for
      have hmod := Nat.mod_le (script.length - pc'') (2 ^ 32)
      omega
  · cases h
    omega

/-- The script read with `GetOp` from `pc` on to the end; `none` when it returns false. -/
def decodeOps (script : CScript) (pc : Nat) : Option (List (UInt8 × Valtype)) :=
  if script.length ≤ pc then some []
  else
    match _h : getOp2 script pc with
    | none => none
    | some (opcode, vch, pc') => (decodeOps script pc').map ((opcode, vch) :: ·)
termination_by script.length - pc
decreasing_by
  have := getOp2_advances _h
  omega

/-- An instruction is read as the item it was written from. -/
def ScriptItem.ReadAs : ScriptItem → UInt8 × Valtype → Prop
  | .push vch, (opcode, vchRet) => opcode ≤ opPushdata4 ∧ vchRet = vch.val
  | .op opcode, (opcodeRet, vchRet) => opcodeRet = opcode.val ∧ vchRet = []

/-- The script is read as the items, and then ends. -/
def DecodesTo (script : CScript) (items : List ScriptItem) : Prop :=
  ∃ ops, decodeOps script 0 = some ops ∧ List.Forall₂ ScriptItem.ReadAs items ops

/-- What is left of the script after each length is not taken for less than the length. -/
def FitsCount : List ScriptItem → Prop
  | [] => True
  | .op _ :: items => FitsCount items
  | .push vch :: items =>
    vch.val.length ≤ (vch.val.length + (encodeItems items).length) % 2 ^ 32 ∧ FitsCount items

/-! ## 2. One instruction -/

section

variable {before after : CScript}

theorem getD_middle (b : UInt8) : (before ++ b :: after).getD before.length 0 = b := by
  rw [List.getD_append_right _ _ _ _ (le_refl _), Nat.sub_self, List.getD_cons_zero]

theorem drop_succ_middle (b : UInt8) : (before ++ b :: after).drop (before.length + 1) = after := by
  rw [List.append_cons before b after]
  exact List.drop_left' (by rw [List.length_append, List.length_singleton])

/-- **The length of what is pushed is read**, in whichever of the four forms it is. -/
theorem operandSize_pushData {vch : Valtype} (h : vch.length < 2 ^ 32) :
    ∃ opcode size, pushData vch = opcode :: (size ++ vch) ∧ opcode ≤ opPushdata4 ∧
      operandSize (before ++ opcode :: (size ++ vch ++ after)) opcode (before.length + 1) =
        some (vch.length, before.length + 1 + size.length) := by
  have hleft : ∀ (opcode : UInt8) (size : CScript),
      ¬ (before ++ opcode :: (size ++ vch ++ after)).length - (before.length + 1) <
        size.length := by
    intro opcode size
    rw [List.length_append, List.length_cons, List.length_append, List.length_append]
    omega
  have hsize : ∀ (opcode : UInt8) (size : CScript),
      ((before ++ opcode :: (size ++ vch ++ after)).drop (before.length + 1)).take size.length =
        size := by
    intro opcode size
    rw [drop_succ_middle, List.append_assoc, List.take_left]
  unfold pushData
  split_ifs with hshort hbyte hword
  · obtain ⟨hnat, hlt⟩ := shortPush hshort
    refine ⟨_, [], rfl, UInt8.le_trans (UInt8.le_of_lt hlt) (by decide), ?_⟩
    rw [operandSize, if_pos hlt, hnat]
    rfl
  · have hnat : (UInt8.ofNat vch.length).toNat = vch.length := by
      rw [UInt8.toNat_ofNat']
      omega
    have hl := hleft opPushdata1 [UInt8.ofNat vch.length]
    have hbyte : (before ++ opPushdata1 :: ([UInt8.ofNat vch.length] ++ vch ++ after)).getD
        (before.length + 1) 0 = UInt8.ofNat vch.length := by
      have hmiddle := @getD_middle (before ++ [opPushdata1]) (vch ++ after)
        (UInt8.ofNat vch.length)
      rw [List.length_append, List.length_singleton] at hmiddle
      rw [List.append_cons before]
      exact hmiddle
    rw [List.length_singleton] at hl
    refine ⟨opPushdata1, [UInt8.ofNat vch.length], rfl, by decide, ?_⟩
    rw [operandSize, if_neg (by decide), if_pos rfl, if_neg hl, hbyte, hnat]
    rfl
  · have hlen : (leBytes 2 vch.length).length = 2 := length_leBytes ..
    have hl := hleft opPushdata2 (leBytes 2 vch.length)
    have ht := hsize opPushdata2 (leBytes 2 vch.length)
    rw [hlen] at hl ht
    refine ⟨opPushdata2, leBytes 2 vch.length, rfl, by decide, ?_⟩
    rw [operandSize, if_neg (by decide), if_neg (by decide), if_pos rfl, if_neg hl, ht,
      leNat_leBytes (by omega), hlen]
  · have hlen : (leBytes 4 vch.length).length = 4 := length_leBytes ..
    have hl := hleft opPushdata4 (leBytes 4 vch.length)
    have ht := hsize opPushdata4 (leBytes 4 vch.length)
    rw [hlen] at hl ht
    refine ⟨opPushdata4, leBytes 4 vch.length, rfl, by decide, ?_⟩
    rw [operandSize, if_neg (by decide), if_neg (by decide), if_neg (by decide), if_neg hl, ht,
      leNat_leBytes (by omega), hlen]

/-- **What was pushed is read**, if what is left is not taken for less. -/
theorem getOp2_pushData {vch : Valtype} (h : vch.length < 2 ^ 32) :
    ∃ opcode ≤ opPushdata4, getOp2 (before ++ (pushData vch ++ after)) before.length =
      if vch.length ≤ (vch.length + after.length) % 2 ^ 32 then
        some (opcode, vch, (before ++ pushData vch).length) else none := by
  obtain ⟨opcode, size, hbytes, hle, hsize⟩ := @operandSize_pushData before after vch h
  refine ⟨opcode, hle, ?_⟩
  have hscript : before ++ (pushData vch ++ after) =
      before ++ opcode :: (size ++ vch ++ after) := by
    rw [hbytes, List.cons_append]
  have hend : ¬ (before ++ opcode :: (size ++ vch ++ after)).length ≤ before.length := by
    rw [List.length_append, List.length_cons]
    omega
  have hleft : (before ++ opcode :: (size ++ vch ++ after)).length -
      (before.length + 1 + size.length) = vch.length + after.length := by
    rw [List.length_append, List.length_cons, List.length_append, List.length_append]
    omega
  have hdata : ((before ++ opcode :: (size ++ vch ++ after)).drop
      (before.length + 1 + size.length)).take vch.length = vch := by
    rw [← List.drop_drop, drop_succ_middle, List.append_assoc, List.drop_left, List.take_left]
  rw [hscript, getOp2, if_neg hend]
  dsimp only
  rw [getD_middle, if_pos hle, hsize]
  dsimp only
  rw [hleft, hdata]
  have hnext : (before ++ pushData vch).length = before.length + 1 + size.length + vch.length := by
    rw [hbytes, List.length_append, List.length_cons, List.length_append]
    omega
  rw [hnext]
  split_ifs with hlt hge hge
  · omega
  · rfl
  · rfl
  · omega

theorem getOp2_op {opcode : UInt8} (h : opPushdata4 < opcode) :
    getOp2 (before ++ opcode :: after) before.length =
      some (opcode, [], (before ++ [opcode]).length) := by
  have hend : ¬ (before ++ opcode :: after).length ≤ before.length := by
    rw [List.length_append, List.length_cons]
    omega
  rw [getOp2, if_neg hend]
  dsimp only
  rw [getD_middle, if_neg (UInt8.not_le.mpr h), List.length_append, List.length_singleton]

end

/-! ## 3. The whole script -/

variable {script : CScript} {pc : Nat} {opcode : UInt8}

theorem decodeOps_end : decodeOps script script.length = some [] := by
  rw [decodeOps, if_pos le_rfl]

theorem decodeOps_of_some {pc' : Nat} {vch : Valtype}
    (h : getOp2 script pc = some (opcode, vch, pc')) :
    decodeOps script pc = (decodeOps script pc').map ((opcode, vch) :: ·) := by
  have hlt : ¬ script.length ≤ pc := by
    have := getOp2_advances h
    omega
  rw [decodeOps, if_neg hlt]
  split
  · next hnone => rw [h] at hnone; cases hnone
  · next hsome => rw [h] at hsome; cases hsome; rfl

theorem decodeOps_of_none (hlt : pc < script.length) (h : getOp2 script pc = none) :
    decodeOps script pc = none := by
  rw [decodeOps, if_neg (not_le.mpr hlt)]
  split
  · rfl
  · next hsome => rw [h] at hsome; cases hsome

theorem forall₂_cons_iff {item : ScriptItem} {items : List ScriptItem} {op : UInt8 × Valtype}
    {r : Option (List (UInt8 × Valtype))} (h : item.ReadAs op) :
    (∃ ops, r.map (op :: ·) = some ops ∧ List.Forall₂ ScriptItem.ReadAs (item :: items) ops) ↔
      ∃ ops, r = some ops ∧ List.Forall₂ ScriptItem.ReadAs items ops := by
  cases r <;> simp [h]

/-- The items from one on are read, from where the one begins. -/
theorem decodes_iff (items : List ScriptItem) : ∀ before : CScript,
    (∃ ops, decodeOps (before ++ encodeItems items) before.length = some ops ∧
      List.Forall₂ ScriptItem.ReadAs items ops) ↔ FitsCount items := by
  induction items with
  | nil =>
    intro before
    refine iff_of_true ⟨[], ?_, List.Forall₂.nil⟩ trivial
    rw [encodeItems, List.flatMap_nil, List.append_nil, decodeOps_end]
  | cons item items ih =>
    intro before
    cases item with
    | push vch =>
      have hscript : before ++ encodeItems (.push vch :: items) =
          before ++ (pushData vch.val ++ encodeItems items) := rfl
      obtain ⟨opcode, hle, hop⟩ := @getOp2_pushData before (encodeItems items) _ vch.property
      have hread : ScriptItem.ReadAs (.push vch) (opcode, vch.val) := ⟨hle, rfl⟩
      rw [hscript, FitsCount]
      split_ifs at hop with hfits
      · rw [decodeOps_of_some hop, forall₂_cons_iff hread, ← List.append_assoc, and_iff_right hfits]
        exact ih _
      · have hlt : before.length < (before ++ (pushData vch.val ++ encodeItems items)).length := by
          obtain ⟨_, _, hbytes, -⟩ := @operandSize_pushData before [] _ vch.property
          rw [hbytes, List.cons_append, List.length_append, List.length_cons]
          omega
        rw [decodeOps_of_none hlt hop]
        refine iff_of_false ?_ fun h => hfits h.1
        rintro ⟨ops, hops, -⟩
        cases hops
    | op opcode =>
      have hscript : before ++ encodeItems (.op opcode :: items) =
          before ++ opcode.val :: encodeItems items := rfl
      have hread : ScriptItem.ReadAs (.op opcode) (opcode.val, []) := ⟨rfl, rfl⟩
      rw [hscript, decodeOps_of_some (getOp2_op opcode.property), forall₂_cons_iff hread,
        List.append_cons]
      exact ih _

/-- **Scripts are read as they were written**, when no push is refused for what is left after it. -/
theorem decodeItems_iff (items : List ScriptItem) :
    DecodesTo (encodeItems items) items ↔ FitsCount items := decodes_iff items []

/-- What is below `2^32` bytes is counted right. -/
theorem fits_of_length : ∀ {items : List ScriptItem}, (encodeItems items).length < 2 ^ 32 →
    FitsCount items
  | [], _ => trivial
  | .op opcode :: items, h => by
    have hscript : encodeItems (.op opcode :: items) = opcode.val :: encodeItems items := rfl
    rw [hscript, List.length_cons] at h
    have hfits : FitsCount items := fits_of_length (by omega)
    exact hfits
  | .push vch :: items, h => by
    have hscript : encodeItems (.push vch :: items) = pushData vch.val ++ encodeItems items := rfl
    obtain ⟨opcode, size, hbytes, -⟩ := @operandSize_pushData [] [] _ vch.property
    rw [hscript, hbytes, List.cons_append, List.length_cons, List.length_append,
      List.length_append] at h
    refine ⟨?_, fits_of_length (by omega)⟩
    rw [Nat.mod_eq_of_lt (by omega)]
    omega

/-- **Scripts are read as they were written**, when no push is refused for what is left after it;
and from any bytes, an instruction is read forward and inside. -/
theorem scripts_read_back (items : List ScriptItem) (script : CScript) (pc : Nat) :
    (DecodesTo (encodeItems items) items ↔ FitsCount items) ∧
    (getOp2 script pc = none ∨ ∃ opcode vch pc', getOp2 script pc = some (opcode, vch, pc') ∧
      pc < pc' ∧ pc' ≤ script.length) := by
  refine ⟨decodeItems_iff items, ?_⟩
  cases h : getOp2 script pc with
  | none => exact Or.inl rfl
  | some r => exact Or.inr ⟨r.1, r.2.1, r.2.2, rfl, getOp2_advances h⟩

theorem not_fits_of_length {vch : { vch : Valtype // vch.length < 2 ^ 32 }}
    (h : vch.val.length = 2 ^ 32 - 1) (opcode : { opcode : UInt8 // opPushdata4 < opcode }) :
    ¬ FitsCount [.push vch, .op opcode] := by
  rintro ⟨hfits, -⟩
  have hrest : (encodeItems [.op opcode]).length = 1 := rfl
  rw [hrest, h] at hfits
  omega

/-- The longest push. -/
def longestPush : { vch : Valtype // vch.length < 2 ^ 32 } :=
  ⟨List.replicate (2 ^ 32 - 1) 0, by rw [List.length_replicate]; decide⟩

/-- An opcode after it: `2^32` bytes are left where none are counted. -/
theorem longest_push_refused :
    ¬ DecodesTo (encodeItems [.push longestPush, .op ⟨opChecksig, by decide⟩])
      [.push longestPush, .op ⟨opChecksig, by decide⟩] := by
  rw [decodeItems_iff]
  exact not_fits_of_length List.length_replicate _

/-! ## 4. Reading from the rest of a script -/

theorem leNat_take_one (bytes : List UInt8) : leNat (bytes.take 1) = (bytes.getD 0 0).toNat := by
  cases bytes <;> simp [leNat]

theorem operandSize_eq (h : pc ≤ script.length) :
    operandSize script opcode pc = (immediateSize opcode (script.drop pc)).map fun r =>
      (r.1, script.length - r.2.length) := by
  have hread : ∀ k, (if script.length - pc < k then none
      else some (leNat ((script.drop pc).take k), pc + k)) =
      (readSize k (script.drop pc)).map fun r => (r.1, script.length - r.2.length) := by
    intro k
    rw [readSize, List.length_drop]
    split_ifs with hk
    · rfl
    · rw [Option.map_some, List.drop_drop, List.length_drop]
      congr 2
      omega
  have hbyte : leNat ((script.drop pc).take 1) = (script.getD pc 0).toNat := by
    rw [leNat_take_one, List.getD_eq_getElem?_getD, List.getElem?_drop, Nat.add_zero,
      ← List.getD_eq_getElem?_getD]
  rw [operandSize, immediateSize, hread 2, hread 4, ← hbyte, hread 1]
  split_ifs
  · rw [Option.map_some, List.length_drop]
    congr 2
    omega
  · rfl
  · rfl
  · rfl

/-- **Below `2^32` bytes it is the reader that the rest of the development uses.** -/
theorem getOp2_eq (h : script.length < 2 ^ 32) (pc : Nat) :
    getOp2 script pc = (getOp (script.drop pc)).map fun r =>
      (r.1, r.2.1, script.length - r.2.2.length) := by
  unfold getOp2
  split_ifs with hend
  · rw [List.drop_eq_nil_of_le hend]
    rfl
  · have hlt : pc < script.length := not_le.mp hend
    rw [List.drop_eq_getElem_cons hlt, getOp, List.getD_eq_getElem _ _ hlt]
    dsimp only
    rw [operandSize_eq (by omega)]
    split_ifs with hpush
    · cases hsize : immediateSize script[pc] (script.drop (pc + 1)) with
      | none => rfl
      | some r =>
        obtain ⟨nSize, rest⟩ := r
        -- what is left is an end of the script, so its length says where it begins
        have hsuffix : rest <:+ script :=
          (immediateSize_suffix hsize).trans (List.drop_suffix _ script)
        have hle := hsuffix.length_le
        have hleft : script.length - (script.length - rest.length) = rest.length := by omega
        rw [Option.map_some]
        dsimp only
        rw [hleft, Nat.mod_eq_of_lt (by omega), ← List.suffix_iff_eq_drop.mp hsuffix]
        split_ifs with hroom
        · rfl
        · rw [Option.map_some, List.length_drop]
          congr 3
          omega
    · rw [Option.map_some, List.length_drop]
      congr 3
      omega

end Breakout
