/-
# Combining the signatures of two parts

An output may require the signatures of several keys, and who has one key signs for that one only.
`CombineSignatures` makes one input script of two.  Of a multisig it collects the signatures of both
parts in a set, finds the key of each, and writes one for every key that has one, in the order of
the keys and as many as are required, with a placeholder for each that is missing.

So neither the order of the signatures in the parts nor their placeholders matter, and what a key
has signed is kept (`combineSignatures_multisig`).  There are limits.  Of two signatures by one key
one is dropped; a signature is looked at by `CheckSig` only, which takes more encodings than the
script machine does; and for a pay-to-script-hash output it only gets this far when both parts end
with the redeem script: if one of them is empty, the other is taken as it is.
-/
import Breakout.StandardScripts
import Breakout.StackSafety
import Breakout.SigOps
import Breakout.Lib.Pairing
import Breakout.Lib.SortedSet

namespace Breakout

open Lib

/-! ## 1. The combination -/

/-- `PushAll`; the top of the stack is pushed last. -/
def pushAll (values : List Valtype) : CScript := values.reverse.flatMap pushData

/-- The order of `set<valtype>`. -/
def valtypeLess (a b : Valtype) : Bool := decide (a < b)

/-- `allsigs`: the signatures of both, without the placeholders. -/
def allSigs (sigs1 sigs2 : List Valtype) : List Valtype :=
  insertAll valtypeLess ((sigs1.reverse ++ sigs2.reverse).filter (· ≠ [])) []

/-- The loop that merges: the signatures of the keys, in their order, while more are required. -/
def mergeSigs (sigs : List (Valtype × Valtype)) : List Valtype → Nat → List Valtype
  | [], _ => []
  | _ :: _, 0 => []
  | pubkey :: vKeys, nRequired + 1 =>
    match sigs.lookup pubkey with
    | some sig => sig :: mergeSigs sigs vKeys nRequired
    | none => mergeSigs sigs vKeys (nRequired + 1)

/-- `vSolutions.front()[0]` of a multisig. -/
def nSigsRequired (vSolutions : List Valtype) : Nat :=
  ((vSolutions.head?.bind List.head?).getD 0).toNat

/-- `vSolutions[1]` to `vSolutions[nPubKeys]` of a multisig. -/
def solvedKeys (vSolutions : List Valtype) : List Valtype := vSolutions.tail.dropLast

/-- What is taken from elsewhere: the clock, which gives `CTransaction()` its time, and what
`EvalScript` has on the stack where it returns false. -/
structure PartsEnv where
  nTime : UInt32
  leftOnStack : CScript → List Valtype

/-- `EvalScript(stack, scriptSig, CTransaction(), 0, SCRIPT_VERIFY_NONE, 0)` -/
def PartsEnv.ctx (env : PartsEnv) : EvalCtx := ⟨⟨1, env.nTime, [], [], 0, [], 0⟩, 0, 0, 0⟩

section Combination

variable (K : Crypto) (txTo : CTransaction) (nIn : Nat)

def combineMultisig (scriptPubKey : CScript) (vSolutions sigs1 sigs2 : List Valtype) : CScript :=
  let fits := fun sig pubkey => checkSig K sig pubkey scriptPubKey txTo nIn 0
  let sigs := giveAll fits (solvedKeys vSolutions) (allSigs sigs1 sigs2)
  let merged := mergeSigs sigs (solvedKeys vSolutions) (nSigsRequired vSolutions)
  op0 :: merged.flatMap pushData ++
    List.replicate (nSigsRequired vSolutions - merged.length) op0

/-- `CombineSignatures` of the two stacks: `sigs1[0]` is at the bottom of the stack and
`sigs1.back()` on its top. -/
def combineSigs : (sigs1 sigs2 : List Valtype) → (scriptPubKey : CScript) → (txType : TxnOutType) →
    (vSolutions : List Valtype) → CScript
  | sigs1, sigs2, _, .nonstandard, _ | sigs1, sigs2, _, .nullData, _ =>
    if sigs1.length ≥ sigs2.length then pushAll sigs1 else pushAll sigs2
  | sigs1, sigs2, _, .pubkey, _ | sigs1, sigs2, _, .pubkeyhash, _ =>
    if (sigs1.getLast?.getD []) = [] then pushAll sigs2 else pushAll sigs1
  | [], sigs2, _, .scripthash, _ => pushAll sigs2
  | spk :: sigs1, sigs2, _, .scripthash, _ =>
    if spk = [] then pushAll sigs2
    else if (sigs2.head?.getD []) = [] then pushAll (spk :: sigs1)
    else
      combineSigs sigs1 sigs2.tail spk (solver spk).2.1 (solver spk).2.2 ++ pushData spk
  | sigs1, sigs2, scriptPubKey, .multisig, vSolutions =>
    combineMultisig K txTo nIn scriptPubKey vSolutions sigs1 sigs2

def combineSignatures (env : PartsEnv) (scriptPubKey scriptSig1 scriptSig2 : CScript) : CScript :=
  let stackOf := fun scriptSig =>
    (evalScript K env.ctx [] scriptSig).getD (env.leftOnStack scriptSig)
  combineSigs K txTo nIn (stackOf scriptSig1) (stackOf scriptSig2) scriptPubKey
    (solver scriptPubKey).2.1 (solver scriptPubKey).2.2

end Combination

/-! ## 2. Reading what was pushed -/

/-- The script is read as these instructions, with their data. -/
inductive ReadsAs : CScript → List (UInt8 × Valtype) → Prop
  | done : ReadsAs [] []
  | next {pc pc' : CScript} {opcode : UInt8} {vch : Valtype} {ops : List (UInt8 × Valtype)}
      (hop : getOp pc = some (opcode, vch, pc')) (hrest : ReadsAs pc' ops) :
      ReadsAs pc ((opcode, vch) :: ops)

variable {pc pc' s : CScript} {vch : Valtype} {ops : List (UInt8 × Valtype)}

/-- **What was pushed is read**, whatever comes after it. -/
theorem getOp_pushData (h : vch.length < 256 ^ 4) (rest : CScript) :
    ∃ opcode, opcode ≤ opPushdata4 ∧ getOp (pushData vch ++ rest) = some (opcode, vch, rest) := by
  have hread : ∀ (opcode : UInt8) (tail : CScript), opcode ≤ opPushdata4 →
      immediateSize opcode tail = some (vch.length, vch ++ rest) →
      getOp (opcode :: tail) = some (opcode, vch, rest) := by
    intro opcode tail hop himm
    rw [getOp, if_pos hop, himm]
    dsimp only
    rw [if_neg (by rw [List.length_append]; omega), List.take_left, List.drop_left]
  unfold pushData
  split_ifs with hshort hbyte hword
  · obtain ⟨hnat, hlt⟩ := shortPush hshort
    have hle : UInt8.ofNat vch.length ≤ opPushdata4 :=
      UInt8.le_trans (UInt8.le_of_lt hlt) (by decide)
    refine ⟨_, hle, hread _ (vch ++ rest) hle ?_⟩
    rw [immediateSize, if_pos hlt, hnat]
  · refine ⟨opPushdata1, by decide, hread _ _ (by decide) ?_⟩
    rw [immediateSize, if_neg (by decide), if_pos rfl]
    exact @readSize_leBytes 1 _ (by omega) (vch ++ rest)
  · refine ⟨opPushdata2, by decide, ?_⟩
    rw [List.append_assoc, List.cons_append]
    refine hread _ _ (by decide) ?_
    rw [immediateSize, if_neg (by decide), if_neg (by decide), if_pos rfl]
    exact readSize_leBytes (by omega) (vch ++ rest)
  · refine ⟨opPushdata4, by decide, ?_⟩
    rw [List.append_assoc, List.cons_append]
    refine hread _ _ (by decide) ?_
    rw [immediateSize, if_neg (by decide), if_neg (by decide), if_neg (by decide)]
    exact readSize_leBytes h (vch ++ rest)

/-- Items that are pushed are read as pushes of them. -/
theorem reads_pushData {values : List Valtype} (h : ∀ vch ∈ values, vch.length < 256 ^ 4) :
    ∃ ops, ReadsAs (values.flatMap pushData) ops ∧ ops.map Prod.snd = values ∧
      ∀ op ∈ ops, op.1 ≤ opPushdata4 := by
  induction values with
  | nil => exact ⟨[], .done, rfl, nofun⟩
  | cons vch values ih =>
    obtain ⟨hvch, hvalues⟩ := List.forall_mem_cons.mp h
    obtain ⟨ops, hreads, hdata, hpush⟩ := ih hvalues
    obtain ⟨opcode, hle, hop⟩ := getOp_pushData hvch (values.flatMap pushData)
    refine ⟨(opcode, vch) :: ops, .next hop hreads, by rw [List.map_cons, hdata], ?_⟩
    exact List.forall_mem_cons.mpr ⟨hle, hpush⟩

/-- A script of pushes is push only. -/
theorem isPushOnly_of_reads (h : ReadsAs s ops) (hpush : ∀ op ∈ ops, op.1 ≤ opPushdata4) :
    isPushOnly s = true := by
  have hloop : ∀ (fuel : Nat) (data : Valtype), s.length ≤ fuel →
      (lastPush fuel s data).isSome = true := by
    induction h with
    | done =>
      intro fuel data _
      cases fuel <;> rfl
    | @next pc pc' opcode vch ops hop hrest ih =>
      intro fuel data hfuel
      obtain ⟨hfirst, hothers⟩ := List.forall_mem_cons.mp hpush
      have hshort := getOp_length hop
      cases fuel with
      | zero => omega
      | succ fuel =>
        have hne : pc ≠ [] := by
          rintro rfl
          cases hop
        have hle : ¬ opcode > op16 := UInt8.not_lt.mpr (UInt8.le_trans hfirst (by decide))
        rw [lastPush, if_neg hne, hop]
        dsimp only
        rw [if_neg hle]
        exact ih hothers fuel vch (by omega)
  exact hloop _ _ (Nat.le_refl _)

theorem isPushOnly_pushAll {values : List Valtype}
    (hsize : ∀ vch ∈ values, vch.length ≤ maxScriptElementSize) :
    isPushOnly (pushAll values) = true := by
  obtain ⟨ops, hreads, -, hpush⟩ := @reads_pushData values.reverse fun vch hmem =>
    (Nat.lt_of_le_of_lt (hsize vch (List.mem_reverse.mp hmem)) (by decide))
  exact isPushOnly_of_reads hreads hpush

/-- What an instruction takes of the script. -/
theorem getOp_front {opcode : UInt8} (h : getOp s = some (opcode, vch, pc)) :
    ∃ front, s = front ++ pc ∧ front.length ≤ vch.length + 5 := by
  cases s with
  | nil => cases h
  | cons b s =>
    have himm : ∀ {n : Nat} {rest : CScript}, immediateSize b s = some (n, rest) →
        ∃ size, s = size ++ rest ∧ size.length ≤ 4 := by
      intro n rest himm
      have hread : ∀ k, k ≤ 4 → readSize k s = some (n, rest) →
          ∃ size, s = size ++ rest ∧ size.length ≤ 4 := by
        intro k hk hread
        unfold readSize at hread
        split_ifs at hread
        cases hread
        exact ⟨s.take k, (List.take_append_drop k s).symm, (List.length_take_le k s).trans hk⟩
      unfold immediateSize at himm
      split_ifs at himm
      · cases himm
        exact ⟨[], rfl, Nat.zero_le _⟩
      · exact hread 1 (by decide) himm
      · exact hread 2 (by decide) himm
      · exact hread 4 (by decide) himm
    simp only [getOp] at h
    split_ifs at h with hpush
    · cases hi : immediateSize b s with
      | none => simp [hi] at h
      | some p =>
        obtain ⟨n, rest⟩ := p
        simp only [hi] at h
        split_ifs at h
        cases h
        obtain ⟨size, rfl, hsize⟩ := himm hi
        refine ⟨opcode :: (size ++ rest.take n), ?_, ?_⟩
        · rw [List.cons_append, List.append_assoc, List.take_append_drop]
        · rw [List.length_cons, List.length_append]
          omega
    · cases h
      exact ⟨[opcode], rfl, by simp⟩

/-- A script is not much longer than the data it pushes. -/
theorem ReadsAs.length_le (h : ReadsAs s ops) {n : Nat} (hsize : ∀ op ∈ ops, op.2.length ≤ n) :
    s.length ≤ ops.length * (n + 5) := by
  induction h with
  | done => exact Nat.zero_le _
  | next hop _ ih =>
    obtain ⟨hfirst, hothers⟩ := List.forall_mem_cons.mp hsize
    obtain ⟨front, rfl, hfront⟩ := getOp_front hop
    have hrest := ih hothers
    rw [List.length_append, List.length_cons, Nat.add_mul, Nat.one_mul]
    dsimp only at hfirst
    omega

/-- **What a script does not push is not deleted from it.** -/
theorem findAndDelete_of_reads (h : ReadsAs s ops) (hlen : vch.length < 256 ^ 4)
    (hnot : ∀ op ∈ ops, op.2 ≠ vch) : findAndDelete s (pushData vch) = s := by
  have hpush : pushData vch ≠ [] := by
    unfold pushData
    split_ifs <;> simp
  have hstart : ∀ {s' : CScript} {ops' : List (UInt8 × Valtype)}, ReadsAs s' ops' →
      (∀ op ∈ ops', op.2 ≠ vch) → ¬ (pushData vch).isPrefixOf s' = true := by
    intro s' ops' hreads hne hprefix
    obtain ⟨rest, heq⟩ := List.isPrefixOf_iff_prefix.mp hprefix
    obtain ⟨opcode, -, hop⟩ := getOp_pushData hlen rest
    rw [heq] at hop
    cases hreads with
    | done => cases hop
    | next hop' _ =>
      rw [hop] at hop'
      cases hop'
      exact hne _ List.mem_cons_self rfl
  have hloop : ∀ fuel, s.length < fuel → findAndDeleteLoop (pushData vch) fuel s = s := by
    induction h with
    | done =>
      intro fuel hfuel
      cases fuel <;> rfl
    | @next pc pc' opcode vch' ops hop hrest ih =>
      intro fuel hfuel
      have hshort := getOp_length hop
      cases fuel with
      | zero => omega
      | succ fuel =>
        have hstrip : ∀ n, stripCopies (pushData vch) n pc = pc := by
          intro n
          cases n with
          | zero => rfl
          | succ n => rw [stripCopies, if_neg (hstart (.next hop hrest) hnot)]
        obtain ⟨front, rfl, -⟩ := getOp_front hop
        rw [findAndDeleteLoop, hstrip, hop]
        dsimp only
        rw [ih (List.forall_mem_cons.mp hnot).2 fuel (by omega), List.length_append,
          Nat.add_sub_cancel, List.take_left]
  rw [findAndDelete, if_neg hpush]
  exact hloop _ (Nat.lt_succ_self _)

/-! ## 3. The script of a multisig -/

/-- A number that is pushed by an instruction of its own. -/
def IsSmallInteger (opcode : UInt8) (n : Nat) : Prop :=
  op1 ≤ opcode ∧ opcode ≤ op16 ∧ n = opcode.toNat - 0x50

/-- `OP_m <keys> OP_n OP_CHECKMULTISIG` -/
structure PayToMultisig (s : CScript) (m : Nat) (vKeys : List Valtype) : Prop where
  reads : ∃ opM opN keyOps, IsSmallInteger opM m ∧ IsSmallInteger opN vKeys.length ∧
    keyOps.map Prod.snd = vKeys ∧
    ReadsAs s ((opM, []) :: keyOps ++ [(opN, []), (opCheckmultisig, [])])
  keySize : ∀ vchPubKey ∈ vKeys, 33 ≤ vchPubKey.length ∧ vchPubKey.length ≤ 120
  required : 1 ≤ m ∧ m ≤ vKeys.length ∧ vKeys.length ≤ 16

variable {sols sols' : List Valtype}

/-- What the loop at `OP_PUBKEYS` has read when it ends at a small integer. -/
theorem takePubKeys_reads {fuel : Nat} {opcode opcode' : UInt8} {vch' : Valtype}
    (hop : getOp s = some (opcode, vch, pc))
    (h : takePubKeys fuel opcode vch pc sols = (opcode', vch', pc', sols'))
    (hend : opcode' ≠ opInvalidopcode) :
    ∃ keyOps s', sols' = sols ++ keyOps.map Prod.snd ∧
      (∀ op ∈ keyOps, 33 ≤ op.2.length ∧ op.2.length ≤ 120) ∧
      getOp s' = some (opcode', vch', pc') ∧
      ∀ ops, ReadsAs s' ops → ReadsAs s (keyOps ++ ops) := by
  induction fuel generalizing s opcode vch pc sols with
  | zero =>
    cases h
    exact ⟨[], s, by simp, nofun, hop, fun _ h => h⟩
  | succ fuel ih =>
    rw [takePubKeys] at h
    split_ifs at h with hsize
    · cases hnext : getOp pc with
      | none =>
        simp only [hnext] at h
        cases h
        exact absurd rfl hend
      | some p =>
        obtain ⟨opcode₁, vch₁, pc₁⟩ := p
        simp only [hnext] at h
        obtain ⟨keyOps, s', hsols, hsizes, hstop, hreads⟩ := ih hnext h
        refine ⟨(opcode, vch) :: keyOps, s', ?_, List.forall_mem_cons.mpr ⟨hsize, hsizes⟩, hstop,
          fun ops hops => .next hop (hreads ops hops)⟩
        rw [hsols, List.map_cons, List.append_assoc, List.singleton_append]
    · cases h
      exact ⟨[], s, by simp, nofun, hop, fun _ h => h⟩

/-- What a small integer of the template matches. -/
theorem matchOp_smallinteger {opcode : UInt8}
    (h : matchOp opcode vch opSmallinteger sols = some sols') :
    sols' = sols ++ [[UInt8.ofNat (decodeOpN opcode)]] ∧
      (opcode = op0 ∨ (op1 ≤ opcode ∧ opcode ≤ op16)) := by
  rw [matchOp, if_neg (by decide), if_neg (by decide), if_pos rfl] at h
  split_ifs at h with hop
  exact ⟨(Option.some.inj h).symm, hop⟩

theorem smallInteger_of_template {opcode : UInt8}
    (h : opcode = op0 ∨ (op1 ≤ opcode ∧ opcode ≤ op16))
    (hpos : ¬ UInt8.ofNat (decodeOpN opcode) < 1) :
    IsSmallInteger opcode (UInt8.ofNat (decodeOpN opcode)).toNat := by
  rcases h with rfl | ⟨hlow, hhigh⟩
  · exact absurd (by decide) hpos
  · have hne : opcode ≠ op0 := by
      rintro rfl
      exact absurd hlow (by decide)
    have hsmall := opcode.toNat_lt
    refine ⟨hlow, hhigh, ?_⟩
    rw [decodeOpN, if_neg hne, UInt8.toNat_ofNat']
    omega

/-- A small integer is an instruction without data. -/
theorem IsSmallInteger.data_eq {opcode : UInt8} {n : Nat} (h : IsSmallInteger opcode n)
    (hop : getOp s = some (opcode, vch, pc)) : vch = [] := by
  by_contra hne
  have hle := UInt8.le_trans h.1 (getOp_push hop hne)
  exact absurd hle (by decide)

/-- A small integer of the template has no data. -/
theorem count_data_eq {opcode : UInt8} (h : opcode = op0 ∨ (op1 ≤ opcode ∧ opcode ≤ op16))
    (hop : getOp s = some (opcode, vch, pc)) : vch = [] := by
  rcases h with rfl | ⟨hlow, hhigh⟩
  · cases s with
    | nil => cases hop
    | cons b s =>
      obtain rfl := getOp_head hop
      have hread : getOp (op0 :: s) = some (op0, [], s) := by
        rw [getOp, if_pos (by decide), immediateSize, if_pos (by decide)]
        simp
      rw [hread] at hop
      cases hop
      rfl
  · exact IsSmallInteger.data_eq ⟨hlow, hhigh, rfl⟩ hop

/-- **The template of a multisig**: what a script is read as that matches it. -/
theorem multisigLayout_of_match
    (h : matchTemplate s [opSmallinteger, opPubkeys, opSmallinteger, opCheckmultisig] [] =
      some sols) :
    ∃ opM opN keyOps, (opM = op0 ∨ (op1 ≤ opM ∧ opM ≤ op16)) ∧
      (opN = op0 ∨ (op1 ≤ opN ∧ opN ≤ op16)) ∧
      (∀ op ∈ keyOps, 33 ≤ op.2.length ∧ op.2.length ≤ 120) ∧
      ReadsAs s ((opM, []) :: keyOps ++ [(opN, []), (opCheckmultisig, [])]) ∧
      sols = [UInt8.ofNat (decodeOpN opM)] :: keyOps.map Prod.snd ++
        [[UInt8.ofNat (decodeOpN opN)]] := by
  rw [matchTemplate] at h
  cases hfirst : getOp s with
  | none => simp [hfirst] at h
  | some p =>
    obtain ⟨opM, vchM, pc₁⟩ := p
    simp only [hfirst] at h
    rw [if_neg (by decide)] at h
    cases hm : matchOp opM vchM opSmallinteger [] with
    | none => simp [hm] at h
    | some sols₁ =>
      simp only [hm] at h
      obtain ⟨rfl, hopM⟩ := matchOp_smallinteger hm
      rw [matchTemplate] at h
      cases hsecond : getOp pc₁ with
      | none => simp [hsecond] at h
      | some p =>
        obtain ⟨opcode, vch, pc₂⟩ := p
        simp only [hsecond, if_true] at h
        cases htake : takePubKeys pc₁.length opcode vch pc₂
            ([] ++ [[UInt8.ofNat (decodeOpN opM)]]) with
        | mk opN p =>
          obtain ⟨vchN, pc₃, sols₂⟩ := p
          simp only [htake] at h
          cases hn : matchOp opN vchN opSmallinteger sols₂ with
          | none => simp [hn] at h
          | some sols₃ =>
            simp only [hn] at h
            obtain ⟨rfl, hopN⟩ := matchOp_smallinteger hn
            have hvalid : opN ≠ opInvalidopcode := by
              rintro rfl
              revert hopN
              decide
            obtain ⟨keyOps, s', rfl, hsizes, hstop, hreads⟩ :=
              takePubKeys_reads hsecond htake hvalid
            obtain ⟨pc₄, hlast, hdone⟩ := matchTemplate_op (by decide) h
            obtain ⟨rfl, rfl⟩ := matchTemplate_nil hdone
            obtain rfl := count_data_eq hopM hfirst
            obtain rfl := count_data_eq hopN hstop
            exact ⟨opM, opN, keyOps, hopM, hopN, hsizes,
              .next hfirst (hreads _ (.next hstop (.next hlast .done))), rfl⟩

/-- **What is solved as a multisig is one.** -/
theorem payToMultisig_of_solver {vSolutions : List Valtype}
    (h : solver s = (true, .multisig, vSolutions)) :
    PayToMultisig s (nSigsRequired vSolutions) (solvedKeys vSolutions) := by
  obtain ⟨hmatch, hok⟩ : matchTemplate s [opSmallinteger, opPubkeys, opSmallinteger,
      opCheckmultisig] [] = some vSolutions ∧ multisigOk vSolutions = true := by
    unfold solver at h
    split at h
    · cases h
    · simp only [mTemplates, scanTemplates] at h
      repeat' split at h
      all_goals simp at h
      next hm => exact ⟨h.2 ▸ hm, h.2 ▸ h.1⟩
  obtain ⟨opM, opN, keyOps, hopM, hopN, hsizes, hreads, rfl⟩ := multisigLayout_of_match hmatch
  simp only [multisigOk, List.head?_cons, List.cons_append, Option.bind_some, List.getLast?_cons,
    List.getLast?_append, List.length_cons, List.length_append, List.length_map, List.length_nil,
    Option.some_or, List.getLast?_nil, Option.getD_none, Option.getD_some, Bool.not_eq_true',
    Bool.or_eq_false_iff] at hok
  obtain ⟨⟨⟨hm1, hn1⟩, hmn⟩, hcount⟩ := hok
  replace hm1 := of_decide_eq_false hm1
  replace hn1 := of_decide_eq_false hn1
  replace hmn := of_decide_eq_false hmn
  replace hcount := of_decide_eq_false hcount
  have hsmallM := smallInteger_of_template hopM hm1
  have hsmallN := smallInteger_of_template hopN hn1
  have hkeys : keyOps.length = (UInt8.ofNat (decodeOpN opN)).toNat := by
    omega
  have hvKeys : solvedKeys ([UInt8.ofNat (decodeOpN opM)] :: keyOps.map Prod.snd ++
      [[UInt8.ofNat (decodeOpN opN)]]) = keyOps.map Prod.snd := by
    simp [solvedKeys]
  rw [hvKeys]
  refine ⟨⟨opM, opN, keyOps, hsmallM, ?_, rfl, hreads⟩, ?_, ?_⟩
  · rwa [List.length_map, hkeys]
  · intro vchPubKey hmem
    obtain ⟨op, hop, rfl⟩ := List.mem_map.mp hmem
    exact hsizes op hop
  · have hhigh := UInt8.le_iff_toNat_le.mp hsmallN.2.1
    have h16 : op16.toNat = 0x60 := rfl
    have hm1' := UInt8.le_iff_toNat_le.mp (UInt8.not_lt.mp hm1)
    have hmn' := UInt8.le_iff_toNat_le.mp (UInt8.not_lt.mp hmn)
    have hnum := hsmallN.2.2
    have hone : (1 : UInt8).toNat = 1 := rfl
    simp only [List.length_map, hkeys]
    exact ⟨by rw [← hone]; exact hm1', hmn', by omega⟩

/-! ## 4. Running pushes -/

variable {K : Crypto} {ctx : EvalCtx} {st st' : EvalState} {fuel : Nat} {opcode : UInt8}
  {flags : UInt32}

/-- **One round, and the rest of the run**, where the instruction is carried out. -/
theorem evalLoop_round (hlen : pc.length ≤ fuel) (hop : getOp pc = some (opcode, vch, pc'))
    (hexec : st.vfExec = []) (hsize : vch.length ≤ maxScriptElementSize)
    (hcount : (st.count opcode).nOpCount ≤ 201) (hen : isDisabled opcode = false)
    (hrun : execInstruction K ctx opcode vch pc' true (st.count opcode) = .ok st')
    (hroom : st'.stack.length + st'.altstack.length ≤ 1000) :
    ∃ fuel', pc'.length ≤ fuel' ∧ evalLoop K ctx fuel pc st = evalLoop K ctx fuel' pc' st' := by
  have hshort := getOp_length hop
  cases fuel with
  | zero => omega
  | succ fuel =>
    have hne : pc ≠ [] := by
      rintro rfl
      cases hop
    have hstep : evalStep K ctx pc st = .ok (pc', st') := by
      have hall : st.vfExec.all id = true := by rw [hexec, List.all_nil]
      unfold evalStep
      rw [hop]
      dsimp only
      rw [refuse_of_not (Nat.not_lt.mpr hsize), ok_bind, hall]
      change (refuse (opcode > op16 ∧ (st.count opcode).nOpCount > 201) 0 _ >>= _) = _
      rw [refuse_of_not (fun h => absurd h.2 (Nat.not_lt.mpr hcount)), ok_bind,
        refuse_of_not (by rw [hen]; decide), ok_bind]
      change (execInstruction K ctx opcode vch pc' true (st.count opcode) >>= _) = _
      rw [hrun, ok_bind, refuse_of_not (Nat.not_lt.mpr hroom), ok_bind]
      rfl
    refine ⟨fuel, by omega, ?_⟩
    rw [evalLoop, if_neg hne, hstep, ok_bind]

/-- Neither a push nor a small integer is disabled. -/
theorem not_isDisabled_of_le (h : opcode ≤ op16) : isDisabled opcode = false := by
  rw [isDisabled, decide_eq_false_iff_not]
  intro hmem
  simp only [List.mem_cons, List.not_mem_nil, or_false] at hmem
  rcases hmem with rfl | rfl | rfl | rfl | rfl | rfl | rfl | rfl | rfl | rfl | rfl | rfl | rfl |
    rfl | rfl
  all_goals exact absurd h (by decide)

/-- Data is pushed by a push. -/
theorem ReadsAs.push (h : ReadsAs s ops) : ∀ op ∈ ops, op.2 ≠ [] → op.1 ≤ opPushdata4 := by
  induction h with
  | done => nofun
  | next hop _ ih =>
    rw [List.forall_mem_cons]
    exact ⟨getOp_push hop, ih⟩

/-- **Pushes leave their items**, the last one on the top. -/
theorem evalLoop_pushes {pushes : List (UInt8 × Valtype)} (h : ReadsAs pc (pushes ++ ops))
    (hpush : ∀ op ∈ pushes, op.1 ≤ opPushdata4 ∧ op.2.length ≤ maxScriptElementSize)
    (hlen : pc.length ≤ fuel) (hexec : st.vfExec = []) (hops : st.nOpCount ≤ 201)
    (hroom : st.stack.length + st.altstack.length + pushes.length ≤ 1000) :
    ∃ fuel' pc', pc'.length ≤ fuel' ∧ ReadsAs pc' ops ∧
      evalLoop K ctx fuel pc st =
        evalLoop K ctx fuel' pc'
          { st with stack := (pushes.map Prod.snd).reverse ++ st.stack } := by
  induction pushes generalizing fuel pc st with
  | nil => exact ⟨fuel, pc, hlen, h, rfl⟩
  | cons op pushes ih =>
    obtain ⟨hfirst, hrest⟩ := List.forall_mem_cons.mp hpush
    obtain ⟨opcode, vch⟩ := op
    rw [List.length_cons] at hroom
    cases h with
    | next hop hreads =>
      have hle : opcode ≤ op16 := UInt8.le_trans hfirst.1 (by decide)
      have hsame : st.count opcode = st := if_neg (UInt8.not_lt.mpr hle)
      have hrun : ∀ pc, execInstruction K ctx opcode vch pc true (st.count opcode) =
          .ok (st.push vch) := by
        intro pc
        rw [hsame, execInstruction, if_pos ⟨rfl, hfirst.1⟩]
      obtain ⟨fuel₁, hfuel₁, heq⟩ := evalLoop_round hlen hop hexec hfirst.2 (by rwa [hsame])
        (not_isDisabled_of_le hle) (hrun _)
        (by simp only [EvalState.push, List.length_cons]; omega)
      obtain ⟨fuel', pc', hfuel', hreads', heq'⟩ := @ih _ (st.push vch) fuel₁ hreads hrest hfuel₁
        hexec hops (by simp only [EvalState.push, List.length_cons]; omega)
      refine ⟨fuel', pc', hfuel', hreads', heq.trans (heq'.trans ?_)⟩
      simp [EvalState.push]

theorem length_pushData_le (vch : Valtype) : (pushData vch).length ≤ vch.length + 5 := by
  unfold pushData
  split_ifs <;> simp <;> omega

/-- The items a script of pushes leaves. -/
theorem evalScript_pushAll {values : List Valtype} (hcount : values.length ≤ 19)
    (hsize : ∀ vch ∈ values, vch.length ≤ maxScriptElementSize) :
    evalScript K ctx [] (pushAll values) = some values := by
  have hlong : ∀ l : List Valtype, (∀ vch ∈ l, vch.length ≤ maxScriptElementSize) →
      (l.flatMap pushData).length ≤ l.length * 525 := by
    intro l hl
    induction l with
    | nil => exact Nat.zero_le _
    | cons vch l ih =>
      obtain ⟨hvch, hrest⟩ := List.forall_mem_cons.mp hl
      have hle := length_pushData_le vch
      have hrest' := ih hrest
      have h520 : maxScriptElementSize = 520 := rfl
      rw [List.flatMap_cons, List.length_append, List.length_cons]
      omega
  have hsize' : ∀ vch ∈ values.reverse, vch.length ≤ maxScriptElementSize := fun vch hmem =>
    hsize vch (List.mem_reverse.mp hmem)
  have hlen : (pushAll values).length ≤ 10000 := by
    have hle := hlong _ hsize'
    rw [List.length_reverse] at hle
    unfold pushAll
    omega
  obtain ⟨ops, hreads, hdata, hpush⟩ := reads_pushData fun vch hmem =>
    (Nat.lt_of_le_of_lt (hsize' vch hmem) (by decide : maxScriptElementSize < 256 ^ 4))
  have hops : ops.length = values.length := by
    rw [← List.length_map (f := Prod.snd), hdata, List.length_reverse]
  obtain ⟨fuel', pc', -, hdone, heq⟩ := @evalLoop_pushes _ [] K ctx
    ⟨[], [], [], 0, pushAll values⟩ (pushAll values).length ops (by rwa [List.append_nil])
    (fun op hop => ⟨hpush op hop, hsize' _ (hdata ▸ List.mem_map_of_mem hop)⟩) (Nat.le_refl _) rfl
    (Nat.zero_le _) (by simp only [List.length_nil]; omega)
  cases hdone
  rw [evalScript, if_neg (Nat.not_lt.mpr hlen), heq, hdata, List.reverse_reverse, List.append_nil]
  cases fuel' <;> rfl

/-! ## 5. Spending a multisig -/

variable {n : Nat} {vchSig vchPubKey : Valtype} {chosen vKeys : List Valtype}

theorem castToBigNum_getvch_small (h : n ≤ 16) :
    castToBigNum (getvch n) nDefaultMaxNumSize = .ok (n : Int) := by
  have hlen : (getvch n).length ≤ nDefaultMaxNumSize := by
    interval_cases n <;> decide
  rw [castToBigNum, if_neg (Nat.not_lt.mpr hlen), bnOfVch_getvch_small h]

theorem exec_smallInteger (h : IsSmallInteger opcode n) :
    execInstruction K ctx opcode vch pc true st = .ok (st.push (getvch n)) := by
  obtain ⟨hlow, hhigh, hn⟩ := h
  have hnot : ¬ opcode ≤ opPushdata4 := fun hle =>
    absurd (UInt8.le_trans hlow hle) (by decide)
  have hle := UInt8.le_iff_toNat_le.mp hlow
  have h51 : op1.toNat = 0x51 := rfl
  have hint : (opcode.toNat : Int) - 0x50 = n := by omega
  rw [execInstruction, if_neg (fun h => hnot h.2), if_pos (Or.inl rfl), evalOp,
    if_pos (Or.inr ⟨hlow, hhigh⟩), hint]

theorem evalLoop_smallInteger {n : Nat} {data : Valtype} (h : IsSmallInteger opcode n)
    (hlen : pc.length ≤ fuel) (hop : getOp pc = some (opcode, data, pc')) (hexec : st.vfExec = [])
    (hops : st.nOpCount ≤ 201) (hroom : st.stack.length + st.altstack.length < 1000) :
    ∃ fuel', pc'.length ≤ fuel' ∧
      evalLoop K ctx fuel pc st = evalLoop K ctx fuel' pc' (st.push (getvch n)) := by
  have hsame : st.count opcode = st := if_neg (UInt8.not_lt.mpr h.2.1)
  obtain rfl := h.data_eq hop
  exact evalLoop_round hlen hop hexec (Nat.zero_le _) (by rwa [hsame]) (not_isDisabled_of_le h.2.1)
    (by rw [hsame]; exact exec_smallInteger h)
    (by simp only [EvalState.push, List.length_cons]; omega)

/-- What is well encoded and not empty is a DER signature. -/
theorem der_of_encoded (hne : vchSig ≠ []) (h : checkSignatureEncoding vchSig flags = true) :
    vchSig.length ≤ 73 ∧ vchSig.getD 0 0 = 0x30 := by
  have hder : isDERSignature vchSig = true := by
    have hempty : vchSig.isEmpty = false := by simpa using hne
    rw [checkSignatureEncoding, hempty, Bool.and_false, Bool.false_or, Bool.and_eq_true,
      isLowDERSignature, Bool.and_eq_true] at h
    exact h.1.1
  simp only [isDERSignature, Bool.and_eq_true, Bool.not_eq_true', decide_eq_false_iff_not,
    beq_iff_eq] at hder
  obtain ⟨⟨⟨⟨⟨⟨⟨-, hlong⟩, htype⟩, -⟩, -⟩, -⟩, -⟩, -⟩ := hder
  exact ⟨Nat.not_lt.mp hlong, htype⟩

theorem ne_of_encoded (hne : vchSig ≠ []) (hsig : checkSignatureEncoding vchSig flags = true)
    (hkey : isCompressedOrUncompressedPubKey vchPubKey = true) : vchPubKey ≠ vchSig := by
  rintro rfl
  have htype := (der_of_encoded hne hsig).2
  unfold isCompressedOrUncompressedPubKey at hkey
  rw [htype] at hkey
  simp at hkey

/-- No signature is deleted from the script. -/
theorem withoutSigs_eq_self (h : ∀ vchSig ∈ chosen, findAndDelete s (pushData vchSig) = s) :
    withoutSigs s chosen = s := by
  induction chosen with
  | nil => rfl
  | cons vchSig chosen ih =>
    obtain ⟨hfirst, hrest⟩ := List.forall_mem_cons.mp h
    rw [withoutSigs, List.foldl_cons, hfirst]
    exact ih hrest

/-- The instructions that push the keys, among all of the script. -/
theorem PayToMultisig.mem_ops {opM opN : UInt8} {keyOps : List (UInt8 × Valtype)}
    {op : UInt8 × Valtype}
    (h : op ∈ (opM, ([] : Valtype)) :: keyOps ++ [(opN, []), (opCheckmultisig, [])]) :
    op.2 = [] ∨ op ∈ keyOps := by
  rcases List.mem_append.mp h with hop | hop
  · rcases List.mem_cons.mp hop with rfl | hop
    · exact Or.inl rfl
    · exact Or.inr hop
  · simp only [List.mem_cons, List.not_mem_nil, or_false] at hop
    rcases hop with rfl | rfl <;> exact Or.inl rfl

theorem PayToMultisig.length_le {m : Nat} {vKeys : List Valtype} (hpay : PayToMultisig s m vKeys) :
    s.length ≤ 10000 := by
  obtain ⟨⟨opM, opN, keyOps, -, -, rfl, hreads⟩, hsizes, -, -, hn⟩ := hpay
  have hle := @ReadsAs.length_le s _ hreads 120 fun op hop => by
    rcases PayToMultisig.mem_ops hop with hnil | hop
    · rw [hnil]
      exact Nat.zero_le _
    · exact (hsizes op.2 (List.mem_map_of_mem hop)).2
  rw [List.length_append, List.length_cons, List.length_cons, List.length_singleton] at hle
  rw [List.length_map] at hn
  omega

/-- The script pushes no signature, so what is signed is the whole of it. -/
theorem PayToMultisig.withoutSigs_eq {m : Nat} (hpay : PayToMultisig s m vKeys)
    (hkeys : ∀ vchPubKey ∈ vKeys, isCompressedOrUncompressedPubKey vchPubKey = true)
    (henc : ∀ vchSig ∈ chosen, vchSig ≠ [] ∧ checkSignatureEncoding vchSig flags = true) :
    withoutSigs s chosen = s := by
  obtain ⟨⟨opM, opN, keyOps, -, -, rfl, hreads⟩, -, -⟩ := hpay
  refine withoutSigs_eq_self fun vchSig hmem => ?_
  obtain ⟨hne, hsig⟩ := henc vchSig hmem
  refine findAndDelete_of_reads hreads
    (Nat.lt_of_le_of_lt (der_of_encoded hne hsig).1 (by decide)) fun op hop => ?_
  rcases PayToMultisig.mem_ops hop with hnil | hop
  · rw [hnil]
    exact hne.symm
  · exact ne_of_encoded hne hsig (hkeys op.2 (List.mem_map_of_mem hop))

/-- What is on the stack when the script gets to `OP_CHECKMULTISIG`. -/
def spendArgs {vKeys chosen : List Valtype} (hle : chosen.length ≤ vKeys.length)
    (hn : vKeys.length ≤ 16) : MultisigArgs where
  vchKeys := getvch vKeys.length
  keys := vKeys.reverse
  vchSigs := getvch chosen.length
  sigs := chosen.reverse
  dummy := []
  keysCount := by
    rw [List.length_reverse]
    exact castToBigNum_getvch_small hn
  sigsCount := by
    rw [List.length_reverse]
    exact castToBigNum_getvch_small (hle.trans hn)
  sigs_le := by rwa [List.length_reverse, List.length_reverse]
  keys_le := by
    rw [List.length_reverse]
    omega

/-- The instruction finds a key for each signature. -/
theorem exec_checkmultisig (hle : chosen.length ≤ vKeys.length) (hn : vKeys.length ≤ 16)
    (hkeys : ∀ vchPubKey ∈ vKeys, isCompressedOrUncompressedPubKey vchPubKey = true)
    (henc : ∀ vchSig ∈ chosen, vchSig ≠ [] ∧ checkSignatureEncoding vchSig ctx.flags = true)
    (hwhole : withoutSigs s chosen.reverse = s)
    (hfits : List.SublistForall₂ (fun vchSig vchPubKey =>
      checkSig K vchSig vchPubKey s ctx.txTo ctx.nIn ctx.nHashType = true) chosen vKeys) :
    execInstruction K ctx opCheckmultisig [] [] true
        ⟨(spendArgs hle hn).items, [], [], 1, s⟩ =
      .ok ⟨[vchBool true], [], [], 1 + vKeys.length, s⟩ := by
  have hargs : (spendArgs hle hn).WellEncoded ctx.flags :=
    ⟨fun vchPubKey hmem => hkeys vchPubKey (List.mem_reverse.mp hmem),
      fun vchSig hmem => (henc vchSig (List.mem_reverse.mp hmem)).2⟩
  -- the stack has both lists the other way round
  have hmatch : greedyMatch ((spendArgs hle hn).fits K ctx s) (spendArgs hle hn).sigs
      (spendArgs hle hn).keys = true := by
    rw [greedyMatch_iff, assignable_iff, List.sublistForall₂_iff]
    obtain ⟨l, hall, hsub⟩ := List.sublistForall₂_iff.mp hfits
    refine ⟨l.reverse, List.forall₂_reverse_iff.mpr (hall.imp fun vchSig vchPubKey h => ?_),
      List.reverse_sublist.mpr hsub⟩
    have hcode : withoutSigs s (spendArgs hle hn).sigs = s := hwhole
    rw [MultisigArgs.fits, hcode]
    exact h
  have hcms := @evalCheckMultisig_eq K ctx ⟨(spendArgs hle hn).items, [], [], 1, s⟩
    (spendArgs hle hn) [] false (List.append_nil _).symm hargs
  have hlen : (spendArgs hle hn).keys.length = vKeys.length := List.length_reverse
  rw [hmatch, hlen, if_neg (by simp only; omega), if_neg (fun h => h.2 rfl)] at hcms
  exact hcms

/-- **Signatures for keys of the script, in the order of the keys, satisfy it.** -/
theorem evalScript_multisig {m : Nat} {vKeys chosen : List Valtype} (hpay : PayToMultisig s m vKeys)
    (hkeys : ∀ vchPubKey ∈ vKeys, isCompressedOrUncompressedPubKey vchPubKey = true)
    (hcount : chosen.length = m)
    (henc : ∀ vchSig ∈ chosen, vchSig ≠ [] ∧ checkSignatureEncoding vchSig ctx.flags = true)
    (hfits : List.SublistForall₂ (fun vchSig vchPubKey =>
      checkSig K vchSig vchPubKey s ctx.txTo ctx.nIn ctx.nHashType = true) chosen vKeys) :
    evalScript K ctx (chosen.reverse ++ [[]]) s = some [vchBool true] := by
  subst hcount
  have hlong := hpay.length_le
  have hwhole : withoutSigs s chosen.reverse = s := hpay.withoutSigs_eq hkeys fun vchSig hmem =>
    henc vchSig (List.mem_reverse.mp hmem)
  obtain ⟨⟨opM, opN, keyOps, hM, hN, hdata, hreads⟩, hsizes, -, hmn, hn⟩ := hpay
  have hkeyOps : keyOps.length = vKeys.length := by rw [← hdata, List.length_map]
  have hpushes : ∀ op ∈ keyOps, op.1 ≤ opPushdata4 ∧ op.2.length ≤ maxScriptElementSize := by
    intro op hop
    have hsize := hsizes op.2 (hdata ▸ List.mem_map_of_mem hop)
    have hmem : op ∈ (opM, []) :: keyOps ++ [(opN, []), (opCheckmultisig, [])] :=
      List.mem_append_left _ (List.mem_cons_of_mem _ hop)
    refine ⟨hreads.push op hmem fun hnil => ?_, hsize.2.trans (by decide)⟩
    rw [hnil] at hsize
    exact absurd hsize.1 (by decide)
  have hitems : (spendArgs hmn hn).items = getvch vKeys.length ::
      (vKeys.reverse ++ getvch chosen.length :: (chosen.reverse ++ [[]])) := by
    simp [MultisigArgs.items, spendArgs]
  -- the number of signatures, the keys, the number of keys, and the instruction
  cases hreads with
  | next hopM hreads =>
    obtain ⟨fuel₁, hfuel₁, heq₁⟩ := @evalLoop_smallInteger _ _ K ctx
      ⟨chosen.reverse ++ [[]], [], [], 0, s⟩ s.length opM chosen.length [] hM (Nat.le_refl _) hopM
      rfl (Nat.zero_le _) (by simp; omega)
    obtain ⟨fuel₂, pc₂, hfuel₂, hreads, heq₂⟩ := @evalLoop_pushes _ _ K ctx
      (EvalState.push ⟨chosen.reverse ++ [[]], [], [], 0, s⟩ (getvch chosen.length)) fuel₁ keyOps
      hreads hpushes hfuel₁ rfl (Nat.zero_le _) (by simp [EvalState.push]; omega)
    rw [hdata] at heq₂
    cases hreads with
    | next hopN hreads =>
      obtain ⟨fuel₃, hfuel₃, heq₃⟩ := @evalLoop_smallInteger _ _ K ctx
        ⟨vKeys.reverse ++ getvch chosen.length :: (chosen.reverse ++ [[]]), [], [], 0, s⟩ fuel₂ opN
        vKeys.length [] hN hfuel₂ hopN rfl (Nat.zero_le _) (by simp; omega)
      cases hreads with
      | next hopC hreads =>
        cases hreads
        have hrun := exec_checkmultisig hmn hn hkeys henc hwhole hfits
        rw [hitems] at hrun
        obtain ⟨fuel₄, -, heq₄⟩ := @evalLoop_round _ _ _ K ctx
          ⟨getvch vKeys.length :: (vKeys.reverse ++ getvch chosen.length ::
            (chosen.reverse ++ [[]])), [], [], 0, s⟩
          _ fuel₃ opCheckmultisig hfuel₃ hopC rfl (Nat.zero_le _) (by change 1 ≤ 201; decide)
          (by decide) hrun (by simp)
        have hloop := heq₁.trans (heq₂.trans (heq₃.trans heq₄))
        rw [evalScript, if_neg (Nat.not_lt.mpr hlong), hloop]
        cases fuel₄ <;> rfl

/-- The form of a pay-to-script-hash output. -/
theorem isPayToScriptHash_iff :
    isPayToScriptHash s = true ↔
      ∃ hash : Valtype, hash.length = 20 ∧ s = opHash160 :: 0x14 :: hash ++ [opEqual] := by
  constructor
  · intro h
    simp only [isPayToScriptHash, Bool.and_eq_true, beq_iff_eq] at h
    obtain ⟨⟨⟨hlen, h0⟩, h1⟩, h22⟩ := h
    match s with
    | [] => cases hlen
    | [a] => cases hlen
    | a :: b :: t =>
      simp only [List.getElem?_cons_zero, List.getElem?_cons_succ, Option.some.injEq] at h0 h1 h22
      subst h0 h1
      have ht : t.length = 21 := by simpa using hlen
      have hlast : t.drop 20 = [opEqual] := by
        have hget := List.drop_eq_getElem_cons (l := t) (i := 20) (by omega)
        rw [hget, List.drop_eq_nil_of_le (by omega)]
        rw [List.getElem?_eq_getElem (by omega)] at h22
        rw [Option.some.inj h22]
      refine ⟨t.take 20, by rw [List.length_take, ht]; rfl, ?_⟩
      rw [List.cons_append, List.cons_append, ← hlast, List.take_append_drop]
  · rintro ⟨hash, hlen, rfl⟩
    simp [isPayToScriptHash, hlen]

/-- What a pay-to-script-hash output reads as. -/
theorem reads_payToScriptHash (h : isPayToScriptHash s = true) :
    ReadsAs s [(opHash160, []), (0x14, (s.drop 2).take 20), (opEqual, [])] := by
  obtain ⟨hash, hlen, rfl⟩ := isPayToScriptHash_iff.mp h
  have hhash : ((opHash160 :: 0x14 :: hash ++ [opEqual]).drop 2).take 20 = hash :=
    List.take_left' hlen
  have hpush : getOp (0x14 :: (hash ++ [opEqual])) = some (0x14, hash, [opEqual]) := by
    rw [getOp, if_pos (by decide), immediateSize, if_pos (by decide)]
    dsimp only
    have hsize : hash.length = UInt8.toNat 0x14 := hlen
    rw [if_neg (by rw [List.length_append, hlen]; decide), List.take_left' hsize,
      List.drop_left' hsize]
  rw [hhash]
  exact .next (getOp_of_not_push (by decide)) (.next hpush
    (.next (getOp_of_not_push (by decide)) .done))

/-- The item on the top has the hash. -/
theorem evalScript_payToScriptHash (h : isPayToScriptHash s = true)
    (hhash : hash160 K vch = (s.drop 2).take 20) {rest : List Valtype} (hroom : rest.length ≤ 900) :
    evalScript K ctx (vch :: rest) s = some (vchBool true :: rest) := by
  have hlen : s.length = 23 := by
    simp only [isPayToScriptHash, Bool.and_eq_true, beq_iff_eq] at h
    exact h.1.1.1
  have hreads := reads_payToScriptHash h
  rw [← hhash] at hreads
  have hdigest : (hash160 K vch).length ≤ maxScriptElementSize := by
    rw [hhash]
    exact (List.length_take_le _ _).trans (by decide)
  cases hreads with
  | next hop₁ hreads =>
    cases hreads with
    | next hop₂ hreads =>
      cases hreads with
      | next hop₃ hreads =>
        cases hreads
        obtain ⟨fuel₁, hfuel₁, heq₁⟩ := @evalLoop_round _ _ _ K ctx ⟨vch :: rest, [], [], 0, s⟩
          ⟨hash160 K vch :: rest, [], [], 1, s⟩ s.length opHash160 (Nat.le_refl _) hop₁ rfl
          (Nat.zero_le _) (by change 1 ≤ 201; decide) (by decide) rfl (by simp; omega)
        obtain ⟨fuel₂, hfuel₂, heq₂⟩ := @evalLoop_round _ _ _ K ctx
          ⟨hash160 K vch :: rest, [], [], 1, s⟩
          ⟨hash160 K vch :: hash160 K vch :: rest, [], [], 1, s⟩ fuel₁ 0x14 hfuel₁ hop₂ rfl hdigest
          (by change 1 ≤ 201; decide) (by decide) rfl (by simp; omega)
        have hrun : execInstruction K ctx opEqual [] [] true
            ⟨hash160 K vch :: hash160 K vch :: rest, [], [], 2, s⟩ =
              .ok ⟨vchBool true :: rest, [], [], 2, s⟩ := by
          have hequal : execInstruction K ctx opEqual [] [] true
              ⟨hash160 K vch :: hash160 K vch :: rest, [], [], 2, s⟩ =
                pushVerdict ⟨rest, [], [], 2, s⟩ (hash160 K vch == hash160 K vch) false := rfl
          rw [hequal, beq_self_eq_true]
          rfl
        obtain ⟨fuel₃, -, heq₃⟩ := @evalLoop_round _ _ _ K ctx
          ⟨hash160 K vch :: hash160 K vch :: rest, [], [], 1, s⟩ _ fuel₂ opEqual hfuel₂ hop₃ rfl
          (Nat.zero_le _) (by change 2 ≤ 201; decide) (by decide) hrun (by simp; omega)
        rw [evalScript, if_neg (by rw [hlen]; decide), heq₁, heq₂, heq₃]
        cases fuel₃ <;> rfl

/-! ## 6. The signatures of two parts -/

/-- **A set holds what was put in**, if its order is one in which only equal elements compare equal.
-/
theorem mem_allSigs {sigs1 sigs2 : List Valtype} :
    vch ∈ allSigs sigs1 sigs2 ↔ (vch ∈ sigs1 ∨ vch ∈ sigs2) ∧ vch ≠ [] := by
  have htotal : ∀ a b : Valtype, valtypeLess a b = false → valtypeLess b a = false → a = b := by
    intro a b hab hba
    rw [valtypeLess, decide_eq_false_iff_not] at hab hba
    have hbytes : Std.Antisymm fun x y : UInt8 => ¬ x < y :=
      ⟨fun _ _ h h' => UInt8.le_antisymm (UInt8.not_lt.mp h') (UInt8.not_lt.mp h)⟩
    exact List.le_antisymm (List.not_lt.mp hba) (List.not_lt.mp hab)
  rw [allSigs, mem_insertAll_iff htotal]
  simp [or_and_right]

theorem checkSig_nil {scriptCode : CScript} {txTo : CTransaction} {nIn : Nat} {nHashType : Int32} :
    checkSig K [] vchPubKey scriptCode txTo nIn nHashType = false := by
  unfold checkSig
  split <;> rfl

theorem forall₂_mergeSigs (sigs : List (Valtype × Valtype)) (vKeys : List Valtype) (m : Nat) :
    List.Forall₂ (fun sig pubkey => sigs.lookup pubkey = some sig) (mergeSigs sigs vKeys m)
      ((vKeys.filter fun pubkey => (sigs.lookup pubkey).isSome).take m) := by
  induction vKeys generalizing m with
  | nil => simp [mergeSigs]
  | cons pubkey vKeys ih =>
    cases m with
    | zero => simp [mergeSigs]
    | succ m =>
      rw [mergeSigs]
      cases hsig : sigs.lookup pubkey with
      | none =>
        rw [List.filter_cons_of_neg (by rw [hsig]; decide)]
        exact ih (m + 1)
      | some sig =>
        rw [List.filter_cons_of_pos (by rw [hsig]; rfl), List.take_succ_cons]
        exact .cons hsig (ih m)

theorem pushData_nil : pushData [] = [op0] := rfl

theorem flatMap_placeholders (n : Nat) :
    (List.replicate n []).flatMap pushData = List.replicate n op0 := by
  induction n with
  | zero => rfl
  | succ n ih => rw [List.replicate_succ, List.flatMap_cons, ih, pushData_nil]; rfl

/-- What the combined script leaves: the item more, the signatures and the placeholders. -/
def combinedItems (m : Nat) (sigs : List Valtype) : List Valtype :=
  List.replicate (m - sigs.length) [] ++ (sigs.reverse ++ [[]])

section Parts

variable (K : Crypto) (script : CScript) (txTo : CTransaction) (nIn : Nat)

/-- Has one of the items signed for the key? -/
def isSigned (items : List Valtype) (pubkey : Valtype) : Bool :=
  items.any fun sig => checkSig K sig pubkey script txTo nIn 0

/-- No signature is by two keys, and what `CheckSig` takes is well encoded. -/
structure WellSigned (flags : UInt32) (vKeys items : List Valtype) : Prop where
  keys : ∀ pubkey ∈ vKeys, isCompressedOrUncompressedPubKey pubkey = true
  one : ∀ sig ∈ items, ∀ pubkey ∈ vKeys, ∀ pubkey' ∈ vKeys,
    checkSig K sig pubkey script txTo nIn 0 = true →
    checkSig K sig pubkey' script txTo nIn 0 = true → pubkey' = pubkey
  encoded : ∀ sig ∈ items, ∀ pubkey ∈ vKeys, checkSig K sig pubkey script txTo nIn 0 = true →
    checkSignatureEncoding sig flags = true

end Parts

variable {script : CScript} {txTo : CTransaction} {nIn : Nat}
  {vSolutions items1 items2 : List Valtype}

/-- **What `CombineMultisig` pushes**: for every key that one of the parts has signed for a
signature by it, as many as are required. -/
theorem combineMultisig_spec
    (hone : ∀ sig ∈ items1 ++ items2, ∀ pubkey ∈ solvedKeys vSolutions,
      ∀ pubkey' ∈ solvedKeys vSolutions, checkSig K sig pubkey script txTo nIn 0 = true →
      checkSig K sig pubkey' script txTo nIn 0 = true → pubkey' = pubkey) :
    ∃ sigs, combineMultisig K txTo nIn script vSolutions items1 items2 =
        pushAll (combinedItems (nSigsRequired vSolutions) sigs) ∧
      List.Forall₂
        (fun sig pubkey => sig ∈ items1 ++ items2 ∧ checkSig K sig pubkey script txTo nIn 0 = true)
        sigs
        (((solvedKeys vSolutions).filter (isSigned K script txTo nIn (items1 ++ items2))).take
          (nSigsRequired vSolutions)) := by
  let fits := fun sig pubkey => checkSig K sig pubkey script txTo nIn 0
  let given := giveAll fits (solvedKeys vSolutions) (allSigs items1 items2)
  have hmem : ∀ sig ∈ allSigs items1 items2, sig ∈ items1 ++ items2 := fun sig h =>
    List.mem_append.mpr (mem_allSigs.mp h).1
  refine ⟨mergeSigs given (solvedKeys vSolutions) (nSigsRequired vSolutions), ?_, ?_⟩
  · simp [combineMultisig, pushAll, combinedItems, given, fits, pushData_nil,
      flatMap_placeholders]
  · have hsigned : (solvedKeys vSolutions).filter (fun pubkey => (given.lookup pubkey).isSome) =
        (solvedKeys vSolutions).filter (isSigned K script txTo nIn (items1 ++ items2)) := by
      refine List.filter_congr fun pubkey hkey => Bool.eq_iff_iff.mpr ?_
      rw [isSome_lookup_giveAll (fun sig h => hone sig (hmem sig h)) hkey, isSigned,
        List.any_eq_true]
      refine ⟨fun ⟨sig, h, hfit⟩ => ⟨sig, hmem sig h, hfit⟩, fun ⟨sig, h, hfit⟩ => ⟨sig, ?_, hfit⟩⟩
      refine mem_allSigs.mpr ⟨List.mem_append.mp h, ?_⟩
      rintro rfl
      rw [checkSig_nil] at hfit
      cases hfit
    rw [← hsigned]
    refine (forall₂_mergeSigs given _ _).imp fun sig pubkey h => ?_
    obtain ⟨hsig, -, hfit⟩ := lookup_giveAll h
    exact ⟨hmem sig hsig, hfit⟩

/-! ## 7. The outputs -/

/-- A multisig output: what is signed is its script, or the redeem script it has the hash of. -/
inductive MultisigOutput (K : Crypto) (scriptPubKey : CScript) : CScript → List Valtype → Prop
  | bare {vSolutions : List Valtype}
      (hsolver : solver scriptPubKey = (true, .multisig, vSolutions)) :
      MultisigOutput K scriptPubKey scriptPubKey vSolutions
  | hashed {script : CScript} {vSolutions : List Valtype}
      (hp2sh : isPayToScriptHash scriptPubKey = true)
      (hhash : hash160 K script = (scriptPubKey.drop 2).take 20)
      (hsolver : solver script = (true, .multisig, vSolutions)) :
      MultisigOutput K scriptPubKey script vSolutions

/-- The items, under the redeem script if the output has one. -/
def withRedeem (scriptPubKey script : CScript) (items : List Valtype) : List Valtype :=
  if isPayToScriptHash scriptPubKey then script :: items else items

/-- A part: an input script that leaves the items, under the redeem script if there is one. -/
def IsPart (K : Crypto) (env : PartsEnv) (scriptPubKey script scriptSig : CScript)
    (items : List Valtype) : Prop :=
  evalScript K env.ctx [] scriptSig = some (withRedeem scriptPubKey script items)

theorem not_payToScriptHash_of_multisig (h : solver s = (true, .multisig, vSolutions)) :
    isPayToScriptHash s = false := by
  unfold solver at h
  split at h
  · cases h
  · next hp2sh => exact Bool.eq_false_iff.mpr hp2sh

variable {env : PartsEnv} {scriptPubKey scriptSig1 scriptSig2 : CScript}

/-- The combination of two parts is that of their items. -/
theorem combineSignatures_parts (hout : MultisigOutput K scriptPubKey script vSolutions)
    (h1 : IsPart K env scriptPubKey script scriptSig1 items1)
    (h2 : IsPart K env scriptPubKey script scriptSig2 items2) :
    combineSignatures K txTo nIn env scriptPubKey scriptSig1 scriptSig2 =
      combineMultisig K txTo nIn script vSolutions items1 items2 ++
        if isPayToScriptHash scriptPubKey then pushData script else [] := by
  have hmulti : ∀ spk, combineSigs K txTo nIn items1 items2 spk .multisig vSolutions =
      combineMultisig K txTo nIn spk vSolutions items1 items2 := by
    intro spk
    cases items1 <;> rfl
  unfold IsPart at h1 h2
  simp only [combineSignatures, h1, h2, Option.getD_some]
  cases hout with
  | bare hsolver =>
    have hp2sh := not_payToScriptHash_of_multisig hsolver
    rw [withRedeem, withRedeem, hp2sh, hsolver]
    simpa using hmulti script
  | hashed hp2sh hhash hsolver =>
    have hne : script ≠ [] := by
      rintro rfl
      have hnone : (solver []).1 = false := by decide
      rw [hsolver] at hnone
      cases hnone
    have hsolved : solver scriptPubKey = (true, .scripthash, [(scriptPubKey.drop 2).take 20]) :=
      if_pos hp2sh
    rw [withRedeem, withRedeem, if_pos hp2sh, if_pos hp2sh, if_pos hp2sh, hsolved]
    rw [combineSigs, if_neg hne, List.head?_cons, Option.getD_some, if_neg hne, hsolver,
      List.tail_cons, hmulti]

/-- What it takes to verify an input. -/
theorem verifyScript_of_runs {scriptSig : CScript} {stackCopy left : List Valtype}
    {result : Valtype}
    (hsig : evalScript K ctx [] scriptSig = some stackCopy)
    (hpub : evalScript K ctx stackCopy scriptPubKey = some (result :: left))
    (hresult : castToBool result = true)
    (hredeem : isPayToScriptHash scriptPubKey = true → isPushOnly scriptSig = true ∧
      ∃ pubKey2 rest left', stackCopy = pubKey2 :: rest ∧
        evalScript K ctx rest pubKey2 = some (vchBool true :: left')) :
    verifyScript K ctx scriptSig scriptPubKey = true := by
  unfold verifyScript
  rw [hsig]
  dsimp only
  rw [hpub]
  dsimp only
  rw [if_neg (by rw [hresult]; decide)]
  by_cases hp2sh : isPayToScriptHash scriptPubKey = true
  · obtain ⟨honly, pubKey2, rest, left', rfl, heval⟩ := hredeem hp2sh
    rw [if_pos hp2sh, honly]
    dsimp only
    rw [heval]
    rfl
  · rw [if_neg hp2sh]

theorem exists_mem_of_forall₂ {α β : Type} {R : α → β → Prop} {l : List α} {l' : List β}
    (h : List.Forall₂ R l l') : ∀ a ∈ l, ∃ b ∈ l', R a b := by
  induction h with
  | nil => nofun
  | cons hab _ ih =>
    rw [List.forall_mem_cons]
    refine ⟨⟨_, List.mem_cons_self, hab⟩, fun a ha => ?_⟩
    obtain ⟨b, hb, hR⟩ := ih a ha
    exact ⟨b, List.mem_cons_of_mem _ hb, hR⟩

variable (K script txTo nIn vSolutions) in
/-- The keys of the script that one of the items has signed for. -/
def signedKeys (items : List Valtype) : List Valtype :=
  (solvedKeys vSolutions).filter (isSigned K script txTo nIn items)

/-- **The signatures of two parts are combined**: the combination has a signature for every key that
one of the parts has signed for, in the order of the keys and as many as are required; if these are
enough the input verifies, and if not, nothing has been lost. -/
theorem combineSignatures_multisig (hK : K.DigestSizes)
    (hout : MultisigOutput K scriptPubKey script vSolutions)
    (h1 : IsPart K env scriptPubKey script scriptSig1 items1)
    (h2 : IsPart K env scriptPubKey script scriptSig2 items2)
    (hsigned : WellSigned K script txTo nIn flags (solvedKeys vSolutions) (items1 ++ items2)) :
    ∃ sigs,
      combineSignatures K txTo nIn env scriptPubKey scriptSig1 scriptSig2 =
        pushAll (withRedeem scriptPubKey script (combinedItems (nSigsRequired vSolutions) sigs)) ∧
      List.Forall₂
        (fun sig pubkey => sig ∈ items1 ++ items2 ∧ checkSig K sig pubkey script txTo nIn 0 = true)
        sigs
        ((signedKeys K script txTo nIn vSolutions (items1 ++ items2)).take
          (nSigsRequired vSolutions)) ∧
      (nSigsRequired vSolutions ≤
          (signedKeys K script txTo nIn vSolutions (items1 ++ items2)).length →
        verifyScript K ⟨txTo, nIn, flags, 0⟩
          (combineSignatures K txTo nIn env scriptPubKey scriptSig1 scriptSig2) scriptPubKey =
            true) ∧
      ((signedKeys K script txTo nIn vSolutions (items1 ++ items2)).length <
          nSigsRequired vSolutions →
        IsPart K env scriptPubKey script
          (combineSignatures K txTo nIn env scriptPubKey scriptSig1 scriptSig2)
          (combinedItems (nSigsRequired vSolutions) sigs) ∧
        signedKeys K script txTo nIn vSolutions (combinedItems (nSigsRequired vSolutions) sigs) =
          signedKeys K script txTo nIn vSolutions (items1 ++ items2)) := by
  have hpay : PayToMultisig script (nSigsRequired vSolutions) (solvedKeys vSolutions) := by
    cases hout with
    | bare hsolver => exact payToMultisig_of_solver hsolver
    | hashed _ _ hsolver => exact payToMultisig_of_solver hsolver
  obtain ⟨-, hmn, hn⟩ := hpay.required
  obtain ⟨sigs, hcombined, hall⟩ := combineMultisig_spec hsigned.one
  have hcount := hall.length_eq
  rw [List.length_take] at hcount
  -- each signature is one of the items, fits a key and is well encoded
  have hsigs : ∀ sig ∈ sigs, sig ∈ items1 ++ items2 ∧ sig ≠ [] ∧
      checkSignatureEncoding sig flags = true := by
    intro sig hmem
    obtain ⟨pubkey, hkey, hitem, hfit⟩ := exists_mem_of_forall₂ hall sig hmem
    have hkey' := List.mem_of_mem_filter (List.mem_of_mem_take hkey)
    refine ⟨hitem, ?_, hsigned.encoded sig hitem pubkey hkey' hfit⟩
    rintro rfl
    rw [checkSig_nil] at hfit
    cases hfit
  have hsmall : ∀ vch ∈ withRedeem scriptPubKey script
      (combinedItems (nSigsRequired vSolutions) sigs), vch.length ≤ maxScriptElementSize := by
    have hitems : ∀ vch ∈ combinedItems (nSigsRequired vSolutions) sigs,
        vch.length ≤ maxScriptElementSize := by
      intro vch hmem
      simp only [combinedItems, List.mem_append, List.mem_replicate, List.mem_reverse,
        List.mem_singleton] at hmem
      rcases hmem with ⟨-, rfl⟩ | hmem | rfl
      · exact Nat.zero_le _
      · obtain ⟨-, hne, henc⟩ := hsigs vch hmem
        exact (der_of_encoded hne henc).1.trans (by decide)
      · exact Nat.zero_le _
    unfold withRedeem
    split_ifs with hp2sh
    · refine List.forall_mem_cons.mpr ⟨?_, hitems⟩
      unfold IsPart withRedeem at h1
      rw [if_pos hp2sh] at h1
      have hbounded := evalScript_bounded hK (Nat.zero_le _) (List.forall_mem_nil _) h1
      exact hbounded.2.1 script List.mem_cons_self
    · exact hitems
  have hlen : (withRedeem scriptPubKey script
      (combinedItems (nSigsRequired vSolutions) sigs)).length ≤ 19 := by
    have hitems : (combinedItems (nSigsRequired vSolutions) sigs).length ≤ 17 := by
      simp only [combinedItems, List.length_append, List.length_replicate, List.length_reverse,
        List.length_singleton]
      omega
    unfold withRedeem
    split_ifs
    · rw [List.length_cons]
      omega
    · omega
  have heq : combineSignatures K txTo nIn env scriptPubKey scriptSig1 scriptSig2 =
      pushAll (withRedeem scriptPubKey script
        (combinedItems (nSigsRequired vSolutions) sigs)) := by
    rw [combineSignatures_parts hout h1 h2, hcombined]
    unfold withRedeem
    split_ifs
    · simp [pushAll]
    · rw [List.append_nil]
  refine ⟨sigs, heq, hall, fun henough => ?_, fun hfew => ⟨?_, ?_⟩⟩
  · have hfull : sigs.length = nSigsRequired vSolutions := by
      unfold signedKeys at henough
      omega
    have hitems : combinedItems (nSigsRequired vSolutions) sigs = sigs.reverse ++ [[]] := by
      rw [combinedItems, hfull, Nat.sub_self, List.replicate_zero, List.nil_append]
    have hrun := @evalScript_multisig script K ⟨txTo, nIn, flags, 0⟩ _ _ sigs hpay hsigned.keys
      hfull (fun sig hmem => (hsigs sig hmem).2)
      (List.sublistForall₂_iff.mpr ⟨_, hall.imp fun _ _ h => h.2,
        (List.take_sublist _ _).trans List.filter_sublist⟩)
    have hcopy := @evalScript_pushAll K ⟨txTo, nIn, flags, 0⟩ _ hlen hsmall
    rw [heq]
    rw [hitems] at hcopy hlen hsmall ⊢
    cases hout with
    | bare hsolver =>
      have hp2sh := not_payToScriptHash_of_multisig hsolver
      rw [withRedeem, hp2sh, if_neg Bool.false_ne_true] at hcopy ⊢
      exact verifyScript_of_runs hcopy hrun rfl fun h => absurd (hp2sh.symm.trans h) (by decide)
    | hashed hp2sh hhash hsolver =>
      rw [withRedeem, if_pos hp2sh] at hcopy hlen hsmall ⊢
      refine verifyScript_of_runs hcopy (evalScript_payToScriptHash hp2sh hhash ?_) rfl fun _ =>
        ⟨isPushOnly_pushAll hsmall, script, _, [], rfl, hrun⟩
      rw [List.length_cons] at hlen
      omega
  · rw [heq]
    exact evalScript_pushAll hlen hsmall
  · refine List.filter_congr fun pubkey hkey => Bool.eq_iff_iff.mpr ?_
    unfold isSigned
    rw [List.any_eq_true, List.any_eq_true]
    constructor
    · rintro ⟨sig, hmem, hfit⟩
      simp only [combinedItems, List.mem_append, List.mem_replicate, List.mem_reverse,
        List.mem_singleton] at hmem
      have hne : sig ≠ [] := by
        rintro rfl
        rw [checkSig_nil] at hfit
        cases hfit
      rcases hmem with ⟨-, rfl⟩ | hmem | rfl
      · exact absurd rfl hne
      · exact ⟨sig, (hsigs sig hmem).1, hfit⟩
      · exact absurd rfl hne
    · rintro ⟨sig, hmem, hfit⟩
      have hsignedKey : pubkey ∈ (signedKeys K script txTo nIn vSolutions (items1 ++ items2)).take
          (nSigsRequired vSolutions) := by
        rw [List.take_of_length_le hfew.le]
        exact List.mem_filter.mpr ⟨hkey, List.any_eq_true.mpr ⟨sig, hmem, hfit⟩⟩
      obtain ⟨sig', hmem', -, hfit'⟩ := exists_mem_of_forall₂ hall.flip pubkey hsignedKey
      refine ⟨sig', ?_, hfit'⟩
      exact List.mem_append_right _ (List.mem_append_left _ (List.mem_reverse.mpr hmem'))

/-! Two keys, of which each part has signed for one. -/

/-- A signature is by the key whose last byte is its own. -/
def lastByteCrypto : Crypto :=
  { zeroCrypto with verify := fun pubkey _ sig => pubkey.getLast? == sig.getLast? }

/-- A public key that ends with the byte. -/
def sampleKey (b : UInt8) : Valtype := 2 :: List.replicate 32 b

/-- A signature by the key that ends with the byte, and one more. -/
def sampleSig (a b : UInt8) : Valtype := [0x30, 6, 2, 1, a, 2, 1, b, 1]

/-- `OP_2 <key> <key> OP_2 OP_CHECKMULTISIG` -/
def twoOfTwo : CScript :=
  0x52 :: pushData (sampleKey 5) ++ pushData (sampleKey 7) ++ [0x52, opCheckmultisig]

/-- `OP_1 <key> OP_1 OP_CHECKMULTISIG` -/
def oneOfOne : CScript := 0x51 :: pushData (sampleKey 5) ++ [0x51, opCheckmultisig]

/-- `OP_HASH160 <hash> OP_EQUAL`, of any script. -/
def hashedOutput : CScript := opHash160 :: 0x14 :: List.replicate 20 0 ++ [opEqual]

def sampleEnv : PartsEnv := ⟨0, fun _ => []⟩

def emptyTx : CTransaction := ⟨1, 0, [], [], 0, [], 0⟩

theorem sampleSig_encoded (flags : UInt32) {b : UInt8} (h : b = 5 ∨ b = 7) :
    checkSignatureEncoding (sampleSig 1 b) flags = true := by
  have hsig : isLowDERSignature (sampleSig 1 b) = true ∧
      isDefinedHashtypeSignature (sampleSig 1 b) = true := by
    rcases h with rfl | rfl <;> decide
  rw [checkSignatureEncoding, hsig.1, hsig.2]
  simp

theorem checkSig_sample (a b c : UInt8) (script : CScript) :
    checkSig lastByteCrypto (sampleSig a b) (sampleKey c) script emptyTx 0 0 = (c == b) := rfl

/-- Each part has signed for one key. -/
theorem wellSigned_twoOfTwo (flags : UInt32) :
    WellSigned lastByteCrypto twoOfTwo emptyTx 0 flags [sampleKey 5, sampleKey 7]
      ([sampleSig 1 7, []] ++ [[], sampleSig 1 5, []]) := by
  have hitem : ∀ sig ∈ [sampleSig 1 7, []] ++ [[], sampleSig 1 5, []], ∀ c : UInt8,
      checkSig lastByteCrypto sig (sampleKey c) twoOfTwo emptyTx 0 0 = true →
        sig = sampleSig 1 c ∧ (c = 5 ∨ c = 7) := by
    intro sig hsig c h
    simp only [List.cons_append, List.nil_append, List.mem_cons, List.not_mem_nil, or_false] at hsig
    rcases hsig with rfl | rfl | rfl | rfl | rfl
    · rw [checkSig_sample] at h
      obtain rfl := eq_of_beq h
      exact ⟨rfl, Or.inr rfl⟩
    · rw [checkSig_nil] at h
      cases h
    · rw [checkSig_nil] at h
      cases h
    · rw [checkSig_sample] at h
      obtain rfl := eq_of_beq h
      exact ⟨rfl, Or.inl rfl⟩
    · rw [checkSig_nil] at h
      cases h
  have hkey : ∀ pubkey ∈ [sampleKey 5, sampleKey 7], ∃ c : UInt8, pubkey = sampleKey c := by
    intro pubkey hmem
    simp only [List.mem_cons, List.not_mem_nil, or_false] at hmem
    rcases hmem with rfl | rfl
    · exact ⟨5, rfl⟩
    · exact ⟨7, rfl⟩
  refine ⟨fun pubkey hmem => ?_, fun sig hsig pubkey hpub pubkey' hpub' h h' => ?_,
    fun sig hsig pubkey hpub h => ?_⟩
  · obtain ⟨c, rfl⟩ := hkey pubkey hmem
    rfl
  · obtain ⟨c, rfl⟩ := hkey pubkey hpub
    obtain ⟨c', rfl⟩ := hkey pubkey' hpub'
    have hsame := (hitem sig hsig c h).1.symm.trans (hitem sig hsig c' h').1
    simp only [sampleSig, List.cons.injEq, true_and, and_true] at hsame
    rw [hsame]
  · obtain ⟨c, rfl⟩ := hkey pubkey hpub
    obtain ⟨rfl, hc⟩ := hitem sig hsig c h
    exact sampleSig_encoded flags hc

/-- The second key's signature comes first, and there is a placeholder. -/
theorem combineSignatures_multisig_twoOfTwo :
    verifyScript lastByteCrypto ⟨emptyTx, 0, standardScriptVerifyFlags, 0⟩
      (combineSignatures lastByteCrypto emptyTx 0 sampleEnv hashedOutput
        (pushAll [twoOfTwo, sampleSig 1 7, []]) (pushAll [twoOfTwo, [], sampleSig 1 5, []]))
      hashedOutput = true := by
  obtain ⟨sigs, -, -, hverify, -⟩ := @combineSignatures_multisig lastByteCrypto
    standardScriptVerifyFlags twoOfTwo emptyTx 0 [[2], sampleKey 5, sampleKey 7, [2]]
    [sampleSig 1 7, []] [[], sampleSig 1 5, []] sampleEnv hashedOutput
    (pushAll [twoOfTwo, sampleSig 1 7, []]) (pushAll [twoOfTwo, [], sampleSig 1 5, []])
    ⟨fun _ => rfl, fun _ => rfl, fun _ => rfl⟩ (.hashed rfl rfl rfl) rfl rfl (wellSigned_twoOfTwo _)
  exact hverify (by decide)

/-- Where signatures are lost or the input does not verify: a part that is empty, an encoding that
the machine does not take, two signatures by one key. -/
theorem combineSignatures_loses :
    (combineSignatures lastByteCrypto emptyTx 0 sampleEnv hashedOutput []
          (pushAll [oneOfOne, [], sampleSig 1 5, []]) =
        pushAll [oneOfOne, [], sampleSig 1 5, []] ∧
      checkSig lastByteCrypto (sampleSig 1 5) (sampleKey 5) oneOfOne emptyTx 0 0 = true ∧
      verifyScript lastByteCrypto ⟨emptyTx, 0, 0, 0⟩ (pushAll [oneOfOne, [], sampleSig 1 5, []])
        hashedOutput = false) ∧
    (combineSignatures lastByteCrypto emptyTx 0 sampleEnv oneOfOne (pushAll [[5, 1], []])
          (pushAll [[]]) = pushAll [[5, 1], []] ∧
      checkSig lastByteCrypto [5, 1] (sampleKey 5) oneOfOne emptyTx 0 0 = true ∧
      verifyScript lastByteCrypto ⟨emptyTx, 0, 0, 0⟩ (pushAll [[5, 1], []]) oneOfOne = false) ∧
    (combineSignatures lastByteCrypto emptyTx 0 sampleEnv twoOfTwo (pushAll [sampleSig 1 5, []])
          (pushAll [sampleSig 2 5, []]) = pushAll [[], sampleSig 1 5, []] ∧
      checkSig lastByteCrypto (sampleSig 1 5) (sampleKey 5) twoOfTwo emptyTx 0 0 = true ∧
      checkSig lastByteCrypto (sampleSig 2 5) (sampleKey 5) twoOfTwo emptyTx 0 0 = true) :=
  ⟨⟨rfl, rfl, rfl⟩, ⟨rfl, rfl, rfl⟩, rfl, rfl, rfl⟩

end Breakout
