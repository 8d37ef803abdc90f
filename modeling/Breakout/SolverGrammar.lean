/-
# What `Solver` recognises

The templates of `Solver` say what a standard script is: `<key> OP_CHECKSIG`, a key's hash to be
checked, a script's hash, `m` of `n` keys, and `OP_RETURN` with up to two small pushes of data.
`solver_grammar_iff` says for which scripts `Solver` does what these say.  There are two kinds for
which it does not.

Where a template has small data, `Solver` looks at the size of the data only.  An instruction that
pushes nothing has none, so every opcode passes for a push.  And where the numbers of a multisig do
not fit its keys, `Solver` returns false from the middle of its loop, with the type and what it has
collected.
-/
import Breakout.CombineSignatures

namespace Breakout

open Lib

/-! ## 1. The grammar -/

/-- The size of a public key, as `Solver` has it. -/
def IsKeySize (vch : Valtype) : Prop := 33 ≤ vch.length ∧ vch.length ≤ 120

/-- "small pushdata, <= MAX_OP_RETURN_RELAY bytes".  What a push is says `IsPushOnly`. -/
def IsSmallPush (op : UInt8 × Valtype) : Prop := op.1 ≤ op16 ∧ op.2.length ≤ maxOpReturnRelay

/-- What `Solver` takes for it. -/
def IsSmallData (op : UInt8 × Valtype) : Prop := op.2.length ≤ maxOpReturnRelay

/-- The layouts of the templates for null data. -/
inductive NullDataLayout (IsData : UInt8 × Valtype → Prop) : List (UInt8 × Valtype) → Prop
  | none : NullDataLayout IsData [(opReturn, [])]
  | one {op : UInt8 × Valtype} : IsData op → NullDataLayout IsData [(opReturn, []), op]
  | two {op op' : UInt8 × Valtype} : IsData op → IsData op' →
      NullDataLayout IsData [(opReturn, []), op, (opReturn, []), op']

/-- A small integer of a template. -/
def IsCount (opcode : UInt8) : Prop := opcode = op0 ∨ (op1 ≤ opcode ∧ opcode ≤ op16)

/-- The layout of the template for a multisig. -/
def MultisigLayout (s : CScript) (opM : UInt8) (keyOps : List (UInt8 × Valtype)) (opN : UInt8) :
    Prop :=
  IsCount opM ∧ IsCount opN ∧ (∀ op ∈ keyOps, IsKeySize op.2) ∧
    ReadsAs s ((opM, []) :: keyOps ++ [(opN, []), (opCheckmultisig, [])])

/-- The numbers fit the keys. -/
def CountsFit (opM : UInt8) (keyOps : List (UInt8 × Valtype)) (opN : UInt8) : Prop :=
  1 ≤ decodeOpN opM ∧ decodeOpN opM ≤ decodeOpN opN ∧ keyOps.length = decodeOpN opN

/-- The number that an instruction pushes, as a solution. -/
def countSolution (opcode : UInt8) : Valtype := [UInt8.ofNat (decodeOpN opcode)]

/-- **The documented scripts**, with their types and solutions. -/
inductive Documented : CScript → TxnOutType → List Valtype → Prop
  | pubkey {s : CScript} {opcode : UInt8} {vchPubKey : Valtype}
      (hreads : ReadsAs s [(opcode, vchPubKey), (opChecksig, [])]) (hsize : IsKeySize vchPubKey) :
      Documented s .pubkey [vchPubKey]
  | pubkeyhash {s : CScript} {opcode : UInt8} {hash : Valtype}
      (hreads : ReadsAs s [(opDup, []), (opHash160, []), (opcode, hash), (opEqualverify, []),
        (opChecksig, [])]) (hsize : hash.length = 20) : Documented s .pubkeyhash [hash]
  | scripthash {hash : Valtype} (hsize : hash.length = 20) :
      Documented (opHash160 :: 0x14 :: hash ++ [opEqual]) .scripthash [hash]
  | multisig {s : CScript} {opM opN : UInt8} {keyOps : List (UInt8 × Valtype)}
      (hlayout : MultisigLayout s opM keyOps opN) (hfit : CountsFit opM keyOps opN) :
      Documented s .multisig (countSolution opM :: keyOps.map Prod.snd ++ [countSolution opN])
  | nullData {s : CScript} {ops : List (UInt8 × Valtype)} (hreads : ReadsAs s ops)
      (hlayout : NullDataLayout IsSmallPush ops) : Documented s .nullData []

/-- `Solver` does what is documented. -/
def SolvedAsDocumented (s : CScript) : Prop :=
  (∀ type sols, solver s = (true, type, sols) ↔ Documented s type sols) ∧
    ((solver s).1 = false → solver s = (false, .nonstandard, []))

/-- Null data of which something is not a push. -/
def OpcodeAsData (s : CScript) : Prop :=
  ∃ ops, ReadsAs s ops ∧ NullDataLayout IsSmallData ops ∧ ¬ NullDataLayout IsSmallPush ops

/-- A multisig whose numbers do not fit. -/
def Miscounted (s : CScript) : Prop :=
  ∃ opM keyOps opN, MultisigLayout s opM keyOps opN ∧ ¬ CountsFit opM keyOps opN

/-! ## 2. Readings -/

variable {s pc : CScript} {ops : List (UInt8 × Valtype)} {sols sols' : List Valtype}
  {opcode : UInt8} {vch : Valtype}

/-- **A script is read in one way.** -/
theorem ReadsAs.unique {ops' : List (UInt8 × Valtype)} (h : ReadsAs s ops) (h' : ReadsAs s ops') :
    ops = ops' := by
  induction h generalizing ops' with
  | done =>
    cases h' with
    | done => rfl
    | next hop _ => cases hop
  | next hop _ ih =>
    cases h' with
    | done => cases hop
    | next hop' hrest =>
      cases hop.symm.trans hop'
      rw [ih hrest]

theorem ReadsAs.le_length (h : ReadsAs s ops) : ops.length ≤ s.length := by
  induction h with
  | done => exact Nat.le_refl 0
  | next hop _ ih =>
    have hshort := getOp_length hop
    rw [List.length_cons]
    omega

/-! ## 3. One instruction, and a template without keys -/

variable {opcode2 : UInt8} {tpl : List UInt8} {op : UInt8 × Valtype} {hash : Valtype}

theorem matchOp_of_op (hop : opcode2 ∉ [opPubkey, opPubkeyhash, opSmallinteger, opSmalldata]) :
    matchOp opcode vch opcode2 sols = some sols' ↔ opcode = opcode2 ∧ vch = [] ∧ sols' = sols := by
  simp only [List.mem_cons, List.not_mem_nil, or_false, not_or] at hop
  obtain ⟨hkey, hhash, hint, hdata⟩ := hop
  rw [matchOp, if_neg hkey, if_neg hhash, if_neg hint, if_neg hdata]
  split_ifs with hdiffers
  · refine iff_of_false id fun h => ?_
    exact hdiffers.elim (fun hne => hne h.1) fun hne => hne h.2.1
  · rw [not_or, not_not, not_not] at hdiffers
    simp [hdiffers, eq_comm]

theorem matchOp_pubkey :
    matchOp opcode vch opPubkey sols = some sols' ↔ IsKeySize vch ∧ sols' = sols ++ [vch] := by
  rw [matchOp, if_pos rfl]
  split_ifs with hsize
  · refine iff_of_false id fun h => ?_
    have hkey := h.1
    unfold IsKeySize at hkey
    omega
  · have hkey : IsKeySize vch := by
      unfold IsKeySize
      omega
    simp [hkey, eq_comm]

theorem matchOp_pubkeyhash :
    matchOp opcode vch opPubkeyhash sols = some sols' ↔
      vch.length = 20 ∧ sols' = sols ++ [vch] := by
  rw [matchOp, if_neg (by decide), if_pos rfl]
  split_ifs with hsize
  · exact iff_of_false id fun h => hsize h.1
  · rw [not_not] at hsize
    simp [hsize, eq_comm]

theorem matchOp_count :
    matchOp opcode vch opSmallinteger sols = some sols' ↔
      IsCount opcode ∧ sols' = sols ++ [countSolution opcode] := by
  rw [matchOp, if_neg (by decide), if_neg (by decide), if_pos rfl]
  split_ifs with hcount
  · simp only [Option.some.injEq]
    exact ⟨fun h => ⟨hcount, h.symm⟩, fun h => h.2.symm⟩
  · exact iff_of_false id fun h => hcount h.1

theorem matchOp_smalldata :
    matchOp opcode vch opSmalldata sols = some sols' ↔
      IsSmallData (opcode, vch) ∧ sols' = sols := by
  rw [matchOp, if_neg (by decide), if_neg (by decide), if_neg (by decide), if_pos rfl]
  split_ifs with hsize
  · exact iff_of_false id fun h => absurd h.1 (not_le.mpr hsize)
  · have hsmall : IsSmallData (opcode, vch) := not_lt.mp hsize
    simp [hsmall, eq_comm]

/-- The comparison of `Solver`, of instructions that were read. -/
def matchOps : List (UInt8 × Valtype) → List UInt8 → List Valtype → Option (List Valtype)
  | ops, [], sols => if ops = [] then some sols else none
  | [], _ :: _, _ => none
  | op :: ops, opcode2 :: tpl, sols => (matchOp op.1 op.2 opcode2 sols).bind (matchOps ops tpl)

theorem matchOps_nil : matchOps ops [] sols = some sols' ↔ ops = [] ∧ sols' = sols := by
  unfold matchOps
  split_ifs with hops
  · simp [hops, eq_comm]
  · exact iff_of_false nofun fun h => hops h.1

theorem matchOps_cons :
    matchOps ops (opcode2 :: tpl) sols = some sols' ↔
      ∃ opcode vch rest sols₁, ops = (opcode, vch) :: rest ∧
        matchOp opcode vch opcode2 sols = some sols₁ ∧ matchOps rest tpl sols₁ = some sols' := by
  cases ops with
  | nil => simp [matchOps]
  | cons op ops =>
    rw [matchOps, Option.bind_eq_some_iff]
    constructor
    · rintro ⟨sols₁, hop, hrest⟩
      exact ⟨op.1, op.2, ops, sols₁, rfl, hop, hrest⟩
    · rintro ⟨opcode, vch, rest, sols₁, heq, hop, hrest⟩
      obtain ⟨rfl, rfl⟩ := List.cons.inj heq
      exact ⟨sols₁, hop, hrest⟩

/-- **A template without keys** matches what was read. -/
theorem matchTemplate_iff (htpl : opPubkeys ∉ tpl) :
    matchTemplate s tpl sols = some sols' ↔
      ∃ ops, ReadsAs s ops ∧ matchOps ops tpl sols = some sols' := by
  induction tpl generalizing s sols with
  | nil =>
    constructor
    · intro h
      obtain ⟨rfl, rfl⟩ := matchTemplate_nil h
      exact ⟨[], .done, matchOps_nil.mpr ⟨rfl, rfl⟩⟩
    · rintro ⟨ops, hreads, h⟩
      obtain ⟨rfl, rfl⟩ := matchOps_nil.mp h
      cases hreads
      rfl
  | cons opcode2 tpl ih =>
    rw [List.mem_cons, not_or] at htpl
    obtain ⟨hfirst, hothers⟩ := htpl
    rw [matchTemplate]
    constructor
    · intro h
      cases hop : getOp s with
      | none => simp [hop] at h
      | some p =>
        obtain ⟨opcode, vch, pc⟩ := p
        simp only [hop, if_neg (Ne.symm hfirst)] at h
        cases hmatch : matchOp opcode vch opcode2 sols with
        | none => simp [hmatch] at h
        | some sols₁ =>
          simp only [hmatch] at h
          obtain ⟨ops, hreads, hrest⟩ := (ih hothers).mp h
          exact ⟨(opcode, vch) :: ops, .next hop hreads,
            matchOps_cons.mpr ⟨opcode, vch, ops, sols₁, rfl, hmatch, hrest⟩⟩
    · rintro ⟨ops, hreads, h⟩
      obtain ⟨opcode, vch, rest, sols₁, rfl, hmatch, hrest⟩ := matchOps_cons.mp h
      cases hreads with
      | next hop hreads =>
        simp only [hop, if_neg (Ne.symm hfirst), hmatch]
        exact (ih hothers).mpr ⟨rest, hreads, hrest⟩

/-! ## 4. The templates -/

theorem match_pubkey :
    matchTemplate s [opPubkey, opChecksig] [] = some sols ↔
      ∃ opcode vchPubKey, ReadsAs s [(opcode, vchPubKey), (opChecksig, [])] ∧
        IsKeySize vchPubKey ∧ sols = [vchPubKey] := by
  rw [matchTemplate_iff (by decide)]
  simp only [matchOps_cons, matchOps_nil, matchOp_pubkey, List.nil_append,
    matchOp_of_op (show opChecksig ∉ _ by decide)]
  constructor
  · rintro ⟨_, hreads, opcode, vchPubKey, _, _, rfl, ⟨hsize, rfl⟩, _, _, _, _, rfl,
      ⟨rfl, rfl, rfl⟩, rfl, rfl⟩
    exact ⟨opcode, vchPubKey, hreads, hsize, rfl⟩
  · rintro ⟨opcode, vchPubKey, hreads, hsize, rfl⟩
    exact ⟨_, hreads, opcode, vchPubKey, _, _, rfl, ⟨hsize, rfl⟩, _, _, _, _, rfl,
      ⟨rfl, rfl, rfl⟩, rfl, rfl⟩

theorem match_pubkeyhash :
    matchTemplate s [opDup, opHash160, opPubkeyhash, opEqualverify, opChecksig] [] = some sols ↔
      ∃ opcode hash, ReadsAs s [(opDup, []), (opHash160, []), (opcode, hash), (opEqualverify, []),
        (opChecksig, [])] ∧ hash.length = 20 ∧ sols = [hash] := by
  rw [matchTemplate_iff (by decide)]
  simp only [matchOps_cons, matchOps_nil, matchOp_pubkeyhash,
    matchOp_of_op (show opDup ∉ _ by decide), matchOp_of_op (show opHash160 ∉ _ by decide),
    matchOp_of_op (show opEqualverify ∉ _ by decide),
    matchOp_of_op (show opChecksig ∉ _ by decide)]
  constructor
  · rintro ⟨_, hreads, _, _, _, _, rfl, ⟨rfl, rfl, rfl⟩, _, _, _, _, rfl, ⟨rfl, rfl, rfl⟩, opcode,
      hash, _, _, rfl, ⟨hsize, rfl⟩, _, _, _, _, rfl, ⟨rfl, rfl, rfl⟩, _, _, _, _, rfl,
      ⟨rfl, rfl, rfl⟩, rfl, rfl⟩
    exact ⟨opcode, hash, hreads, hsize, rfl⟩
  · rintro ⟨opcode, hash, hreads, hsize, rfl⟩
    exact ⟨_, hreads, _, _, _, _, rfl, ⟨rfl, rfl, rfl⟩, _, _, _, _, rfl, ⟨rfl, rfl, rfl⟩, opcode,
      hash, _, _, rfl, ⟨hsize, rfl⟩, _, _, _, _, rfl, ⟨rfl, rfl, rfl⟩, _, _, _, _, rfl,
      ⟨rfl, rfl, rfl⟩, rfl, rfl⟩

/-- The three templates for null data. -/
theorem match_nullData :
    (matchTemplate s [opReturn] [] = some sols ∨
      matchTemplate s [opReturn, opSmalldata] [] = some sols ∨
      matchTemplate s [opReturn, opSmalldata, opReturn, opSmalldata] [] = some sols) ↔
      (∃ ops, ReadsAs s ops ∧ NullDataLayout IsSmallData ops) ∧ sols = [] := by
  rw [matchTemplate_iff (by decide), matchTemplate_iff (by decide), matchTemplate_iff (by decide)]
  simp only [matchOps_cons, matchOps_nil, matchOp_smalldata,
    matchOp_of_op (show opReturn ∉ _ by decide)]
  constructor
  · rintro (⟨_, hreads, _, _, _, _, rfl, ⟨rfl, rfl, rfl⟩, rfl, rfl⟩ |
      ⟨_, hreads, _, _, _, _, rfl, ⟨rfl, rfl, rfl⟩, _, _, _, _, rfl, ⟨hdata, rfl⟩, rfl, rfl⟩ |
      ⟨_, hreads, _, _, _, _, rfl, ⟨rfl, rfl, rfl⟩, _, _, _, _, rfl, ⟨hdata, rfl⟩, _, _, _, _, rfl,
        ⟨rfl, rfl, rfl⟩, _, _, _, _, rfl, ⟨hdata', rfl⟩, rfl, rfl⟩)
    · exact ⟨⟨_, hreads, .none⟩, rfl⟩
    · exact ⟨⟨_, hreads, .one hdata⟩, rfl⟩
    · exact ⟨⟨_, hreads, .two hdata hdata'⟩, rfl⟩
  · rintro ⟨⟨_, hreads, hlayout⟩, rfl⟩
    cases hlayout with
    | none => exact .inl ⟨_, hreads, _, _, _, _, rfl, ⟨rfl, rfl, rfl⟩, rfl, rfl⟩
    | one hdata =>
      exact .inr (.inl ⟨_, hreads, _, _, _, _, rfl, ⟨rfl, rfl, rfl⟩, _, _, _, _, rfl, ⟨hdata, rfl⟩,
        rfl, rfl⟩)
    | two hdata hdata' =>
      exact .inr (.inr ⟨_, hreads, _, _, _, _, rfl, ⟨rfl, rfl, rfl⟩, _, _, _, _, rfl, ⟨hdata, rfl⟩,
        _, _, _, _, rfl, ⟨rfl, rfl, rfl⟩, _, _, _, _, rfl, ⟨hdata', rfl⟩, rfl, rfl⟩)

/-- **The loop at `OP_PUBKEYS`** stops at the first instruction that is not a key. -/
theorem takePubKeys_of_reads {keyOps rest : List (UInt8 × Valtype)} {opN : UInt8} {fuel : Nat}
    (hkeys : ∀ op ∈ keyOps, IsKeySize op.2) (hop : getOp s = some (opcode, vch, pc))
    (hreads : ReadsAs s (keyOps ++ (opN, []) :: rest)) (hfuel : keyOps.length ≤ fuel) :
    ∃ pc', takePubKeys fuel opcode vch pc sols = (opN, [], pc', sols ++ keyOps.map Prod.snd) ∧
      ReadsAs pc' rest := by
  induction keyOps generalizing s opcode vch pc sols fuel with
  | nil =>
    cases hreads with
    | next hop' hrest =>
      cases hop.symm.trans hop'
      refine ⟨_, ?_, hrest⟩
      cases fuel <;> simp [takePubKeys]
  | cons op keyOps ih =>
    obtain ⟨hkey, hothers⟩ := List.forall_mem_cons.mp hkeys
    cases hreads with
    | next hop' hrest =>
      cases hop.symm.trans hop'
      cases fuel with
      | zero => exact absurd hfuel (Nat.not_succ_le_zero _)
      | succ fuel =>
        obtain ⟨⟨opcode', vch', pc'⟩, hnext⟩ : ∃ p, getOp pc = some p := by
          cases keyOps with
          | nil =>
            cases hrest with
            | next hop'' _ => exact ⟨_, hop''⟩
          | cons op' keyOps =>
            cases hrest with
            | next hop'' _ => exact ⟨_, hop''⟩
        have hkey' : 33 ≤ vch.length ∧ vch.length ≤ 120 := hkey
        obtain ⟨pc'', htake, hreads'⟩ := @ih _ _ (sols ++ [vch]) _ _ _ hothers hnext hrest
          (Nat.le_of_succ_le_succ hfuel)
        refine ⟨pc'', ?_, hreads'⟩
        rw [takePubKeys, if_pos hkey', hnext]
        dsimp only
        rw [htake, List.map_cons, List.append_assoc, List.singleton_append]

theorem match_multisig :
    matchTemplate s [opSmallinteger, opPubkeys, opSmallinteger, opCheckmultisig] [] = some sols ↔
      ∃ opM keyOps opN, MultisigLayout s opM keyOps opN ∧
        sols = countSolution opM :: keyOps.map Prod.snd ++ [countSolution opN] := by
  constructor
  · intro h
    obtain ⟨opM, opN, keyOps, hM, hN, hsizes, hreads, rfl⟩ := multisigLayout_of_match h
    exact ⟨opM, keyOps, opN, ⟨hM, hN, hsizes, hreads⟩, rfl⟩
  · rintro ⟨opM, keyOps, opN, ⟨hM, hN, hsizes, hreads⟩, rfl⟩
    rw [List.cons_append] at hreads
    cases hreads with
    | next hfirst hrest =>
      rw [matchTemplate, hfirst]
      dsimp only
      rw [if_neg (by decide), matchOp_count.mpr ⟨hM, rfl⟩]
      dsimp only
      obtain ⟨⟨opcode, vch, pc'⟩, hsecond⟩ : ∃ p, getOp _ = some p := by
        cases keyOps with
        | nil =>
          cases hrest with
          | next hop _ => exact ⟨_, hop⟩
        | cons op keyOps =>
          cases hrest with
          | next hop _ => exact ⟨_, hop⟩
      have hlen := hrest.le_length
      rw [List.length_append] at hlen
      obtain ⟨pc'', htake, hlast⟩ :=
        @takePubKeys_of_reads _ _ ([] ++ [countSolution opM]) _ _ _ _ _ _
        hsizes hsecond hrest (Nat.le_of_add_right_le hlen)
      rw [matchTemplate, hsecond]
      dsimp only
      rw [if_pos rfl, htake]
      dsimp only
      rw [matchOp_count.mpr ⟨hN, rfl⟩]
      dsimp only
      cases hlast with
      | next hcheck hdone =>
        cases hdone
        rw [matchTemplate, hcheck]
        dsimp only
        rw [if_neg (by decide), (matchOp_of_op (by decide)).mpr ⟨rfl, rfl, rfl⟩]
        dsimp only
        rw [matchTemplate, if_pos rfl]
        rfl

/-! ## 5. `Solver` -/

instance (opcode : UInt8) : Decidable (IsCount opcode) := inferInstanceAs (Decidable (_ ∨ _))

theorem NullDataLayout.mono {P Q : UInt8 × Valtype → Prop} (hPQ : ∀ op, P op → Q op)
    (h : NullDataLayout P ops) : NullDataLayout Q ops := by
  cases h with
  | none => exact .none
  | one hdata => exact .one (hPQ _ hdata)
  | two hdata hdata' => exact .two (hPQ _ hdata) (hPQ _ hdata')

/-- Null data starts with `OP_RETURN`. -/
theorem NullDataLayout.head {P : UInt8 × Valtype → Prop} (h : NullDataLayout P ops) :
    ∃ rest, ops = (opReturn, []) :: rest := by
  cases h with
  | none => exact ⟨_, rfl⟩
  | one _ => exact ⟨_, rfl⟩
  | two _ _ => exact ⟨_, rfl⟩

/-- A pay-to-script-hash output starts with `OP_HASH160`. -/
theorem not_payToScriptHash (h : ReadsAs s (op :: ops)) (hne : op.1 ≠ opHash160) :
    ¬ isPayToScriptHash s = true := by
  intro hp2sh
  have heq := h.unique (reads_payToScriptHash hp2sh)
  obtain ⟨rfl, -⟩ := List.cons.inj heq
  exact hne rfl

theorem match_pubkey_none (h : ReadsAs s (op :: ops)) (hop : op.2 = []) :
    matchTemplate s [opPubkey, opChecksig] [] = none := by
  refine Option.eq_none_iff_forall_ne_some.mpr fun sols hmatch => ?_
  obtain ⟨opcode, vchPubKey, hreads, hsize, -⟩ := match_pubkey.mp hmatch
  obtain ⟨rfl, -⟩ := List.cons.inj (h.unique hreads)
  obtain rfl : vchPubKey = [] := hop
  exact absurd hsize.1 (by decide)

theorem match_pubkeyhash_none (h : ReadsAs s (op :: ops)) (hop : op.1 ≠ opDup) :
    matchTemplate s [opDup, opHash160, opPubkeyhash, opEqualverify, opChecksig] [] = none := by
  refine Option.eq_none_iff_forall_ne_some.mpr fun sols hmatch => ?_
  obtain ⟨opcode, hash, hreads, -⟩ := match_pubkeyhash.mp hmatch
  obtain ⟨rfl, -⟩ := List.cons.inj (h.unique hreads)
  exact hop rfl

theorem match_multisig_none (h : ReadsAs s (op :: ops)) (hop : ¬ IsCount op.1) :
    matchTemplate s [opSmallinteger, opPubkeys, opSmallinteger, opCheckmultisig] [] = none := by
  refine Option.eq_none_iff_forall_ne_some.mpr fun sols hmatch => ?_
  obtain ⟨opM, keyOps, opN, ⟨hM, -, -, hreads⟩, -⟩ := match_multisig.mp hmatch
  obtain ⟨rfl, -⟩ := List.cons.inj (h.unique hreads)
  exact hop hM

theorem decodeOpN_le_of_isCount (h : IsCount opcode) : decodeOpN opcode ≤ 16 := by
  rcases h with rfl | ⟨-, hhigh⟩
  · decide
  · have hle := UInt8.le_iff_toNat_le.mp hhigh
    have h16 : op16.toNat = 0x60 := rfl
    unfold decodeOpN
    split_ifs <;> omega

/-- **The additional checks** are that the numbers fit. -/
theorem multisigOk_iff {opM opN : UInt8} {keyOps : List (UInt8 × Valtype)} (hM : IsCount opM)
    (hN : IsCount opN) :
    multisigOk (countSolution opM :: keyOps.map Prod.snd ++ [countSolution opN]) = true ↔
      CountsFit opM keyOps opN := by
  have hnat : ∀ {opcode : UInt8}, IsCount opcode →
      (UInt8.ofNat (decodeOpN opcode)).toNat = decodeOpN opcode := by
    intro opcode h
    have hle := decodeOpN_le_of_isCount h
    rw [UInt8.toNat_ofNat']
    omega
  simp only [multisigOk, countSolution, CountsFit, List.head?_cons, List.cons_append,
    Option.bind_some, List.getLast?_cons, List.getLast?_append, List.length_cons,
    List.length_append, List.length_map, List.length_nil, Option.some_or, List.getLast?_nil,
    Option.getD_none, Option.getD_some, Bool.not_eq_true', Bool.or_eq_false_iff,
    decide_eq_false_iff_not, UInt8.lt_iff_toNat_lt, gt_iff_lt, hnat hM, hnat hN]
  have hone : (1 : UInt8).toNat = 1 := rfl
  rw [hone]
  omega

theorem solver_pubkey {vchPubKey : Valtype}
    (h : ReadsAs s [(opcode, vchPubKey), (opChecksig, [])]) (hsize : IsKeySize vchPubKey) :
    solver s = (true, .pubkey, [vchPubKey]) := by
  have hmatch := match_pubkey.mpr ⟨opcode, vchPubKey, h, hsize, rfl⟩
  have hop : opcode ≠ opHash160 := by
    rintro rfl
    cases h with
    | next hop _ =>
      have hpush := getOp_push hop (List.ne_nil_of_length_pos (by have := hsize.1; omega))
      exact absurd hpush (by decide)
  unfold solver
  rw [if_neg (not_payToScriptHash h hop)]
  simp [mTemplates, scanTemplates, hmatch]

theorem solver_pubkeyhash
    (h : ReadsAs s [(opDup, []), (opHash160, []),
      (opcode, hash), (opEqualverify, []), (opChecksig, [])])
    (hsize : hash.length = 20) :
    solver s = (true, .pubkeyhash, [hash]) := by
  have hmatch := match_pubkeyhash.mpr ⟨opcode, hash, h, hsize, rfl⟩
  unfold solver
  rw [if_neg (not_payToScriptHash h (by decide))]
  simp [mTemplates, scanTemplates, match_pubkey_none h rfl, hmatch]

theorem solver_scripthash (hsize : hash.length = 20) :
    solver (opHash160 :: 0x14 :: hash ++ [opEqual]) = (true, .scripthash, [hash]) := by
  unfold solver
  rw [if_pos (isPayToScriptHash_iff.mpr ⟨hash, hsize, rfl⟩)]
  have hhash : ((opHash160 :: 0x14 :: hash ++ [opEqual]).drop 2).take 20 = hash :=
    List.take_left' hsize
  rw [hhash]

/-- **Every multisig**, whether its numbers fit or not. -/
theorem solver_multisig {opM opN : UInt8} {keyOps : List (UInt8 × Valtype)}
    (h : MultisigLayout s opM keyOps opN) :
    solver s =
      (multisigOk (countSolution opM :: keyOps.map Prod.snd ++ [countSolution opN]), .multisig,
        countSolution opM :: keyOps.map Prod.snd ++ [countSolution opN]) := by
  have hmatch := match_multisig.mpr ⟨opM, keyOps, opN, h, rfl⟩
  obtain ⟨hM, hN, hsizes, hreads⟩ := h
  rw [List.cons_append] at hreads
  have hne : ∀ opcode : UInt8, ¬ IsCount opcode → opM ≠ opcode := by
    rintro opcode hnot rfl
    exact hnot hM
  unfold solver
  rw [if_neg (not_payToScriptHash hreads (hne _ (by decide)))]
  simp [mTemplates, scanTemplates, match_pubkey_none hreads rfl,
    match_pubkeyhash_none hreads (hne _ (by decide)), hmatch]

/-- **Everything that has the layout of null data.** -/
theorem solver_nullData (h : ReadsAs s ops) (hlayout : NullDataLayout IsSmallData ops) :
    solver s = (true, .nullData, []) := by
  have hmatch := match_nullData.mpr ⟨⟨ops, h, hlayout⟩, rfl⟩
  obtain ⟨rest, rfl⟩ := hlayout.head
  have hsols : ∀ {tpl : List UInt8} {sols : List Valtype}, tpl = [opReturn] ∨
      tpl = [opReturn, opSmalldata] ∨ tpl = [opReturn, opSmalldata, opReturn, opSmalldata] →
      matchTemplate s tpl [] = some sols → sols = [] := by
    rintro tpl sols (rfl | rfl | rfl) hsome
    · exact (match_nullData.mp (.inl hsome)).2
    · exact (match_nullData.mp (.inr (.inl hsome))).2
    · exact (match_nullData.mp (.inr (.inr hsome))).2
  unfold solver
  rw [if_neg (not_payToScriptHash h (by decide))]
  simp only [mTemplates, scanTemplates, match_pubkey_none h rfl,
    match_pubkeyhash_none h (by decide), match_multisig_none h (by decide)]
  split
  · next sols hsome => rw [hsols (by simp) hsome]; rfl
  · next hnone =>
    split
    · next sols hsome => rw [hsols (by simp) hsome]; rfl
    · next hnone' =>
      rw [hnone, hnone'] at hmatch
      have hlast := (hmatch.resolve_left fun h => absurd h (by simp)).resolve_left
        fun h => absurd h (by simp)
      rw [hlast]
      rfl

/-- **What is documented is solved.** -/
theorem Documented.solver_eq {type : TxnOutType} (h : Documented s type sols) :
    solver s = (true, type, sols) := by
  cases h with
  | pubkey hreads hsize => exact solver_pubkey hreads hsize
  | pubkeyhash hreads hsize => exact solver_pubkeyhash hreads hsize
  | scripthash hsize => exact solver_scripthash hsize
  | multisig hlayout hfit =>
    rw [solver_multisig hlayout, (multisigOk_iff hlayout.1 hlayout.2.1).mpr hfit]
  | nullData hreads hlayout => exact solver_nullData hreads (hlayout.mono fun _ hop => hop.2)

/-- **All that `Solver` does.** -/
theorem solver_cases (s : CScript) :
    (∃ type sols, solver s = (true, type, sols) ∧ Documented s type sols) ∨
      (solver s = (true, .nullData, []) ∧ OpcodeAsData s) ∨
      (∃ sols, solver s = (false, .multisig, sols) ∧ Miscounted s) ∨
      solver s = (false, .nonstandard, []) := by
  by_cases hp2sh : isPayToScriptHash s = true
  · obtain ⟨hash, hsize, rfl⟩ := isPayToScriptHash_iff.mp hp2sh
    exact .inl ⟨_, _, solver_scripthash hsize, .scripthash hsize⟩
  by_cases hnull : ∃ ops, ReadsAs s ops ∧ NullDataLayout IsSmallData ops
  · obtain ⟨ops, hreads, hlayout⟩ := hnull
    have hsolved := solver_nullData hreads hlayout
    by_cases hpush : NullDataLayout IsSmallPush ops
    · exact .inl ⟨_, _, hsolved, .nullData hreads hpush⟩
    · exact .inr (.inl ⟨hsolved, ops, hreads, hlayout, hpush⟩)
  cases hkey : matchTemplate s [opPubkey, opChecksig] [] with
  | some sols =>
    obtain ⟨opcode, vchPubKey, hreads, hsize, -⟩ := match_pubkey.mp hkey
    exact .inl ⟨_, _, solver_pubkey hreads hsize, .pubkey hreads hsize⟩
  | none =>
    cases hhash : matchTemplate s [opDup, opHash160, opPubkeyhash, opEqualverify, opChecksig]
      [] with
    | some sols =>
      obtain ⟨opcode, hash, hreads, hsize, -⟩ := match_pubkeyhash.mp hhash
      exact .inl ⟨_, _, solver_pubkeyhash hreads hsize, .pubkeyhash hreads hsize⟩
    | none =>
      cases hmulti : matchTemplate s [opSmallinteger, opPubkeys, opSmallinteger,
          opCheckmultisig] [] with
      | some sols =>
        obtain ⟨opM, keyOps, opN, hlayout, -⟩ := match_multisig.mp hmulti
        have hok := @multisigOk_iff opM opN keyOps hlayout.1 hlayout.2.1
        have hsolved := solver_multisig hlayout
        by_cases hfit : CountsFit opM keyOps opN
        · rw [hok.mpr hfit] at hsolved
          exact .inl ⟨_, _, hsolved, .multisig hlayout hfit⟩
        · rw [Bool.eq_false_iff.mpr fun h => hfit (hok.mp h)] at hsolved
          exact .inr (.inr (.inl ⟨_, hsolved, opM, keyOps, opN, hlayout, hfit⟩))
      | none =>
        have hnone : ∀ {tpl : List UInt8}, tpl = [opReturn] ∨ tpl = [opReturn, opSmalldata] ∨
            tpl = [opReturn, opSmalldata, opReturn, opSmalldata] →
            matchTemplate s tpl [] = none := by
          intro tpl htpl
          refine Option.eq_none_iff_forall_ne_some.mpr fun sols hsome => hnull ?_
          rcases htpl with rfl | rfl | rfl
          · exact (match_nullData.mp (.inl hsome)).1
          · exact (match_nullData.mp (.inr (.inl hsome))).1
          · exact (match_nullData.mp (.inr (.inr hsome))).1
        refine .inr (.inr (.inr ?_))
        unfold solver
        rw [if_neg hp2sh]
        simp [mTemplates, scanTemplates, hkey, hhash, hmulti, hnone]

/-- **When `Solver` does what is documented**: unless something that is not a push stands for data
after `OP_RETURN`, and unless the numbers of a multisig do not fit its keys. -/
theorem solver_grammar_iff (s : CScript) :
    SolvedAsDocumented s ↔ ¬ OpcodeAsData s ∧ ¬ Miscounted s := by
  constructor
  · rintro ⟨hsolved, hfails⟩
    constructor
    · rintro ⟨ops, hreads, hlayout, hnot⟩
      have hdoc := (hsolved _ _).mp (solver_nullData hreads hlayout)
      cases hdoc with
      | nullData hreads' hpush => exact hnot (hreads.unique hreads' ▸ hpush)
    · rintro ⟨opM, keyOps, opN, hlayout, hnot⟩
      have hok := @multisigOk_iff opM opN keyOps hlayout.1 hlayout.2.1
      have heq := solver_multisig hlayout
      rw [Bool.eq_false_iff.mpr fun h => hnot (hok.mp h)] at heq
      have htype := hfails (by rw [heq])
      rw [heq] at htype
      cases htype
  · rintro ⟨hdata, hcounts⟩
    rcases solver_cases s with ⟨type, sols, hsolved, hdoc⟩ | ⟨-, hopcode⟩ | ⟨-, -, hmiscounted⟩ |
      hnone
    · refine ⟨fun type' sols' => ⟨fun h => ?_, Documented.solver_eq⟩, fun h => ?_⟩
      · cases hsolved.symm.trans h
        exact hdoc
      · rw [hsolved] at h
        cases h
    · exact absurd hopcode hdata
    · exact absurd hmiscounted hcounts
    · refine ⟨fun type' sols' => ⟨fun h => ?_, Documented.solver_eq⟩, fun _ => hnone⟩
      rw [hnone] at h
      cases h

/-- **Two scripts that are not solved as documented**: `OP_RETURN OP_DUP` is null data, and
`OP_2 <key> OP_1 OP_CHECKMULTISIG` leaves the type of a multisig and its parts. -/
theorem solver_misreads :
    (solver [opReturn, opDup] = (true, .nullData, []) ∧
        ¬ SolvedAsDocumented [opReturn, opDup]) ∧
      solver (0x52 :: pushData (sampleKey 5) ++ [op1, opCheckmultisig]) =
          (false, .multisig, [[2], sampleKey 5, [1]]) ∧
        ¬ SolvedAsDocumented (0x52 :: pushData (sampleKey 5) ++ [op1, opCheckmultisig]) := by
  have hnull : solver [opReturn, opDup] = (true, .nullData, []) := by decide
  have hmulti : solver (0x52 :: pushData (sampleKey 5) ++ [op1, opCheckmultisig]) =
      (false, .multisig, [[2], sampleKey 5, [1]]) := by decide
  refine ⟨⟨hnull, fun h => ?_⟩, hmulti, fun h => ?_⟩
  · have hreads : ReadsAs [opReturn, opDup] [(opReturn, []), (opDup, [])] :=
      .next rfl (.next rfl .done)
    cases (h.1 _ _).mp hnull with
    | nullData hreads' hpush =>
      rw [hreads'.unique hreads] at hpush
      cases hpush with
      | one hdata => exact absurd hdata.1 (by decide)
  · have htype := h.2 (by rw [hmulti])
    rw [hmulti] at htype
    cases htype

end Breakout
