import Sumcoin.Script.Script

/-!
# The legacy signature hash: `CTransactionSignatureSerializer` and `SignatureHash` in
`script/interpreter.cpp`

A legacy signature commits to a copy of the spending transaction that the serializer
writes without building it.  Inputs other than the signed one have their scripts blanked;
the signed input carries `scriptCode`, less its `OP_CODESEPARATOR`s.
`SIGHASH_ANYONECANPAY` keeps the signed input alone, `SIGHASH_NONE` and `SIGHASH_SINGLE`
zero the other inputs' sequence numbers, `SIGHASH_NONE` drops every output, and
`SIGHASH_SINGLE` keeps the outputs up to the signed index with `CTxOut()` before it.

`SerializeScriptCode` walks the script with `GetScriptOp`, and a read that fails ends the
walk where the read stopped (`getOpPc`).  For a script that `GetOp` reads to its end the
serializer writes the plain encoding (`Ser.transaction false`) of the transaction it
stands for, `SignatureSerializer.toTransaction` (`serialize_eq_transaction`).  A script that
ends inside a push is written short of the size announced before it.

## Main definitions

* `Script.getOpPc`, `Script.serializeScriptCode`, `Script.removeCodeSeparators`.
* `SignatureSerializer` with `serialize` and `toTransaction`; `signatureHash`.
-/

namespace Sumcoin

namespace Script

/-- `OP_CODESEPARATOR`. -/
def opCodeseparator : UInt8 := 0xab

/-- `GetScriptOp(pc, end, opcodeRet, nullptr)` with the position it leaves: the opcode, or
`none` when the read fails, and the bytes from the new `pc` on.  A failed read leaves `pc`
after the opcode and after the size bytes it did read. -/
def getOpPc : List UInt8 → Option UInt8 × List UInt8
  | [] => (none, [])
  | opcode :: pc =>
    if opcode ≤ opPushdata4 then
      match pushSize opcode pc with
      | none => (none, pc)
      | some (nSize, pc) => if pc.length < nSize then (none, pc) else (some opcode, pc.drop nSize)
    else (some opcode, pc)

theorem pushSize_suffix {opcode : UInt8} {pc pc' : List UInt8} {nSize : Nat}
    (h : pushSize opcode pc = some (nSize, pc')) : pc' <:+ pc := by
  unfold pushSize at h
  repeat' split at h
  all_goals cases h
  all_goals first | exact List.suffix_refl _ | exact List.drop_suffix _ _

/-- A read, failed or not, moves `pc` forward. -/
theorem getOpPc_suffix (pc : List UInt8) : (getOpPc pc).2 <:+ pc := by
  cases pc with
  | nil => exact List.suffix_refl _
  | cons opcode pc =>
    have hpc : pc <:+ opcode :: pc := List.suffix_cons _ _
    simp only [getOpPc]
    split
    case isTrue =>
      split
      case h_1 => exact hpc
      case h_2 nSize pc' hsize =>
        have h' := (pushSize_suffix hsize).trans hpc
        split
        case isTrue => exact h'
        case isFalse => exact (List.drop_suffix _ _).trans h'
    case isFalse => exact hpc

/-- A read that succeeds starts at its opcode and moves past it. -/
theorem getOpPc_eq_some {pc rest : List UInt8} {opcode : UInt8}
    (h : getOpPc pc = (some opcode, rest)) : ∃ tail, pc = opcode :: tail ∧ rest <:+ tail := by
  cases pc with
  | nil => simp [getOpPc] at h
  | cons b pc =>
    simp only [getOpPc] at h
    split at h
    case isTrue =>
      split at h
      case h_1 => cases h
      case h_2 nSize pc' hsize =>
        split at h
        case isTrue => cases h
        case isFalse =>
          cases h
          exact ⟨pc, rfl, (List.drop_suffix _ _).trans (pushSize_suffix hsize)⟩
    case isFalse =>
      cases h
      exact ⟨_, rfl, List.suffix_refl _⟩

theorem getOpPc_length_lt {pc rest : List UInt8} {opcode : UInt8}
    (h : getOpPc pc = (some opcode, rest)) : rest.length < pc.length := by
  obtain ⟨tail, rfl, hsuf⟩ := getOpPc_eq_some h
  have := hsuf.length_le
  simp only [List.length_cons]
  omega

/-- An opcode above the pushes is one byte. -/
theorem getOpPc_cons_of_gt {opcode : UInt8} (pc : List UInt8) (h : opPushdata4 < opcode) :
    getOpPc (opcode :: pc) = (some opcode, pc) := by
  rw [getOpPc, if_neg (by simpa using h)]

/-- An `OP_CODESEPARATOR` read takes its one byte. -/
theorem eq_cons_of_getOpPc_codeseparator {pc rest : List UInt8}
    (h : getOpPc pc = (some opCodeseparator, rest)) : pc = opCodeseparator :: rest := by
  obtain ⟨tail, rfl, -⟩ := getOpPc_eq_some h
  rw [getOpPc_cons_of_gt _ (by decide)] at h
  cases h
  rfl

/-- The first loop of `SerializeScriptCode`: the `OP_CODESEPARATOR`s that `GetOp` reads. -/
def countCodeSeparators : (fuel : Nat) → List UInt8 → Nat
  | 0, _ => 0
  | fuel + 1, it =>
    match getOpPc it with
    | (none, _) => 0
    | (some opcode, it) =>
      (if opcode = opCodeseparator then 1 else 0) + countCodeSeparators fuel it

/-- The second loop of `SerializeScriptCode` from `itBegin`, the first byte not yet written,
and `it`: an `OP_CODESEPARATOR` writes the bytes before it, and once a read fails the bytes
from `itBegin` to where that read stopped. -/
def writeCodeSegments : (fuel : Nat) → (itBegin it : List UInt8) → List UInt8
  | 0, itBegin, it => itBegin.take (itBegin.length - it.length)
  | fuel + 1, itBegin, it =>
    match getOpPc it with
    | (none, it) => if itBegin ≠ [] then itBegin.take (itBegin.length - it.length) else []
    | (some opcode, it) =>
      if opcode = opCodeseparator then
        itBegin.take (itBegin.length - it.length - 1) ++ writeCodeSegments fuel it it
      else writeCodeSegments fuel itBegin it

/-- `SerializeScriptCode(s)`: the size less the separators, then the bytes between them.
Each read takes a byte, so `GetOp` runs at most once more than the script is long. -/
def serializeScriptCode (scriptCode : CScript) : List UInt8 :=
  let nCodeSeparators := countCodeSeparators (scriptCode.length + 1) scriptCode
  Ser.compactSize (scriptCode.length - nCodeSeparators) ++
    writeCodeSegments (scriptCode.length + 1) scriptCode scriptCode

/-! ## What `SerializeScriptCode` writes -/

/-- `GetOp` reads the script to its end: every read succeeds until no byte is left. -/
def opsReachEnd : (fuel : Nat) → List UInt8 → Bool
  | 0, pc => pc.isEmpty
  | fuel + 1, pc =>
    match getOpPc pc with
    | (none, _) => pc.isEmpty
    | (some _, rest) => opsReachEnd fuel rest

/-- The script a signature commits to: `pc` without the instructions that are
`OP_CODESEPARATOR`. -/
def removeCodeSeparators : (fuel : Nat) → List UInt8 → List UInt8
  | 0, pc => pc
  | fuel + 1, pc =>
    match getOpPc pc with
    | (none, _) => pc
    | (some opcode, rest) =>
      (if opcode = opCodeseparator then [] else pc.take (pc.length - rest.length)) ++
        removeCodeSeparators fuel rest

/-- The bytes a successful read took. -/
theorem take_of_getOpPc {pc rest : List UInt8} {opcode : UInt8}
    (h : getOpPc pc = (some opcode, rest)) :
    pc.take (pc.length - rest.length) ++ rest = pc := by
  obtain ⟨c, hc⟩ := h ▸ getOpPc_suffix pc
  subst hc
  rw [List.length_append, Nat.add_sub_cancel, List.take_left' rfl]

/-- The second loop writes the pending bytes, then the script less its separators.  The
induction is on the reads left; `pending` is what lies between `itBegin` and `it`. -/
theorem writeCodeSegments_eq {fuel : Nat} {it : List UInt8} (pending : List UInt8)
    (hfuel : it.length < fuel) (hend : opsReachEnd fuel it = true) :
    writeCodeSegments fuel (pending ++ it) it = pending ++ removeCodeSeparators fuel it := by
  induction fuel generalizing it pending with
  | zero => omega
  | succ fuel ih =>
    rw [opsReachEnd] at hend
    rw [writeCodeSegments, removeCodeSeparators]
    rcases hop : getOpPc it with ⟨_ | opcode, rest⟩
    case none =>
      -- the read failed, so the script was used up
      rw [hop] at hend
      have hit : it = [] := List.isEmpty_iff.mp hend
      subst hit
      have hrest : rest = [] := by simpa [getOpPc] using hop.symm
      subst hrest
      by_cases hp : pending = []
      · subst hp; rfl
      · simp [hp]
    case some =>
      rw [hop] at hend
      have hlt := getOpPc_length_lt hop
      have htake := take_of_getOpPc hop
      dsimp only
      by_cases hsep : opcode = opCodeseparator
      case pos =>
        subst hsep
        have hrest := ih [] (by omega) hend
        rw [List.nil_append, List.nil_append] at hrest
        rw [if_pos rfl, if_pos rfl, List.nil_append, eq_cons_of_getOpPc_codeseparator hop,
          List.take_left' (by simp only [List.length_append, List.length_cons]; omega), hrest]
      case neg =>
        rw [if_neg hsep, if_neg hsep]
        conv_lhs => rw [← htake, ← List.append_assoc]
        rw [ih _ (by omega) hend, List.append_assoc]

/-- Each instruction is either a separator, counted, or kept. -/
theorem countCodeSeparators_add_length {fuel : Nat} {it : List UInt8}
    (hfuel : it.length < fuel) (hend : opsReachEnd fuel it = true) :
    countCodeSeparators fuel it + (removeCodeSeparators fuel it).length = it.length := by
  induction fuel generalizing it with
  | zero => omega
  | succ fuel ih =>
    rw [opsReachEnd] at hend
    rw [countCodeSeparators, removeCodeSeparators]
    rcases hop : getOpPc it with ⟨_ | opcode, rest⟩
    case none => simp
    case some =>
      rw [hop] at hend
      have hlt := getOpPc_length_lt hop
      have hlen := congrArg List.length (take_of_getOpPc hop)
      have ih' := ih (by omega) hend
      dsimp only
      split
      case isTrue hsep =>
        subst hsep
        -- the separator read took exactly its one byte
        have hit := congrArg List.length (eq_cons_of_getOpPc_codeseparator hop)
        simp only [List.length_cons] at hit
        simp only [List.nil_append]
        omega
      case isFalse =>
        rw [List.length_append, List.length_take]
        omega

/-- For a script that `GetOp` reads to its end, `SerializeScriptCode` writes the script
less its separators, as a `CScript` is written. -/
theorem serializeScriptCode_eq {scriptCode : CScript}
    (hend : opsReachEnd (scriptCode.length + 1) scriptCode = true) :
    serializeScriptCode scriptCode =
      Ser.bytes (removeCodeSeparators (scriptCode.length + 1) scriptCode) := by
  have hfuel : scriptCode.length < scriptCode.length + 1 := by omega
  have hwrite := writeCodeSegments_eq [] hfuel hend
  have hcount := countCodeSeparators_add_length hfuel hend
  rw [List.nil_append, List.nil_append] at hwrite
  rw [serializeScriptCode, Ser.bytes, hwrite]
  congr 2
  omega

/-- Without a separator nothing is removed. -/
theorem removeCodeSeparators_of_count_eq_zero {fuel : Nat} {pc : List UInt8}
    (h : countCodeSeparators fuel pc = 0) : removeCodeSeparators fuel pc = pc := by
  induction fuel generalizing pc with
  | zero => rfl
  | succ fuel ih =>
    rw [countCodeSeparators] at h
    rw [removeCodeSeparators]
    rcases hop : getOpPc pc with ⟨_ | opcode, rest⟩
    case none => rfl
    case some =>
      rw [hop] at h
      dsimp only at h ⊢
      have hsep : opcode ≠ opCodeseparator := fun hsep => by simp [hsep] at h
      rw [if_neg hsep] at h ⊢
      rw [ih (by omega), take_of_getOpPc hop]

end Script

/-- Reading a list index by index, as the loops of `Serialize` do over `List.range`. -/
theorem mapM_range_eq_some {α β : Type} {f : Nat → Option β} {g : α → β} :
    ∀ {L : List α}, (∀ i < L.length, f i = L[i]?.map g) →
      (List.range L.length).mapM f = some (L.map g)
  | [], _ => rfl
  | a :: L, h => by
    have hL : (List.range L.length).mapM (f ∘ Nat.succ) = some (L.map g) :=
      mapM_range_eq_some fun i hi => by
        simpa using h (i + 1) (by simp only [List.length_cons]; omega)
    rw [List.length_cons, List.range_succ_eq_map, List.mapM_cons, List.mapM_map, hL,
      h 0 (by simp)]
    rfl

/-! ## The serializer -/

/-- `SIGHASH_ALL`. -/
def sighashAll : Int32 := 1

/-- `SIGHASH_NONE`. -/
def sighashNone : Int32 := 2

/-- `SIGHASH_SINGLE`. -/
def sighashSingle : Int32 := 3

/-- `SIGHASH_ANYONECANPAY`. -/
def sighashAnyonecanpay : Int32 := 0x80

/-- `CTxOut()`: `SetNull()`, the value `-1` and an empty script. -/
def CTxOut.null : CTxOut := ⟨-1, []⟩

/-- `CTransactionSignatureSerializer`: the transaction, the script of the input signed, its
index, and the three flags the constructor reads off `nHashType`. -/
structure SignatureSerializer where
  txTo : CTransaction
  scriptCode : CScript
  nIn : UInt32
  fAnyoneCanPay : Bool
  fHashSingle : Bool
  fHashNone : Bool

namespace SignatureSerializer

/-- `CTransactionSignatureSerializer(txToIn, scriptCodeIn, nInIn, nHashTypeIn)`. -/
def ofHashType (txTo : CTransaction) (scriptCode : CScript) (nIn : UInt32) (nHashType : Int32) :
    SignatureSerializer where
  txTo := txTo
  scriptCode := scriptCode
  nIn := nIn
  fAnyoneCanPay := nHashType &&& sighashAnyonecanpay != 0
  fHashSingle := nHashType &&& 0x1f == sighashSingle
  fHashNone := nHashType &&& 0x1f == sighashNone

variable (ser : SignatureSerializer)

/-- `SerializeInput(s, nInput)`; `none` for an input outside `vin`, which the source reads
out of range. -/
def serializeInput (nInput : Nat) : Option (List UInt8) := do
  -- with `SIGHASH_ANYONECANPAY` only the input being signed is written
  let nInput := if ser.fAnyoneCanPay then ser.nIn.toNat else nInput
  let txin ← ser.txTo.vin[nInput]?
  pure (Ser.outPoint txin.prevout ++
    (if nInput ≠ ser.nIn.toNat then Ser.bytes [] else Script.serializeScriptCode ser.scriptCode) ++
    (if nInput != ser.nIn.toNat && (ser.fHashSingle || ser.fHashNone) then Ser.le 4 0
     else Ser.le 4 txin.nSequence.toNat))

/-- `SerializeOutput(s, nOutput)`; `none` for an output outside `vout`. -/
def serializeOutput (nOutput : Nat) : Option (List UInt8) :=
  if ser.fHashSingle && nOutput != ser.nIn.toNat then some (Ser.txOut CTxOut.null)
  else ser.txTo.vout[nOutput]?.map Ser.txOut

/-- `nInputs`, an `unsigned int`. -/
def nInputs : UInt32 := if ser.fAnyoneCanPay then 1 else ser.txTo.vin.length.toUInt32

/-- `nOutputs`, an `unsigned int`. -/
def nOutputs : UInt32 :=
  if ser.fHashNone then 0
  else if ser.fHashSingle then ser.nIn + 1
  else ser.txTo.vout.length.toUInt32

/-- `Serialize(s)`. -/
def serialize : Option (List UInt8) := do
  let ins ← (List.range ser.nInputs.toNat).mapM ser.serializeInput
  let outs ← (List.range ser.nOutputs.toNat).mapM ser.serializeOutput
  pure (Ser.le 4 ser.txTo.nVersion.toUInt32.toNat ++
    (if ser.txTo.nVersion < 3 then Ser.le 4 ser.txTo.nTime.toNat else []) ++
    Ser.compactSize ser.nInputs.toNat ++ ins.flatten ++
    Ser.compactSize ser.nOutputs.toNat ++ outs.flatten ++
    Ser.le 4 ser.txTo.nLockTime.toNat)

/-! ## The transaction it stands for -/

/-- Input `i` as the serializer writes it. -/
def inputAt (i : Nat) (txin : CTxIn) : CTxIn :=
  { txin with
    scriptSig :=
      if i = ser.nIn.toNat then Script.removeCodeSeparators (ser.scriptCode.length + 1) ser.scriptCode
      else []
    nSequence := if i != ser.nIn.toNat && (ser.fHashSingle || ser.fHashNone) then 0 else txin.nSequence }

/-- The inputs written: the signed one alone with `SIGHASH_ANYONECANPAY`. -/
def vinCopy : List CTxIn :=
  if ser.fAnyoneCanPay then (ser.txTo.vin[ser.nIn.toNat]?.map (ser.inputAt ser.nIn.toNat)).toList
  else ser.txTo.vin.mapIdx ser.inputAt

/-- The outputs written: none with `SIGHASH_NONE`, and with `SIGHASH_SINGLE` the signed
index's after `CTxOut()` for each one before it. -/
def voutCopy : List CTxOut :=
  if ser.fHashNone then []
  else if ser.fHashSingle then
    List.replicate ser.nIn.toNat CTxOut.null ++ ser.txTo.vout[ser.nIn.toNat]?.toList
  else ser.txTo.vout

/-- The transaction a legacy signature commits to. -/
def toTransaction : CTransaction := { ser.txTo with vin := ser.vinCopy, vout := ser.voutCopy }

section
variable {ser}

theorem serializeInput_of_getElem? (hend : Script.opsReachEnd (ser.scriptCode.length + 1) ser.scriptCode = true)
    {nInput j : Nat} {txin : CTxIn} (hj : (if ser.fAnyoneCanPay then ser.nIn.toNat else nInput) = j)
    (h : ser.txTo.vin[j]? = some txin) :
    ser.serializeInput nInput = some (Ser.txIn (ser.inputAt j txin)) := by
  rw [serializeInput]
  simp only [hj, h, Option.bind_eq_bind, Option.bind_some, Option.pure_def]
  congr 1
  rw [Ser.txIn, inputAt]
  dsimp only
  by_cases hjn : j = ser.nIn.toNat
  · rw [if_neg (not_not.mpr hjn), if_pos hjn, Script.serializeScriptCode_eq hend]
    split <;> rfl
  · rw [if_pos hjn, if_neg hjn]
    split <;> rfl

/-- The input loop writes the inputs of `vinCopy`, one by one. -/
theorem serializeInput_eq (hIn : ser.nIn.toNat < ser.txTo.vin.length)
    (hend : Script.opsReachEnd (ser.scriptCode.length + 1) ser.scriptCode = true) :
    ∀ i < ser.vinCopy.length, ser.serializeInput i = ser.vinCopy[i]?.map Ser.txIn := by
  intro i hi
  rw [vinCopy] at hi ⊢
  by_cases hacp : ser.fAnyoneCanPay
  case pos =>
    -- one input, the signed one, whatever the loop's index
    rw [if_pos hacp, List.getElem?_eq_getElem hIn] at hi ⊢
    have hi0 : i = 0 := by simpa using hi
    subst hi0
    exact serializeInput_of_getElem? hend (by rw [if_pos hacp]) (List.getElem?_eq_getElem hIn)
  case neg =>
    rw [if_neg hacp] at hi ⊢
    rw [List.length_mapIdx] at hi
    rw [List.getElem?_mapIdx, List.getElem?_eq_getElem hi]
    exact serializeInput_of_getElem? hend (by rw [if_neg hacp]) (List.getElem?_eq_getElem hi)

/-- The output loop writes the outputs of `voutCopy`, one by one. -/
theorem serializeOutput_eq
    (hsingle : ser.fHashSingle = true → ser.fHashNone = false → ser.nIn.toNat < ser.txTo.vout.length) :
    ∀ o < ser.voutCopy.length, ser.serializeOutput o = ser.voutCopy[o]?.map Ser.txOut := by
  intro o ho
  rw [voutCopy] at ho ⊢
  by_cases hnone : ser.fHashNone
  case pos =>
    rw [if_pos hnone] at ho
    simp at ho
  case neg =>
    rw [if_neg hnone] at ho ⊢
    by_cases hs : ser.fHashSingle
    case neg =>
      rw [if_neg hs, serializeOutput, if_neg (by simp [hs])]
    case pos =>
      have hlt := hsingle hs (by simpa using hnone)
      rw [if_pos hs] at ho ⊢
      rw [List.getElem?_eq_getElem hlt, Option.toList_some, List.length_append,
        List.length_replicate, List.length_singleton] at ho
      rw [List.getElem?_eq_getElem hlt, Option.toList_some, serializeOutput]
      by_cases hon : o = ser.nIn.toNat
      case pos =>
        -- the signed index: its own output
        subst hon
        rw [if_neg (by simp), List.getElem?_append_right (by simp), List.length_replicate,
          Nat.sub_self, List.getElem?_singleton, if_pos rfl, List.getElem?_eq_getElem hlt]
      case neg =>
        -- an index before it: `CTxOut()`
        rw [if_pos (by simp [hs, hon]), List.getElem?_append_left (by simp; omega),
          List.getElem?_replicate, if_pos (by omega)]
        rfl

/-- `nInputs` counts `vinCopy`. -/
theorem nInputs_toNat (hIn : ser.nIn.toNat < ser.txTo.vin.length)
    (hvin : ser.txTo.vin.length < 2 ^ 32) : ser.nInputs.toNat = ser.vinCopy.length := by
  rw [nInputs, vinCopy]
  by_cases hacp : ser.fAnyoneCanPay
  · rw [if_pos hacp, if_pos hacp, List.getElem?_eq_getElem hIn]
    rfl
  · rw [if_neg hacp, if_neg hacp, List.length_mapIdx, Nat.toUInt32, UInt32.toNat_ofNat',
      Nat.mod_eq_of_lt hvin]

/-- `nOutputs` counts `voutCopy`. -/
theorem nOutputs_toNat (hvout : ser.txTo.vout.length < 2 ^ 32)
    (hsingle : ser.fHashSingle = true → ser.fHashNone = false → ser.nIn.toNat < ser.txTo.vout.length) :
    ser.nOutputs.toNat = ser.voutCopy.length := by
  rw [nOutputs, voutCopy]
  by_cases hnone : ser.fHashNone
  · rw [if_pos hnone, if_pos hnone]
    rfl
  rw [if_neg hnone, if_neg hnone]
  by_cases hs : ser.fHashSingle
  · have hlt := hsingle hs (by simpa using hnone)
    rw [if_pos hs, if_pos hs, List.getElem?_eq_getElem hlt, Option.toList_some, List.length_append,
      List.length_replicate, List.length_singleton, UInt32.toNat_add, UInt32.toNat_one,
      Nat.mod_eq_of_lt (by omega)]
  · rw [if_neg hs, if_neg hs, Nat.toUInt32, UInt32.toNat_ofNat', Nat.mod_eq_of_lt hvout]

/-- The serializer writes the plain encoding of the transaction it stands for, for a
script that `GetOp` reads to its end. -/
theorem serialize_eq_transaction (hIn : ser.nIn.toNat < ser.txTo.vin.length)
    (hvin : ser.txTo.vin.length < 2 ^ 32) (hvout : ser.txTo.vout.length < 2 ^ 32)
    (hsingle : ser.fHashSingle = true → ser.fHashNone = false → ser.nIn.toNat < ser.txTo.vout.length)
    (hend : Script.opsReachEnd (ser.scriptCode.length + 1) ser.scriptCode = true) :
    ser.serialize = some (Ser.transaction false ser.toTransaction) := by
  have hins := mapM_range_eq_some (ser.serializeInput_eq hIn hend)
  have houts := mapM_range_eq_some (ser.serializeOutput_eq hsingle)
  rw [← nInputs_toNat hIn hvin] at hins
  rw [← nOutputs_toNat hvout hsingle] at houts
  rw [serialize, hins, houts]
  simp only [Option.bind_eq_bind, Option.bind_some, Option.pure_def, Ser.transaction,
    toTransaction, Ser.vector, List.flatMap_def, nInputs_toNat hIn hvin,
    nOutputs_toNat hvout hsingle, Bool.false_and, List.append_assoc]
  rfl

/-- `serialize_eq_transaction` for the serializer that `SignatureHash` builds. -/
theorem serialize_ofHashType {txTo : CTransaction} {scriptCode : CScript} {nIn : UInt32}
    {nHashType : Int32} (hIn : nIn.toNat < txTo.vin.length)
    (hvin : txTo.vin.length < 2 ^ 32) (hvout : txTo.vout.length < 2 ^ 32)
    (hsingle : nHashType &&& 0x1f = sighashSingle → nIn.toNat < txTo.vout.length)
    (hend : Script.opsReachEnd (scriptCode.length + 1) scriptCode = true) :
    (ofHashType txTo scriptCode nIn nHashType).serialize =
      some (Ser.transaction false (ofHashType txTo scriptCode nIn nHashType).toTransaction) :=
  serialize_eq_transaction hIn hvin hvout
    (fun hs _ => hsingle (by simpa [ofHashType] using hs)) hend

/-- With `SIGHASH_ALL` and no separator, the transaction is `txTo` with every script
blanked but the signed input's, which is `scriptCode`. -/
theorem toTransaction_sighashAll (txTo : CTransaction) (scriptCode : CScript) (nIn : UInt32)
    (hsep : Script.countCodeSeparators (scriptCode.length + 1) scriptCode = 0) :
    (ofHashType txTo scriptCode nIn sighashAll).toTransaction =
      { txTo with
        vin := txTo.vin.mapIdx fun i txin =>
          { txin with scriptSig := if i = nIn.toNat then scriptCode else [] } } := by
  have hacp : (ofHashType txTo scriptCode nIn sighashAll).fAnyoneCanPay = false := rfl
  have hs : (ofHashType txTo scriptCode nIn sighashAll).fHashSingle = false := rfl
  have hn : (ofHashType txTo scriptCode nIn sighashAll).fHashNone = false := rfl
  -- no sequence number is zeroed, and the signed script is `scriptCode` itself
  have hin : (ofHashType txTo scriptCode nIn sighashAll).inputAt =
      fun i txin => { txin with scriptSig := if i = nIn.toNat then scriptCode else [] } := by
    funext i txin
    simp only [inputAt, hs, hn, Bool.or_false, Bool.and_false, Bool.false_eq_true, if_false]
    rw [show (ofHashType txTo scriptCode nIn sighashAll).scriptCode = scriptCode from rfl,
      Script.removeCodeSeparators_of_count_eq_zero hsep]
    rfl
  simp only [toTransaction, vinCopy, voutCopy, hacp, hs, hn, if_false, Bool.false_eq_true, hin]
  rfl

end

end SignatureSerializer

/-- The legacy signature serializer writes the plain encoding of the blanked and truncated
copy of `txTo` that the hash type describes; with `SIGHASH_ALL` and no separator that copy
is `txTo` with every script but the signed input's emptied and that one `scriptCode`. -/
theorem signatureSerializer_refines_transaction (txTo : CTransaction) (scriptCode : CScript)
    (nIn : UInt32) (nHashType : Int32) (hIn : nIn.toNat < txTo.vin.length)
    (hvin : txTo.vin.length < 2 ^ 32) (hvout : txTo.vout.length < 2 ^ 32)
    (hsingle : nHashType &&& 0x1f = sighashSingle → nIn.toNat < txTo.vout.length)
    (hend : Script.opsReachEnd (scriptCode.length + 1) scriptCode = true) :
    (SignatureSerializer.ofHashType txTo scriptCode nIn nHashType).serialize =
        some (Ser.transaction false
          (SignatureSerializer.ofHashType txTo scriptCode nIn nHashType).toTransaction) ∧
      (nHashType = sighashAll →
        Script.countCodeSeparators (scriptCode.length + 1) scriptCode = 0 →
        (SignatureSerializer.ofHashType txTo scriptCode nIn nHashType).serialize =
          some (Ser.transaction false
            { txTo with
              vin := txTo.vin.mapIdx fun i txin =>
                { txin with scriptSig := if i = nIn.toNat then scriptCode else [] } })) := by
  have hser := SignatureSerializer.serialize_ofHashType hIn hvin hvout hsingle hend
  refine ⟨hser, ?_⟩
  rintro rfl hsep
  rw [hser, SignatureSerializer.toTransaction_sighashAll txTo scriptCode nIn hsep]

theorem signatureSerializer_refines_transaction_single :
    (SignatureSerializer.ofHashType
        ⟨[⟨COutPoint.null, [], 7, ⟨[]⟩⟩, ⟨COutPoint.null, [0x51], 9, ⟨[]⟩⟩],
          [⟨5, [0x51]⟩, ⟨6, []⟩], 1, 2, 0⟩ [0x76, 0xa9] 1 sighashSingle).serialize =
      some (Ser.transaction false (SignatureSerializer.ofHashType
        ⟨[⟨COutPoint.null, [], 7, ⟨[]⟩⟩, ⟨COutPoint.null, [0x51], 9, ⟨[]⟩⟩],
          [⟨5, [0x51]⟩, ⟨6, []⟩], 1, 2, 0⟩ [0x76, 0xa9] 1 sighashSingle).toTransaction) :=
  (signatureSerializer_refines_transaction
    ⟨[⟨COutPoint.null, [], 7, ⟨[]⟩⟩, ⟨COutPoint.null, [0x51], 9, ⟨[]⟩⟩],
      [⟨5, [0x51]⟩, ⟨6, []⟩], 1, 2, 0⟩ [0x76, 0xa9] 1 sighashSingle
    (by decide) (by decide) (by decide) (by decide) (by decide)).1

/-- A `scriptCode` that ends inside a push: `GetOp` stops after the push's opcode, so the
serializer announces two bytes and writes one, and the copy's encoding differs. -/
theorem signatureSerializer_truncatedPush :
    0 < [(⟨COutPoint.null, [], 0, ⟨[]⟩⟩ : CTxIn)].length ∧
      Script.countCodeSeparators 3 [0x02, 0xaa] = 0 ∧
      (SignatureSerializer.ofHashType ⟨[⟨COutPoint.null, [], 0, ⟨[]⟩⟩], [], 1, 0, 0⟩
          [0x02, 0xaa] 0 sighashAll).serialize ≠
        some (Ser.transaction false
          { (⟨[⟨COutPoint.null, [], 0, ⟨[]⟩⟩], [], 1, 0, 0⟩ : CTransaction) with
            vin := [(⟨COutPoint.null, [], 0, ⟨[]⟩⟩ : CTxIn)].mapIdx fun i txin =>
              { txin with scriptSig := if i = 0 then [0x02, 0xaa] else [] } }) := by
  decide

/-- `SigVersion`. -/
inductive SigVersion
  | base
  | witnessV0
  deriving DecidableEq, Repr

/-- `UINT256_ONE()`: one, its low byte first. -/
def Uint256.one : Uint256 := ⟨(Vector.replicate 32 0).set 0 1⟩

section
variable (hash256 : List UInt8 → Uint256)

/-- `GetPrevoutHash(txTo)`. -/
def getPrevoutHash (txTo : CTransaction) : Uint256 :=
  hash256 (txTo.vin.flatMap fun txin => Ser.outPoint txin.prevout)

/-- `GetSequenceHash(txTo)`. -/
def getSequenceHash (txTo : CTransaction) : Uint256 :=
  hash256 (txTo.vin.flatMap fun txin => Ser.le 4 txin.nSequence.toNat)

/-- `GetOutputsHash(txTo)`. -/
def getOutputsHash (txTo : CTransaction) : Uint256 := hash256 (txTo.vout.flatMap Ser.txOut)

/-- `SignatureHash(scriptCode, txTo, nIn, nHashType, amount, sigversion, cache)`.  The cache
of `PrecomputedTransactionData` holds the three hashes above of `txTo`, so they are computed
in its place; `none` where the source asserts `nIn < txTo.vin.size()`. -/
def signatureHash (scriptCode : CScript) (txTo : CTransaction) (nIn : UInt32)
    (nHashType : Int32) (amount : CAmount) (sigversion : SigVersion) : Option Uint256 := do
  let txin ← txTo.vin[nIn.toNat]?
  let nBase := nHashType &&& 0x1f
  let fAnyoneCanPay := nHashType &&& sighashAnyonecanpay != 0
  match sigversion with
  | .witnessV0 =>
    let hashPrevouts := if !fAnyoneCanPay then getPrevoutHash hash256 txTo else Uint256.zero
    let hashSequence :=
      if !fAnyoneCanPay && nBase != sighashSingle && nBase != sighashNone then
        getSequenceHash hash256 txTo
      else Uint256.zero
    let hashOutputs :=
      if nBase != sighashSingle && nBase != sighashNone then getOutputsHash hash256 txTo
      else if nBase == sighashSingle then
        (txTo.vout[nIn.toNat]?.map fun txout => hash256 (Ser.txOut txout)).getD Uint256.zero
      else Uint256.zero
    pure (hash256 (Ser.le 4 txTo.nVersion.toUInt32.toNat ++
      (if txTo.nVersion < 3 then Ser.le 4 txTo.nTime.toNat else []) ++
      Ser.uint256 hashPrevouts ++ Ser.uint256 hashSequence ++ Ser.outPoint txin.prevout ++
      Ser.bytes scriptCode ++ Ser.le 8 (amount % 2 ^ 64).toNat ++ Ser.le 4 txin.nSequence.toNat ++
      Ser.uint256 hashOutputs ++ Ser.le 4 txTo.nLockTime.toNat ++
      Ser.le 4 nHashType.toUInt32.toNat))
  | .base =>
    -- `SIGHASH_SINGLE` without an output at the signed index signs the number one
    if nBase == sighashSingle && txTo.vout.length ≤ nIn.toNat then pure Uint256.one
    else do
      let bytes ← (SignatureSerializer.ofHashType txTo scriptCode nIn nHashType).serialize
      pure (hash256 (bytes ++ Ser.le 4 nHashType.toUInt32.toNat))

/-- A legacy signature hash is the hash of the plain encoding of the transaction the
serializer stands for, followed by the hash type. -/
theorem signatureHash_base {scriptCode : CScript} {txTo : CTransaction} {nIn : UInt32}
    {nHashType : Int32} (amount : CAmount) (hIn : nIn.toNat < txTo.vin.length)
    (hvin : txTo.vin.length < 2 ^ 32) (hvout : txTo.vout.length < 2 ^ 32)
    (hsingle : nHashType &&& 0x1f = sighashSingle → nIn.toNat < txTo.vout.length)
    (hend : Script.opsReachEnd (scriptCode.length + 1) scriptCode = true) :
    signatureHash hash256 scriptCode txTo nIn nHashType amount .base =
      some (hash256 (Ser.transaction false
        (SignatureSerializer.ofHashType txTo scriptCode nIn nHashType).toTransaction ++
          Ser.le 4 nHashType.toUInt32.toNat)) := by
  have hser := SignatureSerializer.serialize_ofHashType hIn hvin hvout hsingle hend
  have hone : ¬ (nHashType &&& 0x1f == sighashSingle && txTo.vout.length ≤ nIn.toNat) = true := by
    intro h
    simp only [Bool.and_eq_true, beq_iff_eq, decide_eq_true_eq] at h
    exact absurd (hsingle h.1) (by omega)
  simp only [signatureHash, List.getElem?_eq_getElem hIn, Option.bind_eq_bind, Option.bind_some,
    if_neg hone, hser, Option.pure_def]

end


end Sumcoin
