import Sumcoin.Primitives.VarInt
import Sumcoin.Script.Interpreter
import Sumcoin.Coins.Coins

/-!
# The compressed output: `compressor.h`, `compressor.cpp`

The chainstate and the undo files store an output as its compressed amount and its
compressed script.  `CompressAmount` strips up to nine trailing decimal zeros into an
exponent `e` and folds the last digit into a mixed-radix code; `DecompressAmount` undoes
it.  `CompressScript` writes the four standard templates (pay to a key hash, to a script
hash, to a compressed key, to an uncompressed key) as a tag `0 … 5` and the 20 or 32
bytes that vary, and every other script as a `VARINT` of its length plus six and its
bytes; the reader tells the two apart by that `VARINT`.

An uncompressed key is stored by its x coordinate and the parity of y, and read back by
`CPubKey::Decompress`.  The two operations of `secp256k1` the compressor calls are
parameters (`PubKeyOps`); what the round trip needs of them is one property,
`PubKeyOps.DecompressInverts`: decompressing the compressed form of a key that
`IsFullyValid` admits gives the key back.

## Main definitions

* `compressAmount`, `decompressAmount`.
* `compressScript`, `getSpecialScriptSize`, `decompressScript`.
* `ScriptCompression.ser`, `ScriptCompression.unser`, `AmountCompression`,
  `TxOutCompression`.

## Main statements

* `decompressAmount_compressAmount`, `ScriptCompression.unser_ser`,
  `TxOutCompression.unser_ser`.
* `txOutCompression_invertible`: the amount codec and the output codec invert.
-/

namespace Sumcoin

open ByteReader

/-! ## Amounts -/

/-- The loop of `CompressAmount`: divide by ten while the last digit is zero and
`e < 9`. -/
def compressAmountLoop (n e : Nat) : Nat × Nat :=
  if n % 10 = 0 ∧ e < 9 then compressAmountLoop (n / 10) (e + 1) else (n, e)
termination_by 9 - e

/-- `CompressAmount(n)`, in `uint64_t`.  `assert(d >= 1 && d <= 9)` holds
(`compressAmountLoop_spec`). -/
def compressAmount (n : Nat) : Nat :=
  if n = 0 then 0
  else
    let (n, e) := compressAmountLoop n 0
    if e < 9 then
      let d := n % 10
      let n := n / 10
      (1 + (n * 9 + d - 1) * 10 + e) % 2 ^ 64
    else (1 + (n - 1) * 10 + 9) % 2 ^ 64

/-- The loop of `DecompressAmount`: `while (e) { n *= 10; e--; }`, in `uint64_t`. -/
def decompressAmountLoop : Nat → Nat → Nat
  | n, 0 => n
  | n, e + 1 => decompressAmountLoop (n * 10 % 2 ^ 64) e

/-- `DecompressAmount(x)`, in `uint64_t`. -/
def decompressAmount (x : Nat) : Nat :=
  if x = 0 then 0
  else
    let x := x - 1
    let e := x % 10
    let x := x / 10
    let n :=
      if e < 9 then
        let d := x % 9 + 1
        let x := x / 9
        (x * 10 + d) % 2 ^ 64
      else (x + 1) % 2 ^ 64
    decompressAmountLoop n e

/-- The loop strips `e' - e` zeros from `n` and leaves a last digit that is not zero,
unless it stopped at `e' = 9`. -/
theorem compressAmountLoop_spec {n e : Nat} (hn : 0 < n) (he : e ≤ 9) :
    ∃ m e', compressAmountLoop n e = (m, e') ∧ n = m * 10 ^ (e' - e) ∧ e ≤ e' ∧ e' ≤ 9 ∧
      0 < m ∧ (e' < 9 → m % 10 ≠ 0) := by
  induction n, e using compressAmountLoop.induct with
  | case1 n e hzero ih =>
    -- one more zero stripped: `n = 10 * (n / 10)`
    obtain ⟨m, e', hloop, hm, he₁, he₂, hpos, hlast⟩ := ih (by omega) (by omega)
    refine ⟨m, e', ?_, ?_, by omega, he₂, hpos, hlast⟩
    · rw [compressAmountLoop, if_pos hzero, hloop]
    · have hsucc : e' - e = e' - (e + 1) + 1 := by omega
      rw [hsucc, Nat.pow_succ, ← Nat.mul_assoc, ← hm]
      omega
  | case2 n e hstop =>
    refine ⟨n, e, by rw [compressAmountLoop, if_neg hstop], by simp, le_rfl, he, hn, ?_⟩
    intro he9 hzero
    exact hstop ⟨hzero, he9⟩

/-- The loop multiplies by `10 ^ e` in `uint64_t`. -/
theorem decompressAmountLoop_eq {n : Nat} (hn : n < 2 ^ 64) (e : Nat) :
    decompressAmountLoop n e = n * 10 ^ e % 2 ^ 64 := by
  induction e generalizing n with
  | zero => rw [decompressAmountLoop, Nat.pow_zero, Nat.mul_one, Nat.mod_eq_of_lt hn]
  | succ e ih =>
    have hpow : 10 ^ (e + 1) = 10 * 10 ^ e := Nat.pow_succ'
    rw [decompressAmountLoop, ih (Nat.mod_lt _ (by decide)), Nat.mod_mul_mod, hpow,
      ← Nat.mul_assoc]

/-- **`DecompressAmount` inverts `CompressAmount`** on every amount whose code does not
wrap. -/
theorem decompressAmount_compressAmount {n : Nat} (hn : 10 * n < 2 ^ 64) :
    decompressAmount (compressAmount n) = n := by
  rcases Nat.eq_zero_or_pos n with rfl | hpos
  · rfl
  obtain ⟨m, e, hloop, hm, -, he, hmpos, hlast⟩ := compressAmountLoop_spec hpos (Nat.zero_le 9)
  rw [Nat.sub_zero] at hm
  have hmle : m ≤ n := by
    rw [hm]
    exact Nat.le_mul_of_pos_right m (Nat.pow_pos (by decide))
  rw [compressAmount, if_neg (by omega), hloop]
  dsimp only
  by_cases he9 : e < 9
  · -- `1 + (q * 9 + d - 1) * 10 + e` with the last digit `d` of `m`, and `q = m / 10`
    have hd := hlast he9
    have hcode : (1 + (m / 10 * 9 + m % 10 - 1) * 10 + e) % 2 ^ 64 =
        1 + (m / 10 * 9 + m % 10 - 1) * 10 + e := Nat.mod_eq_of_lt (by omega)
    rw [if_pos he9, hcode, decompressAmount, if_neg (by omega)]
    dsimp only
    have hx : (1 + (m / 10 * 9 + m % 10 - 1) * 10 + e - 1) % 10 = e := by omega
    have hq : (1 + (m / 10 * 9 + m % 10 - 1) * 10 + e - 1) / 10 = m / 10 * 9 + m % 10 - 1 := by
      omega
    rw [hx, hq, if_pos he9]
    have hm' : ((m / 10 * 9 + m % 10 - 1) / 9 * 10 + ((m / 10 * 9 + m % 10 - 1) % 9 + 1)) %
        2 ^ 64 = m := by
      rw [Nat.mod_eq_of_lt (by omega)]
      omega
    rw [hm', decompressAmountLoop_eq (by omega), ← hm, Nat.mod_eq_of_lt (by omega)]
  · -- nine zeros stripped: the code is `10 * m`
    have he9' : e = 9 := by omega
    have hcode : (1 + (m - 1) * 10 + 9) % 2 ^ 64 = 1 + (m - 1) * 10 + 9 :=
      Nat.mod_eq_of_lt (by omega)
    rw [if_neg he9, hcode, decompressAmount, if_neg (by omega)]
    dsimp only
    have hx : (1 + (m - 1) * 10 + 9 - 1) % 10 = 9 := by omega
    have hq : (1 + (m - 1) * 10 + 9 - 1) / 10 + 1 = m := by omega
    rw [hx, if_neg (by decide), hq, Nat.mod_eq_of_lt (by omega), decompressAmountLoop_eq (by omega),
      ← he9', ← hm, Nat.mod_eq_of_lt (by omega)]

/-- The code `CompressAmount` writes is a `uint64_t`. -/
theorem compressAmount_lt (n : Nat) : compressAmount n < 2 ^ 64 := by
  unfold compressAmount
  split
  · decide
  · dsimp only
    split <;> exact Nat.mod_lt _ (by decide)

/-! ## Script templates -/

section Templates

open Script

/-- A list whose first entries are `pre` and whose entries from `pre.length + k` on are
`post` is `pre`, then `k` of its own entries, then `post`. -/
theorem eq_append_take_drop {α : Type} {s pre post : List α} {k : Nat}
    (hlen : s.length = pre.length + k + post.length)
    (hpre : ∀ i < pre.length, s[i]? = pre[i]?)
    (hpost : ∀ i < post.length, s[pre.length + k + i]? = post[i]?) :
    s = pre ++ (s.drop pre.length).take k ++ post := by
  apply List.ext_getElem?
  intro i
  have hmid : ((s.drop pre.length).take k).length = k := by simp; omega
  rw [List.append_assoc, List.getElem?_append]
  split
  case isTrue hi => exact hpre i hi
  case isFalse hi =>
    rw [List.getElem?_append, hmid]
    split
    case isTrue hk =>
      rw [List.getElem?_take_of_lt hk, List.getElem?_drop]
      congr 1
      omega
    case isFalse hk =>
      by_cases hp : i - pre.length - k < post.length
      · rw [← hpost _ hp]
        congr 1
        omega
      · rw [List.getElem?_eq_none (by omega), List.getElem?_eq_none (by omega)]

/-- `IsToKeyID(script, hash)`: `OP_DUP OP_HASH160 <20 bytes> OP_EQUALVERIFY OP_CHECKSIG`,
and the 20 bytes. -/
def isToKeyID (script : CScript) : Option (List UInt8) :=
  if script.length = 25 ∧ script[0]? = some opDup ∧ script[1]? = some opHash160 ∧
      script[2]? = some 20 ∧ script[23]? = some opEqualverify ∧ script[24]? = some opChecksig then
    some ((script.drop 3).take 20)
  else none

/-- `IsToScriptID(script, hash)`: `OP_HASH160 <20 bytes> OP_EQUAL`, and the 20 bytes. -/
def isToScriptID (script : CScript) : Option (List UInt8) :=
  if script.length = 23 ∧ script[0]? = some opHash160 ∧ script[1]? = some 20 ∧
      script[22]? = some opEqual then
    some ((script.drop 2).take 20)
  else none

end Templates

/-- The two operations of `secp256k1` the compressor calls: `CPubKey::IsFullyValid` of an
uncompressed key, and `CPubKey::Decompress` of a compressed one, which gives the 65 bytes
of the uncompressed key or fails. -/
structure PubKeyOps where
  isFullyValid : List UInt8 → Bool
  decompress : List UInt8 → Option (Vector UInt8 65)

/-- Decompressing the compressed form of a key `IsFullyValid` admits (the parity of y
after `0x02`, then x) gives the key back. -/
def PubKeyOps.DecompressInverts (ops : PubKeyOps) : Prop :=
  ∀ key : List UInt8, key.length = 65 → key[0]? = some 4 → ops.isFullyValid key = true →
    (ops.decompress ((0x02 ||| (key.getD 64 0 &&& 0x01)) :: (key.drop 1).take 32)).map
      Vector.toList = some key

section PubKeys

variable (ops : PubKeyOps)

open Script

/-- `IsToPubKey(script, pubkey)`: a push of a compressed key and `OP_CHECKSIG`, or of an
uncompressed key that is fully valid; the key. -/
def isToPubKey (script : CScript) : Option (List UInt8) :=
  if script.length = 35 ∧ script[0]? = some 33 ∧ script[34]? = some opChecksig ∧
      (script[1]? = some 0x02 ∨ script[1]? = some 0x03) then
    some ((script.drop 1).take 33)
  else if script.length = 67 ∧ script[0]? = some 65 ∧ script[66]? = some opChecksig ∧
      script[1]? = some 0x04 then
    let pubkey := (script.drop 1).take 65
    if ops.isFullyValid pubkey then some pubkey else none
  else none

/-- `CompressScript(script, out)`: the tag and the bytes that vary, for the four
templates. -/
def compressScript (script : CScript) : Option (List UInt8) :=
  match isToKeyID script with
  | some hash => some (0x00 :: hash)
  | none =>
    match isToScriptID script with
    | some hash => some (0x01 :: hash)
    | none =>
      match isToPubKey ops script with
      | some pubkey =>
        -- `out.resize(33); memcpy(&out[1], &pubkey[1], 32)`
        let body := (pubkey.drop 1).take 32
        if pubkey[0]? = some 0x02 ∨ pubkey[0]? = some 0x03 then some (pubkey.getD 0 0 :: body)
        else if pubkey[0]? = some 0x04 then some ((0x04 ||| (pubkey.getD 64 0 &&& 0x01)) :: body)
        else none
      | none => none

/-- `GetSpecialScriptSize(nSize)`. -/
def getSpecialScriptSize (nSize : Nat) : Nat :=
  if nSize = 0 ∨ nSize = 1 then 20
  else if nSize = 2 ∨ nSize = 3 ∨ nSize = 4 ∨ nSize = 5 then 32
  else 0

/-- `DecompressScript(script, nSize, in)`: the script it writes, or `none` when it returns
`false` and leaves the script as it was. -/
def decompressScript (nSize : Nat) (inp : List UInt8) : Option CScript :=
  if nSize = 0 then some ([opDup, opHash160, 20] ++ inp.take 20 ++ [opEqualverify, opChecksig])
  else if nSize = 1 then some ([opHash160, 20] ++ inp.take 20 ++ [opEqual])
  else if nSize = 2 ∨ nSize = 3 then some ([33, nSize.toUInt8] ++ inp.take 32 ++ [opChecksig])
  else if nSize = 4 ∨ nSize = 5 then
    let vch := (nSize - 2).toUInt8 :: inp.take 32
    match ops.decompress vch with
    | none => none
    | some pubkey => some ([65] ++ pubkey.toList ++ [opChecksig])
  else none

end PubKeys

/-! ## The templates read back -/

section Spec

open Script

theorem isToKeyID_eq_some {script hash : List UInt8} (h : isToKeyID script = some hash) :
    hash.length = 20 ∧ script = [opDup, opHash160, 20] ++ hash ++ [opEqualverify, opChecksig] := by
  unfold isToKeyID at h
  split at h
  case isFalse => cases h
  case isTrue hshape =>
    obtain ⟨hlen, h0, h1, h2, h23, h24⟩ := hshape
    cases h
    refine ⟨by simp [hlen], eq_append_take_drop hlen ?_ ?_⟩
    · intro i hi
      simp only [List.length_cons, List.length_nil] at hi
      interval_cases i <;> simp [h0, h1, h2]
    · intro i hi
      simp only [List.length_cons, List.length_nil] at hi
      interval_cases i <;> simp [h23, h24]

theorem isToScriptID_eq_some {script hash : List UInt8} (h : isToScriptID script = some hash) :
    hash.length = 20 ∧ script = [opHash160, 20] ++ hash ++ [opEqual] := by
  unfold isToScriptID at h
  split at h
  case isFalse => cases h
  case isTrue hshape =>
    obtain ⟨hlen, h0, h1, h22⟩ := hshape
    cases h
    refine ⟨by simp [hlen], eq_append_take_drop hlen ?_ ?_⟩
    · intro i hi
      simp only [List.length_cons, List.length_nil] at hi
      interval_cases i <;> simp [h0, h1]
    · intro i hi
      simp only [List.length_cons, List.length_nil] at hi
      interval_cases i
      simp [h22]

/-- A key `IsToPubKey` finds is a compressed key, or an uncompressed one that is fully
valid, pushed before `OP_CHECKSIG`. -/
theorem isToPubKey_eq_some {ops : PubKeyOps} {script pubkey : List UInt8}
    (h : isToPubKey ops script = some pubkey) :
    (pubkey.length = 33 ∧ (pubkey[0]? = some 0x02 ∨ pubkey[0]? = some 0x03) ∧
        script = [33] ++ pubkey ++ [opChecksig]) ∨
      (pubkey.length = 65 ∧ pubkey[0]? = some 0x04 ∧ ops.isFullyValid pubkey = true ∧
        script = [65] ++ pubkey ++ [opChecksig]) := by
  unfold isToPubKey at h
  split at h
  case isTrue hshape =>
    obtain ⟨hlen, h0, h34, h1⟩ := hshape
    cases h
    refine .inl ⟨by simp [hlen], by simpa using h1, eq_append_take_drop hlen ?_ ?_⟩
    · intro i hi
      simp only [List.length_cons, List.length_nil] at hi
      interval_cases i
      simp [h0]
    · intro i hi
      simp only [List.length_cons, List.length_nil] at hi
      interval_cases i
      simp [h34]
  case isFalse =>
    split at h
    case isFalse => cases h
    case isTrue hshape =>
      obtain ⟨hlen, h0, h66, h1⟩ := hshape
      dsimp only at h
      split at h
      case isFalse => cases h
      case isTrue hvalid =>
        cases h
        refine .inr ⟨by simp [hlen], by simpa using h1, hvalid, eq_append_take_drop hlen ?_ ?_⟩
        · intro i hi
          simp only [List.length_cons, List.length_nil] at hi
          interval_cases i
          simp [h0]
        · intro i hi
          simp only [List.length_cons, List.length_nil] at hi
          interval_cases i
          simp [h66]

/-- The tag of an uncompressed key is `0x04` or `0x05`, and `DecompressScript` turns it
back into the key's compressed header `0x02` or `0x03`. -/
theorem uncompressedTag (b : UInt8) :
    ((0x04 ||| (b &&& 0x01)).toNat = 4 ∨ (0x04 ||| (b &&& 0x01)).toNat = 5) ∧
      ((0x04 ||| (b &&& 0x01)).toNat - 2).toUInt8 = 0x02 ||| (b &&& 0x01) := by
  have hbit : (b &&& 0x01).toNat = b.toNat % 2 := by
    rw [UInt8.toNat_and, show (0x01 : UInt8).toNat = 2 ^ 1 - 1 from rfl,
      Nat.and_two_pow_sub_one_eq_mod]
  have hcases : b &&& 0x01 = 0 ∨ b &&& 0x01 = 1 := by
    rcases Nat.mod_two_eq_zero_or_one b.toNat with h | h
    · exact .inl (UInt8.toNat_inj.mp (by rw [hbit, h]; rfl))
    · exact .inr (UInt8.toNat_inj.mp (by rw [hbit, h]; rfl))
  rcases hcases with h | h <;> rw [h] <;> decide

/-- **What `CompressScript` writes, `DecompressScript` reads.**  The compressed form is a
tag below six and as many bytes as `GetSpecialScriptSize` gives for it, and they
decompress to the script. -/
theorem compressScript_eq_some {ops : PubKeyOps} (hops : ops.DecompressInverts)
    {script compr : List UInt8} (h : compressScript ops script = some compr) :
    ∃ tag body, compr = tag :: body ∧ tag.toNat < 6 ∧
      body.length = getSpecialScriptSize tag.toNat ∧
      decompressScript ops tag.toNat body = some script := by
  unfold compressScript at h
  split at h
  case h_1 hash hkey =>
    -- pay to a key hash: tag 0 and the hash
    obtain ⟨hlen, rfl⟩ := isToKeyID_eq_some hkey
    cases h
    refine ⟨0, hash, rfl, by decide, by simp [hlen, getSpecialScriptSize], ?_⟩
    simp [decompressScript, List.take_of_length_le (le_of_eq hlen)]
  case h_2 =>
    split at h
    case h_1 hash hscript =>
      -- pay to a script hash: tag 1 and the hash
      obtain ⟨hlen, rfl⟩ := isToScriptID_eq_some hscript
      cases h
      refine ⟨1, hash, rfl, by decide, by simp [hlen, getSpecialScriptSize], ?_⟩
      simp [decompressScript, List.take_of_length_le (le_of_eq hlen)]
    case h_2 =>
      split at h
      case h_2 => cases h
      case h_1 pubkey hpub =>
        dsimp only at h
        obtain ⟨hlen, hhead, rfl⟩ | ⟨hlen, hhead, hvalid, rfl⟩ := isToPubKey_eq_some hpub
        · -- a compressed key: its header is the tag, x the body
          obtain ⟨tag, x, rfl⟩ := List.exists_cons_of_length_eq_add_one hlen
          have hx : x.length = 32 := by simpa using hlen
          rw [if_pos (by simpa using hhead)] at h
          cases h
          have htag : tag = 0x02 ∨ tag = 0x03 := by simpa using hhead
          refine ⟨tag, x.take 32, rfl, ?_, ?_, ?_⟩
          · rcases htag with rfl | rfl <;> decide
          · rcases htag with rfl | rfl <;> simp [getSpecialScriptSize, hx]
          · have hsmall : ¬ (tag.toNat = 0 ∨ tag.toNat = 1) ∧ (tag.toNat = 2 ∨ tag.toNat = 3) := by
              rcases htag with rfl | rfl <;> decide
            simp only [decompressScript, if_neg (show tag.toNat ≠ 0 by omega),
              if_neg (show tag.toNat ≠ 1 by omega), if_pos hsmall.2,
              List.take_of_length_le (le_of_eq hx), UInt8.ofNat_toNat, Nat.toUInt8_eq]
            rfl
        · -- an uncompressed key: the parity of y in the tag, x the body
          rw [if_neg (by rw [hhead]; decide), if_pos hhead] at h
          cases h
          obtain ⟨htag, hheader⟩ := uncompressedTag (pubkey.getD 64 0)
          have hbody : ((pubkey.drop 1).take 32).length = 32 := by simp [hlen]
          refine ⟨_, _, rfl, by omega, ?_, ?_⟩
          · rcases htag with h4 | h4 <;> rw [hbody, h4] <;> rfl
          · have hdec := hops pubkey hlen hhead hvalid
            rw [decompressScript, if_neg (by omega), if_neg (by omega), if_neg (by omega),
              if_pos (by omega)]
            dsimp only
            rw [hheader, List.take_take, Nat.min_self]
            cases hd : ops.decompress ((0x02 ||| (pubkey.getD 64 0 &&& 0x01)) ::
                (pubkey.drop 1).take 32) with
            | none => rw [hd] at hdec; cases hdec
            | some key =>
              rw [hd] at hdec
              simp only [Option.map_some, Option.some.injEq] at hdec
              dsimp only
              rw [hdec]

end Spec

/-! ## The formatters -/

/-- `ScriptCompression::nSpecialScripts`. -/
def nSpecialScripts : Nat := 6

namespace ScriptCompression

/-- `ScriptCompression::Ser`: the compressed form, else the length plus six as an
`unsigned int` `VARINT` and the bytes. -/
def ser (ops : PubKeyOps) (script : CScript) : List UInt8 :=
  match compressScript ops script with
  | some compr => compr
  | none => Ser.writeVarInt ((script.length + nSpecialScripts) % 2 ^ 32) ++ script

/-- `ScriptCompression::Unser`, into `script`.  A tag below six reads the special bytes
and decompresses them, leaving `script` as it was when that fails; an overly long script
is skipped and `OP_RETURN` appended. -/
def unser (ops : PubKeyOps) (script : CScript) : Reader CScript := do
  let nSize ← Unser.readVarInt .uint32
  if nSize < nSpecialScripts then
    let vch ← readList readByte (getSpecialScriptSize nSize)
    pure ((decompressScript ops nSize vch).getD script)
  else
    let nSize := nSize - nSpecialScripts
    if nSize > maxScriptSize then
      let _ ← readList readByte nSize
      pure (script ++ [Script.opReturn])
    else readList readByte nSize

/-- **`ScriptCompression` reads back every script it writes** that is no longer than
`MAX_SCRIPT_SIZE`, whatever script it reads into. -/
theorem unser_ser {ops : PubKeyOps} (hops : ops.DecompressInverts) {script : CScript}
    (hlen : script.length ≤ maxScriptSize) (script' : CScript) (rest : List UInt8) :
    unser ops script' (ser ops script ++ rest) = .ok (script, rest) := by
  have hmax : maxScriptSize = 10000 := rfl
  unfold ser
  split
  case h_1 compr hcompr =>
    -- a template: the tag is its own `VARINT`, then the special bytes
    obtain ⟨tag, body, rfl, htag, hbody, hdec⟩ := compressScript_eq_some hops hcompr
    have hvar : Unser.readVarInt .uint32 (tag :: (body ++ rest)) = .ok (tag.toNat, body ++ rest) := by
      have h := Unser.readsBack_readVarInt .uint32 tag.toNat (body ++ rest)
        (by rw [show UIntType.bits .uint32 = 32 from rfl]; omega)
      rwa [Ser.writeVarInt_of_lt (by omega), Nat.toUInt8_eq, UInt8.ofNat_toNat] at h
    rw [unser, List.cons_append, bind_of_ok hvar,
      if_pos (show tag.toNat < nSpecialScripts from htag), ← hbody,
      bind_of_ok (readList_readByte body rest), hdec]
    rfl
  case h_2 =>
    -- the raw form: the length plus six, then the bytes
    have hsize : (script.length + nSpecialScripts) % 2 ^ 32 = script.length + nSpecialScripts :=
      Nat.mod_eq_of_lt (by simp [nSpecialScripts]; omega)
    have hvar := Unser.readsBack_readVarInt .uint32 (script.length + nSpecialScripts)
      (script ++ rest) (by rw [show UIntType.bits .uint32 = 32 from rfl, nSpecialScripts]; omega)
    rw [hsize, List.append_assoc, unser, bind_of_ok hvar, if_neg (by omega),
      Nat.add_sub_cancel, if_neg (by omega)]
    exact readList_readByte script rest

end ScriptCompression

namespace AmountCompression

/-- `AmountCompression::Ser`: the amount as a `uint64_t`, compressed, as a `VARINT`. -/
def ser (val : CAmount) : List UInt8 := Ser.writeVarInt (compressAmount (val % 2 ^ 64).toNat)

/-- `AmountCompression::Unser`: a `uint64_t` `VARINT`, decompressed into the amount. -/
def unser : Reader CAmount := do
  let v ← Unser.readVarInt .uint64
  let n := decompressAmount v
  pure (if n < 2 ^ 63 then (n : Int) else (n : Int) - 2 ^ 64)

/-- Every amount in `MoneyRange` is read back. -/
theorem unser_ser {val : CAmount} (h0 : 0 ≤ val) (hmax : val ≤ maxMoney) (rest : List UInt8) :
    unser (ser val ++ rest) = .ok (val, rest) := by
  -- `CAmount` is `Int`: unfolded, the bounds are facts `omega` reads
  have hle : val ≤ 200000000000000 := hmax
  dsimp only [CAmount] at h0 hle
  have hval : (val % 2 ^ 64).toNat = val.toNat := by
    rw [Int.emod_eq_of_lt h0 (by omega)]
  have hvar := Unser.readsBack_readVarInt .uint64 (compressAmount val.toNat) rest
    (compressAmount_lt _)
  rw [ser, hval, unser, bind_of_ok hvar, pure_apply,
    decompressAmount_compressAmount (by omega), if_pos (by omega), Int.toNat_of_nonneg h0]

end AmountCompression

namespace TxOutCompression

/-- `TxOutCompression::Ser`: the amount, then the script. -/
def ser (ops : PubKeyOps) (o : CTxOut) : List UInt8 :=
  AmountCompression.ser o.nValue ++ ScriptCompression.ser ops o.scriptPubKey

/-- `TxOutCompression::Unser`, into `o`. -/
def unser (ops : PubKeyOps) (o : CTxOut) : Reader CTxOut := do
  let nValue ← AmountCompression.unser
  let scriptPubKey ← ScriptCompression.unser ops o.scriptPubKey
  pure ⟨nValue, scriptPubKey⟩

/-- The outputs `TxOutCompression` reads back: an amount in `MoneyRange` and a script of
at most `MAX_SCRIPT_SIZE` bytes. -/
def Fits (o : CTxOut) : Prop :=
  0 ≤ o.nValue ∧ o.nValue ≤ maxMoney ∧ o.scriptPubKey.length ≤ maxScriptSize

instance : DecidablePred Fits := fun _ => inferInstanceAs (Decidable (_ ∧ _ ∧ _))

theorem unser_ser {ops : PubKeyOps} (hops : ops.DecompressInverts) {o : CTxOut} (ho : Fits o)
    (o' : CTxOut) (rest : List UInt8) : unser ops o' (ser ops o ++ rest) = .ok (o, rest) := by
  obtain ⟨h0, hmax, hlen⟩ := ho
  rw [ser, List.append_assoc, unser, bind_of_ok (AmountCompression.unser_ser h0 hmax _),
    bind_of_ok (ScriptCompression.unser_ser hops hlen _ rest), pure_apply]

end TxOutCompression

/-- **The compressed output codec is invertible.**  `DecompressAmount` inverts
`CompressAmount` on every amount up to `MAX_MONEY`, and `TxOutCompression` reads back
every output with an amount in `MoneyRange` and a script of at most `MAX_SCRIPT_SIZE`
bytes, in a template form or in the raw one, when decompressing a key inverts
compressing it. -/
theorem txOutCompression_invertible (ops : PubKeyOps) (hops : ops.DecompressInverts) :
    (∀ n : Nat, n ≤ maxMoney.toNat → decompressAmount (compressAmount n) = n) ∧
      ∀ o : CTxOut, 0 ≤ o.nValue → o.nValue ≤ maxMoney → o.scriptPubKey.length ≤ maxScriptSize →
        ∀ (o' : CTxOut) (rest : List UInt8),
          TxOutCompression.unser ops o' (TxOutCompression.ser ops o ++ rest) = .ok (o, rest) := by
  refine ⟨fun n hn => decompressAmount_compressAmount ?_, ?_⟩
  · have hmoney : maxMoney.toNat = 200000000000000 := rfl
    omega
  · intro o h0 hmax hlen o' rest
    exact TxOutCompression.unser_ser hops ⟨h0, hmax, hlen⟩ o' rest

/-- The uncompressed generator point of `secp256k1`. -/
def generatorKey : List UInt8 :=
  [0x04, 0x79, 0xbe, 0x66, 0x7e, 0xf9, 0xdc, 0xbb, 0xac, 0x55, 0xa0, 0x62, 0x95, 0xce,
    0x87, 0x0b, 0x07, 0x02, 0x9b, 0xfc, 0xdb, 0x2d, 0xce, 0x28, 0xd9, 0x59, 0xf2, 0x81,
    0x5b, 0x16, 0xf8, 0x17, 0x98, 0x48, 0x3a, 0xda, 0x77, 0x26, 0xa3, 0xc4, 0x65, 0x5d,
    0xa4, 0xfb, 0xfc, 0x0e, 0x11, 0x08, 0xa8, 0xfd, 0x17, 0xb4, 0x48, 0xa6, 0x85, 0x54,
    0x19, 0x9c, 0x47, 0xd0, 0x8f, 0xfb, 0x10, 0xd4, 0xb8]

/-- `secp256k1` cut down to the generator: the one key it admits, and the one compressed
key it decompresses. -/
def generatorOps : PubKeyOps where
  isFullyValid key := key == generatorKey
  decompress c :=
    if c = 0x02 :: (generatorKey.drop 1).take 32 then some ⟨generatorKey.toArray, by decide⟩
    else none

theorem generatorOps_decompressInverts : generatorOps.DecompressInverts := by
  intro key _ _ hvalid
  have hkey : key = generatorKey := by simpa [generatorOps] using hvalid
  subst hkey
  decide

/-- An output paying to the generator's uncompressed key takes the `0x04`/`0x05` form
and is read back. -/
theorem txOutCompression_invertible_generator :
    generatorOps.DecompressInverts ∧
      TxOutCompression.unser generatorOps ⟨0, []⟩
          (TxOutCompression.ser generatorOps ⟨5000000, [65] ++ generatorKey ++ [Script.opChecksig]⟩ ++
            []) =
        .ok (⟨5000000, [65] ++ generatorKey ++ [Script.opChecksig]⟩, []) :=
  ⟨generatorOps_decompressInverts,
    (txOutCompression_invertible generatorOps generatorOps_decompressInverts).2
      ⟨5000000, [65] ++ generatorKey ++ [Script.opChecksig]⟩ (by decide) (by decide) (by decide)
      ⟨0, []⟩ []⟩

end Sumcoin
