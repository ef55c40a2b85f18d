import Sumcoin.Primitives.Serialize

/-!
# Scripts: the parts of `script/script.h`, `script.cpp` and `standard.cpp` that
consensus checks read

`GetScriptOp` reads one instruction: an opcode and, for the push opcodes, the data it
pushes; it fails when the script ends inside the instruction.  `GetSigOpCount(false)`
walks the instructions with it and stops at the first failure, counting one for each
`OP_CHECKSIG`/`OP_CHECKSIGVERIFY` and `MAX_PUBKEYS_PER_MULTISIG` for each multisig.
`CScript() << n` is `push_int64`, and `MatchPayToPubkey` is the pattern by which
`Solver` answers `TX_PUBKEY`.

## Main definitions

* `Script.getOp`, `Script.getSigOpCount`.
* `Script.pushInt64`, `Script.matchPayToPubkey`.
-/

namespace Sumcoin

namespace Script

/-! ## Opcodes -/

/-- `OP_0`. -/
def op0 : UInt8 := 0x00
/-- `OP_PUSHDATA1`. -/
def opPushdata1 : UInt8 := 0x4c
/-- `OP_PUSHDATA2`. -/
def opPushdata2 : UInt8 := 0x4d
/-- `OP_PUSHDATA4`. -/
def opPushdata4 : UInt8 := 0x4e
/-- `OP_1`. -/
def op1 : UInt8 := 0x51
/-- `OP_CHECKSIG`. -/
def opChecksig : UInt8 := 0xac
/-- `OP_CHECKSIGVERIFY`. -/
def opChecksigverify : UInt8 := 0xad
/-- `OP_CHECKMULTISIG`. -/
def opCheckmultisig : UInt8 := 0xae
/-- `OP_CHECKMULTISIGVERIFY`. -/
def opCheckmultisigverify : UInt8 := 0xaf

/-- `MAX_PUBKEYS_PER_MULTISIG`. -/
def maxPubkeysPerMultisig : Nat := 20

/-! ## Reading instructions -/

/-- `ReadLE16`, `ReadLE32`: the little-endian number in the first `n` bytes. -/
def readLE : List UInt8 → Nat → Nat
  | _, 0 => 0
  | [], _ + 1 => 0
  | b :: bs, n + 1 => b.toNat + 256 * readLE bs n

/-- The size of an immediate operand and the bytes after it: the opcode itself below
`OP_PUSHDATA1`, else the one, two or four bytes that follow. -/
def pushSize (opcode : UInt8) (pc : List UInt8) : Option (Nat × List UInt8) :=
  if opcode < opPushdata1 then some (opcode.toNat, pc)
  else if opcode = opPushdata1 then
    if pc.length < 1 then none else some (readLE pc 1, pc.drop 1)
  else if opcode = opPushdata2 then
    if pc.length < 2 then none else some (readLE pc 2, pc.drop 2)
  else if pc.length < 4 then none else some (readLE pc 4, pc.drop 4)

/-- `GetScriptOp(pc, end, opcodeRet, pvchRet)`: the opcode, the data it pushes and
the rest of the script; `none` when the script ends inside the instruction. -/
def getOp : List UInt8 → Option (UInt8 × List UInt8 × List UInt8)
  | [] => none
  | opcode :: pc =>
    if opcode ≤ opPushdata4 then
      match pushSize opcode pc with
      | none => none
      | some (nSize, pc) =>
        if pc.length < nSize then none else some (opcode, pc.take nSize, pc.drop nSize)
    else some (opcode, [], pc)

/-- The loop of `GetSigOpCount(false)`, with `fuel` for the instructions left. -/
def sigOpCountLoop : (fuel : Nat) → (pc : List UInt8) → Nat
  | 0, _ => 0
  | fuel + 1, pc =>
    match getOp pc with
    | none => 0
    | some (opcode, _, rest) =>
      (if opcode = opChecksig ∨ opcode = opChecksigverify then 1
       else if opcode = opCheckmultisig ∨ opcode = opCheckmultisigverify then
         maxPubkeysPerMultisig
       else 0) + sigOpCountLoop fuel rest

/-- `CScript::GetSigOpCount(false)`: without `fAccurate` the last opcode is never read,
so a multisig always counts `MAX_PUBKEYS_PER_MULTISIG`. -/
def getSigOpCount (script : CScript) : Nat := sigOpCountLoop script.length script

/-! ## Writing pushes -/

/-- `while (absvalue) { result.push_back(absvalue & 0xff); absvalue >>= 8; }`, with
`fuel` for the iterations: an `int64_t` needs at most eight. -/
def absBytes : (fuel : Nat) → (absvalue : Nat) → List UInt8
  | 0, _ => []
  | fuel + 1, absvalue =>
    if absvalue = 0 then [] else (absvalue % 256).toUInt8 :: absBytes fuel (absvalue / 256)

/-- `CScriptNum::serialize(value)`: the minimal little-endian sign-magnitude bytes. -/
def scriptNumSerialize (value : Int) : List UInt8 :=
  if value = 0 then []
  else
    let result := absBytes 8 value.natAbs
    let last := result.getLast?.getD 0
    if last &&& 0x80 ≠ 0 then result ++ [if value < 0 then 0x80 else 0]
    else if value < 0 then result.dropLast ++ [last ||| 0x80]
    else result

/-- `CScript::operator<<(const std::vector<unsigned char>&)`: a push of `b`. -/
def pushData (b : List UInt8) : CScript :=
  if b.length < opPushdata1.toNat then b.length.toUInt8 :: b
  else if b.length ≤ 0xff then opPushdata1 :: b.length.toUInt8 :: b
  else if b.length ≤ 0xffff then opPushdata2 :: Ser.le 2 b.length ++ b
  else opPushdata4 :: Ser.le 4 b.length ++ b

/-- `CScript() << n`, that is `push_int64(n)`. -/
def pushInt64 (n : Int) : CScript :=
  if n = -1 ∨ (1 ≤ n ∧ n ≤ 16) then [(n + (op1.toNat - 1 : Int)).toNat.toUInt8]
  else if n = 0 then [op0]
  else pushData (scriptNumSerialize n)

/-! ## The pay-to-pubkey pattern -/

/-- `CPubKey::GetLen(chHeader)`. -/
def pubKeyGetLen (chHeader : UInt8) : Nat :=
  if chHeader = 2 ∨ chHeader = 3 then 33
  else if chHeader = 4 ∨ chHeader = 6 ∨ chHeader = 7 then 65
  else 0

/-- `CPubKey::ValidSize(vch)`. -/
def pubKeyValidSize (vch : List UInt8) : Bool :=
  match vch with
  | [] => false
  | b :: _ => pubKeyGetLen b == vch.length

/-- `MatchPayToPubkey(script, pubkey)`: `<65 or 33 bytes> OP_CHECKSIG` with a key of
valid size.  No other branch of `Solver` answers `TX_PUBKEY`: scripts of these two
shapes are neither script hashes, witness programs nor `OP_RETURN` outputs. -/
def matchPayToPubkey (script : CScript) : Option (List UInt8) :=
  if script.length = 65 + 2 ∧ script.head? = some 65 ∧ script.getLast? = some opChecksig then
    let pubkey := (script.drop 1).take 65
    if pubKeyValidSize pubkey then some pubkey else none
  else if script.length = 33 + 2 ∧ script.head? = some 33 ∧
      script.getLast? = some opChecksig then
    let pubkey := (script.drop 1).take 33
    if pubKeyValidSize pubkey then some pubkey else none
  else none

end Script

end Sumcoin
