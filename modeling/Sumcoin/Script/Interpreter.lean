import Sumcoin.Script.Script

/-!
# The interpreter's interface: verification flags, `VerifyScript` and signature
operations (`script/interpreter.h`, `interpreter.cpp`, `script.cpp`)

The script interpreter itself is a parameter of the model (`ScriptVerifier`): the
consensus code calls it on an input and reads only whether it succeeds and, on failure,
the text of its error.  What the consensus code computes from scripts without running
them is modelled here: the accurate count of signature operations, which reads the
pushed key count before a multisig, the count for a pay-to-script-hash redeem script,
and the count for a witness program.

## Main definitions

* `ScriptVerifier` and the `SCRIPT_VERIFY_*` flags.
* `Script.getSigOpCountAccurate`, `Script.getSigOpCountP2SH`, `Script.countWitnessSigOps`.
-/

namespace Sumcoin

/-- `VerifyScript(txTo.vin[nIn].scriptSig, scriptPubKey, &txTo.vin[nIn].scriptWitness,
flags, TransactionSignatureChecker(&txTo, nIn, amount), &serror)` on input `nIn` of `txTo`,
spending an output of value `amount` locked by `scriptPubKey`; the error is
`ScriptErrorString(serror)`. -/
def ScriptVerifier := CTransaction → Nat → CAmount → CScript → UInt32 → Except String Unit

/-- `SCRIPT_VERIFY_P2SH`. -/
def scriptVerifyP2SH : UInt32 := 1
/-- `SCRIPT_VERIFY_STRICTENC`. -/
def scriptVerifyStrictenc : UInt32 := (1 : UInt32) <<< 1
/-- `SCRIPT_VERIFY_DERSIG`. -/
def scriptVerifyDersig : UInt32 := (1 : UInt32) <<< 2
/-- `SCRIPT_VERIFY_LOW_S`. -/
def scriptVerifyLowS : UInt32 := (1 : UInt32) <<< 3
/-- `SCRIPT_VERIFY_NULLDUMMY`. -/
def scriptVerifyNulldummy : UInt32 := (1 : UInt32) <<< 4
/-- `SCRIPT_VERIFY_MINIMALDATA`. -/
def scriptVerifyMinimaldata : UInt32 := (1 : UInt32) <<< 6
/-- `SCRIPT_VERIFY_DISCOURAGE_UPGRADABLE_NOPS`. -/
def scriptVerifyDiscourageUpgradableNops : UInt32 := (1 : UInt32) <<< 7
/-- `SCRIPT_VERIFY_CLEANSTACK`. -/
def scriptVerifyCleanstack : UInt32 := (1 : UInt32) <<< 8
/-- `SCRIPT_VERIFY_CHECKLOCKTIMEVERIFY`. -/
def scriptVerifyChecklocktimeverify : UInt32 := (1 : UInt32) <<< 9
/-- `SCRIPT_VERIFY_CHECKSEQUENCEVERIFY`. -/
def scriptVerifyChecksequenceverify : UInt32 := (1 : UInt32) <<< 10
/-- `SCRIPT_VERIFY_WITNESS`. -/
def scriptVerifyWitness : UInt32 := (1 : UInt32) <<< 11
/-- `SCRIPT_VERIFY_DISCOURAGE_UPGRADABLE_WITNESS_PROGRAM`. -/
def scriptVerifyDiscourageUpgradableWitnessProgram : UInt32 := (1 : UInt32) <<< 12
/-- `SCRIPT_VERIFY_MINIMALIF`. -/
def scriptVerifyMinimalif : UInt32 := (1 : UInt32) <<< 13
/-- `SCRIPT_VERIFY_NULLFAIL`. -/
def scriptVerifyNullfail : UInt32 := (1 : UInt32) <<< 14
/-- `SCRIPT_VERIFY_WITNESS_PUBKEYTYPE`. -/
def scriptVerifyWitnessPubkeytype : UInt32 := (1 : UInt32) <<< 15
/-- `SCRIPT_VERIFY_CONST_SCRIPTCODE`. -/
def scriptVerifyConstScriptcode : UInt32 := (1 : UInt32) <<< 16

/-- `MANDATORY_SCRIPT_VERIFY_FLAGS`. -/
def mandatoryScriptVerifyFlags : UInt32 := scriptVerifyP2SH

/-- `STANDARD_SCRIPT_VERIFY_FLAGS`. -/
def standardScriptVerifyFlags : UInt32 :=
  mandatoryScriptVerifyFlags ||| scriptVerifyDersig ||| scriptVerifyStrictenc |||
    scriptVerifyMinimaldata ||| scriptVerifyNulldummy ||| scriptVerifyDiscourageUpgradableNops |||
    scriptVerifyCleanstack ||| scriptVerifyMinimalif ||| scriptVerifyNullfail |||
    scriptVerifyChecklocktimeverify ||| scriptVerifyChecksequenceverify ||| scriptVerifyLowS |||
    scriptVerifyWitness ||| scriptVerifyDiscourageUpgradableWitnessProgram |||
    scriptVerifyWitnessPubkeytype ||| scriptVerifyConstScriptcode

/-- `STANDARD_NOT_MANDATORY_VERIFY_FLAGS`. -/
def standardNotMandatoryVerifyFlags : UInt32 :=
  standardScriptVerifyFlags &&& ~~~mandatoryScriptVerifyFlags

namespace Script

/-- `OP_16`. -/
def op16 : UInt8 := 0x60
/-- `OP_HASH160`. -/
def opHash160 : UInt8 := 0xa9
/-- `OP_EQUAL`. -/
def opEqual : UInt8 := 0x87
/-- `OP_DUP`. -/
def opDup : UInt8 := 0x76
/-- `OP_EQUALVERIFY`. -/
def opEqualverify : UInt8 := 0x88
/-- `OP_INVALIDOPCODE`. -/
def opInvalidopcode : UInt8 := 0xff

/-- `DecodeOP_N(opcode)`. -/
def decodeOpN (opcode : UInt8) : Nat :=
  if opcode = op0 then 0 else opcode.toNat - (op1.toNat - 1)

/-- The loop of `GetSigOpCount(fAccurate)` after `lastOpcode`, with `fuel` for the
instructions left.  With `fAccurate` a multisig after `OP_1` … `OP_16` counts that many
keys. -/
def sigOpCountFrom (fAccurate : Bool) : (fuel : Nat) → (lastOpcode : UInt8) → List UInt8 → Nat
  | 0, _, _ => 0
  | fuel + 1, lastOpcode, pc =>
    match getOp pc with
    | none => 0
    | some (opcode, _, rest) =>
      (if opcode = opChecksig ∨ opcode = opChecksigverify then 1
       else if opcode = opCheckmultisig ∨ opcode = opCheckmultisigverify then
         if fAccurate ∧ op1 ≤ lastOpcode ∧ lastOpcode ≤ op16 then decodeOpN lastOpcode
         else maxPubkeysPerMultisig
       else 0) + sigOpCountFrom fAccurate fuel opcode rest

/-- `GetSigOpCount(true)`. -/
def getSigOpCountAccurate (script : CScript) : Nat :=
  sigOpCountFrom true script.length opInvalidopcode script

/-- `IsPayToScriptHash()`: `OP_HASH160 <20 bytes> OP_EQUAL`. -/
def isPayToScriptHash (script : CScript) : Bool :=
  script.length == 23 && script[0]? == some opHash160 && script[1]? == some 0x14 &&
    script[22]? == some opEqual

/-- The loop over a push-only script: the data of its last push, `none` when an
instruction does not parse or is not a push.  `IsPushOnly` is whether it succeeds. -/
def pushOnlyLast : (fuel : Nat) → List UInt8 → List UInt8 → Option (List UInt8)
  | _, [], vData => some vData
  | 0, _ :: _, _ => none
  | fuel + 1, pc, _ =>
    match getOp pc with
    | none => none
    | some (opcode, data, rest) => if opcode > op16 then none else pushOnlyLast fuel rest data

/-- `IsPushOnly()`. -/
def isPushOnly (script : CScript) : Bool := (pushOnlyLast script.length script []).isSome

/-- `GetSigOpCount(scriptSig)` on a `scriptPubKey`: for a script hash, the accurate
count of the redeem script that `scriptSig` pushes last. -/
def getSigOpCountP2SH (scriptPubKey scriptSig : CScript) : Nat :=
  if !isPayToScriptHash scriptPubKey then getSigOpCountAccurate scriptPubKey
  else
    match pushOnlyLast scriptSig.length scriptSig [] with
    | none => 0
    | some vData => getSigOpCountAccurate vData

/-- `IsWitnessProgram(version, program)`: a version opcode and one push of 2 to 40
bytes. -/
def isWitnessProgram (script : CScript) : Option (Nat × List UInt8) :=
  if script.length < 4 ∨ script.length > 42 then none
  else
    match script with
    | v :: len :: _ =>
      if v ≠ op0 ∧ (v < op1 ∨ v > op16) then none
      else if len.toNat + 2 = script.length then some (decodeOpN v, script.drop 2)
      else none
    | _ => none

/-- `WitnessSigOps(witversion, witprogram, witness)`: one for a version-0 key hash, the
accurate count of the witness script for a version-0 script hash. -/
def witnessSigOps (witversion : Nat) (witprogram : List UInt8) (witness : CScriptWitness) :
    Nat :=
  if witversion = 0 then
    if witprogram.length = 20 then 1
    else if witprogram.length = 32 ∧ witness.stack ≠ [] then
      getSigOpCountAccurate (witness.stack.getLast?.getD [])
    else 0
  else 0

/-- `CountWitnessSigOps(scriptSig, scriptPubKey, witness, flags)`: a witness program
directly or nested in a script hash; nothing without `SCRIPT_VERIFY_WITNESS`. -/
def countWitnessSigOps (scriptSig scriptPubKey : CScript) (witness : CScriptWitness)
    (flags : UInt32) : Nat :=
  if flags &&& scriptVerifyWitness = 0 then 0
  else
    match isWitnessProgram scriptPubKey with
    | some (witversion, witprogram) => witnessSigOps witversion witprogram witness
    | none =>
      if isPayToScriptHash scriptPubKey && isPushOnly scriptSig then
        match (pushOnlyLast scriptSig.length scriptSig []).bind isWitnessProgram with
        | some (witversion, witprogram) => witnessSigOps witversion witprogram witness
        | none => 0
      else 0

end Script

end Sumcoin
