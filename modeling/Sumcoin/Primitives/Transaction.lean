import Sumcoin.Arith.ArithUint256

/-!
# Transactions: `primitives/transaction.h` and `amount.h`

The transaction types keep the fields the consensus code reads, in the source's
order and widths: `COutPoint`, `CTxIn` with its witness, `CTxOut`, `CTransaction`.
The hash and witness hash a `CTransaction` caches are functions of its
serialization (`Primitives.Serialize`), so they are not fields here.  A script is
its bytes.

`GetValueOut` throws when an output or a running total leaves `MoneyRange`; the model
returns that as an error, with the message the source builds.

## Main definitions

* `CAmount`, `moneyRange` and the constants of `amount.h`.
* `COutPoint`, `CTxIn`, `CTxOut`, `CTransaction`.
* `CTransaction.isCoinBase`, `CTransaction.isCoinStake`, `CTransaction.hasWitness`,
  `CTransaction.getValueOut`.
-/

namespace Sumcoin

/-! ## Amounts -/

/-- `CAmount`: satoshis.  An `int64_t` in the source; the consensus code bounds every
sum of amounts with `MoneyRange` before it forms the next one, so the model keeps the
integer. -/
abbrev CAmount := Int

/-- `COIN`. -/
def coin : CAmount := 1000000

/-- `CENT`. -/
def cent : CAmount := 10000

/-- `MIN_TXOUT_AMOUNT`. -/
def minTxoutAmount : CAmount := 15

/-- `MAX_MINT_PROOF_OF_WORK`. -/
def maxMintProofOfWork : CAmount := 200000

/-- `MAX_MONEY`. -/
def maxMoney : CAmount := 200000000 * coin

/-- `MoneyRange(nValue)`. -/
def moneyRange (nValue : CAmount) : Bool := decide (0 ≤ nValue) && decide (nValue ≤ maxMoney)

theorem moneyRange_iff (nValue : CAmount) :
    moneyRange nValue = true ↔ 0 ≤ nValue ∧ nValue ≤ maxMoney := by
  simp [moneyRange]

/-! ## Blobs and outpoints -/

/-- `CScript`: the bytes of a script. -/
abbrev CScript := List UInt8

namespace Uint256

/-- `uint256()`: all bytes zero. -/
def zero : Uint256 := ⟨Vector.replicate 32 0⟩

/-- `IsNull()`: every byte is zero. -/
def isNull (a : Uint256) : Bool := a.data.toList.all (· == 0)

/-- A lowercase hex digit. -/
def hexDigit (n : Nat) : Char := if n < 10 then Char.ofNat (48 + n) else Char.ofNat (87 + n)

/-- `GetHex()`, which `ToString()` returns: the bytes from the last, two hex digits each. -/
def getHex (a : Uint256) : String :=
  String.ofList (a.data.toList.reverse.flatMap fun b =>
    [hexDigit (b.toNat / 16), hexDigit (b.toNat % 16)])

end Uint256

/-- `COutPoint`: the hash of a transaction and an index into its outputs. -/
structure COutPoint where
  hash : Uint256
  n : UInt32
  deriving DecidableEq, Repr

namespace COutPoint

/-- `NULL_INDEX`. -/
def nullIndex : UInt32 := 0xffffffff

/-- `COutPoint()`: the null outpoint. -/
def null : COutPoint := ⟨Uint256.zero, nullIndex⟩

/-- `IsNull()`. -/
def isNull (o : COutPoint) : Bool := o.hash.isNull && o.n == nullIndex

end COutPoint

/-! ## Inputs, outputs, transactions -/

/-- `CScriptWitness`: the witness stack of an input. -/
structure CScriptWitness where
  stack : List (List UInt8)
  deriving DecidableEq, Repr

/-- `CScriptWitness::IsNull()`. -/
def CScriptWitness.isNull (w : CScriptWitness) : Bool := w.stack.isEmpty

/-- `CTxIn`. -/
structure CTxIn where
  prevout : COutPoint
  scriptSig : CScript
  nSequence : UInt32
  scriptWitness : CScriptWitness
  deriving DecidableEq, Repr

/-- `CTxOut`. -/
structure CTxOut where
  nValue : CAmount
  scriptPubKey : CScript
  deriving DecidableEq, Repr

/-- `CTxOut::IsEmpty()`: value zero and an empty script. -/
def CTxOut.isEmpty (o : CTxOut) : Bool := o.nValue == 0 && o.scriptPubKey.isEmpty

/-- `CTransaction`: the serialized fields.  `nTime` is serialized only below
version 3 (`Primitives.Serialize`). -/
structure CTransaction where
  vin : List CTxIn
  vout : List CTxOut
  nVersion : Int32
  nTime : UInt32
  nLockTime : UInt32
  deriving DecidableEq, Repr

namespace CTransaction

/-- `IsCoinBase()`: one input, with the null outpoint, and at least one output. -/
def isCoinBase (tx : CTransaction) : Bool :=
  match tx.vin, tx.vout with
  | [txin], _ :: _ => txin.prevout.isNull
  | _, _ => false

/-- `IsCoinStake()`: a first input that is not null, at least two outputs, and an
empty first output. -/
def isCoinStake (tx : CTransaction) : Bool :=
  match tx.vin, tx.vout with
  | txin :: _, txout :: _ :: _ => !txin.prevout.isNull && txout.isEmpty
  | _, _ => false

/-- `HasWitness()`. -/
def hasWitness (tx : CTransaction) : Bool := tx.vin.any fun txin => !txin.scriptWitness.isNull

/-- One step of `GetValueOut`'s loop. -/
def valueOutStep (nValueOut : CAmount) (txOut : CTxOut) : Except String CAmount :=
  if !moneyRange txOut.nValue || !moneyRange (nValueOut + txOut.nValue) then
    throw "GetValueOut: value out of range"
  else pure (nValueOut + txOut.nValue)

/-- `GetValueOut()`; the final `assert(MoneyRange(nValueOut))` holds whenever the loop
finishes (`getValueOut_moneyRange`). -/
def getValueOut (tx : CTransaction) : Except String CAmount :=
  tx.vout.foldlM valueOutStep 0

/-- A loop of `valueOutStep` from an amount in range ends, when it ends, at that amount
plus the outputs' values, and in range. -/
theorem foldlM_valueOutStep {outs : List CTxOut} {init v : CAmount}
    (hinit : moneyRange init = true) (h : outs.foldlM valueOutStep init = .ok v) :
    v = init + (outs.map CTxOut.nValue).sum ∧ moneyRange v = true := by
  induction outs generalizing init with
  | nil =>
    simp only [List.foldlM_nil] at h
    cases h
    simp [hinit]
  | cons o os ih =>
    simp only [List.foldlM_cons] at h
    unfold valueOutStep at h
    split at h
    case isTrue => cases h
    case isFalse hrange =>
      have hsum : moneyRange (init + o.nValue) = true := by
        simp only [Bool.or_eq_true, Bool.not_eq_true', not_or, Bool.not_eq_false] at hrange
        exact hrange.2
      obtain ⟨hv, hm⟩ := ih hsum h
      refine ⟨?_, hm⟩
      rw [hv, List.map_cons, List.sum_cons, Int.add_assoc]

/-- The assert at the end of `GetValueOut` never fails. -/
theorem getValueOut_moneyRange {tx : CTransaction} {v : CAmount} (h : tx.getValueOut = .ok v) :
    moneyRange v = true :=
  (foldlM_valueOutStep (by decide) h).2

end CTransaction

end Sumcoin
