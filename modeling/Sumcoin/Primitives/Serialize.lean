import Sumcoin.Primitives.Block
import Sumcoin.Lib.Sha256

/-!
# Serialization: `serialize.h` and the primitives' `SerializationOp`s

Every consensus object is written as bytes: integers little-endian at their width,
vectors as a `WriteCompactSize` count and then their elements, blobs raw.  Two stream
parameters change what is written.  The stream *version* decides whether a
transaction carries its witness (`SERIALIZE_TRANSACTION_NO_WITNESS`); the stream
*type* decides whether a header carries `nFlags` (`SER_POSMARKER` without
`SER_GETHASH`).  `SerializeTransaction` writes `nTime` only for `nVersion < 3`.

The hashes the source caches or recomputes are `CHash256` (SHA-256 twice) of these
bytes.  The functions that hash take that function as a parameter `hash256`, so that
what is proved of them holds for any hash; `cHash256` is the one the node uses, and
statements about fixed blocks are made with it.

Note the argument order of this repository's `GetSerializeSize(t, nType, nVersion = 0)`:
the calls `GetSerializeSize(x, PROTOCOL_VERSION | SERIALIZE_TRANSACTION_NO_WITNESS)`
pass the flag as the *type*, so the version is `0` and the size counts the witness.

## Main definitions

* `Ser.le`, `Ser.compactSize`, `Ser.vector`, `Ser.bytes`.
* `Ser.transaction`, `Ser.header`, `Ser.block`, `getSerializeSizeTx`, `getSerializeSizeBlock`.
* `cHash256`, `CTransaction.getHash`, `CTransaction.getWitnessHash`, `CBlockHeader.getHash`.
-/

namespace Sumcoin

namespace Ser

/-- `ser_writedata8/16/32/64`: the `n` low bytes of `x`, least significant first. -/
def le : Nat → Nat → List UInt8
  | 0, _ => []
  | n + 1, x => (x % 256).toUInt8 :: le n (x / 256)

@[simp] theorem length_le (n x : Nat) : (le n x).length = n := by
  induction n generalizing x with
  | zero => rfl
  | succ n ih => simp [le, ih]

/-- `WriteCompactSize(os, nSize)`. -/
def compactSize (nSize : Nat) : List UInt8 :=
  if nSize < 253 then le 1 nSize
  else if nSize ≤ 0xffff then 253 :: le 2 nSize
  else if nSize ≤ 0xffffffff then 254 :: le 4 nSize
  else 255 :: le 8 nSize

/-- A `std::vector` of objects: the count, then each element. -/
def vector {α : Type} (f : α → List UInt8) (xs : List α) : List UInt8 :=
  compactSize xs.length ++ xs.flatMap f

/-- A vector of bytes (`std::vector<unsigned char>`, the `prevector` of a `CScript`). -/
def bytes (b : List UInt8) : List UInt8 := compactSize b.length ++ b

/-- `base_blob::Serialize`: the raw bytes. -/
def uint256 (a : Uint256) : List UInt8 := a.data.toList

/-- `COutPoint`: `hash`, `n`. -/
def outPoint (o : COutPoint) : List UInt8 := uint256 o.hash ++ le 4 o.n.toNat

/-- `CTxIn`: `prevout`, `scriptSig`, `nSequence`; the witness goes with the transaction. -/
def txIn (txin : CTxIn) : List UInt8 :=
  outPoint txin.prevout ++ bytes txin.scriptSig ++ le 4 txin.nSequence.toNat

/-- `CTxOut`: `nValue` as an `int64_t`, `scriptPubKey`. -/
def txOut (txout : CTxOut) : List UInt8 :=
  le 8 (txout.nValue % 2 ^ 64).toNat ++ bytes txout.scriptPubKey

/-- A witness stack, `std::vector<std::vector<unsigned char>>`. -/
def witness (w : CScriptWitness) : List UInt8 := vector bytes w.stack

/-- `SERIALIZE_TRANSACTION_NO_WITNESS`. -/
def serializeTransactionNoWitness : Nat := 0x40000000

/-- `fAllowWitness = !(s.GetVersion() & SERIALIZE_TRANSACTION_NO_WITNESS)`. -/
def allowWitness (nVersion : Nat) : Bool := nVersion &&& serializeTransactionNoWitness == 0

/-- `SerializeTransaction(tx, s)`. -/
def transaction (fAllowWitness : Bool) (tx : CTransaction) : List UInt8 :=
  let flags : UInt8 := if fAllowWitness && tx.hasWitness then 1 else 0
  le 4 tx.nVersion.toUInt32.toNat ++
    (if tx.nVersion < 3 then le 4 tx.nTime.toNat else []) ++
    (if flags ≠ 0 then vector txIn [] ++ [flags] else []) ++
    vector txIn tx.vin ++ vector txOut tx.vout ++
    (if flags &&& 1 ≠ 0 then tx.vin.flatMap fun txin => witness txin.scriptWitness else []) ++
    le 4 tx.nLockTime.toNat

/-- `SER_GETHASH`. -/
def serGetHash : Nat := 4

/-- `SER_POSMARKER`. -/
def serPosMarker : Nat := 2 ^ 18

/-- `CBlockHeader::SerializationOp`: `nFlags` only with `SER_POSMARKER` and without
`SER_GETHASH`. -/
def header (nType : Nat) (h : CBlockHeader) : List UInt8 :=
  le 4 h.nVersion.toUInt32.toNat ++ uint256 h.hashPrevBlock ++ uint256 h.hashMerkleRoot ++
    le 4 h.nTime.toNat ++ le 4 h.nBits.toNat ++ le 4 h.nNonce.toNat ++
    (if nType &&& serGetHash == 0 && nType &&& serPosMarker != 0 then le 4 h.nFlags.toNat
     else [])

/-- `CBlock::SerializationOp`: the header, `vtx`, `vchBlockSig`. -/
def block (nType nVersion : Nat) (b : CBlock) : List UInt8 :=
  header nType b.header ++ vector (transaction (allowWitness nVersion)) b.vtx ++
    bytes b.vchBlockSig

end Ser

/-- `CHash256`: SHA-256 of SHA-256, its 32 bytes read as a `uint256` in order. -/
def cHash256 (b : List UInt8) : Uint256 :=
  ⟨⟨(Sha256.sha256 (Sha256.sha256 b)).toArray, by simp [Sha256.length_sha256]⟩⟩

/-- `PROTOCOL_VERSION`. -/
def protocolVersion : Nat := 70016

/-- `GetSerializeSize(tx, nType, nVersion)`. -/
def getSerializeSizeTx (tx : CTransaction) (_nType nVersion : Nat) : Nat :=
  (Ser.transaction (Ser.allowWitness nVersion) tx).length

/-- `GetSerializeSize(block, nType, nVersion)`. -/
def getSerializeSizeBlock (b : CBlock) (nType nVersion : Nat) : Nat :=
  (Ser.block nType nVersion b).length

namespace CTransaction

/-- `GetHash()`: `SerializeHash(tx, SER_GETHASH, SERIALIZE_TRANSACTION_NO_WITNESS)`. -/
def getHash (hash256 : List UInt8 → Uint256) (tx : CTransaction) : Uint256 :=
  hash256 (Ser.transaction false tx)

/-- `GetWitnessHash()`: the hash of the serialization with the witness, when there is one. -/
def getWitnessHash (hash256 : List UInt8 → Uint256) (tx : CTransaction) : Uint256 :=
  if !tx.hasWitness then tx.getHash hash256 else hash256 (Ser.transaction true tx)

end CTransaction

/-- `CBlockHeader::GetHash()`: `SerializeHash(header)`, of type `SER_GETHASH`. -/
def CBlockHeader.getHash (hash256 : List UInt8 → Uint256) (h : CBlockHeader) : Uint256 :=
  hash256 (Ser.header Ser.serGetHash h)

namespace Ser

/-! ## What the bytes do not depend on -/

variable (fAllowWitness : Bool) (tx : CTransaction) (t : UInt32)

/-- From version 3 on, `nTime` is not written. -/
theorem transaction_setTime (h : ¬ tx.nVersion < 3) :
    transaction fAllowWitness { tx with nTime := t } = transaction fAllowWitness tx := by
  simp [transaction, h, CTransaction.hasWitness]

end Ser

end Sumcoin
