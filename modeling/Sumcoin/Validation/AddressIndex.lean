import Sumcoin.Validation.DisconnectBlock
import Sumcoin.Script.Interpreter
import Sumcoin.Consensus.StakeModifier

/-!
# The address indexes: `addressindex.h`, `txdb.cpp`, and their writes in `ConnectBlock` and `DisconnectBlock`

With `-addressindex` the node keeps two tables beside the coins.  The address index
records every credit and debit of an address, keyed by the address, the block height, the
transaction's place in the block and the output or input index.  The unspent index holds,
for each address, its unspent outputs with their value, script and height.

`ConnectBlock` fills one vector for each table while it runs the transactions of a block:
each input that spends an output of a known script template is recorded as a debit and
removed from the unspent index, and each output of a known template is recorded as a
credit and added.  `DisconnectBlock` fills the opposite vectors, last transaction first:
the credits are erased and the outputs removed, then the debits are erased and the spent
outputs put back into the unspent index.  Both then write their vectors as one batch
(`WriteAddressIndex` or `EraseAddressIndex`, and `UpdateAddressUnspentIndex`, where a null
value erases its key).

The five templates are told apart four times, by hand: in the input loop and the output
loop of each function.  `ConnectBlock`'s output loop tests them in another order, which
changes nothing since a script matches at most one (`connectOutputKind_eq`).  The types
agree everywhere except in `DisconnectBlock`'s input loop, which puts a spent
pay-to-witness-script-hash output back into the unspent index under type 1 where
`ConnectBlock` removed it under type 3 (`AddressKind.restoreType`).  So a block
that spends such an output is not taken back: the entry is lost
(`connectBlockIndex_disconnect_unspent_typeThree`), and a type-1 entry appears in its place.
The entries put back also carry the height of the block taken back, not that of the
output.

## Main definitions

* `CAddressIndexKey`, `CAddressUnspentKey`, `CAddressUnspentValue`.
* `writeAddressIndex`, `eraseAddressIndex`, `updateAddressUnspentIndex`.
* `AddressKind`, `addressKind`, `connectOutputKind`.
* `connectTxEntries`, `connectBlockIndex`, `disconnectTxEntries`, `disconnectBlockIndex`.
-/

namespace Sumcoin

/-! ## The tables -/

/-- `CAddressIndexKey`.  The table is keyed by its serialization, which is injective on
the keys written: types below 256 and indices below `2 ^ 32`. -/
structure CAddressIndexKey where
  type : Nat
  hashBytes : Uint256
  blockHeight : Nat
  txindex : Nat
  txhash : Uint256
  index : Nat
  spending : Bool
  deriving DecidableEq, Repr

/-- `CAddressUnspentKey`. -/
structure CAddressUnspentKey where
  type : Nat
  hashBytes : Uint256
  txhash : Uint256
  index : Nat
  deriving DecidableEq, Repr

/-- `CAddressUnspentValue`. -/
structure CAddressUnspentValue where
  satoshis : CAmount
  script : CScript
  blockHeight : Nat
  deriving DecidableEq, Repr

namespace CAddressUnspentValue

/-- `CAddressUnspentValue()`: `SetNull()`. -/
def null : CAddressUnspentValue := ⟨-1, [], 0⟩

/-- `IsNull()`. -/
def isNull (v : CAddressUnspentValue) : Bool := v.satoshis == -1

end CAddressUnspentValue

/-- The address index table of the block-tree database. -/
abbrev AddressIndex := CAddressIndexKey → Option CAmount

/-- The unspent index table of the block-tree database. -/
abbrev AddressUnspentIndex := CAddressUnspentKey → Option CAddressUnspentValue

/-- `WriteAddressIndex(vect)`: one batch, in order. -/
def writeAddressIndex (db : AddressIndex) (vect : List (CAddressIndexKey × CAmount)) :
    AddressIndex :=
  Journal.applyWrites db (vect.map fun e => (e.1, some e.2))

/-- `EraseAddressIndex(vect)`. -/
def eraseAddressIndex (db : AddressIndex) (vect : List (CAddressIndexKey × CAmount)) :
    AddressIndex :=
  Journal.applyWrites db (vect.map fun e => (e.1, none))

/-- `UpdateAddressUnspentIndex(vect)`: a null value erases its key, any other is written. -/
def updateAddressUnspentIndex (db : AddressUnspentIndex)
    (vect : List (CAddressUnspentKey × CAddressUnspentValue)) : AddressUnspentIndex :=
  Journal.applyWrites db (vect.map fun e => (e.1, if e.2.isNull then none else some e.2))

/-- The two vectors a block fills: `addressIndex` and `addressUnspentIndex`. -/
structure AddressIndexBatch where
  addressIndex : List (CAddressIndexKey × CAmount)
  addressUnspentIndex : List (CAddressUnspentKey × CAddressUnspentValue)

namespace AddressIndexBatch

/-- Both vectors empty. -/
def empty : AddressIndexBatch := ⟨[], []⟩

/-- Both vectors extended. -/
def append (a b : AddressIndexBatch) : AddressIndexBatch :=
  ⟨a.addressIndex ++ b.addressIndex, a.addressUnspentIndex ++ b.addressUnspentIndex⟩

instance : Append AddressIndexBatch := ⟨append⟩

/-- The entries of several loops, one after the other. -/
def join (bs : List AddressIndexBatch) : AddressIndexBatch :=
  ⟨bs.flatMap (·.addressIndex), bs.flatMap (·.addressUnspentIndex)⟩

@[simp] theorem addressUnspentIndex_append (a b : AddressIndexBatch) :
    (a ++ b).addressUnspentIndex = a.addressUnspentIndex ++ b.addressUnspentIndex := rfl

@[simp] theorem addressIndex_append (a b : AddressIndexBatch) :
    (a ++ b).addressIndex = a.addressIndex ++ b.addressIndex := rfl

@[simp] theorem addressUnspentIndex_join (bs : List AddressIndexBatch) :
    (join bs).addressUnspentIndex = bs.flatMap (·.addressUnspentIndex) := rfl

@[simp] theorem addressIndex_join (bs : List AddressIndexBatch) :
    (join bs).addressIndex = bs.flatMap (·.addressIndex) := rfl

@[simp] theorem addressUnspentIndex_empty : empty.addressUnspentIndex = [] := rfl

@[simp] theorem addressIndex_empty : empty.addressIndex = [] := rfl

end AddressIndexBatch

/-! ## Script templates -/

namespace Script

/-- `IsPayToPublicKeyHash()`: `OP_DUP OP_HASH160 <20 bytes> OP_EQUALVERIFY OP_CHECKSIG`. -/
def isPayToPublicKeyHash (script : CScript) : Bool :=
  script.length == 25 && script[0]? == some opDup && script[1]? == some opHash160 &&
    script[2]? == some 0x14 && script[23]? == some opEqualverify &&
    script[24]? == some opChecksig

/-- `IsPayToPubkey()`: a push of a 33-byte compressed or 65-byte uncompressed key and
`OP_CHECKSIG`. -/
def isPayToPubkey (script : CScript) : Bool :=
  (script.length == 35 && script[0]? == some 33 && script[34]? == some opChecksig &&
      (script[1]? == some 0x02 || script[1]? == some 0x03)) ||
    (script.length == 67 && script[0]? == some 65 && script[66]? == some opChecksig &&
      script[1]? == some 0x04)

/-- `IsPayToWitnessPubkeyHash()`: `OP_0 <20 bytes>`. -/
def isPayToWitnessPubkeyHash (script : CScript) : Bool :=
  script.length == 22 && script[0]? == some op0 && script[1]? == some 0x14

/-- `IsPayToWitnessScriptHash()`: `OP_0 <32 bytes>`. -/
def isPayToWitnessScriptHash (script : CScript) : Bool :=
  script.length == 34 && script[0]? == some op0 && script[1]? == some 0x20

theorem length_of_isPayToScriptHash {script : CScript} (h : isPayToScriptHash script = true) :
    script.length = 23 := by
  simp only [isPayToScriptHash, Bool.and_eq_true, beq_iff_eq] at h
  exact h.1.1.1

theorem length_of_isPayToPublicKeyHash {script : CScript}
    (h : isPayToPublicKeyHash script = true) : script.length = 25 := by
  simp only [isPayToPublicKeyHash, Bool.and_eq_true, beq_iff_eq] at h
  exact h.1.1.1.1.1

theorem length_of_isPayToPubkey {script : CScript} (h : isPayToPubkey script = true) :
    script.length = 35 ∨ script.length = 67 := by
  simp only [isPayToPubkey, Bool.or_eq_true, Bool.and_eq_true, beq_iff_eq] at h
  rcases h with h | h
  · exact .inl h.1.1.1
  · exact .inr h.1.1.1

theorem length_of_isPayToWitnessPubkeyHash {script : CScript}
    (h : isPayToWitnessPubkeyHash script = true) : script.length = 22 := by
  simp only [isPayToWitnessPubkeyHash, Bool.and_eq_true, beq_iff_eq] at h
  exact h.1.1

theorem length_of_isPayToWitnessScriptHash {script : CScript}
    (h : isPayToWitnessScriptHash script = true) : script.length = 34 := by
  simp only [isPayToWitnessScriptHash, Bool.and_eq_true, beq_iff_eq] at h
  exact h.1.1

end Script

/-- `uint256(addressBytes)` for `std::vector<unsigned char> addressBytes(32)` after
`bytes` are copied to its start. -/
def Uint256.ofPrefix (bytes : List UInt8) : Uint256 := ⟨Vector.ofFn fun i => bytes.getD i.val 0⟩

/-- The templates the indexes know. -/
inductive AddressKind where
  | payToScriptHash
  | payToPublicKeyHash
  | payToPubkey
  | payToWitnessPubkeyHash
  | payToWitnessScriptHash
  deriving DecidableEq, Repr

namespace AddressKind

/-- The address type each branch writes, but for the unspent key of `DisconnectBlock`'s
input loop. -/
def addressType : AddressKind → Nat
  | payToScriptHash => 2
  | payToPublicKeyHash => 1
  | payToPubkey => 1
  | payToWitnessPubkeyHash => 4
  | payToWitnessScriptHash => 3

/-- The type under which `DisconnectBlock`'s input loop puts a spent output back into the
unspent index: the pay-to-witness-script-hash branch writes `CAddressUnspentKey(1, ...)`. -/
def restoreType : AddressKind → Nat
  | payToScriptHash => 2
  | payToPublicKeyHash => 1
  | payToPubkey => 1
  | payToWitnessPubkeyHash => 4
  | payToWitnessScriptHash => 1

/-- The address hash every branch of a template computes: the bytes it copies from the
script, or `Hash160` of the key for pay-to-pubkey. -/
def addressHash (hash160 : List UInt8 → List UInt8) (script : CScript) : AddressKind → Uint256
  | payToScriptHash => Uint256.ofPrefix ((script.drop 2).take 20)
  | payToPublicKeyHash => Uint256.ofPrefix ((script.drop 3).take 20)
  | payToPubkey => Uint256.ofPrefix (hash160 (script.drop 1).dropLast)
  | payToWitnessPubkeyHash => Uint256.ofPrefix (script.drop 2)
  | payToWitnessScriptHash => Uint256.ofPrefix (script.drop 2)

/-- Only the witness-script-hash template is put back under another type. -/
theorem restoreType_eq {kind : AddressKind} (h : kind ≠ payToWitnessScriptHash) :
    kind.restoreType = kind.addressType := by
  cases kind <;> simp_all [restoreType, addressType]

/-- Nothing is put back under type 3. -/
theorem restoreType_ne_three (kind : AddressKind) : kind.restoreType ≠ 3 := by
  cases kind <;> decide

end AddressKind

open Script in
/-- The tests of both input loops and of `DisconnectBlock`'s output loop, in their order. -/
def addressKind (script : CScript) : Option AddressKind :=
  if isPayToScriptHash script then some .payToScriptHash
  else if isPayToPublicKeyHash script then some .payToPublicKeyHash
  else if isPayToPubkey script then some .payToPubkey
  else if isPayToWitnessPubkeyHash script then some .payToWitnessPubkeyHash
  else if isPayToWitnessScriptHash script then some .payToWitnessScriptHash
  else none

open Script in
/-- The tests of `ConnectBlock`'s output loop, in its order: pay-to-pubkey and witness
pubkey hash before pubkey hash. -/
def connectOutputKind (script : CScript) : Option AddressKind :=
  if isPayToScriptHash script then some .payToScriptHash
  else if isPayToPubkey script then some .payToPubkey
  else if isPayToWitnessPubkeyHash script then some .payToWitnessPubkeyHash
  else if isPayToPublicKeyHash script then some .payToPublicKeyHash
  else if isPayToWitnessScriptHash script then some .payToWitnessScriptHash
  else none

open Script in
/-- The two orders classify alike: a pubkey-hash script, 25 bytes long, is neither of the
templates tested before it in `ConnectBlock`'s output loop. -/
theorem connectOutputKind_eq (script : CScript) : connectOutputKind script = addressKind script := by
  unfold connectOutputKind addressKind
  by_cases hsh : isPayToScriptHash script
  · simp [hsh]
  · by_cases hpkh : isPayToPublicKeyHash script
    · have hlen := length_of_isPayToPublicKeyHash hpkh
      have hpk : isPayToPubkey script = false := by
        cases h : isPayToPubkey script
        · rfl
        · have := length_of_isPayToPubkey h
          omega
      have hwpkh : isPayToWitnessPubkeyHash script = false := by
        cases h : isPayToWitnessPubkeyHash script
        · rfl
        · have := length_of_isPayToWitnessPubkeyHash h
          omega
      simp [hsh, hpkh, hpk, hwpkh]
    · simp [hsh, hpkh]

/-! ## The entries of a block -/

section

variable (hash256 : List UInt8 → Uint256) (hash160 : List UInt8 → List UInt8)

/-- Input `j` of transaction `i` in `ConnectBlock`'s index loop, spending `prevout`: a
debit, and the removal of the output from the unspent index. -/
def connectInputEntry (nHeight i : Nat) (txhash : Uint256) (input : CTxIn) (j : Nat)
    (prevout : CTxOut) : AddressIndexBatch :=
  match addressKind prevout.scriptPubKey with
  | none => .empty
  | some kind =>
    let addressHash := kind.addressHash hash160 prevout.scriptPubKey
    ⟨[(⟨kind.addressType, addressHash, nHeight, i, txhash, j, true⟩, prevout.nValue * -1)],
      [(⟨kind.addressType, addressHash, input.prevout.hash, input.prevout.n.toNat⟩, .null)]⟩

/-- Output `k` of transaction `i` in `ConnectBlock`'s output loop: a credit, and the
output in the unspent index. -/
def connectOutputEntry (nHeight i : Nat) (txhash : Uint256) (out : CTxOut) (k : Nat) :
    AddressIndexBatch :=
  match connectOutputKind out.scriptPubKey with
  | none => .empty
  | some kind =>
    let addressHash := kind.addressHash hash160 out.scriptPubKey
    ⟨[(⟨kind.addressType, addressHash, nHeight, i, txhash, k, false⟩, out.nValue)],
      [(⟨kind.addressType, addressHash, txhash, k⟩, ⟨out.nValue, out.scriptPubKey, nHeight⟩)]⟩

/-- The entries of transaction `i` in `ConnectBlock`, with `prevouts` the outputs its inputs
spend: the inputs first, unless it is a coinbase, then the outputs. -/
def connectTxEntries (nHeight : Nat) (tx : CTransaction) (i : Nat) (prevouts : List CTxOut) :
    AddressIndexBatch :=
  let txhash := tx.getHash hash256
  (if tx.isCoinBase then .empty
    else .join ((tx.vin.zipIdx.zip prevouts).map fun ((input, j), prevout) =>
      connectInputEntry hash160 nHeight i txhash input j prevout)) ++
  .join (tx.vout.zipIdx.map fun (out, k) => connectOutputEntry hash160 nHeight i txhash out k)

/-- `ConnectBlock`'s transaction loop with `fAddressIndex`: the inputs' outputs are read
from the view (`view.GetOutputFor`) before `UpdateCoins` spends them. -/
def connectBlockIndex (view : CCoinsViewCache) (vtx : List CTransaction) (nHeight : Nat) :
    Except String (CCoinsViewCache × AddressIndexBatch) :=
  vtx.zipIdx.foldlM (fun (view, batch) (tx, i) => do
    let batch := batch ++ connectTxEntries hash256 hash160 nHeight tx i
      (tx.vin.map fun input => (view.accessCoin input.prevout).out)
    let (view, _) ← updateCoins hash256 view tx nHeight
    pure (view, batch)) (view, .empty)

/-- Output `k` of transaction `i` in `DisconnectBlock`'s output loop: the credit to erase,
and the removal from the unspent index. -/
def disconnectOutputEntry (nHeight i : Nat) (txhash : Uint256) (out : CTxOut) (k : Nat) :
    AddressIndexBatch :=
  match addressKind out.scriptPubKey with
  | none => .empty
  | some kind =>
    let addressHash := kind.addressHash hash160 out.scriptPubKey
    ⟨[(⟨kind.addressType, addressHash, nHeight, i, txhash, k, false⟩, out.nValue)],
      [(⟨kind.addressType, addressHash, txhash, k⟩, .null)]⟩

/-- Input `j` of transaction `i` in `DisconnectBlock`'s input loop, after `ApplyTxInUndo`
put back `prevout`: the debit to erase, and the output back in the unspent index, at the
height of the block taken back and under `restoreType`. -/
def disconnectInputEntry (nHeight i : Nat) (txhash : Uint256) (input : CTxIn) (j : Nat)
    (prevout : CTxOut) : AddressIndexBatch :=
  match addressKind prevout.scriptPubKey with
  | none => .empty
  | some kind =>
    let addressHash := kind.addressHash hash160 prevout.scriptPubKey
    ⟨[(⟨kind.addressType, addressHash, nHeight, i, txhash, j, true⟩, prevout.nValue * -1)],
      [(⟨kind.restoreType, addressHash, input.prevout.hash, input.prevout.n.toNat⟩,
        ⟨prevout.nValue, prevout.scriptPubKey, nHeight⟩)]⟩

/-- The entries of transaction `i` in `DisconnectBlock`: the outputs, last first, then,
with an undo record, the inputs, last first.  `view.GetOutputFor(tx.vin[j])` reads the
coin `ApplyTxInUndo` has just put back, whose output is the record's
(`applyTxInUndo_accessCoin`). -/
def disconnectTxEntries (nHeight : Nat) (tx : CTransaction) (i : Nat)
    (txundo : Option (List Coin)) : AddressIndexBatch :=
  let txhash := tx.getHash hash256
  .join (tx.vout.zipIdx.reverse.map fun (out, k) =>
    disconnectOutputEntry hash160 nHeight i txhash out k) ++
  match txundo with
  | none => .empty
  | some txundo => .join ((tx.vin.zipIdx.zip txundo).reverse.map fun ((input, j), undo) =>
      disconnectInputEntry hash160 nHeight i txhash input j undo.out)

/-- `DisconnectBlock`'s loop with `fAddressIndex`, last transaction first, each with its undo
record (`none` for the coinbase). -/
def disconnectBlockIndex (block : CBlock) (blockUndo : List (List Coin)) (nHeight : Nat) :
    AddressIndexBatch :=
  .join ((block.vtx.zipIdx.zip (none :: blockUndo.map some)).reverse.map
    fun ((tx, i), txundo) => disconnectTxEntries hash256 hash160 nHeight tx i txundo)

/-! ## What the unspent vectors hold -/

theorem exists_mem_zip_of_mem {α β : Type _} {l₁ : List α} {l₂ : List β} {a : α}
    (h : l₁.length ≤ l₂.length) (ha : a ∈ l₁) : ∃ b, (a, b) ∈ l₁.zip l₂ := by
  obtain ⟨n, hn, rfl⟩ := List.getElem_of_mem ha
  have hn' : n < (l₁.zip l₂).length := by
    rw [List.length_zip]
    omega
  exact ⟨l₂[n], by simpa using List.getElem_mem hn'⟩

/-- `ConnectBlock` writes a value into the unspent index only for an output of the
transaction, under its own txid; what it writes for an input is null. -/
theorem mem_connectTxEntries_unspent {nHeight : Nat} {tx : CTransaction} {i : Nat}
    {prevouts : List CTxOut} {w : CAddressUnspentKey × CAddressUnspentValue}
    (hw : w ∈ (connectTxEntries hash256 hash160 nHeight tx i prevouts).addressUnspentIndex) :
    w.2 = .null ∨ ∃ e ∈ tx.vout.zipIdx, ∃ kind, addressKind e.1.scriptPubKey = some kind ∧
      w.1 = ⟨kind.addressType, kind.addressHash hash160 e.1.scriptPubKey, tx.getHash hash256, e.2⟩ := by
  simp only [connectTxEntries, AddressIndexBatch.addressUnspentIndex_append, List.mem_append] at hw
  rcases hw with hin | hout
  · left
    split at hin
    · simp at hin
    · simp only [AddressIndexBatch.addressUnspentIndex_join, List.mem_flatMap, List.mem_map] at hin
      obtain ⟨b, ⟨⟨⟨input, j⟩, prevout⟩, -, rfl⟩, hb⟩ := hin
      unfold connectInputEntry at hb
      split at hb
      · simp at hb
      · rw [List.mem_singleton.mp hb]
  · right
    simp only [AddressIndexBatch.addressUnspentIndex_join, List.mem_flatMap, List.mem_map] at hout
    obtain ⟨b, ⟨⟨out, k⟩, he, rfl⟩, hb⟩ := hout
    unfold connectOutputEntry at hb
    split at hb
    · simp at hb
    · rename_i kind hkind
      rw [List.mem_singleton.mp hb]
      exact ⟨(out, k), he, kind, connectOutputKind_eq out.scriptPubKey ▸ hkind, rfl⟩

/-- Over the block: every value `ConnectBlock` writes into the unspent index is one of the
block's outputs, under its transaction's txid. -/
theorem connectBlockIndex_unspent_mem {view view' : CCoinsViewCache} {vtx : List CTransaction}
    {nHeight : Nat} {batch : AddressIndexBatch}
    (h : connectBlockIndex hash256 hash160 view vtx nHeight = .ok (view', batch)) :
    ∀ w ∈ batch.addressUnspentIndex, w.2 = .null ∨ ∃ t ∈ vtx.zipIdx, ∃ e ∈ t.1.vout.zipIdx,
      ∃ kind, addressKind e.1.scriptPubKey = some kind ∧
        w.1 = ⟨kind.addressType, kind.addressHash hash160 e.1.scriptPubKey, t.1.getHash hash256, e.2⟩ := by
  -- the invariant of the transaction loop, one transaction's entries at a time
  refine Except.foldlM_inv_mem (fun r : CCoinsViewCache × AddressIndexBatch =>
      ∀ w ∈ r.2.addressUnspentIndex, w.2 = .null ∨ ∃ t ∈ vtx.zipIdx, ∃ e ∈ t.1.vout.zipIdx,
        ∃ kind, addressKind e.1.scriptPubKey = some kind ∧
          w.1 = ⟨kind.addressType, kind.addressHash hash160 e.1.scriptPubKey, t.1.getHash hash256, e.2⟩)
    ?_ (by simp) h
  rintro ⟨v, acc⟩ ⟨tx, i⟩ ⟨v', acc'⟩ ht hacc hstep w hw
  obtain ⟨⟨v₁, u⟩, -, hp⟩ := Except.bind_eq_ok.mp hstep
  obtain ⟨-, rfl⟩ := Prod.mk.inj (Except.pure_eq_ok.mp hp)
  rw [AddressIndexBatch.addressUnspentIndex_append, List.mem_append] at hw
  rcases hw with hw | hw
  · exact hacc w hw
  · rcases mem_connectTxEntries_unspent hash256 hash160 hw with hnull | ⟨e, he, kind, hkind, hkey⟩
    · exact .inl hnull
    · exact .inr ⟨(tx, i), ht, e, he, kind, hkind, hkey⟩

/-- `DisconnectBlock` removes every output of the block from the unspent index, when the
undo data has a record for each transaction after the coinbase. -/
theorem mem_disconnectBlockIndex_output {block : CBlock} {blockUndo : List (List Coin)}
    {nHeight : Nat} (hlen : blockUndo.length + 1 = block.vtx.length) {t : CTransaction × Nat}
    (ht : t ∈ block.vtx.zipIdx) {e : CTxOut × Nat} (he : e ∈ t.1.vout.zipIdx) {kind : AddressKind}
    (hkind : addressKind e.1.scriptPubKey = some kind) :
    ((⟨kind.addressType, kind.addressHash hash160 e.1.scriptPubKey, t.1.getHash hash256, e.2⟩,
        .null) : CAddressUnspentKey × CAddressUnspentValue) ∈
      (disconnectBlockIndex hash256 hash160 block blockUndo nHeight).addressUnspentIndex := by
  obtain ⟨txundo, hmem⟩ := @exists_mem_zip_of_mem _ _ _ (none :: blockUndo.map some) _
    (by simp [hlen]) ht
  simp only [disconnectBlockIndex, AddressIndexBatch.addressUnspentIndex_join, List.mem_flatMap,
    List.mem_map, List.mem_reverse]
  refine ⟨_, ⟨(t, txundo), hmem, rfl⟩, ?_⟩
  simp only [disconnectTxEntries, AddressIndexBatch.addressUnspentIndex_append, List.mem_append,
    AddressIndexBatch.addressUnspentIndex_join, List.mem_flatMap, List.mem_map, List.mem_reverse]
  left
  refine ⟨_, ⟨e, he, rfl⟩, ?_⟩
  simp [disconnectOutputEntry, hkind]

/-- `DisconnectBlock` writes nothing but null values under type 3: the outputs are removed,
and no input is put back under type 3 (`AddressKind.restoreType_ne_three`). -/
theorem disconnectBlockIndex_unspent_typeThree {block : CBlock} {blockUndo : List (List Coin)}
    {nHeight : Nat} {w : CAddressUnspentKey × CAddressUnspentValue}
    (hw : w ∈ (disconnectBlockIndex hash256 hash160 block blockUndo nHeight).addressUnspentIndex)
    (h3 : w.1.type = 3) : w.2 = .null := by
  simp only [disconnectBlockIndex, AddressIndexBatch.addressUnspentIndex_join, List.mem_flatMap,
    List.mem_map, List.mem_reverse] at hw
  obtain ⟨b, ⟨⟨⟨tx, i⟩, txundo⟩, -, rfl⟩, hb⟩ := hw
  simp only [disconnectTxEntries, AddressIndexBatch.addressUnspentIndex_append,
    List.mem_append] at hb
  rcases hb with hout | hin
  · simp only [AddressIndexBatch.addressUnspentIndex_join, List.mem_flatMap, List.mem_map,
      List.mem_reverse] at hout
    obtain ⟨b, ⟨⟨out, k⟩, -, rfl⟩, hb⟩ := hout
    unfold disconnectOutputEntry at hb
    split at hb
    · simp at hb
    · rw [List.mem_singleton.mp hb]
  · cases txundo with
    | none => simp at hin
    | some txundo =>
      simp only [AddressIndexBatch.addressUnspentIndex_join, List.mem_flatMap, List.mem_map,
        List.mem_reverse] at hin
      obtain ⟨b, ⟨⟨⟨input, j⟩, undo⟩, -, rfl⟩, hb⟩ := hin
      unfold disconnectInputEntry at hb
      split at hb
      · simp at hb
      · rename_i kind _
        rw [List.mem_singleton.mp hb] at h3
        exact absurd h3 (AddressKind.restoreType_ne_three kind)

/-- **The lost entries.**  After `ConnectBlock` and then `DisconnectBlock` of the same
block, every type-3 key `ConnectBlock` wrote is missing from the unspent index, whatever it
held before; in particular each pay-to-witness-script-hash output the block spent. -/
theorem connectBlockIndex_disconnect_unspent_typeThree {view view' : CCoinsViewCache}
    {block : CBlock} {nHeight : Nat} {batch : AddressIndexBatch}
    (h : connectBlockIndex hash256 hash160 view block.vtx nHeight = .ok (view', batch))
    {blockUndo : List (List Coin)} (hlen : blockUndo.length + 1 = block.vtx.length)
    {key : CAddressUnspentKey} (hkey : key ∈ batch.addressUnspentIndex.map Prod.fst)
    (h3 : key.type = 3) (udb : AddressUnspentIndex) :
    updateAddressUnspentIndex (updateAddressUnspentIndex udb batch.addressUnspentIndex)
      (disconnectBlockIndex hash256 hash160 block blockUndo nHeight).addressUnspentIndex key =
        none := by
  unfold updateAddressUnspentIndex
  -- every write of `DisconnectBlock` at `key` erases it
  have hdis : ∀ w ∈ (disconnectBlockIndex hash256 hash160 block blockUndo nHeight).addressUnspentIndex.map
      (fun e => (e.1, if e.2.isNull then none else some e.2)), w.1 = key → w.2 = none := by
    simp only [List.mem_map]
    rintro _ ⟨e, he, rfl⟩ rfl
    simp [disconnectBlockIndex_unspent_typeThree hash256 hash160 he h3, CAddressUnspentValue.isNull,
      CAddressUnspentValue.null]
  by_cases hD : key ∈ ((disconnectBlockIndex hash256 hash160 block blockUndo nHeight).addressUnspentIndex.map
      (fun e => (e.1, if e.2.isNull then none else some e.2))).map Prod.fst
  · exact Journal.applyWrites_of_forall_eq hD hdis
  · rw [Journal.applyWrites_of_not_mem hD]
    -- `ConnectBlock` writes a value at `key` only for an output, and those are erased
    refine Journal.applyWrites_of_forall_eq (by simpa [List.map_map] using hkey) ?_
    simp only [List.mem_map]
    rintro _ ⟨e, he, rfl⟩ rfl
    rcases connectBlockIndex_unspent_mem hash256 hash160 h e he with hnull | ⟨t, ht, o, ho, kind, hkind, hk⟩
    · simp [hnull, CAddressUnspentValue.isNull, CAddressUnspentValue.null]
    · refine absurd ?_ hD
      have hmem := @mem_disconnectBlockIndex_output hash256 hash160 block blockUndo nHeight hlen
        _ ht _ ho _ hkind
      rw [← hk] at hmem
      simp only [List.map_map, List.mem_map]
      exact ⟨_, hmem, rfl⟩

/-- `ConnectBlock`'s index loop on `spendBlock`, over a view holding `c` at `spentOutPoint`:
the coins as `connectBlockCoins` leaves them, and the entries of both transactions. -/
theorem connectBlockIndex_spendBlock_of {view : CCoinsViewCache} {c : Coin}
    (hc : view spentOutPoint = some c) (hout : view ⟨spendTx.getHash hash256, 0⟩ = none)
    (nHeight : Nat) :
    connectBlockIndex hash256 hash160 view spendBlock.vtx nHeight =
      .ok ((view.erase spentOutPoint).insert ⟨spendTx.getHash hash256, 0⟩
          (spendTx.outputCoin ⟨100, [Script.op1]⟩ nHeight),
        .empty ++ connectTxEntries hash256 hash160 nHeight opReturnCoinBase 0
            (opReturnCoinBase.vin.map fun input => (view.accessCoin input.prevout).out) ++
          connectTxEntries hash256 hash160 nHeight spendTx 1
            (spendTx.vin.map fun input => (view.accessCoin input.prevout).out)) := by
  have hzip : spendBlock.vtx.zipIdx = [(opReturnCoinBase, 0), (spendTx, 1)] := rfl
  rw [connectBlockIndex, hzip, List.foldlM_cons]
  refine Except.bind_eq_ok.mpr ⟨(view, _),
    Except.bind_eq_ok.mpr ⟨_, updateCoins_opReturnCoinBase _ _, rfl⟩, ?_⟩
  rw [List.foldlM_cons]
  exact Except.bind_eq_ok.mpr
    ⟨_, Except.bind_eq_ok.mpr ⟨_, updateCoins_spendTx_of hc hout nHeight, rfl⟩, rfl⟩

end

/-! ## Spending a pay-to-witness-script-hash output -/

/-- `OP_0 <32 bytes>`. -/
def witnessScriptHashScript : CScript := Script.op0 :: 0x20 :: List.replicate 32 0x11

/-- 5000 satoshis to `witnessScriptHashScript`, created at height 3. -/
def witnessScriptHashCoin : Coin := ⟨⟨5000, witnessScriptHashScript⟩, false, 3, false, 0⟩

/-- The view holding `witnessScriptHashCoin` at `spentOutPoint` and nothing else. -/
def witnessScriptHashView : CCoinsViewCache :=
  CCoinsViewCache.empty.insert spentOutPoint witnessScriptHashCoin

/-- The key under which `ConnectBlock` indexed that output. -/
def witnessScriptHashKey : CAddressUnspentKey :=
  ⟨3, Uint256.ofPrefix (witnessScriptHashScript.drop 2), spentOutPoint.hash, 5⟩

/-- The key under which `DisconnectBlock` puts it back. -/
def witnessScriptHashRestoredKey : CAddressUnspentKey :=
  ⟨1, Uint256.ofPrefix (witnessScriptHashScript.drop 2), spentOutPoint.hash, 5⟩

/-- The unspent index in step with `witnessScriptHashView`. -/
def witnessScriptHashUnspentIndex : AddressUnspentIndex := fun key =>
  if key = witnessScriptHashKey then some ⟨5000, witnessScriptHashScript, 3⟩ else none

theorem connectBlockIndex_witnessScriptHashView :
    connectBlockIndex cHash256 cHash160 witnessScriptHashView spendBlock.vtx 10 =
      .ok ((witnessScriptHashView.erase spentOutPoint).insert ⟨spendTx.getHash cHash256, 0⟩
          (spendTx.outputCoin ⟨100, [Script.op1]⟩ 10),
        .empty ++ connectTxEntries cHash256 cHash160 10 opReturnCoinBase 0
            (opReturnCoinBase.vin.map fun input => (witnessScriptHashView.accessCoin input.prevout).out) ++
          connectTxEntries cHash256 cHash160 10 spendTx 1
            (spendTx.vin.map fun input => (witnessScriptHashView.accessCoin input.prevout).out)) :=
  @connectBlockIndex_spendBlock_of cHash256 cHash160 witnessScriptHashView witnessScriptHashCoin
    (by simp [witnessScriptHashView])
    (by simp [witnessScriptHashView, ne_spentOutPoint, CCoinsViewCache.empty]) 10

/-- **The failing input.**  `spendBlock` at height 10 spends a pay-to-witness-script-hash
output of height 3, which the unspent index holds under type 3.  The block passes
`CheckBlock` and is connected and disconnected cleanly, and the coins come back as they
were; the unspent index does not.  The type-3 entry is gone, and a type-1 entry with the
height of the block taken back stands in its place. -/
theorem connectBlockIndex_disconnect_loses_witnessScriptHash :
    checkBlockContents cHash256 mainParams spendBlock false false = .ok () ∧
      ∃ coins batch,
        connectBlockCoins cHash256 witnessScriptHashView spendBlock.vtx 10 =
          .ok (coins, [[witnessScriptHashCoin]]) ∧
        connectBlockIndex cHash256 cHash160 witnessScriptHashView spendBlock.vtx 10 =
          .ok (coins, batch) ∧
        disconnectBlock cHash256 spendBlock [[witnessScriptHashCoin]] 10 Uint256.zero
            ⟨coins, Uint256.zero⟩ = .ok (.ok, ⟨witnessScriptHashView, Uint256.zero⟩) ∧
        witnessScriptHashUnspentIndex witnessScriptHashKey =
          some ⟨5000, witnessScriptHashScript, 3⟩ ∧
        updateAddressUnspentIndex
            (updateAddressUnspentIndex witnessScriptHashUnspentIndex batch.addressUnspentIndex)
            (disconnectBlockIndex cHash256 cHash160 spendBlock [[witnessScriptHashCoin]] 10).addressUnspentIndex
            witnessScriptHashKey = none ∧
        updateAddressUnspentIndex
            (updateAddressUnspentIndex witnessScriptHashUnspentIndex batch.addressUnspentIndex)
            (disconnectBlockIndex cHash256 cHash160 spendBlock [[witnessScriptHashCoin]] 10).addressUnspentIndex
            witnessScriptHashRestoredKey = some ⟨5000, witnessScriptHashScript, 10⟩ := by
  have hout : witnessScriptHashView ⟨spendTx.getHash cHash256, 0⟩ = none := by
    simp [witnessScriptHashView, ne_spentOutPoint, CCoinsViewCache.empty]
  have hconnect := @connectBlockCoins_spendBlock_of cHash256 witnessScriptHashView
    witnessScriptHashCoin (by simp [witnessScriptHashView]) hout 10
  have hdis := @disconnectBlock_connectBlockCoins_of_shape cHash256 spendBlock opReturnCoinBase
    [spendTx] rfl (by decide) (by decide) (by decide) 10 (by decide)
    ⟨witnessScriptHashView, Uint256.zero⟩ (empty_insert_stored ⟨rfl, rfl, by decide⟩)
  dsimp only at hdis
  -- what the two loops write into the unspent index
  have hC : (.empty ++ connectTxEntries cHash256 cHash160 10 opReturnCoinBase 0
        (opReturnCoinBase.vin.map fun input => (witnessScriptHashView.accessCoin input.prevout).out) ++
      connectTxEntries cHash256 cHash160 10 spendTx 1
        (spendTx.vin.map fun input => (witnessScriptHashView.accessCoin input.prevout).out) :
        AddressIndexBatch).addressUnspentIndex = [(witnessScriptHashKey, .null)] := by
    decide +kernel
  have hD : (disconnectBlockIndex cHash256 cHash160 spendBlock [[witnessScriptHashCoin]] 10).addressUnspentIndex =
      [(witnessScriptHashRestoredKey, ⟨5000, witnessScriptHashScript, 10⟩)] := by
    decide +kernel
  refine ⟨checkBlockContents_spendBlock, _, _, hconnect, connectBlockIndex_witnessScriptHashView,
    hdis (spendBlock_outputs_of fun _ ho => by simp [witnessScriptHashView, ne_spentOutPoint ho,
      CCoinsViewCache.empty]) hconnect Uint256.zero, by decide, ?_, ?_⟩
  · exact connectBlockIndex_disconnect_unspent_typeThree cHash256 cHash160
      connectBlockIndex_witnessScriptHashView (by decide) (by rw [hC]; simp) rfl _
  · rw [hC, hD]
    decide +kernel

end Sumcoin
