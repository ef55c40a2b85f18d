import Sumcoin.Coins.Compressor

/-!
# A coin on disk: `Coin::Serialize` and `TxInUndoFormatter`

A coin is stored twice, in two layouts.  The chainstate record (`Coin::Serialize`,
`coins.h`) packs the height and the coinbase flag as `nHeight * 2 + fCoinBase` in one
`VARINT`, then the compressed output, then this chain's coinstake flag and time, each a
`VARINT`.  The undo record of a spent input (`TxInUndoFormatter`, `undo.h`) packs the two
flags with the height as `nHeight * 4 + fCoinBase + 2 * fCoinStake`, then the time, then,
for a height above zero, the dummy byte older nodes read as a version, then the
compressed output.  Both codes are `uint32_t`, so the height fits below `2 ^ 31` in the
chainstate and below `2 ^ 30` in the undo record.

Each reader reads into the coin it is given, as the source's `Unserialize(s, obj)` does;
the coin read does not depend on it when the output is one `TxOutCompression` reads back.

## Main definitions

* `Coin.serialize`, `Coin.unserialize`.
* `TxInUndoFormatter.ser`, `TxInUndoFormatter.unser`.

## Main statements

* `TxInUndoFormatter.unser_ser`, `Coin.unserialize_serialize`.
* `coinRecords_roundTrip`: both records of a coin round-trip.
-/

namespace Sumcoin

open ByteReader

/-! ## Packed flags -/

/-- Bit 0 of a code. -/
theorem and_one_ne_zero (x : Nat) : (x &&& 1 != 0) = decide (x % 2 = 1) := by
  rw [show (1 : Nat) = 2 ^ 1 - 1 from rfl, Nat.and_two_pow_sub_one_eq_mod]
  by_cases h : x % 2 = 1 <;> simp [h]

/-- Bit 1 of a code. -/
theorem and_two_ne_zero (x : Nat) : (x &&& 2 != 0) = decide (x / 2 % 2 = 1) := by
  rw [show (2 : Nat) = 2 ^ 1 from rfl, Nat.and_two_pow, Nat.testBit_eq_decide_div_mod_eq,
    Nat.pow_one]
  by_cases h : x / 2 % 2 = 1 <;> simp [h]

/-- A `VARINT` of a `uint32_t` below `2 ^ 32` is read back. -/
theorem readVarInt_uint32 {n : Nat} (hn : n < 2 ^ 32) (rest : List UInt8) :
    Unser.readVarInt .uint32 (Ser.writeVarInt n ++ rest) = .ok (n, rest) :=
  Unser.readsBack_readVarInt .uint32 n rest hn

/-! ## The undo record -/

namespace TxInUndoFormatter

/-- The code of the undo record: the height times four, the coinbase flag, and two for a
coinstake, in `uint32_t`. -/
def code (txout : Coin) : Nat :=
  (txout.nHeight * 4 + (if txout.fCoinBase then 1 else 0) + (if txout.fCoinStake then 2 else 0)) %
    2 ^ 32

/-- `TxInUndoFormatter::Ser`. -/
def ser (ops : PubKeyOps) (txout : Coin) : List UInt8 :=
  Ser.writeVarInt (code txout) ++ Ser.writeVarInt txout.nTime.toNat ++
    (if txout.nHeight > 0 then [0] else []) ++ TxOutCompression.ser ops txout.out

/-- `TxInUndoFormatter::Unser`, into `txout`.  Above height zero it reads the version
older nodes wrote as a `VARINT` and drops it. -/
def unser (ops : PubKeyOps) (txout : Coin) : Reader Coin := do
  let nCode ← Unser.readVarInt .uint32
  let nHeight := nCode >>> 2
  let nTime ← Unser.readVarInt .uint32
  let _ ← if nHeight > 0 then Unser.readVarInt .uint32 else pure 0
  let out ← TxOutCompression.unser ops txout.out
  pure ⟨out, nCode &&& 1 != 0, nHeight, nCode &&& 2 != 0, nTime.toUInt32⟩

/-- Below height `2 ^ 30` the code does not wrap, and gives back the height and both
flags. -/
theorem code_spec {txout : Coin} (hh : txout.nHeight < 2 ^ 30) :
    code txout < 2 ^ 32 ∧ code txout >>> 2 = txout.nHeight ∧
      (code txout &&& 1 != 0) = txout.fCoinBase ∧ (code txout &&& 2 != 0) = txout.fCoinStake := by
  have hcode : code txout =
      txout.nHeight * 4 + (if txout.fCoinBase then 1 else 0) + (if txout.fCoinStake then 2 else 0) :=
    Nat.mod_eq_of_lt (by split <;> split <;> omega)
  rw [hcode, and_one_ne_zero, and_two_ne_zero, Nat.shiftRight_eq_div_pow]
  cases txout.fCoinBase <;> cases txout.fCoinStake <;> simp <;> omega

/-- **The undo record of a coin is read back** when its height is below `2 ^ 30` and
`TxOutCompression` reads its output back, whatever coin it is read into. -/
theorem unser_ser {ops : PubKeyOps} (hops : ops.DecompressInverts) {txout : Coin}
    (hh : txout.nHeight < 2 ^ 30) (hout : TxOutCompression.Fits txout.out) (txout' : Coin)
    (rest : List UInt8) : unser ops txout' (ser ops txout ++ rest) = .ok (txout, rest) := by
  obtain ⟨hlt, hheight, hcb, hcs⟩ := code_spec hh
  have hout' := TxOutCompression.unser_ser hops hout txout'.out rest
  simp only [ser, List.append_assoc, unser]
  rw [bind_of_ok (readVarInt_uint32 hlt _), hheight,
    bind_of_ok (readVarInt_uint32 txout.nTime.toNat_lt _)]
  -- above height zero the dummy version is the byte `0`, a `VARINT` of zero
  by_cases hpos : txout.nHeight > 0
  · have hdummy : Unser.readVarInt .uint32 ([0] ++ (TxOutCompression.ser ops txout.out ++ rest)) =
        .ok (0, TxOutCompression.ser ops txout.out ++ rest) := by
      have h := @readVarInt_uint32 0 (by decide) (TxOutCompression.ser ops txout.out ++ rest)
      rw [Ser.writeVarInt_of_lt (by decide)] at h
      exact h
    rw [if_pos hpos, if_pos hpos, bind_of_ok hdummy]
    rw [bind_of_ok hout', pure_apply, hcb, hcs, Nat.toUInt32_eq, UInt32.ofNat_toNat]
  · rw [if_neg hpos, if_neg hpos, List.nil_append, bind_of_ok (pure_apply 0 _)]
    rw [bind_of_ok hout', pure_apply, hcb, hcs, Nat.toUInt32_eq, UInt32.ofNat_toNat]

end TxInUndoFormatter

/-! ## The chainstate record -/

namespace Coin

/-- The code of the chainstate record: the height times two and the coinbase flag, in
`uint32_t`. -/
def code (c : Coin) : Nat := (c.nHeight * 2 + if c.fCoinBase then 1 else 0) % 2 ^ 32

/-- `Coin::Serialize`: the failed `assert(!IsSpent())` for a spent coin. -/
def serialize (ops : PubKeyOps) (c : Coin) : Except String (List UInt8) :=
  if c.isSpent then throw "assert(!IsSpent())"
  else
    let nFlag := if c.fCoinStake then 1 else 0
    pure (Ser.writeVarInt c.code ++ TxOutCompression.ser ops c.out ++ Ser.writeVarInt nFlag ++
      Ser.writeVarInt c.nTime.toNat)

/-- `Coin::Unserialize`, into `c`. -/
def unserialize (ops : PubKeyOps) (c : Coin) : Reader Coin := do
  let code ← Unser.readVarInt .uint32
  let out ← TxOutCompression.unser ops c.out
  let nFlag ← Unser.readVarInt .uint32
  let nTime ← Unser.readVarInt .uint32
  pure ⟨out, code &&& 1 != 0, code >>> 1, nFlag &&& 1 != 0, nTime.toUInt32⟩

/-- Below height `2 ^ 31` the code does not wrap, and gives back the height and the
coinbase flag. -/
theorem code_spec {c : Coin} (hh : c.nHeight < 2 ^ 31) :
    c.code < 2 ^ 32 ∧ c.code >>> 1 = c.nHeight ∧ (c.code &&& 1 != 0) = c.fCoinBase := by
  have hcode : c.code = c.nHeight * 2 + if c.fCoinBase then 1 else 0 :=
    Nat.mod_eq_of_lt (by split <;> omega)
  rw [hcode, and_one_ne_zero, Nat.shiftRight_eq_div_pow]
  cases c.fCoinBase <;> simp <;> omega

/-- **The chainstate record of a coin is read back** when its height is below `2 ^ 31`
and `TxOutCompression` reads its output back, whatever coin it is read into. -/
theorem unserialize_serialize {ops : PubKeyOps} (hops : ops.DecompressInverts) {c : Coin}
    (hh : c.nHeight < 2 ^ 31) (hout : TxOutCompression.Fits c.out) :
    ∃ bytes, c.serialize ops = .ok bytes ∧
      ∀ (c' : Coin) (rest : List UInt8), c'.unserialize ops (bytes ++ rest) = .ok (c, rest) := by
  obtain ⟨hlt, hheight, hcb⟩ := code_spec hh
  -- an output read back has a value of at least zero, so the coin is not spent
  have hunspent : c.isSpent = false := by
    have h0 : (0 : Int) ≤ c.out.nValue := hout.1
    simp only [isSpent, CTxOut.isNull, beq_eq_false_iff_ne]
    intro h
    rw [h] at h0
    exact absurd h0 (by decide)
  refine ⟨_, by rw [serialize, if_neg (by simp [hunspent])]; rfl, ?_⟩
  intro c' rest
  have hflag : (if c.fCoinStake then 1 else 0) < 2 ^ 32 := by split <;> decide
  have hflagbit : ((if c.fCoinStake then 1 else 0) &&& 1 != 0) = c.fCoinStake := by
    cases c.fCoinStake <;> decide
  rw [List.append_assoc, List.append_assoc, List.append_assoc, unserialize,
    bind_of_ok (readVarInt_uint32 hlt _), bind_of_ok (TxOutCompression.unser_ser hops hout _ _),
    bind_of_ok (readVarInt_uint32 hflag _), bind_of_ok (readVarInt_uint32 c.nTime.toNat_lt rest),
    pure_apply, hheight, hcb, hflagbit, Nat.toUInt32_eq, UInt32.ofNat_toNat]

end Coin

/-- **The undo and chainstate records of a coin round-trip.**  For an unspent coin with an
amount in `MoneyRange` and a script of at most `MAX_SCRIPT_SIZE` bytes, when decompressing
a key inverts compressing it: `TxInUndoFormatter::Unser` reads back exactly the bytes
`TxInUndoFormatter::Ser` wrote below height `2 ^ 30`, and `Coin::Unserialize` those of
`Coin::Serialize` below height `2 ^ 31`, each giving the coin with its height, both flags,
time, amount and script. -/
theorem coinRecords_roundTrip (ops : PubKeyOps) (hops : ops.DecompressInverts) (c : Coin)
    (h0 : 0 ≤ c.out.nValue) (hmax : c.out.nValue ≤ maxMoney)
    (hlen : c.out.scriptPubKey.length ≤ maxScriptSize) :
    (c.nHeight < 2 ^ 30 → ∀ (c' : Coin) (rest : List UInt8),
        TxInUndoFormatter.unser ops c' (TxInUndoFormatter.ser ops c ++ rest) = .ok (c, rest)) ∧
      (c.nHeight < 2 ^ 31 → ∃ bytes, c.serialize ops = .ok bytes ∧
        ∀ (c' : Coin) (rest : List UInt8), c'.unserialize ops (bytes ++ rest) = .ok (c, rest)) :=
  ⟨fun hh => TxInUndoFormatter.unser_ser hops hh ⟨h0, hmax, hlen⟩,
    fun hh => Coin.unserialize_serialize hops hh ⟨h0, hmax, hlen⟩⟩

/-- A coinstake output paying to the generator's uncompressed key, spent at height 1000:
its undo record is read back into an empty coin. -/
theorem coinRecords_roundTrip_generator :
    generatorOps.DecompressInverts ∧
      TxInUndoFormatter.unser generatorOps Coin.empty
          (TxInUndoFormatter.ser generatorOps
              ⟨⟨5000000, [65] ++ generatorKey ++ [Script.opChecksig]⟩, false, 1000, true,
                1700000000⟩ ++ []) =
        .ok (⟨⟨5000000, [65] ++ generatorKey ++ [Script.opChecksig]⟩, false, 1000, true,
          1700000000⟩, []) :=
  ⟨generatorOps_decompressInverts,
    (coinRecords_roundTrip generatorOps generatorOps_decompressInverts
      ⟨⟨5000000, [65] ++ generatorKey ++ [Script.opChecksig]⟩, false, 1000, true, 1700000000⟩
      (by decide) (by decide) (by decide)).1 (by decide) Coin.empty []⟩

end Sumcoin
