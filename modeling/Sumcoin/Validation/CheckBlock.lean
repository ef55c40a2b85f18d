import Sumcoin.Consensus.Pow
import Sumcoin.Util.MoneyStr

/-!
# Context-free block checks: `CheckBlock` (`validation.cpp`)

`CheckBlock` runs the checks that need no chain: the header's proof of work (skipped
for proof-of-stake bodies), the merkle root, the size, the coinbase and coinstake
positions and timestamps, the coinbase amount, every transaction, the signature
operations, and last the block signature.  It memoises success in the block's
`fChecked` field, which it sets *before* the signature check and tests first on
entry.

Inside the transaction loop the source writes a timestamp check after an
unconditional `return`; it is never reached, and the model has no such check.
The coinbase amount is compared with `MAX_MINT_PROOF_OF_WORK * COIN`, while the
rejection message prints `GetProofOfWorkReward`, which is zero.  The unused
`nCoinbaseCost` the source computes before that comparison is left out.

A failed call returns a `BlockFailure`: a `state.Invalid(...)` with its result,
reason and debug message, or the exception `GetValueOut` throws.

## Main definitions

* `BlockValidationResult`, `BlockFailure`.
* `formatMoney`, `getProofOfWorkReward`, `checkCoinStakeTimestamp`.
* `checkBlockHeader`, `checkBlockSignature`, `checkBlockContents`, `checkBlock`.
-/

namespace Sumcoin

/-! ## Results -/

/-- `BlockValidationResult`. -/
inductive BlockValidationResult where
  | blockResultUnset
  | blockConsensus
  | blockCachedInvalid
  | blockInvalidHeader
  | blockMutated
  | blockMissingPrev
  | blockInvalidPrev
  | blockTimeFuture
  | blockCheckpoint
  deriving DecidableEq, Repr

/-- How a validation function ends when it does not return `true`. -/
inductive BlockFailure where
  /-- `return state.Invalid(result, reason, debug)`. -/
  | invalid (result : BlockValidationResult) (reason debug : String)
  /-- `return error(...)`, which leaves the state as it was. -/
  | error (msg : String)
  /-- An exception thrown out of the function. -/
  | thrown (what : String)
  deriving DecidableEq, Repr

/-! ## Amounts and rewards -/

/-- The trim loop of `FormatMoney`, on the reversed text: drop a trailing `'0'` while
the character two places before it is a digit. -/
def formatMoneyTrim : List Char → List Char
  | '0' :: rest =>
    if ((rest.drop 1).head?.map Char.isDigit).getD false then formatMoneyTrim rest
    else '0' :: rest
  | l => l

/-- `FormatMoney(n)`: `"%d.%06d"` of the coins and the rest, trailing zeros trimmed to
two decimals, and a sign. -/
def formatMoney (n : CAmount) : String :=
  let quotient := n.natAbs / coin.toNat
  let remainder := n.natAbs % coin.toNat
  let digits := (Nat.repr remainder).toList
  let str := (Nat.repr quotient).toList ++ '.' :: (List.replicate (6 - digits.length) '0' ++ digits)
  let str := (formatMoneyTrim str.reverse).reverse
  String.ofList (if n < 0 then '-' :: str else str)

example : formatMoney 0 = "0.00" ∧ formatMoney 1000000 = "1.00" ∧
    formatMoney (-123456789) = "-123.456789" ∧ formatMoney 1500000 = "1.50" := by
  decide

/-- The trim loop drops the zeros `MoneyStr.trimCount` counts. -/
theorem formatMoneyTrim_eq_drop (l : List Char) : formatMoneyTrim l = l.drop (MoneyStr.trimCount l) := by
  fun_induction MoneyStr.trimCount l with
  | case1 c c1 c2 rest h ih =>
    obtain ⟨rfl, h2⟩ := h
    rw [formatMoneyTrim, if_pos (by simp [h2]), ih, List.drop_succ_cons]
  | case2 c c1 c2 rest h =>
    by_cases hc : c = '0'
    · subst hc
      rw [formatMoneyTrim, if_neg (by simpa using h)]
      rfl
    · unfold formatMoneyTrim
      split
      · simp_all
      · rfl
  | case3 t h =>
    rw [List.drop_zero]
    unfold formatMoneyTrim
    split
    · -- fewer than three characters: the digit test finds nothing two places on
      rename_i rest
      rcases rest with _ | ⟨c1, _ | ⟨c2, rest⟩⟩
      · rfl
      · rfl
      · exact absurd rfl (h _ _ _ _)
    · rfl

/-- Trimming the reversed text from its front is cutting the text at its end, which
`FormatMoney` does only when there is something to cut. -/
theorem reverse_drop_reverse (l : List Char) (k : Nat) :
    (l.reverse.drop k).reverse = if k ≠ 0 then l.take (l.length - k) else l := by
  rw [List.drop_reverse, List.reverse_reverse]
  split_ifs with h
  · rfl
  · simp at h
    subst h
    simp

/-- The amounts in the validation messages are printed as `util/moneystr.cpp`'s
`FormatMoney` prints them. -/
theorem formatMoney_eq_moneyStr (n : Int) : formatMoney n = String.ofList (MoneyStr.formatMoney n) := by
  have habs : (if n > 0 then n else -n) = (n.natAbs : Int) := by split_ifs <;> omega
  have hq : (if n > 0 then n else -n).tdiv coin = ((n.natAbs / 1000000 : Nat) : Int) := by
    rw [habs, Int.tdiv_eq_ediv_of_nonneg (Int.natCast_nonneg _)]
    simp only [coin]
    omega
  have hr : (if n > 0 then n else -n).tmod coin = ((n.natAbs % 1000000 : Nat) : Int) := by
    rw [habs, Int.tmod_eq_emod_of_nonneg (Int.natCast_nonneg _)]
    simp only [coin]
    omega
  simp only [formatMoney, MoneyStr.formatMoney, hq, hr, MoneyStr.printfD_of_nonneg (Int.natCast_nonneg _),
    MoneyStr.printf06d_of_nonneg (Int.natCast_nonneg _), Int.natAbs_natCast, formatMoneyTrim_eq_drop,
    reverse_drop_reverse, List.leftpad, show coin.toNat = 1000000 from rfl]
  simp [Nat.repr]

/-- `GetProofOfWorkReward(nBits, nTime)`: no coins for proof of work. -/
def getProofOfWorkReward (_nBits _nTime : UInt32) : CAmount := 0

/-- `CheckCoinStakeTimestamp(nTimeBlock, nTimeTx)`: equal times from v0.3 on, else the
block at most `MAX_FUTURE_BLOCK_TIME_PREV9` after the coinstake. -/
def checkCoinStakeTimestamp (net : Network) (nTimeBlock nTimeTx : Int) : Bool :=
  if isProtocolV03 net (UInt32.ofInt nTimeTx) then nTimeBlock == nTimeTx
  else decide (nTimeTx ≤ nTimeBlock) && decide (nTimeBlock ≤ nTimeTx + maxFutureBlockTimePrev9)

/-! ## The checks -/

section

variable (hash256 : List UInt8 → Uint256) (verify : List UInt8 → Uint256 → List UInt8 → Bool)
  (chainparams : ChainParams)

/-- `CheckBlockHeader(block, state, params, fCheckPOW)`. -/
def checkBlockHeader (block : CBlockHeader) (fCheckPOW : Bool) : Except BlockFailure Unit :=
  if fCheckPOW && !checkProofOfWork (block.getHash hash256) block.nBits chainparams.consensus then
    throw (.invalid .blockInvalidHeader "high-hash" "proof of work failed")
  else pure ()

/-- The output whose key signs a block: the coinstake's second output, or the
coinbase's first one for proof of work. -/
def CBlock.signingTxOut (block : CBlock) : CTxOut :=
  let nullOut : CTxOut := ⟨-1, []⟩
  if block.isProofOfStake then ((block.vtx.drop 1).headD ⟨[], [], 0, 0, 0⟩).vout.getD 1 nullOut
  else (block.vtx.headD ⟨[], [], 0, 0, 0⟩).vout.headD nullOut

/-- `CheckBlockSignature(block)`: the genesis block has no signature; any other is
signed by the pay-to-pubkey key of `signingTxOut`.  `Solver` answers `TX_PUBKEY`
exactly when `MatchPayToPubkey` matches; `verify` is `CPubKey::Verify`. -/
def checkBlockSignature (block : CBlock) : Bool :=
  let hash := block.header.getHash hash256
  if hash = chainparams.consensus.hashGenesisBlock then block.vchBlockSig.isEmpty
  else
    match Script.matchPayToPubkey block.signingTxOut.scriptPubKey with
    | none => false
    | some vchPubKey => !block.vchBlockSig.isEmpty && verify vchPubKey hash block.vchBlockSig

/-- The merkle-root step: the root must match, and no level may pair equal hashes. -/
def checkMerkleRoot (block : CBlock) : Except BlockFailure Unit :=
  let r := blockMerkleRoot hash256 block.vtx
  if block.header.hashMerkleRoot != r.1 then
    throw (.invalid .blockMutated "bad-txnmrklroot" "hashMerkleRoot mismatch")
  else if r.2 then throw (.invalid .blockMutated "bad-txns-duplicate" "duplicate transaction")
  else pure ()

/-- The transaction loop: `CheckTransaction` on each, failing with its reason. -/
def checkTransactions (vtx : List CTransaction) : Except BlockFailure Unit :=
  vtx.forM fun tx =>
    match checkTransaction tx with
    | .ok () => pure ()
    | .error reason =>
      throw (.invalid .blockConsensus reason
        ("Transaction check failed (tx hash " ++ (tx.getHash hash256).getHex ++ ") "))

/-- `CheckBlock` from the header check to the signature-operation limit: everything
the source checks before it sets `fChecked`. -/
def checkBlockContents (block : CBlock) (fCheckPOW fCheckMerkleRoot : Bool) :
    Except BlockFailure Unit := do
  let net := chainparams.network
  checkBlockHeader hash256 chainparams block.header (fCheckPOW && !block.isProofOfStake)
  if fCheckMerkleRoot then checkMerkleRoot hash256 block
  if block.vtx.isEmpty || block.vtx.length * witnessScaleFactor > maxBlockWeight ||
      getSerializeSizeBlock block (protocolVersion ||| Ser.serializeTransactionNoWitness) 0 *
        witnessScaleFactor > maxBlockWeight then
    throw (.invalid .blockConsensus "bad-blk-length" "size limits failed")
  match block.vtx with
  | [] => throw (.invalid .blockConsensus "bad-cb-missing" "first tx is not coinbase")
  | tx0 :: rest =>
    if !tx0.isCoinBase then
      throw (.invalid .blockConsensus "bad-cb-missing" "first tx is not coinbase")
    if rest.any (·.isCoinBase) then
      throw (.invalid .blockConsensus "bad-cb-multiple" "more than one coinbase")
    if (rest.drop 1).any (·.isCoinStake) then
      throw (.invalid .blockConsensus "bad-cs-missing" "coinstake in wrong position")
    if block.isProofOfStake && !(tx0.vout.headD ⟨-1, []⟩).isEmpty then
      throw (.invalid .blockConsensus "bad-cb-notempty" "coinbase output not empty in PoS block")
    let nTimeBlock := block.getBlockTime
    let txTime (tx : CTransaction) : Int := if tx.nTime ≠ 0 then tx.nTime.toNat else nTimeBlock
    if nTimeBlock > txTime tx0 + maxFutureDrift net block.header.nTime then
      throw (.invalid .blockConsensus "bad-cb-time" "coinbase timestamp is too early")
    if block.isProofOfStake &&
        !checkCoinStakeTimestamp net nTimeBlock (txTime (rest.headD tx0)) then
      throw (.invalid .blockConsensus "bad-cs-time" "coinstake timestamp violation")
    match tx0.getValueOut with
    | .error what => throw (.thrown what)
    | .ok nValueOut =>
      let nRewardLimit : CAmount := if block.isProofOfWork then maxMintProofOfWork * coin else 0
      if nValueOut > nRewardLimit then
        throw (.invalid .blockConsensus "bad-cb-amount"
          ("CheckBlock() : coinbase reward exceeded " ++ formatMoney nValueOut ++ " > " ++
            formatMoney (if block.isProofOfWork then
              getProofOfWorkReward block.header.nBits block.header.nTime else 0)))
    checkTransactions hash256 block.vtx
    let nSigOps := (block.vtx.map getLegacySigOpCount).sum % 2 ^ 32
    if nSigOps * witnessScaleFactor % 2 ^ 32 > maxBlockSigopsCost then
      throw (.invalid .blockConsensus "bad-blk-sigops" "out-of-bounds SigOpCount")

/-- `CheckBlock(block, state, params, fCheckPOW, fCheckMerkleRoot, fCheckSignature)`:
the result, and the block with `fChecked` as the call leaves it. -/
def checkBlock (block : CBlock) (fCheckPOW fCheckMerkleRoot fCheckSignature : Bool) :
    Except BlockFailure Unit × CBlock :=
  if block.fChecked then (pure (), block)
  else
    match checkBlockContents hash256 chainparams block fCheckPOW fCheckMerkleRoot with
    | .error e => (.error e, block)
    | .ok () =>
      let block' := if fCheckPOW && fCheckMerkleRoot then { block with fChecked := true } else block
      if fCheckMerkleRoot && fCheckSignature &&
          (block.isProofOfStake || !isBTC16BIPsEnabled chainparams.network block.header.nTime) &&
          !checkBlockSignature hash256 verify chainparams block then
        (.error (.invalid .blockConsensus "bad-blk-sign" "CheckBlock : bad block signature"), block')
      else (pure (), block')

end

/-! ## Memoisation and the signature check -/

section

variable {hash256 : List UInt8 → Uint256} {chainparams : ChainParams} {block : CBlock}
  {fCheckPOW fCheckMerkleRoot fCheckSignature : Bool}

/-- The header check passes exactly when the proof of work, if asked for, holds. -/
theorem checkBlockHeader_eq_ok {header : CBlockHeader} {fCheckPOW : Bool} :
    checkBlockHeader hash256 chainparams header fCheckPOW = .ok () ↔
      (fCheckPOW = true → checkProofOfWork (header.getHash hash256) header.nBits
        chainparams.consensus = true) := by
  unfold checkBlockHeader
  cases fCheckPOW <;> simp

/-- A signing output that is not pay-to-pubkey fails every block but the genesis one,
without a call to the verifier. -/
theorem checkBlockSignature_of_not_pubKey (verify verify' : List UInt8 → Uint256 → List UInt8 → Bool)
    (h : Script.matchPayToPubkey block.signingTxOut.scriptPubKey = none) :
    checkBlockSignature hash256 verify chainparams block =
      checkBlockSignature hash256 verify' chainparams block := by
  simp only [checkBlockSignature, h]

/-- `CheckBlock` reads the verifier only through `CheckBlockSignature`, and only when
it checks the signature. -/
theorem checkBlock_congr_verify (verify verify' : List UInt8 → Uint256 → List UInt8 → Bool)
    (h : (fCheckMerkleRoot && fCheckSignature && (block.isProofOfStake ||
        !isBTC16BIPsEnabled chainparams.network block.header.nTime)) = true →
      checkBlockSignature hash256 verify chainparams block =
        checkBlockSignature hash256 verify' chainparams block) :
    checkBlock hash256 verify chainparams block fCheckPOW fCheckMerkleRoot fCheckSignature =
      checkBlock hash256 verify' chainparams block fCheckPOW fCheckMerkleRoot fCheckSignature := by
  unfold checkBlock
  split
  case isTrue => rfl
  case isFalse =>
    split
    case h_1 => rfl
    case h_2 =>
      by_cases hsig : (fCheckMerkleRoot && fCheckSignature && (block.isProofOfStake ||
          !isBTC16BIPsEnabled chainparams.network block.header.nTime)) = true
      case pos => rw [h hsig]
      case neg =>
        simp only [Bool.not_eq_true] at hsig
        simp only [hsig, Bool.false_and]

/-- What a call leaves in the block: `fChecked` is set by every call whose contents pass
with `fCheckPOW` and `fCheckMerkleRoot`, before and whatever the signature check. -/
theorem checkBlock_snd (verify : List UInt8 → Uint256 → List UInt8 → Bool)
    (hb : block.fChecked = false)
    (hc : checkBlockContents hash256 chainparams block fCheckPOW fCheckMerkleRoot = .ok ()) :
    (checkBlock hash256 verify chainparams block fCheckPOW fCheckMerkleRoot fCheckSignature).2 =
      if fCheckPOW && fCheckMerkleRoot then { block with fChecked := true } else block := by
  simp only [checkBlock, hb, hc, Bool.false_eq_true, ↓reduceIte]
  split <;> rfl

/-- A call on a marked block returns `true` at once. -/
theorem checkBlock_of_fChecked (verify : List UInt8 → Uint256 → List UInt8 → Bool)
    (hb : block.fChecked = true) :
    checkBlock hash256 verify chainparams block fCheckPOW fCheckMerkleRoot fCheckSignature =
      (.ok (), block) := by
  simp [checkBlock, hb]

/-- A call with `fCheckPOW` and `fCheckMerkleRoot` that returns `true` on an unmarked
block marks it. -/
theorem checkBlock_of_fst_eq_ok (verify : List UInt8 → Uint256 → List UInt8 → Bool)
    (hb : block.fChecked = false)
    (h : (checkBlock hash256 verify chainparams block true true fCheckSignature).1 = .ok ()) :
    checkBlock hash256 verify chainparams block true true fCheckSignature =
      (.ok (), { block with fChecked := true }) := by
  unfold checkBlock at h ⊢
  simp only [hb, Bool.false_eq_true, ↓reduceIte] at h ⊢
  split at h
  case h_1 => cases h
  case h_2 =>
    simp only [Bool.and_self, ↓reduceIte] at h ⊢
    split at h
    case isTrue => cases h
    case isFalse hsig =>
      rw [if_neg hsig]
      rfl

/-- Whatever the signature: once a call with `fCheckPOW` and `fCheckMerkleRoot` finds the
contents valid, the next call with every check on returns `true`. -/
theorem checkBlock_checkBlock_ok (verify : List UInt8 → Uint256 → List UInt8 → Bool)
    (hc : checkBlockContents hash256 chainparams block true true = .ok ()) :
    (checkBlock hash256 verify chainparams
      (checkBlock hash256 verify chainparams block true true fCheckSignature).2 true true true).1 =
      .ok () := by
  cases hb : block.fChecked
  case false =>
    rw [checkBlock_snd verify hb hc]
    simp only [Bool.and_self, ↓reduceIte]
    rw [checkBlock_of_fChecked verify rfl]
  case true =>
    rw [checkBlock_of_fChecked verify hb, checkBlock_of_fChecked verify hb]

end

/-! ## Blocks that `CheckBlock` accepts -/

/-- A coinbase with a two-byte `scriptSig` and one output, at time `nTime`. -/
def coinbaseAt (nValue : CAmount) (nTime : UInt32) : CTransaction :=
  { vin := [{ prevout := COutPoint.null, scriptSig := [0x51, 0x51], nSequence := 0xffffffff,
              scriptWitness := ⟨[]⟩ }]
    vout := [⟨nValue, []⟩]
    nVersion := 1
    nTime := nTime
    nLockTime := 0 }

/-- A version-1 spend of one coin to `OP_1`, timestamped an hour after `lateSpendBlock`. -/
def lateSpend : CTransaction :=
  { vin := [{ prevout := ⟨mainConsensus.hashGenesisBlock, 0⟩, scriptSig := [],
              nSequence := 0xffffffff, scriptWitness := ⟨[]⟩ }]
    vout := [⟨1000000, [0x51]⟩]
    nVersion := 1
    nTime := 1700003600
    nLockTime := 0 }

/-- A proof-of-work block after the BTC16 switch, on the main genesis block, at its
difficulty; the nonce meets the target. -/
def minedHeader (vtx : List CTransaction) (nNonce : UInt32) : CBlockHeader :=
  { nVersion := 4
    hashPrevBlock := mainConsensus.hashGenesisBlock
    hashMerkleRoot := (blockMerkleRoot cHash256 vtx).1
    nTime := 1700000000
    nBits := 0x1e00ffff
    nNonce := nNonce
    nFlags := 0 }

/-- A mined block with a coinbase and `lateSpend`. -/
def lateSpendBlock : CBlock :=
  let vtx := [coinbaseAt 0 1700000000, lateSpend]
  ⟨minedHeader vtx 37405650, vtx, [], false⟩

/-- The full call on `lateSpendBlock`, which needs no signature, accepts and marks it. -/
theorem checkBlock_lateSpendBlock :
    checkBlock cHash256 (fun _ _ _ => false) mainParams lateSpendBlock true true true =
      (.ok (), { lateSpendBlock with fChecked := true }) := by
  decide +kernel

/-- `CheckBlock` with every check on accepts a mined block holding a transaction
timestamped after the block: the timestamp check of its transaction loop is dead code. -/
theorem checkBlock_accepts_late_transaction
    (verify : List UInt8 → Uint256 → List UInt8 → Bool) :
    (checkBlock cHash256 verify mainParams lateSpendBlock true true true).1 = .ok () ∧
      ∃ tx ∈ lateSpendBlock.vtx, tx.nTime.toNat > lateSpendBlock.header.nTime.toNat := by
  have hunsigned : (lateSpendBlock.isProofOfStake ||
      !isBTC16BIPsEnabled mainParams.network lateSpendBlock.header.nTime) = false := by
    decide +kernel
  refine ⟨?_, lateSpend, by simp [lateSpendBlock], by decide⟩
  rw [checkBlock_congr_verify verify (fun _ _ _ => false) (fun h => by simp [hunsigned] at h),
    checkBlock_lateSpendBlock]

/-- A mined proof-of-work block whose coinbase pays one coin. -/
def paidPowBlock : CBlock :=
  let vtx := [coinbaseAt coin 1700000000]
  ⟨minedHeader vtx 4196417, vtx, [], false⟩

/-- A block whose coinbase pays one unit over `MAX_MINT_PROOF_OF_WORK * COIN`. -/
def overpaidPowBlock : CBlock :=
  let vtx := [coinbaseAt (maxMintProofOfWork * coin + 1) 1700000000]
  ⟨minedHeader vtx 0, vtx, [], false⟩

/-- `CheckBlock` accepts a mined proof-of-work block whose coinbase pays one coin, while
`GetProofOfWorkReward`, which `CreateNewBlock` pays, is zero; the limit it enforces is
`MAX_MINT_PROOF_OF_WORK * COIN`, and its rejection message reports zero instead. -/
theorem checkBlock_pow_reward_cap (verify : List UInt8 → Uint256 → List UInt8 → Bool) :
    (checkBlock cHash256 verify mainParams paidPowBlock true true true).1 = .ok () ∧
      paidPowBlock.isProofOfWork = true ∧
      (paidPowBlock.vtx.headD (coinbaseAt 0 0)).getValueOut = .ok coin ∧
      getProofOfWorkReward paidPowBlock.header.nBits paidPowBlock.header.nTime = 0 ∧
      checkBlockContents cHash256 mainParams overpaidPowBlock false false =
        .error (.invalid .blockConsensus "bad-cb-amount"
          "CheckBlock() : coinbase reward exceeded 200000.000001 > 0.00") := by
  have hunsigned : (paidPowBlock.isProofOfStake ||
      !isBTC16BIPsEnabled mainParams.network paidPowBlock.header.nTime) = false := by
    decide +kernel
  refine ⟨?_, by decide, by decide, rfl, by decide +kernel⟩
  rw [checkBlock_congr_verify verify (fun _ _ _ => false) (fun h => by simp [hunsigned] at h)]
  decide +kernel

/-- A coinstake spending the main genesis hash's first output, with an empty first
output and one coin to `OP_1`, which is no pay-to-pubkey script. -/
def plainCoinStake : CTransaction :=
  { vin := [{ prevout := ⟨mainConsensus.hashGenesisBlock, 0⟩, scriptSig := [],
              nSequence := 0xffffffff, scriptWitness := ⟨[]⟩ }]
    vout := [⟨0, []⟩, ⟨1000000, [0x51]⟩]
    nVersion := 1
    nTime := 1700000000
    nLockTime := 0 }

/-- A proof-of-stake block whose signing output has no key, with a junk signature. -/
def unsignableStakeBlock : CBlock :=
  let vtx := [coinbaseAt 0 1700000000, plainCoinStake]
  ⟨{ minedHeader vtx 0 with nFlags := CBlockIndex.blockProofOfStake }, vtx, [0x30], false⟩

/-- The full call on the unmarked `unsignableStakeBlock` fails with `bad-blk-sign`, after
marking it. -/
theorem checkBlock_unsignableStakeBlock (verify : List UInt8 → Uint256 → List UInt8 → Bool) :
    checkBlock cHash256 verify mainParams unsignableStakeBlock true true true =
      (.error (.invalid .blockConsensus "bad-blk-sign" "CheckBlock : bad block signature"),
        { unsignableStakeBlock with fChecked := true }) := by
  have hkey : Script.matchPayToPubkey unsignableStakeBlock.signingTxOut.scriptPubKey = none := by
    decide +kernel
  have hsig := @checkBlockSignature_of_not_pubKey cHash256 mainParams unsignableStakeBlock
    verify (fun _ _ _ => false) hkey
  rw [checkBlock_congr_verify verify (fun _ _ _ => false) (fun _ => hsig)]
  decide +kernel

/-- The memo of `CheckBlock` outlives a failed signature: a call without the signature
check marks the block, the full call on the marked block returns `true`, and the same
call on the unmarked copy fails with `bad-blk-sign`. -/
theorem checkBlock_memo_skips_signature (verify : List UInt8 → Uint256 → List UInt8 → Bool) :
    checkBlock cHash256 verify mainParams unsignableStakeBlock true true false =
        (.ok (), { unsignableStakeBlock with fChecked := true }) ∧
      (checkBlock cHash256 verify mainParams { unsignableStakeBlock with fChecked := true }
        true true true).1 = .ok () ∧
      (checkBlock cHash256 verify mainParams unsignableStakeBlock true true true).1 =
        .error (.invalid .blockConsensus "bad-blk-sign" "CheckBlock : bad block signature") := by
  have hmarked := @checkBlock_of_fChecked cHash256 mainParams
    { unsignableStakeBlock with fChecked := true } true true true verify rfl
  refine ⟨?_, congrArg Prod.fst hmarked, congrArg Prod.fst (checkBlock_unsignableStakeBlock verify)⟩
  rw [checkBlock_congr_verify verify (fun _ _ _ => false) (fun h => by simp at h)]
  decide +kernel

end Sumcoin
