import Sumcoin.Coins.Coins
import Sumcoin.Validation.CheckBlock
import Sumcoin.Lib.Journal

/-!
# Taking a block back: `ApplyTxInUndo`, `DisconnectBlock` (`validation.cpp`)

`ConnectBlock` runs `UpdateCoins` on each transaction of a block in order: the inputs
are spent, their coins kept as the transaction's undo record (`CTxUndo`), and the
outputs added.  The record of the coinbase is dropped.  `DisconnectBlock` takes the
block back, last transaction first: it spends the outputs the block added, checking that
each is the coin `AddCoins` wrote, and puts back each spent input from its record with
`ApplyTxInUndo`, last input first.

A record at height 0 stands for the old undo format, which wrote the metadata only with
the last spend of a transaction: `ApplyTxInUndo` then takes the height, the type and the
time from another unspent output of the same transaction, and fails when there is none.

The coin updates are journals of writes (`Journal.applyWrites`): `UpdateCoins` erases the
inputs and writes the outputs, and `DisconnectBlock` writes back what each key held.  So
the two are inverse on views whose coins were created after the genesis block
(`disconnectBlock_connectBlockCoins`); a coin at height 0 is not put back
(`disconnectBlock_fails_heightZeroSpend`).

## Main definitions

* `DisconnectResult`, `CoinsTip`, `accessByTxid`, `applyTxInUndo`.
* `connectTx`, `connectBlockCoins`, `spendOutput`, `disconnectOutputs`, `restoreInputs`,
  `disconnectTxs`, `disconnectBlock`.
* `Coin.Stored`, `CCoinsViewCache.Stored`: the coins a view built after the genesis block
  holds.
-/

namespace Sumcoin

/-- `DisconnectResult`. -/
inductive DisconnectResult where
  | ok
  | unclean
  | failed
  deriving DecidableEq, Repr

/-- A coins view with the block it reflects (`GetBestBlock()`). -/
structure CoinsTip where
  coins : CCoinsViewCache
  hashBlock : Uint256

/-- `MIN_TRANSACTION_OUTPUT_WEIGHT`: the weight of a serialized `CTxOut()`. -/
def minTransactionOutputWeight : Nat := witnessScaleFactor * (Ser.txOut ⟨-1, []⟩).length

/-- `MAX_OUTPUTS_PER_BLOCK`. -/
def maxOutputsPerBlock : Nat := maxBlockWeight / minTransactionOutputWeight

/-- `AccessByTxid(view, txid)`: the first unspent output of `txid` among the first
`MAX_OUTPUTS_PER_BLOCK` indices, or `coinEmpty`. -/
def accessByTxid (view : CCoinsViewCache) (txid : Uint256) : Coin :=
  ((List.range maxOutputsPerBlock).findSome? fun n =>
    let alternate := view.accessCoin ⟨txid, n.toUInt32⟩
    if !alternate.isSpent then some alternate else none).getD Coin.empty

/-- `ApplyTxInUndo(undo, view, out)`: the coin put back at `out`, clean when nothing was
there.  A record at height 0 takes its metadata from another unspent output of the same
transaction, and fails without one. -/
def applyTxInUndo (undo : Coin) (view : CCoinsViewCache) (out : COutPoint) :
    Except String (DisconnectResult × CCoinsViewCache) :=
  let fClean := !view.haveCoin out
  let restored : Option Coin :=
    if undo.nHeight = 0 then
      let alternate := accessByTxid view out.hash
      if !alternate.isSpent then
        some { undo with
          nHeight := alternate.nHeight
          fCoinBase := alternate.fCoinBase
          fCoinStake := alternate.fCoinStake
          nTime := alternate.nTime }
      else none
    else some undo
  match restored with
  | none => pure (.failed, view)
  | some undo => do
    let view ← view.addCoin out undo (!fClean)
    pure (if fClean then .ok else .unclean, view)

section

variable (hash256 : List UInt8 → Uint256)

/-- Transaction `i` of `ConnectBlock`'s loop: `UpdateCoins` at the block's height, its undo
record kept unless it is the first (`i == 0 ? undoDummy : blockundo.vtxundo.back()`). -/
def connectTx (nHeight : Nat) :
    CCoinsViewCache × List (List Coin) → CTransaction × Nat →
      Except String (CCoinsViewCache × List (List Coin)) :=
  fun (view, vtxundo) (tx, i) => do
    let (view, txundo) ← updateCoins hash256 view tx nHeight
    pure (view, if i = 0 then vtxundo else vtxundo ++ [txundo])

/-- The `UpdateCoins` calls of `ConnectBlock(fJustCheck = false)`: each transaction in
order, and the undo data `blockundo.vtxundo`. -/
def connectBlockCoins (view : CCoinsViewCache) (vtx : List CTransaction) (nHeight : Nat) :
    Except String (CCoinsViewCache × List (List Coin)) :=
  vtx.zipIdx.foldlM (connectTx hash256 nHeight) (view, [])

/-- Output `o` in the output loop of `DisconnectBlock` for `tx`: an output that can be
spent is spent, and the result stays clean only if it was there as `AddCoins` wrote it
(the time is not compared). -/
def spendOutput (tx : CTransaction) (nHeight : Nat) :
    Bool × CCoinsViewCache → CTxOut × Nat → Bool × CCoinsViewCache :=
  fun (fClean, view) (txout, o) =>
    if Script.isUnspendable txout.scriptPubKey then (fClean, view)
    else
      match view.spendCoin ⟨tx.getHash hash256, o.toUInt32⟩ with
      | none => (false, view)
      | some (view', coin) =>
        (fClean && txout == coin.out && nHeight == coin.nHeight &&
          tx.isCoinBase == coin.fCoinBase && tx.isCoinStake == coin.fCoinStake, view')

/-- The output loop of `DisconnectBlock` for `tx`. -/
def disconnectOutputs (tx : CTransaction) (nHeight : Nat) (fClean : Bool)
    (view : CCoinsViewCache) : Bool × CCoinsViewCache :=
  tx.vout.zipIdx.foldl (spendOutput hash256 tx nHeight) (fClean, view)

/-- The input loop of `DisconnectBlock` for one transaction over its inputs and their
records, last input first: `none` when an `ApplyTxInUndo` fails. -/
def restoreInputs (fClean : Bool) :
    List (COutPoint × Coin) → CCoinsViewCache → Except String (Option (Bool × CCoinsViewCache))
  | [], view => pure (some (fClean, view))
  | (out, undo) :: rest, view => do
    let (res, view) ← applyTxInUndo undo view out
    if res = .failed then pure none
    else restoreInputs (fClean && res ≠ .unclean) rest view

/-- The transaction loop of `DisconnectBlock`, last transaction first, each with its undo
record (`none` for the coinbase): `none` when the block cannot be taken back. -/
def disconnectTxs (nHeight : Nat) (fClean : Bool) :
    List (CTransaction × Option (List Coin)) → CCoinsViewCache →
      Except String (Option (Bool × CCoinsViewCache))
  | [], view => pure (some (fClean, view))
  | (tx, txundo) :: rest, view =>
    let (fClean, view) := disconnectOutputs hash256 tx nHeight fClean view
    match txundo with
    | none => disconnectTxs nHeight fClean rest view
    | some txundo =>
      if txundo.length ≠ tx.vin.length then pure none
      else do
        let restored ← restoreInputs fClean ((tx.vin.map (·.prevout)).zip txundo).reverse view
        match restored with
        | none => pure none
        | some (fClean, view) => disconnectTxs nHeight fClean rest view

/-- `DisconnectBlock(block, pindex, view)` with the undo data `blockUndo` read for
`pindex`, at `pindex->nHeight`, moving the best block to `pindex->pprev`.  The source
leaves the view indeterminate when it fails; the model returns it unchanged. -/
def disconnectBlock (block : CBlock) (blockUndo : List (List Coin)) (nHeight : Nat)
    (hashPrev : Uint256) (tip : CoinsTip) : Except String (DisconnectResult × CoinsTip) :=
  if blockUndo.length + 1 ≠ block.vtx.length then pure (.failed, tip)
  else do
    let undone ← disconnectTxs hash256 nHeight true
      (block.vtx.zip (none :: blockUndo.map some)).reverse tip.coins
    match undone with
    | none => pure (.failed, tip)
    | some (fClean, coins) => pure (if fClean then .ok else .unclean, ⟨coins, hashPrev⟩)

end

/-! ## Views as stores -/

namespace CCoinsViewCache

theorem insert_eq_update (view : CCoinsViewCache) (o : COutPoint) (coin : Coin) :
    view.insert o coin = Function.update view o (some coin) := by
  funext o'
  simp [insert, Function.update_apply]

theorem erase_eq_update (view : CCoinsViewCache) (o : COutPoint) :
    view.erase o = Function.update view o none := by
  funext o'
  simp [erase, Function.update_apply]

theorem spendCoin_eq_some {view view' : CCoinsViewCache} {o : COutPoint} {coin : Coin} :
    view.spendCoin o = some (view', coin) ↔
      view o = some coin ∧ view' = Function.update view o none := by
  unfold spendCoin
  cases h : view o with
  | none => simp
  | some c => simp [erase_eq_update, eq_comm, and_comm]

theorem spendCoin_eq_none {view : CCoinsViewCache} {o : COutPoint} :
    view.spendCoin o = none ↔ view o = none := by
  simp [spendCoin]

theorem haveCoin_eq_false {view : CCoinsViewCache} {o : COutPoint} :
    view.haveCoin o = false ↔ view o = none := by
  simp [haveCoin]

/-- A successful `AddCoin` checked that the coin is not spent, and stores it exactly when
its script can be spent. -/
theorem addCoin_eq_ok_iff {view view' : CCoinsViewCache} {o : COutPoint} {coin : Coin}
    {possibleOverwrite : Bool} :
    view.addCoin o coin possibleOverwrite = .ok view' ↔ coin.isSpent = false ∧
      if Script.isUnspendable coin.out.scriptPubKey then view' = view
      else (possibleOverwrite = false → view o = none) ∧
        view' = Function.update view o (some coin) := by
  unfold addCoin
  by_cases hspent : coin.isSpent
  · simp [hspent]
  · have hspent' : coin.isSpent = false := by simpa using hspent
    rw [if_neg hspent]
    by_cases hun : Script.isUnspendable coin.out.scriptPubKey
    · rw [if_pos hun, if_pos hun, Except.pure_eq_ok]
      simp [hspent', eq_comm]
    · rw [if_neg hun, if_neg hun]
      cases possibleOverwrite
      · cases h : view.haveCoin o
        · simp only [Bool.not_false, Bool.and_false, Bool.false_eq_true, if_false,
            Except.pure_eq_ok, insert_eq_update]
          simp [hspent', haveCoin_eq_false.mp h, eq_comm]
        · have hsome : view o ≠ none := by simpa [haveCoin, Option.isSome_iff_ne_none] using h
          simp [hsome]
      · simp only [Bool.not_true, Bool.false_and, Bool.false_eq_true, if_false,
          Except.pure_eq_ok, insert_eq_update]
        simp [hspent', eq_comm]

end CCoinsViewCache

/-! ## The coins of a view built after the genesis block -/

/-- A coin a view holds once it is built by blocks after the genesis block: `AddCoin`
stores only unspent coins whose script can be spent, and those blocks have positive
heights. -/
structure Coin.Stored (c : Coin) : Prop where
  unspent : c.isSpent = false
  spendable : Script.isUnspendable c.out.scriptPubKey = false
  height_pos : 0 < c.nHeight

/-- Every coin of the view is `Stored`. -/
def CCoinsViewCache.Stored (view : CCoinsViewCache) : Prop :=
  ∀ o c, view o = some c → c.Stored

theorem CCoinsViewCache.Stored.update_none {view : CCoinsViewCache} (h : view.Stored)
    (o : COutPoint) : CCoinsViewCache.Stored (Function.update view o none) := by
  intro o' c hc
  by_cases ho : o' = o
  · subst ho
    simp at hc
  · rw [Function.update_of_ne ho] at hc
    exact h o' c hc

theorem CCoinsViewCache.Stored.update_some {view : CCoinsViewCache} (h : view.Stored)
    (o : COutPoint) {coin : Coin} (hc : coin.Stored) :
    CCoinsViewCache.Stored (Function.update view o (some coin)) := by
  intro o' c hc'
  by_cases ho : o' = o
  · subst ho
    simp only [Function.update_self, Option.some.injEq] at hc'
    exact hc' ▸ hc
  · rw [Function.update_of_ne ho] at hc'
    exact h o' c hc'

section

variable {hash256 : List UInt8 → Uint256}

/-! ## `AddCoins` as a journal of writes -/

/-- Output `i` of `AddCoins`, as its loop runs it. -/
def addOutput (hash256 : List UInt8 → Uint256) (tx : CTransaction) (nHeight : Nat)
    (check : Bool) : CCoinsViewCache → CTxOut × Nat → Except String CCoinsViewCache :=
  fun view (txout, i) =>
    let o : COutPoint := ⟨tx.getHash hash256, i.toUInt32⟩
    let overwrite := if check then view.haveCoin o else tx.isCoinBase
    view.addCoin o (tx.outputCoin txout nHeight) overwrite

theorem addCoins_eq_foldlM (view : CCoinsViewCache) (tx : CTransaction) (nHeight : Nat)
    (check : Bool) :
    addCoins hash256 view tx nHeight check =
      tx.vout.zipIdx.foldlM (addOutput hash256 tx nHeight check) view := rfl

/-- The writes `AddCoins` makes over the outputs `outs` of `tx` with their indices: each
output that can be spent, as its coin under `(txid, i)`. -/
def outputWrites (hash256 : List UInt8 → Uint256) (tx : CTransaction) (nHeight : Nat)
    (outs : List (CTxOut × Nat)) : List (COutPoint × Option Coin) :=
  (outs.filter fun e => !Script.isUnspendable e.1.scriptPubKey).map
    fun e => (⟨tx.getHash hash256, e.2.toUInt32⟩, some (tx.outputCoin e.1 nHeight))

@[simp] theorem outputWrites_nil (tx : CTransaction) (nHeight : Nat) :
    outputWrites hash256 tx nHeight [] = [] := rfl

theorem outputWrites_cons (tx : CTransaction) (nHeight : Nat) (e : CTxOut × Nat)
    (outs : List (CTxOut × Nat)) :
    outputWrites hash256 tx nHeight (e :: outs) =
      if Script.isUnspendable e.1.scriptPubKey then outputWrites hash256 tx nHeight outs
      else (⟨tx.getHash hash256, e.2.toUInt32⟩, some (tx.outputCoin e.1 nHeight)) ::
        outputWrites hash256 tx nHeight outs := by
  unfold outputWrites
  cases h : Script.isUnspendable e.1.scriptPubKey <;> simp [h]

/-- The keys `outputWrites` writes are among the outputs' indices. -/
theorem mem_outputWrites {tx : CTransaction} {nHeight : Nat} {outs : List (CTxOut × Nat)}
    {w : COutPoint × Option Coin} (hw : w ∈ outputWrites hash256 tx nHeight outs) :
    ∃ e ∈ outs, Script.isUnspendable e.1.scriptPubKey = false ∧
      w = (⟨tx.getHash hash256, e.2.toUInt32⟩, some (tx.outputCoin e.1 nHeight)) := by
  obtain ⟨e, he, rfl⟩ := List.mem_map.mp hw
  obtain ⟨he, hsp⟩ := List.mem_filter.mp he
  exact ⟨e, he, by simpa using hsp, rfl⟩

/-- Outputs at distinct indices are written at distinct keys. -/
theorem nodup_outputWrites (tx : CTransaction) (nHeight : Nat) {outs : List (CTxOut × Nat)}
    (hnd : (outs.map fun e => e.2.toUInt32).Nodup) :
    ((outputWrites hash256 tx nHeight outs).map Prod.fst).Nodup := by
  unfold outputWrites
  have hsub : ((outs.filter fun e => !Script.isUnspendable e.1.scriptPubKey).map
      fun e => e.2.toUInt32).Sublist (outs.map fun e => e.2.toUInt32) :=
    List.filter_sublist.map _
  have hinj : Function.Injective fun n : UInt32 => (⟨tx.getHash hash256, n⟩ : COutPoint) :=
    fun a b h => by simpa using h
  simpa [List.map_map, Function.comp_def] using (hnd.sublist hsub).map hinj

/-- Indices of a transaction's outputs are distinct as `uint32_t`s while it has at most
`2 ^ 32` outputs. -/
theorem nodup_toUInt32_zipIdx {α : Type _} {l : List α} (h : l.length ≤ 2 ^ 32) :
    (l.zipIdx.map fun e => e.2.toUInt32).Nodup := by
  have hmap : (l.zipIdx.map fun e => e.2.toUInt32) = (List.range l.length).map Nat.toUInt32 := by
    rw [List.range_eq_range', ← List.zipIdx_map_snd 0 l, List.map_map]
    rfl
  rw [hmap]
  refine List.Nodup.map_on ?_ List.nodup_range
  intro x hx y hy hxy
  have hx' := List.mem_range.mp hx
  have hy' := List.mem_range.mp hy
  have := congrArg UInt32.toNat hxy
  rw [UInt32.toNat_ofNat', UInt32.toNat_ofNat', Nat.mod_eq_of_lt (by omega),
    Nat.mod_eq_of_lt (by omega)] at this
  exact this

/-- A write of `outputWrites` over other outputs is at another key than output `e`. -/
theorem key_ne_of_mem_outputWrites {tx : CTransaction} {nHeight : Nat} {e : CTxOut × Nat}
    {outs : List (CTxOut × Nat)} (he : e.2.toUInt32 ∉ outs.map fun e => e.2.toUInt32)
    {w : COutPoint × Option Coin} (hw : w ∈ outputWrites hash256 tx nHeight outs) :
    w.1 ≠ ⟨tx.getHash hash256, e.2.toUInt32⟩ := by
  obtain ⟨e', he', -, rfl⟩ := mem_outputWrites hw
  intro heq
  exact he (List.mem_map.mpr ⟨e', he', by simpa using heq⟩)

/-- A successful `AddCoins` loop is the journal `outputWrites`; with `check` off on a
transaction that is not a coinbase, each key it writes was empty before. -/
theorem foldlM_addOutput_eq_ok {tx : CTransaction} {nHeight : Nat} {check : Bool} :
    ∀ {outs : List (CTxOut × Nat)} {S W' : CCoinsViewCache},
      (outs.map fun e => e.2.toUInt32).Nodup →
      outs.foldlM (addOutput hash256 tx nHeight check) S = .ok W' →
        W' = Journal.applyWrites S (outputWrites hash256 tx nHeight outs) ∧
          (check = false → tx.isCoinBase = false →
            ∀ w ∈ outputWrites hash256 tx nHeight outs, S w.1 = none)
  | [], S, W', _, h => by
    simp only [List.foldlM_nil, Except.pure_eq_ok] at h
    exact ⟨h.symm, fun _ _ w hw => absurd hw List.not_mem_nil⟩
  | e :: outs, S, W', hnd, h => by
    rw [List.map_cons, List.nodup_cons] at hnd
    simp only [List.foldlM_cons, Except.bind_eq_ok] at h
    obtain ⟨S₁, hstep, hrest⟩ := h
    obtain ⟨hW', hfresh⟩ := foldlM_addOutput_eq_ok hnd.2 hrest
    simp only [addOutput, CCoinsViewCache.addCoin_eq_ok_iff, CTransaction.outputCoin] at hstep
    obtain ⟨-, hstep⟩ := hstep
    rw [outputWrites_cons]
    by_cases hun : Script.isUnspendable e.1.scriptPubKey
    · rw [if_pos hun] at hstep ⊢
      subst hstep
      exact ⟨hW', hfresh⟩
    · rw [if_neg hun] at hstep ⊢
      obtain ⟨hempty, rfl⟩ := hstep
      refine ⟨by rw [hW', Journal.applyWrites_cons]; rfl, ?_⟩
      intro hcheck hcb w hw
      rcases List.mem_cons.mp hw with rfl | hw
      · exact hempty (by simp [hcheck, hcb])
      · have := hfresh hcheck hcb w hw
        rwa [Function.update_of_ne (key_ne_of_mem_outputWrites hnd.1 hw)] at this

/-- Over outputs at distinct indices, each present as `AddCoins` wrote it, the output loop
of `DisconnectBlock` stays clean and erases what `outputWrites` wrote. -/
theorem foldl_spendOutput {tx : CTransaction} {nHeight : Nat} :
    ∀ {outs : List (CTxOut × Nat)} {W : CCoinsViewCache} {fClean : Bool},
      (outs.map fun e => e.2.toUInt32).Nodup →
      (∀ w ∈ outputWrites hash256 tx nHeight outs, W w.1 = w.2) →
        outs.foldl (spendOutput hash256 tx nHeight) (fClean, W) =
          (fClean, Journal.applyWrites W
            ((outputWrites hash256 tx nHeight outs).map fun w => (w.1, none)))
  | [], _, _, _, _ => rfl
  | (txout, i) :: outs, W, fClean, hnd, hpres => by
    rw [List.map_cons, List.nodup_cons] at hnd
    rw [outputWrites_cons] at hpres ⊢
    rw [List.foldl_cons]
    by_cases hun : Script.isUnspendable txout.scriptPubKey
    · rw [if_pos hun] at hpres ⊢
      simp only [spendOutput, if_pos hun]
      exact foldl_spendOutput hnd.2 hpres
    · rw [if_neg hun] at hpres ⊢
      have hkey := hpres _ List.mem_cons_self
      have hspend := CCoinsViewCache.spendCoin_eq_some.mpr ⟨hkey, rfl⟩
      simp only [spendOutput, if_neg hun, hspend, CTransaction.outputCoin, beq_self_eq_true,
        Bool.and_true]
      rw [List.map_cons, Journal.applyWrites_cons]
      refine foldl_spendOutput hnd.2 fun w hw => ?_
      rw [Function.update_of_ne (key_ne_of_mem_outputWrites hnd.1 hw)]
      exact hpres w (List.mem_cons_of_mem _ hw)

/-- **Outputs.**  `DisconnectBlock`'s output loop takes back what `AddCoins` added, when
each key `AddCoins` wrote was empty before. -/
theorem disconnectOutputs_addCoins {S W' : CCoinsViewCache} {tx : CTransaction} {nHeight : Nat}
    {check : Bool} (hvout : tx.vout.length ≤ 2 ^ 32)
    (hfresh : ∀ w ∈ outputWrites hash256 tx nHeight tx.vout.zipIdx, S w.1 = none)
    (h : addCoins hash256 S tx nHeight check = .ok W') (fClean : Bool) :
    disconnectOutputs hash256 tx nHeight fClean W' = (fClean, S) := by
  have hnd := nodup_toUInt32_zipIdx hvout
  have hkeys := @nodup_outputWrites hash256 tx nHeight _ hnd
  rw [addCoins_eq_foldlM] at h
  obtain ⟨rfl, -⟩ := foldlM_addOutput_eq_ok hnd h
  rw [disconnectOutputs,
    foldl_spendOutput hnd fun w hw => Journal.applyWrites_of_mem hkeys hw]
  -- erasing what was written is writing back the empty old values
  have hlog : ((outputWrites hash256 tx nHeight tx.vout.zipIdx).map fun w => (w.1, none)) =
      (outputWrites hash256 tx nHeight tx.vout.zipIdx).map fun w => (w.1, S w.1) :=
    List.map_congr_left fun w hw => by rw [hfresh w hw]
  rw [hlog, Journal.applyWrites_restore S hkeys]

theorem CCoinsViewCache.Stored.addCoin {view view' : CCoinsViewCache} (hview : view.Stored)
    {o : COutPoint} {coin : Coin} {possibleOverwrite : Bool} (hh : 0 < coin.nHeight)
    (h : view.addCoin o coin possibleOverwrite = .ok view') : view'.Stored := by
  obtain ⟨hspent, h⟩ := CCoinsViewCache.addCoin_eq_ok_iff.mp h
  by_cases hun : Script.isUnspendable coin.out.scriptPubKey
  · rw [if_pos hun] at h
    exact h ▸ hview
  · rw [if_neg hun] at h
    obtain ⟨-, rfl⟩ := h
    exact hview.update_some o ⟨hspent, by simpa using hun, hh⟩

/-- `AddCoins` at a positive height keeps a view's coins `Stored`. -/
theorem CCoinsViewCache.Stored.addCoins {view view' : CCoinsViewCache} (hview : view.Stored)
    {tx : CTransaction} {nHeight : Nat} {check : Bool} (hh : 0 < nHeight)
    (h : addCoins hash256 view tx nHeight check = .ok view') : view'.Stored := by
  rw [addCoins_eq_foldlM] at h
  refine Except.foldlM_inv CCoinsViewCache.Stored ?_ hview h
  rintro v ⟨txout, i⟩ v' hv hstep
  exact hv.addCoin hh hstep

/-! ## The inputs of `UpdateCoins` as a journal -/

/-- Input `txin` of `UpdateCoins`, as its loop runs it. -/
def spendInput : CCoinsViewCache × List Coin → CTxIn →
    Except String (CCoinsViewCache × List Coin) :=
  fun (view, undo) txin =>
    match view.spendCoin txin.prevout with
    | some (view', coin) => pure (view', undo ++ [coin])
    | none => throw "assert(is_spent)"

/-- `UpdateCoins` is its input loop, unless the transaction is a coinbase, and then
`AddCoins`. -/
theorem updateCoins_eq_bind (W : CCoinsViewCache) (tx : CTransaction) (nHeight : Nat) :
    updateCoins hash256 W tx nHeight =
      (if tx.isCoinBase then pure (W, []) else tx.vin.foldlM spendInput (W, [])) >>= fun r =>
        addCoins hash256 r.1 tx nHeight false >>= fun view => pure (view, r.2) := by
  unfold updateCoins
  by_cases hcb : tx.isCoinBase
  · rw [if_pos hcb, if_pos hcb]
  · rw [if_neg hcb, if_neg hcb]
    rfl

theorem updateCoins_eq_ok {W W' : CCoinsViewCache} {tx : CTransaction} {nHeight : Nat}
    {u : List Coin} :
    updateCoins hash256 W tx nHeight = .ok (W', u) ↔
      ∃ S, (if tx.isCoinBase then pure (W, []) else tx.vin.foldlM spendInput (W, [])) =
        .ok (S, u) ∧ addCoins hash256 S tx nHeight false = .ok W' := by
  rw [updateCoins_eq_bind, Except.bind_eq_ok]
  constructor
  · rintro ⟨⟨S, u'⟩, hin, hout⟩
    obtain ⟨v, hadd, hp⟩ := Except.bind_eq_ok.mp hout
    obtain ⟨rfl, rfl⟩ := Prod.mk.inj (Except.pure_eq_ok.mp hp)
    exact ⟨S, hin, hadd⟩
  · rintro ⟨S, hin, hadd⟩
    exact ⟨(S, u), hin, Except.bind_eq_ok.mpr ⟨W', hadd, rfl⟩⟩

/-- A successful input loop of `UpdateCoins` erases the inputs, which are therefore
distinct, and records the coin each held. -/
theorem foldlM_spendInput_eq_ok :
    ∀ {vin : List CTxIn} {W S : CCoinsViewCache} {acc u : List Coin},
      vin.foldlM spendInput (W, acc) = .ok (S, u) →
        ∃ cs, u = acc ++ cs ∧ cs.length = vin.length ∧
          (∀ e ∈ (vin.map (·.prevout)).zip cs, W e.1 = some e.2) ∧
          (vin.map (·.prevout)).Nodup ∧
          S = Journal.applyWrites W (vin.map fun txin => (txin.prevout, none))
  | [], W, S, acc, u, h => by
    simp only [List.foldlM_nil, Except.pure_eq_ok, Prod.mk.injEq] at h
    obtain ⟨rfl, rfl⟩ := h
    exact ⟨[], by simp, rfl, by simp, List.nodup_nil, rfl⟩
  | txin :: vin, W, S, acc, u, h => by
    simp only [List.foldlM_cons, Except.bind_eq_ok] at h
    obtain ⟨⟨W₁, acc₁⟩, hstep, hrest⟩ := h
    cases hsp : W.spendCoin txin.prevout with
    | none => simp [spendInput, hsp] at hstep
    | some r =>
      obtain ⟨W₁', c⟩ := r
      simp only [spendInput, hsp, Except.pure_eq_ok, Prod.mk.injEq] at hstep
      obtain ⟨rfl, rfl⟩ := hstep
      obtain ⟨hcoin, rfl⟩ := CCoinsViewCache.spendCoin_eq_some.mp hsp
      obtain ⟨cs, rfl, hlen, hall, hnd, rfl⟩ := foldlM_spendInput_eq_ok hrest
      -- an input after the first was still unspent once the first was spent
      have hne : ∀ e ∈ (vin.map (·.prevout)).zip cs, e.1 ≠ txin.prevout := by
        intro e he heq
        have := hall e he
        rw [heq, Function.update_self] at this
        cases this
      have hkeys : (vin.map (·.prevout)) = ((vin.map (·.prevout)).zip cs).map Prod.fst :=
        (List.map_fst_zip (by simp [hlen])).symm
      refine ⟨c :: cs, by simp, by simp [hlen], ?_, ?_, by simp [Journal.applyWrites_cons]⟩
      · intro e he
        rcases List.mem_cons.mp he with rfl | he
        · exact hcoin
        · rw [← hall e he, Function.update_of_ne (hne e he)]
      · rw [List.map_cons, List.nodup_cons]
        refine ⟨fun hmem => ?_, hnd⟩
        rw [hkeys] at hmem
        obtain ⟨e, he, heq⟩ := List.mem_map.mp hmem
        exact hne e he heq

/-- `ApplyTxInUndo` of a `Stored` coin at an empty key puts it there, cleanly. -/
theorem applyTxInUndo_of_none {undo : Coin} {view : CCoinsViewCache} {out : COutPoint}
    (hout : view out = none) (hundo : undo.Stored) :
    applyTxInUndo undo view out = .ok (.ok, Function.update view out (some undo)) := by
  have hhave : view.haveCoin out = false := CCoinsViewCache.haveCoin_eq_false.mpr hout
  have hadd : view.addCoin out undo false = .ok (Function.update view out (some undo)) :=
    CCoinsViewCache.addCoin_eq_ok_iff.mpr ⟨hundo.unspent, by simp [hundo.spendable, hout]⟩
  simp [applyTxInUndo, hhave, Nat.pos_iff_ne_zero.mp hundo.height_pos, hadd]

/-- `AccessByTxid` finds nothing when no output of the transaction is in the view. -/
theorem accessByTxid_of_forall_none {view : CCoinsViewCache} {txid : Uint256}
    (h : ∀ n, view ⟨txid, n⟩ = none) : accessByTxid view txid = Coin.empty := by
  unfold accessByTxid
  rw [List.findSome?_eq_none_iff.mpr fun n _ => by
    simp [CCoinsViewCache.accessCoin, h, Coin.empty, Coin.isSpent, CTxOut.isNull]]
  rfl

/-- A record at height 0 fails when no output of its transaction is left in the view. -/
theorem applyTxInUndo_heightZero {undo : Coin} {view : CCoinsViewCache} {out : COutPoint}
    (h0 : undo.nHeight = 0) (h : ∀ n, view ⟨out.hash, n⟩ = none) :
    applyTxInUndo undo view out = .ok (.failed, view) := by
  simp [applyTxInUndo, h0, accessByTxid_of_forall_none h, Coin.empty, Coin.isSpent,
    CTxOut.isNull]

theorem restoreInputs_cons_failed {fClean : Bool} {out : COutPoint} {undo : Coin}
    {view view' : CCoinsViewCache} (L : List (COutPoint × Coin))
    (h : applyTxInUndo undo view out = .ok (.failed, view')) :
    restoreInputs fClean ((out, undo) :: L) view = .ok none := by
  simp [restoreInputs, h]

/-- The input loop of `DisconnectBlock` puts back `Stored` coins at distinct empty keys,
cleanly. -/
theorem restoreInputs_eq_ok {fClean : Bool} :
    ∀ {L : List (COutPoint × Coin)} {T : CCoinsViewCache}, (L.map Prod.fst).Nodup →
      (∀ e ∈ L, T e.1 = none) → (∀ e ∈ L, e.2.Stored) →
        restoreInputs fClean L T =
          .ok (some (fClean, Journal.applyWrites T (L.map fun e => (e.1, some e.2))))
  | [], _, _, _, _ => rfl
  | (out, undo) :: L, T, hnd, hnone, hstored => by
    rw [List.map_cons, List.nodup_cons] at hnd
    have hstep := applyTxInUndo_of_none (hnone _ List.mem_cons_self)
      (hstored _ List.mem_cons_self)
    have hfresh : ∀ e ∈ L, Function.update T out (some undo) e.1 = none := by
      intro e he
      have hne : e.1 ≠ out := by
        intro heq
        apply hnd.1
        show out ∈ L.map Prod.fst
        rw [← heq]
        exact List.mem_map_of_mem he
      rw [Function.update_of_ne hne]
      exact hnone e (List.mem_cons_of_mem _ he)
    have hrest := @restoreInputs_eq_ok fClean L _ hnd.2 hfresh
      (fun e he => hstored e (List.mem_cons_of_mem _ he))
    simp [restoreInputs, hstep, hrest, Journal.applyWrites_cons]

/-- The keys the input loop of `UpdateCoins` erases are the inputs. -/
theorem map_fst_prevoutWrites (vin : List CTxIn) :
    (vin.map fun txin => (txin.prevout, (none : Option Coin))).map Prod.fst =
      vin.map (·.prevout) := by
  simp [Function.comp_def]

/-- **Inputs.**  Putting back, last first, the coins the input loop of `UpdateCoins`
recorded restores the view it started from, when that view's coins are `Stored`. -/
theorem restoreInputs_spendInputs {W S : CCoinsViewCache} {vin : List CTxIn} {u : List Coin}
    (hW : W.Stored) (h : vin.foldlM spendInput (W, []) = .ok (S, u)) (fClean : Bool) :
    u.length = vin.length ∧
      restoreInputs fClean ((vin.map (·.prevout)).zip u).reverse S = .ok (some (fClean, W)) := by
  obtain ⟨u, rfl, hlen, hcoins, hnd, rfl⟩ := foldlM_spendInput_eq_ok h
  refine ⟨hlen, ?_⟩
  set ins := vin.map (·.prevout)
  have hfst : (ins.zip u).map Prod.fst = ins := List.map_fst_zip (by simp [ins, hlen])
  -- the input loop erased the inputs
  have hws : (vin.map fun txin => (txin.prevout, (none : Option Coin))) =
      ins.map fun k => (k, none) := by
    simp [ins]
  have hwkeys : ((ins.map fun k => (k, (none : Option Coin))).map Prod.fst) = ins := by
    simp [Function.comp_def]
  rw [hws]
  have hspent : ∀ e ∈ (ins.zip u).reverse,
      Journal.applyWrites W (ins.map fun k => (k, none)) e.1 = none := by
    intro e he
    have hk : e.1 ∈ ins := hfst ▸ List.mem_map_of_mem (List.mem_reverse.mp he)
    exact Journal.applyWrites_of_mem (by rw [hwkeys]; exact hnd) (List.mem_map_of_mem hk)
  have hnd' : (((ins.zip u).reverse).map Prod.fst).Nodup := by
    rw [List.map_reverse, hfst]
    exact List.nodup_reverse.mpr hnd
  have hlogkeys : (((ins.zip u).map fun e => (e.1, some e.2)).map Prod.fst).Nodup := by
    rw [List.map_map]
    show ((ins.zip u).map Prod.fst).Nodup
    rw [hfst]
    exact hnd
  -- the coins put back are the values the erased keys held
  have hlog : (ins.zip u).map (fun e => (e.1, some e.2)) =
      (ins.map fun k => (k, (none : Option Coin))).map fun w => (w.1, W w.1) := by
    calc (ins.zip u).map (fun e => (e.1, some e.2))
        = ((ins.zip u).map Prod.fst).map (fun k => (k, W k)) := by
          rw [List.map_map]
          exact List.map_congr_left fun e he => by simp [hcoins e he]
      _ = (ins.map fun k => (k, (none : Option Coin))).map fun w => (w.1, W w.1) := by
          rw [hfst]
          simp [Function.comp_def]
  rw [restoreInputs_eq_ok hnd' hspent fun e he => hW e.1 e.2 (hcoins e (List.mem_reverse.mp he)),
    List.map_reverse, Journal.applyWrites_reverse _ hlogkeys, hlog,
    Journal.applyWrites_restore W (by rw [hwkeys]; exact hnd)]

/-- `UpdateCoins` at a positive height keeps a view's coins `Stored`. -/
theorem CCoinsViewCache.Stored.updateCoins {W W' : CCoinsViewCache} (hW : W.Stored)
    {tx : CTransaction} {nHeight : Nat} {u : List Coin} (hh : 0 < nHeight)
    (h : Sumcoin.updateCoins hash256 W tx nHeight = .ok (W', u)) : W'.Stored := by
  obtain ⟨S, hin, hadd⟩ := updateCoins_eq_ok.mp h
  have hS : S.Stored := by
    by_cases hcb : tx.isCoinBase
    · rw [if_pos hcb, Except.pure_eq_ok, Prod.mk.injEq] at hin
      exact hin.1 ▸ hW
    · rw [if_neg hcb] at hin
      obtain ⟨-, -, -, -, hnd, rfl⟩ := foldlM_spendInput_eq_ok hin
      intro o c hc
      by_cases ho : o ∈ (tx.vin.map fun txin => (txin.prevout, (none : Option Coin))).map Prod.fst
      · obtain ⟨w, hw, rfl⟩ := List.mem_map.mp ho
        obtain ⟨txin, htxin, rfl⟩ := List.mem_map.mp hw
        rw [Journal.applyWrites_of_mem (by rwa [map_fst_prevoutWrites]) hw] at hc
        cases hc
      · rw [Journal.applyWrites_of_not_mem ho] at hc
        exact hW o c hc
  exact hS.addCoins hh hadd

/-! ## One transaction -/

/-- **One transaction.**  For a transaction that is not a coinbase, what `DisconnectBlock`
does takes back its `UpdateCoins` on a view whose coins are `Stored`: the outputs are
spent cleanly and the inputs put back from the undo record. -/
theorem disconnect_updateCoins {W W' : CCoinsViewCache} {tx : CTransaction} {nHeight : Nat}
    {u : List Coin} (hW : W.Stored) (hcb : tx.isCoinBase = false)
    (hvout : tx.vout.length ≤ 2 ^ 32) (h : updateCoins hash256 W tx nHeight = .ok (W', u))
    (fClean : Bool) :
    u.length = tx.vin.length ∧ ∃ S, disconnectOutputs hash256 tx nHeight fClean W' = (fClean, S) ∧
      restoreInputs fClean ((tx.vin.map (·.prevout)).zip u).reverse S =
        .ok (some (fClean, W)) := by
  obtain ⟨S, hin, hadd⟩ := updateCoins_eq_ok.mp h
  rw [if_neg (by simp [hcb])] at hin
  have hadd' := hadd
  rw [addCoins_eq_foldlM] at hadd'
  obtain ⟨-, hfresh⟩ := foldlM_addOutput_eq_ok (nodup_toUInt32_zipIdx hvout) hadd'
  obtain ⟨hlen, hrestore⟩ := restoreInputs_spendInputs hW hin fClean
  exact ⟨hlen, S, disconnectOutputs_addCoins hvout (hfresh rfl hcb) hadd fClean, hrestore⟩

/-- For the coinbase, which spends nothing, `DisconnectBlock`'s output loop takes back its
`UpdateCoins` when the outputs' keys were empty. -/
theorem disconnectOutputs_updateCoins_coinBase {W W' : CCoinsViewCache} {tx : CTransaction}
    {nHeight : Nat} {u : List Coin} (hcb : tx.isCoinBase = true)
    (hvout : tx.vout.length ≤ 2 ^ 32)
    (hfresh : ∀ w ∈ outputWrites hash256 tx nHeight tx.vout.zipIdx, W w.1 = none)
    (h : updateCoins hash256 W tx nHeight = .ok (W', u)) (fClean : Bool) :
    u = [] ∧ disconnectOutputs hash256 tx nHeight fClean W' = (fClean, W) := by
  obtain ⟨S, hin, hadd⟩ := updateCoins_eq_ok.mp h
  rw [if_pos hcb, Except.pure_eq_ok, Prod.mk.injEq] at hin
  obtain ⟨rfl, rfl⟩ := hin
  exact ⟨rfl, disconnectOutputs_addCoins hvout hfresh hadd fClean⟩

/-! ## The block -/

theorem connectTx_eq_ok {nHeight : Nat} {W W' : CCoinsViewCache} {acc acc' : List (List Coin)}
    {tx : CTransaction} {i : Nat} :
    connectTx hash256 nHeight (W, acc) (tx, i) = .ok (W', acc') ↔
      ∃ u, updateCoins hash256 W tx nHeight = .ok (W', u) ∧
        acc' = if i = 0 then acc else acc ++ [u] := by
  unfold connectTx
  constructor
  · intro h
    obtain ⟨⟨W₁, u⟩, hu, hp⟩ := Except.bind_eq_ok.mp h
    obtain ⟨rfl, rfl⟩ := Prod.mk.inj (Except.pure_eq_ok.mp hp)
    exact ⟨u, hu, rfl⟩
  · rintro ⟨u, hu, rfl⟩
    exact Except.bind_eq_ok.mpr ⟨(W', u), hu, rfl⟩

theorem disconnectTxs_cons_none {nHeight : Nat} {fClean fClean' : Bool}
    {view S : CCoinsViewCache} {tx : CTransaction} (L : List (CTransaction × Option (List Coin)))
    (hout : disconnectOutputs hash256 tx nHeight fClean view = (fClean', S)) :
    disconnectTxs hash256 nHeight fClean ((tx, none) :: L) view =
      disconnectTxs hash256 nHeight fClean' L S := by
  simp only [disconnectTxs, hout]

theorem disconnectTxs_cons_some {nHeight : Nat} {fClean fClean' fClean'' : Bool}
    {view S W : CCoinsViewCache} {tx : CTransaction} {txundo : List Coin}
    (L : List (CTransaction × Option (List Coin))) (hlen : txundo.length = tx.vin.length)
    (hout : disconnectOutputs hash256 tx nHeight fClean view = (fClean', S))
    (hin : restoreInputs fClean' ((tx.vin.map (·.prevout)).zip txundo).reverse S =
      .ok (some (fClean'', W))) :
    disconnectTxs hash256 nHeight fClean ((tx, some txundo) :: L) view =
      disconnectTxs hash256 nHeight fClean'' L W := by
  simp only [disconnectTxs, hout, hlen, ne_eq, not_true_eq_false, if_false, hin]
  rfl

theorem disconnectTxs_cons_some_of_none {nHeight : Nat} {fClean fClean' : Bool}
    {view S : CCoinsViewCache} {tx : CTransaction} {txundo : List Coin}
    (L : List (CTransaction × Option (List Coin))) (hlen : txundo.length = tx.vin.length)
    (hout : disconnectOutputs hash256 tx nHeight fClean view = (fClean', S))
    (hin : restoreInputs fClean' ((tx.vin.map (·.prevout)).zip txundo).reverse S = .ok none) :
    disconnectTxs hash256 nHeight fClean ((tx, some txundo) :: L) view = .ok none := by
  simp only [disconnectTxs, hout, hlen, ne_eq, not_true_eq_false, if_false, hin]
  rfl

/-- `DisconnectBlock`'s loop runs its list in two parts. -/
theorem disconnectTxs_append {nHeight : Nat} :
    ∀ {L₁ : List (CTransaction × Option (List Coin))} {fClean fClean' : Bool}
      {view view' : CCoinsViewCache} (L₂ : List (CTransaction × Option (List Coin))),
      disconnectTxs hash256 nHeight fClean L₁ view = .ok (some (fClean', view')) →
        disconnectTxs hash256 nHeight fClean (L₁ ++ L₂) view =
          disconnectTxs hash256 nHeight fClean' L₂ view'
  | [], fClean, fClean', view, view', L₂, h => by
    simp only [disconnectTxs, Except.pure_eq_ok, Option.some.injEq, Prod.mk.injEq] at h
    obtain ⟨rfl, rfl⟩ := h
    rfl
  | (tx, txundo) :: L₁, fClean, fClean', view, view', L₂, h => by
    rw [List.cons_append]
    rcases hout : disconnectOutputs hash256 tx nHeight fClean view with ⟨fClean₁, S⟩
    cases txundo with
    | none =>
      rw [disconnectTxs_cons_none L₁ hout] at h
      rw [disconnectTxs_cons_none _ hout]
      exact disconnectTxs_append L₂ h
    | some txundo =>
      by_cases hlen : txundo.length = tx.vin.length
      · cases hin : restoreInputs fClean₁ ((tx.vin.map (·.prevout)).zip txundo).reverse S with
        | error e => simp [disconnectTxs, hout, hlen, hin] at h
        | ok r =>
          cases r with
          | none => simp [disconnectTxs, hout, hlen, hin] at h
          | some r =>
            rw [disconnectTxs_cons_some L₁ hlen hout hin] at h
            rw [disconnectTxs_cons_some _ hlen hout hin]
            exact disconnectTxs_append L₂ h
      · simp [disconnectTxs, hlen] at h

/-- **The transactions after the coinbase.**  `ConnectBlock`'s loop past its first
transaction keeps every undo record, and `DisconnectBlock`'s loop over those
transactions, last first, takes them back on a view whose coins are `Stored`. -/
theorem disconnectTxs_connectTx {nHeight : Nat} (hh : 0 < nHeight) (fClean : Bool) :
    ∀ {txs : List CTransaction} {k : Nat} {W W' : CCoinsViewCache} {acc us : List (List Coin)},
      0 < k → W.Stored → (∀ tx ∈ txs, tx.isCoinBase = false) →
      (∀ tx ∈ txs, tx.vout.length ≤ 2 ^ 32) →
      (txs.zipIdx k).foldlM (connectTx hash256 nHeight) (W, acc) = .ok (W', us) →
        ∃ vs, us = acc ++ vs ∧ vs.length = txs.length ∧
          disconnectTxs hash256 nHeight fClean (txs.zip (vs.map some)).reverse W' =
            .ok (some (fClean, W))
  | [], k, W, W', acc, us, _, _, _, _, h => by
    simp only [List.zipIdx_nil, List.foldlM_nil, Except.pure_eq_ok, Prod.mk.injEq] at h
    obtain ⟨rfl, rfl⟩ := h
    exact ⟨[], by simp, rfl, rfl⟩
  | tx :: txs, k, W, W', acc, us, hk, hW, hcb, hvout, h => by
    rw [List.zipIdx_cons, List.foldlM_cons, Except.bind_eq_ok] at h
    obtain ⟨⟨W₁, acc₁⟩, hstep, hrest⟩ := h
    obtain ⟨u, hu, rfl⟩ := connectTx_eq_ok.mp hstep
    rw [if_neg (Nat.pos_iff_ne_zero.mp hk)] at hrest
    obtain ⟨vs, rfl, hlen, hdis⟩ := disconnectTxs_connectTx hh fClean (Nat.succ_pos k)
      (hW.updateCoins hh hu) (fun t ht => hcb t (List.mem_cons_of_mem _ ht))
      (fun t ht => hvout t (List.mem_cons_of_mem _ ht)) hrest
    obtain ⟨hulen, S, hout, hin⟩ := disconnect_updateCoins hW (hcb tx List.mem_cons_self)
      (hvout tx List.mem_cons_self) hu fClean
    refine ⟨u :: vs, by simp, by simp [hlen], ?_⟩
    rw [List.map_cons, List.zip_cons_cons, List.reverse_cons, disconnectTxs_append _ hdis,
      disconnectTxs_cons_some [] hulen hout hin]
    rfl

/-- The block, given what `CheckBlock` guarantees of its transactions: the first is the
coinbase and no other is, and none has more than `2 ^ 32` outputs. -/
theorem disconnectBlock_connectBlockCoins_of_shape {b : CBlock} {tx0 : CTransaction}
    {rest : List CTransaction} (hvtx : b.vtx = tx0 :: rest) (hcb0 : tx0.isCoinBase = true)
    (hcb : ∀ tx ∈ rest, tx.isCoinBase = false) (hvout : ∀ tx ∈ b.vtx, tx.vout.length ≤ 2 ^ 32)
    {nHeight : Nat} (hh : 0 < nHeight) {tip : CoinsTip} (hstored : tip.coins.Stored)
    (hnew : ∀ tx ∈ b.vtx, ∀ i < tx.vout.length, tip.coins ⟨tx.getHash hash256, i.toUInt32⟩ = none)
    {coins : CCoinsViewCache} {blockUndo : List (List Coin)}
    (hconnect : connectBlockCoins hash256 tip.coins b.vtx nHeight = .ok (coins, blockUndo))
    (hashBlock : Uint256) :
    disconnectBlock hash256 b blockUndo nHeight tip.hashBlock ⟨coins, hashBlock⟩ =
      .ok (.ok, tip) := by
  have hmem0 : tx0 ∈ b.vtx := hvtx ▸ List.mem_cons_self
  rw [connectBlockCoins, hvtx, List.zipIdx_cons, List.foldlM_cons, Except.bind_eq_ok] at hconnect
  obtain ⟨⟨W₁, acc₁⟩, hstep, hrest⟩ := hconnect
  obtain ⟨u0, hu0, rfl⟩ := connectTx_eq_ok.mp hstep
  rw [if_pos rfl] at hrest
  -- the coinbase's outputs are new in the view
  have hfresh : ∀ w ∈ outputWrites hash256 tx0 nHeight tx0.vout.zipIdx, tip.coins w.1 = none := by
    intro w hw
    obtain ⟨⟨txout, i⟩, he, -, rfl⟩ := mem_outputWrites hw
    exact hnew tx0 hmem0 i (by simpa using (List.mem_zipIdx he).2.1)
  obtain ⟨-, hout0⟩ :=
    disconnectOutputs_updateCoins_coinBase hcb0 (hvout tx0 hmem0) hfresh hu0 true
  obtain ⟨vs, rfl, hlen, hdis⟩ := disconnectTxs_connectTx hh true Nat.one_pos
    (hstored.updateCoins hh hu0) hcb (fun t ht => hvout t (hvtx ▸ List.mem_cons_of_mem _ ht)) hrest
  unfold disconnectBlock
  rw [hvtx, if_neg (by simp [hlen]), List.zip_cons_cons, List.reverse_cons,
    disconnectTxs_append _ hdis, disconnectTxs_cons_none [] hout0]
  rfl

/-! ## What `CheckBlock` guarantees of the transactions -/

theorem length_compactSize_pos (n : Nat) : 0 < (Ser.compactSize n).length := by
  unfold Ser.compactSize
  split_ifs <;> simp

/-- A serialized output is at least its eight-byte value and a one-byte count. -/
theorem le_length_txOut (txout : CTxOut) : 9 ≤ (Ser.txOut txout).length := by
  have := length_compactSize_pos txout.scriptPubKey.length
  simp only [Ser.txOut, Ser.bytes, List.length_append, Ser.length_le]
  omega

theorem mul_length_le_length_flatMap {α : Type} {f : α → List UInt8} {c : Nat}
    (hf : ∀ x, c ≤ (f x).length) : ∀ xs : List α, c * xs.length ≤ (xs.flatMap f).length
  | [] => by simp
  | x :: xs => by
    have hx := hf x
    have hxs := mul_length_le_length_flatMap hf xs
    rw [List.flatMap_cons, List.length_append, List.length_cons, Nat.mul_succ]
    omega

theorem le_length_transaction (fAllowWitness : Bool) (tx : CTransaction) :
    9 * tx.vout.length ≤ (Ser.transaction fAllowWitness tx).length := by
  have := mul_length_le_length_flatMap le_length_txOut tx.vout
  simp only [Ser.transaction, Ser.vector, List.length_append]
  omega

theorem length_le_length_flatMap {α : Type} {f : α → List UInt8} {x : α} {xs : List α}
    (hx : x ∈ xs) : (f x).length ≤ (xs.flatMap f).length := by
  obtain ⟨s, t, rfl⟩ := List.append_of_mem hx
  simp only [List.flatMap_append, List.flatMap_cons, List.length_append]
  omega

theorem length_transaction_le_block {tx : CTransaction} {b : CBlock} (htx : tx ∈ b.vtx)
    (nType nVersion : Nat) :
    (Ser.transaction (Ser.allowWitness nVersion) tx).length ≤ (Ser.block nType nVersion b).length := by
  have := @length_le_length_flatMap _ (Ser.transaction (Ser.allowWitness nVersion)) _ _ htx
  simp only [Ser.block, Ser.vector, List.length_append]
  omega

/-- Within `CheckBlock`'s size limit no transaction has more than `2 ^ 32` outputs, so
their indices are distinct as `uint32_t`s. -/
theorem vout_length_le_of_size {b : CBlock}
    (hsize : getSerializeSizeBlock b (protocolVersion ||| Ser.serializeTransactionNoWitness) 0 *
      witnessScaleFactor ≤ maxBlockWeight) {tx : CTransaction} (htx : tx ∈ b.vtx) :
    tx.vout.length ≤ 2 ^ 32 := by
  have h₁ := le_length_transaction (Ser.allowWitness 0) tx
  have h₂ := length_transaction_le_block htx (protocolVersion ||| Ser.serializeTransactionNoWitness) 0
  simp only [getSerializeSizeBlock, witnessScaleFactor, maxBlockWeight] at hsize
  omega

/-- A passing `CheckBlock` has a coinbase first and no other, within the size limit. -/
theorem checkBlockContents_shape {chainparams : ChainParams} {b : CBlock}
    {fCheckPOW fCheckMerkleRoot : Bool}
    (h : checkBlockContents hash256 chainparams b fCheckPOW fCheckMerkleRoot = .ok ()) :
    ∃ tx0 rest, b.vtx = tx0 :: rest ∧ tx0.isCoinBase = true ∧
      (∀ tx ∈ rest, tx.isCoinBase = false) ∧
      getSerializeSizeBlock b (protocolVersion ||| Ser.serializeTransactionNoWitness) 0 *
        witnessScaleFactor ≤ maxBlockWeight := by
  unfold checkBlockContents at h
  rcases hv : b.vtx with _ | ⟨tx0, rest⟩
  · cases fCheckMerkleRoot <;> simp [hv] at h
  · -- the three guards read off the peeled sequence, with and without the merkle check
    have hshape (hsize : ¬((tx0 :: rest).isEmpty ||
          decide ((tx0 :: rest).length * witnessScaleFactor > maxBlockWeight) ||
          decide (getSerializeSizeBlock b (protocolVersion ||| Ser.serializeTransactionNoWitness) 0 *
            witnessScaleFactor > maxBlockWeight)) = true)
        (hcb0 : ¬(!tx0.isCoinBase) = true) (hcb : ¬(rest.any fun x => x.isCoinBase) = true) :
        ∃ tx0' rest', tx0 :: rest = tx0' :: rest' ∧ tx0'.isCoinBase = true ∧
          (∀ tx ∈ rest', tx.isCoinBase = false) ∧
          getSerializeSizeBlock b (protocolVersion ||| Ser.serializeTransactionNoWitness) 0 *
            witnessScaleFactor ≤ maxBlockWeight := by
      refine ⟨tx0, rest, rfl, by simpa using hcb0, by simpa using hcb, ?_⟩
      simp only [Bool.or_eq_true, decide_eq_true_eq, not_or] at hsize
      exact Nat.le_of_not_lt hsize.2
    cases fCheckMerkleRoot <;>
      simp only [hv, Except.bind_eq_ok, Except.throw_bind, Except.ite_throw_eq_ok, if_true,
        if_false, Bool.false_eq_true] at h
    · obtain ⟨-, -, hsize, hcb0, hcb, -⟩ := h
      exact hshape hsize hcb0 hcb
    · obtain ⟨-, -, -, -, hsize, hcb0, hcb, -⟩ := h
      exact hshape hsize hcb0 hcb

/-- A passing `CheckBlock` ran `CheckTransaction` on every transaction. -/
theorem checkBlockContents_checkTransactions {chainparams : ChainParams} {b : CBlock}
    {fCheckPOW fCheckMerkleRoot : Bool}
    (h : checkBlockContents hash256 chainparams b fCheckPOW fCheckMerkleRoot = .ok ()) :
    ∀ tx ∈ b.vtx, checkTransaction tx = .ok () := by
  have hloop : checkTransactions hash256 b.vtx = .ok () := by
    unfold checkBlockContents at h
    rcases hv : b.vtx with _ | ⟨tx0, rest⟩
    · cases fCheckMerkleRoot <;> simp [hv] at h
    · cases fCheckMerkleRoot <;>
        simp only [hv, Except.bind_eq_ok, Except.throw_bind, Except.ite_throw_eq_ok, if_true,
          if_false, Bool.false_eq_true] at h
      · obtain ⟨-, -, -, -, -, -, -, -, -, hm⟩ := h
        -- the transaction loop runs inside the arm of the coinbase amount check
        split at hm
        · simp at hm
        · obtain ⟨-, hm⟩ := Except.ite_throw_eq_ok.mp hm
          obtain ⟨_, htx, -⟩ := Except.bind_eq_ok.mp hm
          exact htx
      · obtain ⟨-, -, -, -, -, -, -, -, -, -, -, hm⟩ := h
        split at hm
        · simp at hm
        · obtain ⟨-, hm⟩ := Except.ite_throw_eq_ok.mp hm
          obtain ⟨_, htx, -⟩ := Except.bind_eq_ok.mp hm
          exact htx
  intro tx htx
  have hall := Except.forM_eq_ok.mp hloop tx htx
  cases hc : checkTransaction tx with
  | ok u => rfl
  | error reason => simp [hc] at hall

/-! ## Connect, then disconnect -/

/-- **Undo.**  On a view whose coins were created after the genesis block, a block that
passes `CheckBlock`, is not the genesis block and adds no output the view holds, is taken
back by `DisconnectBlock` with the undo data its `UpdateCoins` calls wrote: the result is
clean, and the coins and the best block are those before the connect. -/
theorem disconnectBlock_connectBlockCoins {chainparams : ChainParams} {b : CBlock}
    {fCheckPOW fCheckMerkleRoot : Bool}
    (hcheck : checkBlockContents hash256 chainparams b fCheckPOW fCheckMerkleRoot = .ok ())
    {nHeight : Nat} (hh : 0 < nHeight) {tip : CoinsTip} (hstored : tip.coins.Stored)
    (hnew : ∀ tx ∈ b.vtx, ∀ i < tx.vout.length, tip.coins ⟨tx.getHash hash256, i.toUInt32⟩ = none)
    {coins : CCoinsViewCache} {blockUndo : List (List Coin)}
    (hconnect : connectBlockCoins hash256 tip.coins b.vtx nHeight = .ok (coins, blockUndo))
    (hashBlock : Uint256) :
    disconnectBlock hash256 b blockUndo nHeight tip.hashBlock ⟨coins, hashBlock⟩ =
      .ok (.ok, tip) := by
  obtain ⟨tx0, rest, hvtx, hcb0, hcb, hsize⟩ := checkBlockContents_shape hcheck
  exact disconnectBlock_connectBlockCoins_of_shape hvtx hcb0 hcb
    (fun tx htx => vout_length_le_of_size hsize htx) hh hstored hnew hconnect hashBlock

/-! ## A block spending a coin at height 0 -/

/-- The outpoint `(1, 5)`. -/
def spentOutPoint : COutPoint := ⟨Uint256.ofNat 1, 5⟩

/-- A coin of five satoshis paying to `OP_1`, at height `nHeight`. -/
def spentCoin (nHeight : Nat) : Coin := ⟨⟨5, [Script.op1]⟩, false, nHeight, false, 0⟩

/-- The view holding `spentCoin nHeight` at `spentOutPoint` and nothing else. -/
def spendView (nHeight : Nat) : CCoinsViewCache :=
  CCoinsViewCache.empty.insert spentOutPoint (spentCoin nHeight)

/-- A coinbase whose one output is an `OP_RETURN`. -/
def opReturnCoinBase : CTransaction :=
  ⟨[⟨COutPoint.null, [1, 1], 0xffffffff, ⟨[]⟩⟩], [⟨0, [Script.opReturn]⟩], 1, 1700000000, 0⟩

/-- A spend of `spentOutPoint` to `OP_1`. -/
def spendTx : CTransaction :=
  ⟨[⟨spentOutPoint, [], 0xffffffff, ⟨[]⟩⟩], [⟨100, [Script.op1]⟩], 1, 1700000000, 0⟩

/-- A proof-of-work block of the two. -/
def spendBlock : CBlock :=
  ⟨⟨1, Uint256.zero, Uint256.zero, 1700000000, 0x1e00ffff, 0, 0⟩, [opReturnCoinBase, spendTx],
    [], false⟩

theorem checkBlockContents_spendBlock :
    checkBlockContents cHash256 mainParams spendBlock false false = .ok () := by
  decide +kernel

theorem ne_spentOutPoint {o : COutPoint} (h : o.n ≠ 5) : o ≠ spentOutPoint :=
  fun ho => h (ho ▸ rfl)

/-- Only `spentOutPoint` is an output of index 5. -/
theorem spendView_of_n_ne {o : COutPoint} (h : o.n ≠ 5) (nHeight : Nat) : spendView nHeight o = none := by
  simp [spendView, ne_spentOutPoint h, CCoinsViewCache.empty]

/-- The coinbase of `spendBlock` adds nothing: its one output cannot be spent. -/
theorem updateCoins_opReturnCoinBase (view : CCoinsViewCache) (nHeight : Nat) :
    updateCoins hash256 view opReturnCoinBase nHeight = .ok (view, []) := rfl

/-- `spendTx` on a view holding `c` at `spentOutPoint` and nothing under its own output:
the coin is spent and recorded, and the output added. -/
theorem updateCoins_spendTx_of {view : CCoinsViewCache} {c : Coin}
    (hc : view spentOutPoint = some c) (hout : view ⟨spendTx.getHash hash256, 0⟩ = none)
    (nHeight : Nat) :
    updateCoins hash256 view spendTx nHeight =
      .ok ((view.erase spentOutPoint).insert ⟨spendTx.getHash hash256, 0⟩
        (spendTx.outputCoin ⟨100, [Script.op1]⟩ nHeight), [c]) := by
  -- the output's key differs from `spentOutPoint` in its index, whatever the txid
  have hne := @ne_spentOutPoint ⟨spendTx.getHash hash256, 0⟩ (show (0 : UInt32) ≠ 5 by decide)
  have hfresh : (view.erase spentOutPoint).haveCoin ⟨spendTx.getHash hash256, 0⟩ = false := by
    simp [CCoinsViewCache.haveCoin, CCoinsViewCache.erase, hne, hout]
  have hin : spendTx.vin.foldlM spendInput (view, []) = .ok (view.erase spentOutPoint, [c]) := by
    simp [spendTx, spendInput, CCoinsViewCache.spendCoin, hc]
  refine updateCoins_eq_ok.mpr ⟨view.erase spentOutPoint, by rw [if_neg (by decide)]; exact hin, ?_⟩
  have hzip : spendTx.vout.zipIdx = [(⟨100, [Script.op1]⟩, 0)] := rfl
  rw [addCoins_eq_foldlM, hzip, List.foldlM_cons]
  simp only [List.foldlM_nil, bind_pure]
  unfold addOutput CCoinsViewCache.addCoin
  dsimp only
  -- the new coin is unspent and spendable whatever its height
  have hunspent : (spendTx.outputCoin ⟨100, [Script.op1]⟩ nHeight).isSpent = false := rfl
  have hspendable : Script.isUnspendable
      (spendTx.outputCoin ⟨100, [Script.op1]⟩ nHeight).out.scriptPubKey = false := rfl
  rw [if_neg (by simp [hunspent]), if_neg (by simp [hspendable]), if_neg (by simp [hfresh])]
  rfl

theorem updateCoins_spendTx (nHeight : Nat) :
    updateCoins hash256 (spendView nHeight) spendTx 1 =
      .ok (((spendView nHeight).erase spentOutPoint).insert ⟨spendTx.getHash hash256, 0⟩
        (spendTx.outputCoin ⟨100, [Script.op1]⟩ 1), [spentCoin nHeight]) :=
  updateCoins_spendTx_of (by simp [spendView])
    (spendView_of_n_ne (show (0 : UInt32) ≠ 5 by decide) nHeight) 1

/-- `ConnectBlock` on `spendView`: the view holds the spend's output alone. -/
def spendConnected (hash256 : List UInt8 → Uint256) (nHeight : Nat) : CCoinsViewCache :=
  ((spendView nHeight).erase spentOutPoint).insert ⟨spendTx.getHash hash256, 0⟩
    (spendTx.outputCoin ⟨100, [Script.op1]⟩ 1)

/-- `ConnectBlock` of `spendBlock` on a view holding `c` at `spentOutPoint`: the spend's
record is the block's undo data. -/
theorem connectBlockCoins_spendBlock_of {view : CCoinsViewCache} {c : Coin}
    (hc : view spentOutPoint = some c) (hout : view ⟨spendTx.getHash hash256, 0⟩ = none)
    (nHeight : Nat) :
    connectBlockCoins hash256 view spendBlock.vtx nHeight =
      .ok ((view.erase spentOutPoint).insert ⟨spendTx.getHash hash256, 0⟩
        (spendTx.outputCoin ⟨100, [Script.op1]⟩ nHeight), [[c]]) := by
  have hzip : spendBlock.vtx.zipIdx = [(opReturnCoinBase, 0), (spendTx, 1)] := rfl
  have h₀ : connectTx hash256 nHeight (view, []) (opReturnCoinBase, 0) = .ok (view, []) :=
    connectTx_eq_ok.mpr ⟨[], updateCoins_opReturnCoinBase _ _, rfl⟩
  have h₁ : connectTx hash256 nHeight (view, []) (spendTx, 1) =
      .ok ((view.erase spentOutPoint).insert ⟨spendTx.getHash hash256, 0⟩
        (spendTx.outputCoin ⟨100, [Script.op1]⟩ nHeight), [[c]]) :=
    connectTx_eq_ok.mpr ⟨_, updateCoins_spendTx_of hc hout nHeight, rfl⟩
  rw [connectBlockCoins, hzip, List.foldlM_cons]
  refine Except.bind_eq_ok.mpr ⟨_, h₀, ?_⟩
  rw [List.foldlM_cons]
  exact Except.bind_eq_ok.mpr ⟨_, h₁, rfl⟩

theorem connectBlockCoins_spendBlock (nHeight : Nat) :
    connectBlockCoins hash256 (spendView nHeight) spendBlock.vtx 1 =
      .ok (spendConnected hash256 nHeight, [[spentCoin nHeight]]) :=
  connectBlockCoins_spendBlock_of (by simp [spendView])
    (spendView_of_n_ne (show (0 : UInt32) ≠ 5 by decide) nHeight) 1

/-- No output of `spendBlock` is in a view with nothing at index 0, whatever the txids. -/
theorem spendBlock_outputs_of {view : CCoinsViewCache}
    (h : ∀ o : COutPoint, o.n ≠ 5 → view o = none) :
    ∀ tx ∈ spendBlock.vtx, ∀ i < tx.vout.length, view ⟨tx.getHash hash256, i.toUInt32⟩ = none := by
  intro tx htx i hi
  -- both transactions have one output, so the index is 0
  have hlen : tx.vout.length = 1 := by
    simp only [spendBlock, List.mem_cons, List.not_mem_nil, or_false] at htx
    rcases htx with rfl | rfl <;> rfl
  have hi0 : i = 0 := by omega
  subst hi0
  exact h _ (show Nat.toUInt32 0 ≠ 5 by decide)

/-- No output of `spendBlock` is in `spendView`, whatever the txids. -/
theorem spendView_spendBlock_outputs (nHeight : Nat) :
    ∀ tx ∈ spendBlock.vtx, ∀ i < tx.vout.length,
      spendView nHeight ⟨tx.getHash hash256, i.toUInt32⟩ = none :=
  spendBlock_outputs_of fun _ ho => spendView_of_n_ne ho nHeight

/-- A view of one coin holds coins created after the genesis block when that coin was. -/
theorem empty_insert_stored {o : COutPoint} {c : Coin} (hc : c.Stored) :
    (CCoinsViewCache.empty.insert o c).Stored := by
  rw [CCoinsViewCache.insert_eq_update]
  exact CCoinsViewCache.Stored.update_some (fun _ _ h => by cases h) o hc

theorem spendView_stored {nHeight : Nat} (h : 0 < nHeight) : (spendView nHeight).Stored :=
  empty_insert_stored ⟨rfl, rfl, h⟩

/-- Taking the spend back empties the view. -/
theorem disconnectOutputs_spendTx (nHeight : Nat) :
    disconnectOutputs hash256 spendTx 1 true (spendConnected hash256 nHeight) =
      (true, (spendConnected hash256 nHeight).erase ⟨spendTx.getHash hash256, 0⟩) := by
  have hspend : (spendConnected hash256 nHeight).spendCoin ⟨spendTx.getHash hash256, 0⟩ =
      some ((spendConnected hash256 nHeight).erase ⟨spendTx.getHash hash256, 0⟩,
        spendTx.outputCoin ⟨100, [Script.op1]⟩ 1) := by
    simp [CCoinsViewCache.spendCoin, spendConnected]
  have hzip : spendTx.vout.zipIdx = [(⟨100, [Script.op1]⟩, 0)] := rfl
  unfold disconnectOutputs
  rw [hzip, List.foldl_cons, List.foldl_nil]
  unfold spendOutput
  dsimp only
  rw [if_neg (by decide), show Nat.toUInt32 0 = 0 from rfl, hspend]
  rfl

theorem spendConnected_erase (nHeight : Nat) (o : COutPoint) :
    (spendConnected hash256 nHeight).erase ⟨spendTx.getHash hash256, 0⟩ o = none := by
  simp only [spendConnected, spendView, CCoinsViewCache.erase_eq_update,
    CCoinsViewCache.insert_eq_update, Function.update_apply, CCoinsViewCache.empty]
  split_ifs <;> rfl

/-- With the coin at height 0, `DisconnectBlock` finds no sibling output to take the
metadata from, and fails. -/
theorem disconnectBlock_spendBlock_heightZero (hashPrev hashBlock : Uint256) :
    disconnectBlock hash256 spendBlock [[spentCoin 0]] 1 hashPrev
        ⟨spendConnected hash256 0, hashBlock⟩ =
      .ok (.failed, ⟨spendConnected hash256 0, hashBlock⟩) := by
  have hzip : (spendBlock.vtx.zip (none :: [[spentCoin 0]].map some)).reverse =
      [(spendTx, some [spentCoin 0]), (opReturnCoinBase, none)] := rfl
  have hin : restoreInputs true ((spendTx.vin.map (·.prevout)).zip [spentCoin 0]).reverse
      ((spendConnected hash256 0).erase ⟨spendTx.getHash hash256, 0⟩) = .ok none :=
    restoreInputs_cons_failed [] (applyTxInUndo_heightZero rfl fun _ => spendConnected_erase 0 _)
  unfold disconnectBlock
  rw [if_neg (by decide), hzip, disconnectTxs_cons_some_of_none _ rfl (disconnectOutputs_spendTx 0) hin]
  rfl

/-- The undo fails for a coin at height 0: `spendBlock` passes `CheckBlock` and is
connected at height 1 onto the view holding only that coin, none of its outputs there,
and `DisconnectBlock` with the undo data the connect wrote fails. -/
theorem disconnectBlock_fails_heightZeroSpend :
    checkBlockContents cHash256 mainParams spendBlock false false = .ok () ∧
      (∀ tx ∈ spendBlock.vtx, ∀ i < tx.vout.length,
        spendView 0 ⟨tx.getHash cHash256, i.toUInt32⟩ = none) ∧
      connectBlockCoins cHash256 (spendView 0) spendBlock.vtx 1 =
        .ok (spendConnected cHash256 0, [[spentCoin 0]]) ∧
      ∀ hashPrev hashBlock : Uint256,
        disconnectBlock cHash256 spendBlock [[spentCoin 0]] 1 hashPrev
            ⟨spendConnected cHash256 0, hashBlock⟩ =
          .ok (.failed, ⟨spendConnected cHash256 0, hashBlock⟩) :=
  ⟨checkBlockContents_spendBlock, @spendView_spendBlock_outputs cHash256 0,
    @connectBlockCoins_spendBlock cHash256 0, @disconnectBlock_spendBlock_heightZero cHash256⟩

/-- At height 3 the same block is taken back cleanly onto the view it was connected to. -/
theorem disconnectBlock_connectBlockCoins_spendBlock :
    connectBlockCoins cHash256 (spendView 3) spendBlock.vtx 1 =
        .ok (spendConnected cHash256 3, [[spentCoin 3]]) ∧
      disconnectBlock cHash256 spendBlock [[spentCoin 3]] 1 Uint256.zero
          ⟨spendConnected cHash256 3, Uint256.zero⟩ =
        .ok (.ok, ⟨spendView 3, Uint256.zero⟩) :=
  by
  have h := @disconnectBlock_connectBlockCoins cHash256 mainParams spendBlock false false
      checkBlockContents_spendBlock 1 Nat.one_pos ⟨spendView 3, Uint256.zero⟩
  dsimp only at h
  exact ⟨connectBlockCoins_spendBlock 3, h (spendView_stored (by decide))
      (spendView_spendBlock_outputs 3) (connectBlockCoins_spendBlock 3) Uint256.zero⟩

end

end Sumcoin
