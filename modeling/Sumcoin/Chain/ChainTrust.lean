import Sumcoin.Arith.BaseUintArith
import Sumcoin.Validation.AcceptHeader

/-!
# Block trust and chain trust

`GetBlockTrust` wants `2 ^ 256 / (T + 1)` for a target `T`, which does not fit in an
`arith_uint256`, and computes it as `~T / (T + 1) + 1`.  With the exact arithmetic of
`Arith/BaseUintArith.lean` that identity is `getBlockTrust_eq`: the call never throws,
and returns `blockTrust`, the closed form its comment states.  A target that
`SetCompact` decodes without overflow is never `2 ^ 256 - 1`, so `T + 1` does not wrap.

`AddToBlockIndex` sets `nChainTrust` to the predecessor's plus the block's own trust.
`TrustInv` is what that keeps over any sequence of calls: the map is well formed, and
every entry holds its predecessor's trust plus its block trust, modulo `2 ^ 256`.  Along
the pointer chain of an entry, the stored trust is then the sum of the block trusts
modulo `2 ^ 256`, and it never decreases toward the tip while that sum fits.

## Main statements

* `getBlockTrust_eq` — `GetBlockTrust` is the closed form `blockTrust`.
* `addToBlockIndex_trustInv`, `addToBlockIndexRun_trustInv` — one call, and a run.
* `chainTrust_eq_sum`, `chainTrust_chain` — the trust along a pointer chain.
* `getBlockTrust_chainTrust` — all of it, over any run from an empty index.
-/

namespace Sumcoin

/-- The trust of one block, as `GetBlockTrust`'s comment states it: for a target `T` that
`SetCompact` decodes without a flag and that is not zero, `2 ^ 256 / (T + 1)` for a
proof-of-stake entry and `1` for a proof-of-work one; `0` for any other target. -/
def blockTrust (block : CBlockIndex) : Nat :=
  let d := ArithUint256.setCompact block.nBits
  if d.fNegative || d.fOverflow || d.value.toNat == 0 then 0
  else if block.isProofOfStake then 2 ^ 256 / (d.value.toNat + 1) else 1

/-! ## `GetBlockTrust` -/

/-- A target decoded without overflow is below `2 ^ 256 - 1`: the magnitude of a compact
word is either below `2 ^ 23` or a multiple of `2 ^ 8`, and `2 ^ 256 - 1` is odd. -/
theorem setCompact_value_add_one_lt (nCompact : UInt32)
    (h : (ArithUint256.setCompact nCompact).fOverflow = false) :
    (ArithUint256.setCompact nCompact).value.toNat + 1 < 2 ^ 256 := by
  rw [ArithUint256.setCompact_fOverflow, decide_eq_false_iff_not, Nat.not_le] at h
  rw [ArithUint256.toNat_setCompact_value, Nat.mod_eq_of_lt h]
  by_cases he : Compact.exponent nCompact ≤ 3
  · have := Compact.magnitude_lt_of_exponent_le he
    omega
  · -- a mantissa shifted up by whole bytes is even
    have heven : 2 ∣ Compact.magnitude nCompact := by
      rw [Compact.magnitude, if_neg he]
      exact Dvd.dvd.mul_left (dvd_pow_self 2 (by omega)) _
    have hodd : ¬ 2 ∣ 2 ^ 256 - 1 := by decide
    have hne : Compact.magnitude nCompact ≠ 2 ^ 256 - 1 := fun heq => hodd (heq ▸ heven)
    omega

/-- `~T / (T + 1) + 1` is `2 ^ 256 / (T + 1)` for `T < 2 ^ 256`. -/
theorem complement_div_add_one {T : Nat} (hT : T < 2 ^ 256) :
    (2 ^ 256 - 1 - T) / (T + 1) + 1 = 2 ^ 256 / (T + 1) := by
  rw [← Nat.add_div_right _ (Nat.succ_pos T)]
  congr 1
  omega

/-- **`GetBlockTrust` never throws, and returns `blockTrust`.** -/
theorem getBlockTrust_eq (block : CBlockIndex) :
    ∃ t, getBlockTrust block = .ok t ∧ t.toNat = blockTrust block := by
  have hzero : ∀ a : ArithUint256, a.equalTo 0 ArithUint256.two_le_width = (a.toNat == 0) := by
    intro a
    rw [Bool.eq_iff_iff, BaseUint.equalTo_iff_toNat, beq_iff_eq]
    rfl
  unfold getBlockTrust blockTrust
  simp only [hzero]
  split
  · exact ⟨BaseUint.zero, rfl, BaseUint.toNat_zero⟩
  rename_i hbad
  simp only [Bool.or_eq_true, beq_iff_eq, not_or, Bool.not_eq_true] at hbad
  obtain ⟨⟨-, hover⟩, hpos⟩ := hbad
  have hT := setCompact_value_add_one_lt block.nBits hover
  split
  · -- proof of stake: `~T / (T + 1) + 1`, with `T + 1` exact
    set T := (ArithUint256.setCompact block.nBits).value
    have hone : (BaseUint.ofUInt64 1 : ArithUint256).toNat = 1 :=
      BaseUint.toNat_ofUInt64 (by decide) 1
    have hsucc : (T.add (BaseUint.ofUInt64 1)).toNat = T.toNat + 1 := by
      rw [BaseUint.toNat_add, hone, Nat.mod_eq_of_lt hT]
    have hdiv := BaseUint.div_map_toNat T.bnot (T.add (BaseUint.ofUInt64 1))
    rw [if_neg (by omega), hsucc, BaseUint.toNat_bnot] at hdiv
    cases hq : T.bnot.div (T.add (BaseUint.ofUInt64 1)) with
    | error e => rw [hq] at hdiv; cases hdiv
    | ok q =>
      rw [hq] at hdiv
      have hqv : q.toNat = (2 ^ 256 - 1 - T.toNat) / (T.toNat + 1) := by
        simpa [Except.map] using hdiv
      refine ⟨q.add (BaseUint.ofUInt64 1), rfl, ?_⟩
      have hle : 2 ^ 256 / (T.toNat + 1) < 2 ^ 256 :=
        Nat.div_lt_self (by decide) (by omega)
      rw [BaseUint.toNat_add, hone, hqv, complement_div_add_one (by omega), Nat.mod_eq_of_lt hle]
  · exact ⟨BaseUint.ofUInt64 1, rfl, BaseUint.toNat_ofUInt64 (by decide) 1⟩

/-- `blockTrust` reads only `nBits` and the proof-of-stake flag. -/
theorem blockTrust_congr {a b : CBlockIndex} (hbits : a.nBits = b.nBits) (hflags : a.nFlags = b.nFlags) :
    blockTrust a = blockTrust b := by
  unfold blockTrust CBlockIndex.isProofOfStake
  rw [hbits, hflags]

/-! ## `AddToBlockIndex` -/

section

variable {hash256 : List UInt8 → Uint256} {st st' : BlockIndexState} {block : CBlockHeader}
  {pindex : CBlockIndex}

/-- What a successful `GetBlockTrust` returns. -/
theorem toNat_of_getBlockTrust {b : CBlockIndex} {t : ArithUint256} (h : getBlockTrust b = .ok t) :
    t.toNat = blockTrust b := by
  obtain ⟨t', h', hv⟩ := getBlockTrust_eq b
  rw [h, Except.ok.injEq] at h'
  rw [h', hv]

theorem getBlockTrust_ne_error (b : CBlockIndex) (e : String) : getBlockTrust b ≠ .error e := by
  obtain ⟨t, ht, -⟩ := getBlockTrust_eq b
  rw [ht]
  intro h
  cases h

/-- `AddToBlockIndex` never throws: its only fallible step is `GetBlockTrust`. -/
theorem addToBlockIndex_ok (hash256 : List UInt8 → Uint256) (st : BlockIndexState)
    (block : CBlockHeader) : ∃ st' pindex, addToBlockIndex hash256 st block = .ok (st', pindex) := by
  cases hnew : st.mBlockIndex (block.getHash hash256) with
  | some pindex => exact ⟨st, pindex, addToBlockIndex_of_mem hnew⟩
  | none =>
    unfold addToBlockIndex
    simp only [hnew, bind, Except.bind]
    split
    · rename_i e heq
      exact absurd heq (getBlockTrust_ne_error _ _)
    · exact ⟨_, _, rfl⟩

/-- The entry `AddToBlockIndex` creates for a new header that is not its own predecessor:
one above its indexed predecessor with that predecessor's trust plus its own, or at
height zero with its own trust when the predecessor is not indexed. -/
theorem addToBlockIndex_new_entry (hnew : st.mBlockIndex (block.getHash hash256) = none)
    (hself : block.getHash hash256 ≠ block.hashPrevBlock)
    (h : addToBlockIndex hash256 st block = .ok (st', pindex)) :
    match st.mBlockIndex block.hashPrevBlock with
    | some prev => pindex.pprev = some block.hashPrevBlock ∧ pindex.nHeight = prev.nHeight + 1 ∧
        pindex.nChainTrust.toNat = (prev.nChainTrust.toNat + blockTrust pindex) % 2 ^ 256
    | none => pindex.pprev = none ∧ pindex.nHeight = 0 ∧
        pindex.nChainTrust.toNat = blockTrust pindex := by
  unfold addToBlockIndex at h
  simp only [hnew, Except.bind_eq_ok, Except.pure_eq_ok, Prod.mk.injEq] at h
  obtain ⟨trust, htrust, -, hp⟩ := h
  rw [BlockMap.insert_of_ne _ _ (Ne.symm hself)] at htrust hp
  have htv := toNat_of_getBlockTrust htrust
  -- the entry's trust is read from the fields `RaiseValidity` and the trust update keep
  have hbt : blockTrust pindex = trust.toNat := by
    rw [← hp, htv]
    exact blockTrust_congr rfl rfl
  cases hprev : st.mBlockIndex block.hashPrevBlock with
  | none =>
    simp only [hprev] at hp
    refine ⟨?_, ?_, ?_⟩
    · rw [← hp]; split <;> rfl
    · rw [← hp]; split <;> rfl
    · rw [hbt, ← hp]
      split <;> simp only [CBlockIndex.raiseValidity, CBlockIndex.ofHeader, Option.bind] <;>
        rw [BaseUint.toNat_add, BaseUint.toNat_zero, Nat.zero_add, Nat.mod_eq_of_lt trust.toNat_lt]
  | some prev =>
    simp only [hprev] at hp
    refine ⟨?_, ?_, ?_⟩
    · rw [← hp]; split <;> rfl
    · rw [← hp]; split <;> rfl
    · rw [hbt, ← hp]
      split <;> simp only [CBlockIndex.raiseValidity, CBlockIndex.ofHeader, Option.bind,
        BlockMap.insert_of_ne _ _ (Ne.symm hself), hprev] <;>
        rw [BaseUint.toNat_add]
end

/-! ## The trust invariant -/

/-- The conditions the block index keeps on the entry `e` stored under `k`: it carries
its own hash, and either sits one above an indexed predecessor and holds that
predecessor's trust plus its own block trust, modulo `2 ^ 256`, or has no predecessor,
height zero and its own block trust. -/
def TrustLinked (m : BlockMap) (k : Uint256) (e : CBlockIndex) : Prop :=
  e.phashBlock = k ∧
    match e.pprev with
    | some p => ∃ prev, m p = some prev ∧ prev.nHeight + 1 = e.nHeight ∧
        e.nChainTrust.toNat = (prev.nChainTrust.toNat + blockTrust e) % 2 ^ 256
    | none => e.nHeight = 0 ∧ e.nChainTrust.toNat = blockTrust e

/-- What `AddToBlockIndex` keeps of the block index over any sequence of calls: every
entry is linked to its predecessor by its trust. -/
def TrustInv (m : BlockMap) : Prop := ∀ k e, m k = some e → TrustLinked m k e

theorem trustInv_empty : TrustInv BlockIndexState.empty.mBlockIndex := by
  intro k e hk
  cases hk

/-- The trust invariant contains the shape of the map that the chain walks rely on. -/
theorem TrustInv.wellFormed {m : BlockMap} (hinv : TrustInv m) : m.WellFormed where
  hash_eq hk := (hinv _ _ hk).1
  prev {k e p} hk hp := by
    have hlink := (hinv _ _ hk).2
    rw [hp] at hlink
    obtain ⟨prev, hprev, hh, -⟩ := hlink
    exact ⟨prev, hprev, hh⟩
  genesis {k e} hk hp := by
    have hlink := (hinv _ _ hk).2
    rw [hp] at hlink
    exact hlink.1

/-- Storing an entry under a fresh key keeps every other entry linked: no entry's
predecessor is the fresh key. -/
theorem TrustLinked.insert_fresh {m : BlockMap} {k k' : Uint256} {v e : CBlockIndex}
    (hk : m k = none) (h : TrustLinked m k' e) : TrustLinked (m.insert k v) k' e := by
  obtain ⟨hhash, hlink⟩ := h
  refine ⟨hhash, ?_⟩
  cases hp : e.pprev with
  | none =>
    simp only [hp] at hlink ⊢
    exact hlink
  | some p =>
    simp only [hp] at hlink ⊢
    obtain ⟨prev, hprev, hh, htrust⟩ := hlink
    have hpk : p ≠ k := fun hpk => by rw [hpk, hk] at hprev; cases hprev
    exact ⟨prev, by rw [BlockMap.insert_of_ne _ _ hpk]; exact hprev, hh, htrust⟩

/-- **One call of `AddToBlockIndex` keeps the trust invariant**, for a header that is not
its own predecessor. -/
theorem addToBlockIndex_trustInv {hash256 : List UInt8 → Uint256} {st st' : BlockIndexState}
    {block : CBlockHeader} {pindex : CBlockIndex} (hinv : TrustInv st.mBlockIndex)
    (hself : block.getHash hash256 ≠ block.hashPrevBlock)
    (h : addToBlockIndex hash256 st block = .ok (st', pindex)) : TrustInv st'.mBlockIndex := by
  cases hnew : st.mBlockIndex (block.getHash hash256) with
  | some e =>
    rw [addToBlockIndex_of_mem hnew, Except.ok.injEq, Prod.mk.injEq] at h
    rw [← h.1]
    exact hinv
  | none =>
    obtain ⟨hmap, -, hhash, -⟩ := addToBlockIndex_of_new hnew h
    have hentry := addToBlockIndex_new_entry hnew hself h
    rw [hmap]
    intro k e hk
    by_cases hkh : k = block.getHash hash256
    · -- the new entry, linked to the predecessor it was built from
      subst hkh
      rw [BlockMap.insert_self, Option.some.injEq] at hk
      subst hk
      refine ⟨hhash, ?_⟩
      cases hprev : st.mBlockIndex block.hashPrevBlock with
      | none =>
        rw [hprev] at hentry
        obtain ⟨hp, hh, htr⟩ := hentry
        rw [hp]
        exact ⟨hh, htr⟩
      | some prev =>
        rw [hprev] at hentry
        obtain ⟨hp, hh, htr⟩ := hentry
        rw [hp]
        exact ⟨prev, by rw [BlockMap.insert_of_ne _ _ (Ne.symm hself)]; exact hprev, hh.symm, htr⟩
    · rw [BlockMap.insert_of_ne _ _ hkh] at hk
      exact (hinv _ _ hk).insert_fresh hnew

/-- `AddToBlockIndex` applied to the headers in order, keeping the block index. -/
def addToBlockIndexRun (hash256 : List UInt8 → Uint256) (st : BlockIndexState)
    (headers : List CBlockHeader) : Except String BlockIndexState :=
  headers.foldlM (fun st block => Prod.fst <$> addToBlockIndex hash256 st block) st

/-- **A run of `AddToBlockIndex` succeeds and keeps the trust invariant**, when no header
is its own predecessor. -/
theorem addToBlockIndexRun_trustInv (hash256 : List UInt8 → Uint256) {st : BlockIndexState}
    (hinv : TrustInv st.mBlockIndex) {headers : List CBlockHeader}
    (hself : ∀ block ∈ headers, block.getHash hash256 ≠ block.hashPrevBlock) :
    ∃ st', addToBlockIndexRun hash256 st headers = .ok st' ∧ TrustInv st'.mBlockIndex := by
  refine Except.foldlM_ok_inv (fun st : BlockIndexState => TrustInv st.mBlockIndex) ?_ hinv
  intro st block hmem hst
  obtain ⟨st', pindex, h⟩ := addToBlockIndex_ok hash256 st block
  exact ⟨st', by rw [h]; rfl, addToBlockIndex_trustInv hst (hself block hmem) h⟩

/-! ## Trust along a pointer chain -/

/-- **The trust of an entry is the sum of the block trusts of its chain**, modulo
`2 ^ 256`. -/
theorem chainTrust_eq_sum {m : BlockMap} (hinv : TrustInv m) :
    ∀ (n : Nat) {k : Uint256} {e : CBlockIndex}, e.nHeight = n → m k = some e →
      e.nChainTrust.toNat = ((chainOf m e).map blockTrust).sum % 2 ^ 256 := by
  intro n
  induction n with
  | zero =>
    intro k e hn hk
    have hlink := (hinv _ _ hk).2
    split at hlink
    · obtain ⟨prev, -, hh, -⟩ := hlink
      omega
    · rename_i hp
      rw [chainOf_of_pprev_none m hp, List.map_singleton, List.sum_singleton, ← hlink.2,
        Nat.mod_eq_of_lt e.nChainTrust.toNat_lt]
  | succ n ih =>
    intro k e hn hk
    have hlink := (hinv _ _ hk).2
    split at hlink
    · -- the predecessor's chain is the rest of this one
      rename_i p hp
      obtain ⟨prev, hprev, hh, htrust⟩ := hlink
      rw [chainOf_of_pprev hinv.wellFormed hk hp hprev, List.map_cons, List.sum_cons, htrust,
        ih (by omega) hprev, Nat.mod_add_mod, Nat.add_comm]
    · rename_i hp
      rw [chainOf_of_pprev_none m hp, List.map_singleton, List.sum_singleton, ← hlink.2,
        Nat.mod_eq_of_lt e.nChainTrust.toNat_lt]

/-- **While the block trusts of its chain sum below `2 ^ 256`, the trust never decreases
from an entry's predecessor to the entry**, all along the chain. -/
theorem chainTrust_chain {m : BlockMap} (hinv : TrustInv m) :
    ∀ (n : Nat) {k : Uint256} {e : CBlockIndex}, e.nHeight = n → m k = some e →
      ((chainOf m e).map blockTrust).sum < 2 ^ 256 →
      (chainOf m e).IsChain fun a b => b.nChainTrust.toNat ≤ a.nChainTrust.toNat := by
  intro n
  induction n with
  | zero =>
    intro k e hn hk _
    have hlink := (hinv _ _ hk).2
    split at hlink
    · obtain ⟨prev, -, hh, -⟩ := hlink
      omega
    · rename_i hp
      rw [chainOf_of_pprev_none m hp]
      exact List.IsChain.singleton e
  | succ n ih =>
    intro k e hn hk hfits
    have hlink := (hinv _ _ hk).2
    split at hlink
    · rename_i p hp
      obtain ⟨prev, hprev, hh, -⟩ := hlink
      have hchain := chainOf_of_pprev hinv.wellFormed hk hp hprev
      obtain ⟨rest, hrest⟩ := chainOf_eq_cons m prev
      rw [hchain, List.map_cons, List.sum_cons] at hfits
      -- both trusts are their chains' sums, which fit
      have he := chainTrust_eq_sum hinv _ rfl hk
      have hp' := chainTrust_eq_sum hinv _ rfl hprev
      rw [hchain, List.map_cons, List.sum_cons, Nat.mod_eq_of_lt hfits] at he
      rw [Nat.mod_eq_of_lt (by omega)] at hp'
      rw [hchain, hrest, List.isChain_cons_cons]
      refine ⟨by omega, ?_⟩
      rw [← hrest]
      exact ih (by omega) hprev (by omega)
    · rename_i hp
      rw [chainOf_of_pprev_none m hp]
      exact List.IsChain.singleton e

/-! ## The whole statement -/

/-- **`GetBlockTrust` is `blockTrust`, and `AddToBlockIndex` accumulates it.**  Any run of
`AddToBlockIndex` from an empty index, over headers none of which is its own predecessor,
succeeds; in the index it leaves, every entry's `nChainTrust` is the sum of the block
trusts along its pointer chain modulo `2 ^ 256`, and while that sum stays below `2 ^ 256`
the trust never decreases from a predecessor to its successor along the chain. -/
theorem getBlockTrust_chainTrust (block : CBlockIndex) (hash256 : List UInt8 → Uint256)
    (headers : List CBlockHeader) (hself : ∀ h ∈ headers, h.getHash hash256 ≠ h.hashPrevBlock) :
    (getBlockTrust block).map BaseUint.toNat = .ok (blockTrust block) ∧
      ∃ st, addToBlockIndexRun hash256 BlockIndexState.empty headers = .ok st ∧
        ∀ k e, st.mBlockIndex k = some e →
          e.nChainTrust.toNat = ((chainOf st.mBlockIndex e).map blockTrust).sum % 2 ^ 256 ∧
          (((chainOf st.mBlockIndex e).map blockTrust).sum < 2 ^ 256 →
            (chainOf st.mBlockIndex e).IsChain fun a b => b.nChainTrust.toNat ≤ a.nChainTrust.toNat) := by
  obtain ⟨t, ht, htv⟩ := getBlockTrust_eq block
  obtain ⟨st, hrun, hinv⟩ := addToBlockIndexRun_trustInv hash256 trustInv_empty hself
  refine ⟨by rw [ht, ← htv]; rfl, st, hrun, fun k e hk => ⟨?_, ?_⟩⟩
  · exact chainTrust_eq_sum hinv _ rfl hk
  · exact chainTrust_chain hinv _ rfl hk

/-- The main-network genesis header and the header of `lateSpendBlock` on top of it, hashed
with `cHash256`, are not their own predecessors. -/
theorem getBlockTrust_chainTrust_lateSpend :
    (∀ h ∈ [mainGenesis.header, lateSpendBlock.header], h.getHash cHash256 ≠ h.hashPrevBlock) ∧
      ((getBlockTrust (CBlockIndex.basic 1 0 0x1d00ffff CBlockIndex.blockProofOfStake)).map
          BaseUint.toNat = .ok (blockTrust (CBlockIndex.basic 1 0 0x1d00ffff CBlockIndex.blockProofOfStake)) ∧
        ∃ st, addToBlockIndexRun cHash256 BlockIndexState.empty
            [mainGenesis.header, lateSpendBlock.header] = .ok st ∧
          ∀ k e, st.mBlockIndex k = some e →
            e.nChainTrust.toNat = ((chainOf st.mBlockIndex e).map blockTrust).sum % 2 ^ 256 ∧
            (((chainOf st.mBlockIndex e).map blockTrust).sum < 2 ^ 256 →
              (chainOf st.mBlockIndex e).IsChain
                fun a b => b.nChainTrust.toNat ≤ a.nChainTrust.toNat)) := by
  have hself : ∀ h ∈ [mainGenesis.header, lateSpendBlock.header],
      h.getHash cHash256 ≠ h.hashPrevBlock := by decide +kernel
  exact ⟨hself, getBlockTrust_chainTrust _ cHash256 _ hself⟩

end Sumcoin
