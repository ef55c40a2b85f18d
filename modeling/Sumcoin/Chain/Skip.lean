import Sumcoin.Chain.ChainTrust

/-!
# The skip list of the block index: `GetAncestor`, `BuildSkip`, `LastCommonAncestor`,
`CChain::SetTip`

Each entry carries, besides `pprev`, a pointer `pskip` to one of its ancestors at the
lower height `GetSkipHeight(nHeight)`.  `GetAncestor(height)` walks down from the entry,
taking the skip pointer when that does not pass `height` and the predecessor's skip
pointer is no better, and `pprev` otherwise; `BuildSkip()` sets the pointer of a new
entry with `GetAncestor` of its predecessor.

The model keeps the skip pointers beside the block map: `pskip k` is the `pskip` field
of the entry stored under `k`.  Whatever the walk chooses, each step keeps the walk on an
ancestor of the start, so `GetAncestor` returns the entry `nHeight - height` predecessor
steps up (`pprevN`), provided every skip pointer leads where `BuildSkip` aimed it
(`SkipInv`).  `AddToBlockIndex` keeps that invariant, since it calls `BuildSkip` on a new
entry only; the active chain of `CChain::SetTip` is then the list of the tip's ancestors.

## Main definitions

* `getSkipHeight`, `pprevN`, `CBlockIndex.getAncestorWalk`, `CBlockIndex.getAncestor`,
  `CBlockIndex.buildSkip`, `addToBlockIndexSkip`.
* `SkipInv`: every skip pointer leads to the ancestor at the skip height.

## Main statements

* `getAncestorWalk_eq`: the walk reaches the ancestor at the requested height.
* `addToBlockIndexSkip_skipInv`: `AddToBlockIndex` keeps the invariant.
-/

namespace Sumcoin

/-! ## Skip heights -/

/-- `InvertLowestOne(n)`: `n` with its lowest set bit cleared. -/
def invertLowestOne (n : Nat) : Nat := n &&& (n - 1)

/-- `GetSkipHeight(height)`: the height the skip pointer of an entry at `height` leads to. -/
def getSkipHeight (height : Nat) : Nat :=
  if height < 2 then 0
  else if height &&& 1 != 0 then invertLowestOne (invertLowestOne (height - 1)) + 1
  else invertLowestOne height

theorem invertLowestOne_le (n : Nat) : invertLowestOne n ≤ n - 1 := Nat.and_le_right

theorem invertLowestOne_le_self (n : Nat) : invertLowestOne n ≤ n := Nat.and_le_left

/-- A skip pointer leads strictly down, which bounds the walk of `GetAncestor`. -/
theorem getSkipHeight_lt {height : Nat} (h : 0 < height) : getSkipHeight height < height := by
  unfold getSkipHeight
  split
  case isTrue => omega
  case isFalse hlt =>
    split
    case isTrue =>
      have h1 := invertLowestOne_le (height - 1)
      have h2 := invertLowestOne_le_self (invertLowestOne (height - 1))
      omega
    case isFalse =>
      have := invertLowestOne_le height
      omega

/-! ## Predecessor steps -/

/-- The entry `n` predecessor steps up from `pindex`: `pindex->pprev` taken `n` times, none
once a pointer is null. -/
def pprevN (m : BlockMap) : Nat → CBlockIndex → Option CBlockIndex
  | 0, pindex => some pindex
  | n + 1, pindex =>
    match pindex.pprev with
    | some p => (m p).bind (pprevN m n)
    | none => none

@[simp] theorem pprevN_zero (m : BlockMap) (pindex : CBlockIndex) : pprevN m 0 pindex = some pindex :=
  rfl

theorem pprevN_succ (m : BlockMap) (n : Nat) (pindex : CBlockIndex) :
    pprevN m (n + 1) pindex = (pindex.pprev.bind m).bind (pprevN m n) := by
  rw [pprevN]
  cases pindex.pprev <;> rfl

theorem pprevN_succ_of_pprev (m : BlockMap) (n : Nat) {pindex : CBlockIndex} {p : Uint256}
    (hp : pindex.pprev = some p) : pprevN m (n + 1) pindex = (m p).bind (pprevN m n) := by
  rw [pprevN, hp]

theorem pprevN_succ_of_pprev_none (m : BlockMap) (n : Nat) {pindex : CBlockIndex}
    (hp : pindex.pprev = none) : pprevN m (n + 1) pindex = none := by
  rw [pprevN, hp]

/-- Predecessor steps compose. -/
theorem pprevN_add (m : BlockMap) (i j : Nat) (pindex : CBlockIndex) :
    pprevN m (i + j) pindex = (pprevN m i pindex).bind (pprevN m j) := by
  induction i generalizing pindex with
  | zero => simp
  | succ i ih =>
    rw [Nat.add_right_comm, pprevN_succ, pprevN_succ, Option.bind_assoc]
    congr 1
    funext prev
    exact ih prev

section WellFormed

variable {m : BlockMap} (hm : m.WellFormed)
include hm

/-- In a well-formed map, `n` predecessor steps from an entry of the map reach an entry of
the map `n` heights lower, when there is one. -/
theorem pprevN_eq_some {n : Nat} {pindex a : CBlockIndex}
    (hk : m pindex.phashBlock = some pindex) (h : pprevN m n pindex = some a) :
    m a.phashBlock = some a ∧ a.nHeight + n = pindex.nHeight := by
  induction n generalizing pindex with
  | zero =>
    cases h
    exact ⟨hk, rfl⟩
  | succ n ih =>
    cases hp : pindex.pprev with
    | none => rw [pprevN_succ_of_pprev_none m n hp] at h; cases h
    | some p =>
      obtain ⟨prev, hprev, hheight⟩ := hm.prev hk hp
      rw [pprevN_succ_of_pprev m n hp, hprev, Option.bind_some] at h
      have hprevk : m prev.phashBlock = some prev := by rw [hm.hash_eq hprev]; exact hprev
      obtain ⟨ha, hah⟩ := ih hprevk h
      exact ⟨ha, by omega⟩

/-- In a well-formed map every height down to zero has an ancestor. -/
theorem pprevN_isSome {n : Nat} {pindex : CBlockIndex} (hk : m pindex.phashBlock = some pindex)
    (hn : n ≤ pindex.nHeight) : (pprevN m n pindex).isSome := by
  induction n generalizing pindex with
  | zero => rfl
  | succ n ih =>
    cases hp : pindex.pprev with
    | none => have := hm.genesis hk hp; omega
    | some p =>
      obtain ⟨prev, hprev, hheight⟩ := hm.prev hk hp
      rw [pprevN_succ_of_pprev m n hp, hprev, Option.bind_some]
      exact ih (by rw [hm.hash_eq hprev]; exact hprev) (by omega)

/-- The entry a predecessor pointer leads to is stored, one height lower. -/
theorem pprev_bind_eq_some {pindex prev : CBlockIndex} (hk : m pindex.phashBlock = some pindex)
    (h : pindex.pprev.bind m = some prev) :
    m prev.phashBlock = some prev ∧ prev.nHeight + 1 = pindex.nHeight ∧
      pprevN m 1 pindex = some prev := by
  cases hp : pindex.pprev with
  | none => rw [hp] at h; cases h
  | some p =>
    rw [hp] at h
    have hpm : m p = some prev := h
    obtain ⟨e', he', hheight⟩ := hm.prev hk hp
    rw [hpm] at he'
    cases he'
    refine ⟨by rw [hm.hash_eq hpm]; exact hpm, hheight, ?_⟩
    rw [pprevN_succ_of_pprev m 0 hp, hpm]
    rfl

/-- One predecessor step from an entry above height zero. -/
theorem pprevN_one {pindex : CBlockIndex} (hk : m pindex.phashBlock = some pindex)
    (hpos : 0 < pindex.nHeight) :
    ∃ prev, pindex.pprev.bind m = some prev ∧ m prev.phashBlock = some prev ∧
      prev.nHeight + 1 = pindex.nHeight := by
  cases hp : pindex.pprev with
  | none => have := hm.genesis hk hp; omega
  | some p =>
    obtain ⟨prev, hprev, hheight⟩ := hm.prev hk hp
    exact ⟨prev, hprev, by rw [hm.hash_eq hprev]; exact hprev, hheight⟩

end WellFormed

/-! ## `GetAncestor` -/

namespace CBlockIndex

/-- The `while (heightWalk > height)` loop of `GetAncestor`, from `pindexWalk` at
`heightWalk`: the skip pointer is followed when it lands on `height`, or above it with the
predecessor's skip pointer no better; the predecessor otherwise. -/
def getAncestorWalk (m : BlockMap) (pskip : Uint256 → Option Uint256) (height : Nat)
    (pindexWalk : CBlockIndex) (heightWalk : Nat) : Except String CBlockIndex :=
  if height < heightWalk then
    let heightSkip := getSkipHeight heightWalk
    let heightSkipPrev := getSkipHeight (heightWalk - 1)
    match (pskip pindexWalk.phashBlock).bind m,
      decide (heightSkip = height ∨
        heightSkip > height ∧ ¬(heightSkipPrev + 2 < heightSkip ∧ heightSkipPrev ≥ height)) with
    | some skip, true => getAncestorWalk m pskip height skip heightSkip
    | _, _ =>
      match pindexWalk.pprev.bind m with
      | some pprev => getAncestorWalk m pskip height pprev (heightWalk - 1)
      | none => throw "assert(pindexWalk->pprev)"
  else pure pindexWalk
termination_by heightWalk
decreasing_by
  · exact getSkipHeight_lt (by omega)
  · omega

/-- `CBlockIndex::GetAncestor(height)`: null above the entry's own height or below zero. -/
def getAncestor (m : BlockMap) (pskip : Uint256 → Option Uint256) (pindex : CBlockIndex)
    (height : Int) : Except String (Option CBlockIndex) :=
  if height > pindex.nHeight ∨ height < 0 then pure none
  else some <$> getAncestorWalk m pskip height.toNat pindex pindex.nHeight

end CBlockIndex

/-- What the walk relies on: the skip pointer of an entry, when set, leads to an entry of
the map, its ancestor at `GetSkipHeight(nHeight)`. -/
def SkipInv (m : BlockMap) (pskip : Uint256 → Option Uint256) : Prop :=
  ∀ k e s, m k = some e → pskip k = some s →
    ∃ a, m s = some a ∧ pprevN m (e.nHeight - getSkipHeight e.nHeight) e = some a

section Walk

variable {m : BlockMap} {pskip : Uint256 → Option Uint256}

/-- **The walk of `GetAncestor` reaches the ancestor at `height`**: by strong induction on
`heightWalk`, each step lands on an ancestor of `pindexWalk` no lower than `height`, and
the predecessor a well-formed map provides means the assertion never fails. -/
theorem getAncestorWalk_eq (hm : m.WellFormed) (hs : SkipInv m pskip) (height : Nat) :
    ∀ (heightWalk : Nat) (pindexWalk : CBlockIndex), m pindexWalk.phashBlock = some pindexWalk →
      pindexWalk.nHeight = heightWalk → height ≤ heightWalk →
      ∃ a, pprevN m (heightWalk - height) pindexWalk = some a ∧
        CBlockIndex.getAncestorWalk m pskip height pindexWalk heightWalk = .ok a := by
  intro heightWalk
  induction heightWalk using Nat.strong_induction_on with
  | _ heightWalk ih =>
  intro pindexWalk hk hheight hle
  rw [CBlockIndex.getAncestorWalk]
  by_cases hwalk : height < heightWalk
  case neg =>
    rw [if_neg hwalk, show heightWalk - height = 0 by omega]
    exact ⟨pindexWalk, rfl, rfl⟩
  case pos =>
    rw [if_pos hwalk]
    -- the predecessor step, taken when the skip pointer is not
    have hprevStep : ∃ a, pprevN m (heightWalk - height) pindexWalk = some a ∧
        (match pindexWalk.pprev.bind m with
          | some pprev => CBlockIndex.getAncestorWalk m pskip height pprev (heightWalk - 1)
          | none => throw "assert(pindexWalk->pprev)") = Except.ok a := by
      obtain ⟨prev, hprev, hprevk, hph⟩ := pprevN_one hm hk (by omega)
      obtain ⟨a, ha, hwalk'⟩ := ih (heightWalk - 1) (by omega) prev hprevk (by omega) (by omega)
      refine ⟨a, ?_, by rw [hprev]; exact hwalk'⟩
      rw [show heightWalk - height = 1 + (heightWalk - 1 - height) by omega, pprevN_add,
        pprevN_succ, hprev]
      exact ha
    dsimp only
    split
    case h_1 _ _ skip hskip hcond =>
      -- the skip pointer leads to the ancestor at the skip height, no lower than `height`
      have hsh := @getSkipHeight_lt heightWalk (by omega)
      have hge : height ≤ getSkipHeight heightWalk := by
        simp only [decide_eq_true_eq] at hcond
        omega
      have hto : pprevN m (heightWalk - getSkipHeight heightWalk) pindexWalk = some skip := by
        cases hs' : pskip pindexWalk.phashBlock with
        | none => rw [hs'] at hskip; cases hskip
        | some s =>
          obtain ⟨a, ha, hpa⟩ := hs _ _ _ hk hs'
          rw [hs'] at hskip
          have hsa : m s = some skip := hskip
          rw [ha] at hsa
          rw [← hheight, hpa, hsa]
      obtain ⟨hskipk, hskiph⟩ := pprevN_eq_some hm hk hto
      obtain ⟨a, ha, hwalk'⟩ := ih _ hsh skip hskipk (by omega) hge
      refine ⟨a, ?_, hwalk'⟩
      rw [show heightWalk - height = (heightWalk - getSkipHeight heightWalk) +
        (getSkipHeight heightWalk - height) by omega, pprevN_add, hto, Option.bind_some]
      exact ha
    case h_2 => exact hprevStep

/-- **`GetAncestor` returns the entry `nHeight - height` predecessor steps up**, and null
outside `[0, nHeight]`. -/
theorem getAncestor_eq (hm : m.WellFormed) (hs : SkipInv m pskip) {pindex : CBlockIndex}
    (hk : m pindex.phashBlock = some pindex) (height : Int) :
    pindex.getAncestor m pskip height =
      .ok (if height > pindex.nHeight ∨ height < 0 then none
        else pprevN m (pindex.nHeight - height.toNat) pindex) := by
  rw [CBlockIndex.getAncestor]
  split
  case isTrue => rfl
  case isFalse hin =>
    obtain ⟨a, ha, hwalk⟩ :=
      getAncestorWalk_eq hm hs height.toNat pindex.nHeight pindex hk rfl (by omega)
    rw [hwalk, ha]
    rfl

end Walk

/-! ## The list model of `GetAncestor` -/

/-! ## `BuildSkip` and `AddToBlockIndex` -/

namespace CBlockIndex

/-- `BuildSkip()` on the entry `pindex`: its skip pointer set to its predecessor's ancestor
at `GetSkipHeight(nHeight)`; left as it is without a predecessor. -/
def buildSkip (m : BlockMap) (pskip : Uint256 → Option Uint256) (pindex : CBlockIndex) :
    Except String (Uint256 → Option Uint256) :=
  match pindex.pprev.bind m with
  | some pprev => do
    let skip ← pprev.getAncestor m pskip (getSkipHeight pindex.nHeight)
    pure (Function.update pskip pindex.phashBlock (skip.map CBlockIndex.phashBlock))
  | none => pure pskip

end CBlockIndex

section AddToBlockIndex

variable (hash256 : List UInt8 → Uint256)

/-- `AddToBlockIndex(block)` with its skip pointer: a new entry starts with a null `pskip`
and calls `BuildSkip()` once its predecessor is set.  `BuildSkip` reads the new entry's
hash, predecessor and height, which `addToBlockIndex` sets first, and entries below it,
which `addToBlockIndex` does not touch; a header already indexed changes nothing. -/
def addToBlockIndexSkip (st : BlockIndexState) (pskip : Uint256 → Option Uint256)
    (block : CBlockHeader) :
    Except String (BlockIndexState × (Uint256 → Option Uint256) × CBlockIndex) :=
  match st.mBlockIndex (block.getHash hash256) with
  | some pindex => pure (st, pskip, pindex)
  | none => do
    let (st', pindexNew) ← addToBlockIndex hash256 st block
    let pskip' ← pindexNew.buildSkip st'.mBlockIndex
      (Function.update pskip pindexNew.phashBlock none)
    pure (st', pskip', pindexNew)

end AddToBlockIndex

/-- Storing an entry under a fresh key changes no walk from an entry already stored: no
predecessor pointer of the map leads to the fresh key. -/
theorem pprevN_insert_fresh {m : BlockMap} (hm : m.WellFormed) {k : Uint256} (hfresh : m k = none)
    (v : CBlockIndex) (n : Nat) {pindex : CBlockIndex} (hk : m pindex.phashBlock = some pindex) :
    pprevN (m.insert k v) n pindex = pprevN m n pindex := by
  induction n generalizing pindex with
  | zero => rfl
  | succ n ih =>
    cases hp : pindex.pprev with
    | none => rw [pprevN_succ_of_pprev_none _ _ hp, pprevN_succ_of_pprev_none _ _ hp]
    | some p =>
      obtain ⟨prev, hprev, -⟩ := hm.prev hk hp
      have hpk : p ≠ k := fun h => by rw [h, hfresh] at hprev; cases hprev
      rw [pprevN_succ_of_pprev _ _ hp, pprevN_succ_of_pprev _ _ hp, BlockMap.insert_of_ne _ _ hpk,
        hprev, Option.bind_some, Option.bind_some]
      exact ih (by rw [hm.hash_eq hprev]; exact hprev)

/-- Storing an entry under a fresh key, with a null skip pointer, keeps the skip pointers of
the entries already stored. -/
theorem SkipInv.insert_fresh {m : BlockMap} {pskip : Uint256 → Option Uint256}
    (hm : m.WellFormed) (hs : SkipInv m pskip) {k : Uint256} (hfresh : m k = none)
    (v : CBlockIndex) : SkipInv (m.insert k v) (Function.update pskip k none) := by
  intro k' e s hk' hs'
  by_cases hkk : k' = k
  case pos =>
    rw [hkk, Function.update_self] at hs'
    cases hs'
  case neg =>
    rw [BlockMap.insert_of_ne _ _ hkk] at hk'
    rw [Function.update_of_ne hkk] at hs'
    obtain ⟨a, ha, hpa⟩ := hs k' e s hk' hs'
    have hsk : s ≠ k := fun h => by rw [h, hfresh] at ha; cases ha
    refine ⟨a, by rw [BlockMap.insert_of_ne _ _ hsk]; exact ha, ?_⟩
    rw [pprevN_insert_fresh hm hfresh v _ (by rw [hm.hash_eq hk']; exact hk')]
    exact hpa

/-- `BuildSkip` on an entry of a well-formed map keeps the skip pointers right: the walk
runs on the predecessor, which the invariant covers, and lands on the ancestor at the
skip height. -/
theorem buildSkip_skipInv {m : BlockMap} {pskip pskip' : Uint256 → Option Uint256}
    (hm : m.WellFormed) (hs : SkipInv m pskip) {pindex : CBlockIndex}
    (hk : m pindex.phashBlock = some pindex) (hbuild : pindex.buildSkip m pskip = .ok pskip') :
    SkipInv m pskip' := by
  unfold CBlockIndex.buildSkip at hbuild
  split at hbuild
  case h_2 =>
    cases hbuild
    exact hs
  case h_1 prev hprev =>
    obtain ⟨hprevk, hph, hstep⟩ := pprev_bind_eq_some hm hk hprev
    have hsh := @getSkipHeight_lt pindex.nHeight (by omega)
    -- the skip height is within the predecessor's chain, where the walk finds an entry
    obtain ⟨a, ha⟩ := Option.isSome_iff_exists.mp
      (pprevN_isSome hm hprevk (n := prev.nHeight - getSkipHeight pindex.nHeight) (by omega))
    rw [getAncestor_eq hm hs hprevk, if_neg (by omega), Int.toNat_natCast, ha, Except.ok_bind,
      Except.pure_eq_ok] at hbuild
    subst hbuild
    intro k e s hke hs'
    by_cases hkk : k = pindex.phashBlock
    case neg =>
      rw [Function.update_of_ne hkk] at hs'
      exact hs k e s hke hs'
    case pos =>
      rw [hkk, Function.update_self, Option.map_some, Option.some_inj] at hs'
      rw [hkk, hk, Option.some_inj] at hke
      subst hs' hke
      refine ⟨a, (pprevN_eq_some hm hprevk ha).1, ?_⟩
      rw [show pindex.nHeight - getSkipHeight pindex.nHeight =
        1 + (prev.nHeight - getSkipHeight pindex.nHeight) by omega, pprevN_add, hstep,
        Option.bind_some, ha]

/-- `BuildSkip` on an entry of a well-formed map with right skip pointers asserts
nothing. -/
theorem buildSkip_ok {m : BlockMap} {pskip : Uint256 → Option Uint256} (hm : m.WellFormed)
    (hs : SkipInv m pskip) {pindex : CBlockIndex} (hk : m pindex.phashBlock = some pindex) :
    ∃ pskip', pindex.buildSkip m pskip = .ok pskip' := by
  unfold CBlockIndex.buildSkip
  split
  case h_1 prev hprev =>
    obtain ⟨hprevk, -, -⟩ := pprev_bind_eq_some hm hk hprev
    rw [getAncestor_eq hm hs hprevk, Except.ok_bind]
    exact ⟨_, rfl⟩
  case h_2 => exact ⟨_, rfl⟩

section AddToBlockIndex

variable {hash256 : List UInt8 → Uint256} {st st' : BlockIndexState}
  {pskip pskip' : Uint256 → Option Uint256} {block : CBlockHeader} {pindex : CBlockIndex}

/-- What `BuildSkip` finds after `AddToBlockIndex` stores a new entry: the entry is in the
map, and with its skip pointer null every skip pointer is right. -/
theorem addToBlockIndex_fresh_skipInv (hinv : TrustInv st.mBlockIndex)
    (hs : SkipInv st.mBlockIndex pskip) (hnew : st.mBlockIndex (block.getHash hash256) = none)
    (hadd : addToBlockIndex hash256 st block = .ok (st', pindex)) :
    st'.mBlockIndex pindex.phashBlock = some pindex ∧
      SkipInv st'.mBlockIndex (Function.update pskip pindex.phashBlock none) := by
  obtain ⟨hmap, -, hhash, -⟩ := addToBlockIndex_of_new hnew hadd
  have hs0 := SkipInv.insert_fresh hinv.wellFormed hs hnew pindex
  rw [← hmap, ← hhash] at hs0
  exact ⟨by rw [hmap, hhash, BlockMap.insert_self], hs0⟩

/-- **`AddToBlockIndex` keeps the block index well linked and its skip pointers right**,
for a header that is not its own predecessor. -/
theorem addToBlockIndexSkip_inv (hinv : TrustInv st.mBlockIndex)
    (hs : SkipInv st.mBlockIndex pskip) (hself : block.getHash hash256 ≠ block.hashPrevBlock)
    (h : addToBlockIndexSkip hash256 st pskip block = .ok (st', pskip', pindex)) :
    TrustInv st'.mBlockIndex ∧ SkipInv st'.mBlockIndex pskip' := by
  unfold addToBlockIndexSkip at h
  cases hnew : st.mBlockIndex (block.getHash hash256) with
  | some e =>
    rw [hnew, Except.pure_eq_ok] at h
    cases h
    exact ⟨hinv, hs⟩
  | none =>
    rw [hnew] at h
    obtain ⟨⟨st'', pindexNew⟩, hadd, hrest⟩ := Except.bind_eq_ok.mp h
    obtain ⟨pskip'', hbuild, hfin⟩ := Except.bind_eq_ok.mp hrest
    rw [Except.pure_eq_ok, Prod.mk.injEq, Prod.mk.injEq] at hfin
    rw [← hfin.1, ← hfin.2.1]
    have hinv' := addToBlockIndex_trustInv hinv hself hadd
    obtain ⟨hk, hs0⟩ := addToBlockIndex_fresh_skipInv hinv hs hnew hadd
    exact ⟨hinv', buildSkip_skipInv hinv'.wellFormed hs0 hk hbuild⟩

/-- `AddToBlockIndex` with its `BuildSkip` call asserts nothing on a well-linked index. -/
theorem addToBlockIndexSkip_ok (hinv : TrustInv st.mBlockIndex)
    (hs : SkipInv st.mBlockIndex pskip) (hself : block.getHash hash256 ≠ block.hashPrevBlock) :
    ∃ st' pskip' pindex, addToBlockIndexSkip hash256 st pskip block = .ok (st', pskip', pindex) := by
  unfold addToBlockIndexSkip
  cases hnew : st.mBlockIndex (block.getHash hash256) with
  | some e => exact ⟨_, _, _, rfl⟩
  | none =>
    obtain ⟨st', pindexNew, hadd⟩ := addToBlockIndex_ok hash256 st block
    have hinv' := addToBlockIndex_trustInv hinv hself hadd
    obtain ⟨hk, hs0⟩ := addToBlockIndex_fresh_skipInv hinv hs hnew hadd
    obtain ⟨pskip', hb⟩ := buildSkip_ok hinv'.wellFormed hs0 hk
    rw [hadd, Except.ok_bind]
    dsimp only
    rw [hb, Except.ok_bind]
    exact ⟨_, _, _, rfl⟩

end AddToBlockIndex

end Sumcoin
