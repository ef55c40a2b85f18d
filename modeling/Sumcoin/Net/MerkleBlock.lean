import Sumcoin.Lib.Buffer
import Sumcoin.Consensus.MerkleMutation
import Sumcoin.Consensus.TxCheck

/-!
# Partial Merkle trees: `merkleblock.cpp`

A `CPartialMerkleTree` proves that some transactions are in a block without sending the
others.  `TraverseAndBuild` walks the block's Merkle tree depth first from the root: at each
node it stores one bit, whether a matched transaction lies below, and at a leaf, or where
nothing matched lies below, it stores the node's hash (`CalcHash`) and does not descend.
`TraverseAndExtract` walks the same tree reading the bits and hashes back, collects the
matched transactions with their positions and recomputes the root; `ExtractMatches` checks
the sizes before and that everything was consumed after.

The tree over `nTransactions` leaves has `CalcTreeWidth(h) = ⌈nTransactions / 2^h⌉` nodes
at height `h`; the last node of a level has no right child when the level below is odd, and
its hash pairs the left child with itself, as `ComputeMerkleRoot` does.  So `calcHash` at
height `h` is level `h` of `ComputeMerkleRoot`'s loop (`getElem?_level`), and at the top it
is the block's Merkle root (`calcHash_top`).

Extraction on a built tree consumes, subtree by subtree, exactly what building produced
(`traverseAndExtract_build`): it returns each subtree's hash, appends the matched positions
in increasing order, and sets `fBad` only where two sibling subtrees below a parent of a
match have one hash (`siblingCollision`), which for distinct transactions takes a
`SHA256D64` collision.  `ExtractMatches` empties `vMatch` but appends to `vnIndex`.

The counters are `unsigned int` in the source.  `ExtractMatches` refuses more than
`MAX_BLOCK_WEIGHT / MIN_TRANSACTION_WEIGHT` transactions, and below that bound no shift or
sum reaches `2^32`, so the model keeps natural numbers.  The `assert(vTxid.size() != 0)` of
`CalcHash` is checked once, in the constructor: every walk calls `CalcHash` at least once.

## Main definitions

* `CPartialMerkleTree`, `calcTreeWidth`, `calcHash`, `traverseAndBuild`, `ofTxids`.
* `traverseAndExtract`, `extractMatches`.
* `matched`, `siblingCollision`: the positions below a node that `vMatch` selects, and whether
  the sibling test fires below it.

## Main statements

* `calcHash_top`: the root `CalcHash` computes is `ComputeMerkleRoot`'s.
* `traverseAndExtract_build`: extraction reads back what building wrote.
* `extractMatches_ofTxids`: what `ExtractMatches` returns on a built tree.
-/

namespace Sumcoin

/-- `MIN_TRANSACTION_WEIGHT`. -/
def minTransactionWeight : Nat := witnessScaleFactor * 60

/-- `CPartialMerkleTree`: the number of transactions, the bits and hashes of the depth-first
walk, and `fBad`, which a failed extraction sets. -/
structure CPartialMerkleTree where
  nTransactions : Nat
  vBits : List Bool
  vHash : List Uint256
  fBad : Bool
  deriving DecidableEq, Repr

namespace CPartialMerkleTree

/-- `CalcTreeWidth(height)`: the number of nodes at `height`. -/
def calcTreeWidth (nTransactions height : Nat) : Nat :=
  (nTransactions + (1 <<< height) - 1) >>> height

/-- `while (CalcTreeWidth(nHeight) > 1) nHeight++;`, with `fuel` for the steps left. -/
def heightLoop (nTransactions : Nat) : (fuel nHeight : Nat) → Nat
  | 0, nHeight => nHeight
  | fuel + 1, nHeight =>
    if calcTreeWidth nTransactions nHeight > 1 then heightLoop nTransactions fuel (nHeight + 1) else nHeight

/-- The height of the tree, which the constructor and `ExtractMatches` compute alike; the
width is at most one from height `nTransactions` on, so that much fuel is enough. -/
def treeHeight (nTransactions : Nat) : Nat := heightLoop nTransactions nTransactions 0

section Walks

variable (hash256 : List UInt8 → Uint256) (nTransactions : Nat)

/-- `CalcHash(height, pos, vTxid)`: a leaf is its txid; a node hashes its two children, the
left one twice when there is no right one. -/
def calcHash (vTxid : List Uint256) : (height pos : Nat) → Uint256
  | 0, pos => vTxid.getD pos Uint256.zero
  | height + 1, pos =>
    let left := calcHash vTxid height (pos * 2)
    let right := if pos * 2 + 1 < calcTreeWidth nTransactions height then calcHash vTxid height (pos * 2 + 1)
      else left
    pairHash hash256 left right

/-- The loop of `TraverseAndBuild` that sets `fParentOfMatch`: `vMatch[p]` or-ed over the
leaves `p` in `[pos << height, (pos + 1) << height)` below `nTransactions`. -/
def parentOfMatch (vMatch : List Bool) (height pos : Nat) : Bool :=
  (List.range' (pos <<< height) (min ((pos + 1) <<< height) nTransactions - (pos <<< height))).foldl
    (fun fParentOfMatch p => fParentOfMatch || vMatch.getD p false) false

/-- `TraverseAndBuild(height, pos, vTxid, vMatch)`, on the `vBits` and `vHash` built so far:
one bit per node visited, a hash where the walk stops. -/
def traverseAndBuild (vTxid : List Uint256) (vMatch : List Bool) :
    (height pos : Nat) → List Bool × List Uint256 → List Bool × List Uint256
  | 0, pos, (vBits, vHash) =>
    -- `height == 0`: store the leaf and stop
    (vBits ++ [parentOfMatch nTransactions vMatch 0 pos], vHash ++ [calcHash hash256 nTransactions vTxid 0 pos])
  | height + 1, pos, (vBits, vHash) =>
    let fParentOfMatch := parentOfMatch nTransactions vMatch (height + 1) pos
    let vBits := vBits ++ [fParentOfMatch]
    if !fParentOfMatch then (vBits, vHash ++ [calcHash hash256 nTransactions vTxid (height + 1) pos])
    else
      let built := traverseAndBuild vTxid vMatch height (pos * 2) (vBits, vHash)
      if pos * 2 + 1 < calcTreeWidth nTransactions height then
        traverseAndBuild vTxid vMatch height (pos * 2 + 1) built
      else built

end Walks

/-- `CPartialMerkleTree(vTxid, vMatch)`; `none` for no transactions, where the assert of
`CalcHash` fails. -/
def ofTxids (hash256 : List UInt8 → Uint256) (vTxid : List Uint256) (vMatch : List Bool) :
    Option CPartialMerkleTree :=
  if vTxid.length = 0 then none
  else
    let nTransactions := vTxid.length
    let (vBits, vHash) :=
      traverseAndBuild hash256 nTransactions vTxid vMatch (treeHeight nTransactions) 0 ([], [])
    some ⟨nTransactions, vBits, vHash, false⟩

/-- What `TraverseAndExtract` reads and writes besides the tree: the cursors `nBitsUsed` and
`nHashUsed`, the output vectors `vMatch` and `vnIndex`, and the tree's `fBad`. -/
structure ExtractState where
  nBitsUsed : Nat
  nHashUsed : Nat
  vMatch : List Uint256
  vnIndex : List Nat
  fBad : Bool
  deriving DecidableEq, Repr

section Extract

variable (hash256 : List UInt8 → Uint256) (t : CPartialMerkleTree)

/-- The stored-hash branch of `TraverseAndExtract`, taken at a leaf or where no match lies
below: the next hash, appended to the matches at a matched leaf. -/
def useHash (height pos : Nat) (fParentOfMatch : Bool) (s : ExtractState) : Uint256 × ExtractState :=
  if h : s.nHashUsed < t.vHash.length then
    let hash := t.vHash[s.nHashUsed]
    let s := { s with nHashUsed := s.nHashUsed + 1 }
    if height = 0 ∧ fParentOfMatch = true then
      (hash, { s with vMatch := s.vMatch ++ [hash], vnIndex := s.vnIndex ++ [pos] })
    else (hash, s)
  else
    -- overflowed the hash array
    (Uint256.zero, { s with fBad := true })

/-- `TraverseAndExtract(height, pos, nBitsUsed, nHashUsed, vMatch, vnIndex)`. -/
def traverseAndExtract : (height pos : Nat) → ExtractState → Uint256 × ExtractState
  | height, pos, s =>
    if h : s.nBitsUsed < t.vBits.length then
      let fParentOfMatch := t.vBits[s.nBitsUsed]
      let s := { s with nBitsUsed := s.nBitsUsed + 1 }
      match height with
      | 0 => useHash t 0 pos fParentOfMatch s
      | height + 1 =>
        if !fParentOfMatch then useHash t (height + 1) pos fParentOfMatch s
        else
          let (left, s) := traverseAndExtract height (pos * 2) s
          if pos * 2 + 1 < calcTreeWidth t.nTransactions height then
            let (right, s) := traverseAndExtract height (pos * 2 + 1) s
            -- the left and right branches cover distinct transactions
            let s := if right = left then { s with fBad := true } else s
            (pairHash hash256 left right, s)
          else (pairHash hash256 left left, s)
    else
      -- overflowed the bits array
      (Uint256.zero, { s with fBad := true })

/-- What `ExtractMatches(vMatch, vnIndex)` leaves: the root it returns (`uint256()` on
failure), the two vectors, and the tree's `fBad`. -/
structure Extracted where
  root : Uint256
  vMatch : List Uint256
  vnIndex : List Nat
  fBad : Bool
  deriving DecidableEq, Repr

/-- `ExtractMatches(vMatch, vnIndex)`; the caller's `vMatch` is cleared, its `vnIndex` is not. -/
def extractMatches (_vMatch : List Uint256) (vnIndex : List Nat) : Extracted :=
  -- `vMatch.clear()`
  let vMatch : List Uint256 := []
  if t.nTransactions = 0 then ⟨Uint256.zero, vMatch, vnIndex, t.fBad⟩
  else if t.nTransactions > maxBlockWeight / minTransactionWeight then ⟨Uint256.zero, vMatch, vnIndex, t.fBad⟩
  else if t.vHash.length > t.nTransactions then ⟨Uint256.zero, vMatch, vnIndex, t.fBad⟩
  else if t.vBits.length < t.vHash.length then ⟨Uint256.zero, vMatch, vnIndex, t.fBad⟩
  else
    let nHeight := treeHeight t.nTransactions
    let (hashMerkleRoot, s) := traverseAndExtract hash256 t nHeight 0 ⟨0, 0, vMatch, vnIndex, t.fBad⟩
    if s.fBad then ⟨Uint256.zero, s.vMatch, s.vnIndex, s.fBad⟩
    -- all bits consumed, but for the padding of their serialization as bytes
    else if (s.nBitsUsed + 7) / 8 ≠ (t.vBits.length + 7) / 8 then ⟨Uint256.zero, s.vMatch, s.vnIndex, s.fBad⟩
    else if s.nHashUsed ≠ t.vHash.length then ⟨Uint256.zero, s.vMatch, s.vnIndex, s.fBad⟩
    else ⟨hashMerkleRoot, s.vMatch, s.vnIndex, s.fBad⟩

end Extract

/-! ## Widths and heights -/

theorem calcTreeWidth_eq (n h : Nat) : calcTreeWidth n h = (n + 2 ^ h - 1) / 2 ^ h := by
  simp [calcTreeWidth, Nat.shiftLeft_eq, Nat.shiftRight_eq_div_pow]

/-- Node `q` exists at height `h` when its leftmost leaf does. -/
theorem lt_calcTreeWidth_iff {n h q : Nat} : q < calcTreeWidth n h ↔ q * 2 ^ h < n := by
  have hpos := Nat.two_pow_pos h
  rw [calcTreeWidth_eq, Nat.lt_div_iff_mul_lt hpos]
  omega

@[simp] theorem calcTreeWidth_zero (n : Nat) : calcTreeWidth n 0 = n := by
  simp [calcTreeWidth_eq]

/-- A node one level up exists when its left child does. -/
theorem lt_calcTreeWidth_succ_iff {n h q : Nat} : q < calcTreeWidth n (h + 1) ↔ q * 2 < calcTreeWidth n h := by
  rw [lt_calcTreeWidth_iff, lt_calcTreeWidth_iff, pow_succ, Nat.mul_comm (2 ^ h) 2, ← Nat.mul_assoc]

/-- One level up the width halves, rounding up. -/
theorem calcTreeWidth_succ (n h : Nat) : calcTreeWidth n (h + 1) = (calcTreeWidth n h + 1) / 2 := by
  apply le_antisymm
  · refine le_of_forall_lt fun q hq => ?_
    have := lt_calcTreeWidth_succ_iff.mp hq
    omega
  · exact le_of_forall_lt fun q hq => lt_calcTreeWidth_succ_iff.mpr (by omega)

theorem calcTreeWidth_le_one_iff {n h : Nat} : calcTreeWidth n h ≤ 1 ↔ n ≤ 2 ^ h := by
  rw [← not_lt, lt_calcTreeWidth_iff, Nat.one_mul, not_lt]

theorem heightLoop_le (n fuel nHeight : Nat) : heightLoop n fuel nHeight ≤ nHeight + fuel := by
  induction fuel generalizing nHeight with
  | zero => exact Nat.le_refl _
  | succ fuel ih =>
    rw [heightLoop]
    split_ifs
    · have := ih (nHeight + 1)
      omega
    · omega

/-- The loop stops at the first height where the width is at most one, when it gets there
within its fuel. -/
theorem heightLoop_spec (n : Nat) :
    ∀ fuel nHeight, (∀ k < nHeight, 1 < calcTreeWidth n k) → n ≤ 2 ^ (nHeight + fuel) →
      n ≤ 2 ^ heightLoop n fuel nHeight ∧ ∀ k < heightLoop n fuel nHeight, 1 < calcTreeWidth n k := by
  intro fuel
  induction fuel with
  | zero => exact fun nHeight hbelow htop => ⟨htop, hbelow⟩
  | succ fuel ih =>
    intro nHeight hbelow htop
    rw [heightLoop]
    split_ifs with hw
    · refine ih (nHeight + 1) (fun k hk => ?_) (by rwa [Nat.add_right_comm, Nat.add_assoc])
      rcases Nat.lt_succ_iff_lt_or_eq.mp hk with hk | rfl
      · exact hbelow k hk
      · exact hw
    · exact ⟨calcTreeWidth_le_one_iff.mp (not_lt.mp hw), hbelow⟩

/-- `treeHeight` is the least height with one node at most. -/
theorem treeHeight_spec (n : Nat) :
    n ≤ 2 ^ treeHeight n ∧ ∀ k < treeHeight n, 1 < calcTreeWidth n k :=
  heightLoop_spec n n 0 (fun k hk => absurd hk (Nat.not_lt_zero k))
    (by rw [Nat.zero_add]; exact Nat.lt_two_pow_self.le)

theorem treeHeight_le (n : Nat) : treeHeight n ≤ n := by
  have := heightLoop_le n n 0
  rwa [Nat.zero_add] at this

theorem calcTreeWidth_treeHeight {n : Nat} (hn : 0 < n) : calcTreeWidth n (treeHeight n) = 1 :=
  le_antisymm (calcTreeWidth_le_one_iff.mpr (treeHeight_spec n).1)
    (lt_calcTreeWidth_iff.mpr (by rwa [Nat.zero_mul]))

/-! ## `CalcHash` and `ComputeMerkleRoot` -/

section Levels

variable (hash256 : List UInt8 → Uint256)

theorem calcHash_succ (n : Nat) (vTxid : List Uint256) (h p : Nat) :
    calcHash hash256 n vTxid (h + 1) p =
      pairHash hash256 (calcHash hash256 n vTxid h (p * 2))
        (if p * 2 + 1 < calcTreeWidth n h then calcHash hash256 n vTxid h (p * 2 + 1)
          else calcHash hash256 n vTxid h (p * 2)) := rfl

/-- The last hash of an odd level is paired with itself. -/
theorem getElem?_merkleLevel_last (L : List Uint256) (i : Nat) (hi : L.length = 2 * i + 1) :
    (merkleLevel hash256 L)[i]? =
      some (pairHash hash256 (L.getD (2 * i) Uint256.zero) (L.getD (2 * i) Uint256.zero)) := by
  induction L using merkleLevel.induct generalizing i with
  | case1 a b rest ih =>
    simp only [List.length_cons] at hi
    cases i with
    | zero => omega
    | succ i =>
      rw [merkleLevel_cons_cons, List.getElem?_cons_succ, ih i (by omega)]
      simp [List.getD_eq_getElem?_getD, show 2 * (i + 1) = 2 * i + 1 + 1 by omega]
  | case2 a =>
    cases i with
    | zero => rfl
    | succ i => simp at hi
  | case3 => simp at hi

/-- Hash `i` of the next level, wherever its left input exists. -/
theorem getElem?_merkleLevel_of_lt (L : List Uint256) (i : Nat) (hi : i * 2 < L.length) :
    (merkleLevel hash256 L)[i]? =
      some (pairHash hash256 (L.getD (i * 2) Uint256.zero)
        (if i * 2 + 1 < L.length then L.getD (i * 2 + 1) Uint256.zero else L.getD (i * 2) Uint256.zero)) := by
  rw [Nat.mul_comm i 2]
  split_ifs with h
  · exact getElem?_merkleLevel hash256 L i h
  · exact getElem?_merkleLevel_last hash256 L i (by omega)

theorem length_level (vTxid : List Uint256) (k : Nat) :
    ((merkleLevel hash256)^[k] vTxid).length = calcTreeWidth vTxid.length k := by
  induction k with
  | zero => simp
  | succ k ih => rw [Function.iterate_succ_apply', length_merkleLevel, ih, calcTreeWidth_succ]

/-- Level `k` of `ComputeMerkleRoot`'s loop is `CalcHash` at height `k`, node by node. -/
theorem getElem?_level (vTxid : List Uint256) (k : Nat) :
    ∀ p < calcTreeWidth vTxid.length k,
      ((merkleLevel hash256)^[k] vTxid)[p]? = some (calcHash hash256 vTxid.length vTxid k p) := by
  induction k with
  | zero =>
    intro p hp
    rw [calcTreeWidth_zero] at hp
    simp [calcHash, List.getD_eq_getElem?_getD, List.getElem?_eq_getElem hp]
  | succ k ih =>
    intro p hp
    have hleft : p * 2 < calcTreeWidth vTxid.length k := lt_calcTreeWidth_succ_iff.mp hp
    have hgetD : ∀ q < calcTreeWidth vTxid.length k,
        ((merkleLevel hash256)^[k] vTxid).getD q Uint256.zero = calcHash hash256 vTxid.length vTxid k q :=
      fun q hq => by rw [List.getD_eq_getElem?_getD, ih q hq, Option.getD_some]
    rw [Function.iterate_succ_apply', getElem?_merkleLevel_of_lt hash256 _ p (by rw [length_level]; exact hleft),
      length_level, calcHash, hgetD _ hleft]
    split_ifs with hright
    · rw [hgetD _ hright]
    · rfl

/-- Levelling from height `k` for the heights left reaches the top level. -/
theorem merkleLoop_level (vTxid : List Uint256) :
    ∀ j k fuel mutation, k + j = treeHeight vTxid.length → j ≤ fuel →
      (merkleLoop hash256 fuel ((merkleLevel hash256)^[k] vTxid) mutation).1 =
        (merkleLevel hash256)^[treeHeight vTxid.length] vTxid := by
  intro j
  induction j with
  | zero =>
    intro k fuel mutation hk _
    rw [Nat.add_zero] at hk
    subst hk
    have hlen : ((merkleLevel hash256)^[treeHeight vTxid.length] vTxid).length ≤ 1 := by
      rw [length_level, calcTreeWidth_le_one_iff]
      exact (treeHeight_spec _).1
    cases fuel with
    | zero => rfl
    | succ fuel => rw [merkleLoop, if_neg (by omega)]
  | succ j ih =>
    intro k fuel mutation hk hj
    obtain ⟨fuel, rfl⟩ : ∃ f, fuel = f + 1 := ⟨fuel - 1, by omega⟩
    have hwide : 1 < ((merkleLevel hash256)^[k] vTxid).length := by
      rw [length_level]
      exact (treeHeight_spec _).2 k (by omega)
    rw [merkleLoop, if_pos hwide, ← Function.iterate_succ_apply' (merkleLevel hash256)]
    exact ih (k + 1) fuel _ (by omega) (by omega)

/-- **`CalcHash` at the top is the block's Merkle root.** -/
theorem calcHash_top {vTxid : List Uint256} (hne : vTxid ≠ []) :
    calcHash hash256 vTxid.length vTxid (treeHeight vTxid.length) 0 = (computeMerkleRoot hash256 vTxid).1 := by
  have hn : 0 < vTxid.length := List.length_pos_iff.mpr hne
  have htop := getElem?_level hash256 vTxid (treeHeight vTxid.length) 0
    (by rw [calcTreeWidth_treeHeight hn]; exact Nat.one_pos)
  have hloop := merkleLoop_level hash256 vTxid (treeHeight vTxid.length) 0 vTxid.length false
    (Nat.zero_add _) (treeHeight_le _)
  rw [Function.iterate_zero_apply] at hloop
  rw [computeMerkleRoot]
  dsimp only
  rw [hloop]
  rcases hl : (merkleLevel hash256)^[treeHeight vTxid.length] vTxid with _ | ⟨root, rest⟩
  · rw [hl] at htop
    simp at htop
  · rw [hl, List.getElem?_cons_zero, Option.some.injEq] at htop
    rw [htop]
    rfl

/-- Two nodes of one height with one hash, over distinct txids, exhibit two different pairs
that `SHA256D64` maps to one hash: follow the left children down while the pairs agree. -/
theorem collision_of_calcHash_eq {vTxid : List Uint256} (hnd : vTxid.Nodup) :
    ∀ {h q1 q2 : Nat}, q1 < calcTreeWidth vTxid.length h → q2 < calcTreeWidth vTxid.length h → q1 ≠ q2 →
      calcHash hash256 vTxid.length vTxid h q1 = calcHash hash256 vTxid.length vTxid h q2 →
      ∃ a b c d : Uint256, (a, b) ≠ (c, d) ∧ pairHash hash256 a b = pairHash hash256 c d
  | 0, q1, q2, h1, h2, hne, heq => by
    rw [calcTreeWidth_zero] at h1 h2
    simp only [calcHash, List.getD_eq_getElem _ _ h1, List.getD_eq_getElem _ _ h2] at heq
    exact absurd ((hnd.getElem_inj_iff).mp heq) hne
  | h + 1, q1, q2, h1, h2, hne, heq => by
    rw [calcHash_succ, calcHash_succ] at heq
    by_cases hpair : (calcHash hash256 vTxid.length vTxid h (q1 * 2),
        if q1 * 2 + 1 < calcTreeWidth vTxid.length h then calcHash hash256 vTxid.length vTxid h (q1 * 2 + 1)
          else calcHash hash256 vTxid.length vTxid h (q1 * 2)) =
      (calcHash hash256 vTxid.length vTxid h (q2 * 2),
        if q2 * 2 + 1 < calcTreeWidth vTxid.length h then calcHash hash256 vTxid.length vTxid h (q2 * 2 + 1)
          else calcHash hash256 vTxid.length vTxid h (q2 * 2))
    · -- the pairs agree: their left halves are two nodes one level down with one hash
      exact collision_of_calcHash_eq hnd (lt_calcTreeWidth_succ_iff.mp h1) (lt_calcTreeWidth_succ_iff.mp h2)
        (by omega) (Prod.ext_iff.mp hpair).1
    · exact ⟨_, _, _, _, hpair, heq⟩

end Levels

/-! ## The leaves below a node -/

/-- The leaves below node `pos` at `height`: `[pos << height, (pos + 1) << height)`, cut at
`nTransactions`. -/
def leafRange (nTransactions height pos : Nat) : List Nat :=
  List.range' (pos * 2 ^ height) (min ((pos + 1) * 2 ^ height) nTransactions - pos * 2 ^ height)

theorem foldl_or_eq_any {α : Type _} (f : α → Bool) :
    ∀ (L : List α) (init : Bool), L.foldl (fun b x => b || f x) init = (init || L.any f)
  | [], init => by rw [List.foldl_nil, List.any_nil, Bool.or_false]
  | x :: L, init => by rw [List.foldl_cons, foldl_or_eq_any f L, List.any_cons, Bool.or_assoc]

/-- `fParentOfMatch` asks whether some leaf below is matched. -/
theorem parentOfMatch_eq_any (n : Nat) (vMatch : List Bool) (h p : Nat) :
    parentOfMatch n vMatch h p = (leafRange n h p).any (vMatch.getD · false) := by
  rw [parentOfMatch, leafRange, Nat.shiftLeft_eq, Nat.shiftLeft_eq, foldl_or_eq_any, Bool.false_or]

theorem filter_leafRange_of_parentOfMatch {n : Nat} {vMatch : List Bool} {h p : Nat}
    (hpm : parentOfMatch n vMatch h p = false) : (leafRange n h p).filter (vMatch.getD · false) = [] := by
  rw [parentOfMatch_eq_any, ← Bool.not_eq_true, List.any_eq_true] at hpm
  exact List.filter_eq_nil_iff.mpr fun i hi hmatch => hpm ⟨i, hi, hmatch⟩

/-- The leaves below a parent are those below its left child, then those below its right. -/
theorem leafRange_succ (n h p : Nat) :
    leafRange n (h + 1) p = leafRange n h (p * 2) ++ leafRange n h (p * 2 + 1) := by
  have e1 : p * 2 ^ (h + 1) = p * 2 * 2 ^ h := by ring
  have e2 : (p + 1) * 2 ^ (h + 1) = p * 2 * 2 ^ h + 2 ^ h + 2 ^ h := by ring
  have e3 : (p * 2 + 1) * 2 ^ h = p * 2 * 2 ^ h + 2 ^ h := by ring
  have e4 : (p * 2 + 1 + 1) * 2 ^ h = p * 2 * 2 ^ h + 2 ^ h + 2 ^ h := by ring
  simp only [leafRange, e1, e2, e3, e4]
  generalize p * 2 * 2 ^ h = a
  generalize 2 ^ h = c
  by_cases hc : a + c ≤ n
  · rw [min_eq_left hc, show a + c - a = c by omega, List.range'_append_1]
    congr 1
    omega
  · rw [min_eq_right (by omega), min_eq_right (by omega), show n - (a + c) = 0 by omega,
      List.range'_zero, List.append_nil]

theorem leafRange_eq_nil {n h p : Nat} (hp : ¬ p < calcTreeWidth n h) : leafRange n h p = [] := by
  rw [lt_calcTreeWidth_iff, not_lt] at hp
  rw [leafRange, List.range'_eq_nil_iff]
  omega

theorem length_leafRange (n h p : Nat) :
    (leafRange n h p).length = min ((p + 1) * 2 ^ h) n - p * 2 ^ h :=
  List.length_range'

theorem length_leafRange_pos {n h p : Nat} (hp : p < calcTreeWidth n h) : 0 < (leafRange n h p).length := by
  rw [lt_calcTreeWidth_iff] at hp
  have hpos := Nat.two_pow_pos h
  rw [length_leafRange, Nat.succ_mul]
  omega

/-- A leaf is below itself when it exists. -/
theorem filter_leafRange_zero (n : Nat) (vMatch : List Bool) (p : Nat) :
    (leafRange n 0 p).filter (vMatch.getD · false) = if parentOfMatch n vMatch 0 p then [p] else [] := by
  rw [parentOfMatch_eq_any]
  by_cases hp : p < n
  · have hleaf : leafRange n 0 p = [p] := by
      rw [leafRange, pow_zero, Nat.mul_one, Nat.mul_one, min_eq_left (by omega), Nat.add_sub_cancel_left]
      rfl
    rw [hleaf, List.filter_singleton, List.any_cons, List.any_nil, Bool.or_false]
    cases vMatch.getD p false <;> rfl
  · rw [leafRange_eq_nil (by rwa [calcTreeWidth_zero]), List.filter_nil, List.any_nil]
    rfl

/-- Below the root lie all the transactions. -/
theorem leafRange_top (n : Nat) : leafRange n (treeHeight n) 0 = List.range n := by
  rw [leafRange, Nat.zero_mul, Nat.zero_add, Nat.one_mul, Nat.sub_zero,
    min_eq_right (treeHeight_spec n).1, List.range_eq_range']

/-! ## Building -/

section Build

variable (hash256 : List UInt8 → Uint256) (n : Nat) (vTxid : List Uint256) (vMatch : List Bool)

/-- `TraverseAndBuild` appends to what was built before. -/
theorem traverseAndBuild_append : ∀ (h p : Nat) (vBits : List Bool) (vHash : List Uint256),
    traverseAndBuild hash256 n vTxid vMatch h p (vBits, vHash) =
      (vBits ++ (traverseAndBuild hash256 n vTxid vMatch h p ([], [])).1,
        vHash ++ (traverseAndBuild hash256 n vTxid vMatch h p ([], [])).2) := by
  intro h
  induction h with
  | zero => exact fun _ _ _ => rfl
  | succ h ih =>
    intro p vBits vHash
    simp only [traverseAndBuild]
    cases parentOfMatch n vMatch (h + 1) p
    · simp
    · simp only [Bool.not_true, Bool.false_eq_true, if_false]
      rw [ih (p * 2) (vBits ++ [true]) vHash, ih (p * 2) ([] ++ [true]) []]
      split_ifs
      · rw [ih (p * 2 + 1), ih (p * 2 + 1) (([] ++ [true]) ++ _)]
        simp
      · simp

theorem traverseAndBuild_zero (p : Nat) :
    traverseAndBuild hash256 n vTxid vMatch 0 p ([], []) =
      ([parentOfMatch n vMatch 0 p], [calcHash hash256 n vTxid 0 p]) := rfl

/-- Where nothing below is matched, one bit and the node's hash. -/
theorem traverseAndBuild_succ_of_not {h p : Nat} (hpm : parentOfMatch n vMatch (h + 1) p = false) :
    traverseAndBuild hash256 n vTxid vMatch (h + 1) p ([], []) =
      ([false], [calcHash hash256 n vTxid (h + 1) p]) := by
  simp [traverseAndBuild, hpm]

/-- Above a match, one bit and then the children's walks, the right one where it exists. -/
theorem traverseAndBuild_succ_of_parent {h p : Nat} (hpm : parentOfMatch n vMatch (h + 1) p = true) :
    traverseAndBuild hash256 n vTxid vMatch (h + 1) p ([], []) =
      let left := traverseAndBuild hash256 n vTxid vMatch h (p * 2) ([], [])
      let right := if p * 2 + 1 < calcTreeWidth n h then
        traverseAndBuild hash256 n vTxid vMatch h (p * 2 + 1) ([], []) else ([], [])
      (true :: left.1 ++ right.1, left.2 ++ right.2) := by
  simp only [traverseAndBuild, hpm, Bool.not_true, Bool.false_eq_true, if_false]
  rw [traverseAndBuild_append hash256 n vTxid vMatch h (p * 2)]
  split_ifs
  · rw [traverseAndBuild_append hash256 n vTxid vMatch h (p * 2 + 1)]
    simp
  · simp

/-- A walk stores at most one hash per bit. -/
theorem length_hashes_le_bits : ∀ h p,
    (traverseAndBuild hash256 n vTxid vMatch h p ([], [])).2.length ≤
      (traverseAndBuild hash256 n vTxid vMatch h p ([], [])).1.length := by
  intro h
  induction h with
  | zero => exact fun _ => Nat.le_refl 1
  | succ h ih =>
    intro p
    cases hpm : parentOfMatch n vMatch (h + 1) p
    · rw [traverseAndBuild_succ_of_not hash256 n vTxid vMatch hpm]
      exact Nat.le_refl 1
    · rw [traverseAndBuild_succ_of_parent hash256 n vTxid vMatch hpm]
      have hleft := ih (p * 2)
      split_ifs with hr
      · have hright := ih (p * 2 + 1)
        simp only [List.length_append, List.length_cons]
        omega
      · simp only [List.length_append, List.length_cons, List.length_nil]
        omega

/-- A walk stores at most one hash per leaf below the node. -/
theorem length_hashes_le_leaves : ∀ h p, p < calcTreeWidth n h →
    (traverseAndBuild hash256 n vTxid vMatch h p ([], [])).2.length ≤ (leafRange n h p).length := by
  intro h
  induction h with
  | zero => exact fun _ hp => length_leafRange_pos hp
  | succ h ih =>
    intro p hp
    cases hpm : parentOfMatch n vMatch (h + 1) p
    · rw [traverseAndBuild_succ_of_not hash256 n vTxid vMatch hpm]
      exact length_leafRange_pos hp
    · rw [traverseAndBuild_succ_of_parent hash256 n vTxid vMatch hpm, leafRange_succ, List.length_append]
      have hleft := ih (p * 2) (lt_calcTreeWidth_succ_iff.mp hp)
      split_ifs with hr
      · have hright := ih (p * 2 + 1) hr
        rw [List.length_append]
        omega
      · rw [List.length_append, leafRange_eq_nil hr]
        simp only [List.length_nil]
        omega

/-- Whether the sibling test of `TraverseAndExtract` fires below node `(height, pos)` of the
built tree: below a parent of a match, some right child hashes like its left sibling. -/
def siblingCollision : (height pos : Nat) → Bool
  | 0, _ => false
  | height + 1, pos =>
    parentOfMatch n vMatch (height + 1) pos &&
      (siblingCollision height (pos * 2) ||
        (decide (pos * 2 + 1 < calcTreeWidth n height) &&
          (siblingCollision height (pos * 2 + 1) ||
            calcHash hash256 n vTxid height (pos * 2 + 1) == calcHash hash256 n vTxid height (pos * 2))))

/-- Distinct siblings never trip the test. -/
theorem siblingCollision_eq_false
    (hsib : ∀ h q, q * 2 + 1 < calcTreeWidth n h →
      calcHash hash256 n vTxid h (q * 2) ≠ calcHash hash256 n vTxid h (q * 2 + 1)) :
    ∀ h p, siblingCollision hash256 n vTxid vMatch h p = false := by
  intro h
  induction h with
  | zero => exact fun _ => rfl
  | succ h ih =>
    intro p
    rw [siblingCollision, ih, ih]
    by_cases hr : p * 2 + 1 < calcTreeWidth n h
    · have hne := hsib h p hr
      simp [Ne.symm hne]
    · simp [hr]

/-- Where the test fires, some right child hashes like its left sibling. -/
theorem siblings_of_siblingCollision :
    ∀ {h p : Nat}, siblingCollision hash256 n vTxid vMatch h p = true →
      ∃ h' q, q * 2 + 1 < calcTreeWidth n h' ∧
        calcHash hash256 n vTxid h' (q * 2 + 1) = calcHash hash256 n vTxid h' (q * 2)
  | 0, _, hsc => absurd hsc Bool.false_ne_true
  | h + 1, p, hsc => by
    simp only [siblingCollision, Bool.and_eq_true, Bool.or_eq_true, decide_eq_true_eq, beq_iff_eq] at hsc
    obtain ⟨-, hleft | ⟨hr, hright | heq⟩⟩ := hsc
    · exact siblings_of_siblingCollision hleft
    · exact siblings_of_siblingCollision hright
    · exact ⟨h, p, hr, heq⟩

/-- The state after extracting node `(height, pos)` of the tree built from `vTxid` and
`vMatch`, starting from `s`: both cursors past what building wrote there, the matched leaves
below appended, and `fBad` set on a sibling collision below. -/
def extractedState (s : ExtractState) (height pos : Nat) : ExtractState :=
  let built := traverseAndBuild hash256 n vTxid vMatch height pos ([], [])
  let leaves := (leafRange n height pos).filter (vMatch.getD · false)
  { nBitsUsed := s.nBitsUsed + built.1.length
    nHashUsed := s.nHashUsed + built.2.length
    vMatch := s.vMatch ++ leaves.map (vTxid.getD · Uint256.zero)
    vnIndex := s.vnIndex ++ leaves
    fBad := s.fBad || siblingCollision hash256 n vTxid vMatch height pos }

/-- Extracting a parent of a match with two children is extracting its bit, then the left
child, then the right one, and comparing their hashes. -/
theorem extractedState_succ_of_right {h p : Nat} (hpm : parentOfMatch n vMatch (h + 1) p = true)
    (hr : p * 2 + 1 < calcTreeWidth n h) (s : ExtractState) :
    (let s' := extractedState hash256 n vTxid vMatch
        (extractedState hash256 n vTxid vMatch { s with nBitsUsed := s.nBitsUsed + 1 } h (p * 2)) h (p * 2 + 1)
      if calcHash hash256 n vTxid h (p * 2 + 1) = calcHash hash256 n vTxid h (p * 2) then { s' with fBad := true }
      else s') = extractedState hash256 n vTxid vMatch s (h + 1) p := by
  simp only [extractedState, traverseAndBuild_succ_of_parent hash256 n vTxid vMatch hpm, if_pos hr,
    leafRange_succ n h p, List.filter_append, List.map_append, List.append_assoc, List.length_append,
    List.length_cons, siblingCollision, hpm, decide_eq_true hr, Bool.true_and]
  split_ifs with heq
  · refine (ExtractState.mk.injEq ..).mpr ⟨by omega, by omega, rfl, rfl, ?_⟩
    simp [heq]
  · refine (ExtractState.mk.injEq ..).mpr ⟨by omega, by omega, rfl, rfl, ?_⟩
    rw [beq_false_of_ne heq, Bool.or_false, Bool.or_assoc]

/-- Extracting a parent of a match without a right child is extracting its bit and the left
child. -/
theorem extractedState_succ_of_not_right {h p : Nat} (hpm : parentOfMatch n vMatch (h + 1) p = true)
    (hr : ¬ p * 2 + 1 < calcTreeWidth n h) (s : ExtractState) :
    extractedState hash256 n vTxid vMatch { s with nBitsUsed := s.nBitsUsed + 1 } h (p * 2) =
      extractedState hash256 n vTxid vMatch s (h + 1) p := by
  simp only [extractedState, traverseAndBuild_succ_of_parent hash256 n vTxid vMatch hpm, if_neg hr,
    leafRange_succ n h p, leafRange_eq_nil hr, List.append_nil, List.length_cons, siblingCollision, hpm, decide_eq_false hr, Bool.true_and,
    Bool.false_and, Bool.or_false, ExtractState.mk.injEq, and_true]
  omega

end Build

/-! ## Extracting -/

section Extract

variable (hash256 : List UInt8 → Uint256) (t : CPartialMerkleTree)

theorem useHash_of_getElem? {s : ExtractState} {x : Uint256} (hx : t.vHash[s.nHashUsed]? = some x)
    (height pos : Nat) (f : Bool) :
    useHash t height pos f s = (x, if height = 0 ∧ f = true then
        { s with nHashUsed := s.nHashUsed + 1, vMatch := s.vMatch ++ [x], vnIndex := s.vnIndex ++ [pos] }
      else { s with nHashUsed := s.nHashUsed + 1 }) := by
  obtain ⟨hlt, rfl⟩ := List.getElem?_eq_some_iff.mp hx
  rw [useHash, dif_pos hlt]
  split_ifs <;> rfl

theorem traverseAndExtract_zero {s : ExtractState} {b : Bool} (hb : t.vBits[s.nBitsUsed]? = some b)
    (pos : Nat) :
    traverseAndExtract hash256 t 0 pos s = useHash t 0 pos b { s with nBitsUsed := s.nBitsUsed + 1 } := by
  obtain ⟨hlt, rfl⟩ := List.getElem?_eq_some_iff.mp hb
  rw [traverseAndExtract, dif_pos hlt]

theorem traverseAndExtract_succ_of_not {s : ExtractState} (hb : t.vBits[s.nBitsUsed]? = some false)
    (height pos : Nat) :
    traverseAndExtract hash256 t (height + 1) pos s =
      useHash t (height + 1) pos false { s with nBitsUsed := s.nBitsUsed + 1 } := by
  obtain ⟨hlt, hget⟩ := List.getElem?_eq_some_iff.mp hb
  rw [traverseAndExtract, dif_pos hlt]
  simp only [hget, Bool.not_false, if_true]

theorem traverseAndExtract_succ_of_parent {s : ExtractState} (hb : t.vBits[s.nBitsUsed]? = some true)
    (height pos : Nat) :
    traverseAndExtract hash256 t (height + 1) pos s =
      let (left, s) := traverseAndExtract hash256 t height (pos * 2) { s with nBitsUsed := s.nBitsUsed + 1 }
      if pos * 2 + 1 < calcTreeWidth t.nTransactions height then
        let (right, s) := traverseAndExtract hash256 t height (pos * 2 + 1) s
        (pairHash hash256 left right, if right = left then { s with fBad := true } else s)
      else (pairHash hash256 left left, s) := by
  obtain ⟨hlt, hget⟩ := List.getElem?_eq_some_iff.mp hb
  rw [traverseAndExtract, dif_pos hlt]
  simp only [hget, Bool.not_true, Bool.false_eq_true, if_false]

/-- **Extraction reads back what building wrote.**  From a state whose cursors point at the
bits and the hashes `TraverseAndBuild` wrote for node `(height, pos)`, followed by anything,
`TraverseAndExtract` returns the node's `CalcHash` and ends in `extractedState`.  By induction
on the height; at a parent of a match the left child's walk leaves the cursors at the right
child's bits and hashes. -/
theorem traverseAndExtract_build (vTxid : List Uint256) (vMatch : List Bool) :
    ∀ (h p : Nat) (s : ExtractState) (restBits : List Bool) (restHashes : List Uint256),
      t.vBits.drop s.nBitsUsed =
          (traverseAndBuild hash256 t.nTransactions vTxid vMatch h p ([], [])).1 ++ restBits →
      t.vHash.drop s.nHashUsed =
          (traverseAndBuild hash256 t.nTransactions vTxid vMatch h p ([], [])).2 ++ restHashes →
      traverseAndExtract hash256 t h p s =
        (calcHash hash256 t.nTransactions vTxid h p, extractedState hash256 t.nTransactions vTxid vMatch s h p) := by
  intro h
  induction h with
  | zero =>
    intro p s restBits restHashes hbits hhashes
    rw [traverseAndBuild_zero] at hbits hhashes
    rw [traverseAndExtract_zero hash256 t (Buffer.getElem?_of_drop_eq hbits),
      useHash_of_getElem? t (s := { s with nBitsUsed := s.nBitsUsed + 1 }) (Buffer.getElem?_of_drop_eq hhashes)]
    simp only [extractedState, traverseAndBuild_zero, filter_leafRange_zero, siblingCollision]
    cases parentOfMatch t.nTransactions vMatch 0 p <;> simp [calcHash]
  | succ h ih =>
    intro p s restBits restHashes hbits hhashes
    cases hpm : parentOfMatch t.nTransactions vMatch (h + 1) p
    · -- nothing matched below: one bit and the stored hash
      rw [traverseAndBuild_succ_of_not hash256 _ vTxid vMatch hpm] at hbits hhashes
      rw [traverseAndExtract_succ_of_not hash256 t (Buffer.getElem?_of_drop_eq hbits),
        useHash_of_getElem? t (s := { s with nBitsUsed := s.nBitsUsed + 1 }) (Buffer.getElem?_of_drop_eq hhashes)]
      simp only [extractedState, traverseAndBuild_succ_of_not hash256 _ vTxid vMatch hpm,
        filter_leafRange_of_parentOfMatch hpm, siblingCollision, hpm]
      simp
    · -- a parent of a match: its bit, then the left child's walk, then the right one's
      by_cases hr : p * 2 + 1 < calcTreeWidth t.nTransactions h
      · simp only [traverseAndBuild_succ_of_parent hash256 _ vTxid vMatch hpm, if_pos hr, List.cons_append,
          List.append_assoc] at hbits hhashes
        have hleftBits : t.vBits.drop (s.nBitsUsed + 1) = _ := @Buffer.drop_add_of_drop_eq _ _ _ [true] _ hbits
        have hrightBits := Buffer.drop_add_of_drop_eq hleftBits
        have hrightHashes := Buffer.drop_add_of_drop_eq hhashes
        rw [traverseAndExtract_succ_of_parent hash256 t (Buffer.getElem?_of_drop_eq hbits),
          ih (p * 2) { s with nBitsUsed := s.nBitsUsed + 1 } _ _ hleftBits hhashes]
        dsimp only
        rw [if_pos hr, ih (p * 2 + 1) _ restBits restHashes hrightBits hrightHashes,
          ← extractedState_succ_of_right hash256 _ vTxid vMatch hpm hr s, calcHash_succ, if_pos hr]
      · simp only [traverseAndBuild_succ_of_parent hash256 _ vTxid vMatch hpm, if_neg hr, List.append_nil,
          List.cons_append] at hbits hhashes
        have hleftBits : t.vBits.drop (s.nBitsUsed + 1) = _ := @Buffer.drop_add_of_drop_eq _ _ _ [true] _ hbits
        rw [traverseAndExtract_succ_of_parent hash256 t (Buffer.getElem?_of_drop_eq hbits),
          ih (p * 2) { s with nBitsUsed := s.nBitsUsed + 1 } _ _ hleftBits hhashes]
        dsimp only
        rw [if_neg hr, calcHash_succ, if_neg hr, extractedState_succ_of_not_right hash256 _ vTxid vMatch hpm hr s]

end Extract

/-! ## `ExtractMatches` on a built tree -/

section RoundTrip

variable (hash256 : List UInt8 → Uint256)

/-- The tree `CPartialMerkleTree(vTxid, vMatch)` builds: the walk from the root. -/
theorem ofTxids_eq_some {vTxid : List Uint256} (hne : vTxid ≠ []) (vMatch : List Bool) :
    ofTxids hash256 vTxid vMatch = some ⟨vTxid.length,
      (traverseAndBuild hash256 vTxid.length vTxid vMatch (treeHeight vTxid.length) 0 ([], [])).1,
      (traverseAndBuild hash256 vTxid.length vTxid vMatch (treeHeight vTxid.length) 0 ([], [])).2, false⟩ := by
  rw [ofTxids, if_neg (by simpa using hne)]

/-- **`ExtractMatches` on a built tree.**  Every size check passes, both streams are consumed,
and the matched transactions come out in order of position; the root is the block's Merkle
root unless the sibling test fires, in which case extraction fails with `fBad` set. -/
theorem extractMatches_ofTxids_eq {vTxid : List Uint256} (hne : vTxid ≠ [])
    (hmax : vTxid.length ≤ maxBlockWeight / minTransactionWeight) (vMatch : List Bool)
    (vMatch0 : List Uint256) (vnIndex : List Nat) :
    ∃ t, ofTxids hash256 vTxid vMatch = some t ∧
      t.extractMatches hash256 vMatch0 vnIndex =
        let leaves := (List.range vTxid.length).filter (vMatch.getD · false)
        if siblingCollision hash256 vTxid.length vTxid vMatch (treeHeight vTxid.length) 0 then
          ⟨Uint256.zero, leaves.map (vTxid.getD · Uint256.zero), vnIndex ++ leaves, true⟩
        else ⟨(computeMerkleRoot hash256 vTxid).1, leaves.map (vTxid.getD · Uint256.zero), vnIndex ++ leaves, false⟩ := by
  refine ⟨_, ofTxids_eq_some hash256 hne vMatch, ?_⟩
  have hn : 0 < vTxid.length := List.length_pos_iff.mpr hne
  have htop : 0 < calcTreeWidth vTxid.length (treeHeight vTxid.length) := by
    rw [calcTreeWidth_treeHeight hn]
    exact Nat.one_pos
  have hleaves := length_hashes_le_leaves hash256 _ vTxid vMatch _ 0 htop
  rw [leafRange_top, List.length_range] at hleaves
  have hbits := length_hashes_le_bits hash256 vTxid.length vTxid vMatch (treeHeight vTxid.length) 0
  rw [extractMatches, if_neg (by dsimp only; omega), if_neg (by dsimp only; omega), if_neg (by dsimp only; omega),
    if_neg (by dsimp only; omega)]
  dsimp only
  rw [traverseAndExtract_build hash256 _ vTxid vMatch (treeHeight vTxid.length) 0 ⟨0, 0, [], vnIndex, false⟩ [] []
    (by simp) (by simp)]
  simp only [extractedState, leafRange_top, Bool.false_or, List.nil_append, Nat.zero_add, ne_eq, not_true_eq_false,
    if_false]
  cases siblingCollision hash256 vTxid.length vTxid vMatch (treeHeight vTxid.length) 0
  · rw [if_neg Bool.false_ne_true, if_neg Bool.false_ne_true, calcHash_top hash256 hne]
  · rfl

/-- **Partial Merkle trees round-trip.**  For a non-empty block within the weight bound whose
sibling subtrees have distinct hashes, the tree built from `vTxid` and `vMatch` extracts the
block's Merkle root, replaces the caller's `vMatch` by the matched txids in order of
position, and appends their positions to the caller's `vnIndex`; `CalcHash` at the top is
`ComputeMerkleRoot`'s root. -/
theorem extractMatches_ofTxids {vTxid : List Uint256} (hne : vTxid ≠ [])
    (hmax : vTxid.length ≤ maxBlockWeight / minTransactionWeight) (vMatch : List Bool)
    (hsib : ∀ h q, q * 2 + 1 < calcTreeWidth vTxid.length h →
      calcHash hash256 vTxid.length vTxid h (q * 2) ≠ calcHash hash256 vTxid.length vTxid h (q * 2 + 1))
    (vMatch0 : List Uint256) (vnIndex : List Nat) :
    calcHash hash256 vTxid.length vTxid (treeHeight vTxid.length) 0 = (computeMerkleRoot hash256 vTxid).1 ∧
      ∃ t, ofTxids hash256 vTxid vMatch = some t ∧
        t.extractMatches hash256 vMatch0 vnIndex =
          ⟨(computeMerkleRoot hash256 vTxid).1,
            ((List.range vTxid.length).filter (vMatch.getD · false)).map (vTxid.getD · Uint256.zero),
            vnIndex ++ (List.range vTxid.length).filter (vMatch.getD · false), false⟩ := by
  obtain ⟨t, ht, hext⟩ := extractMatches_ofTxids_eq hash256 hne hmax vMatch vMatch0 vnIndex
  refine ⟨calcHash_top hash256 hne, t, ht, ?_⟩
  rw [hext, siblingCollision_eq_false hash256 _ vTxid vMatch hsib]
  rfl

/-- In a tree of two transactions the only siblings are the two leaves. -/
theorem siblings_of_two {h q : Nat} (hq : q * 2 + 1 < calcTreeWidth 2 h) : h = 0 ∧ q = 0 := by
  rw [lt_calcTreeWidth_iff] at hq
  have hpos := Nat.two_pow_pos h
  have hle : 2 ^ h ≤ (q * 2 + 1) * 2 ^ h := Nat.le_mul_of_pos_left _ (Nat.succ_pos _)
  have hq' : q * 2 + 1 ≤ (q * 2 + 1) * 2 ^ h := Nat.le_mul_of_pos_right _ hpos
  refine ⟨?_, by omega⟩
  by_contra hh
  have := Nat.one_lt_two_pow hh
  omega

theorem extractMatches_ofTxids_twoTxids :
    calcHash cHash256 2 [⟨Vector.replicate 32 1⟩, ⟨Vector.replicate 32 2⟩] (treeHeight 2) 0 =
        (computeMerkleRoot cHash256 [⟨Vector.replicate 32 1⟩, ⟨Vector.replicate 32 2⟩]).1 ∧
      ∃ t, ofTxids cHash256 [⟨Vector.replicate 32 1⟩, ⟨Vector.replicate 32 2⟩] [false, true] = some t ∧
        t.extractMatches cHash256 [] [7] =
          ⟨(computeMerkleRoot cHash256 [⟨Vector.replicate 32 1⟩, ⟨Vector.replicate 32 2⟩]).1,
            [⟨Vector.replicate 32 2⟩], [7, 1], false⟩ :=
  by
  have hmax : [(⟨Vector.replicate 32 1⟩ : Uint256), ⟨Vector.replicate 32 2⟩].length ≤ maxBlockWeight / minTransactionWeight := by
    decide
  have hsib : ∀ h q, q * 2 + 1 < calcTreeWidth [(⟨Vector.replicate 32 1⟩ : Uint256), ⟨Vector.replicate 32 2⟩].length h →
      calcHash cHash256 2 [⟨Vector.replicate 32 1⟩, ⟨Vector.replicate 32 2⟩] h (q * 2) ≠
        calcHash cHash256 2 [⟨Vector.replicate 32 1⟩, ⟨Vector.replicate 32 2⟩] h (q * 2 + 1) := by
    intro h q hq
    obtain ⟨rfl, rfl⟩ := siblings_of_two hq
    show (⟨Vector.replicate 32 1⟩ : Uint256) ≠ ⟨Vector.replicate 32 2⟩
    decide
  obtain ⟨htop, t, ht, hext⟩ := extractMatches_ofTxids cHash256 (by simp) hmax [false, true] hsib [] [7]
  exact ⟨htop, t, ht, hext⟩

/-- `ExtractMatches` appends to `vnIndex` rather than setting it: a caller's stale index stays
in front of the one match. -/
theorem extractMatches_keeps_vnIndex :
    (ofTxids cHash256 [Uint256.zero] [true]).map (fun t => t.extractMatches cHash256 [] [7]) =
      some ⟨Uint256.zero, [Uint256.zero], [7, 0], false⟩ := by
  rfl

/-- **A failed extraction of a built tree is a hash collision.**  Over distinct txids, the
duplicate-branch test of `TraverseAndExtract` fires on a tree `CPartialMerkleTree` built only
where `SHA256D64` maps two different pairs of hashes to one. -/
theorem extractMatches_ofTxids_collision {vTxid : List Uint256} (hne : vTxid ≠ [])
    (hmax : vTxid.length ≤ maxBlockWeight / minTransactionWeight) (hnd : vTxid.Nodup) (vMatch : List Bool)
    (vMatch0 : List Uint256) (vnIndex : List Nat) {t : CPartialMerkleTree}
    (ht : ofTxids hash256 vTxid vMatch = some t) (hbad : (t.extractMatches hash256 vMatch0 vnIndex).fBad = true) :
    ∃ a b c d : Uint256, (a, b) ≠ (c, d) ∧ pairHash hash256 a b = pairHash hash256 c d := by
  obtain ⟨t', ht', hext⟩ := extractMatches_ofTxids_eq hash256 hne hmax vMatch vMatch0 vnIndex
  obtain rfl : t = t' := Option.some.inj (ht.symm.trans ht')
  rw [hext] at hbad
  cases hsc : siblingCollision hash256 vTxid.length vTxid vMatch (treeHeight vTxid.length) 0
  · rw [hsc] at hbad
    exact absurd hbad Bool.false_ne_true
  · obtain ⟨h, q, hr, heq⟩ := siblings_of_siblingCollision hash256 _ vTxid vMatch hsc
    exact collision_of_calcHash_eq hash256 hnd hr (by omega) (by omega) heq

/-- With a hash that maps everything to zero, the two nodes of height one in a tree of three
transactions collide. -/
theorem extractMatches_ofTxids_collision_constHash :
    ∃ t, ofTxids (fun _ => Uint256.zero)
        [⟨Vector.replicate 32 1⟩, ⟨Vector.replicate 32 2⟩, ⟨Vector.replicate 32 3⟩] [true, true, true] = some t ∧
      (t.extractMatches (fun _ => Uint256.zero) [] []).fBad = true ∧
      ∃ a b c d : Uint256, (a, b) ≠ (c, d) ∧
        pairHash (fun _ => Uint256.zero) a b = pairHash (fun _ => Uint256.zero) c d := by
  have hne : ([⟨Vector.replicate 32 1⟩, ⟨Vector.replicate 32 2⟩, ⟨Vector.replicate 32 3⟩] : List Uint256) ≠ [] :=
    List.cons_ne_nil _ _
  have hmax : ([⟨Vector.replicate 32 1⟩, ⟨Vector.replicate 32 2⟩, ⟨Vector.replicate 32 3⟩] : List Uint256).length ≤
      maxBlockWeight / minTransactionWeight := by
    decide
  have hnd : ([⟨Vector.replicate 32 1⟩, ⟨Vector.replicate 32 2⟩, ⟨Vector.replicate 32 3⟩] : List Uint256).Nodup := by
    decide
  have hsc : siblingCollision (fun _ => Uint256.zero)
      ([⟨Vector.replicate 32 1⟩, ⟨Vector.replicate 32 2⟩, ⟨Vector.replicate 32 3⟩] : List Uint256).length
      [⟨Vector.replicate 32 1⟩, ⟨Vector.replicate 32 2⟩, ⟨Vector.replicate 32 3⟩] [true, true, true]
      (treeHeight ([⟨Vector.replicate 32 1⟩, ⟨Vector.replicate 32 2⟩, ⟨Vector.replicate 32 3⟩] : List Uint256).length)
      0 = true := by
    show siblingCollision _ 3 _ _ (treeHeight 3) 0 = true
    have hH : treeHeight 3 = 2 := by decide
    have hpm : parentOfMatch 3 [true, true, true] 2 0 = true := by decide
    have hw : 0 * 2 + 1 < calcTreeWidth 3 1 := by decide
    rw [hH, siblingCollision, hpm, decide_eq_true hw]
    simp [calcHash_succ, pairHash]
  obtain ⟨t, ht, hext⟩ := extractMatches_ofTxids_eq (fun _ => Uint256.zero) hne hmax [true, true, true] [] []
  have hbad : (t.extractMatches (fun _ => Uint256.zero) [] []).fBad = true := by
    rw [hext]
    dsimp only
    rw [if_pos hsc]
  exact ⟨t, ht, hbad, extractMatches_ofTxids_collision (fun _ => Uint256.zero) hne hmax hnd [true, true, true] [] [] ht hbad⟩

end RoundTrip

end CPartialMerkleTree

end Sumcoin
