import Sumcoin.Primitives.Serialize

/-!
# Merkle roots: `consensus/merkle.cpp`

`ComputeMerkleRoot` replaces the list of hashes by the list of hashes of adjacent
pairs, the last one paired with itself when the count is odd, until one is left.
With `mutated` it also reports whether some level paired two equal hashes, the
duplicated-transaction malleability (CVE-2012-2459) that `CheckBlock` rejects.

The loop runs while more than one hash is left; each level at least halves the list,
so the list's length is fuel enough (`merkleLoop_succ`).

## Main definitions

* `computeMerkleRoot`, `blockMerkleRoot`, `blockWitnessMerkleRoot`.
-/

namespace Sumcoin

variable (hash256 : List UInt8 → Uint256)

/-- `SHA256D64` over one level: each adjacent pair hashed as 64 bytes, the last hash
paired with itself when the count is odd (`hashes.push_back(hashes.back())`). -/
def merkleLevel : List Uint256 → List Uint256
  | a :: b :: rest => hash256 (a.data.toList ++ b.data.toList) :: merkleLevel rest
  | [a] => [hash256 (a.data.toList ++ a.data.toList)]
  | [] => []

/-- Whether some pair at an even position holds two equal hashes. -/
def levelMutated : List Uint256 → Bool
  | a :: b :: rest => a == b || levelMutated rest
  | _ => false

/-- The `while (hashes.size() > 1)` loop, with `fuel` for the levels left; returns the
remaining hashes and the mutation flag. -/
def merkleLoop : (fuel : Nat) → List Uint256 → Bool → List Uint256 × Bool
  | 0, hashes, mutation => (hashes, mutation)
  | fuel + 1, hashes, mutation =>
    if hashes.length > 1 then
      merkleLoop fuel (merkleLevel hash256 hashes) (mutation || levelMutated hashes)
    else (hashes, mutation)

/-- `ComputeMerkleRoot(hashes, &mutated)`: the root, `uint256()` for no hashes, and
the mutation flag. -/
def computeMerkleRoot (hashes : List Uint256) : Uint256 × Bool :=
  let r := merkleLoop hash256 hashes.length hashes false
  (r.1.headD Uint256.zero, r.2)

/-- `BlockMerkleRoot(block, &mutated)`: over the transaction hashes. -/
def blockMerkleRoot (vtx : List CTransaction) : Uint256 × Bool :=
  computeMerkleRoot hash256 (vtx.map (CTransaction.getHash hash256))

/-- `BlockWitnessMerkleRoot(block, &mutated)`: over the witness hashes, the coinbase's
taken as zero.  The source writes `leaves[0]` unconditionally; its callers run it only
on blocks that `CheckBlock` found non-empty. -/
def blockWitnessMerkleRoot (vtx : List CTransaction) : Uint256 × Bool :=
  computeMerkleRoot hash256 (Uint256.zero :: (vtx.drop 1).map (CTransaction.getWitnessHash hash256))

/-! ## The loop ends -/

theorem length_merkleLevel (hashes : List Uint256) :
    (merkleLevel hash256 hashes).length = (hashes.length + 1) / 2 := by
  induction hashes using merkleLevel.induct with
  | case1 a b rest ih =>
    simp only [merkleLevel, List.length_cons, ih]
    omega
  | case2 a => simp [merkleLevel]
  | case3 => rfl

/-- Once the fuel covers the length, more fuel changes nothing: every level with more
than one hash strictly shortens the list. -/
theorem merkleLoop_succ {fuel : Nat} {hashes : List Uint256} (mutation : Bool)
    (h : hashes.length ≤ fuel) :
    merkleLoop hash256 (fuel + 1) hashes mutation = merkleLoop hash256 fuel hashes mutation := by
  induction fuel generalizing hashes mutation with
  | zero =>
    have h0 : ¬ hashes.length > 1 := by omega
    rw [merkleLoop.eq_2, if_neg h0, merkleLoop.eq_1]
  | succ fuel ih =>
    conv_lhs => rw [merkleLoop]
    conv_rhs => rw [merkleLoop]
    by_cases hgt : hashes.length > 1
    case pos =>
      have hlen := length_merkleLevel hash256 hashes
      rw [if_pos hgt, if_pos hgt, ih _ (by omega)]
    case neg => rw [if_neg hgt, if_neg hgt]

/-- The loop leaves at most one hash. -/
theorem length_merkleLoop_le {fuel : Nat} {hashes : List Uint256} (mutation : Bool)
    (h : hashes.length ≤ fuel) : (merkleLoop hash256 fuel hashes mutation).1.length ≤ 1 := by
  induction fuel generalizing hashes mutation with
  | zero =>
    simp only [merkleLoop]
    omega
  | succ fuel ih =>
    rw [merkleLoop]
    split
    case isTrue hgt =>
      have hlen := length_merkleLevel hash256 hashes
      exact ih _ (by omega)
    case isFalse hle => simpa using hle

end Sumcoin
