import Sumcoin.Consensus.Merkle

/-!
# Mutation detection in `ComputeMerkleRoot`, and the loop as the source runs it

Each level of `ComputeMerkleRoot` pairs the last hash with itself when the count is odd,
so `[1, 2, 3]` and `[1, 2, 3, 3]` have one root (CVE-2012-2459).  The defence flags a
level that pairs two equal hashes at an even position.  This module shows the defence
complete for trees of one depth: two distinct non-empty lists of hashes whose counts have
the same `⌈log₂⌉` and whose roots agree are told apart by the flag of one of them, unless
`SHA256D64` maps two distinct pairs of the two computations to one hash
(`computeMerkleRoot_mutation_complete`).  The argument walks down from the root: two
equal levels come from two equal levels, from a level with an even pair of equal hashes,
or from a collision (`merkleLevel_eq_cases`); equal depth makes both walks reach the
leaves together.  Between trees of different depths there is no such defence: a list of
interior hashes has the root of the leaves below them.

The source loop works in place: it scans the level for equal pairs, pushes a copy of the
last hash when the count is odd, lets `SHA256D64` write the hash of block `i` over
position `i`, and cuts the vector to half its size.  `computeMerkleRootInPlace` is that
loop; a write at `i` never reaches the pairs still to be read at `2 i` and above, so each
pass leaves `merkleLevel` of the level in front (`merkleLevelInPlace_eq`), and the loop
computes `computeMerkleRoot`, root and flag (`computeMerkleRootInPlace_eq`).  The flag is
computed whether or not the caller asked for it: the scan has no other effect.

## Main definitions

* `pairHash`, `levelPairs`, `merklePairs`, `PairCollision`.
* `sha256D64InPlace`, `mutationScan`, `computeMerkleRootLoop`, `computeMerkleRootInPlace`.
-/

namespace Sumcoin

variable (hash256 : List UInt8 → Uint256)

/-- `SHA256D64` of one block: the 64 bytes of two hashes. -/
def pairHash (a b : Uint256) : Uint256 := hash256 (a.data.toList ++ b.data.toList)

/-- The pairs one level hashes, the last hash with itself when the count is odd. -/
def levelPairs : List Uint256 → List (Uint256 × Uint256)
  | a :: b :: rest => (a, b) :: levelPairs rest
  | [a] => [(a, a)]
  | [] => []

/-- The pairs the loop hashes, level after level, with `fuel` for the levels left. -/
def merklePairs : (fuel : Nat) → List Uint256 → List (Uint256 × Uint256)
  | 0, _ => []
  | fuel + 1, hashes =>
    if hashes.length > 1 then levelPairs hashes ++ merklePairs fuel (merkleLevel hash256 hashes)
    else []

/-- Two distinct pairs, one from each list, that `SHA256D64` maps to one hash. -/
def PairCollision (P Q : List (Uint256 × Uint256)) : Prop :=
  ∃ p ∈ P, ∃ q ∈ Q, p ≠ q ∧ pairHash hash256 p.1 p.2 = pairHash hash256 q.1 q.2

/-! ## One level -/

theorem merkleLevel_cons_cons (a b : Uint256) (rest : List Uint256) :
    merkleLevel hash256 (a :: b :: rest) = pairHash hash256 a b :: merkleLevel hash256 rest := rfl

theorem merkleLevel_singleton (a : Uint256) :
    merkleLevel hash256 [a] = [pairHash hash256 a a] := rfl

theorem merkleLevel_eq_nil_iff {hashes : List Uint256} :
    merkleLevel hash256 hashes = [] ↔ hashes = [] := by
  rw [← List.length_eq_zero_iff, length_merkleLevel, ← List.length_eq_zero_iff]
  omega

theorem PairCollision.cons_left {P Q : List (Uint256 × Uint256)} (p : Uint256 × Uint256)
    (h : PairCollision hash256 P Q) : PairCollision hash256 (p :: P) Q := by
  obtain ⟨x, hx, y, hy, hne, heq⟩ := h
  exact ⟨x, List.mem_cons_of_mem _ hx, y, hy, hne, heq⟩

theorem PairCollision.cons_right {P Q : List (Uint256 × Uint256)} (q : Uint256 × Uint256)
    (h : PairCollision hash256 P Q) : PairCollision hash256 P (q :: Q) := by
  obtain ⟨x, hx, y, hy, hne, heq⟩ := h
  exact ⟨x, hx, y, List.mem_cons_of_mem _ hy, hne, heq⟩

theorem PairCollision.append {P Q P' Q' : List (Uint256 × Uint256)}
    (h : PairCollision hash256 P Q) : PairCollision hash256 (P ++ P') (Q ++ Q') := by
  obtain ⟨x, hx, y, hy, hne, heq⟩ := h
  exact ⟨x, List.mem_append_left _ hx, y, List.mem_append_left _ hy, hne, heq⟩

theorem PairCollision.append_append {P Q P' Q' : List (Uint256 × Uint256)}
    (h : PairCollision hash256 P' Q') : PairCollision hash256 (P ++ P') (Q ++ Q') := by
  obtain ⟨x, hx, y, hy, hne, heq⟩ := h
  exact ⟨x, List.mem_append_right _ hx, y, List.mem_append_right _ hy, hne, heq⟩

/-- Two pairs that hash alike are equal, or they collide. -/
theorem pair_eq_or_collision {p q : Uint256 × Uint256} {P Q : List (Uint256 × Uint256)}
    (hp : p ∈ P) (hq : q ∈ Q) (h : pairHash hash256 p.1 p.2 = pairHash hash256 q.1 q.2) :
    p = q ∨ PairCollision hash256 P Q := by
  by_cases hpq : p = q
  case pos => exact Or.inl hpq
  case neg => exact Or.inr ⟨p, hp, q, hq, hpq, h⟩

/-- **Equal levels come from equal levels**, from a level that pairs two equal hashes,
or from a collision: by induction on the pairs of the first level, with the second split
the same way. -/
theorem merkleLevel_eq_cases {L1 L2 : List Uint256}
    (h : merkleLevel hash256 L1 = merkleLevel hash256 L2) :
    L1 = L2 ∨ levelMutated L1 = true ∨ levelMutated L2 = true ∨
      PairCollision hash256 (levelPairs L1) (levelPairs L2) := by
  induction L1 using merkleLevel.induct generalizing L2 with
  | case1 a b rest ih =>
    rcases L2 with _ | ⟨c, _ | ⟨d, rest2⟩⟩
    case nil => exact absurd h (by simp [merkleLevel])
    case cons.nil =>
      -- one pair against the last hash paired with itself: `a = b`, or a collision
      rw [merkleLevel_cons_cons, merkleLevel_singleton, List.cons.injEq] at h
      rcases pair_eq_or_collision hash256 (p := (a, b)) (q := (c, c)) (P := levelPairs (a :: b :: rest))
          (Q := levelPairs [c]) (List.mem_cons_self ..) (List.mem_singleton_self _) h.1 with
        hpq | hcol
      case inl =>
        simp only [Prod.mk.injEq] at hpq
        right; left
        simp [levelMutated, hpq.1, hpq.2]
      case inr => exact Or.inr (Or.inr (Or.inr hcol))
    case cons.cons =>
      rw [merkleLevel_cons_cons, merkleLevel_cons_cons, List.cons.injEq] at h
      rcases pair_eq_or_collision hash256 (p := (a, b)) (q := (c, d)) (P := levelPairs (a :: b :: rest))
          (Q := levelPairs (c :: d :: rest2)) (List.mem_cons_self ..) (List.mem_cons_self ..) h.1 with
        hpq | hcol
      case inl =>
        simp only [Prod.mk.injEq] at hpq
        obtain ⟨rfl, rfl⟩ := hpq
        -- the first pairs agree: the rest decides
        rcases ih h.2 with heq | hm | hm | hcol
        · exact Or.inl (by rw [heq])
        · right; left
          simp [levelMutated, hm]
        · right; right; left
          simp [levelMutated, hm]
        · exact Or.inr (Or.inr (Or.inr ((hcol.cons_left hash256 _).cons_right hash256 _)))
      case inr => exact Or.inr (Or.inr (Or.inr hcol))
  | case2 a =>
    rcases L2 with _ | ⟨c, _ | ⟨d, rest2⟩⟩
    case nil => exact absurd h (by simp [merkleLevel])
    case cons.nil =>
      rw [merkleLevel_singleton, merkleLevel_singleton, List.cons.injEq] at h
      rcases pair_eq_or_collision hash256 (p := (a, a)) (q := (c, c)) (P := levelPairs [a])
          (Q := levelPairs [c]) (List.mem_singleton_self _) (List.mem_singleton_self _) h.1 with
        hpq | hcol
      case inl =>
        simp only [Prod.mk.injEq] at hpq
        exact Or.inl (by rw [hpq.1])
      case inr => exact Or.inr (Or.inr (Or.inr hcol))
    case cons.cons =>
      rw [merkleLevel_singleton, merkleLevel_cons_cons, List.cons.injEq] at h
      rcases pair_eq_or_collision hash256 (p := (a, a)) (q := (c, d)) (P := levelPairs [a])
          (Q := levelPairs (c :: d :: rest2)) (List.mem_singleton_self _) (List.mem_cons_self ..)
          h.1 with
        hpq | hcol
      case inl =>
        simp only [Prod.mk.injEq] at hpq
        right; right; left
        simp [levelMutated, ← hpq.1, ← hpq.2]
      case inr => exact Or.inr (Or.inr (Or.inr hcol))
  | case3 =>
    have hL2 : L2 = [] := (merkleLevel_eq_nil_iff hash256).mp (by rw [← h]; rfl)
    exact Or.inl hL2.symm

/-! ## The loop -/

/-- Once a mutation is seen it stays seen. -/
theorem merkleLoop_mutation (fuel : Nat) (hashes : List Uint256) :
    (merkleLoop hash256 fuel hashes true).2 = true := by
  induction fuel generalizing hashes with
  | zero => rfl
  | succ fuel ih =>
    rw [merkleLoop]
    split
    case isTrue => rw [Bool.true_or]; exact ih _
    case isFalse => rfl

theorem merkleLoop_ne_nil (fuel : Nat) {hashes : List Uint256} (mutation : Bool)
    (h : hashes ≠ []) : (merkleLoop hash256 fuel hashes mutation).1 ≠ [] := by
  induction fuel generalizing hashes mutation with
  | zero => exact h
  | succ fuel ih =>
    rw [merkleLoop]
    split
    case isTrue => exact ih _ (fun hnil => h ((merkleLevel_eq_nil_iff hash256).mp hnil))
    case isFalse => exact h

/-- A non-empty list ends as its root alone. -/
theorem merkleLoop_eq_singleton {fuel : Nat} {hashes : List Uint256} (mutation : Bool)
    (h : hashes ≠ []) (hfuel : hashes.length ≤ fuel) :
    ∃ root, (merkleLoop hash256 fuel hashes mutation).1 = [root] := by
  have hle := length_merkleLoop_le hash256 mutation hfuel
  have hne := merkleLoop_ne_nil hash256 fuel mutation h
  rcases hr : (merkleLoop hash256 fuel hashes mutation).1 with _ | ⟨root, _ | ⟨_, _⟩⟩
  case nil => exact absurd hr hne
  case cons.nil => exact ⟨root, rfl⟩
  case cons.cons =>
    rw [hr] at hle
    simp at hle

theorem merklePairs_succ {fuel : Nat} {hashes : List Uint256} (h : hashes.length ≤ fuel) :
    merklePairs hash256 (fuel + 1) hashes = merklePairs hash256 fuel hashes := by
  induction fuel generalizing hashes with
  | zero =>
    have h0 : ¬ hashes.length > 1 := by omega
    rw [merklePairs.eq_2, if_neg h0, merklePairs.eq_1]
  | succ fuel ih =>
    conv_lhs => rw [merklePairs]
    conv_rhs => rw [merklePairs]
    by_cases hgt : hashes.length > 1
    case pos =>
      have hlen := length_merkleLevel hash256 hashes
      rw [if_pos hgt, if_pos hgt, ih (by omega)]
    case neg => rw [if_neg hgt, if_neg hgt]

/-- More fuel than the length changes neither the loop nor the pairs it hashes. -/
theorem merkleLoop_of_le {fuel fuel' : Nat} {hashes : List Uint256} (mutation : Bool)
    (h : hashes.length ≤ fuel) (h' : fuel ≤ fuel') :
    merkleLoop hash256 fuel' hashes mutation = merkleLoop hash256 fuel hashes mutation ∧
      merklePairs hash256 fuel' hashes = merklePairs hash256 fuel hashes := by
  induction h' with
  | refl => exact ⟨rfl, rfl⟩
  | step hle ih =>
    rw [merkleLoop_succ hash256 mutation (Nat.le_trans h hle), merklePairs_succ hash256
      (Nat.le_trans h hle)]
    exact ih

/-- One more level down, `⌈log₂⌉` of the count drops by one. -/
theorem clog_length_merkleLevel {hashes : List Uint256} (h : hashes.length > 1) :
    Nat.clog 2 hashes.length = Nat.clog 2 (merkleLevel hash256 hashes).length + 1 := by
  rw [length_merkleLevel, Nat.clog_of_one_lt (by decide) h,
    show hashes.length + 2 - 1 = hashes.length + 1 by omega]

/-- A count of depth zero is at most one. -/
theorem length_le_one_of_clog {n : Nat} (h : Nat.clog 2 n = 0) : n ≤ 1 := by
  by_contra hn
  have := Nat.clog_pos (b := 2) (by decide) (by omega : 1 < n)
  omega

/-- **The flag is complete over the loop**: two non-empty lists of one depth whose loops
end at one root are equal, or one loop raised the flag, or the two hashed colliding
pairs.  By induction on the fuel, with `merkleLevel_eq_cases` at the top level and the
induction hypothesis on the levels below. -/
theorem merkleLoop_mutation_complete (fuel : Nat) :
    ∀ (L1 L2 : List Uint256) (m1 m2 : Bool), L1 ≠ [] → L2 ≠ [] →
      L1.length ≤ fuel → L2.length ≤ fuel → Nat.clog 2 L1.length = Nat.clog 2 L2.length →
      (merkleLoop hash256 fuel L1 m1).1 = (merkleLoop hash256 fuel L2 m2).1 →
      L1 = L2 ∨ (merkleLoop hash256 fuel L1 m1).2 = true ∨
        (merkleLoop hash256 fuel L2 m2).2 = true ∨
        PairCollision hash256 (merklePairs hash256 fuel L1) (merklePairs hash256 fuel L2) := by
  induction fuel with
  | zero =>
    intro L1 L2 m1 m2 h1 _ hlen1 _ _ _
    exact absurd (List.eq_nil_of_length_eq_zero (by omega)) h1
  | succ fuel ih =>
    intro L1 L2 m1 m2 h1 h2 hlen1 hlen2 hdepth hroot
    by_cases hgt1 : L1.length > 1
    case pos =>
      -- both lists have a level below the root, one level shallower
      have hgt2 : L2.length > 1 := by
        by_contra hle
        have := Nat.clog_pos (b := 2) (by decide) hgt1
        rw [hdepth, Nat.clog_of_right_le_one (by omega)] at this
        omega
      have hd1 := clog_length_merkleLevel hash256 hgt1
      have hd2 := clog_length_merkleLevel hash256 hgt2
      have hl1 := length_merkleLevel hash256 L1
      have hl2 := length_merkleLevel hash256 L2
      rw [merkleLoop, if_pos hgt1, merkleLoop, if_pos hgt2] at hroot ⊢
      rw [merklePairs, if_pos hgt1, merklePairs, if_pos hgt2]
      rcases ih (merkleLevel hash256 L1) (merkleLevel hash256 L2) _ _
          (fun h => h1 ((merkleLevel_eq_nil_iff hash256).mp h))
          (fun h => h2 ((merkleLevel_eq_nil_iff hash256).mp h)) (by omega) (by omega) (by omega)
          hroot with heq | hm | hm | hcol
      case inl =>
        -- the next levels agree: look at this one
        rcases merkleLevel_eq_cases hash256 heq with heq' | hm | hm | hcol
        · exact Or.inl heq'
        · right; left
          rw [hm, Bool.or_true]
          exact merkleLoop_mutation hash256 _ _
        · right; right; left
          rw [hm, Bool.or_true]
          exact merkleLoop_mutation hash256 _ _
        · exact Or.inr (Or.inr (Or.inr (hcol.append hash256)))
      case inr.inl => exact Or.inr (Or.inl hm)
      case inr.inr.inl => exact Or.inr (Or.inr (Or.inl hm))
      case inr.inr.inr => exact Or.inr (Or.inr (Or.inr (hcol.append_append hash256)))
    case neg =>
      -- a single hash is its own root
      have hle2 : L2.length ≤ 1 := by
        apply length_le_one_of_clog
        rw [← hdepth, Nat.clog_of_right_le_one (by omega)]
      rw [merkleLoop, if_neg hgt1, merkleLoop, if_neg (by omega)] at hroot
      exact Or.inl hroot

/-- **`ComputeMerkleRoot` detects every mutation within one depth**: two distinct
non-empty lists of hashes whose counts have the same `⌈log₂⌉` and whose roots agree have
the mutation flag raised for one of them, unless `SHA256D64` maps two distinct pairs of
the two computations to one hash. -/
theorem computeMerkleRoot_mutation_complete {L1 L2 : List Uint256} (hne : L1 ≠ L2)
    (h1 : L1 ≠ []) (h2 : L2 ≠ []) (hdepth : Nat.clog 2 L1.length = Nat.clog 2 L2.length)
    (hroot : (computeMerkleRoot hash256 L1).1 = (computeMerkleRoot hash256 L2).1) :
    (computeMerkleRoot hash256 L1).2 = true ∨ (computeMerkleRoot hash256 L2).2 = true ∨
      PairCollision hash256 (merklePairs hash256 L1.length L1) (merklePairs hash256 L2.length L2) := by
  -- run both loops on the same fuel
  obtain ⟨hloop1, hpairs1⟩ := merkleLoop_of_le hash256 false (le_refl L1.length)
    (Nat.le_add_right L1.length L2.length)
  obtain ⟨hloop2, hpairs2⟩ := merkleLoop_of_le hash256 false (le_refl L2.length)
    (Nat.le_add_left L2.length L1.length)
  obtain ⟨r1, hr1⟩ := merkleLoop_eq_singleton hash256 false h1 (le_refl L1.length)
  obtain ⟨r2, hr2⟩ := merkleLoop_eq_singleton hash256 false h2 (le_refl L2.length)
  unfold computeMerkleRoot at hroot ⊢
  dsimp only at hroot ⊢
  rw [hr1, hr2] at hroot
  have hlast : (merkleLoop hash256 (L1.length + L2.length) L1 false).1 =
      (merkleLoop hash256 (L1.length + L2.length) L2 false).1 := by
    rw [hloop1, hloop2, hr1, hr2]
    simpa using hroot
  rcases merkleLoop_mutation_complete hash256 (L1.length + L2.length) L1 L2 false false h1 h2
      (by omega) (by omega) hdepth hlast with heq | hm | hm | hcol
  · exact absurd heq hne
  · exact Or.inl (by rw [← hloop1]; exact hm)
  · exact Or.inr (Or.inl (by rw [← hloop2]; exact hm))
  · exact Or.inr (Or.inr (by rw [← hpairs1, ← hpairs2]; exact hcol))

/-! ## The loop in place -/

/-- `SHA256D64(hashes[0].begin(), hashes[0].begin(), blocks)`: block `i` reads the pair
at `2 i`, `2 i + 1` and writes its hash over position `i`, one block after the other. -/
def sha256D64InPlace : (blocks : Nat) → (i : Nat) → List Uint256 → List Uint256
  | 0, _, hashes => hashes
  | blocks + 1, i, hashes =>
    sha256D64InPlace blocks (i + 1)
      (hashes.set i (pairHash hash256 (hashes.getD (2 * i) Uint256.zero)
        (hashes.getD (2 * i + 1) Uint256.zero)))

/-- `for (pos = 0; pos + 1 < hashes.size(); pos += 2) if (hashes[pos] == hashes[pos + 1])
mutation = true;`, with `fuel` for the iterations. -/
def mutationScan : (fuel : Nat) → (pos : Nat) → List Uint256 → Bool
  | 0, _, _ => false
  | fuel + 1, pos, hashes =>
    if pos + 1 < hashes.length then
      (hashes.getD pos Uint256.zero == hashes.getD (pos + 1) Uint256.zero) ||
        mutationScan fuel (pos + 2) hashes
    else false

/-- One pass of the loop over the level: `if (hashes.size() & 1) hashes.push_back(hashes.back())`,
`SHA256D64` in place, `hashes.resize(hashes.size() / 2)`. -/
def merkleLevelInPlace (hashes : List Uint256) : List Uint256 :=
  let hashes := if hashes.length % 2 = 1 then hashes ++ [hashes.getLast?.getD Uint256.zero]
    else hashes
  (sha256D64InPlace hash256 (hashes.length / 2) 0 hashes).take (hashes.length / 2)

/-- The `while (hashes.size() > 1)` loop of `ComputeMerkleRoot` as the source runs it. -/
def computeMerkleRootLoop : (fuel : Nat) → List Uint256 → Bool → List Uint256 × Bool
  | 0, hashes, mutation => (hashes, mutation)
  | fuel + 1, hashes, mutation =>
    if hashes.length > 1 then
      computeMerkleRootLoop fuel (merkleLevelInPlace hash256 hashes)
        (mutation || mutationScan hashes.length 0 hashes)
    else (hashes, mutation)

/-- `ComputeMerkleRoot(hashes, &mutated)` on the vector it owns. -/
def computeMerkleRootInPlace (hashes : List Uint256) : Uint256 × Bool :=
  let r := computeMerkleRootLoop hash256 hashes.length hashes false
  (r.1.headD Uint256.zero, r.2)

/-- The scan reads the pairs from `pos` on. -/
theorem mutationScan_eq (fuel pos : Nat) (hashes : List Uint256)
    (hfuel : hashes.length ≤ pos + 2 * fuel) :
    mutationScan fuel pos hashes = levelMutated (hashes.drop pos) := by
  induction fuel generalizing pos with
  | zero =>
    rw [mutationScan, List.drop_of_length_le (by omega)]
    rfl
  | succ fuel ih =>
    rw [mutationScan]
    by_cases hpos : pos + 1 < hashes.length
    case pos =>
      have hpos0 : pos < hashes.length := by omega
      have hd : hashes.drop pos = hashes[pos] :: hashes[pos + 1] :: hashes.drop (pos + 2) := by
        rw [List.drop_eq_getElem_cons hpos0, List.drop_eq_getElem_cons hpos]
      rw [if_pos hpos, ih (pos + 2) (by omega), hd]
      simp only [levelMutated, List.getD_eq_getElem?_getD, List.getElem?_eq_getElem hpos0,
        List.getElem?_eq_getElem hpos, Option.getD_some]
    case neg =>
      rw [if_neg hpos]
      -- at most one hash is left from `pos`
      rcases hd : hashes.drop pos with _ | ⟨_, _ | ⟨_, _⟩⟩
      case nil => rfl
      case cons.nil => rfl
      case cons.cons =>
        have := congrArg List.length hd
        simp at this
        omega

/-- Hash `i` of a level is the hash of the pair at `2 i`. -/
theorem getElem?_merkleLevel (L : List Uint256) (i : Nat) (hi : 2 * i + 1 < L.length) :
    (merkleLevel hash256 L)[i]? =
      some (pairHash hash256 (L.getD (2 * i) Uint256.zero) (L.getD (2 * i + 1) Uint256.zero)) := by
  induction L using merkleLevel.induct generalizing i with
  | case1 a b rest ih =>
    cases i with
    | zero => rfl
    | succ i =>
      simp only [List.length_cons] at hi
      rw [merkleLevel_cons_cons, List.getElem?_cons_succ, ih i (by omega)]
      simp [List.getD_eq_getElem?_getD, show 2 * (i + 1) = 2 * i + 1 + 1 by omega]
  | case2 a => simp at hi
  | case3 => simp at hi

/-- **`SHA256D64` in place**: after `i` blocks the front holds the first `i` hashes of the
level and the rest is untouched, since block `i` writes at `i` and reads at `2 i`. -/
theorem sha256D64InPlace_spec (orig : List Uint256) (heven : orig.length % 2 = 0) :
    ∀ (blocks i : Nat), i + blocks ≤ orig.length / 2 →
      sha256D64InPlace hash256 blocks i ((merkleLevel hash256 orig).take i ++ orig.drop i) =
        (merkleLevel hash256 orig).take (i + blocks) ++ orig.drop (i + blocks) := by
  intro blocks
  induction blocks with
  | zero => intro i _; rfl
  | succ blocks ih =>
    intro i hi
    have hlen := length_merkleLevel hash256 orig
    have htake : ((merkleLevel hash256 orig).take i).length = i := by
      rw [List.length_take]
      omega
    -- the pair of block `i` is still the original one
    have hread : ∀ k, i ≤ k →
        ((merkleLevel hash256 orig).take i ++ orig.drop i).getD k Uint256.zero =
          orig.getD k Uint256.zero := by
      intro k hk
      rw [List.getD_eq_getElem?_getD, List.getElem?_append_right (by omega), List.getElem?_drop,
        htake, List.getD_eq_getElem?_getD, show i + (k - i) = k by omega]
    have hlevel := getElem?_merkleLevel hash256 orig i (by omega)
    rw [sha256D64InPlace, hread (2 * i) (by omega), hread (2 * i + 1) (by omega),
      List.set_append, if_neg (by omega), htake, Nat.sub_self,
      List.drop_eq_getElem_cons (by omega : i < orig.length), List.set_cons_zero]
    have hnext : (merkleLevel hash256 orig).take i ++
        pairHash hash256 (orig.getD (2 * i) Uint256.zero) (orig.getD (2 * i + 1) Uint256.zero) ::
          orig.drop (i + 1) =
        (merkleLevel hash256 orig).take (i + 1) ++ orig.drop (i + 1) := by
      rw [List.getElem?_eq_getElem (by omega), Option.some.injEq] at hlevel
      rw [← hlevel, ← List.take_concat_get' _ _ (by omega), List.append_assoc]
      rfl
    rw [hnext, ih (i + 1) (by omega), Nat.add_assoc, Nat.add_comm 1 blocks]

/-- Pushing a copy of the last hash of an odd level changes no hash of the next level. -/
theorem merkleLevel_pad (L : List Uint256) (hodd : L.length % 2 = 1) :
    merkleLevel hash256 (L ++ [L.getLast?.getD Uint256.zero]) = merkleLevel hash256 L := by
  induction L using merkleLevel.induct with
  | case1 a b rest ih =>
    simp only [List.length_cons] at hodd
    have hrest : rest ≠ [] := by
      rintro rfl
      simp at hodd
    obtain ⟨c, rest', rfl⟩ := List.exists_cons_of_ne_nil hrest
    rw [List.getLast?_cons_cons, List.getLast?_cons_cons, List.cons_append, List.cons_append,
      merkleLevel_cons_cons, merkleLevel_cons_cons, ih (by simp only [List.length_cons] at hodd ⊢; omega)]
  | case2 a => rfl
  | case3 => simp at hodd

/-- **One pass in place is one level.** -/
theorem merkleLevelInPlace_eq (hashes : List Uint256) :
    merkleLevelInPlace hash256 hashes = merkleLevel hash256 hashes := by
  -- the padded level is even and hashes to the same level
  obtain ⟨P, hP, heven, hlevel⟩ : ∃ P, P = (if hashes.length % 2 = 1 then
      hashes ++ [hashes.getLast?.getD Uint256.zero] else hashes) ∧ P.length % 2 = 0 ∧
      merkleLevel hash256 P = merkleLevel hash256 hashes := by
    refine ⟨_, rfl, ?_, ?_⟩
    · split
      case isTrue h => simp; omega
      case isFalse h => omega
    · split
      case isTrue h => exact merkleLevel_pad hash256 hashes h
      case isFalse h => rfl
  unfold merkleLevelInPlace
  dsimp only
  rw [← hP]
  have hspec := sha256D64InPlace_spec hash256 P heven (P.length / 2) 0 (by omega)
  simp only [List.take_zero, List.nil_append, List.drop_zero, Nat.zero_add] at hspec
  have hlen := length_merkleLevel hash256 P
  rw [hspec, List.take_append_of_le_length (by rw [List.length_take]; omega),
    List.take_of_length_le (by rw [List.length_take]; omega),
    List.take_of_length_le (by omega), hlevel]

/-- **The loop in place computes the level-by-level loop**, list and flag, level by level. -/
theorem computeMerkleRootLoop_eq (fuel : Nat) (hashes : List Uint256) (mutation : Bool) :
    computeMerkleRootLoop hash256 fuel hashes mutation = merkleLoop hash256 fuel hashes mutation := by
  induction fuel generalizing hashes mutation with
  | zero => rfl
  | succ fuel ih =>
    rw [computeMerkleRootLoop, merkleLoop]
    split
    case isTrue =>
      rw [ih, merkleLevelInPlace_eq, mutationScan_eq _ _ _ (by omega), List.drop_zero]
    case isFalse => rfl

theorem computeMerkleRootInPlace_eq (hashes : List Uint256) :
    computeMerkleRootInPlace hash256 hashes = computeMerkleRoot hash256 hashes := by
  unfold computeMerkleRootInPlace computeMerkleRoot
  rw [computeMerkleRootLoop_eq]

/-- The flag does not steer the loop. -/
theorem merkleLoop_fst (fuel : Nat) (hashes : List Uint256) (m m' : Bool) :
    (merkleLoop hash256 fuel hashes m).1 = (merkleLoop hash256 fuel hashes m').1 := by
  induction fuel generalizing hashes m m' with
  | zero => rfl
  | succ fuel ih =>
    rw [merkleLoop, merkleLoop]
    split
    case isTrue => exact ih _ _ _
    case isFalse => rfl

/-- An odd level with a copy of its last hash pairs the copy with the original. -/
theorem levelMutated_pad (L : List Uint256) (hodd : L.length % 2 = 1) :
    levelMutated (L ++ [L.getLast?.getD Uint256.zero]) = true := by
  induction L using merkleLevel.induct with
  | case1 a b rest ih =>
    simp only [List.length_cons] at hodd
    have hrest : rest ≠ [] := by
      rintro rfl
      simp at hodd
    obtain ⟨c, rest', rfl⟩ := List.exists_cons_of_ne_nil hrest
    rw [List.getLast?_cons_cons, List.getLast?_cons_cons, List.cons_append, List.cons_append,
      levelMutated, ih (by simp only [List.length_cons] at hodd ⊢; omega), Bool.or_true]
  | case2 a => simp [levelMutated]
  | case3 => simp at hodd

/-- **CVE-2012-2459**: a copy of the last hash of an odd list of at least three keeps
the root, and raises the flag. -/
theorem computeMerkleRoot_duplicate_last (L : List Uint256) (hodd : L.length % 2 = 1)
    (h3 : 3 ≤ L.length) :
    (computeMerkleRoot hash256 (L ++ [L.getLast?.getD Uint256.zero])).1 =
        (computeMerkleRoot hash256 L).1 ∧
      (computeMerkleRoot hash256 (L ++ [L.getLast?.getD Uint256.zero])).2 = true := by
  have hlen : (L ++ [L.getLast?.getD Uint256.zero]).length = L.length + 1 := by simp
  have hlevel := length_merkleLevel hash256 L
  -- both loops go on from `merkleLevel L`, the padded one with the flag raised
  have hpad : merkleLoop hash256 (L ++ [L.getLast?.getD Uint256.zero]).length
      (L ++ [L.getLast?.getD Uint256.zero]) false =
      merkleLoop hash256 L.length (merkleLevel hash256 L) true := by
    rw [hlen, merkleLoop, if_pos (by simp; omega), merkleLevel_pad hash256 L hodd,
      levelMutated_pad L hodd, Bool.or_true]
  have horig : merkleLoop hash256 L.length L false =
      merkleLoop hash256 (L.length - 1) (merkleLevel hash256 L) (levelMutated L) := by
    obtain ⟨k, hk⟩ : ∃ k, L.length = k + 1 := ⟨L.length - 1, by omega⟩
    rw [hk, merkleLoop, if_pos (by omega), Bool.false_or, Nat.add_sub_cancel]
  have hshorter := (merkleLoop_of_le hash256 true (le_refl (merkleLevel hash256 L).length)
    (by omega : (merkleLevel hash256 L).length ≤ L.length)).1
  have hshorter' := (merkleLoop_of_le hash256 true (le_refl (merkleLevel hash256 L).length)
    (by omega : (merkleLevel hash256 L).length ≤ L.length - 1)).1
  unfold computeMerkleRoot
  dsimp only
  rw [hpad, horig, hshorter, ← hshorter', merkleLoop_fst hash256 _ _ true (levelMutated L)]
  exact ⟨rfl, merkleLoop_mutation hash256 _ _⟩

/-- **`ComputeMerkleRoot` detects mutation within one depth, and its loop in place computes
the level-by-level root.** -/
theorem computeMerkleRoot_detects_mutation :
    (∀ L1 L2 : List Uint256, L1 ≠ L2 → L1 ≠ [] → L2 ≠ [] →
      Nat.clog 2 L1.length = Nat.clog 2 L2.length →
      (computeMerkleRoot hash256 L1).1 = (computeMerkleRoot hash256 L2).1 →
      (computeMerkleRoot hash256 L1).2 = true ∨ (computeMerkleRoot hash256 L2).2 = true ∨
        PairCollision hash256 (merklePairs hash256 L1.length L1)
          (merklePairs hash256 L2.length L2)) ∧
      ∀ hashes, computeMerkleRootInPlace hash256 hashes = computeMerkleRoot hash256 hashes :=
  ⟨fun _ _ hne h1 h2 hdepth hroot =>
      computeMerkleRoot_mutation_complete hash256 hne h1 h2 hdepth hroot,
    computeMerkleRootInPlace_eq hash256⟩

/-- The example of `merkle.cpp`'s comment, one level down: `[1, 2, 3]` and `[1, 2, 3, 3]`
under double SHA-256 share their root, and the flag tells them apart. -/
theorem computeMerkleRoot_detects_mutation_cve :
    (computeMerkleRoot cHash256 [⟨Vector.replicate 32 1⟩, ⟨Vector.replicate 32 2⟩,
        ⟨Vector.replicate 32 3⟩]).2 = true ∨
      (computeMerkleRoot cHash256 [⟨Vector.replicate 32 1⟩, ⟨Vector.replicate 32 2⟩,
        ⟨Vector.replicate 32 3⟩, ⟨Vector.replicate 32 3⟩]).2 = true ∨
      PairCollision cHash256
        (merklePairs cHash256 3 [⟨Vector.replicate 32 1⟩, ⟨Vector.replicate 32 2⟩,
          ⟨Vector.replicate 32 3⟩])
        (merklePairs cHash256 4 [⟨Vector.replicate 32 1⟩, ⟨Vector.replicate 32 2⟩,
          ⟨Vector.replicate 32 3⟩, ⟨Vector.replicate 32 3⟩]) :=
  (computeMerkleRoot_detects_mutation cHash256).1 _ _ (by decide) (by simp) (by simp) (by decide)
    (computeMerkleRoot_duplicate_last cHash256 [⟨Vector.replicate 32 1⟩, ⟨Vector.replicate 32 2⟩,
      ⟨Vector.replicate 32 3⟩] (by decide) (by decide)).1.symm

end Sumcoin
