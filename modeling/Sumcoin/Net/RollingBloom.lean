import Sumcoin.Lib.TagBits
import Sumcoin.Lib.Murmur3

/-!
# The rolling Bloom filter: `bloom.cpp`

`CRollingBloomFilter` remembers the last `nElements` keys.  It counts inserts in
generations of `(nElements + 1) / 2` entries and tags each of a key's `nHashFuncs`
positions with the number `1..3` of the current generation, two bits per position spread
over a pair of 64-bit words.  When a generation is full the next one starts, and every
position still tagged with the number it reuses, that of the generation three back, is
wiped.  A key is found when none of its positions is zero.

The constructor sizes the table in `double` arithmetic from the false-positive rate; the
model takes the two quantities it derives from that rate as given, and computes the rest
as the source does, in `unsigned int` and `uint32_t`.

## Main definitions

* `CRollingBloomFilter.new`, `.insert`, `.contains`, `.reset`: the source's methods; `insert` and
  `contains` are `none` where the source indexes past the end of `data`.
* `CRollingBloomFilter.run`, `keysSinceReset`: a sequence of calls, and the keys it has
  inserted since the last `reset`.
* `WindowInv`: every key of the current generation and of the two before it still has all
  its positions tagged with a generation no older than its own.

## Main statements

* `WindowInv.insertWrites`, `WindowInv.run`: the invariant holds after every call, and no call
  on a table the constructor sizes indexes past its end (`insert_of_shape`).
* `WindowInv.contains`: every key of those three generations is found.
-/

namespace Sumcoin

open TagBits

/-! ## The hash and the position -/

/-- `RollingBloomHash(nHashNum, nTweak, vDataToHash)`: the seed of the `nHashNum`-th hash
is `nHashNum * 0xFBA4C795 + nTweak` in `unsigned int`. -/
def rollingBloomHash (nHashNum : Nat) (nTweak : UInt32) (vDataToHash : List UInt8) : UInt32 :=
  Murmur3.murmurHash3 (nHashNum.toUInt32 * 0xFBA4C795 + nTweak) vDataToHash

/-- `FastMod(x, n)`: `x * n >> 32` in 64-bit arithmetic, narrowed to `uint32_t`. -/
def fastMod (x : UInt32) (n : Nat) : UInt32 := ((x.toUInt64 * n.toUInt64) >>> 32).toUInt32

theorem toNat_fastMod (x : UInt32) {n : Nat} (hn : n < 2 ^ 32) :
    (fastMod x n).toNat = x.toNat * n / 2 ^ 32 := by
  have hx := x.toNat_lt
  have hprod : x.toNat * n < 2 ^ 64 :=
    calc x.toNat * n < 2 ^ 32 * 2 ^ 32 := Nat.mul_lt_mul'' hx hn
      _ = 2 ^ 64 := by norm_num
  have hmul : (x.toUInt64 * n.toUInt64).toNat = x.toNat * n := by
    rw [UInt64.toNat_mul, UInt32.toNat_toUInt64, UInt64.toNat_ofNat',
      Nat.mod_eq_of_lt (lt_trans hn (by norm_num)), Nat.mod_eq_of_lt hprod]
  rw [fastMod, UInt64.toNat_toUInt32, UInt64.toNat_shiftRight, hmul]
  have hdiv : x.toNat * n / 2 ^ 32 < 2 ^ 32 := Nat.div_lt_of_lt_mul (by simpa using hprod)
  simp only [UInt64.toNat_ofNat, Nat.shiftRight_eq_div_pow]
  simp
  omega

/-- `FastMod` stays inside the table. -/
theorem fastMod_lt (x : UInt32) {n : Nat} (hn0 : 0 < n) (hn : n < 2 ^ 32) :
    (fastMod x n).toNat < n := by
  rw [toNat_fastMod x hn]
  exact Nat.div_lt_of_lt_mul (Nat.mul_lt_mul_of_pos_right x.toNat_lt hn0)

/-- `pos & ~1` is the first word of the pair holding `pos`. -/
theorem toNat_and_not_one (x : UInt32) : (x &&& ~~~1).toNat = 2 * (x.toNat / 2) := by
  rw [UInt32.toNat_and, show (~~~1 : UInt32).toNat = 2 * (2 ^ 31 - 1) by decide]
  apply Nat.eq_of_testBit_eq
  intro i
  rw [Nat.testBit_and]
  rcases i with _ | i
  · simp
  · have hx : x.toNat / 2 < 2 ^ 31 := by
      have := x.toNat_lt
      simp at this
      omega
    simp only [Nat.testBit_succ, Nat.mul_div_cancel_left _ two_pos, Nat.testBit_two_pow_sub_one]
    by_cases hi : i < 31
    · simp [hi]
    · simp [hi, Nat.testBit_lt_two_pow (lt_of_lt_of_le hx (Nat.pow_le_pow_right two_pos (Nat.le_of_not_lt hi)))]

/-- `pos | 1` is the second word of the pair holding `pos`. -/
theorem toNat_or_one (x : UInt32) : (x ||| 1).toNat = 2 * (x.toNat / 2) + 1 := by
  rw [UInt32.toNat_or, UInt32.toNat_one]
  apply Nat.eq_of_testBit_eq
  intro i
  rw [Nat.testBit_or]
  rcases i with _ | i
  · simp
  · simp [Nat.testBit_succ]
    congr 1
    omega

theorem toNat_and_3F_lt (h : UInt32) : (h &&& 0x3F).toNat < 64 := by
  rw [UInt32.toNat_and]
  exact lt_of_le_of_lt Nat.and_le_right (by decide)

/-! ## The filter -/

/-- `CRollingBloomFilter`.  Its `int` counters are natural numbers: none of them is ever
negative. -/
structure CRollingBloomFilter where
  nEntriesPerGeneration : Nat
  nEntriesThisGeneration : Nat
  nGeneration : Nat
  data : List UInt64
  nTweak : UInt32
  nHashFuncs : Nat
  deriving DecidableEq, Repr

namespace CRollingBloomFilter

/-- `reset()`, with the tweak that `GetRand` draws. -/
def reset (f : CRollingBloomFilter) (nTweak : UInt32) : CRollingBloomFilter :=
  { f with nTweak, nEntriesThisGeneration := 0, nGeneration := 1,
           data := List.replicate f.data.length 0 }

/-- `nHashFuncs = std::max(1, std::min((int)round(logFpRate / log(0.5)), 50))`, from the
rounded quotient. -/
def hashFuncsOf (roundedLogRatio : Int) : Nat := (max 1 (min roundedLogRatio 50)).toNat

/-- `nFilterBits` before its conversion to `uint32_t`:
`ceil(-1.0 * nHashFuncs * nMaxElements / log(1.0 - exp(logFpRate / nHashFuncs)))`, with
`-1 / log(1.0 - exp(logFpRate / nHashFuncs))` given as `bitsPerEntry` and the arithmetic
exact. -/
def filterBitsOf (nHashFuncs : Nat) (nMaxElements : UInt32) (bitsPerEntry : ℚ) : Nat :=
  ⌈(nHashFuncs * nMaxElements.toNat : ℚ) * bitsPerEntry⌉₊

/-- `CRollingBloomFilter(nElements, fpRate)`, where the false-positive rate enters as
`roundedLogRatio`, the rounded `logFpRate / log(0.5)`, and as `bitsPerEntry`; the
constructor ends with `reset()`, whose tweak is `nTweak`. -/
def new (nElements : UInt32) (roundedLogRatio : Int) (bitsPerEntry : ℚ) (nTweak : UInt32) :
    CRollingBloomFilter :=
  let nHashFuncs := hashFuncsOf roundedLogRatio
  let nEntriesPerGeneration := (nElements + 1) / 2
  let nMaxElements := nEntriesPerGeneration * 3
  let nFilterBits := (filterBitsOf nHashFuncs nMaxElements bitsPerEntry).toUInt32
  reset { nEntriesPerGeneration := nEntriesPerGeneration.toNat, nEntriesThisGeneration := 0,
          nGeneration := 1, data := List.replicate (((nFilterBits + 63) / 64) <<< 1).toNat 0,
          nTweak := 0, nHashFuncs } nTweak

/-- The wipe loop `for (p = 0; p < data.size(); p += 2)` over the pairs `data[p]`,
`data[p + 1]`. -/
def wipePairs (nGenerationMask1 nGenerationMask2 : UInt64) : List UInt64 → List UInt64
  | p1 :: p2 :: rest =>
    let mask := wipeMask p1 p2 nGenerationMask1 nGenerationMask2
    (p1 &&& mask) :: (p2 &&& mask) :: wipePairs nGenerationMask1 nGenerationMask2 rest
  | rest => rest

/-- The head of `insert`: once the current generation holds `nEntriesPerGeneration`
entries the next one starts, and every position still tagged with the number it reuses
is wiped. -/
def rollGeneration (f : CRollingBloomFilter) : CRollingBloomFilter :=
  if f.nEntriesThisGeneration = f.nEntriesPerGeneration then
    let nGeneration := if f.nGeneration + 1 = 4 then 1 else f.nGeneration + 1
    { f with nEntriesThisGeneration := 0, nGeneration,
             data := wipePairs (planeMask (nGeneration &&& 1)) (planeMask (nGeneration >>> 1)) f.data }
  else f

/-- The writes of one pass of the hashing loop of `insert`: bit `h & 0x3F` of both words of
the pair at `FastMod(h, data.size())` gets the bits of the generation number. -/
def writeProbe (nGeneration : Nat) (data : List UInt64) (h : UInt32) : List UInt64 :=
  let bit := (h &&& 0x3F).toNat
  let pos := fastMod h data.length
  let data := data.set (pos &&& ~~~1).toNat
    (writeBit (data.getD (pos &&& ~~~1).toNat 0) bit (nGeneration &&& 1).toUInt64)
  data.set (pos ||| 1).toNat (writeBit (data.getD (pos ||| 1).toNat 0) bit (nGeneration >>> 1).toUInt64)

/-- Whether `data[pos & ~1]` and `data[pos | 1]`, for `pos = FastMod(h, data.size())`, lie in
`data`.  `insert` and `contains` index both without a check, so a pair past the end is
undefined behaviour. -/
def probeInBounds (data : List UInt64) (h : UInt32) : Bool :=
  let pos := fastMod h data.length
  decide ((pos &&& ~~~1).toNat < data.length) && decide ((pos ||| 1).toNat < data.length)

/-- One pass of the hashing loop of `insert`, `none` where it indexes past the end of
`data`. -/
def setProbe (nGeneration : Nat) (data : List UInt64) (h : UInt32) : Option (List UInt64) :=
  if probeInBounds data h then some (writeProbe nGeneration data h) else none

/-- The hashing loop of `insert`, for `n` from `0` below `nHashFuncs`. -/
def setProbes (f : CRollingBloomFilter) (vKey : List UInt8) : Option CRollingBloomFilter := do
  let data ← (List.range f.nHashFuncs).foldlM
    (fun data n => setProbe f.nGeneration data (rollingBloomHash n f.nTweak vKey)) f.data
  pure { f with data }

/-- `insert(vKey)`, `none` where it indexes past the end of `data`. -/
def insert (f : CRollingBloomFilter) (vKey : List UInt8) : Option CRollingBloomFilter :=
  let f := f.rollGeneration
  { f with nEntriesThisGeneration := f.nEntriesThisGeneration + 1 }.setProbes vKey

/-- The loop of `contains` over the hash numbers `ns`: `false` at the first hash whose bit is
clear in both words of its pair, `none` where it indexes past the end of `data`. -/
def containsLoop (f : CRollingBloomFilter) (vKey : List UInt8) : List Nat → Option Bool
  | [] => some true
  | n :: ns =>
    let h := rollingBloomHash n f.nTweak vKey
    let bit := (h &&& 0x3F).toNat
    let pos := fastMod h f.data.length
    if probeInBounds f.data h then
      if ((f.data.getD (pos &&& ~~~1).toNat 0 ||| f.data.getD (pos ||| 1).toNat 0) >>> bit.toUInt64) &&& 1 != 0
      then containsLoop f vKey ns
      else some false
    else none

/-- `contains(vKey)`: every hash finds bit `h & 0x3F` set in one of the two words of its
pair. -/
def contains (f : CRollingBloomFilter) (vKey : List UInt8) : Option Bool :=
  containsLoop f vKey (List.range f.nHashFuncs)

/-- The writes of the hashing loop of `insert` when every pair lies in `data`. -/
def writeProbes (f : CRollingBloomFilter) (vKey : List UInt8) : CRollingBloomFilter :=
  let data := (List.range f.nHashFuncs).foldl
    (fun data n => writeProbe f.nGeneration data (rollingBloomHash n f.nTweak vKey)) f.data
  { f with data }

/-- The filter `insert(vKey)` leaves when every pair lies in `data`. -/
def insertWrites (f : CRollingBloomFilter) (vKey : List UInt8) : CRollingBloomFilter :=
  let f := f.rollGeneration
  { f with nEntriesThisGeneration := f.nEntriesThisGeneration + 1 }.writeProbes vKey

end CRollingBloomFilter

/-- A call on the filter. -/
inductive BloomOp
  | insert (vKey : List UInt8)
  | reset (nTweak : UInt32)
  deriving DecidableEq, Repr

namespace CRollingBloomFilter

def step (f : CRollingBloomFilter) : BloomOp → Option CRollingBloomFilter
  | .insert vKey => f.insert vKey
  | .reset nTweak => some (f.reset nTweak)

def run (f : CRollingBloomFilter) (ops : List BloomOp) : Option CRollingBloomFilter := ops.foldlM step f

end CRollingBloomFilter

/-- The keys after one more call: an insert appends its key, a reset forgets them all. -/
def keysAfter (ks : List (List UInt8)) : BloomOp → List (List UInt8)
  | .insert vKey => ks ++ [vKey]
  | .reset _ => []

/-- The keys inserted since the last `reset`, oldest first. -/
def keysSinceReset (ops : List BloomOp) : List (List UInt8) := ops.foldl keysAfter []

/-! ## Tags of the table -/

/-- A table of `size` words as the constructor allocates it: a positive, even number of
words, below `2^32`. -/
structure TableShape (size : Nat) : Prop where
  pos : 0 < size
  even : size % 2 = 0
  lt : size < 2 ^ 32

/-- The pair and the bit that the hash `h` selects in a table of `size` words. -/
def hashProbe (size : Nat) (h : UInt32) : Nat × Nat :=
  ((fastMod h size).toNat / 2, (h &&& 0x3F).toNat)

/-- The tag at the position of the `n`-th hash of `vKey`. -/
def probeTag (data : List UInt64) (nTweak : UInt32) (vKey : List UInt8) (n : Nat) : Nat :=
  let p := hashProbe data.length (rollingBloomHash n nTweak vKey)
  tagAt data p.1 p.2

namespace CRollingBloomFilter

section Table
variable {data : List UInt64}

theorem pair_lt (hs : TableShape data.length) (h : UInt32) :
    2 * ((fastMod h data.length).toNat / 2) + 1 < data.length := by
  have := fastMod_lt h hs.pos hs.lt
  have := hs.even
  omega

@[simp] theorem length_writeProbe (g : Nat) (data : List UInt64) (h : UInt32) :
    (writeProbe g data h).length = data.length := by
  simp [writeProbe]

/-- One pass of the hashing loop tags the position of its hash and no other. -/
theorem tagAt_writeProbe {g : Nat} (hg : g < 4) (hs : TableShape data.length) (h : UInt32)
    (j b : Nat) :
    tagAt (writeProbe g data h) j b = if (j, b) = hashProbe data.length h then g else tagAt data j b := by
  have hne : 2 * ((fastMod h data.length).toNat / 2) ≠ 2 * ((fastMod h data.length).toNat / 2) + 1 := by
    omega
  simp only [writeProbe, toNat_and_not_one, toNat_or_one, getD_set_ne _ _ _ hne]
  rw [tagAt_setPair data (pair_lt hs h) (toNat_and_3F_lt h) hg]
  simp only [hashProbe, Prod.mk.injEq]

theorem length_foldl_writeProbe (g : Nat) (hash : Nat → UInt32) (ns : List Nat) :
    ∀ data : List UInt64, (ns.foldl (fun data n => writeProbe g data (hash n)) data).length = data.length := by
  induction ns with
  | nil => intro data; rfl
  | cons n ns ih => intro data; rw [List.foldl_cons, ih, length_writeProbe]

/-- The hashing loop tags the positions of its hashes and no other. -/
theorem tagAt_foldl_writeProbe {g : Nat} (hg : g < 4) (hash : Nat → UInt32) (ns : List Nat) :
    ∀ {data : List UInt64}, TableShape data.length → ∀ j b,
      tagAt (ns.foldl (fun data n => writeProbe g data (hash n)) data) j b =
        if ∃ n ∈ ns, (j, b) = hashProbe data.length (hash n) then g else tagAt data j b := by
  induction ns with
  | nil => intro data _ j b; simp
  | cons n ns ih =>
    intro data hs j b
    rw [List.foldl_cons, ih (by rwa [length_writeProbe]), length_writeProbe, tagAt_writeProbe hg hs]
    by_cases hn : (j, b) = hashProbe data.length (hash n)
    · simp [hn]
    · simp [hn]

end Table

@[simp] theorem length_wipePairs (m1 m2 : UInt64) :
    ∀ data : List UInt64, (wipePairs m1 m2 data).length = data.length
  | p1 :: p2 :: rest => by simp [wipePairs, length_wipePairs m1 m2 rest]
  | [] => rfl
  | [_] => rfl

/-- The wipe clears every position holding the tag `g` and keeps the others. -/
theorem tagAt_wipePairs {g : Nat} (hg : g < 4) {b : Nat} (hb : b < 64) :
    ∀ (data : List UInt64), data.length % 2 = 0 → ∀ j,
      tagAt (wipePairs (planeMask (g &&& 1)) (planeMask (g >>> 1)) data) j b =
        if tagAt data j b = g then 0 else tagAt data j b
  | [], _, j => by simp [wipePairs, tagAt, tag]
  | [_], h, _ => by simp at h
  | p1 :: p2 :: rest, _, 0 => by
    simp only [wipePairs, tagAt, Nat.mul_zero, Nat.zero_add, List.getD_cons_zero, List.getD_cons_succ]
    exact tag_wipe p1 p2 hg hb
  | p1 :: p2 :: rest, h, j + 1 => by
    have hrest : rest.length % 2 = 0 := by simp at h; omega
    have ih := tagAt_wipePairs hg hb rest hrest j
    simp only [tagAt] at ih
    simp only [wipePairs, tagAt, show 2 * (j + 1) = 2 * j + 1 + 1 by omega, List.getD_cons_succ]
    exact ih

@[simp] theorem nEntriesPerGeneration_rollGeneration (f : CRollingBloomFilter) :
    f.rollGeneration.nEntriesPerGeneration = f.nEntriesPerGeneration := by
  unfold rollGeneration; split <;> rfl

@[simp] theorem nTweak_rollGeneration (f : CRollingBloomFilter) :
    f.rollGeneration.nTweak = f.nTweak := by
  unfold rollGeneration; split <;> rfl

@[simp] theorem nHashFuncs_rollGeneration (f : CRollingBloomFilter) :
    f.rollGeneration.nHashFuncs = f.nHashFuncs := by
  unfold rollGeneration; split <;> rfl

@[simp] theorem length_data_rollGeneration (f : CRollingBloomFilter) :
    f.rollGeneration.data.length = f.data.length := by
  unfold rollGeneration; split <;> simp

@[simp] theorem length_data_writeProbes (f : CRollingBloomFilter) (vKey : List UInt8) :
    (f.writeProbes vKey).data.length = f.data.length :=
  length_foldl_writeProbe _ _ _ _

@[simp] theorem nEntriesPerGeneration_writeProbes (f : CRollingBloomFilter) (vKey : List UInt8) :
    (f.writeProbes vKey).nEntriesPerGeneration = f.nEntriesPerGeneration := rfl

@[simp] theorem nEntriesThisGeneration_writeProbes (f : CRollingBloomFilter) (vKey : List UInt8) :
    (f.writeProbes vKey).nEntriesThisGeneration = f.nEntriesThisGeneration := rfl

@[simp] theorem nGeneration_writeProbes (f : CRollingBloomFilter) (vKey : List UInt8) :
    (f.writeProbes vKey).nGeneration = f.nGeneration := rfl

@[simp] theorem nTweak_writeProbes (f : CRollingBloomFilter) (vKey : List UInt8) :
    (f.writeProbes vKey).nTweak = f.nTweak := rfl

@[simp] theorem nHashFuncs_writeProbes (f : CRollingBloomFilter) (vKey : List UInt8) :
    (f.writeProbes vKey).nHashFuncs = f.nHashFuncs := rfl

@[simp] theorem length_data_insertWrites (f : CRollingBloomFilter) (vKey : List UInt8) :
    (f.insertWrites vKey).data.length = f.data.length := by
  simp [insertWrites]

@[simp] theorem nEntriesPerGeneration_insertWrites (f : CRollingBloomFilter) (vKey : List UInt8) :
    (f.insertWrites vKey).nEntriesPerGeneration = f.nEntriesPerGeneration := by
  simp [insertWrites]

@[simp] theorem nEntriesThisGeneration_insertWrites (f : CRollingBloomFilter) (vKey : List UInt8) :
    (f.insertWrites vKey).nEntriesThisGeneration = f.rollGeneration.nEntriesThisGeneration + 1 := rfl

@[simp] theorem nGeneration_insertWrites (f : CRollingBloomFilter) (vKey : List UInt8) :
    (f.insertWrites vKey).nGeneration = f.rollGeneration.nGeneration := rfl

@[simp] theorem nTweak_insertWrites (f : CRollingBloomFilter) (vKey : List UInt8) :
    (f.insertWrites vKey).nTweak = f.nTweak := by
  simp [insertWrites]

@[simp] theorem nHashFuncs_insertWrites (f : CRollingBloomFilter) (vKey : List UInt8) :
    (f.insertWrites vKey).nHashFuncs = f.nHashFuncs := by
  simp [insertWrites]

theorem hashProbe_snd_lt (size : Nat) (h : UInt32) : (hashProbe size h).2 < 64 :=
  toNat_and_3F_lt h

/-- The hashing loop of `insert` tags the positions of `vKey` with the current generation:
a position of another key `k` is either one of them or keeps its tag. -/
theorem probeTag_writeProbes (f : CRollingBloomFilter) (hs : TableShape f.data.length)
    (hg : f.nGeneration < 4) (vKey k : List UInt8) (n : Nat) :
    probeTag (f.writeProbes vKey).data f.nTweak k n =
      if ∃ n' < f.nHashFuncs, hashProbe f.data.length (rollingBloomHash n f.nTweak k) =
          hashProbe f.data.length (rollingBloomHash n' f.nTweak vKey)
      then f.nGeneration else probeTag f.data f.nTweak k n := by
  simp only [probeTag, length_data_writeProbes]
  rw [writeProbes, tagAt_foldl_writeProbe hg _ _ hs]
  simp only [List.mem_range, Prod.mk.eta]

/-- `insert` tags the positions of its key with the generation its head has moved to. -/
theorem probeTag_insertWrites (f : CRollingBloomFilter) (hs : TableShape f.data.length)
    (hg : f.rollGeneration.nGeneration < 4) (vKey k : List UInt8) (n : Nat) :
    probeTag (f.insertWrites vKey).data f.nTweak k n =
      if ∃ n' < f.nHashFuncs, hashProbe f.data.length (rollingBloomHash n f.nTweak k) =
          hashProbe f.data.length (rollingBloomHash n' f.nTweak vKey)
      then f.rollGeneration.nGeneration else probeTag f.rollGeneration.data f.nTweak k n := by
  have h := probeTag_writeProbes
    { f.rollGeneration with nEntriesThisGeneration := f.rollGeneration.nEntriesThisGeneration + 1 }
    (by simpa using hs) hg vKey k n
  rw [insertWrites]
  simp only [nTweak_rollGeneration, nHashFuncs_rollGeneration, length_data_rollGeneration] at h ⊢
  exact h

/-- Every pair of a table of the constructor's shape lies in it. -/
theorem probeInBounds_of_shape {data : List UInt64} (hs : TableShape data.length) (h : UInt32) :
    probeInBounds data h = true := by
  have := pair_lt hs h
  simp only [probeInBounds, toNat_and_not_one, toNat_or_one, Bool.and_eq_true, decide_eq_true_eq]
  omega

theorem setProbe_of_shape {data : List UInt64} (hs : TableShape data.length) (g : Nat) (h : UInt32) :
    setProbe g data h = some (writeProbe g data h) := by
  rw [setProbe, if_pos (probeInBounds_of_shape hs h)]

/-- On a table of the constructor's shape the hashing loop never indexes past the end. -/
theorem foldlM_setProbe (g : Nat) (hash : Nat → UInt32) (ns : List Nat) :
    ∀ {data : List UInt64}, TableShape data.length →
      ns.foldlM (fun data n => setProbe g data (hash n)) data =
        some (ns.foldl (fun data n => writeProbe g data (hash n)) data) := by
  induction ns with
  | nil => intro data _; rfl
  | cons n ns ih =>
    intro data hs
    rw [List.foldlM_cons, setProbe_of_shape hs, Option.bind_eq_bind, Option.bind_some, List.foldl_cons]
    exact ih (by rwa [length_writeProbe])

theorem setProbes_of_shape (f : CRollingBloomFilter) (hs : TableShape f.data.length) (vKey : List UInt8) :
    f.setProbes vKey = some (f.writeProbes vKey) := by
  simp only [setProbes, foldlM_setProbe _ _ _ hs]
  rfl

/-- **`insert` on a table of the constructor's shape** is defined, and makes its writes. -/
theorem insert_of_shape (f : CRollingBloomFilter) (hs : TableShape f.data.length) (vKey : List UInt8) :
    f.insert vKey = some (f.insertWrites vKey) :=
  setProbes_of_shape _ (by simpa using hs) vKey

/-- On a table of the constructor's shape the loop of `contains` finds its hashes exactly
when none of their positions has the tag zero. -/
theorem containsLoop_eq_some_true_iff (f : CRollingBloomFilter) (hs : TableShape f.data.length)
    (vKey : List UInt8) :
    ∀ ns : List Nat, f.containsLoop vKey ns = some true ↔ ∀ n ∈ ns, probeTag f.data f.nTweak vKey n ≠ 0
  | [] => by simp [containsLoop]
  | n :: ns => by
    have ih := containsLoop_eq_some_true_iff f hs vKey ns
    simp only [containsLoop, probeInBounds_of_shape hs, if_true, List.mem_cons, forall_eq_or_imp]
    have hbit : (((f.data.getD (fastMod (rollingBloomHash n f.nTweak vKey) f.data.length &&& ~~~1).toNat 0 |||
        f.data.getD (fastMod (rollingBloomHash n f.nTweak vKey) f.data.length ||| 1).toNat 0) >>>
          ((rollingBloomHash n f.nTweak vKey &&& 0x3F).toNat.toUInt64) &&& 1 != 0) = true) ↔
        probeTag f.data f.nTweak vKey n ≠ 0 := by
      simp only [toNat_and_not_one, toNat_or_one, or_shiftRight_and_one, toNat_and_3F_lt,
        decide_eq_true_eq, probeTag, hashProbe, tagAt]
    split_ifs with h
    · rw [ih]
      exact ⟨fun h' => ⟨hbit.mp h, h'⟩, fun h' => h'.2⟩
    · simp only [Option.some.injEq, Bool.false_eq_true, false_iff, not_and]
      exact fun h' => absurd (hbit.mpr h') h

/-- `contains` on a table of the constructor's shape finds a key exactly when none of its
positions has the tag zero. -/
theorem contains_eq_some_true_iff (f : CRollingBloomFilter) (hs : TableShape f.data.length)
    (vKey : List UInt8) :
    f.contains vKey = some true ↔ ∀ n < f.nHashFuncs, probeTag f.data f.nTweak vKey n ≠ 0 := by
  simp only [contains, containsLoop_eq_some_true_iff f hs, List.mem_range]

/-! ## The constructor -/

theorem hashFuncsOf_pos (roundedLogRatio : Int) : 0 < hashFuncsOf roundedLogRatio := by
  unfold hashFuncsOf
  omega

theorem filterBitsOf_pos {nHashFuncs : Nat} {nMaxElements : UInt32} {bitsPerEntry : ℚ}
    (hk : 0 < nHashFuncs) (hm : 0 < nMaxElements.toNat) (hc : 0 < bitsPerEntry) :
    0 < filterBitsOf nHashFuncs nMaxElements bitsPerEntry :=
  Nat.ceil_pos.mpr (mul_pos (mul_pos (Nat.cast_pos.mpr hk) (Nat.cast_pos.mpr hm)) hc)

/-- `(nElements + 1) / 2` when the sum does not wrap. -/
theorem toNat_entriesPerGeneration {nElements : UInt32} (hn : nElements.toNat < 2 ^ 32 - 1) :
    ((nElements + 1) / 2).toNat = (nElements.toNat + 1) / 2 := by
  simp only [UInt32.toNat_div, UInt32.toNat_add, UInt32.toNat_one]
  rw [Nat.mod_eq_of_lt (by omega)]
  rfl

/-- `nMaxElements` is positive as long as some entry is allowed per generation: three
times a number below `2^31` is never a multiple of `2^32`. -/
theorem toNat_maxElements_pos {nElements : UInt32} (h0 : 0 < nElements.toNat)
    (hn : nElements.toNat < 2 ^ 32 - 1) : 0 < ((nElements + 1) / 2 * 3).toNat := by
  rw [UInt32.toNat_mul, toNat_entriesPerGeneration hn, show UInt32.toNat 3 = 3 by decide]
  have hm : 1 ≤ (nElements.toNat + 1) / 2 ∧ (nElements.toNat + 1) / 2 < 2 ^ 31 := by omega
  generalize (nElements.toNat + 1) / 2 = m at hm ⊢
  -- either the product fits, or it wraps once and is not `2^32` itself
  by_cases hlt : m * 3 < 2 ^ 32
  · rw [Nat.mod_eq_of_lt hlt]
    omega
  · rw [Nat.mod_eq_sub_mod (by omega), Nat.mod_eq_of_lt (by omega)]
    omega

theorem length_data_new (nElements : UInt32) (roundedLogRatio : Int) (bitsPerEntry : ℚ)
    (nTweak : UInt32) :
    (new nElements roundedLogRatio bitsPerEntry nTweak).data.length =
      ((((filterBitsOf (hashFuncsOf roundedLogRatio) ((nElements + 1) / 2 * 3) bitsPerEntry).toUInt32
        + 63) / 64) <<< 1).toNat := by
  simp [new, reset]

/-- The constructor allocates a table of the right shape when `nFilterBits` is positive
and `nFilterBits + 63` does not wrap. -/
theorem tableShape_new {nElements : UInt32} {roundedLogRatio : Int} {bitsPerEntry : ℚ}
    (nTweak : UInt32) (hpos : 0 < filterBitsOf (hashFuncsOf roundedLogRatio) ((nElements + 1) / 2 * 3) bitsPerEntry)
    (hfit : filterBitsOf (hashFuncsOf roundedLogRatio) ((nElements + 1) / 2 * 3) bitsPerEntry + 63 < 2 ^ 32) :
    TableShape (new nElements roundedLogRatio bitsPerEntry nTweak).data.length := by
  rw [length_data_new]
  generalize filterBitsOf (hashFuncsOf roundedLogRatio) ((nElements + 1) / 2 * 3) bitsPerEntry = B
    at hpos hfit
  have hlen : (((B.toUInt32 + 63) / 64) <<< 1).toNat = 2 * ((B + 63) / 64) := by
    simp [UInt32.toNat_shiftLeft, UInt32.toNat_div, UInt32.toNat_add, Nat.shiftLeft_eq]
    omega
  rw [hlen]
  exact ⟨by omega, by omega, by omega⟩

end CRollingBloomFilter

open CRollingBloomFilter

/-! ## Generations -/

/-- The tag `t` is the number of a generation `e` with `lo ≤ e ≤ hi`; generation `e` has
the number `e % 3 + 1`. -/
def RecentTag (lo hi t : Nat) : Prop := ∃ e, lo ≤ e ∧ e ≤ hi ∧ t = e % 3 + 1

theorem RecentTag.mono {lo hi hi' t : Nat} (h : RecentTag lo hi t) (hle : hi ≤ hi') :
    RecentTag lo hi' t := by
  obtain ⟨e, hlo, hhi, rfl⟩ := h
  exact ⟨e, hlo, le_trans hhi hle, rfl⟩

theorem recentTag_top {lo hi : Nat} (hle : lo ≤ hi) : RecentTag lo hi (hi % 3 + 1) :=
  ⟨hi, hle, le_rfl, rfl⟩

theorem RecentTag.ne_zero {lo hi t : Nat} (h : RecentTag lo hi t) : t ≠ 0 := by
  obtain ⟨e, -, -, rfl⟩ := h
  omega

/-- A tag of the last two generations is not the number that the next one reuses. -/
theorem RecentTag.ne_next {lo hi t : Nat} (h : RecentTag lo hi t) (hlo : hi ≤ lo + 1) :
    t ≠ (hi + 1) % 3 + 1 := by
  obtain ⟨e, hle, hhi, rfl⟩ := h
  omega

/-- The insert after a full generation starts the next one. -/
theorem succ_div_of_full {M P : Nat} (hP : 0 < P) (h : M % P + 1 = P) :
    (M + 1) / P = M / P + 1 ∧ (M + 1) % P = 0 := by
  have hM : M + 1 = P * (M / P + 1) := by
    have := Nat.div_add_mod M P
    rw [Nat.mul_add, Nat.mul_one]
    omega
  rw [hM, Nat.mul_div_cancel_left _ hP, Nat.mul_mod_right]
  exact ⟨rfl, rfl⟩

/-- Any other insert stays in the current generation. -/
theorem succ_div_of_not_full {M P : Nat} (hP : 0 < P) (h : M % P + 1 ≠ P) :
    (M + 1) / P = M / P ∧ (M + 1) % P = M % P + 1 := by
  have hlt : M % P + 1 < P := by
    have := Nat.mod_lt M hP
    omega
  have hM : M + 1 = (M % P + 1) + P * (M / P) := by
    have := Nat.div_add_mod M P
    omega
  rw [hM, Nat.add_mul_div_left _ _ hP, Nat.div_eq_of_lt hlt, Nat.zero_add, Nat.add_mul_mod_self_left,
    Nat.mod_eq_of_lt hlt]
  exact ⟨rfl, rfl⟩

/-- The last `2 * P` keys lie in the current generation or the two before it. -/
theorem live_of_le {N P i : Nat} (hP : 0 < P) (hi : N ≤ i + 2 * P) : (N - 1) / P ≤ i / P + 2 :=
  calc (N - 1) / P ≤ (i + 2 * P) / P := Nat.div_le_div_right (by omega)
    _ = i / P + 2 := Nat.add_mul_div_right i 2 hP

/-! ## The window invariant -/

/-- **The window invariant** after the keys `ks` were inserted since the last reset, in
generations of `P`: the counters are those of the `ks.length`-th insert, and every key of
the current generation or of the two before it has each of its positions tagged with a
generation between its own and the current one. -/
structure WindowInv (P : Nat) (f : CRollingBloomFilter) (ks : List (List UInt8)) : Prop where
  perGeneration : f.nEntriesPerGeneration = P
  thisGeneration : f.nEntriesThisGeneration = if ks.length = 0 then 0 else (ks.length - 1) % P + 1
  generation : f.nGeneration = (ks.length - 1) / P % 3 + 1
  recent : ∀ i (hi : i < ks.length), (ks.length - 1) / P ≤ i / P + 2 → ∀ n < f.nHashFuncs,
    RecentTag (i / P) ((ks.length - 1) / P) (probeTag f.data f.nTweak ks[i] n)

section Window
variable {P : Nat} {f : CRollingBloomFilter} {ks : List (List UInt8)}

theorem windowInv_reset (hP : f.nEntriesPerGeneration = P) (nTweak : UInt32) :
    WindowInv P (f.reset nTweak) [] where
  perGeneration := hP
  thisGeneration := by simp [reset]
  generation := by simp [reset]
  recent := fun i hi => absurd hi (Nat.not_lt_zero i)

theorem WindowInv.epoch_of_full (hP : 0 < P) (hf : WindowInv P f ks)
    (hsw : f.nEntriesThisGeneration = f.nEntriesPerGeneration) :
    ks.length / P = (ks.length - 1) / P + 1 ∧ ks.length % P = 0 := by
  have h := hf.thisGeneration
  rw [hsw, hf.perGeneration] at h
  split_ifs at h with hN
  · omega
  · obtain ⟨M, hM⟩ : ∃ M, ks.length = M + 1 := ⟨ks.length - 1, by omega⟩
    rw [hM, Nat.add_sub_cancel] at h ⊢
    exact succ_div_of_full hP h.symm

theorem WindowInv.epoch_of_not_full (hP : 0 < P) (hf : WindowInv P f ks)
    (hsw : f.nEntriesThisGeneration ≠ f.nEntriesPerGeneration) :
    ks.length / P = (ks.length - 1) / P ∧ ks.length % P = f.nEntriesThisGeneration := by
  have h := hf.thisGeneration
  rw [hf.perGeneration] at hsw
  split_ifs at h with hN
  · rw [hN, h]
    simp
  · obtain ⟨M, hM⟩ : ∃ M, ks.length = M + 1 := ⟨ks.length - 1, by omega⟩
    rw [hM, Nat.add_sub_cancel] at h ⊢
    rw [h] at hsw
    obtain ⟨h1, h2⟩ := succ_div_of_not_full hP hsw
    exact ⟨h1, h2.trans h.symm⟩

/-- **The head of `insert`** moves the counters to the `ks.length + 1`-th insert, and the
wipe, if any, spares every key of the window that insert sees. -/
theorem WindowInv.rollGeneration (hP : 0 < P) (hf : WindowInv P f ks) (hs : TableShape f.data.length) :
    f.rollGeneration.nEntriesThisGeneration = ks.length % P ∧
    f.rollGeneration.nGeneration = ks.length / P % 3 + 1 ∧
    ∀ i (hi : i < ks.length), ks.length / P ≤ i / P + 2 → ∀ n < f.nHashFuncs,
      RecentTag (i / P) (ks.length / P) (probeTag f.rollGeneration.data f.nTweak ks[i] n) := by
  by_cases hsw : f.nEntriesThisGeneration = f.nEntriesPerGeneration
  · obtain ⟨hdiv, hmod⟩ := hf.epoch_of_full hP hsw
    -- the number reused is that of the generation after the current one
    have hnext : (if f.nGeneration + 1 = 4 then 1 else f.nGeneration + 1) =
        ((ks.length - 1) / P + 1) % 3 + 1 := by
      rw [hf.generation]
      split <;> omega
    simp only [CRollingBloomFilter.rollGeneration, if_pos hsw, hnext]
    refine ⟨hmod.symm, by rw [hdiv], ?_⟩
    intro i hi hlive n hn
    have hold := hf.recent i hi (by omega) n hn
    simp only [probeTag, length_wipePairs] at hold ⊢
    rw [tagAt_wipePairs (by omega) (hashProbe_snd_lt _ _) _ hs.even,
      if_neg (hold.ne_next (by omega)), hdiv]
    exact hold.mono (by omega)
  · obtain ⟨hdiv, hmod⟩ := hf.epoch_of_not_full hP hsw
    simp only [CRollingBloomFilter.rollGeneration, if_neg hsw]
    refine ⟨hmod.symm, by rw [hf.generation, hdiv], ?_⟩
    intro i hi hlive n hn
    rw [hdiv] at hlive ⊢
    exact hf.recent i hi hlive n hn

/-- **`insert` keeps the window invariant**, with its key appended. -/
theorem WindowInv.insertWrites (hP : 0 < P) (hf : WindowInv P f ks) (hs : TableShape f.data.length)
    (vKey : List UInt8) : WindowInv P (f.insertWrites vKey) (ks ++ [vKey]) := by
  obtain ⟨hthis, hgen, hrec⟩ := hf.rollGeneration hP hs
  have hg : f.rollGeneration.nGeneration < 4 := by
    rw [hgen]
    omega
  have hs' : TableShape f.rollGeneration.data.length := by rwa [length_data_rollGeneration]
  refine ⟨by simp [hf.perGeneration], by simp [hthis], by simp [hgen], ?_⟩
  · intro i hi hlive n hn
    simp only [List.length_append, List.length_singleton, Nat.add_sub_cancel] at hi hlive ⊢
    simp only [nTweak_insertWrites, nHashFuncs_insertWrites] at hn ⊢
    rw [probeTag_insertWrites f hs hg, hgen]
    rcases Nat.lt_or_ge i ks.length with hik | hik
    · -- a key inserted before: its position is retagged now or keeps its tag
      rw [List.getElem_append_left hik]
      split_ifs
      · exact recentTag_top (Nat.div_le_div_right hik.le)
      · exact hrec i hik hlive n hn
    · -- the key just inserted: each of its positions has the current tag
      obtain rfl : i = ks.length := by omega
      rw [List.getElem_concat_length rfl, if_pos ⟨n, hn, rfl⟩]
      exact recentTag_top le_rfl

theorem WindowInv.step (hP : 0 < P) (hf : WindowInv P f ks) (hs : TableShape f.data.length)
    (op : BloomOp) :
    ∃ f', f.step op = some f' ∧ WindowInv P f' (keysAfter ks op) ∧ TableShape f'.data.length := by
  cases op with
  | insert vKey =>
    exact ⟨_, insert_of_shape f hs vKey, hf.insertWrites hP hs vKey, by simpa using hs⟩
  | reset nTweak =>
    exact ⟨_, rfl, windowInv_reset hf.perGeneration nTweak, by simpa [reset] using hs⟩

/-- **Every sequence of calls keeps the window invariant**, over the keys inserted since
the last reset, and indexes no pair past the end of the table. -/
theorem WindowInv.run (hP : 0 < P) :
    ∀ (ops : List BloomOp) {f : CRollingBloomFilter} {ks : List (List UInt8)},
      WindowInv P f ks → TableShape f.data.length →
        ∃ f', f.run ops = some f' ∧ WindowInv P f' (ops.foldl keysAfter ks) ∧ TableShape f'.data.length
  | [], f, _, hf, hs => ⟨f, rfl, hf, hs⟩
  | op :: ops, f, _, hf, hs => by
    obtain ⟨f₁, hstep, hf₁, hs₁⟩ := hf.step hP hs op
    obtain ⟨f', hrun, hf', hs'⟩ := WindowInv.run hP ops hf₁ hs₁
    refine ⟨f', ?_, hf', hs'⟩
    rw [CRollingBloomFilter.run, List.foldlM_cons, hstep, Option.bind_eq_bind, Option.bind_some]
    exact hrun

/-- **Every key of the window is found.** -/
theorem WindowInv.contains (hf : WindowInv P f ks) (hs : TableShape f.data.length) {i : Nat}
    (hi : i < ks.length) (hlive : (ks.length - 1) / P ≤ i / P + 2) : f.contains ks[i] = some true :=
  (contains_eq_some_true_iff f hs ks[i]).mpr fun n hn => (hf.recent i hi hlive n hn).ne_zero

end Window

/-- The rolling Bloom filter finds each of the last `nElements` keys inserted since the last
reset, for every sequence of `insert` and `reset` calls, when `nElements + 1` does not wrap
and the table the constructor sizes has a positive number of bits below `2^32 - 63`; no call
indexes past the end of the table. -/
theorem rollingBloom_contains_recent (nElements : UInt32) (roundedLogRatio : Int)
    (bitsPerEntry : ℚ) (nTweak : UInt32) (ops : List BloomOp)
    (hn : nElements.toNat < 2 ^ 32 - 1) (hbits : 0 < bitsPerEntry)
    (hfit : filterBitsOf (hashFuncsOf roundedLogRatio) ((nElements + 1) / 2 * 3) bitsPerEntry + 63 < 2 ^ 32)
    (vKey : List UInt8) (hk : vKey ∈ (keysSinceReset ops).rtake nElements.toNat) :
    ∃ f, (CRollingBloomFilter.new nElements roundedLogRatio bitsPerEntry nTweak).run ops = some f ∧
      f.contains vKey = some true := by
  rcases Nat.eq_zero_or_pos nElements.toNat with h0 | h0
  · simp [h0, List.rtake] at hk
  · have hP := toNat_entriesPerGeneration hn
    have hinv : WindowInv ((nElements.toNat + 1) / 2) (new nElements roundedLogRatio bitsPerEntry nTweak) [] :=
      windowInv_reset (by simp [hP]) nTweak
    have hshape := tableShape_new nTweak
      (filterBitsOf_pos (hashFuncsOf_pos _) (toNat_maxElements_pos h0 hn) hbits) hfit
    obtain ⟨f, hrun, hf, hs⟩ := WindowInv.run (by omega) ops hinv hshape
    refine ⟨f, hrun, ?_⟩
    unfold keysSinceReset List.rtake at hk
    obtain ⟨m, hm, rfl⟩ := List.getElem_of_mem hk
    rw [List.getElem_drop]
    exact hf.contains hs _ (live_of_le (by omega) (by omega))

theorem rollingBloom_contains_recent_afterReset :
    ∃ f, (CRollingBloomFilter.new 2 1 2 0).run
      [.insert [1], .reset 7, .insert [2], .insert [3], .insert [4]] = some f ∧ f.contains [3] = some true :=
  rollingBloom_contains_recent 2 1 2 0 [.insert [1], .reset 7, .insert [2], .insert [3], .insert [4]]
    (by decide) (by norm_num) (by decide +kernel) [3] (by decide)

/-- At `nElements = 2^32 - 1` the sum `nElements + 1` wraps to zero: a generation holds no
entry, the table has no word, and the first insert indexes `data[0]` of the empty vector. -/
theorem rollingBloom_insert_past_end_at_maxElements :
    [0] ∈ (keysSinceReset [.insert [0]]).rtake 4294967295 ∧
      (CRollingBloomFilter.new 4294967295 20 (14378 / 10000) 0).data = [] ∧
      (CRollingBloomFilter.new 4294967295 20 (14378 / 10000) 0).run [.insert [0]] = none := by
  decide +kernel

end Sumcoin
