import Sumcoin.Consensus.StakeModifier

/-!
# What the rounds of `ComputeNextStakeModifier` select

Once `ComputeNextStakeModifier` has decided to generate a new modifier, it runs
`min(64, N)` rounds over its `N` sorted candidates.  Round `r` calls
`SelectBlockFromCandidates` with the stop time of the first `r + 1` sections and the
blocks chosen so far, and writes the entropy bit of the block it returns as bit `r` of
the new modifier.

This file says what a round chooses, without the sorted list (`RoundChoice`): a
candidate not chosen before; if some such candidate is within the stop time, one
within it whose selection hash is the least of theirs; otherwise the earliest such
candidate in the order of the sort.  It proves that every round of a chain of a
well-formed block index succeeds and chooses so, that no block is chosen twice, and that
the modifier holds exactly the chosen blocks' entropy bits
(`computeNextStakeModifier_selection`).

The loop of `SelectBlockFromCandidates` is taken one candidate at a time
(`selectBlockLoop_break`, `selectBlockLoop_skip`, `selectBlockLoop_first`,
`selectBlockLoop_improve`); its run keeps the least selection hash the way a scan for a
minimum does (`selectBlockLoop_of_some`, `selectBlockLoop_of_none`).

## Main definitions

* `candidateOf`, `selectionStop`, `selectionIntervalStart`, `candidateBlocks`, `RoundChoice`.

## Main statements

* `selectBlockFromCandidates_choice`: one round.
* `foldlM_selectionRound`: the rounds.
* `computeNextStakeModifier_selection`: the selection phase of `ComputeNextStakeModifier`.
-/

namespace Sumcoin

/-- The pair `ComputeNextStakeModifier` collects for a candidate entry. -/
def candidateOf (p : CBlockIndex) : Int × Uint256 := (p.getBlockTime, p.phashBlock)

/-- The stop time of round `nRound`: the start of the selection interval and the sections
of rounds `0` to `nRound`. -/
def selectionStop (params : ConsensusParams) (nSelectionIntervalStart : Int) (nRound : Nat) :
    Int :=
  nSelectionIntervalStart +
    ((List.range (nRound + 1)).map (getStakeModifierSelectionIntervalSection params)).sum

/-- The start of the selection interval after `pindexPrev`: the start of its modifier
interval less the selection interval. -/
def selectionIntervalStart (params : ConsensusParams) (pindexPrev : CBlockIndex) : Int :=
  pindexPrev.getBlockTime.tdiv params.nModifierInterval * params.nModifierInterval -
    getStakeModifierSelectionInterval params

/-- The candidate entries: `pindexPrev` and its ancestors back to the first one older than
`nSelectionIntervalStart`. -/
def candidateBlocks (pindexPrev : List CBlockIndex) (nSelectionIntervalStart : Int) :
    List CBlockIndex :=
  pindexPrev.takeWhile fun p => decide (p.getBlockTime ≥ nSelectionIntervalStart)

section

variable (hash256 : List UInt8 → Uint256) (m : BlockMap)

/-- What a round must choose from the candidate entries `cands`, the entries `before`
chosen in earlier rounds, the stop time and the previous modifier: a candidate not chosen
before; if some candidate not chosen before is within the stop time, one within it with
the least selection hash of theirs; otherwise the earliest candidate not chosen before, in
the order of the sort. -/
structure RoundChoice (cands before : List CBlockIndex) (nSelectionIntervalStop : Int)
    (nStakeModifierPrev : UInt64) (p : CBlockIndex) : Prop where
  mem : p ∈ cands
  fresh : p ∉ before
  least : ∀ q ∈ cands, q ∉ before → q.getBlockTime ≤ nSelectionIntervalStop →
    p.getBlockTime ≤ nSelectionIntervalStop ∧
      (selectionHash hash256 p nStakeModifierPrev).toNat ≤
        (selectionHash hash256 q nStakeModifierPrev).toNat
  earliest : (∀ q ∈ cands, q ∉ before → nSelectionIntervalStop < q.getBlockTime) →
    ∀ q ∈ cands, q ∉ before → candidateKey (candidateOf p) ≤ candidateKey (candidateOf q)

variable {hash256 m} {sel : List Uint256} {stop : Int} {prev : UInt64}

/-! ## One candidate of the loop -/

/-- Past the stop time, once a block is chosen, the loop ends. -/
theorem selectBlockLoop_break {it : Int × Uint256} {p : CBlockIndex} (hp : m it.2 = some p)
    (hstop : stop < p.getBlockTime) (best : ArithUint256 × CBlockIndex)
    (rest : List (Int × Uint256)) :
    selectBlockLoop hash256 m sel stop prev (it :: rest) (some best) = some (some best) := by
  simp [selectBlockLoop, hp, hstop]

/-- A block chosen in an earlier round is passed over. -/
theorem selectBlockLoop_skip {it : Int × Uint256} {p : CBlockIndex} (hp : m it.2 = some p)
    (hsel : p.phashBlock ∈ sel) {best : Option (ArithUint256 × CBlockIndex)}
    (hgo : best.isSome → p.getBlockTime ≤ stop) (rest : List (Int × Uint256)) :
    selectBlockLoop hash256 m sel stop prev (it :: rest) best =
      selectBlockLoop hash256 m sel stop prev rest best := by
  have hcont : (best.isSome && decide (p.getBlockTime > stop)) = false := by
    cases hbest : best.isSome
    · rfl
    · have := hgo hbest
      simp [this]
  simp [selectBlockLoop, hp, hcont, hsel]

/-- The first block not chosen before is the best one so far, whatever its time. -/
theorem selectBlockLoop_first {it : Int × Uint256} {p : CBlockIndex} (hp : m it.2 = some p)
    (hsel : p.phashBlock ∉ sel) (rest : List (Int × Uint256)) :
    selectBlockLoop hash256 m sel stop prev (it :: rest) none =
      selectBlockLoop hash256 m sel stop prev rest (some (selectionHash hash256 p prev, p)) := by
  simp [selectBlockLoop, hp, hsel]

/-- A later block within the stop time replaces the best one when its selection hash is
strictly less. -/
theorem selectBlockLoop_improve {it : Int × Uint256} {p : CBlockIndex} (hp : m it.2 = some p)
    (hstop : p.getBlockTime ≤ stop) (hsel : p.phashBlock ∉ sel) (hb : ArithUint256)
    (pb : CBlockIndex) (rest : List (Int × Uint256)) :
    selectBlockLoop hash256 m sel stop prev (it :: rest) (some (hb, pb)) =
      selectBlockLoop hash256 m sel stop prev rest
        (if (selectionHash hash256 p prev).lt hb then some (selectionHash hash256 p prev, p)
         else some (hb, pb)) := by
  have hgo : ¬ stop < p.getBlockTime := not_lt.mpr hstop
  simp [selectBlockLoop, hp, hgo, hsel]

/-! ## The loop -/

/-- Two entries stored under their hashes with one hash are one entry. -/
theorem eq_of_phashBlock_eq {p q : CBlockIndex} (hp : m p.phashBlock = some p)
    (hq : m q.phashBlock = some q) (h : q.phashBlock = p.phashBlock) : q = p := by
  rw [h, hp] at hq
  exact (Option.some.inj hq).symm

/-- Two entries of the index with one pair are one entry. -/
theorem eq_of_candidateOf_eq {p q : CBlockIndex} (hp : m p.phashBlock = some p)
    (hq : m q.phashBlock = some q) (h : candidateOf q = candidateOf p) : q = p :=
  eq_of_phashBlock_eq hp hq (congrArg Prod.snd h)

/-- From the best block `pb`, the loop ends with a block no worse than `pb` and than every
candidate within the stop time not chosen before: `pb` itself or one of those. -/
theorem selectBlockLoop_of_some {items : List (Int × Uint256)}
    (hres : ∀ it ∈ items, ∃ p, m p.phashBlock = some p ∧ candidateOf p = it)
    (hsorted : items.Pairwise fun a b => a.1 ≤ b.1) {pb : CBlockIndex}
    (hpb : m pb.phashBlock = some pb) :
    ∃ p', selectBlockLoop hash256 m sel stop prev items (some (selectionHash hash256 pb prev, pb)) =
        some (some (selectionHash hash256 p' prev, p')) ∧ m p'.phashBlock = some p' ∧
      (p' = pb ∨ (candidateOf p' ∈ items ∧ p'.phashBlock ∉ sel ∧ p'.getBlockTime ≤ stop)) ∧
      (selectionHash hash256 p' prev).toNat ≤ (selectionHash hash256 pb prev).toNat ∧
      ∀ q, m q.phashBlock = some q → candidateOf q ∈ items → q.phashBlock ∉ sel →
        q.getBlockTime ≤ stop →
        (selectionHash hash256 p' prev).toNat ≤ (selectionHash hash256 q prev).toNat := by
  induction items generalizing pb with
  | nil => exact ⟨pb, rfl, hpb, .inl rfl, le_rfl, fun q _ hq => absurd hq List.not_mem_nil⟩
  | cons it rest ih =>
    obtain ⟨p, hp, rfl⟩ := hres it List.mem_cons_self
    have hres' : ∀ it ∈ rest, ∃ p, m p.phashBlock = some p ∧ candidateOf p = it :=
      fun it h => hres it (List.mem_cons_of_mem _ h)
    obtain ⟨hhead, hsorted'⟩ := List.pairwise_cons.mp hsorted
    by_cases hstop : stop < p.getBlockTime
    case pos =>
      -- every later candidate is as late, so nothing within the stop time is left
      refine ⟨pb, selectBlockLoop_break hp hstop _ rest, hpb, .inl rfl, le_rfl, ?_⟩
      intro q hq hmem _ hle
      rcases List.mem_cons.mp hmem with h | h
      · rw [eq_of_candidateOf_eq hp hq h] at hle
        omega
      · have := hhead _ h
        simp only [candidateOf] at this
        omega
    case neg =>
      have hle : p.getBlockTime ≤ stop := not_lt.mp hstop
      by_cases hsel : p.phashBlock ∈ sel
      case pos =>
        obtain ⟨p', hloop, hidx, hwho, hbest, hall⟩ := ih hres' hsorted' hpb
        refine ⟨p', ?_, hidx, ?_, hbest, ?_⟩
        · rw [selectBlockLoop_skip hp hsel (fun _ => hle) rest, hloop]
        · rcases hwho with h | ⟨h₁, h₂, h₃⟩
          · exact .inl h
          · exact .inr ⟨List.mem_cons_of_mem _ h₁, h₂, h₃⟩
        · intro q hq hmem hqsel hqle
          rcases List.mem_cons.mp hmem with h | h
          · rw [eq_of_candidateOf_eq hp hq h] at hqsel
            exact absurd hsel hqsel
          · exact hall q hq h hqsel hqle
      case neg =>
        rw [selectBlockLoop_improve hp hle hsel]
        by_cases hlt : (selectionHash hash256 p prev).lt (selectionHash hash256 pb prev) = true
        case pos =>
          rw [if_pos hlt]
          have hlt' := (BaseUint.lt_iff _ _).mp hlt
          obtain ⟨p', hloop, hidx, hwho, hbest, hall⟩ := ih hres' hsorted' hp
          refine ⟨p', hloop, hidx, ?_, by omega, ?_⟩
          · rcases hwho with rfl | ⟨h₁, h₂, h₃⟩
            · exact .inr ⟨List.mem_cons_self, hsel, hle⟩
            · exact .inr ⟨List.mem_cons_of_mem _ h₁, h₂, h₃⟩
          · intro q hq hmem hqsel hqle
            rcases List.mem_cons.mp hmem with h | h
            · rw [eq_of_candidateOf_eq hp hq h]
              exact hbest
            · exact hall q hq h hqsel hqle
        case neg =>
          rw [if_neg hlt]
          have hge : (selectionHash hash256 pb prev).toNat ≤ (selectionHash hash256 p prev).toNat :=
            not_lt.mp fun h => hlt ((BaseUint.lt_iff _ _).mpr h)
          obtain ⟨p', hloop, hidx, hwho, hbest, hall⟩ := ih hres' hsorted' hpb
          refine ⟨p', hloop, hidx, ?_, hbest, ?_⟩
          · rcases hwho with h | ⟨h₁, h₂, h₃⟩
            · exact .inl h
            · exact .inr ⟨List.mem_cons_of_mem _ h₁, h₂, h₃⟩
          · intro q hq hmem hqsel hqle
            rcases List.mem_cons.mp hmem with h | h
            · rw [eq_of_candidateOf_eq hp hq h]
              omega
            · exact hall q hq h hqsel hqle

/-- A key order of the candidates is an order of their times. -/
theorem time_le_of_candidateKey_le {a b : Int × Uint256} (h : candidateKey a ≤ candidateKey b) :
    a.1 ≤ b.1 := by
  simp only [candidateKey, Prod.Lex.toLex_le_toLex] at h
  omega

/-- From no best block, with some candidate not chosen before, the loop chooses the first
such candidate or a later one: a fresh candidate with the least selection hash of the
fresh ones within the stop time, within it when any is, and the earliest fresh one when
none is. -/
theorem selectBlockLoop_of_none {items : List (Int × Uint256)}
    (hres : ∀ it ∈ items, ∃ p, m p.phashBlock = some p ∧ candidateOf p = it)
    (hsorted : items.Pairwise fun a b => candidateKey a ≤ candidateKey b)
    (hfresh : ∃ it ∈ items, it.2 ∉ sel) :
    ∃ p', selectBlockLoop hash256 m sel stop prev items none =
        some (some (selectionHash hash256 p' prev, p')) ∧ m p'.phashBlock = some p' ∧
      candidateOf p' ∈ items ∧ p'.phashBlock ∉ sel ∧
      (∀ q, m q.phashBlock = some q → candidateOf q ∈ items → q.phashBlock ∉ sel →
        q.getBlockTime ≤ stop → p'.getBlockTime ≤ stop ∧
          (selectionHash hash256 p' prev).toNat ≤ (selectionHash hash256 q prev).toNat) ∧
      ((∀ q, m q.phashBlock = some q → candidateOf q ∈ items → q.phashBlock ∉ sel →
          stop < q.getBlockTime) →
        ∀ q, m q.phashBlock = some q → candidateOf q ∈ items → q.phashBlock ∉ sel →
          candidateKey (candidateOf p') ≤ candidateKey (candidateOf q)) := by
  induction items with
  | nil =>
    obtain ⟨it, hit, -⟩ := hfresh
    exact absurd hit List.not_mem_nil
  | cons it rest ih =>
    obtain ⟨p, hp, rfl⟩ := hres it List.mem_cons_self
    have hres' : ∀ it ∈ rest, ∃ p, m p.phashBlock = some p ∧ candidateOf p = it :=
      fun it h => hres it (List.mem_cons_of_mem _ h)
    obtain ⟨hhead, hsorted'⟩ := List.pairwise_cons.mp hsorted
    by_cases hsel : p.phashBlock ∈ sel
    case pos =>
      -- the head was chosen before, so the fresh candidate is later
      have hfresh' : ∃ it ∈ rest, it.2 ∉ sel := by
        obtain ⟨it, hit, hitsel⟩ := hfresh
        rcases List.mem_cons.mp hit with rfl | hit
        · exact absurd hsel hitsel
        · exact ⟨it, hit, hitsel⟩
      obtain ⟨p', hloop, hidx, hmem, hpsel, hleast, hearliest⟩ := ih hres' hsorted' hfresh'
      have hnothead : ∀ q, m q.phashBlock = some q → q.phashBlock ∉ sel →
          candidateOf q ∈ candidateOf p :: rest → candidateOf q ∈ rest := by
        intro q hq hqsel hmem
        rcases List.mem_cons.mp hmem with h | h
        · rw [eq_of_candidateOf_eq hp hq h] at hqsel
          exact absurd hsel hqsel
        · exact h
      refine ⟨p', ?_, hidx, List.mem_cons_of_mem _ hmem, hpsel, ?_, ?_⟩
      · rw [selectBlockLoop_skip hp hsel (fun h => absurd h (by simp)) rest, hloop]
      · intro q hq hqmem hqsel hqle
        exact hleast q hq (hnothead q hq hqsel hqmem) hqsel hqle
      · intro hlate q hq hqmem hqsel
        refine hearliest (fun q hq hqmem hqsel => ?_) q hq (hnothead q hq hqsel hqmem) hqsel
        exact hlate q hq (List.mem_cons_of_mem _ hqmem) hqsel
    case neg =>
      -- the head is fresh: it is the best block so far, and the rest improves on it
      have htime : rest.Pairwise fun a b => a.1 ≤ b.1 :=
        hsorted'.imp time_le_of_candidateKey_le
      obtain ⟨p', hloop, hidx, hwho, hbest, hall⟩ :=
        @selectBlockLoop_of_some hash256 m sel stop prev rest hres' htime p hp
      have hwhere : candidateOf p' ∈ candidateOf p :: rest ∧ p'.phashBlock ∉ sel := by
        rcases hwho with rfl | ⟨h₁, h₂, -⟩
        · exact ⟨List.mem_cons_self, hsel⟩
        · exact ⟨List.mem_cons_of_mem _ h₁, h₂⟩
      refine ⟨p', by rw [selectBlockLoop_first hp hsel rest, hloop], hidx, hwhere.1, hwhere.2,
        ?_, ?_⟩
      · intro q hq hqmem hqsel hqle
        rcases List.mem_cons.mp hqmem with h | h
        · obtain rfl := eq_of_candidateOf_eq hp hq h
          refine ⟨?_, hbest⟩
          rcases hwho with rfl | ⟨-, -, h₃⟩
          · exact hqle
          · exact h₃
        · refine ⟨?_, hall q hq h hqsel hqle⟩
          rcases hwho with rfl | ⟨-, -, h₃⟩
          · have := time_le_of_candidateKey_le (hhead _ h)
            simp only [candidateOf] at this
            omega
          · exact h₃
      · intro hlate q hq hqmem hqsel
        -- nothing fresh is within the stop time, so the loop kept the head
        obtain rfl : p' = p := by
          rcases hwho with h | ⟨h₁, h₂, h₃⟩
          · exact h
          · have := hlate p' hidx (List.mem_cons_of_mem _ h₁) h₂
            omega
        rcases List.mem_cons.mp hqmem with h | h
        · rw [eq_of_candidateOf_eq hp hq h]
        · exact hhead _ h

/-! ## One round -/

/-- **One round.**  Over an arrangement `items` of the pairs of candidates stored in the
index, sorted by the comparator's key, with `sel` the hashes of the blocks chosen before
and some candidate not among them, `SelectBlockFromCandidates` succeeds and makes the
choice `RoundChoice` describes. -/
theorem selectBlockFromCandidates_choice {cands before : List CBlockIndex}
    (hidx : ∀ p ∈ cands, m p.phashBlock = some p) {items : List (Int × Uint256)}
    (hitems : items.Perm (cands.map candidateOf))
    (hsorted : items.Pairwise fun a b => candidateKey a ≤ candidateKey b)
    (hsel : ∀ q ∈ cands, q.phashBlock ∈ sel ↔ q ∈ before) (hfresh : ∃ q ∈ cands, q ∉ before) :
    ∃ p, selectBlockFromCandidates hash256 m items sel stop prev = some p ∧
      RoundChoice hash256 cands before stop prev p := by
  have hmemItems : ∀ {q}, q ∈ cands → candidateOf q ∈ items :=
    fun hq => hitems.mem_iff.mpr (List.mem_map_of_mem hq)
  have hres : ∀ it ∈ items, ∃ p, m p.phashBlock = some p ∧ candidateOf p = it := by
    intro it hit
    obtain ⟨p, hp, rfl⟩ := List.mem_map.mp (hitems.mem_iff.mp hit)
    exact ⟨p, hidx p hp, rfl⟩
  -- an entry of the index whose pair is arranged is a candidate
  have hcand : ∀ {q}, m q.phashBlock = some q → candidateOf q ∈ items → q ∈ cands := by
    intro q hq hmem
    obtain ⟨c, hc, heq⟩ := List.mem_map.mp (hitems.mem_iff.mp hmem)
    rw [eq_of_candidateOf_eq (hidx c hc) hq heq.symm]
    exact hc
  obtain ⟨q₀, hq₀, hq₀fresh⟩ := hfresh
  obtain ⟨p, hloop, hidxp, hmem, hpsel, hleast, hearliest⟩ :=
    @selectBlockLoop_of_none hash256 m sel stop prev items hres hsorted
      ⟨candidateOf q₀, hmemItems hq₀, fun h => hq₀fresh ((hsel q₀ hq₀).mp h)⟩
  have hp : p ∈ cands := hcand hidxp hmem
  refine ⟨p, by simp [selectBlockFromCandidates, hloop],
    ⟨hp, fun h => hpsel ((hsel p hp).mpr h), ?_, ?_⟩⟩
  · intro q hq hqb hqle
    exact hleast q (hidx q hq) (hmemItems hq) (fun h => hqb ((hsel q hq).mp h)) hqle
  · intro hlate q hq hqb
    refine hearliest (fun q' hq' hmem' hsel' => ?_) q (hidx q hq) (hmemItems hq)
      (fun h => hqb ((hsel q hq).mp h))
    have hc := hcand hq' hmem'
    exact hlate q' hc (fun h => hsel' ((hsel q' hc).mpr h))

/-! ## The rounds -/

/-- An entropy bit is a bit. -/
theorem toNat_getStakeEntropyBit_le (p : CBlockIndex) : p.getStakeEntropyBit.toNat ≤ 1 := by
  have h : (p.nFlags.toNat &&& 2) ≤ 2 := Nat.and_le_right
  simp only [CBlockIndex.getStakeEntropyBit, CBlockIndex.blockStakeEntropy, UInt32.toNat_shiftRight,
    UInt32.toNat_and]
  simp only [UInt32.reduceToNat, Nat.reduceMod, Nat.shiftRight_eq_div_pow]
  omega

/-- Writing a bit at position `r < 64` sets that position of the modifier to the bit and
leaves the others. -/
theorem testBit_or_shiftLeft (x : UInt64) {b : UInt32} (hb : b.toNat ≤ 1) {r : Nat} (hr : r < 64)
    (j : Nat) :
    (x ||| (b.toUInt64 <<< r.toUInt64)).toNat.testBit j =
      (x.toNat.testBit j || (decide (j = r) && b == 1)) := by
  rcases Nat.le_one_iff_eq_zero_or_eq_one.mp hb with h | h
  · have hb0 : b = 0 := UInt32.toNat_inj.mp (by simpa using h)
    subst hb0
    simp
  · have hb1 : b = 1 := UInt32.toNat_inj.mp (by simpa using h)
    subst hb1
    have hmod : r % 64 = r := Nat.mod_eq_of_lt hr
    have hpow : 2 ^ r % 18446744073709551616 = 2 ^ r :=
      Nat.mod_eq_of_lt (Nat.pow_lt_pow_right (by decide) hr)
    simp [UInt64.toNat_or, UInt64.toNat_shiftLeft, Nat.testBit_or, Nat.shiftLeft_eq, hmod, hpow,
      Nat.testBit_two_pow, eq_comm]

/-- Blocks chosen by rounds of `RoundChoice` are distinct. -/
theorem nodup_of_roundChoice {cands ps : List CBlockIndex} {stops : Nat → Int}
    (h : ∀ i (hi : i < ps.length), RoundChoice hash256 cands (ps.take i) (stops i) prev ps[i]) :
    ps.Nodup := by
  rw [List.nodup_iff_getElem?_ne_getElem?]
  intro i j hij hj hget
  have hi : i < ps.length := by omega
  rw [List.getElem?_eq_getElem hi, List.getElem?_eq_getElem hj, Option.some.injEq] at hget
  have hmem : ps[i] ∈ ps.take j := List.mem_iff_getElem.mpr ⟨i, by simp; omega, by simp⟩
  exact (h j hj).fresh (hget ▸ hmem)

/-- **The rounds.**  Over candidates stored in the index under distinct hashes, arranged and
sorted as for one round, the first `r ≤ min 64 N` rounds succeed: they choose `r` blocks,
each by `RoundChoice` against the blocks chosen before it, and the modifier they build
holds each chosen block's entropy bit at its round and zero elsewhere. -/
theorem foldlM_selectionRound (params : ConsensusParams) {cands : List CBlockIndex}
    (hidx : ∀ p ∈ cands, m p.phashBlock = some p)
    (hnodup : (cands.map CBlockIndex.phashBlock).Nodup) {items : List (Int × Uint256)}
    (hitems : items.Perm (cands.map candidateOf))
    (hsorted : items.Pairwise fun a b => candidateKey a ≤ candidateKey b) (start : Int)
    (prev : UInt64) :
    ∀ r, r ≤ min 64 cands.length → ∃ ps : List CBlockIndex, ps.length = r ∧
      (∀ i (hi : i < ps.length),
        RoundChoice hash256 cands (ps.take i) (selectionStop params start i) prev ps[i]) ∧
      ∃ nStakeModifierNew : UInt64,
        (List.range r).foldlM (selectionRound hash256 m params items prev) (start, [], 0) =
          some (start + ((List.range r).map (getStakeModifierSelectionIntervalSection params)).sum,
            (ps.map CBlockIndex.phashBlock).reverse, nStakeModifierNew) ∧
        ∀ j, nStakeModifierNew.toNat.testBit j =
          (ps[j]?.map CBlockIndex.getStakeEntropyBit == some 1)
  | 0, _ => ⟨[], rfl, fun i hi => absurd hi (Nat.not_lt_zero i), 0, by simp, fun j => by simp⟩
  | r + 1, hr => by
    obtain ⟨ps, hlen, hchoice, nStakeModifierNew, hfold, hbits⟩ :=
      foldlM_selectionRound params hidx hnodup hitems hsorted start prev r (by omega)
    have hsub : ∀ p ∈ ps, p ∈ cands := by
      intro p hp
      obtain ⟨i, hi, rfl⟩ := List.mem_iff_getElem.mp hp
      exact (hchoice i hi).mem
    -- the chosen blocks are candidates, so a hash names at most one of them
    have hsel : ∀ q ∈ cands, q.phashBlock ∈ (ps.map CBlockIndex.phashBlock).reverse ↔ q ∈ ps := by
      intro q hq
      simp only [List.mem_reverse, List.mem_map]
      constructor
      · rintro ⟨p, hp, heq⟩
        rw [← eq_of_phashBlock_eq (hidx q hq) (hidx p (hsub p hp)) heq]
        exact hp
      · intro hq'
        exact ⟨q, hq', rfl⟩
    -- fewer than `N` blocks are chosen, so a candidate is left
    have hfresh : ∃ q ∈ cands, q ∉ ps := by
      by_contra hall
      push Not at hall
      have := (hnodup.of_map _).length_le_of_subset hall
      omega
    obtain ⟨p, hp, hpchoice⟩ :=
      @selectBlockFromCandidates_choice hash256 m (ps.map CBlockIndex.phashBlock).reverse
        (selectionStop params start r) prev cands ps hidx items hitems hsorted hsel hfresh
    have hstop : start + ((List.range r).map (getStakeModifierSelectionIntervalSection params)).sum +
        getStakeModifierSelectionIntervalSection params r = selectionStop params start r := by
      rw [selectionStop, List.range_succ, List.map_append, List.sum_append, List.map_singleton,
        List.sum_singleton, Int.add_assoc]
    refine ⟨ps ++ [p], by simp [hlen], ?_,
      nStakeModifierNew ||| (p.getStakeEntropyBit.toUInt64 <<< r.toUInt64), ?_, ?_⟩
    · intro i hi
      rw [List.length_append, List.length_singleton] at hi
      rcases Nat.lt_succ_iff_lt_or_eq.mp hi with hi | rfl
      · rw [List.getElem_append_left (by omega), List.take_append_of_le_length (by omega)]
        exact hchoice i (by omega)
      · rw [List.getElem_append_right (by omega)]
        simpa [← hlen] using hpchoice
    · show _ = some (selectionStop params start r, _, _)
      -- round `r` runs at the stop `selectionStop params start r` and chooses `p`
      have hround : selectionRound hash256 m params items prev
          (start + ((List.range r).map (getStakeModifierSelectionIntervalSection params)).sum,
            (ps.map CBlockIndex.phashBlock).reverse, nStakeModifierNew) r =
          some (selectionStop params start r, p.phashBlock :: (ps.map CBlockIndex.phashBlock).reverse,
            nStakeModifierNew ||| (p.getStakeEntropyBit.toUInt64 <<< r.toUInt64)) := by
        rw [selectionRound, hstop, hp]
        rfl
      rw [List.range_succ, List.foldlM_append, hfold]
      simp [hround]
    · intro j
      rw [testBit_or_shiftLeft _ (toNat_getStakeEntropyBit_le p) (by omega), hbits j]
      rcases lt_trichotomy j r with h | rfl | h
      · simp [List.getElem?_append_left (hlen ▸ h : j < ps.length), Nat.ne_of_lt h]
      · simp [← hlen]
      · simp [List.getElem?_eq_none (show ps.length ≤ j by omega),
          List.getElem?_eq_none (show (ps ++ [p]).length ≤ j by simp; omega), Nat.ne_of_gt h]

/-- Sorting by `candidateLess` orders the candidates by `candidateKey`. -/
theorem pairwise_candidateKey_of_isSorted {l l' : List (Int × Uint256)}
    (h : SortSpec.IsSorted candidateLess l l') :
    l'.Pairwise fun a b => candidateKey a ≤ candidateKey b :=
  h.2.imp fun {a b} hba => by
    rw [candidateLess_eq, decide_eq_false_iff_not, not_lt] at hba
    exact hba

/-- Past both epoch checks `ComputeNextStakeModifier` runs its rounds over the sorted
candidates, and the modifier the last round builds is the new modifier. -/
theorem computeNextStakeModifier_of_foldlM (chainparams : ChainParams) (draw : Nat → Nat)
    (sort : List (Int × Uint256) → List (Int × Uint256)) {pindexCurrent pindexPrev : CBlockIndex}
    {rest : List CBlockIndex} {nStakeModifier : UInt64} {nModifierTime : Int}
    (hlast : getLastStakeModifier (pindexPrev :: rest) = some (nStakeModifier, nModifierTime))
    (hprev : nModifierTime.tdiv chainparams.consensus.nModifierInterval <
      pindexPrev.getBlockTime.tdiv chainparams.consensus.nModifierInterval)
    (hcurrent : isProtocolV04 chainparams.network pindexCurrent.nTime →
      nModifierTime.tdiv chainparams.consensus.nModifierInterval <
        pindexCurrent.getBlockTime.tdiv chainparams.consensus.nModifierInterval)
    {items : List (Int × Uint256)}
    (hitems : sort (SortSpec.shuffle draw (stakeModifierCandidates (pindexPrev :: rest)
      (selectionIntervalStart chainparams.consensus pindexPrev))) = items)
    {acc : Int × List Uint256 × UInt64}
    (hfold : (List.range (min 64 items.length)).foldlM
      (selectionRound hash256 m chainparams.consensus items nStakeModifier)
      (selectionIntervalStart chainparams.consensus pindexPrev, [], 0) = some acc) :
    computeNextStakeModifier hash256 m chainparams draw sort (pindexCurrent :: pindexPrev :: rest) =
      some (acc.2.2, true) := by
  have hv04 : ¬ (nModifierTime.tdiv chainparams.consensus.nModifierInterval ≥
      pindexCurrent.getBlockTime.tdiv chainparams.consensus.nModifierInterval ∧
        isProtocolV04 chainparams.network pindexCurrent.nTime) := fun ⟨hge, hon⟩ =>
    absurd (hcurrent hon) (not_lt.mpr hge)
  simp only [computeNextStakeModifier, hlast, Option.bind_eq_bind, Option.bind_some,
    if_neg (not_le.mpr hprev), if_neg hv04]
  rw [show pindexPrev.getBlockTime.tdiv chainparams.consensus.nModifierInterval *
      chainparams.consensus.nModifierInterval -
        getStakeModifierSelectionInterval chainparams.consensus =
      selectionIntervalStart chainparams.consensus pindexPrev from rfl, hitems, hfold]
  rfl

/-- **The selection phase.**  When `ComputeNextStakeModifier` passes both epoch checks on a
chain stored in the index under distinct hashes, with a sort meeting `std::sort`'s
postcondition, it generates a modifier: each of the `min 64 N` rounds over the `N`
candidate entries chooses a fresh candidate as `RoundChoice` says, no entry twice, and the
new modifier holds at each bit the entropy bit of the block of that round, and zero above. -/
theorem computeNextStakeModifier_selection (chainparams : ChainParams) (draw : Nat → Nat)
    {sort : List (Int × Uint256) → List (Int × Uint256)}
    (hsort : ∀ l, SortSpec.IsSorted candidateLess l (sort l))
    {pindexCurrent pindexPrev : CBlockIndex} {rest : List CBlockIndex}
    (hidx : ∀ p ∈ pindexPrev :: rest, m p.phashBlock = some p)
    (hnodup : ((pindexPrev :: rest).map CBlockIndex.phashBlock).Nodup)
    {nStakeModifier : UInt64} {nModifierTime : Int}
    (hlast : getLastStakeModifier (pindexPrev :: rest) = some (nStakeModifier, nModifierTime))
    (hprev : nModifierTime.tdiv chainparams.consensus.nModifierInterval <
      pindexPrev.getBlockTime.tdiv chainparams.consensus.nModifierInterval)
    (hcurrent : isProtocolV04 chainparams.network pindexCurrent.nTime →
      nModifierTime.tdiv chainparams.consensus.nModifierInterval <
        pindexCurrent.getBlockTime.tdiv chainparams.consensus.nModifierInterval) :
    ∃ selected : List CBlockIndex,
      selected.length =
        min 64 (candidateBlocks (pindexPrev :: rest)
          (selectionIntervalStart chainparams.consensus pindexPrev)).length ∧
      selected.Nodup ∧
      (∀ r (hr : r < selected.length),
        RoundChoice hash256
          (candidateBlocks (pindexPrev :: rest)
            (selectionIntervalStart chainparams.consensus pindexPrev))
          (selected.take r)
          (selectionStop chainparams.consensus
            (selectionIntervalStart chainparams.consensus pindexPrev) r)
          nStakeModifier selected[r]) ∧
      ∃ nStakeModifierNew : UInt64,
        computeNextStakeModifier hash256 m chainparams draw sort
            (pindexCurrent :: pindexPrev :: rest) = some (nStakeModifierNew, true) ∧
        ∀ j, nStakeModifierNew.toNat.testBit j =
          (selected[j]?.map CBlockIndex.getStakeEntropyBit == some 1) := by
  set params := chainparams.consensus
  set start := selectionIntervalStart params pindexPrev
  set cands := candidateBlocks (pindexPrev :: rest) start
  -- the candidates are a prefix of the chain, so stored under distinct hashes
  have hsub : cands.Sublist (pindexPrev :: rest) := List.takeWhile_sublist _
  have hcidx : ∀ p ∈ cands, m p.phashBlock = some p := fun p hp => hidx p (hsub.subset hp)
  have hcnodup : (cands.map CBlockIndex.phashBlock).Nodup := hnodup.sublist (hsub.map _)
  set items := sort (SortSpec.shuffle draw (cands.map candidateOf))
  have hperm : items.Perm (cands.map candidateOf) :=
    (hsort _).1.trans (SortSpec.shuffle_perm draw _)
  have hlen : items.length = cands.length := by rw [hperm.length_eq, List.length_map]
  obtain ⟨ps, hpslen, hchoice, nStakeModifierNew, hfold, hbits⟩ :=
    foldlM_selectionRound params hcidx hcnodup hperm (pairwise_candidateKey_of_isSorted (hsort _))
      start nStakeModifier (min 64 cands.length) le_rfl
  refine ⟨ps, hpslen, nodup_of_roundChoice hchoice, hchoice, nStakeModifierNew, ?_, hbits⟩
  -- the rounds run over `min 64` of the sorted candidates, as many as the candidates
  rw [← hlen] at hfold
  exact computeNextStakeModifier_of_foldlM chainparams draw sort hlast hprev hcurrent rfl hfold

/-- On `stakeModifierChain` both rounds succeed: they choose its two candidates, one each,
and the new modifier holds their entropy bits. -/
theorem computeNextStakeModifier_selection_stakeModifierChain :
    ∃ selected : List CBlockIndex, selected.length = 2 ∧ selected.Nodup ∧
      ∃ nStakeModifierNew : UInt64,
        computeNextStakeModifier cHash256 stakeModifierChainIndex mainParams (fun _ => 0)
            (List.insertionSort fun a b => candidateLess b a = false) stakeModifierChain =
          some (nStakeModifierNew, true) ∧
        ∀ j, nStakeModifierNew.toNat.testBit j =
          (selected[j]?.map CBlockIndex.getStakeEntropyBit == some 1) := by
  obtain ⟨selected, hlen, hnodup, -, nStakeModifierNew, hrun, hbits⟩ :=
    @computeNextStakeModifier_selection cHash256 stakeModifierChainIndex mainParams (fun _ => 0) _
      (SortSpec.isSorted_insertionSort candidateLess_trichotomous candidateLess_asymm
        candidateLess_trans)
      (stakeModifierChain.get ⟨0, by decide⟩) (stakeModifierChain.get ⟨1, by decide⟩)
      [stakeModifierChain.get ⟨2, by decide⟩] (by decide +kernel) (by decide +kernel) 0
      mainGenesis.header.nTime.toNat (by decide +kernel) (by decide +kernel) (by decide +kernel)
  exact ⟨selected, hlen.trans (by decide +kernel), hnodup, nStakeModifierNew, hrun, hbits⟩

end

end Sumcoin
