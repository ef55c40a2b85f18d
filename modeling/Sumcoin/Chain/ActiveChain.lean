import Sumcoin.Chain.Skip

/-!
# Common ancestors and the active chain: `LastCommonAncestor`, `CChain::SetTip`

Both functions walk `pprev` pointers after a `GetAncestor` jump.  `LastCommonAncestor`
brings two entries to the lower of their heights and steps both down until they meet;
`SetTip` writes the new tip's ancestors into `vChain` from the top down and stops at the
first slot that already holds the right entry.  Their correctness rests on one fact of a
well-formed map: an entry has exactly one ancestor at each height below it (`pprevN`), so
two entries that share an ancestor share all of its ancestors.

`vChain` is modelled as the source holds it, a vector of pointers that may be null:
`resize` pads it with null pointers, which the loop then overwrites.

## Main definitions

* `IsAncestor`, `IsLastCommonAncestor`.
* `lastCommonAncestor`, `setTip`, and the runs of `AddToBlockIndex` and `SetTip`
  (`IndexOp`, `NodeIndex.run`).

## Main statements

* `lastCommonAncestor_spec`: the result is the highest common ancestor, or null when there
  is none.
* `setTip_spec`: after `SetTip(pindex)`, slot `i` holds the ancestor of `pindex` at `i`.
-/

namespace Sumcoin

/-! ## Ancestors -/

/-- `a` is reached from `e` by predecessor steps. -/
def IsAncestor (m : BlockMap) (a e : CBlockIndex) : Prop := ∃ j, pprevN m j e = some a

section Ancestors

variable {m : BlockMap} (hm : m.WellFormed)
include hm

/-- An ancestor is `nHeight` difference steps up. -/
theorem IsAncestor.pprevN_eq {a e : CBlockIndex} (hk : m e.phashBlock = some e)
    (h : IsAncestor m a e) :
    a.nHeight ≤ e.nHeight ∧ m a.phashBlock = some a ∧ pprevN m (e.nHeight - a.nHeight) e = some a := by
  obtain ⟨j, hj⟩ := h
  obtain ⟨ha, hheight⟩ := pprevN_eq_some hm hk hj
  exact ⟨by omega, ha, by rw [show e.nHeight - a.nHeight = j by omega]; exact hj⟩

/-- Two ancestors of one entry at one height are the same entry. -/
theorem IsAncestor.eq_of_nHeight_eq {a b e : CBlockIndex} (hk : m e.phashBlock = some e)
    (ha : IsAncestor m a e) (hb : IsAncestor m b e) (hab : a.nHeight = b.nHeight) : a = b := by
  have := (ha.pprevN_eq hm hk).2.2
  rw [hab, (hb.pprevN_eq hm hk).2.2, Option.some_inj] at this
  exact this.symm

/-- An ancestor of `e` no higher than the ancestor `x` of `e` is an ancestor of `x`. -/
theorem IsAncestor.of_le {a e x : CBlockIndex} (hk : m e.phashBlock = some e)
    (hx : IsAncestor m x e) (ha : IsAncestor m a e) (hle : a.nHeight ≤ x.nHeight) :
    IsAncestor m a x := by
  obtain ⟨hxe, -, hpx⟩ := hx.pprevN_eq hm hk
  obtain ⟨hae, -, hpa⟩ := ha.pprevN_eq hm hk
  refine ⟨x.nHeight - a.nHeight, ?_⟩
  rw [show e.nHeight - a.nHeight = (e.nHeight - x.nHeight) + (x.nHeight - a.nHeight) by omega,
    pprevN_add, hpx, Option.bind_some] at hpa
  exact hpa

end Ancestors

/-- Ancestry is transitive. -/
theorem IsAncestor.trans {m : BlockMap} {a x e : CBlockIndex} (hax : IsAncestor m a x)
    (hxe : IsAncestor m x e) : IsAncestor m a e := by
  obtain ⟨i, hi⟩ := hxe
  obtain ⟨j, hj⟩ := hax
  exact ⟨i + j, by rw [pprevN_add, hi, Option.bind_some, hj]⟩

theorem IsAncestor.refl (m : BlockMap) (e : CBlockIndex) : IsAncestor m e e := ⟨0, rfl⟩

/-- `c` is the highest common ancestor of `a` and `b`. -/
def IsLastCommonAncestor (m : BlockMap) (a b c : CBlockIndex) : Prop :=
  IsAncestor m c a ∧ IsAncestor m c b ∧
    ∀ d, IsAncestor m d a → IsAncestor m d b → d.nHeight ≤ c.nHeight

/-- What `LastCommonAncestor` should return: the highest common ancestor, or null when the
two entries share none. -/
def LastCommonAncestorSpec (m : BlockMap) (a b : CBlockIndex) : Option CBlockIndex → Prop
  | some c => IsLastCommonAncestor m a b c
  | none => ∀ d, IsAncestor m d a → ¬ IsAncestor m d b

/-! ## `LastCommonAncestor` -/

/-- The loop of `LastCommonAncestor`: while the pointers differ and neither is null, both
step to their predecessors; `fuel` bounds the steps. -/
def lastCommonAncestorLoop (m : BlockMap) :
    Nat → Option CBlockIndex → Option CBlockIndex → Option CBlockIndex × Option CBlockIndex
  | fuel + 1, some pa, some pb =>
    if pa.phashBlock ≠ pb.phashBlock then
      lastCommonAncestorLoop m fuel (pa.pprev.bind m) (pb.pprev.bind m)
    else (some pa, some pb)
  | _, pa, pb => (pa, pb)

/-- `LastCommonAncestor(pa, pb)`: the higher entry brought down to the other's height with
`GetAncestor`, then both stepped down together until they meet; a height's worth of steps
reaches the null pointer below the genesis entry. -/
def lastCommonAncestor (m : BlockMap) (pskip : Uint256 → Option Uint256) (pa pb : CBlockIndex) :
    Except String (Option CBlockIndex) := do
  let (pa', pb') ←
    if pa.nHeight > pb.nHeight then do
      let a ← pa.getAncestor m pskip pb.nHeight
      pure (a, some pb)
    else if pb.nHeight > pa.nHeight then do
      let b ← pb.getAncestor m pskip pa.nHeight
      pure (some pa, b)
    else pure (some pa, some pb)
  let r := lastCommonAncestorLoop m (min pa.nHeight pb.nHeight + 1) pa' pb'
  if r.1.map CBlockIndex.phashBlock = r.2.map CBlockIndex.phashBlock then pure r.1
  else throw "assert(pa == pb)"

/-- The specification carries over to a pair with the same common ancestors. -/
theorem LastCommonAncestorSpec.congr {m : BlockMap} {a b x y : CBlockIndex}
    {r : Option CBlockIndex}
    (hiff : ∀ d, (IsAncestor m d a ∧ IsAncestor m d b) ↔ (IsAncestor m d x ∧ IsAncestor m d y))
    (h : LastCommonAncestorSpec m x y r) : LastCommonAncestorSpec m a b r := by
  cases r with
  | none =>
    intro d hda hdb
    exact h d ((hiff d).mp ⟨hda, hdb⟩).1 ((hiff d).mp ⟨hda, hdb⟩).2
  | some c =>
    obtain ⟨hcx, hcy, hhigh⟩ := h
    obtain ⟨hca, hcb⟩ := (hiff c).mpr ⟨hcx, hcy⟩
    exact ⟨hca, hcb, fun d hda hdb => hhigh d ((hiff d).mp ⟨hda, hdb⟩).1 ((hiff d).mp ⟨hda, hdb⟩).2⟩

section LastCommonAncestor

variable {m : BlockMap} (hm : m.WellFormed)
include hm

/-- Two entries at one height that differ share exactly the common ancestors of their
predecessors. -/
theorem isAncestor_both_iff_pprev {x y px py : CBlockIndex} (hx : m x.phashBlock = some x)
    (hy : m y.phashBlock = some y) (hne : x ≠ y) (hxy : x.nHeight = y.nHeight)
    (hpx : x.pprev.bind m = some px) (hpy : y.pprev.bind m = some py) (d : CBlockIndex) :
    (IsAncestor m d x ∧ IsAncestor m d y) ↔ (IsAncestor m d px ∧ IsAncestor m d py) := by
  obtain ⟨hpxk, hpxh, hpx1⟩ := pprev_bind_eq_some hm hx hpx
  obtain ⟨hpyk, hpyh, hpy1⟩ := pprev_bind_eq_some hm hy hpy
  constructor
  · rintro ⟨hdx, hdy⟩
    -- a common ancestor is below `x`, which `y` does not reach at its own height
    have hlt : d.nHeight < x.nHeight := by
      rcases Nat.lt_or_ge d.nHeight x.nHeight with h | h
      · exact h
      · have hdx' := hdx.eq_of_nHeight_eq hm hx (IsAncestor.refl m x)
          (by have := (hdx.pprevN_eq hm hx).1; omega)
        have hdy' := hdy.eq_of_nHeight_eq hm hy (IsAncestor.refl m y)
          (by have := (hdx.pprevN_eq hm hx).1; omega)
        exact absurd (hdx'.symm.trans hdy') hne
    exact ⟨IsAncestor.of_le hm hx ⟨1, hpx1⟩ hdx (by omega),
      IsAncestor.of_le hm hy ⟨1, hpy1⟩ hdy (by omega)⟩
  · rintro ⟨hdx, hdy⟩
    exact ⟨hdx.trans ⟨1, hpx1⟩, hdy.trans ⟨1, hpy1⟩⟩

/-- **The loop finds the highest common ancestor** of two entries at one height: by
induction on the fuel, the common ancestors stay those of the current pair, and the pair
meets at the first height where the entries agree. -/
theorem lastCommonAncestorLoop_spec :
    ∀ (fuel : Nat) {x y : CBlockIndex}, m x.phashBlock = some x → m y.phashBlock = some y →
      x.nHeight = y.nHeight → x.nHeight < fuel →
      (lastCommonAncestorLoop m fuel (some x) (some y)).1 =
          (lastCommonAncestorLoop m fuel (some x) (some y)).2 ∧
        LastCommonAncestorSpec m x y (lastCommonAncestorLoop m fuel (some x) (some y)).1
  | 0, _, _, _, _, _, hfuel => absurd hfuel (Nat.not_lt_zero _)
  | fuel + 1, x, y, hx, hy, hxy, hfuel => by
    rw [lastCommonAncestorLoop]
    by_cases hkey : x.phashBlock ≠ y.phashBlock
    case neg =>
      -- the pointers met: one entry, its own highest ancestor
      rw [if_neg hkey]
      have hxy' : x = y := by
        rw [not_not] at hkey
        rw [hkey, hy, Option.some_inj] at hx
        exact hx.symm
      subst hxy'
      exact ⟨rfl, IsAncestor.refl m x, IsAncestor.refl m x,
        fun d hd _ => (hd.pprevN_eq hm hx).1⟩
    case pos =>
      rw [if_pos hkey]
      have hne : x ≠ y := fun h => hkey (by rw [h])
      rcases Nat.eq_zero_or_pos x.nHeight with h0 | hpos
      case inl =>
        -- two genesis entries: both pointers turn null, and nothing is shared
        have hxp : x.pprev = none := by
          cases hp : x.pprev with
          | none => rfl
          | some p => obtain ⟨_, _, hh⟩ := hm.prev hx hp; omega
        have hyp : y.pprev = none := by
          cases hp : y.pprev with
          | none => rfl
          | some p => obtain ⟨_, _, hh⟩ := hm.prev hy hp; omega
        rw [hxp, hyp]
        refine ⟨by cases fuel <;> rfl, ?_⟩
        have hnone : (lastCommonAncestorLoop m fuel none none).1 = none := by cases fuel <;> rfl
        change LastCommonAncestorSpec m x y (lastCommonAncestorLoop m fuel none none).1
        rw [hnone]
        intro d hdx hdy
        have hdx0 := (hdx.pprevN_eq hm hx).1
        have hdy0 := (hdy.pprevN_eq hm hy).1
        exact hne ((hdx.eq_of_nHeight_eq hm hx (IsAncestor.refl m x) (by omega)).symm.trans
          (hdy.eq_of_nHeight_eq hm hy (IsAncestor.refl m y) (by omega)))
      case inr =>
        obtain ⟨px, hpx, hpxk, hpxh⟩ := pprevN_one hm hx hpos
        obtain ⟨py, hpy, hpyk, hpyh⟩ := pprevN_one hm hy (by omega)
        obtain ⟨hpair, hspec⟩ := lastCommonAncestorLoop_spec fuel hpxk hpyk (by omega) (by omega)
        rw [hpx, hpy]
        exact ⟨hpair, hspec.congr (isAncestor_both_iff_pprev hm hx hy hne hxy hpx hpy)⟩

/-- Bringing `a` down to an ancestor `x` no lower than `b` keeps the common ancestors. -/
theorem isAncestor_both_iff_of_le {a b x : CBlockIndex} (ha : m a.phashBlock = some a)
    (hb : m b.phashBlock = some b) (hx : IsAncestor m x a) (hle : b.nHeight ≤ x.nHeight)
    (d : CBlockIndex) :
    (IsAncestor m d a ∧ IsAncestor m d b) ↔ (IsAncestor m d x ∧ IsAncestor m d b) := by
  constructor
  · rintro ⟨hda, hdb⟩
    have := (hdb.pprevN_eq hm hb).1
    exact ⟨IsAncestor.of_le hm ha hx hda (by omega), hdb⟩
  · rintro ⟨hdx, hdb⟩
    exact ⟨hdx.trans hx, hdb⟩

/-- The loop and the final assertion of `LastCommonAncestor`, from two entries at one
height with the common ancestors of `a` and `b`. -/
theorem lastCommonAncestor_tail {a b x y : CBlockIndex} {fuel : Nat}
    (hx : m x.phashBlock = some x) (hy : m y.phashBlock = some y) (hxy : x.nHeight = y.nHeight)
    (hfuel : x.nHeight < fuel)
    (hiff : ∀ d, (IsAncestor m d a ∧ IsAncestor m d b) ↔ (IsAncestor m d x ∧ IsAncestor m d y)) :
    ∃ r, (if (lastCommonAncestorLoop m fuel (some x) (some y)).1.map CBlockIndex.phashBlock =
          (lastCommonAncestorLoop m fuel (some x) (some y)).2.map CBlockIndex.phashBlock then
        pure (lastCommonAncestorLoop m fuel (some x) (some y)).1
      else (throw "assert(pa == pb)" : Except String (Option CBlockIndex))) = .ok r ∧
      LastCommonAncestorSpec m a b r := by
  obtain ⟨hpair, hspec⟩ := lastCommonAncestorLoop_spec hm fuel hx hy hxy hfuel
  rw [if_pos (congrArg _ hpair)]
  exact ⟨_, rfl, hspec.congr hiff⟩

end LastCommonAncestor

/-- **`LastCommonAncestor` returns the highest common ancestor of two entries**, or null
when they share none, and its assertion never fails. -/
theorem lastCommonAncestor_spec {m : BlockMap} {pskip : Uint256 → Option Uint256}
    (hm : m.WellFormed) (hs : SkipInv m pskip) {pa pb : CBlockIndex}
    (ha : m pa.phashBlock = some pa) (hb : m pb.phashBlock = some pb) :
    ∃ r, lastCommonAncestor m pskip pa pb = .ok r ∧ LastCommonAncestorSpec m pa pb r := by
  rw [lastCommonAncestor]
  by_cases hab : pa.nHeight > pb.nHeight
  case pos =>
    -- `pa` is brought down to `pb`'s height
    obtain ⟨x, hx⟩ := Option.isSome_iff_exists.mp
      (pprevN_isSome hm ha (n := pa.nHeight - pb.nHeight) (by omega))
    obtain ⟨hxk, hxh⟩ := pprevN_eq_some hm ha hx
    rw [if_pos hab, getAncestor_eq hm hs ha, if_neg (by omega), Int.toNat_natCast, hx,
      Except.ok_bind, pure_bind]
    dsimp only
    rw [Nat.min_eq_right (by omega)]
    exact lastCommonAncestor_tail hm hxk hb (by omega) (by omega)
      (isAncestor_both_iff_of_le hm ha hb ⟨_, hx⟩ (by omega))
  case neg =>
    by_cases hba : pb.nHeight > pa.nHeight
    case pos =>
      obtain ⟨y, hy⟩ := Option.isSome_iff_exists.mp
        (pprevN_isSome hm hb (n := pb.nHeight - pa.nHeight) (by omega))
      obtain ⟨hyk, hyh⟩ := pprevN_eq_some hm hb hy
      rw [if_neg hab, if_pos hba, getAncestor_eq hm hs hb, if_neg (by omega), Int.toNat_natCast,
        hy, Except.ok_bind, pure_bind]
      dsimp only
      rw [Nat.min_eq_left (by omega)]
      refine lastCommonAncestor_tail hm ha hyk (by omega) (by omega) fun d => ?_
      rw [and_comm, isAncestor_both_iff_of_le hm hb ha ⟨_, hy⟩ (by omega) d, and_comm]
    case neg =>
      rw [if_neg hab, if_neg hba, pure_bind]
      dsimp only
      exact lastCommonAncestor_tail hm ha hb (by omega) (by omega) fun d => Iff.rfl

/-! ## `CChain::SetTip` -/

/-- The loop of `CChain::SetTip`: down from `pindex`, each entry is written at its height
until the slot already holds it; `fuel` bounds the steps. -/
def setTipLoop (m : BlockMap) :
    Nat → List (Option Uint256) → Option CBlockIndex → List (Option Uint256)
  | fuel + 1, vChain, some pindex =>
    if vChain[pindex.nHeight]? ≠ some (some pindex.phashBlock) then
      setTipLoop m fuel (vChain.set pindex.nHeight (some pindex.phashBlock)) (pindex.pprev.bind m)
    else vChain
  | _, vChain, _ => vChain

/-- `CChain::SetTip(pindex)` on `vChain`, null pointers included: cleared for a null tip,
otherwise resized to the tip's height plus one, padded with null pointers, and filled by
the loop. -/
def setTip (m : BlockMap) (vChain : List (Option Uint256)) :
    Option CBlockIndex → List (Option Uint256)
  | none => []
  | some pindex =>
    setTipLoop m (pindex.nHeight + 1)
      (vChain.take (pindex.nHeight + 1) ++ List.replicate (pindex.nHeight + 1 - vChain.length) none)
      (some pindex)

/-- The key of the ancestor of `pindex` at height `i`: what `vChain[i]` should point to. -/
def ancestorKey (m : BlockMap) (pindex : CBlockIndex) (i : Nat) : Option Uint256 :=
  (pprevN m (pindex.nHeight - i) pindex).map CBlockIndex.phashBlock

/-- The slots of `vChain` up to `h` that point to an entry point to one at their own height,
and the slots below them to its ancestors. -/
def ChainBelow (m : BlockMap) (vChain : List (Option Uint256)) (h : Nat) : Prop :=
  ∀ i k, i ≤ h → vChain[i]? = some (some k) → ∃ c, m k = some c ∧ c.nHeight = i ∧
    ∀ i' ≤ i, vChain[i']? = some (ancestorKey m c i')

/-- What `SetTip` keeps of `vChain`: every slot that points to an entry is followed down by
the entry's ancestors. -/
def ChainInv (m : BlockMap) (vChain : List (Option Uint256)) : Prop := ∀ h, ChainBelow m vChain h

theorem ChainBelow.mono {m : BlockMap} {vChain : List (Option Uint256)} {h h' : Nat}
    (hc : ChainBelow m vChain h) (hle : h' ≤ h) : ChainBelow m vChain h' :=
  fun i k hi hk => hc i k (by omega) hk

/-- Writing above `h` leaves the slots up to `h` as they were. -/
theorem ChainBelow.set {m : BlockMap} {vChain : List (Option Uint256)} {h j : Nat}
    (hc : ChainBelow m vChain h) (hj : h < j) (v : Option Uint256) :
    ChainBelow m (vChain.set j v) h := by
  intro i k hi hk
  rw [List.getElem?_set_ne (by omega)] at hk
  obtain ⟨c, hc', hch, hbelow⟩ := hc i k hi hk
  exact ⟨c, hc', hch, fun i' hi' => by rw [List.getElem?_set_ne (by omega)]; exact hbelow i' hi'⟩

theorem length_setTipLoop (m : BlockMap) :
    ∀ (fuel : Nat) (vChain : List (Option Uint256)) (pindex : Option CBlockIndex),
      (setTipLoop m fuel vChain pindex).length = vChain.length
  | 0, _, _ => rfl
  | fuel + 1, vChain, none => rfl
  | fuel + 1, vChain, some pindex => by
    rw [setTipLoop]
    split
    case isTrue => rw [length_setTipLoop m fuel, List.length_set]
    case isFalse => rfl

/-- Ancestors of the ancestor at `h` are the ancestors at lower heights. -/
theorem ancestorKey_of_pprevN {m : BlockMap} {p x : CBlockIndex} {h : Nat} (hx : pprevN m (p.nHeight - h) p = some x)
    (hxh : x.nHeight = h) (hle : h ≤ p.nHeight) {i : Nat} (hi : i ≤ h) :
    ancestorKey m p i = ancestorKey m x i := by
  rw [ancestorKey, ancestorKey, hxh, show p.nHeight - i = (p.nHeight - h) + (h - i) by omega,
    pprevN_add, hx, Option.bind_some]

section SetTip

variable {m : BlockMap} (hm : m.WellFormed)
include hm

/-- **The loop of `SetTip` leaves the tip's ancestors in every slot**: by induction on the
fuel, the slots above the current entry hold the tip's ancestors and those up to it are
as `ChainBelow` says; the loop stops at a slot that already holds the current entry, below
which its ancestors stand, or below the genesis entry. -/
theorem setTipLoop_spec {p : CBlockIndex} :
    ∀ (fuel : Nat) (vChain : List (Option Uint256)) {x : CBlockIndex} {h : Nat},
      m x.phashBlock = some x → pprevN m (p.nHeight - h) p = some x → x.nHeight = h →
      h ≤ p.nHeight → h < fuel →
      (∀ i, h < i → i ≤ p.nHeight → vChain[i]? = some (ancestorKey m p i)) →
      ChainBelow m vChain h → vChain.length = p.nHeight + 1 →
      ∀ i ≤ p.nHeight, (setTipLoop m fuel vChain (some x))[i]? = some (ancestorKey m p i)
  | 0, _, _, _, _, _, _, _, hfuel, _, _, _ => absurd hfuel (Nat.not_lt_zero _)
  | fuel + 1, vChain, x, h, hx, hpx, hxh, hle, hfuel, habove, hbelow, hlen => by
    have hkey : ancestorKey m p h = some x.phashBlock := by
      rw [ancestorKey, hpx]
      rfl
    rw [setTipLoop]
    split
    case isFalse hslot =>
      -- the slot holds the entry already: the slots below hold its ancestors
      rw [not_not, hxh] at hslot
      obtain ⟨c, hc, hch, hcbelow⟩ := hbelow h x.phashBlock le_rfl hslot
      rw [hx, Option.some_inj] at hc
      subst hc
      intro i hi
      rcases Nat.lt_or_ge h i with hhi | hhi
      · exact habove i hhi hi
      · rw [hcbelow i hhi, ancestorKey_of_pprevN hpx hxh hle hhi]
    case isTrue hslot =>
      have hset : ∀ i, i ≠ h →
          (vChain.set x.nHeight (some x.phashBlock))[i]? = vChain[i]? := fun i hi =>
        List.getElem?_set_ne (by omega)
      have hself : (vChain.set x.nHeight (some x.phashBlock))[h]? = some (some x.phashBlock) :=
        by rw [hxh, List.getElem?_set_self (by omega)]
      rcases Nat.eq_zero_or_pos h with h0 | hpos
      case inl =>
        -- the genesis entry: the pointer turns null and the loop ends
        have hxp : x.pprev = none := by
          cases hp : x.pprev with
          | none => rfl
          | some q => obtain ⟨_, _, hh⟩ := hm.prev hx hp; omega
        rw [hxp]
        have hend : setTipLoop m fuel (vChain.set x.nHeight (some x.phashBlock)) (none.bind m) =
            vChain.set x.nHeight (some x.phashBlock) := by cases fuel <;> rfl
        rw [hend]
        intro i hi
        rcases Nat.eq_zero_or_pos i with hi0 | hipos
        · rw [hi0, ← h0, hself, hkey]
        · rw [hset i (by omega)]
          exact habove i (by omega) hi
      case inr =>
        obtain ⟨px, hpxm, hpxk, hpxh⟩ := pprevN_one hm hx (by omega)
        have hppx : pprevN m (p.nHeight - (h - 1)) p = some px := by
          rw [show p.nHeight - (h - 1) = (p.nHeight - h) + 1 by omega, pprevN_add, hpx,
            Option.bind_some, pprevN_succ, hpxm, Option.bind_some]
          rfl
        rw [hpxm]
        refine setTipLoop_spec fuel _ hpxk hppx (by omega) (by omega) (by omega) ?_
          ((hbelow.mono (by omega)).set (by omega) _) (by rw [List.length_set, hlen])
        intro i hi hip
        rcases Nat.eq_or_lt_of_le (show h ≤ i by omega) with rfl | hhi
        · rw [hself, hkey]
        · rw [hset i (by omega)]
          exact habove i hhi hip

/-- The slots a chain whose every slot points to a stored entry at its height has. -/
theorem ancestorKey_chainInv {p : CBlockIndex} (hp : m p.phashBlock = some p)
    {vChain : List (Option Uint256)} (hlen : vChain.length = p.nHeight + 1)
    (hslots : ∀ i ≤ p.nHeight, vChain[i]? = some (ancestorKey m p i)) : ChainInv m vChain := by
  intro h i k _ hk
  have hi : i ≤ p.nHeight := by
    have := (List.getElem?_eq_some_iff.mp hk).1
    omega
  obtain ⟨a, ha⟩ := Option.isSome_iff_exists.mp (pprevN_isSome hm hp (n := p.nHeight - i) (by omega))
  obtain ⟨hak, hah⟩ := pprevN_eq_some hm hp ha
  rw [hslots i hi, ancestorKey, ha, Option.map_some, Option.some_inj, Option.some_inj] at hk
  subst hk
  exact ⟨a, hak, by omega, fun i' hi' => by
    rw [hslots i' (by omega), ancestorKey_of_pprevN ha (by omega) (by omega) hi']⟩

/-- **`SetTip(pindex)` leaves the ancestor of `pindex` at `i` in slot `i`**, for every `i`
up to its height, from any `vChain` that `ChainInv` describes; the result is again such a
`vChain`. -/
theorem setTip_spec {vChain : List (Option Uint256)} (hc : ChainInv m vChain) {p : CBlockIndex}
    (hp : m p.phashBlock = some p) :
    (setTip m vChain (some p)).length = p.nHeight + 1 ∧
      (∀ i ≤ p.nHeight, (setTip m vChain (some p))[i]? = some (ancestorKey m p i)) ∧
      ChainInv m (setTip m vChain (some p)) := by
  -- `resize` keeps the slots below the new height and pads with null pointers
  have hresize : ∀ i ≤ p.nHeight, (vChain.take (p.nHeight + 1) ++
      List.replicate (p.nHeight + 1 - vChain.length) none)[i]? =
        if i < vChain.length then vChain[i]? else some none := by
    intro i hi
    split
    case isTrue hil =>
      rw [List.getElem?_append_left (by simp; omega), List.getElem?_take_of_lt (by omega)]
    case isFalse hil =>
      rw [List.getElem?_append_right (by simp; omega), List.getElem?_replicate]
      simp only [List.length_take]
      rw [if_pos (by omega)]
  have hlen0 : (vChain.take (p.nHeight + 1) ++
      List.replicate (p.nHeight + 1 - vChain.length) none).length = p.nHeight + 1 := by
    simp only [List.length_append, List.length_take, List.length_replicate]
    omega
  have hbelow0 : ChainBelow m (vChain.take (p.nHeight + 1) ++
      List.replicate (p.nHeight + 1 - vChain.length) none) p.nHeight := by
    intro i k hi hk
    rw [hresize i hi] at hk
    split at hk
    case isFalse => cases hk
    case isTrue hil =>
      obtain ⟨c, hck, hch, hcbelow⟩ := hc i i k le_rfl hk
      refine ⟨c, hck, hch, fun i' hi' => ?_⟩
      rw [hresize i' (by omega), if_pos (by omega)]
      exact hcbelow i' hi'
  have hlen : (setTip m vChain (some p)).length = p.nHeight + 1 := by
    rw [setTip, length_setTipLoop, hlen0]
  have hslots : ∀ i ≤ p.nHeight, (setTip m vChain (some p))[i]? = some (ancestorKey m p i) :=
    setTipLoop_spec hm (p.nHeight + 1) _ hp (by rw [Nat.sub_self]; rfl) rfl le_rfl
      (Nat.lt_succ_self _) (fun i hi hip => absurd hip (by omega)) hbelow0 hlen0
  exact ⟨hlen, hslots, ancestorKey_chainInv hm hp hlen hslots⟩

end SetTip

/-- Storing an entry under a fresh key keeps `ChainInv`: the slots point to entries already
stored, whose ancestors do not change. -/
theorem ChainInv.insert_fresh {m : BlockMap} (hm : m.WellFormed) {vChain : List (Option Uint256)}
    (hc : ChainInv m vChain) {k : Uint256} (hfresh : m k = none) (v : CBlockIndex) :
    ChainInv (m.insert k v) vChain := by
  intro h i k' hi hk'
  obtain ⟨c, hck, hch, hcbelow⟩ := hc h i k' hi hk'
  have hne : k' ≠ k := fun heq => by rw [heq, hfresh] at hck; cases hck
  have hcc : m c.phashBlock = some c := by rw [hm.hash_eq hck]; exact hck
  refine ⟨c, by rw [BlockMap.insert_of_ne _ _ hne]; exact hck, hch, fun i' hi' => ?_⟩
  rw [hcbelow i' hi', ancestorKey, ancestorKey, pprevN_insert_fresh hm hfresh v _ hcc]

/-! ## Runs of the block index -/

/-- A call the node makes on its block index: `AddToBlockIndex(block)`, or
`CChain::SetTip` to the entry stored under a hash, null when none is. -/
inductive IndexOp
  | addToBlockIndex (block : CBlockHeader)
  | setTip (hash : Option Uint256)

/-- The block index with its skip pointers, and the active chain's `vChain`. -/
structure NodeIndex where
  st : BlockIndexState
  pskip : Uint256 → Option Uint256
  vChain : List (Option Uint256)

namespace NodeIndex

/-- A node with no block and an empty active chain. -/
def empty : NodeIndex := ⟨BlockIndexState.empty, fun _ => none, []⟩

/-- One call. -/
def step (hash256 : List UInt8 → Uint256) (s : NodeIndex) : IndexOp → Except String NodeIndex
  | .addToBlockIndex block => do
    let (st, pskip, _) ← addToBlockIndexSkip hash256 s.st s.pskip block
    pure ⟨st, pskip, s.vChain⟩
  | .setTip hash =>
    pure { s with vChain := setTip s.st.mBlockIndex s.vChain (hash.bind s.st.mBlockIndex) }

/-- The calls in order. -/
def run (hash256 : List UInt8 → Uint256) (s : NodeIndex) (ops : List IndexOp) :
    Except String NodeIndex :=
  ops.foldlM (step hash256) s

/-- What every run keeps: the block index is linked, its skip pointers are right, and
`vChain` is a chain of ancestors. -/
def Inv (s : NodeIndex) : Prop :=
  TrustInv s.st.mBlockIndex ∧ SkipInv s.st.mBlockIndex s.pskip ∧ ChainInv s.st.mBlockIndex s.vChain

theorem inv_empty : Inv empty := by
  refine ⟨trustInv_empty, ?_, ?_⟩
  · intro k e s hk
    cases hk
  · intro h i k _ hk
    simp [empty] at hk

/-- `AddToBlockIndex` only ever stores a fresh entry, so `vChain` stays a chain. -/
theorem addToBlockIndexSkip_chainInv {hash256 : List UInt8 → Uint256} {st st' : BlockIndexState}
    {pskip pskip' : Uint256 → Option Uint256} {block : CBlockHeader} {pindex : CBlockIndex}
    {vChain : List (Option Uint256)} (hinv : TrustInv st.mBlockIndex)
    (hc : ChainInv st.mBlockIndex vChain)
    (h : addToBlockIndexSkip hash256 st pskip block = .ok (st', pskip', pindex)) :
    ChainInv st'.mBlockIndex vChain := by
  unfold addToBlockIndexSkip at h
  cases hnew : st.mBlockIndex (block.getHash hash256) with
  | some e =>
    rw [hnew, Except.pure_eq_ok] at h
    cases h
    exact hc
  | none =>
    rw [hnew] at h
    obtain ⟨⟨st'', pindexNew⟩, hadd, hrest⟩ := Except.bind_eq_ok.mp h
    obtain ⟨pskip'', -, hfin⟩ := Except.bind_eq_ok.mp hrest
    rw [Except.pure_eq_ok, Prod.mk.injEq, Prod.mk.injEq] at hfin
    rw [← hfin.1, (addToBlockIndex_of_new hnew hadd).1]
    exact hc.insert_fresh hinv.wellFormed hnew pindexNew

/-- **One call keeps the invariant and asserts nothing**, for a header that is not its own
predecessor. -/
theorem step_inv (hash256 : List UInt8 → Uint256) {s : NodeIndex} (hs : Inv s) (op : IndexOp)
    (hself : ∀ block, op = .addToBlockIndex block → block.getHash hash256 ≠ block.hashPrevBlock) :
    ∃ s', step hash256 s op = .ok s' ∧ Inv s' := by
  obtain ⟨hinv, hskip, hchain⟩ := hs
  cases op with
  | addToBlockIndex block =>
    obtain ⟨st', pskip', pindex, hadd⟩ := addToBlockIndexSkip_ok hinv hskip (hself block rfl)
    obtain ⟨hinv', hskip'⟩ := addToBlockIndexSkip_inv hinv hskip (hself block rfl) hadd
    refine ⟨⟨st', pskip', s.vChain⟩, by rw [step, hadd]; rfl, hinv', hskip', ?_⟩
    exact addToBlockIndexSkip_chainInv hinv hchain hadd
  | setTip hash =>
    refine ⟨_, rfl, hinv, hskip, ?_⟩
    dsimp only
    cases hb : hash.bind s.st.mBlockIndex with
    | none =>
      intro h i k _ hk
      simp [setTip] at hk
    | some p =>
      -- the pointer is to an entry stored under its own hash
      obtain ⟨k, -, hp⟩ := Option.bind_eq_some_iff.mp hb
      have hpk : s.st.mBlockIndex p.phashBlock = some p := by
        rw [hinv.wellFormed.hash_eq hp]
        exact hp
      exact (setTip_spec hinv.wellFormed hchain hpk).2.2

/-- **Every run succeeds and keeps the invariant**, when no header is its own predecessor. -/
theorem run_inv (hash256 : List UInt8 → Uint256) {s : NodeIndex} (hs : Inv s)
    {ops : List IndexOp}
    (hself : ∀ block, IndexOp.addToBlockIndex block ∈ ops →
      block.getHash hash256 ≠ block.hashPrevBlock) :
    ∃ s', run hash256 s ops = .ok s' ∧ Inv s' :=
  Except.foldlM_ok_inv Inv
    (fun _ op hop hs => step_inv hash256 hs op fun block hb => hself block (hb ▸ hop)) hs

end NodeIndex

/-! ## The whole statement -/

/-- **The skip list finds ancestors, and with it `LastCommonAncestor` and `SetTip` are
right.**  Any run of `AddToBlockIndex` (with `BuildSkip`) and `SetTip` calls from an empty
node, over headers none of which is its own predecessor, succeeds; in the node it leaves,
`GetAncestor(height)` on an entry is null outside `[0, nHeight]` and otherwise the entry
`nHeight - height` predecessor steps up, which exists; `LastCommonAncestor` returns the
highest common ancestor, or null when there is none; and `SetTip(pindex)` leaves
`vChain[i] == pindex->GetAncestor(i)` for every `i` up to the tip's height. -/
theorem getAncestor_skipList (hash256 : List UInt8 → Uint256) (ops : List IndexOp)
    (hself : ∀ block, IndexOp.addToBlockIndex block ∈ ops →
      block.getHash hash256 ≠ block.hashPrevBlock) :
    ∃ s, NodeIndex.run hash256 NodeIndex.empty ops = .ok s ∧
      (∀ (pindex : CBlockIndex) (height : Int), s.st.mBlockIndex pindex.phashBlock = some pindex →
        pindex.getAncestor s.st.mBlockIndex s.pskip height =
            .ok (if height > pindex.nHeight ∨ height < 0 then none
              else pprevN s.st.mBlockIndex (pindex.nHeight - height.toNat) pindex) ∧
          (0 ≤ height → height ≤ pindex.nHeight →
            (pprevN s.st.mBlockIndex (pindex.nHeight - height.toNat) pindex).isSome)) ∧
      (∀ pa pb : CBlockIndex, s.st.mBlockIndex pa.phashBlock = some pa →
        s.st.mBlockIndex pb.phashBlock = some pb →
        ∃ r, lastCommonAncestor s.st.mBlockIndex s.pskip pa pb = .ok r ∧
          LastCommonAncestorSpec s.st.mBlockIndex pa pb r) ∧
      (∀ pindex : CBlockIndex, s.st.mBlockIndex pindex.phashBlock = some pindex →
        ∀ i ≤ pindex.nHeight, ∃ a, pindex.getAncestor s.st.mBlockIndex s.pskip i = .ok (some a) ∧
          (setTip s.st.mBlockIndex s.vChain (some pindex))[i]? = some (some a.phashBlock)) := by
  obtain ⟨s, hrun, hinv, hskip, hchain⟩ := NodeIndex.run_inv hash256 NodeIndex.inv_empty hself
  have hm := hinv.wellFormed
  refine ⟨s, hrun, ?getAncestor, ?lastCommonAncestor, ?setTip⟩
  case getAncestor =>
    intro pindex height hk
    exact ⟨getAncestor_eq hm hskip hk height, fun h0 hle => pprevN_isSome hm hk (by omega)⟩
  case lastCommonAncestor =>
    intro pa pb ha hb
    exact lastCommonAncestor_spec hm hskip ha hb
  case setTip =>
    intro pindex hk i hi
    obtain ⟨a, ha⟩ := Option.isSome_iff_exists.mp (pprevN_isSome hm hk (n := pindex.nHeight - i)
      (by omega))
    refine ⟨a, ?_, ?_⟩
    · rw [getAncestor_eq hm hskip hk, if_neg (by omega), Int.toNat_natCast, ha]
    · rw [(setTip_spec hm hchain hk).2.1 i hi, ancestorKey, ha]
      rfl

/-- A stand-in for `Hash` in examples: the sum of the bytes. -/
def byteSumHash (bytes : List UInt8) : Uint256 := Uint256.ofNat (bytes.map UInt8.toNat).sum

/-- The genesis header, a header on top of it, and the tip set to the second, hashed with
`byteSumHash`. -/
theorem getAncestor_skipList_twoBlocks :
    (∀ block, IndexOp.addToBlockIndex block ∈ (
      [.addToBlockIndex mainGenesis.header, .addToBlockIndex { mainGenesis.header with hashPrevBlock := mainGenesis.header.getHash byteSumHash },
        .setTip (some (CBlockHeader.getHash byteSumHash { mainGenesis.header with hashPrevBlock := mainGenesis.header.getHash byteSumHash }))] : List IndexOp) →
      block.getHash byteSumHash ≠ block.hashPrevBlock) ∧
    ∃ s, NodeIndex.run byteSumHash NodeIndex.empty
      [.addToBlockIndex mainGenesis.header, .addToBlockIndex { mainGenesis.header with hashPrevBlock := mainGenesis.header.getHash byteSumHash },
        .setTip (some (CBlockHeader.getHash byteSumHash { mainGenesis.header with hashPrevBlock := mainGenesis.header.getHash byteSumHash }))] = .ok s ∧
      (∀ (pindex : CBlockIndex) (height : Int), s.st.mBlockIndex pindex.phashBlock = some pindex →
        pindex.getAncestor s.st.mBlockIndex s.pskip height =
            .ok (if height > pindex.nHeight ∨ height < 0 then none
              else pprevN s.st.mBlockIndex (pindex.nHeight - height.toNat) pindex) ∧
          (0 ≤ height → height ≤ pindex.nHeight →
            (pprevN s.st.mBlockIndex (pindex.nHeight - height.toNat) pindex).isSome)) ∧
      (∀ pa pb : CBlockIndex, s.st.mBlockIndex pa.phashBlock = some pa →
        s.st.mBlockIndex pb.phashBlock = some pb →
        ∃ r, lastCommonAncestor s.st.mBlockIndex s.pskip pa pb = .ok r ∧
          LastCommonAncestorSpec s.st.mBlockIndex pa pb r) ∧
      (∀ pindex : CBlockIndex, s.st.mBlockIndex pindex.phashBlock = some pindex →
        ∀ i ≤ pindex.nHeight, ∃ a, pindex.getAncestor s.st.mBlockIndex s.pskip i = .ok (some a) ∧
          (setTip s.st.mBlockIndex s.vChain (some pindex))[i]? = some (some a.phashBlock)) := by
  have hself : ∀ block, IndexOp.addToBlockIndex block ∈ (
      [.addToBlockIndex mainGenesis.header, .addToBlockIndex { mainGenesis.header with hashPrevBlock := mainGenesis.header.getHash byteSumHash },
        .setTip (some (CBlockHeader.getHash byteSumHash { mainGenesis.header with hashPrevBlock := mainGenesis.header.getHash byteSumHash }))] : List IndexOp) →
      block.getHash byteSumHash ≠ block.hashPrevBlock := by
    intro block hb
    simp only [List.mem_cons, IndexOp.addToBlockIndex.injEq, reduceCtorEq, List.mem_nil_iff,
      or_false] at hb
    rcases hb with rfl | rfl <;> decide +kernel
  exact ⟨hself, getAncestor_skipList _ _ hself⟩

end Sumcoin
