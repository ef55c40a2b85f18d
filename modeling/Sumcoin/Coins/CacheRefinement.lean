import Sumcoin.Coins.CoinsCache

/-!
# The coins cache refines the flat view

A stack of `CCoinsViewCache` layers over the database is read through one flat view
(`stackView`).  The flags are what makes that view a plain map: a clean entry agrees with
the view under its layer, and a fresh one has no unspent coin under it (`LayerInv`, with
the count of `cachedCoinsUsage`).  Every call on a layer keeps that discipline at every
layer (`StackInv`) and keeps the flat view, except `AddCoin` and `SpendCoin`, which on
the top layer change it as `CCoinsViewCache.addCoin` and `erase` do (`step_refines`,
`coinsStack_run`).  The top layer's `GetCoin` then answers the flat view, and flushing the
layers from the top leaves it in the database (`flushOps_db`, `coinsStack_coherent`).

A spend on a lower layer does not reach the entries the layers above it have pulled up,
and those go on answering the spent coin (`getCoinTop_after_lowerSpend`).  A flush into
the database asserts a best block: with a null one the call fails.

## Main definitions

* `DBInv`, `LayerInv`, `StackInv`, `CoinsStack.Valid`.
* `flatStep`, `flatRun`: the calls as a single flat map receives them.
* `CoinsStack.run`, `CoinsStack.getCoinTop`, `flushOps`.

## Main statements

* `fetchCoin_spec`: a read answers the view and keeps it.
* `batchWrite_spec`, `CCoinsViewDB.batchWrite_spec`: a flush moves a layer's view down.
* `step_refines`, `coinsStack_run`, `flushOps_db`, and together `coinsStack_coherent`.
-/

namespace Sumcoin

/-! ## The flag discipline -/

/-- The database keeps only unspent coins. -/
def DBInv (db : CCoinsViewDB) : Prop := ∀ {o coin}, db.coins o = some coin → coin.isSpent = false

/-- The discipline of one layer over the view `parent` of what lies under it: a clean
entry agrees with the parent, a fresh one has no unspent coin under it, and
`cachedCoinsUsage` counts the entries. -/
structure LayerInv (parent : CCoinsViewCache) (c : CoinsCacheLayer) : Prop where
  clean : ∀ {o e}, c.cacheCoins.lookup o = some e → e.dirty = false → e.unspent = parent o
  fresh : ∀ {o e}, c.cacheCoins.lookup o = some e → e.fresh = true → parent o = none
  usage : c.cachedCoinsUsage = AList.sumBy entryUsage c.cacheCoins

/-- Every layer keeps the discipline over the layers under it. -/
def StackInv : List CoinsCacheLayer → CCoinsViewCache → Prop
  | [], _ => True
  | c :: cs, base => LayerInv (stackView cs base) c ∧ StackInv cs base

@[simp] theorem stackInv_nil (base : CCoinsViewCache) : StackInv [] base := trivial

@[simp] theorem stackInv_cons (c : CoinsCacheLayer) (cs : List CoinsCacheLayer)
    (base : CCoinsViewCache) :
    StackInv (c :: cs) base ↔ LayerInv (stackView cs base) c ∧ StackInv cs base := Iff.rfl

theorem stackInv_append {as bs : List CoinsCacheLayer} {base : CCoinsViewCache} :
    StackInv (as ++ bs) base ↔ StackInv as (stackView bs base) ∧ StackInv bs base := by
  induction as with
  | nil => simp
  | cons a as ih => simp only [List.cons_append, stackInv_cons, ih, stackView_append, and_assoc]

/-- What the database answers is unspent, and so is what any stack over it answers. -/
theorem stackView_isSpent {db : CCoinsViewDB} (hdb : DBInv db) {o : COutPoint} :
    ∀ (cs : List CoinsCacheLayer) {coin : Coin}, stackView cs db.coins o = some coin →
      coin.isSpent = false
  | [], _, h => hdb h
  | _ :: cs, _, h => CoinsCacheLayer.view_isSpent (stackView_isSpent hdb cs) h

namespace LayerInv

variable {V : CCoinsViewCache} {c : CoinsCacheLayer}

theorem measureAt_le (hc : LayerInv V c) (o : COutPoint) :
    AList.measureAt entryUsage o c.cacheCoins ≤ c.cachedCoinsUsage :=
  hc.usage ▸ AList.measureAt_le_sumBy _ _ _

/-- Writing an entry that keeps the discipline at its outpoint, with the usage moved by
what the outpoint held and what it holds now. -/
theorem insert (hc : LayerInv V c) {o : COutPoint} {e : CCoinsCacheEntry} {usage : Nat}
    (hclean : e.dirty = false → e.unspent = V o) (hfresh : e.fresh = true → V o = none)
    (husage : usage + AList.measureAt entryUsage o c.cacheCoins =
      c.cachedCoinsUsage + entryUsage o e) :
    LayerInv V { c with cacheCoins := c.cacheCoins.insert o e, cachedCoinsUsage := usage } where
  clean := by
    intro o' e' h hd
    by_cases ho : o' = o
    · subst ho
      rw [AList.lookup_insert, Option.some.injEq] at h
      subst h
      exact hclean hd
    · rw [AList.lookup_insert_ne ho] at h
      exact hc.clean h hd
  fresh := by
    intro o' e' h hf
    by_cases ho : o' = o
    · subst ho
      rw [AList.lookup_insert, Option.some.injEq] at h
      subst h
      exact hfresh hf
    · rw [AList.lookup_insert_ne ho] at h
      exact hc.fresh h hf
  usage := by
    have hins := AList.sumBy_insert entryUsage o e c.cacheCoins
    have hu := hc.usage
    dsimp only
    omega

/-- Erasing an entry, with the usage less what it held. -/
theorem erase (hc : LayerInv V c) {o : COutPoint} {usage : Nat}
    (husage : usage + AList.measureAt entryUsage o c.cacheCoins = c.cachedCoinsUsage) :
    LayerInv V { c with cacheCoins := c.cacheCoins.erase o, cachedCoinsUsage := usage } where
  clean := by
    intro o' e' h hd
    have ho : o' ≠ o := by
      rintro rfl
      rw [AList.lookup_erase] at h
      cases h
    rw [AList.lookup_erase_ne ho] at h
    exact hc.clean h hd
  fresh := by
    intro o' e' h hf
    have ho : o' ≠ o := by
      rintro rfl
      rw [AList.lookup_erase] at h
      cases h
    rw [AList.lookup_erase_ne ho] at h
    exact hc.fresh h hf
  usage := by
    have her := AList.sumBy_erase entryUsage o c.cacheCoins
    have hu := hc.usage
    dsimp only
    omega

theorem setHashBlock (hc : LayerInv V c) (h : Uint256) : LayerInv V { c with hashBlock := h } :=
  ⟨hc.clean, hc.fresh, hc.usage⟩

/-- A layer with no entries keeps the discipline over anything. -/
theorem cleared (c : CoinsCacheLayer) : LayerInv V c.cleared where
  clean := by
    intro o e h
    cases h
  fresh := by
    intro o e h
    cases h
  usage := rfl

/-- The discipline depends on the parent only through the view it gives. -/
theorem of_parent_eq {W : CCoinsViewCache} (hc : LayerInv V c) (h : W = V) : LayerInv W c :=
  h ▸ hc

end LayerInv

/-! ## Reads -/

/-- What a call on the layer `c` over the layers `ps`, which leaves `c'` over `ps'`,
keeps: the view of the layers under it, the discipline, and the layer's view `v` over
them. -/
structure LayerStep (db : CCoinsViewDB) (ps : List CoinsCacheLayer) (c' : CoinsCacheLayer)
    (ps' : List CoinsCacheLayer) (v : CCoinsViewCache) : Prop where
  lower : stackView ps' db.coins = stackView ps db.coins
  view : c'.view (stackView ps db.coins) = v
  inv : StackInv (c' :: ps') db.coins

theorem LayerStep.stackView {db : CCoinsViewDB} {ps ps' : List CoinsCacheLayer}
    {c' : CoinsCacheLayer} {v : CCoinsViewCache} (h : LayerStep db ps c' ps' v) :
    stackView (c' :: ps') db.coins = v := by
  rw [stackView_cons, h.lower, h.view]

section

variable {db : CCoinsViewDB} {o : COutPoint}

/-- The coin `base->GetCoin` answered is emplaced as a clean entry that agrees with it. -/
theorem emplaceFetched_spec {V : CCoinsViewCache} {c : CoinsCacheLayer} (hc : LayerInv V c)
    (hnone : c.cacheCoins.lookup o = none) (hV : ∀ {coin}, V o = some coin → coin.isSpent = false) :
    (emplaceFetched o c (V o)).1.bind CCoinsCacheEntry.unspent = V o ∧
      (emplaceFetched o c (V o)).2.cacheCoins.lookup o = (emplaceFetched o c (V o)).1 ∧
      LayerInv V (emplaceFetched o c (V o)).2 ∧ (emplaceFetched o c (V o)).2.view V = c.view V := by
  cases hVo : V o with
  | none => exact ⟨rfl, hnone, hc, rfl⟩
  | some tmp =>
    dsimp only [emplaceFetched]
    have hs : tmp.isSpent = false := hV hVo
    have hu : (⟨tmp, false, tmp.isSpent⟩ : CCoinsCacheEntry).unspent = some tmp :=
      CCoinsCacheEntry.unspent_of_isSpent_eq_false hs
    refine ⟨hu, AList.lookup_insert _, hc.insert (fun _ => hu.trans hVo.symm) ?_ ?_, ?_⟩
    · intro hf
      simp [hs] at hf
    · rw [AList.measureAt_of_lookup_eq_none _ hnone]
      rfl
    · funext o'
      rw [CoinsCacheLayer.view_insert]
      split_ifs with ho
      · subst ho
        rw [hu, CoinsCacheLayer.view_of_lookup_eq_none hnone, hVo]
      · rfl

/-- The end of a `FetchCoin` that found no entry, once the layers under it answered the
view `stackView ps` and were left as `ps'` with that view. -/
theorem emplaceFetched_step (hdb : DBInv db) {c : CoinsCacheLayer} {ps ps' : List CoinsCacheLayer}
    (hinv : StackInv (c :: ps) db.coins) (hnone : c.cacheCoins.lookup o = none)
    (hlower : stackView ps' db.coins = stackView ps db.coins) (hps' : StackInv ps' db.coins) :
    (emplaceFetched o c (stackView ps db.coins o)).1.bind CCoinsCacheEntry.unspent =
        stackView (c :: ps) db.coins o ∧
      (emplaceFetched o c (stackView ps db.coins o)).2.cacheCoins.lookup o =
        (emplaceFetched o c (stackView ps db.coins o)).1 ∧
      LayerStep db ps (emplaceFetched o c (stackView ps db.coins o)).2 ps'
        (c.view (stackView ps db.coins)) := by
  obtain ⟨hbind, hlook, hlayer, hview⟩ :=
    emplaceFetched_spec hinv.1 hnone (stackView_isSpent hdb ps)
  refine ⟨?_, hlook, ⟨hlower, hview, ?_, hps'⟩⟩
  · rw [hbind, stackView_cons, CoinsCacheLayer.view_of_lookup_eq_none hnone]
  · rw [hlower]
    exact hlayer

/-- `FetchCoin` answers the flat view at `o`, returns the entry it leaves at `o`, and
keeps the discipline and every view.  By induction on the layers under `c`: the call
recurses into the next layer's `GetCoin`. -/
theorem fetchCoin_spec (hdb : DBInv db) :
    ∀ (ps : List CoinsCacheLayer) {c c' : CoinsCacheLayer} {ps' : List CoinsCacheLayer}
      {r : Option CCoinsCacheEntry}, StackInv (c :: ps) db.coins →
      fetchCoin db o c ps = (r, c', ps') →
      r.bind CCoinsCacheEntry.unspent = stackView (c :: ps) db.coins o ∧
        c'.cacheCoins.lookup o = r ∧ LayerStep db ps c' ps' (c.view (stackView ps db.coins))
  | ps, c, c', ps', r, hinv, hf => by
    rw [fetchCoin.eq_def] at hf
    cases hl : c.cacheCoins.lookup o with
    | some e =>
      rw [hl] at hf
      simp only [Prod.mk.injEq] at hf
      obtain ⟨rfl, rfl, rfl⟩ := hf
      refine ⟨?_, hl, ⟨rfl, rfl, hinv⟩⟩
      rw [stackView_cons, CoinsCacheLayer.view_of_lookup_eq_some hl]
      rfl
    | none =>
      rw [hl] at hf
      cases ps with
      | nil =>
        simp only [Prod.mk.injEq] at hf
        obtain ⟨rfl, rfl, rfl⟩ := hf
        exact emplaceFetched_step hdb hinv hl rfl trivial
      | cons p ps₀ =>
        -- the next layer's `GetCoin`, by the induction hypothesis
        rcases hp : fetchCoin db o p ps₀ with ⟨r₁, p', ps₁⟩
        obtain ⟨hbind, -, hstep⟩ := fetchCoin_spec hdb ps₀ hinv.2 hp
        simp only [hp, hbind, Prod.mk.injEq] at hf
        obtain ⟨rfl, rfl, rfl⟩ := hf
        exact emplaceFetched_step hdb hinv hl hstep.stackView hstep.inv

/-- `FetchCoin` keeps the discipline and every view. -/
theorem fetchCoin_step (hdb : DBInv db) {c : CoinsCacheLayer} {ps : List CoinsCacheLayer}
    (hinv : StackInv (c :: ps) db.coins) :
    LayerStep db ps (fetchCoin db o c ps).2.1 (fetchCoin db o c ps).2.2
      (c.view (stackView ps db.coins)) :=
  (fetchCoin_spec hdb ps hinv rfl).2.2

/-- `GetCoin` answers the flat view. -/
theorem getCoin_eq_stackView (hdb : DBInv db) {c : CoinsCacheLayer} {ps : List CoinsCacheLayer}
    (hinv : StackInv (c :: ps) db.coins) :
    (getCoin db o c ps).1 = stackView (c :: ps) db.coins o :=
  (fetchCoin_spec hdb ps hinv rfl).1

/-- `SpendCoin` erases the outpoint from the layer's view: a fresh entry has nothing under
it, and any other is overwritten by a spent one. -/
theorem spendCoin_step (hdb : DBInv db) {c : CoinsCacheLayer} {ps : List CoinsCacheLayer}
    (hinv : StackInv (c :: ps) db.coins) :
    LayerStep db ps (spendCoin db o c ps).2.1 (spendCoin db o c ps).2.2
      ((c.view (stackView ps db.coins)).erase o) := by
  rcases hf : fetchCoin db o c ps with ⟨r, c₁, ps₁⟩
  obtain ⟨hbind, hlook, hstep⟩ := fetchCoin_spec hdb ps hinv hf
  have hlayer : LayerInv (stackView ps db.coins) c₁ := hstep.inv.1.of_parent_eq hstep.lower.symm
  cases r with
  | none =>
    -- no entry: the view has nothing at `o`, and the call changes nothing
    have hnone : c.view (stackView ps db.coins) o = none := hbind.symm
    simp only [spendCoin, hf]
    refine ⟨hstep.lower, ?_, hstep.inv⟩
    funext o'
    simp only [CCoinsViewCache.erase]
    split_ifs with ho
    · subst ho
      rw [congrFun hstep.view o', hnone]
    · exact congrFun hstep.view o'
  | some e =>
    have hle : e.coin.dynamicMemoryUsage ≤ c₁.cachedCoinsUsage := by
      have h := hlayer.measureAt_le o
      rwa [AList.measureAt_of_lookup_eq_some _ hlook] at h
    simp only [spendCoin, hf]
    split_ifs with hfresh
    · -- a fresh entry is erased: nothing is under it
      refine ⟨hstep.lower, ?_, ⟨(hlayer.erase ?_).of_parent_eq hstep.lower, hstep.inv.2⟩⟩
      · funext o'
        rw [CoinsCacheLayer.view_erase]
        simp only [CCoinsViewCache.erase]
        split_ifs with ho
        · subst ho
          exact hlayer.fresh hlook hfresh
        · exact congrFun hstep.view o'
      · rw [AList.measureAt_of_lookup_eq_some _ hlook]
        simp only [entryUsage]
        omega
    · -- any other entry is overwritten by a spent, dirty one
      have hfresh' : e.fresh = false := by simpa using hfresh
      refine ⟨hstep.lower, ?_, ⟨(hlayer.insert ?_ ?_ ?_).of_parent_eq hstep.lower, hstep.inv.2⟩⟩
      · funext o'
        rw [CoinsCacheLayer.view_insert]
        simp only [CCoinsViewCache.erase]
        split_ifs with ho
        · simp
        · exact congrFun hstep.view o'
      · intro hd
        cases hd
      · intro hf'
        rw [hfresh'] at hf'
        cases hf'
      · rw [AList.measureAt_of_lookup_eq_some _ hlook]
        simp only [entryUsage, Coin.dynamicMemoryUsage_empty]
        omega

end

/-! ## Writes on one layer -/

section

variable {V : CCoinsViewCache} {c : CoinsCacheLayer}

theorem LayerInv.usage_le_of_lookup (hc : LayerInv V c) {o : COutPoint} {e : CCoinsCacheEntry}
    (hl : c.cacheCoins.lookup o = some e) : e.coin.dynamicMemoryUsage ≤ c.cachedCoinsUsage := by
  have h := hc.measureAt_le o
  rwa [AList.measureAt_of_lookup_eq_some _ hl] at h

/-- What `AddCoin` reads of the entry at `o` when the flat view lets the coin in: the
entry is spent unless overwriting is allowed, and the flags it sets leave a fresh entry
only where nothing is under it. -/
theorem addCoin_old (hc : LayerInv V c) {o : COutPoint} {po : Bool}
    (hfree : ¬ (!po && (c.view V).haveCoin o) = true) {old : CCoinsCacheEntry}
    (hold : (c.cacheCoins.lookup o).getD ⟨Coin.empty, false, false⟩ = old) :
    ¬ (!po && !old.coin.isSpent) = true ∧ ((old.fresh || (!po && !old.dirty)) = true → V o = none) := by
  cases hl : c.cacheCoins.lookup o with
  | none =>
    -- the new entry of a spent coin with no flags
    rw [hl, Option.getD_none] at hold
    subst hold
    have hV : c.view V o = V o := CoinsCacheLayer.view_of_lookup_eq_none hl
    refine ⟨by simp, ?_⟩
    intro hf
    have hpo : po = false := by simpa using hf
    subst hpo
    simpa [CCoinsViewCache.haveCoin, hV] using hfree
  | some e =>
    rw [hl, Option.getD_some] at hold
    subst hold
    have hV : c.view V o = e.unspent := CoinsCacheLayer.view_of_lookup_eq_some hl
    refine ⟨?_, ?_⟩
    · intro h
      have h' : po = false ∧ e.coin.isSpent = false := by simpa using h
      obtain ⟨rfl, hsp⟩ := h'
      apply hfree
      simp [CCoinsViewCache.haveCoin, hV, CCoinsCacheEntry.unspent_of_isSpent_eq_false hsp]
    · intro hf
      cases hfr : e.fresh
      · have h' : po = false ∧ e.dirty = false := by simpa [hfr] using hf
        obtain ⟨rfl, hd⟩ := h'
        rw [← hc.clean hl hd, ← hV]
        simpa [CCoinsViewCache.haveCoin] using hfree
      · exact hc.fresh hl hfr

/-- `AddCoin` on a layer refines `addCoin` of its view, wherever the flat view lets the
coin in. -/
theorem addCoin_spec (hc : LayerInv V c) {o : COutPoint} {coin : Coin} {po : Bool}
    {v' : CCoinsViewCache} (h : (c.view V).addCoin o coin po = .ok v') :
    ∃ c', addCoin c o coin po = .ok c' ∧ LayerInv V c' ∧ c'.view V = v' := by
  unfold CCoinsViewCache.addCoin at h
  unfold addCoin
  have hs : ¬ coin.isSpent = true := fun hs => by simp [hs] at h
  rw [if_neg hs] at h ⊢
  by_cases hu : Script.isUnspendable coin.out.scriptPubKey = true
  · -- an unspendable output is stored neither in the cache nor in the flat view
    rw [if_pos hu] at h ⊢
    exact ⟨c, rfl, hc, Except.pure_eq_ok.mp h⟩
  rw [if_neg hu] at h ⊢
  have hfree : ¬ (!po && (c.view V).haveCoin o) = true := fun hh => by simp [hh] at h
  rw [if_neg hfree] at h
  obtain ⟨hno, hfresh⟩ := addCoin_old hc hfree rfl
  dsimp only
  rw [if_neg hno]
  refine ⟨_, rfl, hc.insert (fun hd => by cases hd) hfresh ?_, ?_⟩
  · have hle := hc.measureAt_le o
    simp only [entryUsage]
    omega
  · rw [← Except.pure_eq_ok.mp h]
    funext o'
    rw [CoinsCacheLayer.view_insert]
    split_ifs with ho
    · subst ho
      rw [CCoinsViewCache.insert_self]
      exact CCoinsCacheEntry.unspent_of_isSpent_eq_false (by simpa using hs)
    · rw [CCoinsViewCache.insert_of_ne _ _ ho]

/-- `Uncache` drops only an entry with no flags, which agrees with the parent. -/
theorem uncache_spec (hc : LayerInv V c) (o : COutPoint) :
    LayerInv V (uncache c o) ∧ (uncache c o).view V = c.view V := by
  unfold uncache
  cases hl : c.cacheCoins.lookup o with
  | none => exact ⟨hc, rfl⟩
  | some e =>
    dsimp only
    split_ifs with hflags
    · have hd : e.dirty = false := by simp_all
      refine ⟨hc.erase ?_, ?_⟩
      · have hle := hc.usage_le_of_lookup hl
        rw [AList.measureAt_of_lookup_eq_some _ hl]
        simp only [entryUsage]
        omega
      · funext o'
        rw [CoinsCacheLayer.view_erase]
        split_ifs with ho
        · subst ho
          rw [CoinsCacheLayer.view_of_lookup_eq_some hl, hc.clean hl hd]
        · rfl
    · exact ⟨hc, rfl⟩

end

/-! ## Flushes -/

section

variable {W : CCoinsViewCache}

/-- One entry of `BatchWrite` makes the parent's view at `o` the child's, keeping the
parent's discipline over its own parent `W`.  The child's entry keeps the discipline over
the parent's view, so the misapplied-`FRESH` error is never thrown. -/
theorem batchWriteEntry_spec {p : CoinsCacheLayer} (hp : LayerInv W p) {o : COutPoint}
    {e : CCoinsCacheEntry} (hclean : e.dirty = false → e.unspent = p.view W o)
    (hfresh : e.fresh = true → p.view W o = none) :
    ∃ p', batchWriteEntry p o e = .ok p' ∧ LayerInv W p' ∧ p'.view W o = e.unspent ∧
      ∀ o', o' ≠ o → p'.cacheCoins.lookup o' = p.cacheCoins.lookup o' := by
  unfold batchWriteEntry
  cases hd : e.dirty
  · -- a clean entry is skipped: it already agrees with the parent
    rw [if_pos (show (!false) = true from rfl)]
    exact ⟨p, rfl, hp, (hclean hd).symm, fun _ _ => rfl⟩
  rw [if_neg (by decide)]
  cases hl : p.cacheCoins.lookup o with
  | none =>
    have hW : p.view W o = W o := CoinsCacheLayer.view_of_lookup_eq_none hl
    dsimp only
    split_ifs with hfs
    · -- a fresh spent entry the parent lacks need not reach it
      have h' : e.fresh = true ∧ e.coin.isSpent = true := by simpa using hfs
      refine ⟨p, rfl, hp, ?_, fun _ _ => rfl⟩
      rw [hfresh h'.1, CCoinsCacheEntry.unspent_eq_none.mpr h'.2]
    · refine ⟨_, rfl, hp.insert (fun h => by cases h) (fun hf => hW ▸ hfresh hf) ?_, ?_, ?_⟩
      · rw [AList.measureAt_of_lookup_eq_none _ hl]
        rfl
      · rw [CoinsCacheLayer.view_insert, if_pos rfl]
        rfl
      · intro o' ho
        exact AList.lookup_insert_ne ho
  | some u =>
    have hW : p.view W o = u.unspent := CoinsCacheLayer.view_of_lookup_eq_some hl
    have hle := hp.usage_le_of_lookup hl
    dsimp only
    have hno : ¬ (e.fresh && !u.coin.isSpent) = true := by
      intro h
      have h' : e.fresh = true ∧ u.coin.isSpent = false := by simpa using h
      have hnone := hfresh h'.1
      rw [hW, CCoinsCacheEntry.unspent_eq_none] at hnone
      rw [hnone] at h'
      cases h'.2
    rw [if_neg hno]
    split_ifs with hus
    · -- the parent's fresh entry is dropped when the child spent it
      have h' : u.fresh = true ∧ e.coin.isSpent = true := by simpa using hus
      refine ⟨_, rfl, hp.erase ?_, ?_, ?_⟩
      · rw [AList.measureAt_of_lookup_eq_some _ hl]
        simp only [entryUsage]
        omega
      · rw [CoinsCacheLayer.view_erase, if_pos rfl, hp.fresh hl h'.1,
          CCoinsCacheEntry.unspent_eq_none.mpr h'.2]
      · intro o' ho
        exact AList.lookup_erase_ne ho
    · refine ⟨_, rfl, hp.insert (fun h => by cases h) (fun hf => hp.fresh hl hf) ?_, ?_, ?_⟩
      · rw [AList.measureAt_of_lookup_eq_some _ hl]
        simp only [entryUsage]
        omega
      · rw [CoinsCacheLayer.view_insert, if_pos rfl]
        rfl
      · intro o' ho
        exact AList.lookup_insert_ne ho

/-- The loop of `BatchWrite` over entries with distinct outpoints, each keeping the
discipline over the view `P` of the parent before the loop: each written outpoint takes
the child's entry, and the others keep the parent's.  By induction on the entries, with
the parent's view at the outpoints still to come unchanged. -/
theorem foldlM_batchWriteEntry {P : CCoinsViewCache} :
    ∀ (l : List (Sigma fun _ : COutPoint => CCoinsCacheEntry)) {p : CoinsCacheLayer},
      l.NodupKeys → LayerInv W p →
      (∀ x ∈ l, x.2.dirty = false → x.2.unspent = P x.1) →
      (∀ x ∈ l, x.2.fresh = true → P x.1 = none) → (∀ x ∈ l, p.view W x.1 = P x.1) →
      ∃ p', l.foldlM (fun p x => batchWriteEntry p x.1 x.2) p = .ok p' ∧ LayerInv W p' ∧
        (∀ x ∈ l, p'.view W x.1 = x.2.unspent) ∧
        ∀ o, o ∉ l.keys → p'.cacheCoins.lookup o = p.cacheCoins.lookup o
  | [], p, _, hp, _, _, _ => ⟨p, rfl, hp, fun _ h => absurd h List.not_mem_nil, fun _ _ => rfl⟩
  | x :: l, p, hnd, hp, hclean, hfresh, hview => by
    rw [List.nodupKeys_cons] at hnd
    have hx := hview x List.mem_cons_self
    obtain ⟨p₁, h₁, hp₁, hv₁, hframe₁⟩ := batchWriteEntry_spec hp
      (fun hd => (hclean x List.mem_cons_self hd).trans hx.symm)
      (fun hf => hx.trans (hfresh x List.mem_cons_self hf))
    -- the outpoints still to write keep the view they had
    have hview₁ : ∀ y ∈ l, p₁.view W y.1 = P y.1 := by
      intro y hy
      have hne : y.1 ≠ x.1 := fun h => hnd.1 (h ▸ List.mem_keys_of_mem hy)
      rw [CoinsCacheLayer.view_congr (hframe₁ y.1 hne)]
      exact hview y (List.mem_cons_of_mem _ hy)
    obtain ⟨p', h', hp', hv', hframe'⟩ := foldlM_batchWriteEntry l hnd.2 hp₁
      (fun y hy => hclean y (List.mem_cons_of_mem _ hy))
      (fun y hy => hfresh y (List.mem_cons_of_mem _ hy)) hview₁
    refine ⟨p', ?_, hp', ?_, ?_⟩
    · rw [List.foldlM_cons, h₁]
      exact h'
    · intro y hy
      rcases List.mem_cons.mp hy with rfl | hy
      · rw [CoinsCacheLayer.view_congr (hframe' y.1 hnd.1), hv₁]
      · exact hv' y hy
    · intro o ho
      rw [List.keys_cons, List.mem_cons, not_or] at ho
      rw [hframe' o ho.2, hframe₁ o ho.1]

/-- `BatchWrite` of a child that keeps the discipline over the parent's view: the
parent's view becomes the child's, and its discipline is kept. -/
theorem batchWrite_spec {p c : CoinsCacheLayer} (hp : LayerInv W p) (hc : LayerInv (p.view W) c)
    (h : Uint256) :
    ∃ p', batchWrite p c.cacheCoins h = .ok p' ∧ LayerInv W p' ∧
      p'.view W = c.view (p.view W) ∧ p'.hashBlock = h := by
  have hmem : ∀ x ∈ c.cacheCoins.entries, c.cacheCoins.lookup x.1 = some x.2 :=
    fun x hx => AList.mem_lookup_iff.mpr hx
  obtain ⟨p', hfold, hp', hv', hframe⟩ :=
    foldlM_batchWriteEntry c.cacheCoins.entries c.cacheCoins.nodupKeys hp
      (fun x hx hd => hc.clean (hmem x hx) hd) (fun x hx hf => hc.fresh (hmem x hx) hf)
      (fun _ _ => rfl)
  refine ⟨{ p' with hashBlock := h }, ?_, hp'.setHashBlock h, ?_, rfl⟩
  · rw [batchWrite, hfold]
    rfl
  · funext o
    rw [CoinsCacheLayer.view_setHashBlock]
    cases hl : c.cacheCoins.lookup o with
    | some e =>
      rw [CoinsCacheLayer.view_of_lookup_eq_some hl]
      exact hv' ⟨o, e⟩ (AList.mem_lookup_iff.mp hl)
    | none =>
      -- an outpoint the child has no entry for keeps the parent's entry
      have hkey : o ∉ c.cacheCoins.entries.keys :=
        fun hk => AList.lookup_eq_none.mp hl (AList.mem_keys.mp hk)
      rw [CoinsCacheLayer.view_of_lookup_eq_none hl, CoinsCacheLayer.view_congr (hframe o hkey)]

end

theorem mem_dbWrites {m : CCoinsMap} {w : COutPoint × Option Coin} :
    w ∈ dbWrites m ↔ ∃ e, m.lookup w.1 = some e ∧ e.dirty = true ∧ w.2 = e.unspent := by
  unfold dbWrites
  rw [List.mem_filterMap]
  constructor
  · rintro ⟨x, hx, hw⟩
    split at hw
    · cases hw
      exact ⟨x.2, AList.mem_lookup_iff.mpr hx, by assumption, rfl⟩
    · cases hw
  · rintro ⟨e, hl, hd, hw⟩
    exact ⟨⟨w.1, e⟩, AList.mem_lookup_iff.mp hl, by simp [hd, ← hw]⟩

/-- `CCoinsViewDB::BatchWrite` with a best block writes the view of the layer over the
database: the dirty entries are written or erased, and the clean ones agree already. -/
theorem CCoinsViewDB.batchWrite_spec {db : CCoinsViewDB} (hdb : DBInv db) {c : CoinsCacheLayer}
    (hc : LayerInv db.coins c) {h : Uint256} (hh : h.isNull = false) :
    ∃ db', db.batchWrite c.cacheCoins h = .ok db' ∧ DBInv db' ∧ db'.coins = c.view db.coins ∧
      db'.bestBlock = h := by
  have hcoins : Journal.applyWrites db.coins (dbWrites c.cacheCoins) = c.view db.coins := by
    funext o
    cases hl : c.cacheCoins.lookup o with
    | none =>
      rw [CoinsCacheLayer.view_of_lookup_eq_none hl]
      apply Journal.applyWrites_of_not_mem
      intro hm
      obtain ⟨w, hw, rfl⟩ := List.mem_map.mp hm
      obtain ⟨e, he, -, -⟩ := mem_dbWrites.mp hw
      rw [hl] at he
      cases he
    | some e =>
      rw [CoinsCacheLayer.view_of_lookup_eq_some hl]
      cases hd : e.dirty
      · -- a clean entry is what the database holds already
        rw [Journal.applyWrites_of_not_mem, hc.clean hl hd]
        intro hm
        obtain ⟨w, hw, rfl⟩ := List.mem_map.mp hm
        obtain ⟨e', he', hd', -⟩ := mem_dbWrites.mp hw
        rw [hl, Option.some.injEq] at he'
        subst he'
        rw [hd] at hd'
        cases hd'
      · apply Journal.applyWrites_of_forall_eq
        · exact List.mem_map.mpr ⟨(o, e.unspent), mem_dbWrites.mpr ⟨e, hl, hd, rfl⟩, rfl⟩
        · intro w hw hwo
          obtain ⟨e', he', -, hw2⟩ := mem_dbWrites.mp hw
          rw [hwo, hl, Option.some.injEq] at he'
          rw [hw2, he']
  refine ⟨⟨Journal.applyWrites db.coins (dbWrites c.cacheCoins), h⟩, ?_, ?_, hcoins, rfl⟩
  · simp [CCoinsViewDB.batchWrite, hh]
  · intro o coin hcoin
    have hview : c.view db.coins o = some coin := by
      rw [← hcoins]
      exact hcoin
    exact CoinsCacheLayer.view_isSpent hdb hview

section

variable {db : CCoinsViewDB}

/-- `Flush` into the database with a null best block fails its assertion. -/
theorem flush_nil_of_isNull {c : CoinsCacheLayer} (h : c.hashBlock.isNull = true) :
    flush db c [] = .error "assert(!hashBlock.IsNull())" := by
  simp [flush, CCoinsViewDB.batchWrite, h]
  rfl

/-- `Flush` into the database with a best block moves the layer's view into it. -/
theorem flush_nil_spec (hdb : DBInv db) {c : CoinsCacheLayer} (hinv : StackInv [c] db.coins)
    (hh : c.hashBlock.isNull = false) :
    ∃ db', flush db c [] = .ok (c.cleared, [], db') ∧ DBInv db' ∧
      db'.coins = c.view db.coins ∧ db'.bestBlock = c.hashBlock := by
  obtain ⟨db', hw, hdb', hcoins, hbest⟩ := CCoinsViewDB.batchWrite_spec hdb hinv.1 hh
  exact ⟨db', by rw [flush, hw]; rfl, hdb', hcoins, hbest⟩

/-- `Flush` into a cache moves the layer's view into it. -/
theorem flush_cons_spec {c p : CoinsCacheLayer} {ps : List CoinsCacheLayer}
    (hinv : StackInv (c :: p :: ps) db.coins) :
    ∃ p', flush db c (p :: ps) = .ok (c.cleared, p' :: ps, db) ∧
      LayerInv (stackView ps db.coins) p' ∧
      p'.view (stackView ps db.coins) = c.view (p.view (stackView ps db.coins)) ∧
      p'.hashBlock = c.hashBlock := by
  obtain ⟨p', hw, hp', hv', hh'⟩ := batchWrite_spec hinv.2.1 hinv.1 c.hashBlock
  exact ⟨p', by rw [flush, hw]; rfl, hp', hv', hh'⟩

end

/-! ## Stacks -/

/-- A stack of at least one cache whose layers keep the discipline over a database of
unspent coins. -/
structure CoinsStack.Valid (s : CoinsStack) : Prop where
  nonempty : s.layers ≠ []
  layers : StackInv s.layers s.db.coins
  db : DBInv s.db

/-- The stack a call on one layer leaves of that layer and the layers under it. -/
def CoinsStack.ofCall (r : CoinsCacheLayer × List CoinsCacheLayer × CCoinsViewDB) : CoinsStack :=
  ⟨r.1 :: r.2.1, r.2.2⟩

/-- A result that refines the flat view `v`: a valid stack with that view, or the failed
assertion of a flush into the database without a best block. -/
def RefinesTo (v : CCoinsViewCache) : Except String CoinsStack → Prop
  | .ok s => s.Valid ∧ s.view = v
  | .error e => e = "assert(!hashBlock.IsNull())"

/-- The layers from `k` down keep the discipline. -/
theorem CoinsStack.Valid.stackInv_drop {s : CoinsStack} (hs : s.Valid) {k : Nat}
    {c : CoinsCacheLayer} {ps : List CoinsCacheLayer} (h : s.layers.drop k = c :: ps) :
    StackInv (c :: ps) s.db.coins := by
  have hinv := hs.layers
  rw [← List.take_append_drop k s.layers, h, stackInv_append] at hinv
  exact hinv.2

/-- A call on a layer that leaves the database refines the layer's new view. -/
theorem refinesTo_of_layerStep {db : CCoinsViewDB} (hdb : DBInv db) {ps ps' : List CoinsCacheLayer}
    {c' : CoinsCacheLayer} {v : CCoinsViewCache} (h : LayerStep db ps c' ps' v) :
    RefinesTo v ((pure (c', ps', db) : Except String _).map CoinsStack.ofCall) :=
  ⟨⟨List.cons_ne_nil _ _, h.inv, hdb⟩, h.stackView⟩

/-- `Flush` of a layer keeps its view, or fails the database's assertion. -/
theorem flush_refines {db : CCoinsViewDB} (hdb : DBInv db) {c : CoinsCacheLayer}
    {ps : List CoinsCacheLayer} (hinv : StackInv (c :: ps) db.coins) :
    RefinesTo (stackView (c :: ps) db.coins) ((flush db c ps).map CoinsStack.ofCall) := by
  cases ps with
  | nil =>
    cases hh : c.hashBlock.isNull
    · obtain ⟨db', hf, hdb', hcoins, -⟩ := flush_nil_spec hdb hinv hh
      rw [hf]
      exact ⟨⟨List.cons_ne_nil _ _, ⟨LayerInv.cleared c, trivial⟩, hdb'⟩, hcoins⟩
    · rw [flush_nil_of_isNull hh]
      rfl
  | cons p ps =>
    obtain ⟨p', hf, hp', hv', -⟩ := flush_cons_spec hinv
    rw [hf]
    exact ⟨⟨List.cons_ne_nil _ _, ⟨LayerInv.cleared c, hp', hinv.2.2⟩, hdb⟩, hv'⟩

/-- A call on the layer under `above` rebuilds the stack around what it leaves. -/
theorem CoinsStack.atLayer_of_eq_append {s : CoinsStack} {above : List CoinsCacheLayer}
    {c : CoinsCacheLayer} {ps : List CoinsCacheLayer} (h : s.layers = above ++ c :: ps)
    (f : CoinsCacheLayer → List CoinsCacheLayer →
      Except String (CoinsCacheLayer × List CoinsCacheLayer × CCoinsViewDB)) :
    s.atLayer above.length f = (f c ps).map fun r => ⟨above ++ r.1 :: r.2.1, r.2.2⟩ := by
  unfold CoinsStack.atLayer
  rw [h, List.drop_left, List.take_left]
  dsimp only
  cases f c ps <;> rfl

theorem CoinsStack.atLayer_zero {s : CoinsStack} {c : CoinsCacheLayer} {ps : List CoinsCacheLayer}
    (h : s.layers = c :: ps)
    (f : CoinsCacheLayer → List CoinsCacheLayer →
      Except String (CoinsCacheLayer × List CoinsCacheLayer × CCoinsViewDB)) :
    s.atLayer 0 f = (f c ps).map CoinsStack.ofCall :=
  @CoinsStack.atLayer_of_eq_append s [] c ps h f

/-- A call on any layer that keeps that layer's view keeps the stack valid and its
view: the layers above it see the same view under them. -/
theorem CoinsStack.atLayer_keeps {s : CoinsStack} (hs : s.Valid) (k : Nat)
    {f : CoinsCacheLayer → List CoinsCacheLayer →
      Except String (CoinsCacheLayer × List CoinsCacheLayer × CCoinsViewDB)}
    (hf : ∀ c ps, s.layers.drop k = c :: ps →
      RefinesTo (stackView (c :: ps) s.db.coins) ((f c ps).map CoinsStack.ofCall)) :
    RefinesTo s.view (s.atLayer k f) := by
  unfold CoinsStack.atLayer
  split
  · exact ⟨hs, rfl⟩
  · rename_i c ps hdrop
    have hsplit : s.layers = s.layers.take k ++ c :: ps := by
      rw [← hdrop, List.take_append_drop]
    have habove : StackInv (s.layers.take k) (stackView (c :: ps) s.db.coins) := by
      have hinv := hs.layers
      rw [hsplit, stackInv_append] at hinv
      exact hinv.1
    have hseg := hf c ps hdrop
    cases hr : f c ps with
    | error e =>
      rw [hr] at hseg
      exact hseg
    | ok r =>
      rw [hr] at hseg
      obtain ⟨hvalid, hview⟩ := hseg
      have hview' : stackView (r.1 :: r.2.1) r.2.2.coins = stackView (c :: ps) s.db.coins := hview
      refine ⟨⟨by simp, stackInv_append.mpr ⟨hview' ▸ habove, hvalid.layers⟩, hvalid.db⟩, ?_⟩
      calc stackView (s.layers.take k ++ r.1 :: r.2.1) r.2.2.coins
          = stackView (s.layers.take k) (stackView (c :: ps) s.db.coins) := by
            rw [stackView_append, hview']
        _ = s.view := by rw [CoinsStack.view, ← stackView_append, ← hsplit]

/-! ## The flat map -/

/-- A call as a single flat map receives it: additions and spends change it, and
nothing else does. -/
def flatStep (v : CCoinsViewCache) : CoinsOp → Except String CCoinsViewCache
  | .addCoin _ o coin possibleOverwrite => v.addCoin o coin possibleOverwrite
  | .spendCoin _ o => pure (v.erase o)
  | .getCoin _ _ | .haveCoin _ _ | .accessCoin _ _ | .uncache _ _ | .setBestBlock _ _ | .flush _ =>
    pure v

/-- The calls `ops` on a flat map. -/
def flatRun (v : CCoinsViewCache) (ops : List CoinsOp) : Except String CCoinsViewCache :=
  ops.foldlM flatStep v

/-- The calls the refinement covers: additions and spends on the top layer, and any
other call on any layer. -/
def CoinsOp.onTop : CoinsOp → Bool
  | .addCoin k _ _ _ => k == 0
  | .spendCoin k _ => k == 0
  | .getCoin _ _ | .haveCoin _ _ | .accessCoin _ _ | .uncache _ _ | .setBestBlock _ _ | .flush _ =>
    true

/-- One call on a valid stack refines the call on the flat map. -/
theorem step_refines {s : CoinsStack} (hs : s.Valid) {op : CoinsOp} (htop : op.onTop = true)
    {v : CCoinsViewCache} (hflat : flatStep s.view op = .ok v) : RefinesTo v (s.step op) := by
  obtain ⟨c, ps, hlayers⟩ := List.exists_cons_of_ne_nil hs.nonempty
  have hinv : StackInv (c :: ps) s.db.coins := hlayers ▸ hs.layers
  have hview : s.view = c.view (stackView ps s.db.coins) := by
    rw [CoinsStack.view, hlayers, stackView_cons]
  cases op with
  | addCoin k o coin po =>
    obtain rfl : k = 0 := by simpa [CoinsOp.onTop] using htop
    rw [flatStep, hview] at hflat
    obtain ⟨c', hadd, hc', hv'⟩ := addCoin_spec hinv.1 hflat
    rw [CoinsStack.step, CoinsStack.atLayer_zero hlayers, hadd]
    exact ⟨⟨List.cons_ne_nil _ _, ⟨hc', hinv.2⟩, hs.db⟩, hv'⟩
  | spendCoin k o =>
    obtain rfl : k = 0 := by simpa [CoinsOp.onTop] using htop
    rw [flatStep, Except.pure_eq_ok] at hflat
    rw [CoinsStack.step, CoinsStack.atLayer_zero hlayers, ← hflat, hview]
    exact refinesTo_of_layerStep hs.db (spendCoin_step hs.db hinv)
  | getCoin k o =>
    rw [flatStep, Except.pure_eq_ok] at hflat
    rw [← hflat]
    exact CoinsStack.atLayer_keeps hs k fun c ps hdrop =>
      refinesTo_of_layerStep hs.db (fetchCoin_step hs.db (hs.stackInv_drop hdrop))
  | haveCoin k o =>
    rw [flatStep, Except.pure_eq_ok] at hflat
    rw [← hflat]
    exact CoinsStack.atLayer_keeps hs k fun c ps hdrop =>
      refinesTo_of_layerStep hs.db (fetchCoin_step hs.db (hs.stackInv_drop hdrop))
  | accessCoin k o =>
    rw [flatStep, Except.pure_eq_ok] at hflat
    rw [← hflat]
    exact CoinsStack.atLayer_keeps hs k fun c ps hdrop =>
      refinesTo_of_layerStep hs.db (fetchCoin_step hs.db (hs.stackInv_drop hdrop))
  | uncache k o =>
    rw [flatStep, Except.pure_eq_ok] at hflat
    rw [← hflat]
    refine CoinsStack.atLayer_keeps hs k fun c ps hdrop => ?_
    have hinv' := hs.stackInv_drop hdrop
    obtain ⟨hc', hv'⟩ := uncache_spec hinv'.1 o
    exact refinesTo_of_layerStep hs.db ⟨rfl, hv', ⟨hc', hinv'.2⟩⟩
  | setBestBlock k h =>
    rw [flatStep, Except.pure_eq_ok] at hflat
    rw [← hflat]
    refine CoinsStack.atLayer_keeps hs k fun c ps hdrop => ?_
    have hinv' := hs.stackInv_drop hdrop
    exact refinesTo_of_layerStep hs.db ⟨rfl, rfl, ⟨hinv'.1.setHashBlock h, hinv'.2⟩⟩
  | flush k =>
    rw [flatStep, Except.pure_eq_ok] at hflat
    rw [← hflat]
    exact CoinsStack.atLayer_keeps hs k fun c ps hdrop =>
      flush_refines hs.db (hs.stackInv_drop hdrop)

/-- A run of calls on a valid stack refines the run on the flat map.  By induction on
the calls, with the stack's validity carried along. -/
theorem coinsStack_run {s : CoinsStack} (hs : s.Valid) {ops : List CoinsOp}
    (htop : ∀ op ∈ ops, op.onTop = true) {v : CCoinsViewCache}
    (hflat : flatRun s.view ops = .ok v) : RefinesTo v (s.run ops) := by
  induction ops generalizing s with
  | nil =>
    rw [flatRun, List.foldlM_nil, Except.pure_eq_ok] at hflat
    exact ⟨hs, hflat⟩
  | cons op ops ih =>
    rw [flatRun, List.foldlM_cons, Except.bind_eq_ok] at hflat
    obtain ⟨v₁, h₁, hrest⟩ := hflat
    have hstep := step_refines hs (htop op List.mem_cons_self) h₁
    rw [CoinsStack.run, List.foldlM_cons]
    cases hr : s.step op with
    | error e =>
      rw [hr] at hstep
      exact hstep
    | ok s₁ =>
      rw [hr] at hstep
      obtain ⟨hs₁, hv₁⟩ := hstep
      have hrest' : flatRun s₁.view ops = .ok v := by
        rw [flatRun, hv₁]
        exact hrest
      exact ih hs₁ (fun op' h => htop op' (List.mem_cons_of_mem _ h)) hrest'

/-- `GetCoin` on the top layer answers the flat view. -/
theorem CoinsStack.getCoinTop_eq_view {s : CoinsStack} (hs : s.Valid) (o : COutPoint) :
    s.getCoinTop o = s.view o := by
  obtain ⟨c, ps, hlayers⟩ := List.exists_cons_of_ne_nil hs.nonempty
  rw [CoinsStack.getCoinTop, CoinsStack.view, hlayers]
  exact getCoin_eq_stackView hs.db (hlayers ▸ hs.layers)

/-- Layers with no entries show the view under them. -/
theorem stackView_of_cleared {above : List CoinsCacheLayer} (h : ∀ a ∈ above, a.cacheCoins = ∅)
    (base : CCoinsViewCache) : stackView above base = base := by
  induction above with
  | nil => rfl
  | cons a above ih =>
    rw [stackView_cons, ih fun a' ha' => h a' (List.mem_cons_of_mem _ ha')]
    funext o
    apply CoinsCacheLayer.view_of_lookup_eq_none
    rw [h a List.mem_cons_self]
    rfl

/-- Flushing the layers from the one under the emptied layers `above` down, with a best
block on that layer, leaves the flat view in the database.  By induction on the layers
still to flush: each flush empties its layer and hands its best block down. -/
theorem run_flushFrom :
    ∀ (ps : List CoinsCacheLayer) {s : CoinsStack} {above : List CoinsCacheLayer}
      {c : CoinsCacheLayer}, s.Valid → s.layers = above ++ c :: ps →
      (∀ a ∈ above, a.cacheCoins = ∅) → c.hashBlock.isNull = false →
      ∃ s', s.run ((List.range' above.length (ps.length + 1)).map CoinsOp.flush) = .ok s' ∧
        s'.db.coins = s.view
  | [], s, above, c, hs, hlayers, habove, hh => by
    have hinv : StackInv [c] s.db.coins := by
      have hinv := hs.layers
      rw [hlayers, stackInv_append] at hinv
      exact hinv.2
    obtain ⟨db', hf, -, hcoins, -⟩ := flush_nil_spec hs.db hinv hh
    refine ⟨⟨above ++ [c.cleared], db'⟩, ?_, ?_⟩
    · rw [CoinsStack.run, List.length_nil, Nat.zero_add, List.range'_one, List.map_singleton, List.foldlM_cons, CoinsStack.step,
        CoinsStack.atLayer_of_eq_append hlayers, hf]
      rfl
    · rw [hcoins, CoinsStack.view, hlayers, stackView_append, stackView_of_cleared habove]
      rfl
  | p :: ps₀, s, above, c, hs, hlayers, habove, hh => by
    have hinv : StackInv (c :: p :: ps₀) s.db.coins := by
      have hinv := hs.layers
      rw [hlayers, stackInv_append] at hinv
      exact hinv.2
    obtain ⟨p', hf, -, -, hh'⟩ := flush_cons_spec hinv
    have hstep : s.step (.flush above.length) = .ok ⟨above ++ c.cleared :: p' :: ps₀, s.db⟩ := by
      rw [CoinsStack.step, CoinsStack.atLayer_of_eq_append hlayers, hf]
      rfl
    -- the flush keeps the stack valid and its view
    have hrefine := @step_refines s hs (.flush above.length) rfl s.view rfl
    rw [hstep] at hrefine
    obtain ⟨hs₁, hv₁⟩ := hrefine
    obtain ⟨s', hrun, hdb⟩ := @run_flushFrom ps₀ _ (above ++ [c.cleared]) p' hs₁ (by simp)
      (fun a ha => by
        rcases List.mem_append.mp ha with ha | ha
        · exact habove a ha
        · rw [List.mem_singleton.mp ha]
          rfl)
      (by rw [hh']; exact hh)
    refine ⟨s', ?_, hdb.trans hv₁⟩
    rw [List.length_append, List.length_singleton] at hrun
    rw [List.length_cons, List.range'_succ, List.map_cons, CoinsStack.run, List.foldlM_cons, hstep]
    exact hrun

/-- Flushing every layer from the top down, with a best block on the top layer, leaves
the flat view in the database. -/
theorem flushOps_db {s : CoinsStack} (hs : s.Valid)
    (hh : ∀ c ∈ s.layers.head?, c.hashBlock.isNull = false) :
    ∃ s', s.run (flushOps s.layers.length) = .ok s' ∧ s'.db.coins = s.view := by
  obtain ⟨c, ps, hlayers⟩ := List.exists_cons_of_ne_nil hs.nonempty
  have h := @run_flushFrom ps s [] c hs (by rw [hlayers]; rfl) (by simp)
    (hh c (by simp [hlayers]))
  rw [flushOps, hlayers, List.range_eq_range']
  simpa using h

/-- A stack that keeps the discipline, under calls whose additions and spends are on the
top layer and which the flat map takes: the run ends in a valid stack whose top layer's
`GetCoin` answers the flat map and whose full flush, with a best block on top, leaves
that map in the database; or a flush into the database had no best block. -/
theorem coinsStack_coherent {s : CoinsStack} (hs : s.Valid) {ops : List CoinsOp}
    (htop : ∀ op ∈ ops, op.onTop = true) {v : CCoinsViewCache}
    (hflat : flatRun s.view ops = .ok v) :
    s.run ops = .error "assert(!hashBlock.IsNull())" ∨
      ∃ s', s.run ops = .ok s' ∧ s'.Valid ∧ (∀ o, s'.getCoinTop o = v o) ∧
        ((∀ c ∈ s'.layers.head?, c.hashBlock.isNull = false) →
          ∃ s'', s'.run (flushOps s'.layers.length) = .ok s'' ∧ s''.db.coins = v) := by
  have hrun := coinsStack_run hs htop hflat
  cases hr : s.run ops with
  | error e =>
    rw [hr] at hrun
    exact .inl (congrArg Except.error hrun)
  | ok s' =>
    rw [hr] at hrun
    obtain ⟨hs', hv'⟩ := hrun
    refine .inr ⟨s', rfl, hs', fun o => ?_, fun hh => ?_⟩
    · rw [CoinsStack.getCoinTop_eq_view hs' o, hv']
    · obtain ⟨s'', hflush, hdb⟩ := flushOps_db hs' hh
      exact ⟨s'', hflush, hdb.trans hv'⟩

/-- A best block that is not null. -/
def sampleBestBlock : Uint256 := ⟨Vector.replicate 32 1⟩

/-- An outpoint and an unspent coin at it. -/
def sampleOutPoint : COutPoint := ⟨⟨Vector.replicate 32 2⟩, 0⟩

def sampleCoin : Coin := ⟨⟨1000, [0x51]⟩, false, 1, false, 0⟩

/-- One empty cache over an empty database. -/
def freshStack : CoinsStack :=
  ⟨[⟨∅, sampleBestBlock, 0⟩], ⟨fun _ => none, sampleBestBlock⟩⟩

theorem freshStack_valid : freshStack.Valid where
  nonempty := List.cons_ne_nil _ _
  layers := ⟨LayerInv.cleared ⟨∅, sampleBestBlock, 0⟩, trivial⟩
  db := fun h => by cases h

/-- Adding the coin, reading it back and flushing. -/
def freshOps : List CoinsOp :=
  [.addCoin 0 sampleOutPoint sampleCoin false, .getCoin 0 sampleOutPoint, .flush 0]

theorem coinsStack_coherent_freshStack :
    freshStack.Valid ∧ (∀ op ∈ freshOps, op.onTop = true) ∧
      flatRun freshStack.view freshOps = .ok (freshStack.view.insert sampleOutPoint sampleCoin) ∧
      (freshStack.run freshOps = .error "assert(!hashBlock.IsNull())" ∨
        ∃ s', freshStack.run freshOps = .ok s' ∧ s'.Valid ∧
          (∀ o, s'.getCoinTop o = freshStack.view.insert sampleOutPoint sampleCoin o) ∧
          ((∀ c ∈ s'.layers.head?, c.hashBlock.isNull = false) →
            ∃ s'', s'.run (flushOps s'.layers.length) = .ok s'' ∧
              s''.db.coins = freshStack.view.insert sampleOutPoint sampleCoin)) :=
  ⟨freshStack_valid, by decide, rfl, coinsStack_coherent freshStack_valid (by decide) rfl⟩

/-- Two empty caches over a database that holds `sampleCoin`. -/
def lowerSpendStack : CoinsStack :=
  ⟨[⟨∅, sampleBestBlock, 0⟩, ⟨∅, sampleBestBlock, 0⟩],
    ⟨fun o => if o = sampleOutPoint then some sampleCoin else none, sampleBestBlock⟩⟩

/-- The top layer reads the coin, pulling it up through the layer under it, and then
that lower layer spends it. -/
def lowerSpendOps : List CoinsOp := [.getCoin 0 sampleOutPoint, .spendCoin 1 sampleOutPoint]

/-- A spend on a lower layer: the flat map no longer holds the coin, and the top layer's
`GetCoin` still answers it. -/
theorem getCoinTop_after_lowerSpend :
    lowerSpendStack.Valid ∧
      flatRun lowerSpendStack.view lowerSpendOps = .ok (lowerSpendStack.view.erase sampleOutPoint) ∧
      lowerSpendStack.view.erase sampleOutPoint sampleOutPoint = none ∧
      (lowerSpendStack.run lowerSpendOps).map (fun s => s.getCoinTop sampleOutPoint) =
        .ok (some sampleCoin) := by
  refine ⟨⟨List.cons_ne_nil _ _, ⟨LayerInv.cleared ⟨∅, sampleBestBlock, 0⟩,
    LayerInv.cleared ⟨∅, sampleBestBlock, 0⟩, trivial⟩, ?_⟩, rfl, ?_, rfl⟩
  · intro o coin h
    simp only [lowerSpendStack] at h
    split_ifs at h
    cases h
    rfl
  · simp [CCoinsViewCache.erase]

end Sumcoin
