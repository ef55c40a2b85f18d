import Sumcoin.Coins.Coins
import Sumcoin.Lib.AListSum
import Sumcoin.Lib.Journal

/-!
# The layers of the coins cache: `CCoinsViewCache` with its flags (`coins.cpp`)

`CCoinsViewCache` keeps, over a parent view, a map of entries, each a coin with two
flags: `DIRTY`, the entry may differ from the parent, and `FRESH`, the parent has no
unspent coin there.  Reads pull entries up from the parent (`FetchCoin`), a spend erases
a fresh entry and marks any other, and `Flush` writes the dirty entries into the parent
(`BatchWrite`) and empties the cache.  Caches stack over the database,
`CCoinsViewDB`, which keeps only unspent coins.

What validation reads of a stack is one flat view (`stackView`): the coin of the topmost
layer with an entry, unless spent.  `CacheRefinement.lean` proves that the stack refines
that view.

`cachedCoinsUsage` is the sum of the entries' `DynamicMemoryUsage`, taken with a
script's capacity equal to its size.  The two flags are two booleans, as no other bit is
ever set.  A layer index past the bottom names no layer: the operation does nothing.

## Main definitions

* `CCoinsCacheEntry`, `CoinsCacheLayer`, `CCoinsViewDB`, `CoinsStack`, `CoinsOp`.
* `emplaceFetched`, `fetchCoin`, `getCoin`, `haveCoin`, `accessCoin`, `addCoin`, `spendCoin`, `uncache`,
  `batchWrite`, `CCoinsViewDB.batchWrite`, `flush`, `CoinsStack.step`, `CoinsStack.run`.
* `stackView`.
-/

namespace Sumcoin

/-- `memusage::MallocUsage(alloc)` on a 64-bit system. -/
def mallocUsage (alloc : Nat) : Nat := if alloc = 0 then 0 else (alloc + 31) / 16 * 16

/-- `Coin::DynamicMemoryUsage()`: the heap block of a script longer than the 28 bytes a
`prevector<28>` holds inline. -/
def Coin.dynamicMemoryUsage (c : Coin) : Nat :=
  if c.out.scriptPubKey.length > 28 then mallocUsage c.out.scriptPubKey.length else 0

@[simp] theorem Coin.isSpent_empty : Coin.empty.isSpent = true := by decide

@[simp] theorem Coin.dynamicMemoryUsage_empty : Coin.empty.dynamicMemoryUsage = 0 := by decide

/-- `CCoinsCacheEntry`: the coin and its flags `DIRTY` and `FRESH`. -/
structure CCoinsCacheEntry where
  coin : Coin
  dirty : Bool
  fresh : Bool
  deriving DecidableEq, Repr

/-- What `GetCoin` answers from an entry: its coin, unless spent. -/
def CCoinsCacheEntry.unspent (e : CCoinsCacheEntry) : Option Coin :=
  if e.coin.isSpent then none else some e.coin

@[simp] theorem CCoinsCacheEntry.unspent_eq_none {e : CCoinsCacheEntry} :
    e.unspent = none ↔ e.coin.isSpent = true := by
  unfold CCoinsCacheEntry.unspent
  split <;> simp_all

theorem CCoinsCacheEntry.unspent_of_isSpent_eq_false {e : CCoinsCacheEntry}
    (h : e.coin.isSpent = false) : e.unspent = some e.coin := by
  simp [CCoinsCacheEntry.unspent, h]

theorem CCoinsCacheEntry.isSpent_of_unspent_eq_some {e : CCoinsCacheEntry} {coin : Coin}
    (h : e.unspent = some coin) : coin.isSpent = false := by
  unfold CCoinsCacheEntry.unspent at h
  split at h
  · cases h
  · cases h
    simp_all

/-- The memory an entry counts in `cachedCoinsUsage`. -/
def entryUsage (_ : COutPoint) (e : CCoinsCacheEntry) : Nat := e.coin.dynamicMemoryUsage

/-- `CCoinsMap`. -/
abbrev CCoinsMap := AList fun _ : COutPoint => CCoinsCacheEntry

/-- The state of one `CCoinsViewCache`: `cacheCoins`, `hashBlock`, `cachedCoinsUsage`. -/
structure CoinsCacheLayer where
  cacheCoins : CCoinsMap
  hashBlock : Uint256
  cachedCoinsUsage : Nat

/-- `CCoinsViewDB`: the coins on disk and the best block. -/
structure CCoinsViewDB where
  coins : COutPoint → Option Coin
  bestBlock : Uint256

/-! ## The flat view of a stack -/

/-- The view a layer gives over its parent's: its entry's coin unless spent, or the
parent's answer where it has no entry. -/
def CoinsCacheLayer.view (c : CoinsCacheLayer) (parent : CCoinsViewCache) : CCoinsViewCache :=
  fun o => match c.cacheCoins.lookup o with
    | some e => e.unspent
    | none => parent o

/-- The view of the layers `cs`, top first, over the view `base`. -/
def stackView (cs : List CoinsCacheLayer) (base : CCoinsViewCache) : CCoinsViewCache :=
  cs.foldr CoinsCacheLayer.view base

namespace CoinsCacheLayer

variable {c : CoinsCacheLayer} {parent : CCoinsViewCache} {o : COutPoint}

theorem view_of_lookup_eq_some {e : CCoinsCacheEntry} (h : c.cacheCoins.lookup o = some e) :
    c.view parent o = e.unspent := by
  simp [view, h]

theorem view_of_lookup_eq_none (h : c.cacheCoins.lookup o = none) : c.view parent o = parent o := by
  simp [view, h]

/-- A layer's view at `o` reads its entry at `o` only. -/
theorem view_congr {d : CoinsCacheLayer} (h : c.cacheCoins.lookup o = d.cacheCoins.lookup o) :
    c.view parent o = d.view parent o := by
  simp only [view, h]

theorem view_insert (c : CoinsCacheLayer) (parent : CCoinsViewCache) (o o' : COutPoint)
    (e : CCoinsCacheEntry) (usage : Nat) :
    ({ c with cacheCoins := c.cacheCoins.insert o e, cachedCoinsUsage := usage } :
      CoinsCacheLayer).view parent o' = if o' = o then e.unspent else c.view parent o' := by
  by_cases h : o' = o
  · subst h
    simp [view, AList.lookup_insert]
  · simp [view, h]

theorem view_erase (c : CoinsCacheLayer) (parent : CCoinsViewCache) (o o' : COutPoint)
    (usage : Nat) :
    ({ c with cacheCoins := c.cacheCoins.erase o, cachedCoinsUsage := usage } :
      CoinsCacheLayer).view parent o' = if o' = o then parent o' else c.view parent o' := by
  by_cases h : o' = o
  · subst h
    simp [view, AList.lookup_erase]
  · simp [view, h]

@[simp] theorem view_setHashBlock (h : Uint256) : ({ c with hashBlock := h } : CoinsCacheLayer).view = c.view := rfl

/-- What a layer answers is the parent's answer or an unspent coin. -/
theorem view_isSpent (hparent : ∀ {coin}, parent o = some coin → coin.isSpent = false)
    {coin : Coin} (h : c.view parent o = some coin) : coin.isSpent = false := by
  cases hl : c.cacheCoins.lookup o with
  | none =>
    rw [view_of_lookup_eq_none hl] at h
    exact hparent h
  | some e =>
    rw [view_of_lookup_eq_some hl] at h
    exact CCoinsCacheEntry.isSpent_of_unspent_eq_some h

end CoinsCacheLayer

@[simp] theorem stackView_nil (base : CCoinsViewCache) : stackView [] base = base := rfl

@[simp] theorem stackView_cons (c : CoinsCacheLayer) (cs : List CoinsCacheLayer) (base : CCoinsViewCache) :
    stackView (c :: cs) base = c.view (stackView cs base) := rfl

theorem stackView_append (as bs : List CoinsCacheLayer) (base : CCoinsViewCache) :
    stackView (as ++ bs) base = stackView as (stackView bs base) :=
  List.foldr_append

/-! ## Reads -/

section

variable (db : CCoinsViewDB) (o : COutPoint)

/-- The end of `FetchCoin` once `base->GetCoin(outpoint, tmp)` has answered: no entry,
or `tmp` emplaced as a clean entry, fresh if spent, and its usage counted. -/
def emplaceFetched (c : CoinsCacheLayer) : Option Coin → Option CCoinsCacheEntry × CoinsCacheLayer
  | none => (none, c)
  | some tmp =>
    let e : CCoinsCacheEntry := ⟨tmp, false, tmp.isSpent⟩
    (some e, { c with
      cacheCoins := c.cacheCoins.insert o e
      cachedCoinsUsage := c.cachedCoinsUsage + tmp.dynamicMemoryUsage })

/-- `CCoinsViewCache::FetchCoin(outpoint)` of the layer `c` over the layers `ps`: the
entry, found or pulled up through `base->GetCoin`, and the layers as the call leaves
them. -/
def fetchCoin (c : CoinsCacheLayer) (ps : List CoinsCacheLayer) :
    Option CCoinsCacheEntry × CoinsCacheLayer × List CoinsCacheLayer :=
  match c.cacheCoins.lookup o with
  | some e => (some e, c, ps)
  | none =>
    -- `base->GetCoin(outpoint, tmp)`: the next layer's `GetCoin`, or the database's
    let r : Option Coin × List CoinsCacheLayer := match ps with
      | [] => (db.coins o, [])
      | p :: ps =>
        let r := fetchCoin p ps
        (r.1.bind CCoinsCacheEntry.unspent, r.2.1 :: r.2.2)
    let f := emplaceFetched o c r.1
    (f.1, f.2, r.2)

/-- `CCoinsViewCache::GetCoin(outpoint, coin)`: the coin when it returns `true`. -/
def getCoin (c : CoinsCacheLayer) (ps : List CoinsCacheLayer) :
    Option Coin × CoinsCacheLayer × List CoinsCacheLayer :=
  let r := fetchCoin db o c ps
  (r.1.bind CCoinsCacheEntry.unspent, r.2)

/-- `CCoinsViewCache::HaveCoin(outpoint)`. -/
def haveCoin (c : CoinsCacheLayer) (ps : List CoinsCacheLayer) :
    Bool × CoinsCacheLayer × List CoinsCacheLayer :=
  let r := fetchCoin db o c ps
  ((r.1.bind CCoinsCacheEntry.unspent).isSome, r.2)

/-- `CCoinsViewCache::AccessCoin(outpoint)`: the entry's coin, or `coinEmpty`. -/
def accessCoin (c : CoinsCacheLayer) (ps : List CoinsCacheLayer) :
    Coin × CoinsCacheLayer × List CoinsCacheLayer :=
  let r := fetchCoin db o c ps
  ((r.1.map (·.coin)).getD Coin.empty, r.2)

/-- `CCoinsViewCache::SpendCoin(outpoint, moveout)`: the coin moved out when it returns
`true`.  A fresh entry is erased; any other is marked dirty and cleared. -/
def spendCoin (c : CoinsCacheLayer) (ps : List CoinsCacheLayer) :
    Option Coin × CoinsCacheLayer × List CoinsCacheLayer :=
  match fetchCoin db o c ps with
  | (none, c, ps) => (none, c, ps)
  | (some e, c, ps) =>
    let usage := c.cachedCoinsUsage - e.coin.dynamicMemoryUsage
    if e.fresh then
      (some e.coin, { c with cacheCoins := c.cacheCoins.erase o, cachedCoinsUsage := usage }, ps)
    else
      (some e.coin, { c with
        cacheCoins := c.cacheCoins.insert o ⟨Coin.empty, true, e.fresh⟩
        cachedCoinsUsage := usage }, ps)

end

/-! ## Writes -/

/-- `CCoinsViewCache::AddCoin(outpoint, coin, possible_overwrite)`.  The entry is the one
there or a new one with a spent coin and no flags; without `possible_overwrite` it must
be spent, and a clean one makes the new entry fresh. -/
def addCoin (c : CoinsCacheLayer) (o : COutPoint) (coin : Coin) (possibleOverwrite : Bool) :
    Except String CoinsCacheLayer :=
  if coin.isSpent then throw "assert(!coin.IsSpent())"
  else if Script.isUnspendable coin.out.scriptPubKey then pure c
  else
    let old := (c.cacheCoins.lookup o).getD ⟨Coin.empty, false, false⟩
    let usage := c.cachedCoinsUsage - AList.measureAt entryUsage o c.cacheCoins
    if !possibleOverwrite && !old.coin.isSpent then
      throw "Adding new coin that replaces non-pruned entry"
    else
      let fresh := !possibleOverwrite && !old.dirty
      pure { c with
        cacheCoins := c.cacheCoins.insert o ⟨coin, true, old.fresh || fresh⟩
        cachedCoinsUsage := usage + coin.dynamicMemoryUsage }

/-- `CCoinsViewCache::Uncache(outpoint)`: an entry with no flags is dropped. -/
def uncache (c : CoinsCacheLayer) (o : COutPoint) : CoinsCacheLayer :=
  match c.cacheCoins.lookup o with
  | some e =>
    if !e.dirty && !e.fresh then
      { c with
        cacheCoins := c.cacheCoins.erase o
        cachedCoinsUsage := c.cachedCoinsUsage - e.coin.dynamicMemoryUsage }
    else c
  | none => c

/-- `CCoinsViewCache::SetBestBlock(hashBlock)`. -/
def setBestBlock (c : CoinsCacheLayer) (h : Uint256) : CoinsCacheLayer := { c with hashBlock := h }

/-- One entry of `CCoinsViewCache::BatchWrite`: the child's entry `e` at `o` written into
the parent `p`. -/
def batchWriteEntry (p : CoinsCacheLayer) (o : COutPoint) (e : CCoinsCacheEntry) :
    Except String CoinsCacheLayer :=
  if !e.dirty then pure p
  else
    match p.cacheCoins.lookup o with
    | none =>
      -- a fresh spent entry need not reach a parent without it
      if e.fresh && e.coin.isSpent then pure p
      else
        pure { p with
          cacheCoins := p.cacheCoins.insert o ⟨e.coin, true, e.fresh⟩
          cachedCoinsUsage := p.cachedCoinsUsage + e.coin.dynamicMemoryUsage }
    | some u =>
      if e.fresh && !u.coin.isSpent then
        throw "FRESH flag misapplied to cache entry for base transaction with spendable outputs"
      else if u.fresh && e.coin.isSpent then
        pure { p with
          cacheCoins := p.cacheCoins.erase o
          cachedCoinsUsage := p.cachedCoinsUsage - u.coin.dynamicMemoryUsage }
      else
        pure { p with
          cacheCoins := p.cacheCoins.insert o ⟨e.coin, true, u.fresh⟩
          cachedCoinsUsage := p.cachedCoinsUsage - u.coin.dynamicMemoryUsage +
            e.coin.dynamicMemoryUsage }

/-- `CCoinsViewCache::BatchWrite(mapCoins, hashBlockIn)`. -/
def batchWrite (p : CoinsCacheLayer) (mapCoins : CCoinsMap) (hashBlockIn : Uint256) :
    Except String CoinsCacheLayer := do
  let p ← mapCoins.entries.foldlM (fun p x => batchWriteEntry p x.1 x.2) p
  pure { p with hashBlock := hashBlockIn }

/-- The writes of `CCoinsViewDB::BatchWrite`: each dirty entry, erased when spent. -/
def dbWrites (mapCoins : CCoinsMap) : List (COutPoint × Option Coin) :=
  mapCoins.entries.filterMap fun x => if x.2.dirty then some (x.1, x.2.unspent) else none

/-- `CCoinsViewDB::BatchWrite(mapCoins, hashBlock)`, which asserts a best block. -/
def CCoinsViewDB.batchWrite (db : CCoinsViewDB) (mapCoins : CCoinsMap) (hashBlock : Uint256) :
    Except String CCoinsViewDB :=
  if hashBlock.isNull then throw "assert(!hashBlock.IsNull())"
  else pure ⟨Journal.applyWrites db.coins (dbWrites mapCoins), hashBlock⟩

/-- The layer `Flush` leaves: no entries, no usage. -/
def CoinsCacheLayer.cleared (c : CoinsCacheLayer) : CoinsCacheLayer :=
  { c with cacheCoins := ∅, cachedCoinsUsage := 0 }

/-- `CCoinsViewCache::Flush()` of the layer `c` over the layers `ps` and the database:
`base->BatchWrite(cacheCoins, hashBlock)`, then the cache emptied. -/
def flush (db : CCoinsViewDB) (c : CoinsCacheLayer) :
    List CoinsCacheLayer → Except String (CoinsCacheLayer × List CoinsCacheLayer × CCoinsViewDB)
  | [] => do
    let db ← db.batchWrite c.cacheCoins c.hashBlock
    pure (c.cleared, [], db)
  | p :: ps => do
    let p ← batchWrite p c.cacheCoins c.hashBlock
    pure (c.cleared, p :: ps, db)

/-! ## Stacks and their operations -/

/-- Caches stacked over the database, the top first. -/
structure CoinsStack where
  layers : List CoinsCacheLayer
  db : CCoinsViewDB

/-- The flat view of a stack. -/
def CoinsStack.view (s : CoinsStack) : CCoinsViewCache := stackView s.layers s.db.coins

/-- A call on layer `k` of a stack. -/
inductive CoinsOp where
  | addCoin (k : Nat) (o : COutPoint) (coin : Coin) (possibleOverwrite : Bool)
  | spendCoin (k : Nat) (o : COutPoint)
  | getCoin (k : Nat) (o : COutPoint)
  | haveCoin (k : Nat) (o : COutPoint)
  | accessCoin (k : Nat) (o : COutPoint)
  | uncache (k : Nat) (o : COutPoint)
  | setBestBlock (k : Nat) (h : Uint256)
  | flush (k : Nat)

/-- The call `f` on layer `k`, with the layers under it and the database. -/
def CoinsStack.atLayer (s : CoinsStack) (k : Nat)
    (f : CoinsCacheLayer → List CoinsCacheLayer →
      Except String (CoinsCacheLayer × List CoinsCacheLayer × CCoinsViewDB)) :
    Except String CoinsStack :=
  match s.layers.drop k with
  | [] => pure s
  | c :: ps => do
    let r ← f c ps
    pure ⟨s.layers.take k ++ r.1 :: r.2.1, r.2.2⟩

/-- One call on a stack; what a read answers is left out. -/
def CoinsStack.step (s : CoinsStack) : CoinsOp → Except String CoinsStack
  | .addCoin k o coin possibleOverwrite =>
    s.atLayer k fun c ps => do
      let c ← addCoin c o coin possibleOverwrite
      pure (c, ps, s.db)
  | .spendCoin k o => s.atLayer k fun c ps => pure ((spendCoin s.db o c ps).2.1, (spendCoin s.db o c ps).2.2, s.db)
  | .getCoin k o => s.atLayer k fun c ps => pure ((getCoin s.db o c ps).2.1, (getCoin s.db o c ps).2.2, s.db)
  | .haveCoin k o => s.atLayer k fun c ps => pure ((haveCoin s.db o c ps).2.1, (haveCoin s.db o c ps).2.2, s.db)
  | .accessCoin k o =>
    s.atLayer k fun c ps => pure ((accessCoin s.db o c ps).2.1, (accessCoin s.db o c ps).2.2, s.db)
  | .uncache k o => s.atLayer k fun c ps => pure (uncache c o, ps, s.db)
  | .setBestBlock k h => s.atLayer k fun c ps => pure (setBestBlock c h, ps, s.db)
  | .flush k => s.atLayer k fun c ps => flush s.db c ps

/-- The calls `ops` on a stack, one after another. -/
def CoinsStack.run (s : CoinsStack) (ops : List CoinsOp) : Except String CoinsStack :=
  ops.foldlM CoinsStack.step s

/-- `GetCoin` on the top layer of a stack. -/
def CoinsStack.getCoinTop (s : CoinsStack) (o : COutPoint) : Option Coin :=
  match s.layers with
  | [] => s.db.coins o
  | c :: ps => (getCoin s.db o c ps).1

/-- `Flush` of each of `n` layers, from the top down. -/
def flushOps (n : Nat) : List CoinsOp := (List.range n).map CoinsOp.flush

end Sumcoin
