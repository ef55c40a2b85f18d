import Sumcoin.Lib.Buffer
import Sumcoin.Lib.Simulation

/-!
# `prevector`: a vector that keeps its first `N` elements in place (`prevector.h`)

`prevector<N, T>` stores up to `N` elements in an array inside the object (direct mode) and
more on the heap (indirect mode).  One `uint32_t` field, `_size`, holds both the mode and
the count: the object is direct when `_size <= N`, and then holds `_size` elements;
otherwise it holds `_size - N - 1`.  `change_capacity` moves the elements between the two
buffers; every operation that grows the vector asks for one and a half times the new size.

The model keeps `_size` as a `UInt32` and each buffer as a list of slots (`Lib/Buffer.lean`);
a copy that runs past a buffer, or an iterator outside the elements, is undefined behaviour
and gives `none`.  Fresh heap memory and the zeroed direct array hold `T{}` (`default`), and
`T` is trivially destructible, so `erase` takes the branch that only subtracts from `_size`.

## Main definitions

* `Prevector`, and its operations under the source's names.
* `Prevector.Op`, `Prevector.step`: the operations as one step function, and `vecStep`, the
  same operations on a `std::vector`, here a list.

## Main statements

* `Prevector.step_refines`: from a state satisfying the invariant, every operation whose
  sizes fit the 32-bit arithmetic is defined, keeps the invariant and does to the elements
  what it does to a vector.
* `Prevector.run_refines`: the same for every run from the empty prevector.
-/

namespace Sumcoin

open Buffer

/-- The storage of a `prevector<N, T>`: `_size`, and the two views of `_union`, the direct
array of `N` slots and the heap array `indirect` with its `capacity`.  The union overlaps
them; the code reads only the view `is_direct()` selects and writes the other view before it
reads it, so two fields model it. -/
structure Prevector (N : UInt32) (T : Type) where
  _size : UInt32
  direct : List T
  indirect : List T
  unionCapacity : UInt32

namespace Prevector

variable {N : UInt32} {T : Type}

variable (N T) in
/-- `prevector()`: `_union = {}` and `_size = 0`. -/
def empty [Inhabited T] : Prevector N T := ⟨0, List.replicate N.toNat default, [], 0⟩

/-- `is_direct()`. -/
def is_direct (v : Prevector N T) : Bool := v._size ≤ N

/-- `size()`. -/
def size (v : Prevector N T) : UInt32 := if v.is_direct then v._size else v._size - N - 1

/-- `capacity()`. -/
def capacity (v : Prevector N T) : Nat := if v.is_direct then N.toNat else v.unionCapacity.toNat

/-- The buffer `item_ptr` points into. -/
def items (v : Prevector N T) : List T := if v.is_direct then v.direct else v.indirect

/-- The buffer `item_ptr` points into, replaced. -/
def setItems (v : Prevector N T) (buf : List T) : Prevector N T :=
  if v.is_direct then { v with direct := buf } else { v with indirect := buf }

/-- The elements, `[begin(), end())`. -/
def toList (v : Prevector N T) : List T := v.items.take v.size.toNat

/-- `fill(item_ptr(dst), ...)`: `vals` written into the active buffer from `dst`. -/
def fillItems (v : Prevector N T) (dst : Nat) (vals : List T) : Option (Prevector N T) := do
  let buf ← write v.items dst vals
  pure (v.setItems buf)

/-- `memmove(item_ptr(dst), item_ptr(src), len)`. -/
def moveItems (v : Prevector N T) (dst src len : Nat) : Option (Prevector N T) := do
  let buf ← move v.items dst src len
  pure (v.setItems buf)

/-- `change_capacity(new_capacity)`: to the direct array when it is large enough, else to a
heap array of `new_capacity` slots, reallocated in place when already on the heap. -/
def change_capacity [Inhabited T] (v : Prevector N T) (new_capacity : UInt32) : Option (Prevector N T) :=
  if new_capacity ≤ N then
    if !v.is_direct then do
      -- `memcpy(direct_ptr(0), indirect_ptr(0), size() * sizeof(T)); free(indirect);`
      let src ← read v.indirect 0 v.size.toNat
      let direct ← write v.direct 0 src
      pure { v with direct := direct, _size := v._size - (N + 1) }
    else pure v
  else if !v.is_direct then
    pure { v with indirect := realloc v.indirect new_capacity.toNat default, unionCapacity := new_capacity }
  else do
    -- `malloc`, then `memcpy(new_indirect, direct_ptr(0), size() * sizeof(T))`
    let src ← read v.direct 0 v.size.toNat
    let indirect ← write (List.replicate new_capacity.toNat default) 0 src
    pure { v with indirect := indirect, unionCapacity := new_capacity, _size := v._size + (N + 1) }

/-- `erase(first, last)` for a trivially destructible `T`: `_size -= last - first`, then
the elements after `last` moved down. -/
def erase (v : Prevector N T) (first last : Nat) : Option (Prevector N T) :=
  if first ≤ last ∧ last ≤ v.size.toNat then do
    let endp := v.size.toNat
    let v ← v.moveItems first last (endp - last)
    pure { v with _size := v._size - (last - first).toUInt32 }
  else none

/-- `resize(new_size)`: shrinking erases, growing fills with `T{}`. -/
def resize [Inhabited T] (v : Prevector N T) (new_size : UInt32) : Option (Prevector N T) :=
  let cur_size := v.size
  if cur_size = new_size then pure v
  else if cur_size > new_size then v.erase new_size.toNat cur_size.toNat
  else do
    let v ← if new_size.toNat > v.capacity then v.change_capacity new_size else pure v
    let increase := new_size - cur_size
    let v ← v.fillItems cur_size.toNat (List.replicate increase.toNat default)
    pure { v with _size := v._size + increase }

/-- `clear()`. -/
def clear [Inhabited T] (v : Prevector N T) : Option (Prevector N T) := v.resize 0

/-- `assign(n, val)`. -/
def assign [Inhabited T] (v : Prevector N T) (n : UInt32) (val : T) : Option (Prevector N T) := do
  let v ← v.clear
  let v ← if v.capacity < n.toNat then v.change_capacity n else pure v
  let v := { v with _size := v._size + n }
  v.fillItems 0 (List.replicate n.toNat val)

/-- `assign(first, last)`: `n = last - first`, truncated to `size_type`. -/
def assignRange [Inhabited T] (v : Prevector N T) (vals : List T) : Option (Prevector N T) := do
  let n : UInt32 := vals.length.toUInt32
  let v ← v.clear
  let v ← if v.capacity < n.toNat then v.change_capacity n else pure v
  let v := { v with _size := v._size + n }
  v.fillItems 0 vals

/-- `reserve(new_capacity)`. -/
def reserve [Inhabited T] (v : Prevector N T) (new_capacity : UInt32) : Option (Prevector N T) :=
  if new_capacity.toNat > v.capacity then v.change_capacity new_capacity else pure v

/-- `shrink_to_fit()`. -/
def shrink_to_fit [Inhabited T] (v : Prevector N T) : Option (Prevector N T) := v.change_capacity v.size

/-- `if (capacity() < new_size) change_capacity(new_size + (new_size >> 1));`, the growth
step every insertion begins with. -/
def grow [Inhabited T] (v : Prevector N T) (new_size : UInt32) : Option (Prevector N T) :=
  if v.capacity < new_size.toNat then v.change_capacity (new_size + (new_size >>> 1)) else pure v

/-- `insert(pos, value)`, with `p = pos - begin()`. -/
def insert [Inhabited T] (v : Prevector N T) (p : Nat) (value : T) : Option (Prevector N T) :=
  if p ≤ v.size.toNat then do
    let new_size := v.size + 1
    let v ← v.grow new_size
    let v ← v.moveItems (p + 1) p (v.size.toNat - p)
    -- the element is constructed at `ptr`, taken before `_size++`
    let v ← v.fillItems p [value]
    pure { v with _size := v._size + 1 }
  else none

/-- `insert(pos, count, value)`. -/
def insertCount [Inhabited T] (v : Prevector N T) (p : Nat) (count : UInt32) (value : T) : Option (Prevector N T) :=
  if p ≤ v.size.toNat then do
    let new_size := v.size + count
    let v ← v.grow new_size
    let v ← v.moveItems (p + count.toNat) p (v.size.toNat - p)
    let v := { v with _size := v._size + count }
    v.fillItems p (List.replicate count.toNat value)
  else none

/-- `insert(pos, first, last)`: `count = last - first` is a `difference_type`, an `int32_t`;
from `2^31` elements on it is negative and the copy runs backwards out of the buffer. -/
def insertRange [Inhabited T] (v : Prevector N T) (p : Nat) (vals : List T) : Option (Prevector N T) :=
  if p ≤ v.size.toNat ∧ vals.length < 2 ^ 31 then do
    let count : UInt32 := vals.length.toUInt32
    let new_size := v.size + count
    let v ← v.grow new_size
    let v ← v.moveItems (p + count.toNat) p (v.size.toNat - p)
    -- `fill(ptr, first, last)` with `ptr` taken before `_size += count`
    let v ← v.fillItems p vals
    pure { v with _size := v._size + count }
  else none

/-- `resize_uninitialized(new_size)`: the new slots keep what the buffer held. -/
def resize_uninitialized [Inhabited T] (v : Prevector N T) (new_size : UInt32) : Option (Prevector N T) :=
  if v.capacity < new_size.toNat then do
    let v ← v.change_capacity new_size
    pure { v with _size := v._size + (new_size - v.size) }
  else if new_size < v.size then v.erase new_size.toNat v.size.toNat
  else pure { v with _size := v._size + (new_size - v.size) }

/-- `emplace_back(value)`, which `push_back(value)` calls. -/
def emplace_back [Inhabited T] (v : Prevector N T) (value : T) : Option (Prevector N T) := do
  let new_size := v.size + 1
  let v ← v.grow new_size
  let v ← v.fillItems v.size.toNat [value]
  pure { v with _size := v._size + 1 }

/-- `push_back(value)`. -/
def push_back [Inhabited T] (v : Prevector N T) (value : T) : Option (Prevector N T) := v.emplace_back value

/-- `pop_back()`: `erase(end() - 1, end())`, undefined on an empty prevector. -/
def pop_back (v : Prevector N T) : Option (Prevector N T) :=
  if v.size = 0 then none else v.erase (v.size.toNat - 1) v.size.toNat

/-- `(*this)[pos] = value`. -/
def set (v : Prevector N T) (pos : Nat) (value : T) : Option (Prevector N T) := v.fillItems pos [value]

/-- `prevector(const prevector& other)`. -/
def copy [Inhabited T] (other : Prevector N T) : Option (Prevector N T) := do
  let n := other.size
  let v ← (empty N T).change_capacity n
  let v := { v with _size := v._size + n }
  v.fillItems 0 other.toList

/-- `swap(other)`: the two objects exchange `_union` and `_size`. -/
def swap (v other : Prevector N T) : Prevector N T × Prevector N T := (other, v)

/-! ## Operations as one step -/

/-- The operations of a run.  The last three take a second prevector: copy construction,
copy assignment, and `swap`, which move construction and move assignment call. -/
inductive Op (N : UInt32) (T : Type) where
  | push_back (value : T)
  | emplace_back (value : T)
  | pop_back
  | insert (pos : Nat) (value : T)
  | insertCount (pos : Nat) (count : UInt32) (value : T)
  | insertRange (pos : Nat) (vals : List T)
  | erase (first last : Nat)
  | resize (new_size : UInt32)
  /-- `resize_uninitialized(new_size)`, then the new slots written with `init`. -/
  | resizeUninitialized (new_size : UInt32) (init : List T)
  | reserve (new_capacity : UInt32)
  | shrink_to_fit
  | clear
  | assign (n : UInt32) (value : T)
  | assignRange (vals : List T)
  | set (pos : Nat) (value : T)
  | copyConstruct (other : Prevector N T)
  | copyAssign (other : Prevector N T)
  | swap (other : Prevector N T)

/-- One operation on the prevector. -/
def step [Inhabited T] (v : Prevector N T) : Op N T → Option (Prevector N T)
  | .push_back value => v.push_back value
  | .emplace_back value => v.emplace_back value
  | .pop_back => v.pop_back
  | .insert p value => v.insert p value
  | .insertCount p count value => v.insertCount p count value
  | .insertRange p vals => v.insertRange p vals
  | .erase first last => v.erase first last
  | .resize new_size => v.resize new_size
  | .resizeUninitialized new_size init => do
    let start := v.size.toNat
    let v ← v.resize_uninitialized new_size
    v.fillItems start init
  | .reserve new_capacity => v.reserve new_capacity
  | .shrink_to_fit => v.shrink_to_fit
  | .clear => v.clear
  | .assign n value => v.assign n value
  | .assignRange vals => v.assignRange vals
  | .set p value => v.set p value
  | .copyConstruct other => other.copy
  -- `operator=(const prevector&)`: `assign(other.begin(), other.end())`
  | .copyAssign other => v.assignRange other.toList
  | .swap other => some (v.swap other).1

/-- The same operation on a `std::vector`. -/
def vecStep [Inhabited T] (xs : List T) : Op N T → List T
  | .push_back value => xs ++ [value]
  | .emplace_back value => xs ++ [value]
  | .pop_back => xs.dropLast
  | .insert p value => xs.take p ++ value :: xs.drop p
  | .insertCount p count value => xs.take p ++ List.replicate count.toNat value ++ xs.drop p
  | .insertRange p vals => xs.take p ++ vals ++ xs.drop p
  | .erase first last => xs.take first ++ xs.drop last
  | .resize new_size => xs.take new_size.toNat ++ List.replicate (new_size.toNat - xs.length) default
  | .resizeUninitialized new_size init => xs.take new_size.toNat ++ init
  | .reserve _ => xs
  | .shrink_to_fit => xs
  | .clear => []
  | .assign n value => List.replicate n.toNat value
  | .assignRange vals => vals
  | .set p value => xs.set p value
  | .copyConstruct other => other.toList
  | .copyAssign other => other.toList
  | .swap other => other.toList

/-! ## The representation -/

theorem is_direct_eq_true_iff (v : Prevector N T) : v.is_direct = true ↔ v._size.toNat ≤ N.toNat := by
  simp [is_direct, UInt32.le_iff_toNat_le]

theorem is_direct_eq_false_iff (v : Prevector N T) : v.is_direct = false ↔ N.toNat < v._size.toNat := by
  simp [is_direct, UInt32.le_iff_toNat_le]

theorem toNat_size_of_direct {v : Prevector N T} (h : v.is_direct = true) : v.size.toNat = v._size.toNat := by
  simp [size, h]

theorem toNat_size_of_indirect {v : Prevector N T} (h : v.is_direct = false) :
    v.size.toNat = v._size.toNat - N.toNat - 1 := by
  have hlt := (is_direct_eq_false_iff v).mp h
  have h1 : N ≤ v._size := UInt32.le_iff_toNat_le.mpr (by omega)
  have h2 : (1 : UInt32) ≤ v._size - N := UInt32.le_iff_toNat_le.mpr (by
    rw [UInt32.toNat_sub_of_le _ _ h1, UInt32.toNat_one]; omega)
  rw [size, h, if_neg Bool.false_ne_true, UInt32.toNat_sub_of_le _ _ h2, UInt32.toNat_sub_of_le _ _ h1,
    UInt32.toNat_one]

theorem capacity_of_direct {v : Prevector N T} (h : v.is_direct = true) : v.capacity = N.toNat := by
  simp [capacity, h]

theorem capacity_of_indirect {v : Prevector N T} (h : v.is_direct = false) :
    v.capacity = v.unionCapacity.toNat := by
  simp [capacity, h]

theorem items_of_direct {v : Prevector N T} (h : v.is_direct = true) : v.items = v.direct := by
  simp [items, h]

theorem items_of_indirect {v : Prevector N T} (h : v.is_direct = false) : v.items = v.indirect := by
  simp [items, h]

/-- The state of two objects with the same `_size` is read the same way. -/
theorem is_direct_congr {v w : Prevector N T} (h : w._size = v._size) : w.is_direct = v.is_direct := by
  simp [is_direct, h]

theorem size_congr {v w : Prevector N T} (h : w._size = v._size) : w.size = v.size := by
  simp [size, is_direct, h]

theorem capacity_congr {v w : Prevector N T} (h : w._size = v._size) (hc : w.unionCapacity = v.unionCapacity) :
    w.capacity = v.capacity := by
  simp [capacity, is_direct, h, hc]

/-- **The representation invariant**: the direct array has its `N` slots; in indirect mode the
heap array has `capacity` slots, more than `N`, and holds the elements. -/
structure Inv (v : Prevector N T) : Prop where
  direct_length : v.direct.length = N.toNat
  indirect_length : v.is_direct = false → v.indirect.length = v.unionCapacity.toNat
  capacity_gt : v.is_direct = false → N.toNat < v.unionCapacity.toNat
  size_le : v.is_direct = false → v.size.toNat ≤ v.unionCapacity.toNat

/-- In direct mode the invariant asks only for the direct array's `N` slots. -/
theorem Inv.of_direct {v : Prevector N T} (h : v.is_direct = true) (hd : v.direct.length = N.toNat) : Inv v where
  direct_length := hd
  indirect_length h' := by simp [h] at h'
  capacity_gt h' := by simp [h] at h'
  size_le h' := by simp [h] at h'

instance (v : Prevector N T) : Decidable (Inv v) :=
  decidable_of_iff (v.direct.length = N.toNat ∧ (v.is_direct = false → v.indirect.length = v.unionCapacity.toNat) ∧
      (v.is_direct = false → N.toNat < v.unionCapacity.toNat) ∧
      (v.is_direct = false → v.size.toNat ≤ v.unionCapacity.toNat))
    ⟨fun ⟨a, b, c, d⟩ => ⟨a, b, c, d⟩, fun ⟨a, b, c, d⟩ => ⟨a, b, c, d⟩⟩

variable {v : Prevector N T}

theorem Inv.length_items (hv : Inv v) : v.items.length = v.capacity := by
  cases h : v.is_direct
  · rw [items_of_indirect h, capacity_of_indirect h, hv.indirect_length h]
  · rw [items_of_direct h, capacity_of_direct h, hv.direct_length]

theorem Inv.size_le_capacity (hv : Inv v) : v.size.toNat ≤ v.capacity := by
  cases h : v.is_direct
  · rw [capacity_of_indirect h]
    exact hv.size_le h
  · rw [toNat_size_of_direct h, capacity_of_direct h]
    exact (is_direct_eq_true_iff v).mp h

theorem Inv.capacity_ge (hv : Inv v) : N.toNat ≤ v.capacity := by
  cases h : v.is_direct
  · rw [capacity_of_indirect h]
    exact (hv.capacity_gt h).le
  · rw [capacity_of_direct h]

theorem Inv.length_toList (hv : Inv v) : v.toList.length = v.size.toNat := by
  rw [toList, List.length_take, hv.length_items]
  exact min_eq_left hv.size_le_capacity

theorem getElem?_toList (v : Prevector N T) (i : Nat) :
    v.toList[i]? = if i < v.size.toNat then v.items[i]? else none :=
  List.getElem?_take

theorem getElem?_toList_of_lt {i : Nat} (h : i < v.size.toNat) : v.toList[i]? = v.items[i]? := by
  rw [getElem?_toList, if_pos h]

/-- The elements are the slots below the size: two objects agreeing there hold the same. -/
theorem toList_congr {w : Prevector N T} (hv : Inv v) (hs : w.size.toNat = v.size.toNat)
    (h : ∀ i < v.size.toNat, w.items[i]? = v.items[i]?) : w.toList = v.toList := by
  apply take_eq_of_getElem? (by rw [hv.length_toList, hs])
  intro i hi
  rw [hs] at hi
  rw [h i hi, getElem?_toList_of_lt hi]

/-- `_size` is a `uint32_t`, so in heap mode `size() + N + 1` fits in one; in direct mode it
does when `N < 2^31`. -/
theorem size_add_lt (v : Prevector N T) (hN : N.toNat < 2 ^ 31) : v.size.toNat + N.toNat + 1 < 2 ^ 32 := by
  cases h : v.is_direct
  · have := (is_direct_eq_false_iff v).mp h
    have := v._size.toNat_lt
    rw [toNat_size_of_indirect h]
    omega
  · have := (is_direct_eq_true_iff v).mp h
    rw [toNat_size_of_direct h]
    omega

/-! ## Writing the active buffer -/

@[simp] theorem _size_setItems (buf : List T) : (v.setItems buf)._size = v._size := by
  unfold setItems
  split <;> rfl

@[simp] theorem unionCapacity_setItems (buf : List T) : (v.setItems buf).unionCapacity = v.unionCapacity := by
  unfold setItems
  split <;> rfl

@[simp] theorem items_setItems (buf : List T) : (v.setItems buf).items = buf := by
  unfold setItems
  cases h : v.is_direct
  · rw [if_neg Bool.false_ne_true]
    exact items_of_indirect h
  · rw [if_pos rfl]
    exact items_of_direct h

theorem Inv.setItems (hv : Inv v) {buf : List T} (hlen : buf.length = v.items.length) : Inv (v.setItems buf) := by
  have hd : (v.setItems buf).is_direct = v.is_direct := is_direct_congr (_size_setItems buf)
  have hs : (v.setItems buf).size = v.size := size_congr (_size_setItems buf)
  unfold Prevector.setItems at hd hs ⊢
  cases h : v.is_direct
  · rw [if_neg (by simp [h])] at hd hs ⊢
    rw [h] at hd
    refine ⟨hv.direct_length, fun _ => ?_, fun _ => hv.capacity_gt h, fun _ => hs ▸ hv.size_le h⟩
    rw [← hv.indirect_length h, hlen, items_of_indirect h]
  · rw [if_pos (by simp [h])] at hd hs ⊢
    rw [h] at hd
    exact Inv.of_direct hd (by rw [hlen, items_of_direct h, hv.direct_length])

/-- `fill` within the capacity succeeds, changes the slots it writes and keeps the rest of
the state. -/
theorem fillItems_eq_some (hv : Inv v) (dst : Nat) (vals : List T) (h : dst + vals.length ≤ v.capacity) :
    ∃ v', v.fillItems dst vals = some v' ∧ Inv v' ∧ v'.size = v.size ∧ v'.capacity = v.capacity ∧
      ∀ i, v'.items[i]? = if dst ≤ i ∧ i < dst + vals.length then vals[i - dst]? else v.items[i]? := by
  obtain ⟨buf, hbuf⟩ : ∃ buf, write v.items dst vals = some buf :=
    ⟨_, write_eq_some (by rw [hv.length_items]; exact h)⟩
  refine ⟨v.setItems buf, by simp [fillItems, hbuf], hv.setItems (length_of_write hbuf),
    size_congr (_size_setItems buf), capacity_congr (_size_setItems buf) (unionCapacity_setItems buf), ?_⟩
  intro i
  rw [items_setItems]
  exact getElem?_of_write hbuf i

/-- `memmove` within the capacity succeeds and keeps the rest of the state. -/
theorem moveItems_eq_some (hv : Inv v) (dst src len : Nat) (hs : src + len ≤ v.capacity)
    (hd : dst + len ≤ v.capacity) :
    ∃ v', v.moveItems dst src len = some v' ∧ Inv v' ∧ v'.size = v.size ∧ v'.capacity = v.capacity ∧
      ∀ i, v'.items[i]? = if dst ≤ i ∧ i < dst + len then v.items[src + (i - dst)]? else v.items[i]? := by
  obtain ⟨buf, hbuf⟩ := @move_eq_some _ v.items _ _ _ (by rw [hv.length_items]; exact hs)
    (by rw [hv.length_items]; exact hd)
  refine ⟨v.setItems buf, by simp [moveItems, hbuf], hv.setItems (length_of_move hbuf),
    size_congr (_size_setItems buf), capacity_congr (_size_setItems buf) (unionCapacity_setItems buf), ?_⟩
  intro i
  rw [items_setItems]
  exact getElem?_of_move hbuf i

/-! ## Changing `_size` -/

theorem toNat_add_of_lt {a b : UInt32} (h : a.toNat + b.toNat < 2 ^ 32) :
    (a + b).toNat = a.toNat + b.toNat := by
  rw [UInt32.toNat_add, Nat.mod_eq_of_lt h]

/-- Two objects in the same mode with the same buffers point `item_ptr` at the same slots. -/
theorem items_congr {v w : Prevector N T} (h : w.is_direct = v.is_direct) (hd : w.direct = v.direct)
    (hi : w.indirect = v.indirect) : w.items = v.items := by
  simp [items, h, hd, hi]

theorem capacity_congr' {v w : Prevector N T} (h : w.is_direct = v.is_direct)
    (hc : w.unionCapacity = v.unionCapacity) : w.capacity = v.capacity := by
  simp [capacity, h, hc]

/-- **Adding to `_size`** within the capacity, where the heap-mode count cannot wrap, keeps the
mode and adds to `size()`. -/
theorem Inv.addSize (hv : Inv v) {k : UInt32} (hk : v.size.toNat + k.toNat ≤ v.capacity)
    (hroom : v.size.toNat + k.toNat + N.toNat + 1 < 2 ^ 32) :
    Inv ({ v with _size := v._size + k } : Prevector N T) ∧
      ({ v with _size := v._size + k } : Prevector N T).is_direct = v.is_direct ∧
      ({ v with _size := v._size + k } : Prevector N T).size.toNat = v.size.toNat + k.toNat := by
  have hN := N.toNat_lt
  cases h : v.is_direct
  · have hs := toNat_size_of_indirect h
    have hlt := (is_direct_eq_false_iff v).mp h
    have hsum : (v._size + k).toNat = v._size.toNat + k.toNat := toNat_add_of_lt (by omega)
    have h' : ({ v with _size := v._size + k } : Prevector N T).is_direct = false :=
      (is_direct_eq_false_iff _).mpr (by simp only; omega)
    have hs' := toNat_size_of_indirect h'
    simp only at hs'
    rw [capacity_of_indirect h] at hk
    refine ⟨⟨hv.direct_length, fun _ => hv.indirect_length h, fun _ => hv.capacity_gt h, fun _ => ?_⟩, h', ?_⟩
    · simp only
      rw [hs']; omega
    · rw [hs']; omega
  · have hs := toNat_size_of_direct h
    have hle := (is_direct_eq_true_iff v).mp h
    rw [capacity_of_direct h] at hk
    have hsum : (v._size + k).toNat = v._size.toNat + k.toNat := toNat_add_of_lt (by omega)
    have h' : ({ v with _size := v._size + k } : Prevector N T).is_direct = true :=
      (is_direct_eq_true_iff _).mpr (by simp only; omega)
    have hs' := toNat_size_of_direct h'
    simp only at hs'
    refine ⟨Inv.of_direct h' hv.direct_length, h', ?_⟩
    rw [hs']; omega

/-- **Subtracting from `_size`** at most the elements there are keeps the mode. -/
theorem Inv.subSize (hv : Inv v) {k : UInt32} (hk : k.toNat ≤ v.size.toNat) :
    Inv ({ v with _size := v._size - k } : Prevector N T) ∧
      ({ v with _size := v._size - k } : Prevector N T).is_direct = v.is_direct ∧
      ({ v with _size := v._size - k } : Prevector N T).size.toNat = v.size.toNat - k.toNat := by
  cases h : v.is_direct
  · have hs := toNat_size_of_indirect h
    have hlt := (is_direct_eq_false_iff v).mp h
    have hdiff : (v._size - k).toNat = v._size.toNat - k.toNat :=
      UInt32.toNat_sub_of_le _ _ (UInt32.le_iff_toNat_le.mpr (by omega))
    have h' : ({ v with _size := v._size - k } : Prevector N T).is_direct = false :=
      (is_direct_eq_false_iff _).mpr (by simp only; omega)
    have hs' := toNat_size_of_indirect h'
    simp only at hs'
    have hcap := hv.size_le h
    refine ⟨⟨hv.direct_length, fun _ => hv.indirect_length h, fun _ => hv.capacity_gt h, fun _ => ?_⟩, h', ?_⟩
    · simp only
      rw [hs']; omega
    · rw [hs']; omega
  · have hs := toNat_size_of_direct h
    have hle := (is_direct_eq_true_iff v).mp h
    have hdiff : (v._size - k).toNat = v._size.toNat - k.toNat :=
      UInt32.toNat_sub_of_le _ _ (UInt32.le_iff_toNat_le.mpr (by omega))
    have h' : ({ v with _size := v._size - k } : Prevector N T).is_direct = true :=
      (is_direct_eq_true_iff _).mpr (by simp only; omega)
    have hs' := toNat_size_of_direct h'
    simp only at hs'
    refine ⟨Inv.of_direct h' hv.direct_length, h', ?_⟩
    rw [hs']; omega

/-! ## Removal -/

/-- **`erase(first, last)`** removes the elements of `[first, last)` and keeps the capacity. -/
theorem erase_spec (hv : Inv v) {first last : Nat} (h1 : first ≤ last) (h2 : last ≤ v.size.toNat) :
    ∃ v', v.erase first last = some v' ∧ Inv v' ∧ v'.toList = v.toList.take first ++ v.toList.drop last ∧
      v'.capacity = v.capacity := by
  have hcap := hv.size_le_capacity
  have hlt := v.size.toNat_lt
  obtain ⟨v1, hm, hv1, hs1, hc1, hitems1⟩ :=
    moveItems_eq_some hv first last (v.size.toNat - last) (by omega) (by omega)
  have hk : (last - first).toUInt32.toNat = last - first := by simp; omega
  obtain ⟨hv2, hdir2, hs2⟩ := hv1.subSize (k := (last - first).toUInt32) (by rw [hk, hs1]; omega)
  refine ⟨{ v1 with _size := v1._size - (last - first).toUInt32 }, ?_, hv2, ?_, ?_⟩
  · simp only [erase, if_pos (And.intro h1 h2), hm, Option.bind_eq_bind, Option.bind_some]
    rfl
  · rw [hk, hs1] at hs2
    apply take_eq_of_getElem? (by
      rw [length_eraseRange h1 (by rw [hv.length_toList]; exact h2), hv.length_toList, hs2])
    intro i hi
    rw [hs2] at hi
    rw [items_congr hdir2 rfl rfl, hitems1 i, getElem?_eraseRange h1 (by rw [hv.length_toList]; exact h2)]
    split_ifs with hwin hlo hlo
    · omega
    · rw [getElem?_toList_of_lt (by omega)]
    · rw [getElem?_toList_of_lt (by omega)]
    · omega
  · rw [capacity_congr' hdir2 rfl, hc1]

/-- **`pop_back`** on a non-empty prevector drops the last element. -/
theorem pop_back_spec (hv : Inv v) (h0 : v.size.toNat ≠ 0) :
    ∃ v', v.pop_back = some v' ∧ Inv v' ∧ v'.toList = v.toList.dropLast := by
  obtain ⟨v', he, hv', hl, -⟩ := erase_spec hv (Nat.sub_le v.size.toNat 1) le_rfl
  refine ⟨v', ?_, hv', ?_⟩
  · rw [pop_back, if_neg (fun h => h0 (by rw [h]; rfl)), he]
  · rw [hl, List.dropLast_eq_take, hv.length_toList, List.drop_eq_nil_of_le (by rw [hv.length_toList]),
      List.append_nil]

/-- **`(*this)[pos] = value`** replaces the element at `p`. -/
theorem set_spec (hv : Inv v) {p : Nat} (hp : p < v.size.toNat) (value : T) :
    ∃ v', v.set p value = some v' ∧ Inv v' ∧ v'.toList = v.toList.set p value := by
  have hcap := hv.size_le_capacity
  obtain ⟨v', hf, hv', hs', -, hitems'⟩ := fillItems_eq_some hv p [value] (by simp; omega)
  refine ⟨v', hf, hv', ?_⟩
  apply take_eq_of_getElem? (by rw [List.length_set, hv.length_toList, hs'])
  intro i hi
  rw [hs'] at hi
  rw [hitems' i, List.getElem?_set, hv.length_toList]
  by_cases hpi : p = i
  · subst hpi
    simp [hp]
  · rw [if_neg (by simp; omega), if_neg hpi, getElem?_toList_of_lt hi]

/-- A prevector of `size() + |vals|` elements whose slots hold `vals` from `size()` on and, below,
what a buffer `w` holds, where `w` agrees with `v` on its elements, has the elements of `v`
followed by `vals`. -/
theorem toList_eq_append {u w : Prevector N T} (hv : Inv v) {vals : List T}
    (hu : u.size.toNat = v.size.toNat + vals.length)
    (hslots : ∀ i, u.items[i]? =
      if v.size.toNat ≤ i ∧ i < v.size.toNat + vals.length then vals[i - v.size.toNat]? else w.items[i]?)
    (hitems : ∀ i < v.size.toNat, w.items[i]? = v.items[i]?) : u.toList = v.toList ++ vals := by
  have hlen := hv.length_toList
  apply take_eq_of_getElem? (by rw [List.length_append, hlen, hu])
  intro i hi
  rw [hu] at hi
  rw [hslots i]
  -- `vals` goes in at the end: the gap of an insertion at `size()`, with nothing above it
  have hfill := @getElem?_fill_gap T v.toList vals w.items v.size.toNat i (by omega) (by omega)
    (fun j hj => by rw [hitems j hj, getElem?_toList_of_lt hj]) (fun j hlo hhi => by omega)
  rwa [List.take_of_length_le hlen.le, List.drop_of_length_le hlen.le, List.append_nil] at hfill

/-- Raising `_size` by `|init|`, then writing `init` over the new slots: the end of
`resize_uninitialized` with the writes that follow it, and of `assign`. -/
theorem bump_fill_spec {w : Prevector N T} (hv : Inv v) (hw : Inv w) (hs : w.size.toNat = v.size.toNat)
    (hitems : ∀ i < v.size.toNat, w.items[i]? = v.items[i]?) (init : List T) {k : UInt32}
    (hk : k.toNat = init.length) (hcap : v.size.toNat + init.length ≤ w.capacity)
    (hroom : v.size.toNat + init.length + N.toNat + 1 < 2 ^ 32) :
    ∃ v', ({ w with _size := w._size + k } : Prevector N T).fillItems v.size.toNat init = some v' ∧
      Inv v' ∧ v'.toList = v.toList ++ init := by
  obtain ⟨hw1, hdir1, hs1⟩ := hw.addSize (k := k) (by omega) (by omega)
  have hc1 := capacity_congr' hdir1 rfl
  obtain ⟨v', hf, hv', hs', hc', hitems'⟩ := fillItems_eq_some hw1 v.size.toNat init (by omega)
  refine ⟨v', hf, hv', toList_eq_append hv (by rw [hs', hs1, hk, hs]) ?_ hitems⟩
  intro i
  rw [hitems' i, items_congr hdir1 rfl rfl]

/-- Writing `vals` over the slots after the elements, then raising `_size` by as many: the end
of a growing `resize`. -/
theorem fill_bump_spec {w : Prevector N T} (hv : Inv v) (hw : Inv w) (hs : w.size.toNat = v.size.toNat)
    (hitems : ∀ i < v.size.toNat, w.items[i]? = v.items[i]?) (vals : List T) {k : UInt32}
    (hk : k.toNat = vals.length) (hcap : v.size.toNat + vals.length ≤ w.capacity)
    (hroom : v.size.toNat + vals.length + N.toNat + 1 < 2 ^ 32) :
    ∃ w', w.fillItems v.size.toNat vals = some w' ∧ Inv ({ w' with _size := w'._size + k } : Prevector N T) ∧
      ({ w' with _size := w'._size + k } : Prevector N T).toList = v.toList ++ vals ∧
      ({ w' with _size := w'._size + k } : Prevector N T).capacity = w.capacity := by
  obtain ⟨w', hf, hw', hs', hc', hitems'⟩ := fillItems_eq_some hw v.size.toNat vals (by omega)
  obtain ⟨hw1, hdir1, hs1⟩ := hw'.addSize (k := k) (by rw [hs', hc']; omega) (by rw [hs']; omega)
  refine ⟨w', hf, hw1, toList_eq_append hv (by rw [hs1, hs', hs, hk]) ?_ hitems, by rw [capacity_congr' hdir1 rfl, hc']⟩
  intro i
  rw [items_congr hdir1 rfl rfl, hitems' i]

/-! ## `change_capacity` -/

variable [Inhabited T]

section ChangeCapacity

variable (hN : N.toNat < 2 ^ 31)

include hN in
/-- From the heap to the direct array: `memcpy` of the elements, and `_size -= N + 1`. -/
theorem change_capacity_to_direct (hv : Inv v) (h : v.is_direct = false) {c : UInt32} (hcN : c ≤ N)
    (hc : v.size.toNat ≤ c.toNat) :
    ∃ v', v.change_capacity c = some v' ∧ Inv v' ∧ v'.is_direct = true ∧ v'.size.toNat = v.size.toNat ∧
      ∀ i < v.size.toNat, v'.items[i]? = v.items[i]? := by
  have hs := toNat_size_of_indirect h
  have hlt := (is_direct_eq_false_iff v).mp h
  have hsN : v.size.toNat ≤ N.toNat := hc.trans (UInt32.le_iff_toNat_le.mp hcN)
  have hsl : v.size.toNat ≤ v.indirect.length := (hv.indirect_length h).symm ▸ hv.size_le h
  obtain ⟨d, hd⟩ : ∃ d, write v.direct 0 (v.indirect.take v.size.toNat) = some d :=
    ⟨_, write_eq_some (by rw [List.length_take, hv.direct_length]; omega)⟩
  have hN1 : (N + 1).toNat = N.toNat + 1 := toNat_add_of_lt (by simp; omega)
  have hsub : (v._size - (N + 1)).toNat = v._size.toNat - (N.toNat + 1) :=
    hN1 ▸ UInt32.toNat_sub_of_le _ _ (UInt32.le_iff_toNat_le.mpr (by omega))
  have hdir : ({ v with direct := d, _size := v._size - (N + 1) } : Prevector N T).is_direct = true :=
    (is_direct_eq_true_iff _).mpr (by simp only; omega)
  refine ⟨{ v with direct := d, _size := v._size - (N + 1) }, ?_, ?_, hdir, ?_, ?_⟩
  · simp [change_capacity, hcN, h, read_zero hsl, hd]
  · exact Inv.of_direct hdir (by rw [length_of_write hd, hv.direct_length])
  · rw [toNat_size_of_direct hdir]
    simp only
    omega
  · intro i hi
    rw [items_of_direct hdir, items_of_indirect h]
    exact getElem?_of_write_take hd hsl hi

include hN in
/-- From the direct array to a fresh heap array of `c` slots: `malloc`, `memcpy` of the
elements, and `_size += N + 1`. -/
theorem change_capacity_to_heap (hv : Inv v) (h : v.is_direct = true) {c : UInt32} (hcN : N < c) :
    ∃ v', v.change_capacity c = some v' ∧ Inv v' ∧ v'.is_direct = false ∧ v'.unionCapacity = c ∧
      v'.size.toNat = v.size.toNat ∧ ∀ i < v.size.toNat, v'.items[i]? = v.items[i]? := by
  have hs := toNat_size_of_direct h
  have hle := (is_direct_eq_true_iff v).mp h
  have hc := UInt32.lt_iff_toNat_lt.mp hcN
  have hsl : v.size.toNat ≤ v.direct.length := by rw [hv.direct_length]; omega
  obtain ⟨b, hb⟩ : ∃ b, write (List.replicate c.toNat default) 0 (v.direct.take v.size.toNat) = some b :=
    ⟨_, write_eq_some (by rw [List.length_take, List.length_replicate]; omega)⟩
  have hN1 : (N + 1).toNat = N.toNat + 1 := toNat_add_of_lt (by simp; omega)
  have hadd : (v._size + (N + 1)).toNat = v._size.toNat + (N.toNat + 1) := by
    rw [toNat_add_of_lt (by omega), hN1]
  have hind : ({ v with indirect := b, unionCapacity := c, _size := v._size + (N + 1) } :
      Prevector N T).is_direct = false := (is_direct_eq_false_iff _).mpr (by simp only; omega)
  have hs' := toNat_size_of_indirect hind
  simp only at hs'
  refine ⟨{ v with indirect := b, unionCapacity := c, _size := v._size + (N + 1) }, ?_, ?_, hind, rfl, ?_, ?_⟩
  · simp [change_capacity, UInt32.not_le.mpr hcN, h, read_zero hsl, hb]
  · refine ⟨hv.direct_length, fun _ => ?_, fun _ => hc, fun _ => ?_⟩
    · simp only
      rw [length_of_write hb, List.length_replicate]
    · simp only
      omega
  · omega
  · intro i hi
    rw [items_of_indirect hind, items_of_direct h]
    exact getElem?_of_write_take hb hsl hi

/-- On the heap, to a heap array of `c` slots: `realloc`. -/
theorem change_capacity_realloc (hv : Inv v) (h : v.is_direct = false) {c : UInt32} (hcN : N < c)
    (hc : v.size.toNat ≤ c.toNat) :
    ∃ v', v.change_capacity c = some v' ∧ Inv v' ∧ v'.is_direct = false ∧ v'.unionCapacity = c ∧
      v'.size.toNat = v.size.toNat ∧ ∀ i < v.size.toNat, v'.items[i]? = v.items[i]? := by
  have hsl : v.size.toNat ≤ v.indirect.length := (hv.indirect_length h).symm ▸ hv.size_le h
  have hind : ({ v with indirect := realloc v.indirect c.toNat default, unionCapacity := c } :
      Prevector N T).is_direct = false := h
  refine ⟨{ v with indirect := realloc v.indirect c.toNat default, unionCapacity := c }, ?_, ?_, hind, rfl,
    rfl, ?_⟩
  · simp [change_capacity, UInt32.not_le.mpr hcN, h]
  · refine ⟨hv.direct_length, fun _ => length_realloc _ _ _, fun _ => UInt32.lt_iff_toNat_lt.mp hcN,
      fun _ => hc⟩
  · intro i hi
    rw [items_of_indirect hind, items_of_indirect h]
    exact getElem?_realloc_of_lt _ _ (by omega) (by omega)

include hN in
/-- **`change_capacity`** to a capacity that holds the elements succeeds, keeps the
invariant and the elements, and ends with capacity `N` or `c`, whichever the branch picks. -/
theorem change_capacity_spec (hv : Inv v) {c : UInt32} (hc : v.size.toNat ≤ c.toNat) :
    ∃ v', v.change_capacity c = some v' ∧ Inv v' ∧ v'.size.toNat = v.size.toNat ∧
      v'.capacity = (if c ≤ N then N.toNat else c.toNat) ∧ ∀ i < v.size.toNat, v'.items[i]? = v.items[i]? := by
  by_cases hcN : c ≤ N
  · rw [if_pos hcN]
    cases h : v.is_direct
    · obtain ⟨v', h1, hinv, hdir, hs, hitems⟩ := change_capacity_to_direct hN hv h hcN hc
      exact ⟨v', h1, hinv, hs, capacity_of_direct hdir, hitems⟩
    · refine ⟨v, by simp [change_capacity, hcN, h], hv, rfl, capacity_of_direct h, fun _ _ => rfl⟩
  · rw [if_neg hcN]
    have hlt : N < c := UInt32.not_le.mp hcN
    cases h : v.is_direct
    · obtain ⟨v', h1, hinv, hind, hcap, hs, hitems⟩ := change_capacity_realloc hv h hlt hc
      exact ⟨v', h1, hinv, hs, by rw [capacity_of_indirect hind, hcap], hitems⟩
    · obtain ⟨v', h1, hinv, hind, hcap, hs, hitems⟩ := change_capacity_to_heap hN hv h hlt
      exact ⟨v', h1, hinv, hs, by rw [capacity_of_indirect hind, hcap], hitems⟩

/-! ## Growth -/

/-- The 32-bit arithmetic of an insertion that ends at `n` elements does not wrap: the capacity
`new_size + (new_size >> 1)` it may ask for, and the heap-mode `_size = n + N + 1`, fit in a
`uint32_t`. -/
def GrowthFits (N : UInt32) (n : Nat) : Prop := n + n / 2 < 2 ^ 32 ∧ n + N.toNat + 1 < 2 ^ 32

instance (N : UInt32) (n : Nat) : Decidable (GrowthFits N n) := inferInstanceAs (Decidable (_ ∧ _))

theorem toNat_add_shiftRight_one {n : UInt32} (h : n.toNat + n.toNat / 2 < 2 ^ 32) :
    (n + (n >>> 1)).toNat = n.toNat + n.toNat / 2 := by
  rw [toNat_add_of_lt (by rw [UInt32.toNat_shiftRight]; simpa [Nat.shiftRight_eq_div_pow] using h),
    UInt32.toNat_shiftRight]
  simp [Nat.shiftRight_eq_div_pow]

include hN in
/-- **The growth step**: when the elements fit in `n` and `n + n / 2` does not wrap, the
capacity afterwards holds `n` elements, and the elements are kept. -/
theorem grow_spec (hv : Inv v) {n : UInt32} (hn : v.size.toNat ≤ n.toNat) (hroom : n.toNat + n.toNat / 2 < 2 ^ 32) :
    ∃ v', v.grow n = some v' ∧ Inv v' ∧ v'.size.toNat = v.size.toNat ∧ n.toNat ≤ v'.capacity ∧
      ∀ i < v.size.toNat, v'.items[i]? = v.items[i]? := by
  by_cases hcap : v.capacity < n.toNat
  · have hc := toNat_add_shiftRight_one hroom
    obtain ⟨v', h1, hinv, hs, hcap', hitems⟩ := change_capacity_spec hN hv (c := n + (n >>> 1)) (by omega)
    refine ⟨v', by rw [grow, if_pos hcap, h1], hinv, hs, ?_, hitems⟩
    -- the request exceeds the old capacity, which is at least `N`, so it leaves the direct array
    have hgt : ¬ n + (n >>> 1) ≤ N := by
      rw [UInt32.le_iff_toNat_le, hc]
      have := hv.capacity_ge
      omega
    rw [hcap', if_neg hgt, hc]
    omega
  · exact ⟨v, by rw [grow, if_neg hcap]; rfl, hv, rfl, by omega, fun _ _ => rfl⟩

/-! ## Insertion at the end -/

include hN in
/-- **`emplace_back`** appends the element. -/
theorem emplace_back_spec (hv : Inv v) (hfit : GrowthFits N (v.size.toNat + 1)) (value : T) :
    ∃ v', v.emplace_back value = some v' ∧ Inv v' ∧ v'.toList = v.toList ++ [value] := by
  obtain ⟨hfit1, hfit2⟩ := hfit
  have hsize : (v.size + 1).toNat = v.size.toNat + 1 := toNat_add_of_lt (by simp; omega)
  obtain ⟨v1, hg, hv1, hs1, hcap1, hitems1⟩ :=
    grow_spec hN hv (n := v.size + 1) (by omega) (by rw [hsize]; exact hfit1)
  obtain ⟨v2, hf, hv2, hs2, hc2, hitems2⟩ :=
    fillItems_eq_some hv1 v1.size.toNat [value] (by simp; omega)
  obtain ⟨hv3, hdir3, hs3⟩ := hv2.addSize (k := 1) (by simp [hs2, hc2]; omega) (by simp [hs2]; omega)
  refine ⟨{ v2 with _size := v2._size + 1 }, by simp [emplace_back, hg, hf], hv3, ?_⟩
  apply take_eq_of_getElem? (by simp [hv.length_toList, hs3, hs2, hs1])
  intro i hi
  rw [hs3, hs2, hs1, UInt32.toNat_one] at hi
  rw [items_congr hdir3 rfl rfl, hitems2 i, hs1, List.getElem?_append, hv.length_toList]
  split_ifs with h1 h2 h2
  · omega
  · rfl
  · rw [hitems1 i h2, getElem?_toList_of_lt h2]
  · simp at h1; omega

/-! ## Insertion in the middle -/

include hN in
/-- **The first half of an insertion** of `k` elements at `p`: grow for `size + k`, then
`memmove` the elements from `p` on up by `k`.  Below `p` and from `p + k` on, the slots hold the
elements; the gap between is the caller's to fill. -/
theorem grow_open_gap (hv : Inv v) {p : Nat} (k : UInt32) (hp : p ≤ v.size.toNat)
    (hfit : GrowthFits N (v.size.toNat + k.toNat)) :
    ∃ v1 v2, v.grow (v.size + k) = some v1 ∧ v1.moveItems (p + k.toNat) p (v1.size.toNat - p) = some v2 ∧
      Inv v2 ∧ v2.size.toNat = v.size.toNat ∧ v.size.toNat + k.toNat ≤ v2.capacity ∧
      (∀ i < p, v2.items[i]? = v.toList[i]?) ∧
      (∀ i, p + k.toNat ≤ i → i < v.size.toNat + k.toNat → v2.items[i]? = v.toList[i - k.toNat]?) := by
  obtain ⟨hfit1, hfit2⟩ := hfit
  have hsize : (v.size + k).toNat = v.size.toNat + k.toNat := toNat_add_of_lt (by omega)
  obtain ⟨v1, hg, hv1, hs1, hcap1, hitems1⟩ := grow_spec hN hv (n := v.size + k) (by omega) (by rw [hsize]; exact hfit1)
  obtain ⟨v2, hm, hv2, hs2, hc2, hitems2⟩ :=
    moveItems_eq_some hv1 (p + k.toNat) p (v1.size.toNat - p) (by omega) (by omega)
  refine ⟨v1, v2, hg, hm, hv2, by rw [hs2, hs1], by omega, fun i hi => ?_, fun i hlo hhi => ?_⟩
  · rw [hitems2 i, if_neg (by omega), hitems1 i (by omega), getElem?_toList_of_lt (by omega)]
  · rw [hitems2 i, if_pos ⟨hlo, by omega⟩, hitems1 _ (by omega), getElem?_toList_of_lt (by omega)]
    congr 1
    omega

include hN in
/-- **`insert(pos, first, last)`** inserts the range at `p`. -/
theorem insertRange_spec (hv : Inv v) {p : Nat} (hp : p ≤ v.size.toNat) (vals : List T)
    (h31 : vals.length < 2 ^ 31) (hfit : GrowthFits N (v.size.toNat + vals.length)) :
    ∃ v', v.insertRange p vals = some v' ∧ Inv v' ∧ v'.toList = v.toList.take p ++ vals ++ v.toList.drop p := by
  have hk : vals.length.toUInt32.toNat = vals.length := by simp; omega
  obtain ⟨v1, v2, hg, hm, hv2, hs2, hc2, hlow, hhigh⟩ :=
    grow_open_gap hN hv vals.length.toUInt32 hp (by rw [hk]; exact hfit)
  rw [hk] at hm hc2 hhigh
  obtain ⟨v3, hf, hv3, hs3, hc3, hitems3⟩ := fillItems_eq_some hv2 p vals (by omega)
  obtain ⟨hv4, hdir4, hs4⟩ := hv3.addSize (k := vals.length.toUInt32) (by rw [hk, hs3, hc3]; omega)
    (by rw [hk, hs3, hs2]; exact hfit.2)
  refine ⟨{ v3 with _size := v3._size + vals.length.toUInt32 }, ?_, hv4, ?_⟩
  · simp only [insertRange, if_pos (And.intro hp h31), hk, hg, hm, hf, Option.bind_eq_bind, Option.bind_some]
    rfl
  · rw [hk, hs3, hs2] at hs4
    apply take_eq_of_getElem? (by rw [length_insertAt (by rw [hv.length_toList]; exact hp), hv.length_toList, hs4])
    intro i hi
    rw [hs4] at hi
    rw [items_congr hdir4 rfl rfl, hitems3 i]
    exact getElem?_fill_gap (by rw [hv.length_toList]; exact hp) (by rw [hv.length_toList]; exact hi) hlow
      (by rw [hv.length_toList]; exact hhigh)

/-- `insert(pos, value)` is `insert(pos, first, last)` of the one element. -/
theorem insert_eq_insertRange (p : Nat) (value : T) : v.insert p value = v.insertRange p [value] := by
  simp [insert, insertRange]

include hN in
/-- **`insert(pos, value)`** inserts the element at `p`. -/
theorem insert_spec (hv : Inv v) {p : Nat} (hp : p ≤ v.size.toNat) (hfit : GrowthFits N (v.size.toNat + 1))
    (value : T) : ∃ v', v.insert p value = some v' ∧ Inv v' ∧ v'.toList = v.toList.take p ++ value :: v.toList.drop p := by
  rw [insert_eq_insertRange]
  obtain ⟨v', h, hv', hl⟩ := insertRange_spec hN hv hp [value] (by simp) hfit
  exact ⟨v', h, hv', by rw [hl, List.append_assoc, List.singleton_append]⟩

include hN in
/-- **`insert(pos, count, value)`** inserts `count` copies at `p`; the size is raised before the
gap is filled. -/
theorem insertCount_spec (hv : Inv v) {p : Nat} (hp : p ≤ v.size.toNat) {count : UInt32}
    (hfit : GrowthFits N (v.size.toNat + count.toNat)) (value : T) :
    ∃ v', v.insertCount p count value = some v' ∧ Inv v' ∧
      v'.toList = v.toList.take p ++ List.replicate count.toNat value ++ v.toList.drop p := by
  obtain ⟨v1, v2, hg, hm, hv2, hs2, hc2, hlow, hhigh⟩ := grow_open_gap hN hv count hp hfit
  obtain ⟨hv3, hdir3, hs3⟩ := hv2.addSize (k := count) (by omega) (by rw [hs2]; exact hfit.2)
  have hc3 := capacity_congr' hdir3 rfl
  obtain ⟨v4, hf, hv4, hs4, hc4, hitems4⟩ :=
    fillItems_eq_some hv3 p (List.replicate count.toNat value) (by rw [List.length_replicate, hc3]; omega)
  refine ⟨v4, ?_, hv4, ?_⟩
  · simp only [insertCount, if_pos hp, hg, hm, Option.bind_eq_bind, Option.bind_some]
    exact hf
  · have hsize : v4.size.toNat = v.size.toNat + count.toNat := by rw [hs4, hs3, hs2]
    apply take_eq_of_getElem? (by
      rw [length_insertAt (by rw [hv.length_toList]; exact hp), hv.length_toList, hsize, List.length_replicate])
    intro i hi
    rw [hsize] at hi
    rw [hitems4 i, items_congr hdir3 rfl rfl]
    exact getElem?_fill_gap (by rw [hv.length_toList]; exact hp) (by simpa [hv.length_toList] using hi)
      (by simpa using hlow) (by simpa [hv.length_toList] using hhigh)

/-- **`clear()`** empties the prevector and keeps the capacity. -/
theorem clear_spec (hv : Inv v) : ∃ v', v.clear = some v' ∧ Inv v' ∧ v'.size.toNat = 0 ∧ v'.capacity = v.capacity := by
  by_cases h0 : v.size = 0
  · refine ⟨v, by simp [clear, resize, h0], hv, by rw [h0]; rfl, rfl⟩
  · have hpos : 0 < v.size.toNat := by
      rcases Nat.eq_zero_or_pos v.size.toNat with h | h
      · exact absurd (UInt32.toNat_inj.mp h) h0
      · exact h
    obtain ⟨v', he, hv', hl, hc⟩ := erase_spec hv (Nat.zero_le v.size.toNat) le_rfl
    refine ⟨v', ?_, hv', ?_, hc⟩
    · rw [clear, resize, if_neg h0, if_pos (UInt32.lt_iff_toNat_lt.mpr (by simpa using hpos) : (0 : UInt32) < v.size)]
      exact he
    · rw [← hv'.length_toList, hl, List.take_zero, List.nil_append, List.drop_eq_nil_of_le (by rw [hv.length_toList]),
        List.length_nil]

/-! ## Resizing and reassignment -/

include hN in
/-- **`reserve(new_capacity)`** keeps the elements and leaves room for `new_capacity`. -/
theorem reserve_spec (hv : Inv v) (c : UInt32) :
    ∃ v', v.reserve c = some v' ∧ Inv v' ∧ v'.size.toNat = v.size.toNat ∧ v'.capacity = max v.capacity c.toNat ∧
      ∀ i < v.size.toNat, v'.items[i]? = v.items[i]? := by
  by_cases hcap : c.toNat > v.capacity
  · have hle := hv.size_le_capacity
    obtain ⟨v', h1, hinv, hs, hcap', hitems⟩ := change_capacity_spec hN hv (c := c) (by omega)
    refine ⟨v', by rw [reserve, if_pos hcap, h1], hinv, hs, ?_, hitems⟩
    -- a request above the capacity, which is at least `N`, goes to the heap
    have hgt : ¬ c ≤ N := fun h => by have := UInt32.le_iff_toNat_le.mp h; have := hv.capacity_ge; omega
    rw [hcap', if_neg hgt]
    omega
  · exact ⟨v, by rw [reserve, if_neg hcap]; rfl, hv, rfl, by omega, fun _ _ => rfl⟩

include hN in
/-- **`shrink_to_fit()`** keeps the elements and sets the capacity to the size, or to `N` when
they fit in the direct array. -/
theorem shrink_to_fit_spec (hv : Inv v) :
    ∃ v', v.shrink_to_fit = some v' ∧ Inv v' ∧ v'.toList = v.toList ∧
      v'.capacity = (if v.size ≤ N then N.toNat else v.size.toNat) := by
  obtain ⟨v', h1, hinv, hs, hcap, hitems⟩ := change_capacity_spec hN hv (c := v.size) le_rfl
  exact ⟨v', h1, hinv, toList_congr hv hs hitems, hcap⟩

include hN in
/-- **`resize(new_size)`** truncates, or pads with `T{}`. -/
theorem resize_spec (hv : Inv v) {n : UInt32} (hroom : n.toNat + N.toNat + 1 < 2 ^ 32) :
    ∃ v', v.resize n = some v' ∧ Inv v' ∧
      v'.toList = v.toList.take n.toNat ++ List.replicate (n.toNat - v.toList.length) default ∧
      v'.capacity = max v.capacity n.toNat := by
  have hlen := hv.length_toList
  have hcapv := hv.size_le_capacity
  rcases Nat.lt_trichotomy v.size.toNat n.toNat with hlt | heq | hgt
  · -- growing: room for `n`, then `T{}` written after the elements
    have hinc : (n - v.size).toNat = n.toNat - v.size.toNat :=
      UInt32.toNat_sub_of_le _ _ (UInt32.le_iff_toNat_le.mpr hlt.le)
    obtain ⟨v1, hr, hv1, hs1, hcap1, hitems1⟩ := reserve_spec hN hv n
    obtain ⟨w', hf, hw', hl, hc'⟩ := fill_bump_spec hv hv1 hs1 hitems1
      (List.replicate (n - v.size).toNat default) (k := n - v.size) (by simp) (by simp; omega) (by simp; omega)
    refine ⟨_, ?_, hw', ?_, by rw [hc', hcap1]⟩
    · have hne : v.size ≠ n := fun h => by rw [h] at hlt; omega
      have hng : ¬ v.size > n := fun h => by have := UInt32.lt_iff_toNat_lt.mp h; omega
      -- the bind after the capacity check stands in both of its branches
      simp only [resize, if_neg hne, if_neg hng]
      unfold reserve at hr
      split_ifs at hr ⊢
      · simp only [hr, hf, Option.bind_eq_bind, Option.bind_some]
        rfl
      · obtain rfl : v = v1 := Option.some.inj hr
        simp only [hf, Option.bind_eq_bind, Option.pure_def, Option.bind_some]
    · rw [hl, List.take_of_length_le (by omega), hinc, hlen]
  · have heq' : v.size = n := UInt32.toNat_inj.mp heq
    refine ⟨v, by simp [resize, heq'], hv, ?_, by omega⟩
    rw [← heq, ← hlen, List.take_length, Nat.sub_self, List.replicate_zero, List.append_nil]
  · -- shrinking: the elements from `n` on erased
    obtain ⟨v', he, hv', hl, hc'⟩ := erase_spec hv hgt.le le_rfl
    refine ⟨v', ?_, hv', ?_, by omega⟩
    · have hne : v.size ≠ n := fun h => by rw [h] at hgt; omega
      rw [resize, if_neg hne, if_pos (UInt32.lt_iff_toNat_lt.mpr hgt)]
      exact he
    · rw [hl, List.drop_of_length_le hlen.le, Nat.sub_eq_zero_of_le (by omega), List.replicate_zero]

include hN in
/-- **`resize_uninitialized(new_size)`, then the new slots written**: truncates, or appends
what is written. -/
theorem resizeUninitialized_spec (hv : Inv v) {n : UInt32} (hroom : n.toNat + N.toNat + 1 < 2 ^ 32)
    {init : List T} (hinit : init.length = n.toNat - v.size.toNat) :
    ∃ v', v.step (.resizeUninitialized n init) = some v' ∧ Inv v' ∧ v'.toList = v.toList.take n.toNat ++ init := by
  have hlen := hv.length_toList
  have hcapv := hv.size_le_capacity
  by_cases hcap : v.capacity < n.toNat
  · -- a larger heap array first
    obtain ⟨v1, hc, hv1, hs1, hcap1, hitems1⟩ := change_capacity_spec hN hv (c := n) (by omega)
    have hgt : ¬ n ≤ N := fun h => by have := UInt32.le_iff_toNat_le.mp h; have := hv.capacity_ge; omega
    rw [if_neg hgt] at hcap1
    obtain ⟨v', hf, hv', hl⟩ := bump_fill_spec hv hv1 hs1 hitems1 init (k := n - v1.size)
      (by rw [UInt32.toNat_sub_of_le _ _ (UInt32.le_iff_toNat_le.mpr (by omega)), hs1]; omega) (by omega) (by omega)
    refine ⟨v', ?_, hv', by rw [hl, List.take_of_length_le (by omega)]⟩
    simp only [step, resize_uninitialized, if_pos hcap, hc, Option.bind_eq_bind, Option.bind_some, Option.pure_def]
    exact hf
  · by_cases hlt : n < v.size
    · -- shrinking: nothing is written
      have hlt' := UInt32.lt_iff_toNat_lt.mp hlt
      obtain rfl : init = [] := List.eq_nil_of_length_eq_zero (by omega)
      obtain ⟨v1, he, hv1, hl1, hc1⟩ := erase_spec hv hlt'.le le_rfl
      obtain ⟨v2, hf, hv2, hs2, hc2, hitems2⟩ := fillItems_eq_some hv1 v.size.toNat [] (by simp; omega)
      refine ⟨v2, ?_, hv2, ?_⟩
      · simp only [step, resize_uninitialized, if_neg hcap, if_pos hlt, he, Option.bind_eq_bind,
          Option.bind_some]
        exact hf
      · have hitems : v2.items = v1.items := List.ext_getElem? fun i => by rw [hitems2 i]; simp
        calc v2.toList = v1.toList := by rw [toList, toList, hs2, hitems]
          _ = v.toList.take n.toNat ++ [] := by rw [hl1, List.drop_of_length_le hlen.le]
    · -- growing within the capacity
      have hge : v.size.toNat ≤ n.toNat := by have := UInt32.lt_iff_toNat_lt.not.mp hlt; omega
      obtain ⟨v', hf, hv', hl⟩ := bump_fill_spec hv hv rfl (fun _ _ => rfl) init (k := n - v.size)
        (by rw [UInt32.toNat_sub_of_le _ _ (UInt32.le_iff_toNat_le.mpr hge)]; omega) (by omega) (by omega)
      refine ⟨v', ?_, hv', by rw [hl, List.take_of_length_le (by omega)]⟩
      simp only [step, resize_uninitialized, if_neg hcap, if_neg hlt, Option.bind_eq_bind, Option.bind_some,
        Option.pure_def]
      exact hf

include hN in
/-- **`assign(first, last)`**: the elements become the range. -/
theorem assignRange_spec (hv : Inv v) (vals : List T) (hroom : vals.length + N.toNat + 1 < 2 ^ 32) :
    ∃ v', v.assignRange vals = some v' ∧ Inv v' ∧ v'.toList = vals := by
  have hk : vals.length.toUInt32.toNat = vals.length := by simp; omega
  obtain ⟨v1, hc, hv1, hs1, -⟩ := clear_spec hv
  obtain ⟨v2, hr, hv2, hs2, hcap2, hitems2⟩ := reserve_spec hN hv1 vals.length.toUInt32
  obtain ⟨v', hf, hv', hl⟩ := bump_fill_spec hv1 hv2 hs2 hitems2 vals hk (by omega) (by omega)
  rw [hs1] at hf
  refine ⟨v', ?_, hv', ?_⟩
  · simp only [assignRange, hc, Option.bind_eq_bind, Option.bind_some]
    -- the bind after the capacity check stands in both of its branches
    unfold reserve at hr
    split_ifs at hr ⊢
    · simp only [hr, Option.bind_some]
      exact hf
    · obtain rfl : v1 = v2 := Option.some.inj hr
      exact hf
  · have h0 : v1.toList = [] := List.eq_nil_of_length_eq_zero (by rw [hv1.length_toList, hs1])
    rw [hl, h0, List.nil_append]

/-- `assign(n, val)` is `assign(first, last)` of `n` copies of `val`. -/
theorem assign_eq_assignRange (n : UInt32) (val : T) : v.assign n val = v.assignRange (List.replicate n.toNat val) := by
  simp [assign, assignRange]

include hN in
/-- **`assign(n, val)`**: the elements become `n` copies of `val`. -/
theorem assign_spec (hv : Inv v) {n : UInt32} (hroom : n.toNat + N.toNat + 1 < 2 ^ 32) (val : T) :
    ∃ v', v.assign n val = some v' ∧ Inv v' ∧ v'.toList = List.replicate n.toNat val := by
  rw [assign_eq_assignRange]
  exact assignRange_spec hN hv _ (by rw [List.length_replicate]; exact hroom)

/-! ## The empty prevector and copies -/

theorem is_direct_empty : (empty N T).is_direct = true := (is_direct_eq_true_iff _).mpr (by simp [empty])

theorem size_empty : (empty N T).size = 0 := by
  rw [size, is_direct_empty, if_pos rfl]
  rfl

theorem capacity_empty : (empty N T).capacity = N.toNat := capacity_of_direct is_direct_empty

theorem inv_empty : Inv (empty N T) := Inv.of_direct is_direct_empty (by simp [empty])

theorem toList_empty : (empty N T).toList = [] := by simp [toList, size_empty]

include hN in
/-- **`prevector(const prevector& other)`** holds the elements of `other`. -/
theorem copy_spec {other : Prevector N T} (ho : Inv other) :
    ∃ v', other.copy = some v' ∧ Inv v' ∧ v'.toList = other.toList := by
  have hlen := ho.length_toList
  have hroom := other.size_add_lt hN
  obtain ⟨v1, hc, hv1, hs1, hcap1, hitems1⟩ :=
    change_capacity_spec hN (inv_empty (T := T)) (c := other.size) (by simp [size_empty])
  have hcap : other.size.toNat ≤ v1.capacity := by
    rw [hcap1]
    split_ifs with h
    · exact UInt32.le_iff_toNat_le.mp h
    · exact le_rfl
  obtain ⟨v', hf, hv', hl⟩ := bump_fill_spec (inv_empty (T := T)) hv1 hs1 hitems1 other.toList (k := other.size) hlen.symm
    (by simp [size_empty, hlen, hcap]) (by simp [size_empty, hlen]; omega)
  refine ⟨v', ?_, hv', by rw [hl, toList_empty, List.nil_append]⟩
  rw [size_empty, UInt32.toNat_zero] at hf
  simp only [copy, hc, Option.bind_eq_bind, Option.bind_some]
  exact hf

/-! ## Where the 32-bit arithmetic breaks -/

/-- `change_capacity` to the direct array when the elements do not fit there: the `memcpy`
runs past the `N` slots. -/
theorem change_capacity_eq_none (hv : Inv v) {c : UInt32} (hc : c ≤ N) (hs : N.toNat < v.size.toNat) :
    v.change_capacity c = none := by
  have h : v.is_direct = false := by
    cases h : v.is_direct
    · rfl
    · have := toNat_size_of_direct h
      have := (is_direct_eq_true_iff v).mp h
      omega
  have hsl : v.size.toNat ≤ v.indirect.length := (hv.indirect_length h).symm ▸ hv.size_le h
  have hw : write v.direct 0 (v.indirect.take v.size.toNat) = none :=
    write_eq_none (by rw [List.length_take, hv.direct_length]; omega)
  simp [change_capacity, hc, h, read_zero hsl, hw]

/-- **The growth step wraps**: when `new_size + (new_size >> 1)` overflows to a capacity the
direct array can take, `emplace_back` on a full heap prevector of more than `N` elements
copies them into the `N` slots. -/
theorem emplace_back_eq_none (hv : Inv v) (hfull : v.capacity = v.size.toNat) (hsz : v.size.toNat + 1 < 2 ^ 32)
    (hwrap : v.size + 1 + ((v.size + 1) >>> (1 : UInt32)) ≤ N) (hs : N.toNat < v.size.toNat) (value : T) :
    v.emplace_back value = none := by
  have hcap : v.capacity < (v.size + 1).toNat := by
    rw [toNat_add_of_lt (by simp; omega), UInt32.toNat_one]
    omega
  simp only [emplace_back, grow, if_pos hcap, change_capacity_eq_none hv hwrap hs, Option.bind_eq_bind,
    Option.bind_none]

end ChangeCapacity

/-! ## Refinement of `std::vector` -/

/-- What an operation asks of the vector it is applied to: the positions it names lie in the
vector, a second prevector it reads is well formed, and the sizes it reaches fit the 32-bit
arithmetic, for the insertions with the growth step's one and a half times the new size. -/
def Fits (N : UInt32) (xs : List T) : Op N T → Prop
  | .push_back _ => GrowthFits N (xs.length + 1)
  | .emplace_back _ => GrowthFits N (xs.length + 1)
  | .pop_back => 0 < xs.length
  | .insert p _ => p ≤ xs.length ∧ GrowthFits N (xs.length + 1)
  | .insertCount p count _ => p ≤ xs.length ∧ GrowthFits N (xs.length + count.toNat)
  | .insertRange p vals => p ≤ xs.length ∧ vals.length < 2 ^ 31 ∧ GrowthFits N (xs.length + vals.length)
  | .erase first last => first ≤ last ∧ last ≤ xs.length
  | .resize new_size => new_size.toNat + N.toNat + 1 < 2 ^ 32
  | .resizeUninitialized new_size init =>
    new_size.toNat + N.toNat + 1 < 2 ^ 32 ∧ init.length = new_size.toNat - xs.length
  | .reserve _ => True
  | .shrink_to_fit => True
  | .clear => True
  | .assign n _ => n.toNat + N.toNat + 1 < 2 ^ 32
  | .assignRange vals => vals.length + N.toNat + 1 < 2 ^ 32
  | .set p _ => p < xs.length
  | .copyConstruct other => Inv other
  | .copyAssign other => Inv other
  | .swap other => Inv other

instance (N : UInt32) (xs : List T) : (op : Op N T) → Decidable (Fits N xs op)
  | .push_back _ => inferInstanceAs (Decidable (GrowthFits N (xs.length + 1)))
  | .emplace_back _ => inferInstanceAs (Decidable (GrowthFits N (xs.length + 1)))
  | .pop_back => inferInstanceAs (Decidable (0 < xs.length))
  | .insert p _ => inferInstanceAs (Decidable (p ≤ xs.length ∧ GrowthFits N (xs.length + 1)))
  | .insertCount p count _ => inferInstanceAs (Decidable (p ≤ xs.length ∧ GrowthFits N (xs.length + count.toNat)))
  | .insertRange p vals =>
    inferInstanceAs (Decidable (p ≤ xs.length ∧ vals.length < 2 ^ 31 ∧ GrowthFits N (xs.length + vals.length)))
  | .erase first last => inferInstanceAs (Decidable (first ≤ last ∧ last ≤ xs.length))
  | .resize new_size => inferInstanceAs (Decidable (new_size.toNat + N.toNat + 1 < 2 ^ 32))
  | .resizeUninitialized new_size init =>
    inferInstanceAs (Decidable (new_size.toNat + N.toNat + 1 < 2 ^ 32 ∧ init.length = new_size.toNat - xs.length))
  | .reserve _ => inferInstanceAs (Decidable True)
  | .shrink_to_fit => inferInstanceAs (Decidable True)
  | .clear => inferInstanceAs (Decidable True)
  | .assign n _ => inferInstanceAs (Decidable (n.toNat + N.toNat + 1 < 2 ^ 32))
  | .assignRange vals => inferInstanceAs (Decidable (vals.length + N.toNat + 1 < 2 ^ 32))
  | .set p _ => inferInstanceAs (Decidable (p < xs.length))
  | .copyConstruct other => inferInstanceAs (Decidable (Inv other))
  | .copyAssign other => inferInstanceAs (Decidable (Inv other))
  | .swap other => inferInstanceAs (Decidable (Inv other))

/-- **One step refines `std::vector`**: from a state that keeps the invariant, an operation
that fits is defined, keeps the invariant, and does to the elements what it does to a vector. -/
theorem step_refines (hN : N.toNat < 2 ^ 31) (hv : Inv v) (op : Op N T) (hfit : Fits N v.toList op) :
    ∃ v', v.step op = some v' ∧ Inv v' ∧ v'.toList = vecStep v.toList op := by
  have hlen := hv.length_toList
  cases op with
  | push_back value =>
    simp only [Fits, hlen] at hfit
    exact emplace_back_spec hN hv hfit value
  | emplace_back value =>
    simp only [Fits, hlen] at hfit
    exact emplace_back_spec hN hv hfit value
  | pop_back =>
    simp only [Fits, hlen] at hfit
    exact pop_back_spec hv (by omega)
  | insert p value =>
    simp only [Fits, hlen] at hfit
    exact insert_spec hN hv hfit.1 hfit.2 value
  | insertCount p count value =>
    simp only [Fits, hlen] at hfit
    exact insertCount_spec hN hv hfit.1 hfit.2 value
  | insertRange p vals =>
    simp only [Fits, hlen] at hfit
    exact insertRange_spec hN hv hfit.1 vals hfit.2.1 hfit.2.2
  | erase first last =>
    simp only [Fits, hlen] at hfit
    obtain ⟨v', he, hv', hl, -⟩ := erase_spec hv hfit.1 hfit.2
    exact ⟨v', he, hv', hl⟩
  | resize n =>
    obtain ⟨v', h, hv', hl, -⟩ := resize_spec hN hv hfit
    exact ⟨v', h, hv', hl⟩
  | resizeUninitialized n init =>
    simp only [Fits, hlen] at hfit
    exact resizeUninitialized_spec hN hv hfit.1 hfit.2
  | reserve c =>
    obtain ⟨v', h, hv', hs, -, hitems⟩ := reserve_spec hN hv c
    exact ⟨v', h, hv', toList_congr hv hs hitems⟩
  | shrink_to_fit =>
    obtain ⟨v', h, hv', hl, -⟩ := shrink_to_fit_spec hN hv
    exact ⟨v', h, hv', hl⟩
  | clear =>
    obtain ⟨v', h, hv', hs, -⟩ := clear_spec hv
    exact ⟨v', h, hv', List.eq_nil_of_length_eq_zero (by rw [hv'.length_toList, hs])⟩
  | assign n value => exact assign_spec hN hv hfit value
  | assignRange vals => exact assignRange_spec hN hv vals hfit
  | set p value =>
    simp only [Fits, hlen] at hfit
    exact set_spec hv hfit value
  | copyConstruct other => exact copy_spec hN hfit
  | copyAssign other =>
    exact assignRange_spec hN hv other.toList (by rw [hfit.length_toList]; exact other.size_add_lt hN)
  | swap other => exact ⟨other, rfl, hfit, rfl⟩

theorem prevector_refines_vector (hN : N.toNat < 2 ^ 31) (ops : List (Op N T))
    (hadm : Simulation.Admissible (Fits N) vecStep [] ops) (k : Nat) :
    ∃ v, Simulation.run step (empty N T) (ops.take k) = some v ∧ Inv v ∧
      v.toList = (ops.take k).foldl vecStep [] := by
  have hrun := Simulation.run_refines_prefix (@Inv N T) (@toList N T)
    (fun _ op hv hfit => step_refines hN hv op hfit) inv_empty (by rw [toList_empty]; exact hadm) k
  rwa [toList_empty] at hrun

theorem prevector_refines_vector_pushInsertErase :
    (2 : UInt32).toNat < 2 ^ 31 ∧
      Simulation.Admissible (Fits 2) vecStep []
        ([.push_back 1, .push_back 2, .push_back 3, .insert 1 9, .erase 0 2, .shrink_to_fit] : List (Op 2 Nat)) ∧
      ∃ v, Simulation.run step (empty 2 Nat)
          ([.push_back 1, .push_back 2, .push_back 3, .insert 1 9, .erase 0 2, .shrink_to_fit] : List (Op 2 Nat)) =
            some v ∧ Inv v ∧ v.toList = [2, 3] := by
  refine ⟨by decide, by decide, ?_⟩
  obtain ⟨v, hrun, hv, hl⟩ := prevector_refines_vector (by decide)
    ([.push_back 1, .push_back 2, .push_back 3, .insert 1 9, .erase 0 2, .shrink_to_fit] : List (Op 2 Nat))
    (by decide) 6
  exact ⟨v, hrun, hv, hl.trans (by decide)⟩

/-- After `resize(2863311530)` a `prevector<28, unsigned char>` is a full heap prevector;
`push_back` then asks for `2863311531 + 1431655765 = 2^32` slots, which wraps to `0`, and
`change_capacity(0)` copies all the elements into the 28-byte direct array. -/
theorem push_back_after_resize_wraps :
    Simulation.run step (empty 28 UInt8) [.resize 2863311530, .push_back 0] = none := by
  obtain ⟨v1, h1, hv1, hl1, hc1⟩ :=
    resize_spec (N := 28) (by decide) (inv_empty (T := UInt8)) (n := 2863311530) (by decide)
  have hs : v1.size.toNat = 2863311530 := by
    rw [← hv1.length_toList, hl1, toList_empty, List.take_nil, List.nil_append, List.length_replicate]
    rfl
  have hsz : v1.size = 2863311530 := UInt32.toNat_inj.mp (by rw [hs]; rfl)
  have hpush : v1.step (.push_back 0) = none :=
    emplace_back_eq_none hv1 (by rw [hc1, hs, capacity_empty]; rfl) (by rw [hs]; decide) (by rw [hsz]; decide)
      (by rw [hs]; decide) 0
  have hresize : (empty 28 UInt8).step (.resize 2863311530) = some v1 := h1
  rw [Simulation.run_cons, hresize, Option.bind_some, Simulation.run_cons, hpush, Option.bind_none]

end Prevector

end Sumcoin
