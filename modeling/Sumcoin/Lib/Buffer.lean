import Mathlib

/-!
# Buffers of slots: `memcpy`, `memmove`, `fill` and `realloc` over lists

A contiguous buffer of `n` slots is a list of length `n`.  The C library calls that write
into it are partial: a read or a write that runs past the end of the buffer is undefined
behaviour, which this model reports as `none`.  `memmove` reads its whole source window
before it writes, so its result does not depend on the direction of the copy.  Every
operation is characterized slot by slot (`getElem?_of_write`, `getElem?_of_move`), which is
how its users compare buffers, and `take_eq_of_getElem?` turns such a characterization
into an equation of prefixes.

## Main definitions

* `Buffer.read`, `Buffer.write`, `Buffer.move`, `Buffer.realloc`.

A reader's cursor into a buffer is an index `k` with `buf.drop k` the rest to read
(`getElem?_of_drop_eq`, `drop_add_of_drop_eq`).
-/

namespace Buffer

variable {α : Type _}

/-- The `len` slots of `buf` from `src`, or `none` when they run past its end. -/
def read (buf : List α) (src len : Nat) : Option (List α) :=
  if src + len ≤ buf.length then some ((buf.drop src).take len) else none

/-- `vals` written over the slots of `buf` from `dst` on, or `none` past its end. -/
def write (buf : List α) (dst : Nat) (vals : List α) : Option (List α) :=
  if dst + vals.length ≤ buf.length then some (buf.take dst ++ vals ++ buf.drop (dst + vals.length))
  else none

/-- `memmove(buf + dst, buf + src, len)`: the source window is read before the destination
is written. -/
def move (buf : List α) (dst src len : Nat) : Option (List α) := do
  let vals ← read buf src len
  write buf dst vals

/-- `realloc(buf, m)`: the first `m` slots kept, the new ones holding `fresh`. -/
def realloc (buf : List α) (m : Nat) (fresh : α) : List α :=
  buf.take m ++ List.replicate (m - buf.length) fresh

/-! ## Reads and writes -/

theorem read_eq_some {buf : List α} {src len : Nat} (h : src + len ≤ buf.length) :
    read buf src len = some ((buf.drop src).take len) := by
  rw [read, if_pos h]

theorem read_eq_none {buf : List α} {src len : Nat} (h : buf.length < src + len) :
    read buf src len = none := by
  rw [read, if_neg (by omega)]

theorem write_eq_some {buf : List α} {dst : Nat} {vals : List α} (h : dst + vals.length ≤ buf.length) :
    write buf dst vals = some (buf.take dst ++ vals ++ buf.drop (dst + vals.length)) := by
  rw [write, if_pos h]

theorem write_eq_none {buf : List α} {dst : Nat} {vals : List α} (h : buf.length < dst + vals.length) :
    write buf dst vals = none := by
  rw [write, if_neg (by omega)]

theorem write_eq_some_iff {buf : List α} {dst : Nat} {vals b : List α} :
    write buf dst vals = some b ↔
      dst + vals.length ≤ buf.length ∧ b = buf.take dst ++ vals ++ buf.drop (dst + vals.length) := by
  unfold write
  split_ifs with h
  · simp [h, eq_comm]
  · simp [h]

theorem length_of_write {buf : List α} {dst : Nat} {vals b : List α} (h : write buf dst vals = some b) :
    b.length = buf.length := by
  obtain ⟨hle, rfl⟩ := write_eq_some_iff.mp h
  simp only [List.length_append, List.length_take, List.length_drop]
  omega

/-- **A write, slot by slot**: the slots of the window hold `vals`, the others are kept. -/
theorem getElem?_of_write {buf : List α} {dst : Nat} {vals b : List α} (h : write buf dst vals = some b)
    (i : Nat) : b[i]? = if dst ≤ i ∧ i < dst + vals.length then vals[i - dst]? else buf[i]? := by
  obtain ⟨hle, rfl⟩ := write_eq_some_iff.mp h
  have htake : (buf.take dst).length = dst := by rw [List.length_take]; omega
  rw [List.append_assoc, List.getElem?_append]
  split_ifs with h1 h2 h2
  · omega
  · rw [htake] at h1
    rw [List.getElem?_take_of_lt h1]
  · rw [htake, List.getElem?_append_left (by omega)]
  · rw [htake, List.getElem?_append_right (by omega), List.getElem?_drop]
    congr 1
    omega

/-- The first `n` slots of a buffer, read from its start. -/
theorem read_zero {buf : List α} {n : Nat} (h : n ≤ buf.length) : read buf 0 n = some (buf.take n) := by
  rw [read_eq_some (by omega), List.drop_zero]

/-- Copying the elements into a buffer from its start keeps them below the size. -/
theorem getElem?_of_write_take {buf src b : List α} {n i : Nat} (hw : write buf 0 (src.take n) = some b)
    (hn : n ≤ src.length) (hi : i < n) : b[i]? = src[i]? := by
  rw [getElem?_of_write hw, if_pos ⟨Nat.zero_le _, by rw [List.length_take]; omega⟩, Nat.sub_zero,
    List.getElem?_take_of_lt hi]

/-! ## `memmove` -/

theorem move_eq_some_iff {buf : List α} {dst src len : Nat} {b : List α} :
    move buf dst src len = some b ↔ src + len ≤ buf.length ∧ dst + len ≤ buf.length ∧
      write buf dst ((buf.drop src).take len) = some b := by
  unfold move
  by_cases hs : src + len ≤ buf.length
  · have hlen : ((buf.drop src).take len).length = len := by
      rw [List.length_take, List.length_drop]; omega
    rw [read_eq_some hs]
    constructor
    · intro h
      have hw : write buf dst ((buf.drop src).take len) = some b := h
      exact ⟨hs, by have := (write_eq_some_iff.mp hw).1; omega, hw⟩
    · exact fun h => h.2.2
  · rw [read_eq_none (by omega)]
    simp [hs]

theorem move_eq_some {buf : List α} {dst src len : Nat} (hs : src + len ≤ buf.length)
    (hd : dst + len ≤ buf.length) : ∃ b, move buf dst src len = some b := by
  have hlen : ((buf.drop src).take len).length = len := by
    rw [List.length_take, List.length_drop]; omega
  exact ⟨_, move_eq_some_iff.mpr ⟨hs, hd, write_eq_some (by rw [hlen]; exact hd)⟩⟩

theorem length_of_move {buf : List α} {dst src len : Nat} {b : List α} (h : move buf dst src len = some b) :
    b.length = buf.length :=
  length_of_write (move_eq_some_iff.mp h).2.2

/-- **`memmove`, slot by slot**: the destination window holds what the source window held. -/
theorem getElem?_of_move {buf : List α} {dst src len : Nat} {b : List α} (h : move buf dst src len = some b)
    (i : Nat) : b[i]? = if dst ≤ i ∧ i < dst + len then buf[src + (i - dst)]? else buf[i]? := by
  obtain ⟨hs, hd, hw⟩ := move_eq_some_iff.mp h
  have hlen : ((buf.drop src).take len).length = len := by
    rw [List.length_take, List.length_drop]; omega
  rw [getElem?_of_write hw, hlen]
  split_ifs with hi
  · rw [List.getElem?_take_of_lt (by omega), List.getElem?_drop]
  · rfl

/-! ## `realloc` -/

@[simp] theorem length_realloc (buf : List α) (m : Nat) (fresh : α) : (realloc buf m fresh).length = m := by
  simp only [realloc, List.length_append, List.length_take, List.length_replicate]
  omega

/-- `realloc` keeps the slots below both sizes. -/
theorem getElem?_realloc_of_lt (buf : List α) {m : Nat} (fresh : α) {i : Nat} (hm : i < m) (hb : i < buf.length) :
    (realloc buf m fresh)[i]? = buf[i]? := by
  rw [realloc, List.getElem?_append_left (by rw [List.length_take]; omega), List.getElem?_take_of_lt hm]

/-! ## Prefixes -/

/-- Two lists agree on their first `n` slots when one has length `n` and reads like the
other below it. -/
theorem take_eq_of_getElem? {b l : List α} {n : Nat} (hl : l.length = n)
    (h : ∀ i < n, b[i]? = l[i]?) : b.take n = l := by
  apply List.ext_getElem?
  intro i
  rw [List.getElem?_take]
  split_ifs with hi
  · exact h i hi
  · rw [List.getElem?_eq_none (by omega)]

/-! ## Inserting and removing a window -/

theorem length_insertAt {xs : List α} {p : Nat} (hp : p ≤ xs.length) (vals : List α) :
    (xs.take p ++ vals ++ xs.drop p).length = xs.length + vals.length := by
  simp only [List.length_append, List.length_take, List.length_drop]
  omega

theorem length_eraseRange {xs : List α} {first last : Nat} (h1 : first ≤ last) (h2 : last ≤ xs.length) :
    (xs.take first ++ xs.drop last).length = xs.length - (last - first) := by
  simp only [List.length_append, List.length_take, List.length_drop]
  omega

/-- `vals` inserted into `xs` at `p`, slot by slot. -/
theorem getElem?_insertAt {xs : List α} {p : Nat} (hp : p ≤ xs.length) (vals : List α) (i : Nat) :
    (xs.take p ++ vals ++ xs.drop p)[i]? =
      if i < p then xs[i]? else if i < p + vals.length then vals[i - p]? else xs[i - vals.length]? := by
  have htake : (xs.take p).length = p := by rw [List.length_take]; omega
  rw [List.append_assoc, List.getElem?_append, htake]
  split_ifs with h1 h2
  · exact List.getElem?_take_of_lt h1
  · rw [List.getElem?_append_left (by omega)]
  · rw [List.getElem?_append_right (by omega), List.getElem?_drop]
    congr 1
    omega

/-- The slots `[first, last)` of `xs` removed, slot by slot. -/
theorem getElem?_eraseRange {xs : List α} {first last : Nat} (h1 : first ≤ last) (h2 : last ≤ xs.length)
    (i : Nat) : (xs.take first ++ xs.drop last)[i]? = if i < first then xs[i]? else xs[last + (i - first)]? := by
  have htake : (xs.take first).length = first := by rw [List.length_take]; omega
  rw [List.getElem?_append, htake]
  split_ifs with h
  · exact List.getElem?_take_of_lt h
  · rw [List.getElem?_drop]

/-- A buffer that holds `xs` below `p` and, shifted up by `|vals|`, from `p + |vals|` on, with
`vals` written over the gap between, reads as `xs` with `vals` inserted at `p`. -/
theorem getElem?_fill_gap {xs vals b : List α} {p i : Nat} (hp : p ≤ xs.length)
    (hi : i < xs.length + vals.length) (hlow : ∀ i < p, b[i]? = xs[i]?)
    (hhigh : ∀ i, p + vals.length ≤ i → i < xs.length + vals.length → b[i]? = xs[i - vals.length]?) :
    (if p ≤ i ∧ i < p + vals.length then vals[i - p]? else b[i]?) = (xs.take p ++ vals ++ xs.drop p)[i]? := by
  rw [getElem?_insertAt hp]
  by_cases hlt : i < p
  · rw [if_neg (by omega), if_pos hlt]
    exact hlow i hlt
  · rw [if_neg hlt]
    by_cases hwin : i < p + vals.length
    · rw [if_pos ⟨by omega, hwin⟩, if_pos hwin]
    · rw [if_neg (by omega), if_neg hwin]
      exact hhigh i (by omega) hi

/-! ## Cursors

A reader that keeps an index into a buffer sees, from its cursor on, the buffer's suffix. -/

/-- The slot at the cursor is the first of what lies past it. -/
theorem getElem?_of_drop_eq {buf : List α} {k : Nat} {x : α} {rest : List α}
    (h : buf.drop k = x :: rest) : buf[k]? = some x := by
  rw [← Nat.add_zero k, ← List.getElem?_drop, h]
  rfl

/-- Moving the cursor past `xs` leaves what followed it. -/
theorem drop_add_of_drop_eq {buf : List α} {k : Nat} {xs rest : List α}
    (h : buf.drop k = xs ++ rest) : buf.drop (k + xs.length) = rest := by
  rw [← List.drop_drop, h, List.drop_left]

end Buffer
