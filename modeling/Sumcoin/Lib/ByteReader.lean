import Mathlib

/-!
# Readers of byte strings and their two laws

A binary format is a writer, from values to bytes, and a reader, which takes bytes
from the front of its input and returns a value with the input that is left, or
stops with an error.  A reader is right for a writer in two senses.  It *reads back*
what the writer writes, for the values the format admits, whatever bytes follow;
and it is *canonical*: every input it accepts begins with the writer's bytes for the
value it returned, so that two encodings of one value are never both accepted.

This file gives the reader monad, the readers every such format is built from (a
byte, a little-endian number of fixed width, a list of a given length, a list after
its count), and proves both laws for each once, so that a format built from them
proves its laws by composing these.

## Main definitions

* `ByteReader.Reader`, `readByte`, `readLE`, `readList`, `readCounted`.
* `ByteReader.ReadsBack`, `ByteReader.Canonical`.
-/

namespace ByteReader

/-- A reader: from the input, the value read and the input left after it, or the text
of why it stopped. -/
def Reader (α : Type) : Type := List UInt8 → Except String (α × List UInt8)

instance : Monad Reader where
  pure a s := .ok (a, s)
  bind x f s := match x s with
    | .ok (a, s') => f a s'
    | .error e => .error e

instance : MonadExceptOf String Reader where
  throw e _ := .error e
  tryCatch x h s := match x s with
    | .ok r => .ok r
    | .error e => h e s

variable {α β : Type}

/-! ## Running a reader -/

@[simp] theorem pure_apply (a : α) (s : List UInt8) : (pure a : Reader α) s = .ok (a, s) := rfl

@[simp] theorem throw_apply (e : String) (s : List UInt8) :
    (throw e : Reader α) s = .error e := rfl

theorem bind_apply (x : Reader α) (f : α → Reader β) (s : List UInt8) :
    (x >>= f) s = match x s with
      | .ok (a, s') => f a s'
      | .error e => .error e := rfl

/-- A step that succeeds hands its value and the rest of the input to what follows. -/
theorem bind_of_ok {x : Reader α} {f : α → Reader β} {s s' : List UInt8} {a : α}
    (h : x s = .ok (a, s')) : (x >>= f) s = f a s' := by
  rw [bind_apply, h]

/-- A sequence of reads succeeds exactly when each read succeeds on what the one
before it left. -/
theorem bind_eq_ok {x : Reader α} {f : α → Reader β} {s s'' : List UInt8} {b : β} :
    (x >>= f) s = .ok (b, s'') ↔ ∃ a s', x s = .ok (a, s') ∧ f a s' = .ok (b, s'') := by
  rw [bind_apply]
  constructor
  · intro h
    cases hx : x s with
    | error e => rw [hx] at h; cases h
    | ok p =>
      obtain ⟨a, s'⟩ := p
      rw [hx] at h
      exact ⟨a, s', rfl, h⟩
  · rintro ⟨a, s', hx, hf⟩
    rw [hx]
    exact hf

@[simp] theorem pure_eq_ok {a b : α} {s s' : List UInt8} :
    (pure a : Reader α) s = .ok (b, s') ↔ a = b ∧ s = s' := by
  simp

@[simp] theorem throw_ne_ok {e : String} {s s' : List UInt8} {b : α} :
    ¬ (throw e : Reader α) s = .ok (b, s') := by
  simp

/-- A guard passes exactly when its condition is false, and then reads nothing. -/
theorem ite_throw_eq_ok {p : Prop} [Decidable p] {e : String} {s s' : List UInt8} {u : PUnit} :
    (if p then throw e else pure u : Reader PUnit) s = .ok (u, s') ↔ ¬p ∧ s = s' := by
  by_cases hp : p <;> simp [hp]

/-! ## The two laws -/

/-- `r` reads back every value `P` admits from its encoding by `enc`, whatever bytes
follow the encoding. -/
def ReadsBack (P : α → Prop) (enc : α → List UInt8) (r : Reader α) : Prop :=
  ∀ a rest, P a → r (enc a ++ rest) = .ok (a, rest)

/-- Every value `r` accepts is one `P` admits, and the bytes `r` consumed are that
value's encoding by `enc`. -/
def Canonical (P : α → Prop) (enc : α → List UInt8) (r : Reader α) : Prop :=
  ∀ s a rest, r s = .ok (a, rest) → P a ∧ s = enc a ++ rest

/-! ## Bytes and fixed-width numbers -/

/-- One byte; the error when the input is used up. -/
def readByte : Reader UInt8
  | [] => .error "end of data"
  | b :: s => .ok (b, s)

@[simp] theorem readByte_cons (b : UInt8) (s : List UInt8) : readByte (b :: s) = .ok (b, s) :=
  rfl

theorem readByte_eq_ok {s s' : List UInt8} {b : UInt8} :
    readByte s = .ok (b, s') ↔ s = b :: s' := by
  cases s with
  | nil => simp [readByte]
  | cons c s => simp [readByte, eq_comm]

theorem readsBack_readByte : ReadsBack (fun _ => True) (fun b => [b]) readByte :=
  fun b rest _ => readByte_cons b rest

theorem canonical_readByte : Canonical (fun _ => True) (fun b => [b]) readByte :=
  fun _ _ _ h => ⟨trivial, readByte_eq_ok.mp h⟩

/-- The `n` low bytes of `x`, least significant first. -/
def encodeLE : Nat → Nat → List UInt8
  | 0, _ => []
  | n + 1, x => (x % 256).toUInt8 :: encodeLE n (x / 256)

@[simp] theorem length_encodeLE (n x : Nat) : (encodeLE n x).length = n := by
  induction n generalizing x with
  | zero => rfl
  | succ n ih => simp [encodeLE, ih]

/-- `n` bytes, least significant first, as a number. -/
def readLE : Nat → Reader Nat
  | 0 => pure 0
  | n + 1 => do
    let b ← readByte
    let v ← readLE n
    pure (b.toNat + 256 * v)

theorem readsBack_readLE (n : Nat) : ReadsBack (· < 256 ^ n) (encodeLE n) (readLE n) := by
  induction n with
  | zero =>
    intro x rest hx
    have hx0 : x = 0 := by simpa using hx
    simp [readLE, encodeLE, hx0]
  | succ n ih =>
    intro x rest hx
    have hdiv : x / 256 < 256 ^ n := by
      rw [Nat.pow_succ] at hx
      omega
    have hbyte : ((x % 256).toUInt8).toNat = x % 256 := by simp
    simp only [readLE, encodeLE, List.cons_append]
    rw [bind_of_ok (readByte_cons _ _), bind_of_ok (ih (x / 256) rest hdiv), pure_apply, hbyte]
    congr 2
    omega

theorem canonical_readLE (n : Nat) : Canonical (· < 256 ^ n) (encodeLE n) (readLE n) := by
  induction n with
  | zero =>
    intro s x rest h
    simp only [readLE, pure_eq_ok] at h
    obtain ⟨rfl, rfl⟩ := h
    simp [encodeLE]
  | succ n ih =>
    intro s x rest h
    simp only [readLE, bind_eq_ok, pure_eq_ok, readByte_eq_ok] at h
    obtain ⟨b, s', rfl, v, s'', hv, rfl, rfl⟩ := h
    obtain ⟨hlt, rfl⟩ := ih s' v s'' hv
    have hb : b.toNat < 256 := b.toNat_lt
    refine ⟨by rw [Nat.pow_succ]; omega, ?_⟩
    have hlow : (b.toNat + 256 * v) % 256 = b.toNat := by omega
    have hhigh : (b.toNat + 256 * v) / 256 = v := by omega
    simp [encodeLE, hlow, hhigh]

/-! ## Lists -/

/-- `n` values read one after the other by `r`. -/
def readList (r : Reader α) : Nat → Reader (List α)
  | 0 => pure []
  | n + 1 => do
    let a ← r
    let as ← readList r n
    pure (a :: as)

variable {P : α → Prop} {enc : α → List UInt8} {r : Reader α}

/-- A list of admitted values, written one after the other, is read back by reading as
many values as it has. -/
theorem readList_flatMap (h : ReadsBack P enc r) {xs : List α} (hxs : ∀ x ∈ xs, P x)
    (rest : List UInt8) : readList r xs.length (xs.flatMap enc ++ rest) = .ok (xs, rest) := by
  induction xs with
  | nil => rfl
  | cons x xs ih =>
    have hx : P x := hxs x List.mem_cons_self
    have hrest : ∀ y ∈ xs, P y := fun y hy => hxs y (List.mem_cons_of_mem x hy)
    simp only [readList, List.length_cons, List.flatMap_cons, List.append_assoc]
    rw [bind_of_ok (h x _ hx), bind_of_ok (ih hrest), pure_apply]

/-- `n` bytes read one by one are the next `n` bytes. -/
theorem readList_readByte (bytes rest : List UInt8) :
    readList readByte bytes.length (bytes ++ rest) = .ok (bytes, rest) := by
  have h := readList_flatMap readsBack_readByte (fun _ _ => trivial : ∀ b ∈ bytes, True) rest
  rwa [List.flatMap_singleton'] at h

/-- Reading `n` values with a canonical reader consumes the encodings of the `n`
values it returns. -/
theorem flatMap_of_readList (h : Canonical P enc r) {n : Nat} {s rest : List UInt8}
    {xs : List α} (hr : readList r n s = .ok (xs, rest)) :
    xs.length = n ∧ (∀ x ∈ xs, P x) ∧ s = xs.flatMap enc ++ rest := by
  induction n generalizing s xs with
  | zero =>
    simp only [readList, pure_eq_ok] at hr
    obtain ⟨rfl, rfl⟩ := hr
    simp
  | succ n ih =>
    simp only [readList, bind_eq_ok, pure_eq_ok] at hr
    obtain ⟨a, s', ha, as, s'', has, rfl, rfl⟩ := hr
    obtain ⟨hPa, rfl⟩ := h s a s' ha
    obtain ⟨hlen, hPas, rfl⟩ := ih has
    refine ⟨by simp [hlen], ?_, by simp⟩
    intro x hx
    rcases List.mem_cons.mp hx with rfl | hx
    · exact hPa
    · exact hPas x hx

/-- A count read by `len`, then that many values read by `r`. -/
def readCounted (len : Reader Nat) (r : Reader α) : Reader (List α) := do
  let n ← len
  readList r n

variable {Q : Nat → Prop} {lenEnc : Nat → List UInt8} {len : Reader Nat}

theorem readsBack_readCounted (hlen : ReadsBack Q lenEnc len) (h : ReadsBack P enc r) :
    ReadsBack (fun xs => Q xs.length ∧ ∀ x ∈ xs, P x)
      (fun xs => lenEnc xs.length ++ xs.flatMap enc) (readCounted len r) := by
  rintro xs rest ⟨hq, hxs⟩
  rw [readCounted, List.append_assoc, bind_of_ok (hlen _ _ hq)]
  exact readList_flatMap h hxs rest

theorem canonical_readCounted (hlen : Canonical Q lenEnc len) (h : Canonical P enc r) :
    Canonical (fun xs => Q xs.length ∧ ∀ x ∈ xs, P x)
      (fun xs => lenEnc xs.length ++ xs.flatMap enc) (readCounted len r) := by
  intro s xs rest hr
  obtain ⟨n, s', hn, hxs⟩ := bind_eq_ok.mp hr
  obtain ⟨hq, rfl⟩ := hlen s n s' hn
  obtain ⟨rfl, hP, rfl⟩ := flatMap_of_readList h hxs
  exact ⟨⟨hq, hP⟩, by simp⟩

end ByteReader
