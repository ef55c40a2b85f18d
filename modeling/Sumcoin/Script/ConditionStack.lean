import Mathlib

/-!
# The condition stack of `EvalScript`: `ConditionStack` in `script/interpreter.cpp`

`EvalScript` keeps one boolean per open `OP_IF`/`OP_NOTIF` and executes an opcode when
all of them are true.  It only asks whether the stack is empty and whether it holds a
false value, so `ConditionStack` keeps two 32-bit counters in place of the booleans: the
size of the stack and the position of its first false value, `NO_FALSE` when there is
none.

The abstract model is the stack itself, a list of booleans with `push_back`, `pop_back`
and a toggle of the last value (`std::vector<bool>`).  `ofVector v` is the pair of
counters that stands for `v`.  Each operation takes `ofVector v` to `ofVector` of the
operated list (`step_ofVector`), so a whole run does (`run_ofVector`), and the two queries
read off `ofVector v` agree with the list while it holds fewer than `2^32` values
(`empty_ofVector`, `allTrue_ofVector`).

The counters are `uint32_t`.  A push onto `2^32 - 1` values wraps the size to zero, and a
false pushed there lands at position `0xFFFFFFFF`, which is `NO_FALSE`: the stack then
reads as empty and all true (`run_wraps`).  `EvalScript` cannot get there,
since a script has at most `MAX_SCRIPT_SIZE` opcodes: every sequence of fewer than
`2^32` operations keeps the counters exact (`opsFit_of_length_lt`).

`pop_back` and `toggle_top` assert a non-empty stack; a failed assertion is a step to
`none`.

## Main definitions

* `ConditionStack` with `empty`, `allTrue`, `pushBack`, `popBack`, `toggleTop`.
* `CondOp`, `ConditionStack.run`; the list model `vectorStep`, `vectorRun`.
* `ConditionStack.ofVector`: the counters of a list of booleans.
* `opsEnabled`, `opsFit`: pops and toggles on a non-empty list; room in the counters.
-/

namespace Sumcoin

/-- `ConditionStack::NO_FALSE`, `std::numeric_limits<uint32_t>::max()`. -/
def noFalse : UInt32 := 0xFFFFFFFF

/-- `ConditionStack`: `m_stack_size` and `m_first_false_pos`. -/
structure ConditionStack where
  mStackSize : UInt32 := 0
  mFirstFalsePos : UInt32 := noFalse
  deriving DecidableEq, Repr

/-- The operations `EvalScript` applies to `vfExec`. -/
inductive CondOp
  | pushBack (f : Bool)
  | popBack
  | toggleTop
  deriving DecidableEq, Repr

namespace ConditionStack

/-- `empty()`. -/
def empty (s : ConditionStack) : Bool := s.mStackSize == 0

/-- `all_true()`. -/
def allTrue (s : ConditionStack) : Bool := s.mFirstFalsePos == noFalse

/-- `push_back(f)`: a false pushed onto an all-true stack is its first false, at the
current size. -/
def pushBack (s : ConditionStack) (f : Bool) : ConditionStack :=
  { mStackSize := s.mStackSize + 1
    mFirstFalsePos :=
      if s.mFirstFalsePos = noFalse ∧ f = false then s.mStackSize else s.mFirstFalsePos }

/-- `pop_back()`: popping the first false makes everything true. -/
def popBack (s : ConditionStack) : Option ConditionStack :=
  -- `assert(m_stack_size > 0)`
  if s.mStackSize = 0 then none
  else
    let size := s.mStackSize - 1
    some { mStackSize := size
           mFirstFalsePos := if s.mFirstFalsePos = size then noFalse else s.mFirstFalsePos }

/-- `toggle_top()`: only a toggle of the first false, or of the top of an all-true stack,
is observable. -/
def toggleTop (s : ConditionStack) : Option ConditionStack :=
  if s.mStackSize = 0 then none
  else if s.mFirstFalsePos = noFalse then some { s with mFirstFalsePos := s.mStackSize - 1 }
  else if s.mFirstFalsePos = s.mStackSize - 1 then some { s with mFirstFalsePos := noFalse }
  else some s

/-- One operation on the counters. -/
def step (s : ConditionStack) : CondOp → Option ConditionStack
  | .pushBack f => some (s.pushBack f)
  | .popBack => s.popBack
  | .toggleTop => s.toggleTop

/-- A sequence of operations, stopping at a failed assertion. -/
def run (s : ConditionStack) (ops : List CondOp) : Option ConditionStack :=
  ops.foldlM step s

end ConditionStack

/-! ## The stack of booleans -/

/-- One operation on the stack of booleans, `std::vector<bool>`: `push_back`, `pop_back`
and the toggle of the last value. -/
def vectorStep (v : List Bool) : CondOp → List Bool
  | .pushBack f => v ++ [f]
  | .popBack => v.dropLast
  | .toggleTop => v.modifyLast not

/-- A sequence of operations on the stack of booleans. -/
def vectorRun (v : List Bool) (ops : List CondOp) : List Bool := ops.foldl vectorStep v

/-- `pop_back` and `toggle_top` are applied to a non-empty stack only. -/
def CondOp.enabled (v : List Bool) : CondOp → Bool
  | .pushBack _ => true
  | _ => !v.isEmpty

/-- Every operation of the sequence is enabled where it is applied. -/
def opsEnabled : List Bool → List CondOp → Bool
  | _, [] => true
  | v, op :: ops => op.enabled v && opsEnabled (vectorStep v op) ops

/-- Every stack the sequence passes through holds fewer than `2^32` values. -/
def opsFit : List Bool → List CondOp → Bool
  | _, [] => true
  | v, op :: ops => decide ((vectorStep v op).length < 2 ^ 32) && opsFit (vectorStep v op) ops

@[simp] theorem vectorRun_nil (v : List Bool) : vectorRun v [] = v := rfl

@[simp] theorem vectorRun_cons (v : List Bool) (op : CondOp) (ops : List CondOp) :
    vectorRun v (op :: ops) = vectorRun (vectorStep v op) ops := rfl

theorem length_vectorStep_le (v : List Bool) (op : CondOp) :
    (vectorStep v op).length ≤ v.length + 1 := by
  cases op with
  | pushBack f => simp [vectorStep]
  | popBack =>
    simp only [vectorStep, List.length_dropLast]
    omega
  | toggleTop =>
    rcases List.eq_nil_or_concat' v with rfl | ⟨w, b, rfl⟩
    · exact Nat.zero_le _
    · simp [vectorStep, List.modifyLast_concat]

theorem opsEnabled_take (v : List Bool) (ops : List CondOp) (k : Nat)
    (h : opsEnabled v ops = true) : opsEnabled v (ops.take k) = true := by
  induction ops generalizing v k with
  | nil => simpa using h
  | cons op ops ih =>
    cases k with
    | zero => rfl
    | succ k =>
      simp only [opsEnabled, Bool.and_eq_true] at h
      simp only [List.take_succ_cons, opsEnabled, h.1, ih _ k h.2, Bool.and_self]

theorem opsFit_take (v : List Bool) (ops : List CondOp) (k : Nat)
    (h : opsFit v ops = true) : opsFit v (ops.take k) = true := by
  induction ops generalizing v k with
  | nil => simpa using h
  | cons op ops ih =>
    cases k with
    | zero => rfl
    | succ k =>
      simp only [opsFit, Bool.and_eq_true] at h
      simp only [List.take_succ_cons, opsFit, h.1, ih _ k h.2, Bool.and_self]

/-- **Short sequences fit**: each operation adds at most one value, so fewer than `2^32`
values and operations together never overflow the counters. -/
theorem opsFit_of_length_lt (v : List Bool) (ops : List CondOp)
    (h : v.length + ops.length < 2 ^ 32) : opsFit v ops = true := by
  induction ops generalizing v with
  | nil => rfl
  | cons op ops ih =>
    have hstep := length_vectorStep_le v op
    simp only [List.length_cons] at h
    simp only [opsFit, Bool.and_eq_true, decide_eq_true_eq]
    exact ⟨by omega, ih _ (by omega)⟩

/-! ## The counters of a stack of booleans -/

namespace ConditionStack

/-- The counters that stand for the stack `v`: its size, and the index of its first
false value or `NO_FALSE`. -/
def ofVector (v : List Bool) : ConditionStack :=
  { mStackSize := v.length.toUInt32
    mFirstFalsePos := if false ∈ v then (v.idxOf false).toUInt32 else noFalse }

@[simp] theorem ofVector_nil : ofVector [] = {} := rfl

theorem toNat_toUInt32 (n : Nat) : n.toUInt32.toNat = n % 2 ^ 32 := by simp

theorem toUInt32_inj {n m : Nat} (hn : n < 2 ^ 32) (hm : m < 2 ^ 32) :
    n.toUInt32 = m.toUInt32 ↔ n = m := by
  rw [← UInt32.toNat_inj, toNat_toUInt32, toNat_toUInt32]
  omega

/-- A position below `2^32 - 1` is not `NO_FALSE`. -/
theorem toUInt32_ne_noFalse {n : Nat} (hn : n < 2 ^ 32 - 1) : n.toUInt32 ≠ noFalse := by
  rw [ne_eq, ← UInt32.toNat_inj, toNat_toUInt32]
  have hnf : noFalse.toNat = 2 ^ 32 - 1 := rfl
  omega

/-- The counters of a stack with one more value on top. -/
theorem ofVector_concat (w : List Bool) (b : Bool) :
    ofVector (w ++ [b]) =
      { mStackSize := (w.length + 1).toUInt32
        mFirstFalsePos :=
          if false ∈ w then (w.idxOf false).toUInt32
          else if b = false then w.length.toUInt32 else noFalse } := by
  have hlen : (w ++ [b]).length = w.length + 1 := by simp
  by_cases hw : false ∈ w
  case pos =>
    have hmem : false ∈ w ++ [b] := List.mem_append_left _ hw
    simp only [ofVector, hlen, if_pos hmem, if_pos hw, List.idxOf_append_of_mem hw]
  case neg =>
    cases b
    case false =>
      have hmem : false ∈ w ++ [false] := List.mem_append_right _ (List.mem_singleton_self _)
      have hidx : (w ++ [false]).idxOf false = w.length := by
        rw [List.idxOf_append_of_notMem hw]
        simp
      simp only [ofVector, hlen, if_pos hmem, if_neg hw, hidx, if_true]
    case true =>
      have hmem : false ∉ w ++ [true] := by simp [hw]
      simp only [ofVector, hlen, if_neg hmem, if_neg hw, Bool.true_eq_false, if_false]

theorem idxOf_lt_of_mem {w : List Bool} (hw : false ∈ w) : w.idxOf false < w.length :=
  List.idxOf_lt_length_of_mem hw

/-- `push_back` keeps the counters exact while the size has room. -/
theorem pushBack_ofVector (v : List Bool) (f : Bool) (h : v.length + 1 < 2 ^ 32) :
    (ofVector v).pushBack f = ofVector (v ++ [f]) := by
  have hsize : v.length.toUInt32 + 1 = (v.length + 1).toUInt32 := by
    rw [← UInt32.toNat_inj, UInt32.toNat_add, toNat_toUInt32, toNat_toUInt32, UInt32.toNat_one]
    omega
  rw [ofVector_concat]
  unfold pushBack ofVector
  dsimp only
  rw [hsize]
  by_cases hv : false ∈ v
  case pos =>
    -- an existing false stays the first one
    have hne := toUInt32_ne_noFalse (Nat.lt_of_lt_of_le (idxOf_lt_of_mem hv) (by omega))
    rw [if_pos hv, if_neg (fun hc => hne hc.1), if_pos hv]
  case neg =>
    rw [if_neg hv, if_neg hv]
    cases f
    case false => simp only [and_self, if_true]
    case true => simp only [Bool.true_eq_false, and_false, if_false]

/-- The size below a non-empty stack of fewer than `2^32` values. -/
theorem size_pred {w : List Bool} (h : w.length + 1 < 2 ^ 32) :
    (w.length + 1).toUInt32 ≠ 0 ∧ (w.length + 1).toUInt32 - 1 = w.length.toUInt32 := by
  constructor
  · rw [ne_eq, ← UInt32.toNat_inj, toNat_toUInt32, UInt32.toNat_zero]
    omega
  · rw [← UInt32.toNat_inj, UInt32.toNat_sub, toNat_toUInt32, toNat_toUInt32, UInt32.toNat_one]
    omega

/-- `pop_back` keeps the counters exact. -/
theorem popBack_ofVector (w : List Bool) (b : Bool) (h : w.length + 1 < 2 ^ 32) :
    (ofVector (w ++ [b])).popBack = some (ofVector w) := by
  obtain ⟨hne0, hsize⟩ := size_pred h
  rw [ofVector_concat]
  unfold popBack
  dsimp only
  rw [if_neg hne0, hsize]
  by_cases hw : false ∈ w
  case pos =>
    -- the first false lies below the top, and stays the first false
    have hlt := idxOf_lt_of_mem hw
    have hpos : (w.idxOf false).toUInt32 ≠ w.length.toUInt32 :=
      (toUInt32_inj (by omega) (by omega)).not.mpr (by omega)
    rw [if_pos hw, if_neg hpos]
    simp only [ofVector, if_pos hw]
  case neg =>
    have hnf : noFalse ≠ w.length.toUInt32 := (toUInt32_ne_noFalse (by omega)).symm
    rw [if_neg hw]
    cases b
    case false => simp only [ofVector, if_neg hw, if_true]
    case true => simp only [ofVector, if_neg hw, Bool.true_eq_false, if_false, if_neg hnf]

/-- `toggle_top` keeps the counters exact. -/
theorem toggleTop_ofVector (w : List Bool) (b : Bool) (h : w.length + 1 < 2 ^ 32) :
    (ofVector (w ++ [b])).toggleTop = some (ofVector (w ++ [!b])) := by
  obtain ⟨hne0, hsize⟩ := size_pred h
  have hnf : w.length.toUInt32 ≠ noFalse := toUInt32_ne_noFalse (by omega)
  rw [ofVector_concat, ofVector_concat]
  unfold toggleTop
  dsimp only
  rw [if_neg hne0, hsize]
  by_cases hw : false ∈ w
  case pos =>
    -- a false below the top: toggling the top is not observable
    have hlt := idxOf_lt_of_mem hw
    have hpos : (w.idxOf false).toUInt32 ≠ w.length.toUInt32 :=
      (toUInt32_inj (by omega) (by omega)).not.mpr (by omega)
    have hne := toUInt32_ne_noFalse (n := w.idxOf false) (by omega)
    rw [if_pos hw, if_pos hw, if_neg hne, if_neg hpos]
  case neg =>
    rw [if_neg hw, if_neg hw]
    cases b
    case false => simp only [Bool.not_false, if_true, Bool.true_eq_false, if_false, if_neg hnf]
    case true => simp only [Bool.not_true, Bool.true_eq_false, if_false, if_true]

/-- **One step refines the stack of booleans**: an enabled operation that leaves fewer
than `2^32` values maps the counters of `v` to the counters of the operated stack. -/
theorem step_ofVector (v : List Bool) (op : CondOp) (hen : op.enabled v = true)
    (hfit : (vectorStep v op).length < 2 ^ 32) (hv : v.length < 2 ^ 32) :
    (ofVector v).step op = some (ofVector (vectorStep v op)) := by
  cases op with
  | pushBack f =>
    simp only [vectorStep, List.length_append, List.length_singleton] at hfit
    exact congrArg some (pushBack_ofVector v f hfit)
  | popBack =>
    obtain ⟨w, b, rfl⟩ := List.eq_nil_or_concat' v |>.resolve_left (by simpa [CondOp.enabled] using hen)
    simp only [List.length_append, List.length_singleton] at hv
    simp only [step, vectorStep, List.dropLast_concat]
    exact popBack_ofVector w b hv
  | toggleTop =>
    obtain ⟨w, b, rfl⟩ := List.eq_nil_or_concat' v |>.resolve_left (by simpa [CondOp.enabled] using hen)
    simp only [List.length_append, List.length_singleton] at hv
    simp only [step, vectorStep, List.modifyLast_concat]
    exact toggleTop_ofVector w b hv

/-- **A run refines the stack of booleans**, by induction on the operations with
`step_ofVector` at each one. -/
theorem run_ofVector (v : List Bool) (ops : List CondOp) (hen : opsEnabled v ops = true)
    (hfit : opsFit v ops = true) (hv : v.length < 2 ^ 32) :
    (ofVector v).run ops = some (ofVector (vectorRun v ops)) := by
  induction ops generalizing v with
  | nil => rfl
  | cons op ops ih =>
    simp only [opsEnabled, Bool.and_eq_true] at hen
    simp only [opsFit, Bool.and_eq_true, decide_eq_true_eq] at hfit
    have hstep := step_ofVector v op hen.1 hfit.1 hv
    simp only [run, List.foldlM_cons, hstep, Option.bind_eq_bind, Option.bind_some]
    exact ih _ hen.2 hfit.2 hfit.1

/-- `empty()` of the counters is the emptiness of the stack. -/
theorem empty_ofVector (v : List Bool) (hv : v.length < 2 ^ 32) :
    (ofVector v).empty = v.isEmpty := by
  unfold empty ofVector
  dsimp only
  cases v with
  | nil => rfl
  | cons b w =>
    have hne : (b :: w).length.toUInt32 ≠ 0 := by
      rw [ne_eq, ← UInt32.toNat_inj, toNat_toUInt32, UInt32.toNat_zero, List.length_cons]
      rw [List.length_cons] at hv
      omega
    rw [List.isEmpty_cons, beq_eq_false_iff_ne]
    exact hne

/-- `all_true()` of the counters says that the stack holds no false value. -/
theorem allTrue_ofVector (v : List Bool) (hv : v.length < 2 ^ 32) :
    (ofVector v).allTrue = !v.contains false := by
  unfold allTrue ofVector
  dsimp only
  by_cases hf : false ∈ v
  case pos =>
    have hne := toUInt32_ne_noFalse (Nat.lt_of_lt_of_le (idxOf_lt_of_mem hf) (by omega))
    rw [if_pos hf, beq_eq_false_iff_ne.mpr hne]
    simp [hf]
  case neg =>
    rw [if_neg hf, beq_self_eq_true]
    simp [hf]

/-- Every stack a fitting run passes through, its last included, has room. -/
theorem length_vectorRun_lt (v : List Bool) (ops : List CondOp) (hfit : opsFit v ops = true)
    (hv : v.length < 2 ^ 32) : (vectorRun v ops).length < 2 ^ 32 := by
  induction ops generalizing v with
  | nil => exact hv
  | cons op ops ih =>
    simp only [opsFit, Bool.and_eq_true, decide_eq_true_eq] at hfit
    exact ih _ hfit.2 hfit.1

/-- **`ConditionStack` refines the stack of booleans**: along a sequence of enabled
operations whose stacks stay below `2^32` values, after every prefix the counters exist
and `empty()` and `all_true()` answer as the stack of booleans does. -/
theorem run_refines_vector (ops : List CondOp) (hen : opsEnabled [] ops = true)
    (hfit : opsFit [] ops = true) (k : Nat) :
    ∃ s, ConditionStack.run {} (ops.take k) = some s ∧
      s.empty = (vectorRun [] (ops.take k)).isEmpty ∧
      s.allTrue = !(vectorRun [] (ops.take k)).contains false := by
  have hfitk := opsFit_take [] ops k hfit
  have hrun := run_ofVector [] (ops.take k) (opsEnabled_take [] ops k hen) hfitk (by simp)
  have hlen := length_vectorRun_lt [] (ops.take k) hfitk (by simp)
  rw [ofVector_nil] at hrun
  exact ⟨_, hrun, empty_ofVector _ hlen, allTrue_ofVector _ hlen⟩

/-- An `OP_IF` that is not taken, its `OP_ELSE`, a nested `OP_IF` and its `OP_ENDIF`. -/
theorem run_refines_vector_ifElse :
    opsEnabled [] [.pushBack false, .toggleTop, .pushBack true, .popBack] = true ∧
      opsFit [] [.pushBack false, .toggleTop, .pushBack true, .popBack] = true ∧
      ∃ s, ConditionStack.run {} ([.pushBack false, .toggleTop, .pushBack true, .popBack].take 2) =
          some s ∧
        s.empty = (vectorRun [] ([.pushBack false, .toggleTop, .pushBack true, .popBack].take 2)).isEmpty ∧
        s.allTrue =
          !(vectorRun [] ([.pushBack false, .toggleTop, .pushBack true, .popBack].take 2)).contains false :=
  ⟨by decide, by decide, run_refines_vector _ (by decide) (by decide) 2⟩

theorem opsEnabled_pushes (v fs : List Bool) : opsEnabled v (fs.map .pushBack) = true := by
  induction fs generalizing v with
  | nil => rfl
  | cons f fs ih => simp only [List.map_cons, opsEnabled, CondOp.enabled, ih, Bool.and_self]

theorem vectorRun_pushes (v fs : List Bool) : vectorRun v (fs.map .pushBack) = v ++ fs := by
  induction fs generalizing v with
  | nil => simp
  | cons f fs ih => simp [vectorStep, ih]

/-- **The counters wrap**: `2^32 - 1` pushes of true and a push of false are enabled, and
leave the counters of the empty, all-true stack, while the stack of booleans holds `2^32`
values, the last of them false. -/
theorem run_wraps :
    opsEnabled [] (List.replicate (2 ^ 32 - 1) (.pushBack true) ++ [.pushBack false]) = true ∧
      (∃ s, ConditionStack.run {}
          (List.replicate (2 ^ 32 - 1) (.pushBack true) ++ [.pushBack false]) = some s ∧
        s.empty = true ∧ s.allTrue = true) ∧
      (vectorRun [] (List.replicate (2 ^ 32 - 1) (.pushBack true) ++ [.pushBack false])).isEmpty =
        false ∧
      (vectorRun [] (List.replicate (2 ^ 32 - 1) (.pushBack true) ++ [.pushBack false])).contains
        false = true := by
  have hmap : List.replicate (2 ^ 32 - 1) (CondOp.pushBack true) =
      (List.replicate (2 ^ 32 - 1) true).map .pushBack := by rw [List.map_replicate]
  have hops : (List.replicate (2 ^ 32 - 1) (CondOp.pushBack true) ++ [.pushBack false]) =
      (List.replicate (2 ^ 32 - 1) true ++ [false]).map .pushBack := by
    rw [List.map_append, hmap]
    rfl
  -- the pushes of true are counted exactly, up to the largest size
  have htrue : ConditionStack.run {} (List.replicate (2 ^ 32 - 1) (.pushBack true)) =
      some ⟨0xFFFFFFFF, noFalse⟩ := by
    have hlen : ([] : List Bool).length +
        (List.replicate (2 ^ 32 - 1) (CondOp.pushBack true)).length < 2 ^ 32 := by
      rw [List.length_replicate, List.length_nil]
      omega
    have hrun := run_ofVector [] (List.replicate (2 ^ 32 - 1) (.pushBack true))
      (by rw [hmap]; exact opsEnabled_pushes _ _) (opsFit_of_length_lt _ _ hlen)
      (Nat.zero_lt_succ _)
    rw [ofVector_nil, hmap, vectorRun_pushes, List.nil_append] at hrun
    have hnot : false ∉ List.replicate (2 ^ 32 - 1) true := by
      rw [List.mem_replicate]
      exact fun h => Bool.false_ne_true h.2
    rw [hmap, hrun]
    simp only [ofVector, List.length_replicate, if_neg hnot]
    rfl
  have hlast : false ∈ List.replicate (2 ^ 32 - 1) true ++ [false] :=
    List.mem_append_right _ (List.mem_singleton_self _)
  refine ⟨by rw [hops]; exact opsEnabled_pushes _ _, ⟨{}, ?_, rfl, rfl⟩, ?_, ?_⟩
  · -- the push of false wraps the size to zero and its position to `NO_FALSE`
    rw [ConditionStack.run, List.foldlM_append]
    rw [ConditionStack.run] at htrue
    rw [htrue]
    rfl
  · rw [hops, vectorRun_pushes, List.nil_append]
    exact List.isEmpty_eq_false_iff_exists_mem.mpr ⟨false, hlast⟩
  · rw [hops, vectorRun_pushes, List.nil_append]
    exact List.contains_iff_mem.mpr hlast

end ConditionStack

end Sumcoin
