import Mathlib

/-!
# Reading a successful `Except` computation

A validation routine written in the `Except` monad is a sequence of guards, each of
which either throws or lets the rest run.  To know what a successful run has checked,
it is enough to peel the sequence apart: a bind succeeds when both halves do, a guard
succeeds when its condition is false, and a loop of checks succeeds when every check
does.  These lemmas are that peeling, stated once; the simp set below turns the
equation `f x = .ok r` of a guard sequence into the conjunction of its guards.

## Main results

* `Except.bind_eq_ok`: the inversion of a bind.
* `Except.forM_eq_ok`: a list of checks passes when each check passes.
* `Except.foldlM_inv`, `Except.foldlM_inv_mem`: what every successful step keeps, a
  successful fold keeps.
-/

namespace Except

variable {ε α β : Type _}

/-- A sequenced computation succeeds exactly when each step succeeds in turn. -/
@[simp] theorem bind_eq_ok {x : Except ε α} {f : α → Except ε β} {b : β} :
    (x >>= f) = .ok b ↔ ∃ a, x = .ok a ∧ f a = .ok b := by
  cases x <;> simp [bind, Except.bind]

@[simp] theorem pure_eq_ok {a b : α} : (pure a : Except ε α) = .ok b ↔ a = b := by
  simp [pure, Except.pure]

@[simp] theorem throw_eq_ok {e : ε} {b : α} : (throw e : Except ε α) = .ok b ↔ False := by
  simp [throw, throwThe, MonadExceptOf.throw]

/-- A value passes on to the rest of the sequence. -/
theorem ok_bind {a : α} {f : α → Except ε β} : (Except.ok a >>= f : Except ε β) = f a := rfl

/-- A thrown error skips the rest of the sequence. -/
@[simp] theorem throw_bind {e : ε} {f : α → Except ε β} :
    (throw e >>= f : Except ε β) = throw e := rfl

/-- A bind in both branches of a condition is a bind after it: `let x ← if c then a else b`
in a `do` block unfolds to the left side. -/
theorem ite_bind {p : Prop} [Decidable p] (x y : Except ε α) (f : α → Except ε β) :
    (if p then x >>= f else y >>= f) = (if p then x else y) >>= f :=
  (apply_ite (· >>= f) p x y).symm

/-- A guard whose branch throws passes exactly when its condition is false. -/
@[simp] theorem ite_throw_eq_ok {p : Prop} [Decidable p] {e : ε} {y : Except ε α} {b : α} :
    (if p then throw e else y) = .ok b ↔ ¬p ∧ y = .ok b := by
  by_cases hp : p <;> simp [hp]

/-- A unit success has one value. -/
@[simp] theorem exists_unit_eq_ok {x : Except ε Unit} : (∃ u, x = .ok u) ↔ x = .ok () :=
  ⟨fun ⟨(), h⟩ => h, fun h => ⟨(), h⟩⟩

/-- A loop of checks passes exactly when every check passes. -/
theorem forM_eq_ok {l : List α} {f : α → Except ε PUnit} :
    forM l f = .ok ⟨⟩ ↔ ∀ a ∈ l, f a = .ok ⟨⟩ := by
  induction l with
  | nil => simp [pure, Except.pure]
  | cons a l ih =>
    simp only [List.forM_cons, bind_eq_ok, List.mem_cons, forall_eq_or_imp, ← ih]
    exact ⟨fun ⟨⟨⟩, ha, hl⟩ => ⟨ha, hl⟩, fun ⟨ha, hl⟩ => ⟨⟨⟩, ha, hl⟩⟩

/-- A property kept by every successful step of a fold holds of its successful result. -/
theorem foldlM_inv {γ : Type _} {f : β → γ → Except ε β} (P : β → Prop)
    (hstep : ∀ b c b', P b → f b c = .ok b' → P b') :
    ∀ {l : List γ} {init r : β}, P init → l.foldlM f init = .ok r → P r
  | [], _, _, hinit, h => by
    simp only [List.foldlM_nil, pure_eq_ok] at h
    exact h ▸ hinit
  | c :: l, init, r, hinit, h => by
    simp only [List.foldlM_cons, bind_eq_ok] at h
    obtain ⟨b', hf, hl⟩ := h
    exact foldlM_inv P hstep (hstep init c b' hinit hf) hl

/-- `foldlM_inv` for a step that may use that its element is one of the list's. -/
theorem foldlM_inv_mem {γ : Type _} {f : β → γ → Except ε β} (P : β → Prop) :
    ∀ {l : List γ}, (∀ b c b', c ∈ l → P b → f b c = .ok b' → P b') →
      ∀ {init r : β}, P init → l.foldlM f init = .ok r → P r
  | [], _, _, _, hinit, h => by
    simp only [List.foldlM_nil, pure_eq_ok] at h
    exact h ▸ hinit
  | c :: l, hstep, init, r, hinit, h => by
    simp only [List.foldlM_cons, bind_eq_ok] at h
    obtain ⟨b', hf, hl⟩ := h
    exact foldlM_inv_mem P (fun b c' b'' hc => hstep b c' b'' (List.mem_cons_of_mem _ hc))
      (hstep init c b' List.mem_cons_self hinit hf) hl

/-- Every element of a successful fold had a successful step. -/
theorem exists_step_of_foldlM {γ : Type _} {f : β → γ → Except ε β} :
    ∀ {l : List γ} {init r : β}, l.foldlM f init = .ok r → ∀ c ∈ l, ∃ b b', f b c = .ok b'
  | [], _, _, _, _, hc => absurd hc List.not_mem_nil
  | c' :: l, init, r, h, c, hc => by
    simp only [List.foldlM_cons, bind_eq_ok] at h
    obtain ⟨b', hf, hl⟩ := h
    rcases List.mem_cons.mp hc with rfl | hc
    · exact ⟨init, b', hf⟩
    · exact exists_step_of_foldlM hl c hc

/-- A fold whose every step succeeds and keeps `P` succeeds, and keeps `P`: the run rule
for a loop of total steps. -/
theorem foldlM_ok_inv {γ : Type _} {f : β → γ → Except ε β} (P : β → Prop) :
    ∀ {l : List γ}, (∀ b c, c ∈ l → P b → ∃ b', f b c = .ok b' ∧ P b') →
      ∀ {init : β}, P init → ∃ r, l.foldlM f init = .ok r ∧ P r
  | [], _, init, hinit => ⟨init, rfl, hinit⟩
  | c :: l, hstep, init, hinit => by
    obtain ⟨b', hf, hb'⟩ := hstep init c List.mem_cons_self hinit
    obtain ⟨r, hl, hr⟩ := foldlM_ok_inv P
      (fun b c' hc => hstep b c' (List.mem_cons_of_mem _ hc)) hb'
    refine ⟨r, ?_, hr⟩
    simp only [List.foldlM_cons, bind_eq_ok]
    exact ⟨b', hf, hl⟩

end Except
