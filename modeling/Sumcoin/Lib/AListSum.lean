import Mathlib

/-!
# Sums over association lists

A map that keeps a running total of a measure of its entries (a memory count, a size)
is correct when the total is the sum of the measure over the entries.  Overwriting or
erasing a key changes that sum by what the key held: `AList.sumBy_erase` and
`AList.sumBy_insert` say so, with what the key held read off `lookup`.

## Main definitions

* `AList.sumBy`: the sum of a measure over the entries.

## Main statements

* `AList.sumBy_erase`, `AList.sumBy_insert`, `AList.measureAt_le_sumBy`.
-/

namespace AList

variable {α : Type _} {β : α → Type _} [DecidableEq α]

/-- The sum of `f` over the entries of `s`. -/
def sumBy (f : ∀ a, β a → Nat) (s : AList β) : Nat := (s.entries.map fun x => f x.1 x.2).sum

/-- What `f` gives the value at `a`, or zero when there is none. -/
def measureAt (f : ∀ a, β a → Nat) (a : α) (s : AList β) : Nat := ((s.lookup a).map (f a)).getD 0

omit [DecidableEq α] in
@[simp] theorem sumBy_empty (f : ∀ a, β a → Nat) : sumBy f (∅ : AList β) = 0 := rfl

/-- Erasing the first entry of `a` from a list takes off what `f` gives that entry. -/
theorem sum_map_kerase (f : ∀ a, β a → Nat) (a : α) :
    ∀ l : List (Sigma β), ((l.kerase a).map fun x => f x.1 x.2).sum +
      ((l.dlookup a).map (f a)).getD 0 = (l.map fun x => f x.1 x.2).sum
  | [] => rfl
  | ⟨a', b'⟩ :: l => by
    by_cases h : a = a'
    · subst h
      rw [List.kerase_cons_eq (show a = (⟨a, b'⟩ : Sigma β).1 from rfl), List.dlookup_cons_eq]
      simp [Nat.add_comm]
    · rw [List.kerase_cons_ne h, List.dlookup_cons_ne l _ h, List.map_cons, List.sum_cons,
        List.map_cons, List.sum_cons, Nat.add_assoc, sum_map_kerase f a l]

theorem sumBy_erase (f : ∀ a, β a → Nat) (a : α) (s : AList β) :
    sumBy f (s.erase a) + measureAt f a s = sumBy f s :=
  sum_map_kerase f a s.entries

theorem measureAt_of_lookup_eq_some (f : ∀ a, β a → Nat) {a : α} {s : AList β} {b : β a}
    (h : s.lookup a = some b) : measureAt f a s = f a b := by
  simp [measureAt, h]

theorem measureAt_of_lookup_eq_none (f : ∀ a, β a → Nat) {a : α} {s : AList β}
    (h : s.lookup a = none) : measureAt f a s = 0 := by
  simp [measureAt, h]

theorem measureAt_le_sumBy (f : ∀ a, β a → Nat) (a : α) (s : AList β) :
    measureAt f a s ≤ sumBy f s := by
  have h := sumBy_erase f a s
  omega

theorem sumBy_insert (f : ∀ a, β a → Nat) (a : α) (b : β a) (s : AList β) :
    sumBy f (s.insert a b) + measureAt f a s = sumBy f s + f a b := by
  have h := sumBy_erase f a s
  simp only [sumBy, entries_insert, List.map_cons, List.sum_cons] at h ⊢
  simp only [erase] at h
  omega

end AList
