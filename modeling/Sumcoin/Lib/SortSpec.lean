import Mathlib

/-!
# Sorting by a comparator, whatever the order of the input

A program that shuffles a sequence and then sorts it with an unstable sort depends on
the shuffle unless the comparator leaves no choice.  `IsSorted comp l l'` is the
postcondition of such a sort: `l'` is a permutation of `l` in which no element is
`comp`-less than an element before it.  When `comp` is trichotomous (two elements
neither of which is less than the other are equal), that postcondition has one
solution, so every sort of every permutation of `l` returns the same list.

## Main definitions

* `SortSpec.swapIfInBounds`, `SortSpec.shuffle`: exchanges of positions, a permutation.
* `SortSpec.IsSorted`: the postcondition of an unstable sort.

## Main statements

* `SortSpec.IsSorted.eq`, `SortSpec.sort_shuffle_eq`: the postcondition determines the
  result, whatever the shuffle before the sort.
* `SortSpec.tri_of_key`: comparing by an injective key leaves the sort no choice.
* `SortSpec.isSorted_insertionSort`: a sort meeting it exists.
-/

namespace SortSpec

variable {α : Type _}

/-! ## Exchanges -/

/-- Exchange the elements at `i` and `j`; nothing changes when either is out of range. -/
def swapIfInBounds (l : List α) (i j : Nat) : List α :=
  if h : i < l.length ∧ j < l.length then (l.set i l[j]).set j l[i] else l

theorem swapIfInBounds_perm (l : List α) (i j : Nat) : (swapIfInBounds l i j).Perm l := by
  unfold swapIfInBounds
  split
  case isTrue h => exact List.set_set_perm h.1 h.2
  case isFalse => exact List.Perm.refl l

/-- The exchanges at `i, i - 1, …, 2`, each with the position `draw i` gives. -/
def shuffleFrom (draw : Nat → Nat) : Nat → List α → List α
  | i + 2, l => shuffleFrom draw (i + 1) (swapIfInBounds l (i + 2) (draw (i + 2)))
  | _, l => l

/-- `for (i = size - 1; i > 1; --i) swap(v[i], v[draw(i)])`. -/
def shuffle (draw : Nat → Nat) (l : List α) : List α := shuffleFrom draw (l.length - 1) l

theorem shuffleFrom_perm (draw : Nat → Nat) : ∀ (i : Nat) (l : List α),
    (shuffleFrom draw i l).Perm l
  | i + 2, l => (shuffleFrom_perm draw (i + 1) _).trans (swapIfInBounds_perm l _ _)
  | 0, l => List.Perm.refl l
  | 1, l => List.Perm.refl l

theorem shuffle_perm (draw : Nat → Nat) (l : List α) : (shuffle draw l).Perm l :=
  shuffleFrom_perm draw _ l

/-! ## The postcondition of a sort -/

/-- `l'` is `l` sorted by `comp`: a permutation of it in which no element is less than
one before it. -/
def IsSorted (comp : α → α → Bool) (l l' : List α) : Prop :=
  l'.Perm l ∧ l'.Pairwise fun a b => comp b a = false

variable {comp : α → α → Bool}

/-- Sorting a permutation of `l` is sorting `l`. -/
theorem IsSorted.of_perm {l₁ l₂ l' : List α} (hp : l₁.Perm l₂) (h : IsSorted comp l₁ l') :
    IsSorted comp l₂ l' :=
  ⟨h.1.trans hp, h.2⟩

/-- With a trichotomous comparator, a sort has one result. -/
theorem IsSorted.eq (htri : ∀ a b, comp a b = false → comp b a = false → a = b)
    {l l₁ l₂ : List α} (h₁ : IsSorted comp l l₁) (h₂ : IsSorted comp l l₂) : l₁ = l₂ :=
  List.Perm.eq_of_pairwise (fun a b _ _ hab hba => htri a b hba hab) h₁.2 h₂.2
    (h₁.1.trans h₂.1.symm)

/-- Sorting after any shuffle gives one list when the comparator is trichotomous: the
random order a sort starts from cannot be observed in its result. -/
theorem sort_shuffle_eq (htri : ∀ a b, comp a b = false → comp b a = false → a = b)
    {sort₁ sort₂ : List α → List α} (h₁ : ∀ l, IsSorted comp l (sort₁ l))
    (h₂ : ∀ l, IsSorted comp l (sort₂ l)) (draw₁ draw₂ : Nat → Nat) (l : List α) :
    sort₁ (shuffle draw₁ l) = sort₂ (shuffle draw₂ l) :=
  IsSorted.eq htri ((h₁ _).of_perm (shuffle_perm draw₁ l)) ((h₂ _).of_perm (shuffle_perm draw₂ l))

/-! ## Comparing by a key -/

section Key

variable {β : Type _} [LinearOrder β] {key : α → β}

/-- A comparator by an injective key into a linear order is trichotomous. -/
theorem tri_of_key (hcomp : ∀ a b, comp a b = decide (key a < key b))
    (hkey : Function.Injective key) : ∀ a b, comp a b = false → comp b a = false → a = b := by
  intro a b hab hba
  rw [hcomp, decide_eq_false_iff_not, not_lt] at hab hba
  exact hkey (le_antisymm hba hab)

theorem asymm_of_key (hcomp : ∀ a b, comp a b = decide (key a < key b)) :
    ∀ a b, comp a b = true → comp b a = false := by
  intro a b hab
  rw [hcomp, decide_eq_true_iff] at hab
  rw [hcomp, decide_eq_false_iff_not, not_lt]
  exact hab.le

theorem trans_of_key (hcomp : ∀ a b, comp a b = decide (key a < key b)) :
    ∀ a b c, comp a b = true → comp b c = true → comp a c = true := by
  intro a b c hab hbc
  rw [hcomp, decide_eq_true_iff] at hab hbc ⊢
  exact hab.trans hbc

end Key

/-- With a strict total order, insertion sort meets the postcondition. -/
theorem isSorted_insertionSort (htri : ∀ a b, comp a b = false → comp b a = false → a = b)
    (hasymm : ∀ a b, comp a b = true → comp b a = false)
    (htrans : ∀ a b c, comp a b = true → comp b c = true → comp a c = true) (l : List α) :
    IsSorted comp l (l.insertionSort fun a b => comp b a = false) := by
  let r : α → α → Prop := fun a b => comp b a = false
  -- `r` is the non-strict order of `comp`: total by asymmetry, transitive by trichotomy
  have htotal : Std.Total r := ⟨fun a b => by
    cases h : comp b a
    · exact .inl h
    · exact .inr (hasymm b a h)⟩
  have htr : IsTrans α r := ⟨fun a b c (hba : comp b a = false) (hcb : comp c b = false) => by
    show comp c a = false
    cases hca : comp c a
    case false => rfl
    case true =>
      cases hab : comp a b
      case true =>
        rw [htrans c a b hca hab] at hcb
        cases hcb
      case false =>
        obtain rfl := htri a b hab hba
        rw [hca] at hcb
        cases hcb⟩
  exact ⟨List.perm_insertionSort r l, List.pairwise_insertionSort r l⟩

end SortSpec
