import Mathlib

/-!
# Journals of writes to a store

A store keyed by `α` is a function; a run of a program that changes it one key at a time
is a list of writes, applied first to last (`applyWrites`).  To take the run back it is
enough to have kept, for each key written, the value it held before: writing those values
back undoes the run (`applyWrites_restore`), provided no key is written twice.  An undo
log that records the old values in the order of the writes may be replayed in either
order (`applyWrites_reverse`).

## Main definitions

* `Journal.applyWrites`.

## Main statements

* `Journal.applyWrites_of_not_mem`, `Journal.applyWrites_of_mem`,
  `Journal.applyWrites_of_forall_eq`: the value at one key.
* `Journal.applyWrites_restore`: writing back the old values is an undo.
-/

namespace Journal

variable {α γ : Type _} [DecidableEq α]

/-- The store `f` after the writes `ws`, first to last. -/
def applyWrites (f : α → γ) (ws : List (α × γ)) : α → γ :=
  ws.foldl (fun f w => Function.update f w.1 w.2) f

@[simp] theorem applyWrites_nil (f : α → γ) : applyWrites f [] = f := rfl

@[simp] theorem applyWrites_cons (f : α → γ) (w : α × γ) (ws : List (α × γ)) :
    applyWrites f (w :: ws) = applyWrites (Function.update f w.1 w.2) ws := rfl

/-- A key that no write touches keeps its value. -/
theorem applyWrites_of_not_mem {k : α} :
    ∀ {f : α → γ} {ws : List (α × γ)}, k ∉ ws.map Prod.fst → applyWrites f ws k = f k
  | _, [], _ => rfl
  | f, w :: ws, h => by
    have hw : k ≠ w.1 := fun hk => h (hk ▸ List.mem_cons_self)
    have hws : k ∉ ws.map Prod.fst := fun hk => h (List.mem_cons_of_mem _ hk)
    rw [applyWrites_cons, applyWrites_of_not_mem hws, Function.update_of_ne hw]

/-- When no key is written twice, a written key holds what was written to it. -/
theorem applyWrites_of_mem {k : α} {v : γ} :
    ∀ {f : α → γ} {ws : List (α × γ)}, (ws.map Prod.fst).Nodup → (k, v) ∈ ws →
      applyWrites f ws k = v
  | _, [], _, hk => absurd hk List.not_mem_nil
  | f, w :: ws, hnd, hk => by
    rw [List.map_cons, List.nodup_cons] at hnd
    rw [applyWrites_cons]
    rcases List.mem_cons.mp hk with rfl | hk
    · rw [applyWrites_of_not_mem hnd.1, Function.update_self]
    · exact applyWrites_of_mem hnd.2 hk

/-- When every write at `k` writes `v` and one does, the store holds `v` at `k`. -/
theorem applyWrites_of_forall_eq {k : α} {v : γ} :
    ∀ {f : α → γ} {ws : List (α × γ)}, k ∈ ws.map Prod.fst → (∀ w ∈ ws, w.1 = k → w.2 = v) →
      applyWrites f ws k = v
  | _, [], hk, _ => absurd hk List.not_mem_nil
  | f, w :: ws, hk, hv => by
    rw [applyWrites_cons]
    by_cases hws : k ∈ ws.map Prod.fst
    · exact applyWrites_of_forall_eq hws fun w' hw' => hv w' (List.mem_cons_of_mem _ hw')
    · -- the head is the last write at `k`
      have hw : w.1 = k := by simpa [hws, eq_comm] using hk
      rw [applyWrites_of_not_mem hws, ← hw, Function.update_self]
      exact hv w List.mem_cons_self hw

omit [DecidableEq α] in
/-- The keys of an undo log that records the old value of each write. -/
theorem map_fst_restoreLog (f : α → γ) (ws : List (α × γ)) :
    (ws.map fun w => (w.1, f w.1)).map Prod.fst = ws.map Prod.fst := by
  simp

/-- **Undo.**  Writing back, at each key written, the value it held before undoes writes
at distinct keys. -/
theorem applyWrites_restore (f : α → γ) {ws : List (α × γ)} (hnd : (ws.map Prod.fst).Nodup) :
    applyWrites (applyWrites f ws) (ws.map fun w => (w.1, f w.1)) = f := by
  funext k
  have hnd' := (map_fst_restoreLog f ws).symm ▸ hnd
  by_cases hk : k ∈ ws.map Prod.fst
  · obtain ⟨w, hw, rfl⟩ := List.mem_map.mp hk
    exact applyWrites_of_mem hnd' (List.mem_map_of_mem hw)
  · rw [applyWrites_of_not_mem (by rwa [map_fst_restoreLog]), applyWrites_of_not_mem hk]

/-- Writes at distinct keys may be applied in reverse. -/
theorem applyWrites_reverse (f : α → γ) {ws : List (α × γ)} (hnd : (ws.map Prod.fst).Nodup) :
    applyWrites f ws.reverse = applyWrites f ws := by
  funext k
  have hnd' : (ws.reverse.map Prod.fst).Nodup := by
    rw [List.map_reverse]
    exact List.nodup_reverse.mpr hnd
  by_cases hk : k ∈ ws.map Prod.fst
  · obtain ⟨w, hw, rfl⟩ := List.mem_map.mp hk
    rw [applyWrites_of_mem hnd' (List.mem_reverse.mpr hw), applyWrites_of_mem hnd hw]
  · have hk' : k ∉ ws.reverse.map Prod.fst := by rwa [List.map_reverse, List.mem_reverse]
    rw [applyWrites_of_not_mem hk', applyWrites_of_not_mem hk]

end Journal
