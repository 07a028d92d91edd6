import Mathlib.Tactic

set_option autoImplicit false

/-! # Objects as dictionaries

A JavaScript object with string keys that are not numbers: its entries in the order in which their
keys came. Setting a key that is there keeps its place.
-/

namespace Sulion.Js

abbrev Obj (α : Type*) := List (String × α)

namespace Obj

variable {α : Type*} (o : Obj α) (k : String)

/-- `Object.keys`. -/
def keys : List String := o.map Prod.fst

/-- `o[k]`. -/
def get : Option α := o.lookup k

/-- `o[k] = v`. -/
def set (v : α) : Obj α :=
  if k ∈ keys o then o.map fun e => if e.1 = k then (k, v) else e else o ++ [(k, v)]

/-- `delete o[k]`. -/
def delete : Obj α := o.filter fun e => e.1 ≠ k

variable {o k} {k' : String} {v : α}

theorem get_cons (e : String × α) : get (e :: o) k = if k = e.1 then some e.2 else get o k := by
  obtain ⟨key, w⟩ := e
  by_cases h : k = key
  · simp [get, h]
  · simp [get, List.lookup_cons, h, beq_false_of_ne h]

theorem mem_keys_iff : k ∈ keys o ↔ ∃ v, get o k = some v := by
  induction o with
  | nil => simp [keys, get]
  | cons e o ih =>
      rw [get_cons, keys, List.map_cons, List.mem_cons]
      by_cases h : k = e.1
      · simp [h]
      · rw [if_neg h, ← ih]
        simp [h, keys]

theorem mem_of_get (h : get o k = some v) : (k, v) ∈ o := by
  induction o with
  | nil => cases h
  | cons e o ih =>
      rw [get_cons] at h
      split at h
      · rename_i heq
        cases h
        exact List.mem_cons.mpr (.inl (Prod.ext heq rfl))
      · exact List.mem_cons_of_mem _ (ih h)

theorem get_of_mem (hnodup : (keys o).Nodup) (h : (k, v) ∈ o) : get o k = some v := by
  induction o with
  | nil => exact absurd h List.not_mem_nil
  | cons e o ih =>
      rw [get_cons]
      obtain ⟨hnotin, hrest⟩ := List.nodup_cons.mp hnodup
      rcases List.mem_cons.mp h with rfl | h
      · exact if_pos rfl
      · have hkey : k ∈ o.map Prod.fst := List.mem_map_of_mem (f := Prod.fst) h
        have hother : ¬ k = e.1 := fun heq => hnotin (heq ▸ hkey)
        rw [if_neg hother]
        exact ih hrest h

theorem get_eq_none_iff : get o k = none ↔ k ∉ keys o := by
  rw [mem_keys_iff]
  cases get o k <;> simp

theorem get_set : get (set o k v) k' = if k' = k then some v else get o k' := by
  rw [set]
  split
  · rename_i hk
    -- the entry is replaced where it stands
    have hmap (l : Obj α) : get (l.map fun e => if e.1 = k then (k, v) else e) k' =
        if k' = k then (get l k).map fun _ => v else get l k' := by
      induction l with
      | nil => simp [get]
      | cons e l ih =>
          rw [List.map_cons, get_cons, get_cons, get_cons, ih]
          by_cases he : e.1 = k
          · by_cases hk' : k' = k
            · simp [he, hk']
            · simp [he, hk']
          · have hne : k ≠ e.1 := fun h => he h.symm
            by_cases hk' : k' = k
            · simp [he, hk', hne]
            · simp [he, hk']
    obtain ⟨w, hw⟩ := mem_keys_iff.mp hk
    rw [hmap, hw, Option.map_some]
  · rename_i hk
    induction o with
    | nil =>
        show get [(k, v)] k' = _
        rw [get_cons]
    | cons e o ih =>
        have hne : k ≠ e.1 := fun h => hk (h ▸ List.mem_cons_self)
        rw [List.cons_append, get_cons, get_cons, ih fun h => hk (List.mem_cons_of_mem _ h)]
        by_cases hk' : k' = k
        · simp [hk', hne]
        · simp [hk']

theorem keys_set : keys (set o k v) = if k ∈ keys o then keys o else keys o ++ [k] := by
  rw [set]
  split
  · rw [keys, List.map_map, keys]
    refine List.map_congr_left fun e _ => ?_
    rw [Function.comp_apply]
    split
    · rename_i h
      exact h.symm
    · rfl
  · simp [keys]

theorem mem_keys_set : k' ∈ keys (set o k v) ↔ k' = k ∨ k' ∈ keys o := by
  rw [keys_set]
  split
  · rename_i h
    exact ⟨.inr, fun h' => h'.elim (fun heq => heq ▸ h) id⟩
  · rw [List.mem_append, List.mem_singleton, or_comm]

theorem keys_delete : keys (delete o k) = (keys o).filter (· ≠ k) := by
  rw [delete, keys, keys, List.filter_map]
  rfl

theorem mem_keys_delete : k' ∈ keys (delete o k) ↔ k' ∈ keys o ∧ k' ≠ k := by
  rw [keys_delete, List.mem_filter, decide_eq_true_iff]

theorem get_delete : get (delete o k) k' = if k' = k then none else get o k' := by
  induction o with
  | nil => simp [get, delete]
  | cons e o ih =>
      rw [delete, List.filter_cons, get_cons]
      by_cases he : e.1 = k
      · rw [if_neg (by simpa using he)]
        refine ih.trans ?_
        by_cases hk' : k' = k
        · simp [hk']
        · simp [he, hk']
      · rw [if_pos (by simpa using he), get_cons]
        refine (if_congr Iff.rfl rfl ih).trans ?_
        by_cases hk' : k' = k
        · have : k ≠ e.1 := fun h => he h.symm
          simp [hk', this]
        · simp [hk']

theorem nodup_keys_set (h : (keys o).Nodup) : (keys (set o k v)).Nodup := by
  rw [keys_set]
  split
  · exact h
  · rename_i hk
    exact List.nodup_append.mpr ⟨h, List.nodup_singleton k,
      fun a ha b hb heq => hk (List.mem_singleton.mp hb ▸ heq ▸ ha)⟩

theorem nodup_keys_delete (h : (keys o).Nodup) : (keys (delete o k)).Nodup := by
  rw [keys_delete]
  exact h.filter _

end Obj

end Sulion.Js
