import Mathlib.Tactic
import Std.Data.ExtTreeMap

set_option autoImplicit false
set_option linter.unusedSectionVars false

/-! # Keyed tables

A table is a finite map from keys to rows, iterated in key order (`Std.ExtTreeMap`). Two
tables with the same lookups are equal, so statements about tables are proved key by key.

Besides the operations of the map itself the file has the two bulk statements of SQL,

* `merge f t new` — `INSERT … SELECT … ON CONFLICT DO UPDATE`: every row of `new` is
  inserted, or combined by `f` with the row already there;
* `updateFrom f t other` — `UPDATE t … FROM other` joined on the key;

and `rows`, the rows in key order.
-/

namespace Sulion

/-- Pairs are ordered lexicographically, as the tuple keys of the modelled maps are. -/
instance instOrdProd {α β : Type*} [Ord α] [Ord β] : Ord (α × β) := lexOrd

/-- A finite map from keys to rows, in key order. -/
abbrev Table (κ ρ : Type*) [Ord κ] := Std.ExtTreeMap κ ρ compare

namespace Table

variable {κ ρ τ : Type*} [Ord κ] [Std.TransOrd κ] [Std.LawfulEqOrd κ]

/-- Tables are equal when their lookups are. -/
theorem ext {t t' : Table κ ρ} (h : ∀ k : κ, t[k]? = t'[k]?) : t = t' :=
  Std.ExtTreeMap.ext_getElem? h

theorem lookup_insert [DecidableEq κ] (t : Table κ ρ) (k k' : κ) (r : ρ) :
    (t.insert k r)[k']? = if k = k' then some r else t[k']? := by
  simp [Std.ExtTreeMap.getElem?_insert]

@[simp] theorem lookup_insert_self (t : Table κ ρ) (k : κ) (r : ρ) :
    (t.insert k r)[k]? = some r := by
  simp

theorem lookup_insert_ne (t : Table κ ρ) {k k' : κ} (r : ρ) (h : k ≠ k') :
    (t.insert k r)[k']? = t[k']? := by
  simp [Std.ExtTreeMap.getElem?_insert, h]

/-! ## Rows in key order -/

/-- The rows of a table, in key order. -/
def rows (t : Table κ ρ) : List ρ := t.toList.map Prod.snd

theorem mem_rows {t : Table κ ρ} {r : ρ} : r ∈ rows t ↔ ∃ k : κ, t[k]? = some r := by
  simp [rows, Std.ExtTreeMap.mem_toList_iff_getElem?_eq_some]

theorem nodup_keys (t : Table κ ρ) : (t.toList.map Prod.fst).Nodup := by
  rw [List.Nodup, List.pairwise_map]
  exact (Std.ExtTreeMap.distinct_keys_toList (t := t)).imp fun {a b} hne (heq : a.1 = b.1) =>
    hne (by simp [heq])

/-- Selecting rows is filtering the table: the order of the keys is kept. -/
theorem rows_filter (t : Table κ ρ) (p : ρ → Bool) :
    (rows t).filter p = rows (t.filter fun _ r => p r) := by
  simp [rows, Std.ExtTreeMap.toList_filter, List.filter_map, Function.comp_def]

/-! ## Bulk statements -/

/-- Insert the listed rows one by one, combining a row with the one already under its key. -/
def mergeList (f : ρ → ρ → ρ) (t : Table κ ρ) (new : List (κ × ρ)) : Table κ ρ :=
  new.foldl (fun t kr => t.alter kr.1 fun old => some (old.elim kr.2 fun r => f r kr.2)) t

/-- `INSERT … SELECT … ON CONFLICT DO UPDATE`, with `f old new` the updated row. -/
def merge (f : ρ → ρ → ρ) (t new : Table κ ρ) : Table κ ρ := mergeList f t new.toList

theorem lookup_mergeList_of_not_mem (f : ρ → ρ → ρ) (new : List (κ × ρ)) (t : Table κ ρ) (k : κ)
    (h : ∀ kr ∈ new, kr.1 ≠ k) : (mergeList f t new)[k]? = t[k]? := by
  induction new generalizing t with
  | nil => rfl
  | cons kr new ih =>
      have hne : kr.1 ≠ k := h kr (by simp)
      rw [mergeList, List.foldl_cons]
      refine (ih _ fun kr' hkr' => h kr' (by simp [hkr'])).trans ?_
      simp [Std.ExtTreeMap.getElem?_alter, hne]

theorem lookup_mergeList_of_mem (f : ρ → ρ → ρ) (new : List (κ × ρ)) (t : Table κ ρ) {k : κ}
    {r : ρ} (hdist : new.Pairwise fun a b => a.1 ≠ b.1) (h : (k, r) ∈ new) :
    (mergeList f t new)[k]? = some (t[k]?.elim r fun old => f old r) := by
  induction new generalizing t with
  | nil => cases h
  | cons kr new ih =>
      rw [List.pairwise_cons] at hdist
      rw [mergeList, List.foldl_cons]
      rcases List.mem_cons.mp h with rfl | h'
      · refine (lookup_mergeList_of_not_mem f new _ k fun kr' hkr' => ?_).trans ?_
        · exact (hdist.1 kr' hkr').symm
        · simp
      · have hne : kr.1 ≠ k := hdist.1 (k, r) h'
        refine (ih _ hdist.2 h').trans ?_
        simp [Std.ExtTreeMap.getElem?_alter, hne]

/-- **The upsert, key by key.** -/
theorem lookup_merge (f : ρ → ρ → ρ) (t new : Table κ ρ) (k : κ) :
    (merge f t new)[k]? =
      match new[k]? with
      | none => t[k]?
      | some r => some (t[k]?.elim r fun old => f old r) := by
  cases hk : new[k]? with
  | none =>
      refine lookup_mergeList_of_not_mem f _ t k fun kr hkr hkey => ?_
      have := Std.ExtTreeMap.mem_toList_iff_getElem?_eq_some.mp hkr
      rw [hkey, hk] at this
      cases this
  | some r =>
      refine lookup_mergeList_of_mem f _ t ?_
        (Std.ExtTreeMap.mem_toList_iff_getElem?_eq_some.mpr hk)
      have := Std.ExtTreeMap.distinct_keys_toList (t := new)
      simpa using this

/-- A property that `f` keeps and that both tables' rows have, the merged rows have. -/
theorem forall_rows_mergeList {P : ρ → Prop} (f : ρ → ρ → ρ) (hf : ∀ a b, P a → P b → P (f a b))
    (new : List (κ × ρ)) (t : Table κ ρ) (ht : ∀ (k : κ) r, t[k]? = some r → P r)
    (hnew : ∀ kr ∈ new, P kr.2) (k : κ) (r : ρ) (h : (mergeList f t new)[k]? = some r) : P r := by
  induction new generalizing t with
  | nil => exact ht k r h
  | cons kr new ih =>
      have hkr : P kr.2 := hnew kr (by simp)
      refine ih _ (fun k' r' hk' => ?_) (fun kr' hkr' => hnew kr' (by simp [hkr'])) h
      rw [Std.ExtTreeMap.getElem?_alter] at hk'
      split at hk'
      · cases hold : t[kr.1]? with
        | none => simpa [hold, ← Option.some.inj (by simpa [hold] using hk')] using hkr
        | some old =>
            rw [hold] at hk'
            exact Option.some.inj hk' ▸ hf old kr.2 (ht _ _ hold) hkr
      · exact ht k' r' hk'

/-- The table with the listed rows; the last row listed under a key stands. -/
def ofRows (new : List (κ × ρ)) : Table κ ρ := mergeList (fun _ r => r) ∅ new

theorem forall_rows_ofRows {P : ρ → Prop} {new : List (κ × ρ)} (h : ∀ kr ∈ new, P kr.2) {k : κ}
    {r : ρ} (hk : (ofRows new)[k]? = some r) : P r :=
  forall_rows_mergeList _ (fun _ _ _ hb => hb) new ∅ (fun k r h => by simp at h) h k r hk

/-- `UPDATE t SET … FROM other` joined on the key: rows without a partner stay. -/
def updateFrom (f : ρ → τ → ρ) (t : Table κ ρ) (other : Table κ τ) : Table κ ρ :=
  t.map fun k r => other[k]?.elim r (f r)

theorem lookup_updateFrom (f : ρ → τ → ρ) (t : Table κ ρ) (other : Table κ τ) (k : κ) :
    (updateFrom f t other)[k]? = t[k]?.map fun r => other[k]?.elim r (f r) := by
  simp [updateFrom, Std.ExtTreeMap.getElem?_map]

end Table

end Sulion
