import Sulion.Lib.Table

set_option autoImplicit false

/-! # A write-back cache over a keyed table

A cache `cache` in front of a table `t` holds some of its rows, changed or not, and rows `t` does
not have yet. What the cache's owner reads is `overlay t cache`: the cached row where there is
one, the stored row otherwise. Writing the changed rows back with `mergeList` (an upsert) or
`updateList` (an update of rows that exist) has to leave exactly that table.

The file has the algebra of `overlay` (what caching a stored row, inserting and modifying do
to it) and the two write-back rules, `merge_eq_overlay` and `update_eq_overlay`.
-/

namespace Sulion.Table

variable {κ ρ : Type*} [Ord κ] [Std.TransOrd κ] [Std.LawfulEqOrd κ]

/-- The table as the owner of the cache `cache` sees it. -/
def overlay (t cache : Table κ ρ) : Table κ ρ := merge (fun _ r => r) t cache

theorem lookup_overlay (t cache : Table κ ρ) (k : κ) :
    (overlay t cache)[k]? = cache[k]?.or t[k]? := by
  rw [overlay, lookup_merge]
  cases cache[k]? <;> cases t[k]? <;> rfl

theorem lookup_overlay_cached {t cache : Table κ ρ} {k : κ} {r : ρ} (h : cache[k]? = some r) :
    (overlay t cache)[k]? = some r := by
  rw [lookup_overlay, h, Option.some_or]

theorem lookup_overlay_stored {t cache : Table κ ρ} {k : κ} (h : cache[k]? = none) :
    (overlay t cache)[k]? = t[k]? := by
  rw [lookup_overlay, h, Option.none_or]

@[simp] theorem overlay_empty (t : Table κ ρ) : overlay t ∅ = t := by
  apply Table.ext
  intro k
  rw [lookup_overlay]
  simp

theorem lookup_modify [DecidableEq κ] (t : Table κ ρ) (k k' : κ) (f : ρ → ρ) :
    (t.modify k f)[k']? = if k = k' then t[k]?.map f else t[k']? := by
  rw [Std.ExtTreeMap.getElem?_modify]
  by_cases h : k = k'
  · subst h
    simp
  · simp [h]

section Modify

variable [DecidableEq κ] {t : Table κ ρ} {k k' : κ} {f : ρ → ρ} {r r' : ρ}

theorem lookup_modify_eq_some (h : (t.modify k f)[k']? = some r') :
    ∃ r, t[k']? = some r ∧ (r' = r ∨ r' = f r) := by
  rw [lookup_modify] at h
  split at h
  · rename_i heq
    obtain ⟨r, hr, rfl⟩ := Option.map_eq_some_iff.mp h
    exact ⟨r, heq ▸ hr, Or.inr rfl⟩
  · exact ⟨r', h, Or.inl rfl⟩

theorem exists_lookup_modify (h : t[k']? = some r) :
    ∃ r', (t.modify k f)[k']? = some r' ∧ (r' = r ∨ r' = f r) := by
  rw [lookup_modify]
  by_cases heq : k = k'
  · subst heq
    exact ⟨f r, by rw [if_pos rfl, h]; rfl, Or.inr rfl⟩
  · exact ⟨r, by rw [if_neg heq, h], Or.inl rfl⟩

end Modify

section Algebra

variable [DecidableEq κ] {t cache : Table κ ρ} {k : κ} {r : ρ}

/-- Writing a row to the cache writes it to the table the owner sees. -/
theorem overlay_insert (t cache : Table κ ρ) (k : κ) (r : ρ) :
    overlay t (cache.insert k r) = (overlay t cache).insert k r := by
  apply Table.ext
  intro k'
  rw [lookup_overlay, lookup_insert, lookup_insert, lookup_overlay]
  by_cases h : k = k' <;> simp [h]

/-- Caching a stored row changes nothing the owner sees. -/
theorem overlay_insert_stored (hc : cache[k]? = none) (ht : t[k]? = some r) :
    overlay t (cache.insert k r) = overlay t cache := by
  apply Table.ext
  intro k'
  rw [lookup_overlay, lookup_insert, lookup_overlay]
  by_cases h : k = k'
  · subst h
    rw [if_pos rfl, hc, ht, Option.some_or, Option.none_or]
  · rw [if_neg h]

theorem overlay_modify (f : ρ → ρ) (h : cache[k]? = some r) :
    overlay t (cache.modify k f) = (overlay t cache).modify k f := by
  apply Table.ext
  intro k'
  rw [lookup_overlay, lookup_modify, lookup_modify, lookup_overlay, lookup_overlay]
  by_cases hk : k = k'
  · subst hk
    rw [if_pos rfl, if_pos rfl, h, Option.map_some, Option.some_or, Option.some_or,
      Option.map_some]
  · rw [if_neg hk, if_neg hk]

end Algebra

/-! ## Rows under their own keys -/

/-- Every row of the table is stored under its own key. -/
def Keyed (key : ρ → κ) (t : Table κ ρ) : Prop := ∀ (k : κ) r, t[k]? = some r → key r = k

theorem Keyed.insert [DecidableEq κ] {key : ρ → κ} {t : Table κ ρ} (h : Keyed key t) {k : κ}
    {r : ρ} (hr : key r = k) : Keyed key (t.insert k r) := by
  intro k' r' hk'
  rw [lookup_insert] at hk'
  split at hk'
  · rename_i heq
    cases hk'
    exact hr.trans heq
  · exact h k' r' hk'

theorem Keyed.modify [DecidableEq κ] {key : ρ → κ} {t : Table κ ρ} (h : Keyed key t) {k : κ}
    {f : ρ → ρ} (hf : ∀ r, key (f r) = key r) : Keyed key (t.modify k f) := by
  intro k' r' hk'
  rw [lookup_modify] at hk'
  split at hk'
  · rename_i heq
    obtain ⟨r, hr, rfl⟩ := Option.map_eq_some_iff.mp hk'
    exact (hf r).trans ((h k r hr).trans heq)
  · exact h k' r' hk'

theorem Keyed.overlay {key : ρ → κ} {t cache : Table κ ρ} (ht : Keyed key t)
    (hc : Keyed key cache) :
    Keyed key (overlay t cache) := by
  intro k r hk
  rw [lookup_overlay] at hk
  rcases Option.or_eq_some_iff.mp hk with h | ⟨-, h⟩
  · exact hc k r h
  · exact ht k r h

theorem Keyed.mem_rows {key : ρ → κ} {t : Table κ ρ} (h : Keyed key t) {r : ρ} :
    r ∈ rows t ↔ t[key r]? = some r := by
  rw [Table.mem_rows]
  constructor
  · rintro ⟨k, hk⟩
    rwa [h k r hk]
  · intro hk
    exact ⟨_, hk⟩

/-- The rows with their own keys are the entries of the table. -/
theorem Keyed.map_rows {key : ρ → κ} {t : Table κ ρ} (h : Keyed key t) :
    ((rows t).map fun r => (key r, r)) = t.toList := by
  rw [rows, List.map_map]
  refine (List.map_congr_left fun kr hkr => ?_).trans (List.map_id _)
  have := Std.ExtTreeMap.mem_toList_iff_getElem?_eq_some.mp hkr
  exact Prod.ext (h _ _ this) rfl

/-- What is made of the rows, with their keys. -/
theorem Keyed.map_rows_key {τ : Type*} {key : ρ → κ} {t : Table κ ρ} (h : Keyed key t)
    (g : ρ → τ) : ((rows t).map fun r => (key r, g r)) = t.toList.map fun kr => (kr.1, g kr.2) := by
  rw [← h.map_rows, List.map_map]
  rfl

theorem Keyed.map_rows_keys {key : ρ → κ} {t : Table κ ρ} (h : Keyed key t) :
    (rows t).map key = t.toList.map Prod.fst := by
  rw [← h.map_rows, List.map_map]
  rfl

theorem Keyed.nodup_rows {key : ρ → κ} {t : Table κ ρ} (h : Keyed key t) : (rows t).Nodup := by
  have hkeys : ((rows t).map key).Nodup := by
    rw [h.map_rows_keys]
    exact nodup_keys t
  exact hkeys.of_map

theorem Keyed.filter {key : ρ → κ} {t : Table κ ρ} (h : Keyed key t) (p : κ → ρ → Bool) :
    Keyed key (t.filter p) := by
  intro k r hk
  rw [Std.ExtTreeMap.getElem?_filter'] at hk
  exact h k r (Option.filter_eq_some_iff.mp hk).1

/-! ## Writing back -/

/-- Update the rows under the listed keys, where they exist. -/
def updateList {τ : Type*} (f : ρ → τ → ρ) (t : Table κ ρ) (new : List (κ × τ)) : Table κ ρ :=
  new.foldl (fun t kr => t.modify kr.1 fun old => f old kr.2) t

section Update

variable [DecidableEq κ] {τ : Type*}

theorem lookup_updateList_of_not_mem (f : ρ → τ → ρ) (new : List (κ × τ)) (t : Table κ ρ) (k : κ)
    (h : ∀ kr ∈ new, kr.1 ≠ k) : (updateList f t new)[k]? = t[k]? := by
  induction new generalizing t with
  | nil => rfl
  | cons kr new ih =>
      have hne : kr.1 ≠ k := h kr (by simp)
      rw [updateList, List.foldl_cons]
      refine (ih _ fun kr' hkr' => h kr' (by simp [hkr'])).trans ?_
      rw [lookup_modify, if_neg hne]

theorem lookup_updateList_of_mem (f : ρ → τ → ρ) (new : List (κ × τ)) (t : Table κ ρ) {k : κ}
    {r : τ} (hdist : new.Pairwise fun a b => a.1 ≠ b.1) (h : (k, r) ∈ new) :
    (updateList f t new)[k]? = t[k]?.map fun old => f old r := by
  induction new generalizing t with
  | nil => cases h
  | cons kr new ih =>
      rw [List.pairwise_cons] at hdist
      rw [updateList, List.foldl_cons]
      rcases List.mem_cons.mp h with rfl | h'
      · refine (lookup_updateList_of_not_mem f new _ k fun kr' hkr' => ?_).trans ?_
        · exact (hdist.1 kr' hkr').symm
        · rw [lookup_modify, if_pos rfl]
      · have hne : kr.1 ≠ k := hdist.1 (k, r) h'
        refine (ih _ hdist.2 h').trans ?_
        rw [lookup_modify, if_neg hne]

end Update

section Entries

variable {τ : Type*} (cache : Table κ τ)

theorem distinct_map_toList {σ : Type*} (g : τ → σ) :
    (cache.toList.map fun kr => (kr.1, g kr.2)).Pairwise fun a b => a.1 ≠ b.1 := by
  rw [List.pairwise_map]
  exact (Std.ExtTreeMap.distinct_keys_toList (t := cache)).imp fun {a b} hne (heq : a.1 = b.1) =>
    hne (by simp [heq])

theorem mem_map_toList {σ : Type*} (g : τ → σ) {k : κ} {s : τ} (h : cache[k]? = some s) :
    (k, g s) ∈ cache.toList.map fun kr => (kr.1, g kr.2) :=
  List.mem_map.mpr ⟨(k, s), Std.ExtTreeMap.mem_toList_iff_getElem?_eq_some.mpr h, rfl⟩

theorem ne_of_mem_map_toList {σ : Type*} (g : τ → σ) {k : κ} (h : cache[k]? = none) :
    ∀ kr ∈ cache.toList.map fun kr => (kr.1, g kr.2), kr.1 ≠ k := by
  intro kr hkr hkey
  obtain ⟨entry, hentry, rfl⟩ := List.mem_map.mp hkr
  have hlookup := Std.ExtTreeMap.mem_toList_iff_getElem?_eq_some.mp hentry
  have hkey' : entry.1 = k := hkey
  rw [hkey', h] at hlookup
  cases hlookup

/-- Merging what is made of another table's rows. -/
theorem lookup_mergeList_map (f : ρ → ρ → ρ) (t : Table κ ρ) (g : τ → ρ) (k : κ) :
    (mergeList f t (cache.toList.map fun kr => (kr.1, g kr.2)))[k]? =
      match cache[k]? with
      | none => t[k]?
      | some s => some (t[k]?.elim (g s) fun old => f old (g s)) := by
  cases hk : cache[k]? with
  | none => exact lookup_mergeList_of_not_mem f _ t k (ne_of_mem_map_toList cache g hk)
  | some s =>
      exact lookup_mergeList_of_mem f _ t (distinct_map_toList cache g) (mem_map_toList cache g hk)

/-- Updating by what is made of another table's rows. -/
theorem lookup_updateList_map [DecidableEq κ] {σ : Type*} (f : ρ → σ → ρ) (t : Table κ ρ)
    (g : τ → σ) (k : κ) :
    (updateList f t (cache.toList.map fun kr => (kr.1, g kr.2)))[k]? =
      match cache[k]? with
      | none => t[k]?
      | some s => t[k]?.map fun old => f old (g s) := by
  cases hk : cache[k]? with
  | none => exact lookup_updateList_of_not_mem f _ t k (ne_of_mem_map_toList cache g hk)
  | some s =>
      exact lookup_updateList_of_mem f _ t (distinct_map_toList cache g) (mem_map_toList cache g hk)

end Entries

/-- **Write-back by upsert.** When the rows that are not written back are stored as they are,
and the upsert of a written one over its stored version gives the written one, what is stored
is what the owner saw. -/
theorem merge_eq_overlay {t cache : Table κ ρ} (upsert : ρ → ρ → ρ) (p : κ → ρ → Bool)
    (hclean : ∀ (k : κ) r, cache[k]? = some r → p k r = false → t[k]? = some r)
    (hup : ∀ (k : κ) r old, cache[k]? = some r → t[k]? = some old → upsert old r = r) :
    merge upsert t (cache.filter p) = overlay t cache := by
  apply Table.ext
  intro k
  rw [lookup_merge, Std.ExtTreeMap.getElem?_filter', lookup_overlay]
  cases hc : cache[k]? with
  | none => rfl
  | some r =>
      rw [Option.some_or, Option.filter_some]
      cases hp : p k r with
      | false => exact hclean k r hc hp
      | true =>
          cases ht : t[k]? with
          | none => rfl
          | some old => exact congrArg some (hup k r old hc ht)

end Sulion.Table
