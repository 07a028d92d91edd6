import Sulion.Lib.Buckets
import Sulion.Lib.Queries

set_option autoImplicit false

/-! # Queries over rows in order

The forms of a query that depend on the order of its rows: `DISTINCT ON (key) … ORDER BY rank DESC`,
which keeps the last row of each key, `LAG`, which reads the row before, and the selection of
expressions that may fail, which fails with any of them. Each has a lemma for one more row at the
end, so that a table kept up row by row can be compared with the query over all rows.
-/

namespace Sulion

variable {α β κ V : Type*} [DecidableEq κ]

/-! ## The last row of each key -/

/-- `SELECT DISTINCT ON (key) … ORDER BY key, rank DESC`, for rows in the order of their rank: the
rows that no row of the same key follows. -/
def distinctLast (key : α → κ) : List α → List α
  | [] => []
  | a :: rows =>
      if ∃ b ∈ rows, key b = key a then distinctLast key rows else a :: distinctLast key rows

variable {key : α → κ} {rows : List α} {a b : α}

theorem distinctLast_sublist (key : α → κ) (rows : List α) :
    (distinctLast key rows).Sublist rows := by
  induction rows with
  | nil => exact List.Sublist.refl _
  | cons a rows ih =>
      rw [distinctLast]
      split
      · exact ih.trans (List.sublist_cons_self a rows)
      · exact ih.cons_cons a

theorem mem_of_mem_distinctLast (h : a ∈ distinctLast key rows) : a ∈ rows :=
  (distinctLast_sublist key rows).subset h

/-- **One more row** takes the place of the rows of its key. -/
theorem distinctLast_append (key : α → κ) (rows : List α) (a : α) :
    distinctLast key (rows ++ [a])
      = (distinctLast key rows).filter (fun b => decide (key b ≠ key a)) ++ [a] := by
  induction rows with
  | nil => simp [distinctLast]
  | cons b rows ih =>
      rw [List.cons_append, distinctLast, distinctLast, ih]
      by_cases hlater : ∃ d ∈ rows, key d = key b
      · have hlater' : ∃ d ∈ rows ++ [a], key d = key b := by
          obtain ⟨d, hd, hk⟩ := hlater
          exact ⟨d, by simp [hd], hk⟩
        rw [if_pos hlater', if_pos hlater]
      · by_cases hk : key a = key b
        · rw [if_pos ⟨a, by simp, hk⟩, if_neg hlater, List.filter_cons_of_neg (by simp [hk])]
        · have hlater' : ¬ ∃ d ∈ rows ++ [a], key d = key b := by
            rintro ⟨d, hd, hkd⟩
            rcases List.mem_append.mp hd with hd | hd
            · exact hlater ⟨d, hd, hkd⟩
            · exact hk (List.mem_singleton.mp hd ▸ hkd)
          rw [if_neg hlater', if_neg hlater, List.filter_cons_of_pos (by simp [Ne.symm hk]),
            List.cons_append]

/-- Rows that are read before the last of each key is kept. -/
theorem distinctLast_map (f : β → α) (rows : List β) :
    distinctLast key (rows.map f) = (distinctLast (fun b => key (f b)) rows).map f := by
  induction rows with
  | nil => rfl
  | cons b rows ih =>
      rw [List.map_cons, distinctLast, distinctLast, ih]
      have hlater :
          (∃ a ∈ rows.map f, key a = key (f b)) ↔ ∃ b' ∈ rows, key (f b') = key (f b) := by
        simp
      by_cases hexists : ∃ b' ∈ rows, key (f b') = key (f b)
      · rw [if_pos hexists, if_pos (hlater.mpr hexists)]
      · rw [if_neg hexists, if_neg fun h => hexists (hlater.mp h), List.map_cons]

/-! ## The row before -/

/-- `COALESCE(LAG(value) OVER (ORDER BY rank), first)`, beside each row. -/
def withLag (value : α → V) : V → List α → List (V × α)
  | _, [] => []
  | first, a :: rows => (first, a) :: withLag value (value a) rows

theorem withLag_append (value : α → V) (first : V) (rows : List α) (a : α) :
    withLag value first (rows ++ [a])
      = withLag value first rows ++ [((rows.getLast?.map value).getD first, a)] := by
  induction rows generalizing first with
  | nil => rfl
  | cons b rows ih =>
      rw [List.cons_append, withLag, withLag, ih, List.cons_append]
      congr 3
      cases rows with
      | nil => rfl
      | cons d rows => simp [List.getLast?_cons]

/-- Beside a row stands the first value or that of another row. -/
theorem mem_withLag {value : α → V} {first : V} {r : V × α} (h : r ∈ withLag value first rows) :
    r.2 ∈ rows ∧ (r.1 = first ∨ ∃ a ∈ rows, r.1 = value a) := by
  induction rows generalizing first with
  | nil => cases h
  | cons a rows ih =>
      rcases List.mem_cons.mp h with rfl | h
      · exact ⟨.head _, .inl rfl⟩
      · obtain ⟨hmem, hfirst⟩ := ih h
        refine ⟨.tail _ hmem, .inr ?_⟩
        rcases hfirst with heq | ⟨b, hb, heq⟩
        · exact ⟨a, .head _, heq⟩
        · exact ⟨b, .tail _ hb, heq⟩

/-! ## One more row of a group -/

theorem lookup_groupSum_append [Ord κ] [Std.TransOrd κ] [Std.LawfulEqOrd κ] [AddCommMonoid V]
    (rows : List (κ × V)) (row : κ × V) (k : κ) :
    (groupSum (rows ++ [row]))[k]? =
      if row.1 = k then some (((groupSum rows)[k]?).getD 0 + row.2) else (groupSum rows)[k]? := by
  have hstep : groupSum (rows ++ [row])
      = (groupSum rows).alter row.1 fun old => some (old.elim row.2 fun v => v + row.2) := by
    simp [groupSum, Table.mergeList, List.foldl_append]
  rw [hstep, Std.ExtTreeMap.getElem?_alter]
  by_cases hk : row.1 = k
  · subst hk
    cases (groupSum rows)[row.1]? <;> simp
  · simp [hk]

/-! ## Expressions that can fail -/

/-- The rows of a selection whose expressions all succeed. -/
theorem mapM_eq_some_iff {f : α → Option β} {rows : List α} {selected : List β} :
    rows.mapM f = some selected ↔ rows.map f = selected.map some := by
  induction rows generalizing selected with
  | nil =>
      cases selected with
      | nil => simp
      | cons b selected => simp
  | cons a rows ih =>
      rw [List.mapM_cons]
      cases selected with
      | nil => cases hf : f a <;> cases hrows : rows.mapM f <;> simp [hf]
      | cons b selected =>
          rw [List.map_cons, List.map_cons, List.cons.injEq, ← ih]
          cases hf : f a with
          | none => simp
          | some b' => cases hrows : rows.mapM f <;> simp

omit [DecidableEq κ] in
/-- A selection under keys keeps the keys. -/
theorem keys_of_mapM {g : κ × V → Option β} {rows : List (κ × V)} {selected : List (κ × β)}
    (h : (rows.mapM fun e => (g e).map fun b => (e.1, b)) = some selected) :
    selected.map Prod.fst = rows.map Prod.fst := by
  induction rows generalizing selected with
  | nil =>
      cases h
      rfl
  | cons e rows ih =>
      rw [List.mapM_cons] at h
      cases hg : g e with
      | none => simp [hg] at h
      | some b =>
          cases hrest : rows.mapM fun e => (g e).map fun b => (e.1, b) with
          | none => simp [hg, hrest] at h
          | some rest =>
              simp only [hg, hrest, Option.map_some, Option.pure_def, Option.bind_eq_bind,
                Option.bind_some, Option.some.injEq] at h
              rw [← h, List.map_cons, List.map_cons, ih hrest]

namespace Table

variable [Ord κ] [Std.TransOrd κ] [Std.LawfulEqOrd κ] {W : Type*}

/-- `SELECT DISTINCT ON (key) … ORDER BY key, rank DESC`: under each key the last of its rows. -/
theorem lookup_ofRows_map (key : α → κ) (value : α → V) (rows : List α) (k : κ) :
    (ofRows (rows.map fun a => (key a, value a)))[k]? =
      ((rows.filter fun a => decide (key a = k)).getLast?).map value := by
  induction rows using List.reverseRecOn with
  | nil => simp [ofRows, mergeList]
  | append_singleton rows a ih =>
      rw [List.map_append, List.map_singleton, ofRows_append, lookup_insert, List.filter_append]
      by_cases hk : key a = k
      · rw [if_pos hk, List.filter_cons_of_pos (by simp [hk]), List.filter_nil,
          List.getLast?_concat]
        rfl
      · rw [if_neg hk, List.filter_cons_of_neg (by simp [hk]), List.filter_nil, List.append_nil]
        exact ih

/-- `SELECT key, f(key, row)`, from the rows of a table. -/
def select (f : κ → V → Option W) (t : Table κ V) : Option (Table κ W) :=
  (t.toList.mapM fun e => (f e.1 e.2).map fun w => (e.1, w)).map ofRows

theorem lookup_of_select {f : κ → V → Option W} {t : Table κ V} {t' : Table κ W}
    (h : t.select f = some t') (k : κ) : (t[k]?).map (f k) = (t'[k]?).map some := by
  obtain ⟨rows, hrows, rfl⟩ := Option.map_eq_some_iff.mp h
  have hnodup : (rows.map Prod.fst).Nodup := by
    rw [keys_of_mapM hrows]
    exact nodup_keys t
  rw [mapM_eq_some_iff] at hrows
  have hmem : ∀ w, (ofRows rows)[k]? = some w ↔ ∃ v, t[k]? = some v ∧ f k v = some w := by
    intro w
    have hiff : (k, w) ∈ rows ↔ some (k, w) ∈ rows.map some := by simp
    rw [← Std.ExtTreeMap.mem_toList_iff_getElem?_eq_some, (toList_ofRows_perm hnodup).mem_iff, hiff,
      ← hrows, List.mem_map]
    constructor
    · rintro ⟨⟨k', v⟩, hv, heq⟩
      obtain ⟨w', hw, heq⟩ := Option.map_eq_some_iff.mp heq
      cases heq
      exact ⟨v, Std.ExtTreeMap.mem_toList_iff_getElem?_eq_some.mp hv, hw⟩
    · rintro ⟨v, hv, hw⟩
      exact ⟨(k, v), Std.ExtTreeMap.mem_toList_iff_getElem?_eq_some.mpr hv, by simp [hw]⟩
  -- A key of `t` has a row in the selection, or the selection fails.
  cases hv : t[k]? with
  | none =>
      cases hw : (ofRows rows)[k]? with
      | none => rfl
      | some w =>
          obtain ⟨v, hv', _⟩ := (hmem w).mp hw
          rw [hv] at hv'
          cases hv'
  | some v =>
      have hselected : (f k v).map (fun w => (k, w)) ∈ rows.map some := by
        rw [← hrows]
        exact List.mem_map.mpr ⟨(k, v), Std.ExtTreeMap.mem_toList_iff_getElem?_eq_some.mpr hv, rfl⟩
      cases hf : f k v with
      | none => simp [hf] at hselected
      | some w =>
          rw [(hmem w).mpr ⟨v, hv, hf⟩, Option.map_some, Option.map_some, hf]

/-- **The table selected** has the value of the expression under each key. -/
theorem select_eq_some_iff {f : κ → V → Option W} {t : Table κ V} {t' : Table κ W} :
    t.select f = some t' ↔ ∀ k : κ, (t[k]?).map (f k) = (t'[k]?).map some := by
  refine ⟨lookup_of_select, fun h => ?_⟩
  obtain ⟨rows, hrows⟩ : ∃ rows,
      (t.toList.mapM fun e => (f e.1 e.2).map fun w => (e.1, w)) = some rows := by
    refine ⟨t.toList.filterMap fun e => (f e.1 e.2).map fun w => (e.1, w), ?_⟩
    rw [mapM_eq_some_iff, List.map_filterMap_some_eq_filter_map_isSome, List.filter_eq_self.mpr]
    intro found hfound
    obtain ⟨⟨k, v⟩, hv, rfl⟩ := List.mem_map.mp hfound
    have hk := h k
    rw [Std.ExtTreeMap.mem_toList_iff_getElem?_eq_some.mp hv, Option.map_some] at hk
    cases hw : t'[k]? with
    | none => simp [hw] at hk
    | some w =>
        rw [hw, Option.map_some, Option.some.injEq] at hk
        simp [hk]
  have hselect : t.select f = some (ofRows rows) := by rw [select, hrows, Option.map_some]
  rw [hselect, Option.some.injEq]
  refine Table.ext fun k => ?_
  have heq := (lookup_of_select hselect k).symm.trans (h k)
  exact Option.map_injective (Option.some_injective W) heq

end Table

end Sulion
