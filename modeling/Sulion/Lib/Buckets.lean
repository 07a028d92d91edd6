import Sulion.Lib.Table
import Mathlib.Algebra.BigOperators.Group.List.Lemmas

set_option autoImplicit false

/-! # Sums grouped by key

`sumWhere p value items` is the sum of the items that satisfy `p`, `SELECT SUM(…) WHERE …`.
Grouping such a sum and adding the groups again gives the whole (`sum_groups`), so a table
with one row for each group can be summed in place of the items (`Grouped.sum_filter`).

The file also says what is left in a table built from a list of rows (`lookup_ofRows_iff`).
-/

namespace Sulion

variable {κ α ρ M : Type*}

section Sums

variable [AddCommMonoid M]

/-- The sum over the items that satisfy `p`. -/
def sumWhere (p : α → Prop) [DecidablePred p] (value : α → M) (items : List α) : M :=
  ((items.filter fun a => decide (p a)).map value).sum

variable {p q : α → Prop} [DecidablePred p] [DecidablePred q] {value : α → M} {items more : List α}

@[simp] theorem sumWhere_nil : sumWhere p value [] = 0 := rfl

theorem sumWhere_cons (a : α) :
    sumWhere p value (a :: items) = (if p a then value a else 0) + sumWhere p value items := by
  unfold sumWhere
  by_cases h : p a <;> simp [h]

theorem sumWhere_append : sumWhere p value (items ++ more)
    = sumWhere p value items + sumWhere p value more := by
  simp [sumWhere]

theorem sumWhere_congr (h : ∀ a ∈ items, p a ↔ q a) :
    sumWhere p value items = sumWhere q value items := by
  have hfilter : (items.filter fun a => decide (p a)) = items.filter fun a => decide (q a) :=
    List.filter_congr fun a ha => by simp [h a ha]
  rw [sumWhere, sumWhere, hfilter]

theorem sumWhere_true : sumWhere (fun _ => True) value items = (items.map value).sum := by
  simp [sumWhere]

theorem sumWhere_of_forall_not (h : ∀ a ∈ items, ¬ p a) : sumWhere p value items = 0 := by
  unfold sumWhere
  rw [List.filter_eq_nil_iff.mpr (by simpa using h)]
  rfl

/-- The items that satisfy `p` and those that do not. -/
theorem sumWhere_filter_add (keep : α → Bool) :
    sumWhere p value (items.filter keep) + sumWhere p value (items.filter fun a => !keep a)
      = sumWhere p value items := by
  induction items with
  | nil => simp
  | cons a items ih =>
      cases hkeep : keep a with
      | true =>
          rw [List.filter_cons_of_pos hkeep, List.filter_cons_of_neg (by simp [hkeep]),
            sumWhere_cons, sumWhere_cons, ← ih, add_assoc]
      | false =>
          rw [List.filter_cons_of_neg (by simp [hkeep]), List.filter_cons_of_pos (by simp [hkeep]),
            sumWhere_cons, sumWhere_cons, ← ih, add_left_comm]

theorem sumWhere_map {β : Type*} (f : β → α) (items : List β) :
    sumWhere p value (items.map f) = sumWhere (fun b => p (f b)) (fun b => value (f b)) items := by
  simp [sumWhere, List.filter_map, Function.comp_def]

theorem map_sumWhere {N : Type*} [AddCommMonoid N] (f : M →+ N) :
    f (sumWhere p value items) = sumWhere p (fun a => f (value a)) items := by
  rw [sumWhere, map_list_sum, List.map_map]
  rfl

/-- A sum of counts over some of the items stays below one of larger counts over all. -/
theorem sum_le_of_sublist {v w : α → Int} (hsub : items.Sublist more)
    (hle : ∀ a ∈ more, 0 ≤ v a ∧ v a ≤ w a) :
    0 ≤ (items.map v).sum ∧ (items.map v).sum ≤ (more.map w).sum := by
  induction hsub with
  | slnil => exact ⟨le_refl 0, le_refl 0⟩
  | cons a _ ih =>
      obtain ⟨h0, h1⟩ := ih fun b hb => hle b (.tail _ hb)
      have ha := hle a (.head _)
      rw [List.map_cons, List.sum_cons]
      omega
  | cons_cons a _ ih =>
      obtain ⟨h0, h1⟩ := ih fun b hb => hle b (.tail _ hb)
      have ha := hle a (.head _)
      rw [List.map_cons, List.sum_cons, List.map_cons, List.sum_cons]
      omega

variable [DecidableEq κ] {key : α → κ}

/-- A term counted once among distinct keys. -/
theorem sum_indicator {keys : List κ} (hnodup : keys.Nodup) {k : κ} (hk : k ∈ keys) (m : M) :
    (keys.map fun k' => if k = k' then m else 0).sum = m := by
  induction keys with
  | nil => cases hk
  | cons k' keys ih =>
      rw [List.nodup_cons] at hnodup
      rw [List.map_cons, List.sum_cons]
      rcases List.mem_cons.mp hk with rfl | hk
      · have hzero : (keys.map fun k' => if k = k' then m else 0) = keys.map fun _ => 0 := by
          refine List.map_congr_left fun k' hk' => if_neg ?_
          rintro rfl
          exact hnodup.1 hk'
        rw [if_pos rfl, hzero]
        simp
      · have hne : k ≠ k' := fun heq => hnodup.1 (heq ▸ hk)
        rw [if_neg hne, ih hnodup.2 hk, zero_add]

/-- **The groups add up to the whole.** -/
theorem sum_groups {keys : List κ} (hnodup : keys.Nodup) (hkeys : ∀ a ∈ items, key a ∈ keys) :
    (keys.map fun k => sumWhere (fun a => key a = k) value items).sum = (items.map value).sum := by
  induction items with
  | nil => simp
  | cons a items ih =>
      have hstep : (keys.map fun k => sumWhere (fun a => key a = k) value (a :: items))
          = keys.map fun k =>
            (if key a = k then value a else 0) + sumWhere (fun a => key a = k) value items :=
        List.map_congr_left fun k _ => sumWhere_cons a
      rw [hstep, List.sum_map_add, sum_indicator hnodup (hkeys a (.head _)),
        ih fun a ha => hkeys a (.tail _ ha), List.map_cons, List.sum_cons]

/-- One entry for each key that occurs, with the sum of its items. -/
structure Grouped (key : α → κ) (value : α → M) (items : List α) (entries : List (κ × M)) :
    Prop where
  nodup : (entries.map Prod.fst).Nodup
  sum : ∀ e ∈ entries, e.2 = sumWhere (fun a => key a = e.1) value items
  keys : ∀ a ∈ items, key a ∈ entries.map Prod.fst

/-- **Grouped entries can be summed in place of the items.** -/
theorem Grouped.sum_filter {entries : List (κ × M)} (h : Grouped key value items entries)
    (P : κ → Prop) [DecidablePred P] :
    sumWhere (fun e => P e.1) Prod.snd entries = sumWhere (fun a => P (key a)) value items := by
  have hvalues : ∀ e ∈ entries.filter (fun e => decide (P e.1)),
      e.2 = sumWhere (fun a => key a = e.1) value (items.filter fun a => decide (P (key a))) := by
    intro e he
    rw [List.mem_filter] at he
    rw [h.sum e he.1]
    unfold sumWhere
    rw [List.filter_filter]
    congr 2
    refine List.filter_congr fun a _ => ?_
    by_cases hk : key a = e.1
    · simp [hk, of_decide_eq_true he.2]
    · simp [hk]
  have hentries : (entries.filter fun e => decide (P e.1)).map Prod.snd
      = ((entries.filter fun e => decide (P e.1)).map Prod.fst).map fun k =>
        sumWhere (fun a => key a = k) value (items.filter fun a => decide (P (key a))) := by
    rw [List.map_map]
    exact List.map_congr_left hvalues
  have hnodup : ((entries.filter fun e => decide (P e.1)).map Prod.fst).Nodup :=
    h.nodup.sublist (List.filter_sublist.map _)
  show ((entries.filter fun e => decide (P e.1)).map Prod.snd).sum = _
  rw [hentries, sum_groups hnodup]
  · rfl
  · intro a ha
    rw [List.mem_filter] at ha
    obtain ⟨e, he, hkey⟩ := List.mem_map.mp (h.keys a ha.1)
    exact List.mem_map.mpr ⟨e, List.mem_filter.mpr ⟨he, by rw [hkey]; exact ha.2⟩, hkey⟩

end Sums

namespace Table

variable [Ord κ] [Std.TransOrd κ] [Std.LawfulEqOrd κ]

theorem ofRows_append (rows : List (κ × ρ)) (e : κ × ρ) :
    ofRows (rows ++ [e]) = (ofRows rows).insert e.1 e.2 := by
  refine Table.ext fun k => ?_
  rw [ofRows, mergeList, List.foldl_append, List.foldl_cons, List.foldl_nil]
  rw [Std.ExtTreeMap.getElem?_alter, Std.ExtTreeMap.getElem?_insert]
  have helim : ∀ old : Option ρ, (old.elim e.2 fun _ => e.2) = e.2 := by rintro (_ | _) <;> rfl
  split
  · rw [helim]
  · rfl

/-- Under each key stands the last row listed for it. -/
theorem lookup_ofRows_iff [DecidableEq κ] {rows : List (κ × ρ)} {k : κ} {r : ρ} :
    (ofRows rows)[k]? = some r ↔
      ∃ before after, rows = before ++ (k, r) :: after ∧ ∀ e ∈ after, e.1 ≠ k := by
  induction rows using List.reverseRecOn with
  | nil => simp [ofRows, mergeList]
  | append_singleton rows e ih =>
      rw [ofRows_append, lookup_insert]
      constructor
      · intro h
        split at h
        · rename_i heq
          cases h
          subst heq
          exact ⟨rows, [], rfl, by simp⟩
        · rename_i hne
          obtain ⟨before, after, rfl, hafter⟩ := ih.mp h
          refine ⟨before, after ++ [e], by simp, fun e' he' => ?_⟩
          rcases List.mem_append.mp he' with he' | he'
          · exact hafter e' he'
          · rw [List.mem_singleton.mp he']
            exact hne
      · rintro ⟨before, after, hsplit, hafter⟩
        rcases List.eq_nil_or_concat after with rfl | ⟨after, e', rfl⟩
        · obtain ⟨_, he⟩ := List.append_inj' hsplit rfl
          cases he
          rw [if_pos rfl]
        · have hsplit' : rows ++ [e] = (before ++ (k, r) :: after) ++ [e'] := by
            rw [hsplit]
            simp
          obtain ⟨rfl, he⟩ := List.append_inj' hsplit' rfl
          cases he
          rw [if_neg (hafter e (by simp))]
          exact ih.mpr ⟨before, after, rfl, fun e' he' => hafter e' (by simp [he'])⟩

/-- `SELECT DISTINCT ON (key) … ORDER BY key, k DESC`: of the selected rows with one key, the
last one. -/
theorem mem_rows_distinctOn {κ' : Type*} [Ord κ'] [Std.TransOrd κ'] [Std.LawfulEqOrd κ']
    [DecidableEq κ'] {t : Table κ ρ} {p : ρ → Bool} {key : κ × ρ → κ'} {r : ρ} :
    r ∈ rows (ofRows ((t.toList.filter fun e => p e.2).map fun e => (key e, e.2))) ↔
      ∃ k : κ, t[k]? = some r ∧ p r = true ∧ ∀ (k' : κ) (r' : ρ), t[k']? = some r' → p r' = true →
        compare k k' = .lt → key (k', r') ≠ key (k, r) := by
  have hsorted : (t.toList.filter fun e => p e.2).Pairwise fun a b => compare a.1 b.1 = .lt :=
    (Std.ExtTreeMap.ordered_keys_toList (t := t)).filter _
  have hmem : ∀ (k : κ) (r : ρ), (k, r) ∈ t.toList.filter (fun e => p e.2) ↔
      t[k]? = some r ∧ p r = true := fun k r => by
    rw [List.mem_filter, Std.ExtTreeMap.mem_toList_iff_getElem?_eq_some]
  rw [mem_rows]
  constructor
  · rintro ⟨key', h⟩
    obtain ⟨before, after, hsplit, hafter⟩ := lookup_ofRows_iff.mp h
    obtain ⟨before, rest, hlist, rfl, hrest⟩ := List.map_eq_append_iff.mp hsplit
    obtain ⟨⟨k, r'⟩, after, rfl, he, rfl⟩ := List.map_eq_cons_iff.mp hrest
    obtain ⟨rfl, rfl⟩ := Prod.mk.inj he
    obtain ⟨hk, hp⟩ := (hmem k r').mp (by rw [hlist]; simp)
    refine ⟨k, hk, hp, fun k' r'' hk' hp' hlt => ?_⟩
    have hmem' := (hmem k' r'').mpr ⟨hk', hp'⟩
    rw [hlist] at hmem' hsorted
    rcases List.mem_append.mp hmem' with hb | hc
    · have hgt := (List.pairwise_append.mp hsorted).2.2 _ hb (k, r') (.head _)
      exact absurd (hgt.symm.trans (Std.OrientedCmp.gt_of_lt hlt)) (by decide)
    · rcases List.mem_cons.mp hc with heq | ha
      · cases heq
        exact absurd (hlt.symm.trans Std.ReflCmp.compare_self) (by decide)
      · exact hafter _ (List.mem_map.mpr ⟨_, ha, rfl⟩)
  · rintro ⟨k, hk, hp, hlast⟩
    refine ⟨key (k, r), lookup_ofRows_iff.mpr ?_⟩
    obtain ⟨before, after, hlist⟩ := List.append_of_mem ((hmem k r).mpr ⟨hk, hp⟩)
    refine ⟨before.map fun e => (key e, e.2), after.map fun e => (key e, e.2), by simp [hlist], ?_⟩
    intro e' he'
    obtain ⟨⟨k', r'⟩, ha, rfl⟩ := List.mem_map.mp he'
    obtain ⟨hk', hp'⟩ := (hmem k' r').mp (by rw [hlist]; simp [ha])
    rw [hlist] at hsorted
    exact hlast k' r' hk' hp' ((List.pairwise_append.mp hsorted).2.1.rel_head_tail ha)

/-- Adding rows up under their keys. -/
theorem lookup_mergeList_add [DecidableEq κ] [AddCommMonoid M] (rows : List (κ × M)) (k : κ) :
    (mergeList (· + ·) ∅ rows)[k]? =
      if ∃ e ∈ rows, e.1 = k then some (sumWhere (fun e => e.1 = k) Prod.snd rows) else none := by
  induction rows using List.reverseRecOn with
  | nil => simp [mergeList]
  | append_singleton rows e ih =>
      have hstep : mergeList (· + ·) ∅ (rows ++ [e]) = (mergeList (· + ·) ∅ rows).alter e.1
          fun old => some (old.elim e.2 fun m => m + e.2) := by
        simp [mergeList, List.foldl_append]
      have hsum : sumWhere (fun e' => e'.1 = k) Prod.snd (rows ++ [e]) =
          sumWhere (fun e' => e'.1 = k) Prod.snd rows + if e.1 = k then e.2 else 0 := by
        rw [sumWhere_append, sumWhere_cons, sumWhere_nil, add_zero]
      rw [hstep, Std.ExtTreeMap.getElem?_alter, hsum]
      by_cases hk : e.1 = k
      · rw [if_pos (Std.LawfulEqOrd.compare_eq_iff_eq.mpr hk), hk, ih, if_pos rfl,
          if_pos (⟨e, by simp, hk⟩ : ∃ e' ∈ rows ++ [e], e'.1 = k)]
        by_cases hrow : ∃ e ∈ rows, e.1 = k
        · rw [if_pos hrow]
          rfl
        · rw [if_neg hrow]
          push Not at hrow
          rw [sumWhere_of_forall_not hrow, zero_add]
          rfl
      · rw [if_neg (mt Std.LawfulEqOrd.compare_eq_iff_eq.mp hk), ih, if_neg hk, add_zero]
        have hrows : (∃ e' ∈ rows ++ [e], e'.1 = k) ↔ ∃ e' ∈ rows, e'.1 = k := by simp [hk]
        exact (if_congr hrows rfl rfl).symm

/-- The sums of a `GROUP BY`. -/
theorem grouped_mergeList [DecidableEq κ] [AddCommMonoid M] (key : α → κ) (value : α → M)
    (items : List α) :
    Grouped key value items
      (mergeList (· + ·) ∅ (items.map fun a => (key a, value a))).toList where
  nodup := nodup_keys _
  sum e he := by
    rw [Std.ExtTreeMap.mem_toList_iff_getElem?_eq_some, lookup_mergeList_add] at he
    split at he
    · rw [← Option.some.inj he, sumWhere_map]
    · cases he
  keys a ha := by
    have hlookup := lookup_mergeList_add (items.map fun a => (key a, value a)) (key a)
    rw [if_pos ⟨(key a, value a), List.mem_map.mpr ⟨a, ha, rfl⟩, rfl⟩] at hlookup
    exact List.mem_map.mpr ⟨_, Std.ExtTreeMap.mem_toList_iff_getElem?_eq_some.mpr hlookup, rfl⟩

end Table

end Sulion
