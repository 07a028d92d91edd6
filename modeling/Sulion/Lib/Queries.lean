import Sulion.Lib.DistinctOn
import Sulion.Lib.Totals

set_option autoImplicit false
set_option linter.unusedSectionVars false

/-! # Forms of a query

What a `SELECT` does to lists of rows: the outer join, the row that an unordered `LIMIT 1` picks,
the rounds of a recursive query, and sums per group. A sum per group does not depend on the order
of the rows, and a row may stand for two of its group (`groupSum_combine`), so a rollup in which
rows have been added up can be summed in their place (`groupSum_merge`).
-/

namespace Sulion

variable {α β κ ι V : Type*}

/-! ## Joins -/

/-- `LEFT JOIN right ON on`: the partners of one row, `NULL` when it has none. -/
def leftJoin (right : List β) (on : β → Bool) : List (Option β) :=
  match right.filter on with
  | [] => [none]
  | partners => partners.map some

theorem leftJoin_of_filter {right : List β} {on : β → Bool} {found : Option β}
    (h : right.filter on = found.toList) : leftJoin right on = [found] := by
  unfold leftJoin
  cases found with
  | none => rw [h]; rfl
  | some b => rw [h]; rfl

/-- `SELECT … LIMIT 1` without an order: one of the rows, the same one for the same rows. -/
structure LimitOne (α : Type*) where
  pick : List α → Option α
  mem_of_pick : ∀ rows a, pick rows = some a → a ∈ rows
  pick_isSome : ∀ rows, rows ≠ [] → (pick rows).isSome

/-- The first row. -/
def LimitOne.first : LimitOne α where
  pick rows := rows.head?
  mem_of_pick _ _ h := List.mem_of_mem_head? h
  pick_isSome rows h := by
    cases rows with
    | nil => exact absurd rfl h
    | cons a rows => rfl

/-! ## Recursive queries -/

/-- `WITH RECURSIVE … UNION ALL`: the rows of the first `rounds` rounds, each read from the round
before it. -/
def withRecursive (next : List α → List α) (rounds : Nat) (start : List α) : List α :=
  (List.range rounds).flatMap fun n => next^[n] start

/-- A selection that every round keeps can be made at the start. -/
theorem filter_withRecursive {next : List α → List α} {p : α → Bool}
    (hnext : ∀ rows, (next rows).filter p = next (rows.filter p)) (rounds : Nat) (start : List α) :
    (withRecursive next rounds start).filter p = withRecursive next rounds (start.filter p) := by
  have hround (n : Nat) : (next^[n] start).filter p = next^[n] (start.filter p) := by
    induction n with
    | zero => rfl
    | succ n ih => rw [Function.iterate_succ_apply', hnext, ih, Function.iterate_succ_apply']
  rw [withRecursive, List.filter_flatMap]
  exact List.flatMap_congr fun n _ => hround n

/-! ## One row for each key -/

/-- The row that `DISTINCT ON` leaves for a key. -/
theorem filter_distinctOn [DecidableEq κ] {ρ : Type*} [LinearOrder ρ] (key : α → κ) (rank : α → ρ)
    (rows : List α) (k : κ) :
    (distinctOn key rank rows).filter (fun a => decide (key a = k))
      = ((rows.filter fun a => decide (key a = k)).argmin rank).toList := by
  have hmem (a : α) : a ∈ (distinctOn key rank rows).filter (fun a => decide (key a = k)) ↔
      (rows.filter fun a => decide (key a = k)).argmin rank = some a := by
    rw [List.mem_filter, mem_distinctOn_iff]
    constructor
    · rintro ⟨h, hk⟩
      have hk : key a = k := of_decide_eq_true hk
      rwa [hk] at h
    · intro h
      have hk := (List.mem_filter.mp (List.argmin_mem (Option.mem_def.mpr h))).2
      have hka : key a = k := of_decide_eq_true hk
      exact ⟨by rw [hka]; exact h, hk⟩
  have hpairwise : ((distinctOn key rank rows).filter (fun a => decide (key a = k))).Pairwise
      fun a b => key a ≠ key b := pairwise_distinctOn.sublist List.filter_sublist
  generalize (distinctOn key rank rows).filter
    (fun a => decide (key a = k)) = kept at hmem hpairwise
  match kept with
  | [] =>
      cases hmin : (rows.filter fun a => decide (key a = k)).argmin rank with
      | none => rfl
      | some a => cases (hmem a).mpr hmin
  | [a] => rw [(hmem a).mp (by simp)]; rfl
  | a :: b :: rest =>
      -- Two rows of one key: both are the least, so their keys would not differ.
      have ha := (hmem a).mp (by simp)
      have hb := (hmem b).mp (by simp)
      rw [ha] at hb
      cases hb
      exact absurd rfl ((List.pairwise_cons.mp hpairwise).1 a (by simp))

/-! ## Sums per group -/

section GroupSum

variable [Ord κ] [Std.TransOrd κ] [Std.LawfulEqOrd κ] [DecidableEq κ] [AddCommMonoid V]

/-- `SELECT key, SUM(value) … GROUP BY key`. -/
def groupSum (rows : List (κ × V)) : Table κ V := Table.mergeList (· + ·) ∅ rows

variable {rows rows' more : List (κ × V)} {k : κ}

theorem groupSum_append_congr (h : groupSum rows = groupSum rows') :
    groupSum (rows ++ more) = groupSum (rows' ++ more) := by
  unfold groupSum Table.mergeList at *
  rw [List.foldl_append, List.foldl_append, h]

theorem groupSum_perm (h : rows.Perm rows') : groupSum rows = groupSum rows' := by
  unfold groupSum Table.mergeList
  refine h.foldl_eq' ?_ _
  rintro ⟨k₁, v₁⟩ - ⟨k₂, v₂⟩ - t
  apply Table.ext
  intro k
  simp only [Std.ExtTreeMap.getElem?_alter]
  by_cases h₁ : k₁ = k
  · subst h₁
    by_cases h₂ : k₂ = k₁
    · subst h₂
      cases t[k₂]? with
      | none => simp [add_comm]
      | some v => simp [add_right_comm]
    · simp [h₂]
  · by_cases h₂ : k₂ = k
    · simp [h₁, h₂]
    · simp [h₁, h₂]

/-- `SUM(value)` over the rows of a group, and no row without one. -/
def sumOfGroup {V : Type*} [AddCommMonoid V] (values : List V) : Option V :=
  if values.isEmpty then none else some values.sum

theorem sumOfGroup_eq_none_iff {values : List V} : sumOfGroup values = none ↔ values = [] := by
  cases values with
  | nil => simp [sumOfGroup]
  | cons v values => simp [sumOfGroup]

theorem sumOfGroup_perm {values values' : List V} (h : values.Perm values') :
    sumOfGroup values = sumOfGroup values' := by
  unfold sumOfGroup
  rw [h.sum_eq, h.isEmpty_eq]

/-- **A group is the sum of its rows.** -/
theorem lookup_groupSum (rows : List (κ × V)) (k : κ) :
    (groupSum rows)[k]? = sumOfGroup
      ((rows.filter fun row => decide (row.1 = k)).map Prod.snd) := by
  have hadd : ∀ (rows : List (κ × V)) (t : Table κ V) (v : V), t[k]? = some v →
      (Table.mergeList (· + ·) t rows)[k]?
        = some (v + ((rows.filter fun row => decide (row.1 = k)).map Prod.snd).sum) := by
    intro rows
    induction rows with
    | nil =>
        intro t v hv
        simpa [Table.mergeList] using hv
    | cons row rows ih =>
        intro t v hv
        rw [Table.mergeList, List.foldl_cons]
        by_cases hk : row.1 = k
        · refine (ih _ (v + row.2) ?_).trans ?_
          · simp [hk, hv]
          · simp [hk, add_assoc]
        · refine (ih _ v ?_).trans ?_
          · simp [hk, hv, Std.ExtTreeMap.getElem?_alter]
          · simp [hk]
  have hall : ∀ (rows : List (κ × V)) (t : Table κ V), t[k]? = none →
      (Table.mergeList (· + ·) t rows)[k]?
        = sumOfGroup ((rows.filter fun row => decide (row.1 = k)).map Prod.snd) := by
    intro rows
    induction rows with
    | nil =>
        intro t ht
        simpa [Table.mergeList, sumOfGroup] using ht
    | cons row rows ih =>
        intro t ht
        rw [Table.mergeList, List.foldl_cons]
        by_cases hk : row.1 = k
        · refine (hadd rows _ row.2 ?_).trans ?_
          · simp [hk, ht]
          · simp [hk, sumOfGroup]
        · refine (ih _ ?_).trans ?_
          · simp [hk, ht, Std.ExtTreeMap.getElem?_alter]
          · simp [hk]
  exact hall rows ∅ (by simp)

/-- Two rows of a group in one. -/
theorem groupSum_combine (v w : V) :
    groupSum ((k, v + w) :: rows) = groupSum ((k, v) :: (k, w) :: rows) := by
  unfold groupSum Table.mergeList
  simp only [List.foldl_cons]
  congr 1
  apply Table.ext
  intro k'
  simp only [Std.ExtTreeMap.getElem?_alter]
  by_cases hk : k = k'
  · simp [hk]
  · simp [hk]

/-- A row under its group. -/
def regroup (group : ι → κ) (row : ι × V) : κ × V := (group row.1, row.2)

variable [Ord ι] [Std.TransOrd ι] [Std.LawfulEqOrd ι] [DecidableEq ι]

theorem groupSum_mergeList (group : ι → κ) (new : List (ι × V)) (t : Table ι V) :
    groupSum ((Table.mergeList (· + ·) t new).toList.map (regroup group))
      = groupSum ((t.toList ++ new).map (regroup group)) := by
  induction new generalizing t with
  | nil => simp [Table.mergeList]
  | cons row new ih =>
      obtain ⟨i, w⟩ := row
      have halter : t.alter i (fun old => some (old.elim w fun v => v + w))
          = t.insert i (t[i]?.elim w fun v => v + w) := by
        apply Table.ext
        intro i'
        rw [Std.ExtTreeMap.getElem?_alter, Table.lookup_insert]
        by_cases hi : i = i'
        · simp [hi]
        · simp [hi]
      have hfold : Table.mergeList (· + ·) t ((i, w) :: new)
          = Table.mergeList (· + ·) (t.insert i (t[i]?.elim w fun v => v + w)) new := by
        rw [← halter]
        rfl
      rw [hfold, ih, List.map_append, List.map_append]
      cases hi : t[i]? with
      | none =>
          apply groupSum_perm
          have hperm := (Table.toList_insert_perm hi w).map (regroup group)
          refine (hperm.append_right _).trans ?_
          simp only [List.map_cons, List.cons_append]
          exact List.perm_middle.symm
      | some v =>
          have hafter : (t.insert i (v + w))[i]? = some (v + w) := Table.lookup_insert_self ..
          have herase : (t.insert i (v + w)).erase i = t.erase i := by
            apply Table.ext
            intro i'
            rw [Std.ExtTreeMap.getElem?_erase, Std.ExtTreeMap.getElem?_erase, Table.lookup_insert]
            by_cases hii : i = i'
            · simp [hii]
            · simp [hii]
          have hnew := (Table.toList_perm_erase hafter).map (regroup group)
          have hold := (Table.toList_perm_erase hi).map (regroup group)
          rw [herase] at hnew
          calc groupSum ((t.insert i (v + w)).toList.map (regroup group) ++ new.map (regroup group))
              = groupSum ((group i, v + w) ::
                  ((t.erase i).toList.map (regroup group) ++ new.map (regroup group))) :=
                groupSum_perm (hnew.append_right _)
            _ = groupSum ((group i, v) :: (group i, w) ::
                  ((t.erase i).toList.map (regroup group) ++ new.map (regroup group))) :=
                groupSum_combine v w
            _ = groupSum (t.toList.map (regroup group) ++ ((i, w) :: new).map (regroup group)) := by
                apply groupSum_perm
                refine List.Perm.trans ?_ (hold.append_right _).symm
                simp only [List.map_cons, List.cons_append]
                exact (List.perm_middle.symm).cons _

/-- **Added-up rows count as the rows themselves.** -/
theorem groupSum_merge (group : ι → κ) (t new : Table ι V) :
    groupSum ((Table.merge (· + ·) t new).toList.map (regroup group))
      = groupSum ((t.toList ++ new.toList).map (regroup group)) :=
  groupSum_mergeList group new.toList t

end GroupSum

/-! ## Rows of a table -/

/-- Rows made of the elements of one key. -/
theorem filter_flatMap_of_key {rows : List α} {f : α → List β} {p : β → Bool} {q : α → Bool}
    (h : ∀ a ∈ rows, ∀ b ∈ f a, p b = q a) :
    (rows.flatMap f).filter p = (rows.filter q).flatMap f := by
  induction rows with
  | nil => rfl
  | cons a rows ih =>
      have hhead := h a (by simp)
      rw [List.flatMap_cons, List.filter_append, ih fun a' ha' => h a' (by simp [ha'])]
      cases hq : q a with
      | true =>
          rw [List.filter_cons_of_pos hq, List.flatMap_cons]
          congr 1
          apply List.filter_eq_self.mpr
          intro b hb
          rw [hhead b hb, hq]
      | false =>
          rw [List.filter_cons_of_neg (by simp [hq])]
          have hnone : (f a).filter p = [] := by
            apply List.filter_eq_nil_iff.mpr
            intro b hb
            simp [hhead b hb, hq]
          rw [hnone, List.nil_append]

namespace Table

variable [Ord κ] [Std.TransOrd κ] [Std.LawfulEqOrd κ] [DecidableEq κ]

/-- The one row of a key. -/
theorem filter_key_toList {t : Table κ V} {k : κ} {r : V} (h : t[k]? = some r) :
    (t.toList.filter fun e => decide (e.1 = k)) = [(k, r)] := by
  have hperm := (toList_perm_erase h).filter fun e => decide (e.1 = k)
  have hrest : ((t.erase k).toList.filter fun e => decide (e.1 = k)) = [] := by
    rw [List.filter_eq_nil_iff]
    rintro ⟨k', r'⟩ hmem hk
    have hk : k' = k := of_decide_eq_true hk
    rw [Std.ExtTreeMap.mem_toList_iff_getElem?_eq_some, Std.ExtTreeMap.getElem?_erase] at hmem
    simp [hk] at hmem
  rw [List.filter_cons_of_pos (by simp), hrest] at hperm
  exact List.perm_singleton.mp hperm

/-- A list of rows with distinct keys is the table made of it. -/
theorem toList_ofRows_perm {rows : List (κ × V)} (hkeys : (rows.map Prod.fst).Nodup) :
    (ofRows rows).toList.Perm rows := by
  have hpairwise : rows.Pairwise fun a b => a.1 ≠ b.1 := List.pairwise_map.mp hkeys
  rw [List.perm_ext_iff_of_nodup (Table.nodup_toList _) hkeys.of_map]
  rintro ⟨k, v⟩
  rw [Std.ExtTreeMap.mem_toList_iff_getElem?_eq_some, Table.ofRows]
  constructor
  · intro h
    by_cases hk : ∃ row ∈ rows, row.1 = k
    · obtain ⟨⟨k', w⟩, hrow, rfl⟩ := hk
      rw [Table.lookup_mergeList_of_mem _ rows ∅ hpairwise hrow] at h
      cases h
      exact hrow
    · rw [Table.lookup_mergeList_of_not_mem _ rows ∅ k fun row hrow heq => hk ⟨row, hrow, heq⟩] at h
      simp at h
  · intro h
    rw [Table.lookup_mergeList_of_mem _ rows ∅ hpairwise h]
    simp

end Table

end Sulion
