import Mathlib.Data.List.Sort
import Mathlib.Tactic

set_option autoImplicit false

/-! # The last of the greatest elements

`maxByKey f l` is the last of the elements of `l` with the greatest key, as an iterator's
`max_by_key` returns it. `IsLastMax` says the same without a fold: everything before the
element has a key at most its key, everything after it a smaller one.

Two facts make it useful when a list is only partly at hand: elements of smaller key may be
left out (`maxByKey_of_filter`), and sorting by key with a stable sort puts the element last
(`getLast?_insertionSort`).
-/

namespace Sulion

variable {α β : Type*}

/-- `max_by_key`: the last of the elements with the greatest key. -/
def maxByKey [LT β] [DecidableLT β] (f : α → β) (l : List α) : Option α :=
  l.foldl (fun best x =>
    match best with
    | none => some x
    | some b => if f x < f b then some b else some x) none

/-- `x` is the last of the elements of `l` with the greatest key. -/
def IsLastMax [LT β] [LE β] (f : α → β) (l : List α) (x : α) : Prop :=
  ∃ before after, l = before ++ x :: after ∧ (∀ y ∈ before, f y ≤ f x) ∧ ∀ y ∈ after, f y < f x

variable [LinearOrder β] {f : α → β} {l : List α} {x y : α}

theorem IsLastMax.mem (h : IsLastMax f l x) : x ∈ l := by
  obtain ⟨before, after, rfl, -, -⟩ := h
  simp

theorem IsLastMax.le (h : IsLastMax f l x) (hy : y ∈ l) : f y ≤ f x := by
  obtain ⟨before, after, rfl, hbefore, hafter⟩ := h
  rcases List.mem_append.mp hy with hy | hy
  · exact hbefore y hy
  · rcases List.mem_cons.mp hy with rfl | hy
    · exact le_refl _
    · exact (hafter y hy).le

theorem IsLastMax.unique (hx : IsLastMax f l x) (hy : IsLastMax f l y) : x = y := by
  obtain ⟨b1, a1, rfl, hb1, ha1⟩ := hx
  obtain ⟨b2, a2, heq, hb2, ha2⟩ := hy
  rcases List.append_eq_append_iff.mp heq with ⟨rest, rfl, hrest⟩ | ⟨rest, rfl, hrest⟩
  · cases rest with
    | nil => exact (List.cons.inj hrest).1
    | cons z rest =>
        obtain ⟨rfl, hmem⟩ := List.cons.inj hrest
        -- `x` stands before `y`, and `y` after `x`
        have hle : f x ≤ f y := hb2 x (by simp)
        have hlt : f y < f x := ha1 y (by simp [hmem])
        exact absurd hle (not_le.mpr hlt)
  · cases rest with
    | nil => exact (List.cons.inj hrest).1.symm
    | cons z rest =>
        obtain ⟨rfl, hmem⟩ := List.cons.inj hrest
        have hle : f y ≤ f x := hb1 y (by simp)
        have hlt : f x < f y := ha2 x (by simp [hmem])
        exact absurd hle (not_le.mpr hlt)

theorem maxByKey_concat (l : List α) (a : α) :
    maxByKey f (l ++ [a]) =
      match maxByKey f l with
      | none => some a
      | some b => if f a < f b then some b else some a := by
  rw [maxByKey, List.foldl_append]
  rfl

theorem isLastMax_of_maxByKey (h : maxByKey f l = some x) : IsLastMax f l x := by
  induction l using List.reverseRecOn generalizing x with
  | nil => cases h
  | append_singleton l a ih =>
      rw [maxByKey_concat] at h
      cases hl : maxByKey f l with
      | none =>
          rw [hl] at h
          have hnil : l = [] := by
            cases l using List.reverseRecOn with
            | nil => rfl
            | append_singleton l b =>
                rw [maxByKey_concat] at hl
                split at hl
                · cases hl
                · split at hl <;> cases hl
          subst hnil
          cases h
          exact ⟨[], [], rfl, by simp, by simp⟩
      | some b =>
          rw [hl] at h
          have hb := ih hl
          simp only at h
          split at h
          · rename_i hlt
            cases h
            obtain ⟨before, after, rfl, hbefore, hafter⟩ := hb
            refine ⟨before, after ++ [a], by simp, hbefore, fun y hy => ?_⟩
            rcases List.mem_append.mp hy with hy | hy
            · exact hafter y hy
            · rwa [List.mem_singleton.mp hy]
          · rename_i hge
            cases h
            refine ⟨l, [], rfl, fun y hy => ?_, by simp⟩
            exact (hb.le hy).trans (not_lt.mp hge)

theorem maxByKey_ne_none (h : x ∈ l) : maxByKey f l ≠ none := by
  induction l using List.reverseRecOn with
  | nil => cases h
  | append_singleton l a ih =>
      rw [maxByKey_concat]
      cases maxByKey f l with
      | none => simp
      | some b =>
          simp only
          split <;> simp

/-- **The fold computes the last maximum.** -/
theorem maxByKey_eq_some_iff : maxByKey f l = some x ↔ IsLastMax f l x := by
  constructor
  · exact isLastMax_of_maxByKey
  · intro h
    obtain ⟨b, hb⟩ := Option.ne_none_iff_exists'.mp (maxByKey_ne_none (f := f) h.mem)
    rw [hb, (isLastMax_of_maxByKey hb).unique h]

theorem maxByKey_eq_none_iff : maxByKey f l = none ↔ l = [] := by
  constructor
  · intro h
    cases l with
    | nil => rfl
    | cons a l => exact absurd h (maxByKey_ne_none (List.mem_cons_self))
  · rintro rfl
    rfl

/-- Elements of smaller key may be left out. -/
theorem maxByKey_of_filter {q : α → Bool} (h : maxByKey f (l.filter q) = some x)
    (hout : ∀ y ∈ l, q y = false → f y < f x) : maxByKey f l = some x := by
  rw [maxByKey_eq_some_iff] at h ⊢
  obtain ⟨before, after, heq, hbefore, hafter⟩ := h
  obtain ⟨l1, l2, rfl, rfl, h2⟩ := List.filter_eq_append_iff.mp heq
  obtain ⟨l3, l4, rfl, h3, hx, rfl⟩ := List.filter_eq_cons_iff.mp h2
  refine ⟨l1 ++ l3, l4, by simp, fun y hy => ?_, fun y hy => ?_⟩
  · cases hq : q y with
    | false => exact (hout y (by simp at hy ⊢; tauto) hq).le
    | true =>
        rcases List.mem_append.mp hy with hy | hy
        · exact hbefore y (List.mem_filter.mpr ⟨hy, hq⟩)
        · exact absurd hq (h3 y hy)
  · cases hq : q y with
    | false => exact hout y (by simp [hy]) hq
    | true => exact hafter y (List.mem_filter.mpr ⟨hy, hq⟩)

theorem maxByKey_cons (a : α) (l : List α) :
    maxByKey f (a :: l) =
      match maxByKey f l with
      | none => some a
      | some b => if f b < f a then some a else some b := by
  cases hl : maxByKey f l with
  | none =>
      rw [maxByKey_eq_none_iff] at hl
      subst hl
      rfl
  | some b =>
      have hb := maxByKey_eq_some_iff.mp hl
      simp only
      split
      · rename_i hlt
        rw [maxByKey_eq_some_iff]
        exact ⟨[], l, rfl, by simp, fun y hy => lt_of_le_of_lt (hb.le hy) hlt⟩
      · rename_i hge
        rw [maxByKey_eq_some_iff]
        obtain ⟨before, after, rfl, hbefore, hafter⟩ := hb
        refine ⟨a :: before, after, rfl, fun y hy => ?_, hafter⟩
        rcases List.mem_cons.mp hy with rfl | hy
        · exact not_lt.mp hge
        · exact hbefore y hy

theorem getLast?_orderedInsert (a : α) {s : List α} (hs : s.Pairwise fun a b => f a ≤ f b) :
    (s.orderedInsert (fun a b => f a ≤ f b) a).getLast? =
      match s.getLast? with
      | none => some a
      | some b => if f b < f a then some a else some b := by
  induction s with
  | nil => rfl
  | cons c s ih =>
      rw [List.orderedInsert_cons]
      rw [List.pairwise_cons] at hs
      obtain ⟨b, hb⟩ := Option.ne_none_iff_exists'.mp
        (show (c :: s).getLast? ≠ none by simp)
      have hmem : b ∈ c :: s := List.mem_of_getLast? hb
      rw [hb]
      by_cases hac : f a ≤ f c
      · have hge : f a ≤ f b := by
          rcases List.mem_cons.mp hmem with rfl | hmem
          · exact hac
          · exact hac.trans (hs.1 b hmem)
        rw [if_pos hac, List.getLast?_cons_cons, hb]
        simp [not_lt.mpr hge]
      · rw [if_neg hac]
        cases s with
        | nil =>
            simp only [List.getLast?_singleton, Option.some.injEq] at hb
            subst hb
            simp [not_le.mp hac]
        | cons d s =>
            rw [List.getLast?_cons_cons] at hb
            have hih := ih hs.2
            rw [hb] at hih
            rw [← hih]
            have hne : (d :: s).orderedInsert (fun a b => f a ≤ f b) a ≠ [] := by
              intro hnil
              have := congrArg List.length hnil
              rw [List.orderedInsert_length] at this
              cases this
            obtain ⟨e, es, hes⟩ := List.exists_cons_of_ne_nil hne
            rw [hes, List.getLast?_cons_cons]

/-- **The last element of a stable sort by key is the last maximum.** -/
theorem getLast?_insertionSort (l : List α) :
    (l.insertionSort fun a b => f a ≤ f b).getLast? = maxByKey f l := by
  induction l with
  | nil => rfl
  | cons a l ih =>
      have : Std.Total fun a b : α => f a ≤ f b := ⟨fun a b => le_total _ _⟩
      have : IsTrans α fun a b => f a ≤ f b := ⟨fun a b c => le_trans⟩
      rw [List.insertionSort_cons, getLast?_orderedInsert a (List.pairwise_insertionSort _ l), ih,
        maxByKey_cons]

end Sulion
