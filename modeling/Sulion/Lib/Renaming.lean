import Sulion.Lib.Table

set_option autoImplicit false

/-! # Renaming the rows of a name

A listing selects the rows of one name and shows a view of them that leaves the name out. Some rows
follow when a name is changed (`moving`) and some do not (`fixed`). The listing of the new name is
then the old one, with nothing left under the old name, exactly when no moving row has the new name
already and no fixed row has either (`of_listing_follows`, `listing_follows`).
-/

namespace Sulion

variable {α β κ : Type*} [DecidableEq κ]

/-- `name = CASE WHEN name = old THEN new ELSE name END`. -/
def renamed (old new name : κ) : κ := if name = old then new else name

variable {old new : κ}

theorem renamed_eq_new_iff {k : κ} : renamed old new k = new ↔ k = old ∨ k = new := by
  unfold renamed
  split
  · rename_i h
    exact ⟨fun _ => Or.inl h, fun _ => rfl⟩
  · rename_i h
    exact ⟨Or.inr, fun h' => h'.resolve_left h⟩

theorem renamed_ne_old (hne : old ≠ new) (k : κ) : renamed old new k ≠ old := by
  unfold renamed
  split
  · exact hne.symm
  · assumption

/-- `SELECT view … WHERE name = key`. -/
def listing (name : α → κ) (view : α → β) (key : κ) (rows : List α) : List β :=
  (rows.filter fun a => decide (name a = key)).map view

variable {name : α → κ} {view : α → β} {move : α → α} {moving fixed : List α}

theorem listing_append (key : κ) : listing name view key (moving ++ fixed)
    = listing name view key moving ++ listing name view key fixed := by
  rw [listing, List.filter_append, List.map_append]
  rfl

theorem listing_eq_nil_iff {key : κ} :
    listing name view key moving = [] ↔ ∀ a ∈ moving, name a ≠ key := by
  rw [listing, List.map_eq_nil_iff, List.filter_eq_nil_iff]
  simp only [decide_eq_true_iff, ne_eq]

/-- Rows that follow are listed under the new name, with those that have had it. -/
theorem listing_map_move (hname : ∀ a, name (move a) = renamed old new (name a))
    (hview : ∀ a, view (move a) = view a) : listing name view new (moving.map move)
      = (moving.filter fun a => decide (name a = old ∨ name a = new)).map view := by
  rw [listing, List.filter_map, List.map_map]
  have hselected : (fun a => decide (name a = new)) ∘ move
      = fun a => decide (name a = old ∨ name a = new) := by
    funext a
    simp only [Function.comp_apply, hname, renamed_eq_new_iff]
  have hshown : view ∘ move = view := funext hview
  rw [hselected, hshown]

theorem listing_old_map_move (hne : old ≠ new)
    (hname : ∀ a, name (move a) = renamed old new (name a)) :
    listing name view old (moving.map move) = [] := by
  rw [listing_eq_nil_iff]
  intro b hb
  obtain ⟨a, -, rfl⟩ := List.mem_map.mp hb
  rw [hname]
  exact renamed_ne_old hne _

/-- **Nothing in the way, and nothing that stays.** -/
theorem listing_follows (hne : old ≠ new) (hname : ∀ a, name (move a) = renamed old new (name a))
    (hview : ∀ a, view (move a) = view a) (hmoving : ∀ a ∈ moving, name a ≠ new)
    (hfixed : ∀ a ∈ fixed, name a ≠ old ∧ name a ≠ new) :
    listing name view new (moving.map move ++ fixed) = listing name view old (moving ++ fixed) ∧
      listing name view old (moving.map move ++ fixed) = [] := by
  have hnone (key : κ) (hkey : key = old ∨ key = new) : listing name view key fixed = [] := by
    rw [listing_eq_nil_iff]
    intro a ha
    rcases hkey with rfl | rfl
    · exact (hfixed a ha).1
    · exact (hfixed a ha).2
  constructor
  · rw [listing_append, listing_append, hnone new (Or.inr rfl), hnone old (Or.inl rfl),
      listing_map_move hname hview, List.append_nil, List.append_nil, listing]
    congr 1
    apply List.filter_congr
    intro a ha
    simp [hmoving a ha]
  · rw [listing_append, listing_old_map_move hne hname, hnone old (Or.inl rfl)]
    rfl

/-- **The converse**, from the number of rows listed. -/
theorem of_listing_follows (hne : old ≠ new)
    (hname : ∀ a, name (move a) = renamed old new (name a)) (hview : ∀ a, view (move a) = view a)
    (hlength : (listing name view new (moving.map move ++ fixed)).length
      = (listing name view old (moving ++ fixed)).length)
    (hleft : listing name view old (moving.map move ++ fixed) = []) :
    (∀ a ∈ moving, name a ≠ new) ∧ ∀ a ∈ fixed, name a ≠ old ∧ name a ≠ new := by
  rw [listing_append, List.append_eq_nil_iff] at hleft
  rw [listing_append, listing_append, hleft.2, listing_map_move hname hview, List.append_nil,
    List.length_append, List.length_map] at hlength
  -- The rows of the old name are among those of either.
  have hsub : (moving.filter fun a => decide (name a = old)).Sublist
      (moving.filter fun a => decide (name a = old ∨ name a = new)) := by
    apply List.monotone_filter_right
    intro a ha
    simp only [decide_eq_true_iff] at ha ⊢
    exact Or.inl ha
  have hle := hsub.length_le
  have hold : (listing name view old moving).length
      = (moving.filter fun a => decide (name a = old)).length := List.length_map _
  have hfixed : (listing name view new fixed).length = 0 := by omega
  have heq := hsub.eq_of_length (by omega)
  constructor
  · intro a ha hnew
    have hmem : a ∈ moving.filter fun a => decide (name a = old ∨ name a = new) :=
      List.mem_filter.mpr ⟨ha, decide_eq_true (Or.inr hnew)⟩
    rw [← heq] at hmem
    exact hne ((of_decide_eq_true (List.mem_filter.mp hmem).2).symm.trans hnew)
  · intro a ha
    exact ⟨listing_eq_nil_iff.mp hleft.2 a ha,
      listing_eq_nil_iff.mp (List.length_eq_zero_iff.mp hfixed) a ha⟩

/-- Both, for listings that are put in some order. -/
theorem arranged_listing_follows_iff {arrange : List β → List β}
    (harrange : ∀ rows, (arrange rows).length = rows.length) (hne : old ≠ new)
    (hname : ∀ a, name (move a) = renamed old new (name a)) (hview : ∀ a, view (move a) = view a) :
    (arrange (listing name view new (moving.map move ++ fixed))
        = arrange (listing name view old (moving ++ fixed)) ∧
      arrange (listing name view old (moving.map move ++ fixed)) = []) ↔
    (∀ a ∈ moving, name a ≠ new) ∧ ∀ a ∈ fixed, name a ≠ old ∧ name a ≠ new := by
  constructor
  · rintro ⟨hnew, hold⟩
    have hlength := congrArg List.length hnew
    rw [harrange, harrange] at hlength
    have hnil := congrArg List.length hold
    rw [harrange] at hnil
    exact of_listing_follows hne hname hview hlength (List.length_eq_zero_iff.mp hnil)
  · rintro ⟨hmoving, hfixed⟩
    obtain ⟨hnew, hold⟩ := listing_follows hne hname hview hmoving hfixed
    refine ⟨congrArg arrange hnew, List.length_eq_zero_iff.mp ?_⟩
    rw [harrange, hold]
    rfl

/-- A table that follows as a whole. -/
theorem arranged_listing_moved_iff {arrange : List β → List β}
    (harrange : ∀ rows, (arrange rows).length = rows.length) (hne : old ≠ new)
    (hname : ∀ a, name (move a) = renamed old new (name a)) (hview : ∀ a, view (move a) = view a) :
    (arrange (listing name view new (moving.map move)) = arrange (listing name view old moving) ∧
      arrange (listing name view old (moving.map move)) = []) ↔ ∀ a ∈ moving, name a ≠ new := by
  have hiff : _ ↔ (∀ a ∈ moving, name a ≠ new) ∧ ∀ a ∈ ([] : List α), name a ≠ old ∧ name a ≠ new :=
    arranged_listing_follows_iff harrange hne hname hview
  rw [List.append_nil, List.append_nil] at hiff
  simpa using hiff

/-- The same, in the order of the table. -/
theorem listing_moved_iff (hne : old ≠ new) (hname : ∀ a, name (move a) = renamed old new (name a))
    (hview : ∀ a, view (move a) = view a) :
    (listing name view new (moving.map move) = listing name view old moving ∧
      listing name view old (moving.map move) = []) ↔ ∀ a ∈ moving, name a ≠ new :=
  @arranged_listing_moved_iff _ _ _ _ _ _ _ _ _ _ id (fun _ => rfl) hne hname hview

end Sulion
