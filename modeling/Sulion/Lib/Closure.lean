import Mathlib.Tactic

set_option autoImplicit false

/-! # What the edges of a finite relation lead to

`reachableFrom edges start` adds to `start` the ends of the edges that leave it, round after round.
As many rounds as there are edges are enough (`mem_of_edge`): a round that adds nothing is the
last, and each round before it adds the end of another edge. The set is the least that is closed
under the edges (`reachableFrom_least`).
-/

namespace Sulion

variable {α : Type*} [DecidableEq α]

/-- One round. -/
def reachRound (edges : Finset (α × α)) (found : Finset α) : Finset α :=
  found ∪ (edges.filter fun e => e.1 ∈ found).image Prod.snd

/-- Everything the edges lead to from `start`, with `start` itself. -/
def reachableFrom (edges : Finset (α × α)) (start : Finset α) : Finset α :=
  (reachRound edges)^[edges.card] start

variable {edges : Finset (α × α)} {start found : Finset α} {a b : α}

theorem mem_reachRound_iff : b ∈ reachRound edges found ↔
    b ∈ found ∨ ∃ a ∈ found, (a, b) ∈ edges := by
  simp only [reachRound, Finset.mem_union, Finset.mem_image, Finset.mem_filter, Prod.exists]
  constructor
  · rintro (h | ⟨a, b', ⟨hedge, ha⟩, rfl⟩)
    · exact Or.inl h
    · exact Or.inr ⟨a, ha, hedge⟩
  · rintro (h | ⟨a, ha, hedge⟩)
    · exact Or.inl h
    · exact Or.inr ⟨a, b, ⟨hedge, ha⟩, rfl⟩

theorem subset_reachRound : found ⊆ reachRound edges found := Finset.subset_union_left

theorem subset_iterate (edges : Finset (α × α)) (start : Finset α) (n : Nat) :
    start ⊆ (reachRound edges)^[n] start := by
  induction n with
  | zero => exact Finset.Subset.refl _
  | succ n ih =>
      rw [Function.iterate_succ_apply']
      exact ih.trans subset_reachRound

/-- What the rounds add are ends of edges. -/
theorem iterate_sdiff_subset (edges : Finset (α × α)) (start : Finset α) (n : Nat) :
    (reachRound edges)^[n] start \ start ⊆ edges.image Prod.snd := by
  induction n with
  | zero => simp
  | succ n ih =>
      intro b hb
      rw [Finset.mem_sdiff, Function.iterate_succ_apply', mem_reachRound_iff] at hb
      rcases hb with ⟨hfound | ⟨a, _, hedge⟩, hstart⟩
      · exact ih (Finset.mem_sdiff.mpr ⟨hfound, hstart⟩)
      · exact Finset.mem_image.mpr ⟨(a, b), hedge, rfl⟩

/-- A round adds nothing, or every round so far has added something. -/
theorem iterate_fixed_or_grown (edges : Finset (α × α)) (start : Finset α) (n : Nat) :
    (reachRound edges)^[n + 1] start = (reachRound edges)^[n] start ∨
      n + 1 ≤ ((reachRound edges)^[n + 1] start \ start).card := by
  induction n with
  | zero =>
      by_cases hfixed : reachRound edges start = start
      · exact Or.inl hfixed
      · right
        have hnew : (reachRound edges start \ start).Nonempty := by
          rw [Finset.sdiff_nonempty]
          intro hsub
          exact hfixed (hsub.antisymm subset_reachRound)
        exact hnew.card_pos
  | succ n ih =>
      rcases ih with hfixed | hgrown
      · left
        rw [Function.iterate_succ_apply', hfixed]
        exact (Function.iterate_succ_apply' _ _ _).symm.trans hfixed
      · by_cases hfixed : (reachRound edges)^[n + 1 + 1] start = (reachRound edges)^[n + 1] start
        · exact Or.inl hfixed
        · right
          have hsub : (reachRound edges)^[n + 1] start ⊆ (reachRound edges)^[n + 1 + 1] start := by
            rw [Function.iterate_succ_apply' _ (n + 1)]
            exact subset_reachRound
          have hnew : (reachRound edges)^[n + 1] start \ start
              ⊂ (reachRound edges)^[n + 1 + 1] start \ start := by
            apply Finset.ssubset_iff_subset_ne.mpr
            refine ⟨Finset.sdiff_subset_sdiff hsub (Finset.Subset.refl _), ?_⟩
            intro heq
            apply hfixed
            rw [← Finset.sdiff_union_of_subset (subset_iterate edges start (n + 1 + 1)),
              ← Finset.sdiff_union_of_subset (subset_iterate edges start (n + 1)), heq]
          have hcard := Finset.card_lt_card hnew
          omega

theorem reachRound_reachableFrom :
    reachRound edges (reachableFrom edges start) = reachableFrom edges start := by
  rcases iterate_fixed_or_grown edges start edges.card with hfixed | hgrown
  · rwa [Function.iterate_succ_apply'] at hfixed
  · have hends := Finset.card_le_card (iterate_sdiff_subset edges start (edges.card + 1))
    have himage : (edges.image Prod.snd).card ≤ edges.card := Finset.card_image_le
    omega

theorem subset_reachableFrom : start ⊆ reachableFrom edges start :=
  subset_iterate edges start _

/-- **The rounds are enough**: an edge leads nowhere else. -/
theorem mem_of_edge (ha : a ∈ reachableFrom edges start) (hedge : (a, b) ∈ edges) :
    b ∈ reachableFrom edges start := by
  rw [← reachRound_reachableFrom]
  exact mem_reachRound_iff.mpr (Or.inr ⟨a, ha, hedge⟩)

/-- **The least closed set.** -/
theorem reachableFrom_least {P : α → Prop} (hstart : ∀ a ∈ start, P a)
    (hedges : ∀ a b, a ∈ reachableFrom edges start → P a → (a, b) ∈ edges → P b)
    (ha : a ∈ reachableFrom edges start) : P a := by
  have hround : ∀ n ≤ edges.card, ∀ a ∈ (reachRound edges)^[n] start,
      P a ∧ a ∈ reachableFrom edges start := by
    intro n
    induction n with
    | zero =>
        intro _ a ha
        exact ⟨hstart a ha, subset_reachableFrom ha⟩
    | succ n ih =>
        intro hn b hb
        rw [Function.iterate_succ_apply', mem_reachRound_iff] at hb
        rcases hb with hb | ⟨a, ha, hedge⟩
        · exact ih (by omega) b hb
        · obtain ⟨hPa, hmem⟩ := ih (by omega) a ha
          exact ⟨hedges a b hmem hPa hedge, mem_of_edge hmem hedge⟩
  exact (hround edges.card le_rfl a ha).1

end Sulion
