import Mathlib.Data.List.Nodup
import Mathlib.Data.List.Pairwise

set_option autoImplicit false

/-! # Messages in parts, in any order

A message is the list of its parts, and the parts of several messages arrive one by one, in any
order. After the parts `pre` a message is started when one of its parts has arrived, complete when
all have, and open in between. A receiver that hands over each message when its last part arrives
(`Delivers`) has handed over each exactly once in the end.
-/

namespace Sulion.Interleaving

variable {μ φ : Type*} (parts : μ → List φ)

def Started (pre : List φ) (m : μ) : Prop := ∃ f ∈ parts m, f ∈ pre

def Complete (pre : List φ) (m : μ) : Prop := ∀ f ∈ parts m, f ∈ pre

/-- Some parts of the message have arrived, and others have not. -/
def Open (pre : List φ) (m : μ) : Prop := Started parts pre m ∧ ¬ Complete parts pre m

/-- The messages handed over so far. -/
structure Delivers (ms : List μ) (pre : List φ) (delivered : List μ) : Prop where
  nodup : delivered.Nodup
  mem_iff : ∀ m, m ∈ delivered ↔ m ∈ ms ∧ Complete parts pre m

variable {parts} {ms delivered : List μ} {pre : List φ} {m m' : μ} {f : φ}

/-- A part belongs to one message. -/
theorem eq_of_mem_parts (h : (ms.flatMap parts).Nodup) (hm : m ∈ ms) (hm' : m' ∈ ms)
    (hf : f ∈ parts m) (hf' : f ∈ parts m') : m = m' := by
  by_contra hne
  have hpairs : ms.Pairwise (Function.onFun List.Disjoint parts) := (List.nodup_flatMap.mp h).2
  have : Std.Symm (Function.onFun List.Disjoint parts) := ⟨fun _ _ h f hf hf' => h hf' hf⟩
  have hdisjoint : List.Disjoint (parts m) (parts m') := hpairs.forall hm hm' hne
  exact hdisjoint hf hf'

theorem complete_snoc_iff_of_notMem (hf : f ∉ parts m) :
    Complete parts (pre ++ [f]) m ↔ Complete parts pre m := by
  refine forall₂_congr fun g hg => ?_
  have hne : g ≠ f := fun heq => hf (heq ▸ hg)
  simp [hne]

theorem started_snoc_iff_of_notMem (hf : f ∉ parts m) :
    Started parts (pre ++ [f]) m ↔ Started parts pre m := by
  refine exists_congr fun g => and_congr_right fun hg => ?_
  have hne : g ≠ f := fun heq => hf (heq ▸ hg)
  simp [hne]

theorem open_snoc_iff_of_notMem (hf : f ∉ parts m) :
    Open parts (pre ++ [f]) m ↔ Open parts pre m := by
  rw [Open, Open, complete_snoc_iff_of_notMem hf, started_snoc_iff_of_notMem hf]

theorem started_snoc (hf : f ∈ parts m) : Started parts (pre ++ [f]) m := ⟨f, hf, by simp⟩

theorem not_complete (hf : f ∈ parts m) (hpre : f ∉ pre) : ¬ Complete parts pre m :=
  fun h => hpre (h f hf)

/-- While a part is missing, open is started. -/
theorem open_iff_started (hf : f ∈ parts m) (hpre : f ∉ pre) :
    Open parts pre m ↔ Started parts pre m :=
  and_iff_left (not_complete hf hpre)

theorem open_snoc_iff (hf : f ∈ parts m) :
    Open parts (pre ++ [f]) m ↔ ¬ Complete parts (pre ++ [f]) m :=
  and_iff_right (started_snoc hf)

theorem Delivers.nil (h : ∀ m ∈ ms, parts m ≠ []) : Delivers parts ms [] [] := by
  refine ⟨List.nodup_nil, fun m => iff_of_false (by simp) ?_⟩
  rintro ⟨hm, hcomplete⟩
  obtain ⟨f, hf⟩ := List.exists_mem_of_ne_nil _ (h m hm)
  exact absurd (hcomplete f hf) (by simp)

/-- The message's last part arrives, and it is handed over. -/
theorem Delivers.deliver (h : Delivers parts ms pre delivered) (hms : (ms.flatMap parts).Nodup)
    (hm : m ∈ ms) (hf : f ∈ parts m) (hpre : f ∉ pre)
    (hcomplete : Complete parts (pre ++ [f]) m) :
    Delivers parts ms (pre ++ [f]) (delivered ++ [m]) := by
  have hnew : m ∉ delivered := fun hmem => not_complete hf hpre ((h.mem_iff m).mp hmem).2
  refine ⟨?_, fun m' => ?_⟩
  · rw [List.nodup_append]
    refine ⟨h.nodup, List.nodup_singleton m, fun a ha b hb => ?_⟩
    rintro rfl
    rw [List.mem_singleton.mp hb] at ha
    exact hnew ha
  · rw [List.mem_append, List.mem_singleton, h.mem_iff]
    by_cases heq : m' = m
    · subst heq
      simp [hm, hcomplete]
    · rw [or_iff_left heq]
      refine and_congr_right fun hm' => (complete_snoc_iff_of_notMem fun hf' => ?_).symm
      exact heq (eq_of_mem_parts hms hm' hm hf' hf)

/-- Parts of the message are still missing. -/
theorem Delivers.wait (h : Delivers parts ms pre delivered) (hms : (ms.flatMap parts).Nodup)
    (hm : m ∈ ms) (hf : f ∈ parts m) (hopen : ¬ Complete parts (pre ++ [f]) m) :
    Delivers parts ms (pre ++ [f]) delivered := by
  refine ⟨h.nodup, fun m' => (h.mem_iff m').trans (and_congr_right fun hm' => ?_)⟩
  by_cases heq : m' = m
  · subst heq
    refine iff_of_false (fun hcomplete => hopen fun g hg => ?_) hopen
    exact List.mem_append_left _ (hcomplete g hg)
  · refine (complete_snoc_iff_of_notMem fun hf' => ?_).symm
    exact heq (eq_of_mem_parts hms hm' hm hf' hf)

/-- **Each message is handed over exactly once** when all parts have arrived. -/
theorem Delivers.perm (h : Delivers parts ms pre delivered) (hnodup : ms.Nodup)
    (hall : ∀ m ∈ ms, Complete parts pre m) : delivered.Perm ms := by
  rw [List.perm_ext_iff_of_nodup h.nodup hnodup]
  intro m
  rw [h.mem_iff]
  exact and_iff_left_of_imp (hall m)

end Sulion.Interleaving
