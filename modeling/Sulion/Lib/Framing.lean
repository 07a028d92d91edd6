import Mathlib.Data.List.Infix

set_option autoImplicit false

/-! # Texts between markers

A frame is a text between an opening and a closing marker, with one more symbol behind it that
submits the text. Both markers begin with a symbol that does not occur again in the closing one, so
that a text without the closing marker ends where the first one stands.

`read` is the other side: it takes what stands between the markers as it is, and outside of them
hands over what it has at each submitting symbol. It reads frames of such texts back
(`read_frames`).
-/

namespace Sulion

structure Framing (α : Type*) where
  escape : α
  startTail : List α
  stopTail : List α
  submit : α
  escape_notMem : escape ∉ stopTail
  submit_ne : submit ≠ escape

namespace Framing

variable {α : Type*} (F : Framing α)

def start : List α := F.escape :: F.startTail

def stop : List α := F.escape :: F.stopTail

def paste (text : List α) : List α := F.start ++ text ++ F.stop

def frame (text : List α) : List α := F.paste text ++ [F.submit]

/-- The text has no closing marker. -/
def Plain (text : List α) : Prop := ¬ F.stop <:+: text

instance [DecidableEq α] (text : List α) : Decidable (F.Plain text) :=
  inferInstanceAs (Decidable (¬ _))

/-- The texts that are handed over. Inside a paste only the closing marker counts; `skip` symbols
of a marker are still to come. -/
def read [DecidableEq α] (pasting : Bool) (skip : Nat) (buffer : List α) : List α → List (List α)
  | [] => []
  | a :: rest =>
      match skip, pasting with
      | skip + 1, _ => read pasting skip buffer rest
      | 0, true =>
          if F.stop.isPrefixOf (a :: rest) then read false F.stopTail.length buffer rest
          else read true 0 (buffer ++ [a]) rest
      | 0, false =>
          if F.start.isPrefixOf (a :: rest) then read true F.startTail.length buffer rest
          else if a = F.submit then buffer :: read false 0 [] rest
          else read false 0 (buffer ++ [a]) rest

variable {F} {text text' rest rest' : List α} {texts : List (List α)}

/-- A closing marker begins nowhere between a plain text and the marker behind it. -/
theorem eq_nil_of_stop_append (hplain : F.Plain text)
    (h : F.stop ++ rest = text ++ (F.stop ++ rest')) : text = [] := by
  rcases List.append_eq_append_iff.mp h with ⟨inner, htext, -⟩ | ⟨inner, hstop, hrest⟩
  · exact absurd ⟨[], inner, by rw [htext, List.nil_append]⟩ hplain
  · cases text with
    | nil => rfl
    | cons a text =>
        cases inner with
        | nil => exact absurd ⟨[], [], by rw [hstop]; simp⟩ hplain
        | cons b inner =>
            -- the first symbol of a marker would stand inside the other one
            have hfirst : F.escape = b := by
              simp only [stop, List.cons_append, List.cons.injEq] at hrest
              exact hrest.1
            have htail : F.stopTail = text ++ b :: inner := by
              simp only [stop, List.cons_append, List.cons.injEq] at hstop
              exact hstop.2
            exact absurd (by rw [htail, ← hfirst]; simp) F.escape_notMem

/-- A plain text ends at the first closing marker. -/
theorem Plain.append_stop_inj (hplain : F.Plain text) (hplain' : F.Plain text')
    (h : text ++ (F.stop ++ rest) = text' ++ (F.stop ++ rest')) : text = text' ∧ rest = rest' := by
  have hfirst : ∀ {as bs inner xs ys : List α}, F.Plain bs → bs = as ++ inner →
      F.stop ++ xs = inner ++ (F.stop ++ ys) → inner = [] := by
    intro as bs inner xs ys hbs hsplit hinner
    refine eq_nil_of_stop_append (fun hin => hbs ?_) hinner
    rw [hsplit]
    exact hin.trans (List.suffix_append as inner).isInfix
  rcases List.append_eq_append_iff.mp h with ⟨inner, htext, hrest⟩ | ⟨inner, htext, hrest⟩
  · obtain rfl := hfirst hplain' htext hrest
    rw [List.append_nil] at htext
    rw [List.nil_append] at hrest
    exact ⟨htext.symm, List.append_cancel_left hrest⟩
  · obtain rfl := hfirst hplain htext hrest
    rw [List.append_nil] at htext
    rw [List.nil_append] at hrest
    exact ⟨htext, (List.append_cancel_left hrest).symm⟩

theorem frame_append (text rest : List α) :
    F.frame text ++ rest = F.start ++ (text ++ (F.stop ++ F.submit :: rest)) := by
  simp [frame, paste]

/-- What follows a paste with which a stream of frames begins. -/
theorem Plain.of_frames (hplain : F.Plain text) (htexts : ∀ text ∈ texts, F.Plain text)
    (h : F.paste text ++ rest = texts.flatMap F.frame) :
    ∃ texts', texts = text :: texts' ∧ rest = F.submit :: texts'.flatMap F.frame := by
  cases texts with
  | nil => simp [paste, start] at h
  | cons first texts =>
      rw [List.flatMap_cons, frame_append, paste, List.append_assoc, List.append_assoc] at h
      obtain ⟨rfl, hrest⟩ := hplain.append_stop_inj (htexts first List.mem_cons_self)
        (List.append_cancel_left h)
      exact ⟨texts, rfl, hrest⟩

/-- A frame goes on with the submitting symbol. -/
theorem Plain.ne_frames {other : List α} (hplain : F.Plain text)
    (htexts : ∀ text ∈ texts, F.Plain text) :
    F.paste text ++ (F.paste other ++ rest) ≠ texts.flatMap F.frame := by
  intro h
  obtain ⟨texts', -, hrest⟩ := hplain.of_frames htexts h
  simp only [paste, start, List.cons_append, List.cons.injEq] at hrest
  exact F.submit_ne hrest.1.symm

section Read

variable [DecidableEq α] {pasting : Bool} {buffer : List α}

theorem read_skip (marker : List α) :
    F.read pasting marker.length buffer (marker ++ rest) = F.read pasting 0 buffer rest := by
  induction marker with
  | nil => rfl
  | cons a marker ih => exact ih

theorem read_start :
    F.read false 0 buffer (F.start ++ rest) = F.read true 0 buffer rest := by
  have hfirst : F.start.isPrefixOf (F.escape :: (F.startTail ++ rest)) = true := by
    simp [start]
  rw [start, List.cons_append, read, if_pos hfirst, read_skip]

theorem read_stop : F.read true 0 buffer (F.stop ++ rest) = F.read false 0 buffer rest := by
  have hfirst : F.stop.isPrefixOf (F.escape :: (F.stopTail ++ rest)) = true := by
    simp [stop]
  rw [stop, List.cons_append, read, if_pos hfirst, read_skip]

theorem read_submit :
    F.read false 0 buffer (F.submit :: rest) = buffer :: F.read false 0 [] rest := by
  have hfirst : F.start.isPrefixOf (F.submit :: rest) = false := by
    simp [start, List.isPrefixOf, F.submit_ne.symm]
  rw [read, if_neg (by simp [hfirst]), if_pos rfl]

theorem read_plain (hplain : F.Plain text) :
    F.read true 0 buffer (text ++ (F.stop ++ rest)) = F.read false 0 (buffer ++ text) rest := by
  induction text generalizing buffer with
  | nil => rw [List.nil_append, read_stop, List.append_nil]
  | cons a text ih =>
      have hfirst : F.stop.isPrefixOf (a :: (text ++ (F.stop ++ rest))) = false := by
        rw [Bool.eq_false_iff]
        intro hstop
        obtain ⟨after, hafter⟩ := List.isPrefixOf_iff_prefix.mp hstop
        cases eq_nil_of_stop_append hplain hafter
      rw [List.cons_append, read, if_neg (by simp [hfirst]),
        ih fun hstop => hplain (hstop.trans (List.suffix_cons a text).isInfix)]
      simp

/-- **Frames are read back**, if no text has a closing marker. -/
theorem read_frames (htexts : ∀ text ∈ texts, F.Plain text) :
    F.read false 0 [] (texts.flatMap F.frame) = texts := by
  induction texts with
  | nil => rfl
  | cons text texts ih =>
      rw [List.flatMap_cons, frame_append, read_start, read_plain (htexts text List.mem_cons_self),
        read_submit, List.nil_append, ih fun text h => htexts text (List.mem_cons_of_mem _ h)]

end Read

end Framing

end Sulion
