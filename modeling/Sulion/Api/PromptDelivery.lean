import Sulion.Lib.Framing
import Sulion.Lib.Transition
import Mathlib.Data.List.DropRight
import Mathlib.Data.List.Perm.Basic
import Mathlib.Data.List.ReduceOption

set_option autoImplicit false

/-! # Prompts for an agent's terminal

`deliver_prompt` sends a prompt in two requests: the text as a bracketed paste, and the carriage
return that submits it. The node writes each request to the terminal as it comes, whoever sent it.

`Sulion.Lib.Framing` says what a terminal makes of such a stream. The file shows for which texts and
orders of requests it is each prompt, once (`delivered_iff`).
-/

namespace Sulion.PromptDelivery

open Transition

/-! ## One prompt -/

/-- The bytes of a text. -/
def bytes (text : String) : List UInt8 := text.toList.flatMap String.utf8EncodeChar

/-- `\\x1b[200~`, `\\x1b[201~` and the carriage return. -/
def pasteFraming : Framing UInt8 where
  escape := 0x1B
  startTail := [0x5B, 0x32, 0x30, 0x30, 0x7E]
  stopTail := [0x5B, 0x32, 0x30, 0x31, 0x7E]
  submit := 0x0D
  escape_notMem := by decide
  submit_ne := by decide

/-- `replace("\\r\\n", "\\n")`. -/
def replaceCrLf : List Char → List Char
  | [] => []
  | [c] => [c]
  | c :: d :: rest =>
      if c = '\r' ∧ d = '\n' then '\n' :: replaceCrLf rest else c :: replaceCrLf (d :: rest)

def replaceChar (old new : Char) (text : List Char) : List Char :=
  text.map fun c => if c = old then new else c

/-- The text as the paste has it. -/
def normalized (text : String) : String :=
  String.ofList (replaceChar '\n' '\r'
    ((replaceChar '\r' '\n' (replaceCrLf text.toList)).rdropWhile (· = '\n')))

def agentSubmitInput : List UInt8 := bytes "\r"

def promptInputChunks (text : String) : List (List UInt8) :=
  let prompt := bytes ("\x1b[200~" ++ normalized text ++ "\x1b[201~")
  [prompt, agentSubmitInput]

/-! ## Concurrent calls -/

/-- The requests that each call has still to send, and what the terminal got. -/
structure State where
  calls : List (List (List UInt8))
  stream : List UInt8

/-- `deliver_prompt` is called with each of the texts. -/
def State.new (texts : List String) : State := ⟨texts.map promptInputChunks, []⟩

/-- The node answers the next request of the call `i`. -/
def step (s : State) (i : Nat) : Option State :=
  match s.calls[i]? with
  | some (chunk :: rest) => some ⟨s.calls.set i rest, s.stream ++ chunk⟩
  | _ => none

def State.Finished (s : State) : Prop := ∀ requests ∈ s.calls, requests = []

instance (s : State) : Decidable s.Finished := inferInstanceAs (Decidable (∀ _ ∈ s.calls, _))

/-! ## What the terminal should get -/

/-- The stream pastes and submits each prompt once, in some order, and nothing else. -/
def DeliversEach (texts : List String) (stream : List UInt8) : Prop :=
  ∃ order : List String, order.Perm texts ∧
    stream = order.flatMap (fun text => pasteFraming.frame (bytes (normalized text))) ∧
    (∀ text ∈ order, pasteFraming.Plain (bytes (normalized text))) ∧
    pasteFraming.read false 0 [] stream = order.map fun text => bytes (normalized text)

/-- No request comes between the two of a call. -/
def Undisturbed : List Nat → Prop
  | [] => True
  | [_] => False
  | i :: j :: schedule => i = j ∧ Undisturbed schedule

/-! ## The stream of a schedule -/

variable {texts : List String} {schedule : List Nat} {s t : State}

theorem promptInputChunks_eq (text : String) :
    promptInputChunks text = [pasteFraming.paste (bytes (normalized text)),
      [pasteFraming.submit]] := by
  have hstart : bytes "\x1b[200~" = pasteFraming.start := by decide
  have hstop : bytes "\x1b[201~" = pasteFraming.stop := by decide
  have hprompt : bytes ("\x1b[200~" ++ normalized text ++ "\x1b[201~") =
      pasteFraming.paste (bytes (normalized text)) := by
    rw [Framing.paste, ← hstart, ← hstop]
    simp [bytes]
  rw [promptInputChunks, hprompt]
  rfl

/-- The stream only grows. -/
theorem stream_of_runList (h : runList step s schedule = some t) :
    ∃ written, t.stream = s.stream ++ written := by
  induction schedule generalizing s with
  | nil =>
      cases h
      exact ⟨[], by simp⟩
  | cons i schedule ih =>
      obtain ⟨s', hstep, hrest⟩ := Option.bind_eq_some_iff.mp h
      obtain ⟨written, hwritten⟩ := ih hrest
      rw [step] at hstep
      split at hstep
      · rename_i chunk rest _
        cases hstep
        exact ⟨chunk ++ written, by simpa using hwritten⟩
      · cases hstep

/-- The requests of the calls of which some have not begun. -/
def requests (waiting : List (Option String)) : List (List (List UInt8)) :=
  waiting.map fun call => call.elim [] promptInputChunks

theorem perm_waiting {waiting : List (Option String)} {i : Nat} {text : String}
    (h : waiting[i]? = some (some text)) :
    (waiting.reduceOption).Perm (text :: (waiting.set i none).reduceOption) := by
  induction waiting generalizing i with
  | nil => simp at h
  | cons call waiting ih =>
      cases i with
      | zero =>
          simp only [List.getElem?_cons_zero, Option.some.injEq] at h
          subst h
          simp [List.reduceOption_cons_of_some, List.reduceOption_cons_of_none]
      | succ i =>
          simp only [List.getElem?_cons_succ] at h
          cases call with
          | none => simpa [List.reduceOption_cons_of_none] using ih h
          | some first =>
              simp only [List.set_cons_succ, List.reduceOption_cons_of_some]
              exact ((ih h).cons first).trans (List.Perm.swap text first _)

/-- A call that has not begun has a prompt to paste and to submit. -/
theorem of_requests {waiting : List (Option String)} {i : Nat} {chunk : List UInt8}
    {rest : List (List UInt8)} (h : (requests waiting)[i]? = some (chunk :: rest)) :
    ∃ text, waiting[i]? = some (some text) ∧
      chunk = pasteFraming.paste (bytes (normalized text)) ∧ rest = [[pasteFraming.submit]] := by
  rw [requests, List.getElem?_map, Option.map_eq_some_iff] at h
  obtain ⟨call, hwaiting, hrequests⟩ := h
  cases call with
  | none => cases hrequests
  | some text =>
      rw [Option.elim_some, promptInputChunks_eq] at hrequests
      obtain ⟨hchunk, hrest⟩ := List.cons.inj hrequests
      exact ⟨text, hwaiting, hchunk.symm, hrest.symm⟩

theorem of_step {i : Nat} (h : step s i = some t) :
    ∃ chunk rest, s.calls[i]? = some (chunk :: rest) ∧
      t = ⟨s.calls.set i rest, s.stream ++ chunk⟩ := by
  rw [step] at h
  split at h
  · rename_i chunk rest hcall
    cases h
    exact ⟨chunk, rest, hcall, rfl⟩
  · cases h

/-- The prompts as the stream has them. -/
def contents (order : List String) : List (List UInt8) :=
  order.map fun text => bytes (normalized text)

theorem plain_contents {order : List String}
    (h : ∀ text ∈ order, pasteFraming.Plain (bytes (normalized text))) :
    ∀ text ∈ contents order, pasteFraming.Plain text := by
  intro text htext
  obtain ⟨first, hfirst, rfl⟩ := List.mem_map.mp htext
  exact h first hfirst

/-- What a schedule writes when the calls that have not begun are `waiting`, and the others are
through. -/
structure Writes (waiting : List (Option String)) (schedule : List Nat) (written : List UInt8) :
    Prop where
  frames : Undisturbed schedule → ∃ order : List String, order.Perm waiting.reduceOption ∧
    written = (contents order).flatMap pasteFraming.frame
  undisturbed : ∀ order : List String,
    (∀ text ∈ order, pasteFraming.Plain (bytes (normalized text))) →
    written = (contents order).flatMap pasteFraming.frame → Undisturbed schedule

/-- A prompt that is pasted and submitted, and then the rest. -/
theorem Writes.frame {waiting : List (Option String)} {i : Nat} {text : String}
    {written : List UInt8} (hwaiting : waiting[i]? = some (some text))
    (htext : pasteFraming.Plain (bytes (normalized text)))
    (h : Writes (waiting.set i none) schedule written) :
    Writes waiting (i :: i :: schedule)
      (pasteFraming.frame (bytes (normalized text)) ++ written) := by
  refine ⟨fun hnext => ?_, fun order horder hframes => ⟨rfl, ?_⟩⟩
  · obtain ⟨order, hperm, rfl⟩ := h.frames hnext.2
    exact ⟨text :: order, (hperm.cons text).trans (perm_waiting hwaiting).symm, rfl⟩
  · rw [Framing.frame, List.append_assoc] at hframes
    obtain ⟨rest, hcontents, hrest⟩ := htext.of_frames (plain_contents horder) hframes
    cases order with
    | nil => cases hcontents
    | cons first order =>
        obtain ⟨-, rfl⟩ := List.cons.inj hcontents
        exact h.undisturbed order (fun text h => horder text (List.mem_cons_of_mem _ h))
          (List.cons.inj hrest).2

/-- Two requests at a time, as long as no call is between its own. -/
theorem writes_of_runList : ∀ (schedule : List Nat) {waiting : List (Option String)}
    {s t : State}, s.calls = requests waiting →
    (∀ text ∈ waiting.reduceOption, pasteFraming.Plain (bytes (normalized text))) →
    runList step s schedule = some t → t.Finished →
    ∃ written, t.stream = s.stream ++ written ∧ Writes waiting schedule written
  | [], waiting, s, t, hcalls, _, hrun, hdone => by
      cases hrun
      refine ⟨[], by simp, fun _ => ⟨[], ?_, rfl⟩, fun _ _ _ => trivial⟩
      have hempty : waiting.reduceOption = [] := by
        refine List.eq_nil_iff_forall_not_mem.mpr fun text htext => ?_
        have hcall : promptInputChunks text ∈ s.calls := by
          rw [hcalls]
          exact List.mem_map.mpr ⟨some text, List.reduceOption_mem_iff.mp htext, rfl⟩
        cases hdone _ hcall
      rw [hempty]
  | [i], waiting, s, t, hcalls, _, hrun, hdone => by
      obtain ⟨s', hstep, hrest⟩ := Option.bind_eq_some_iff.mp hrun
      cases hrest
      obtain ⟨chunk, rest, hcall, rfl⟩ := of_step hstep
      obtain ⟨text, -, -, rfl⟩ := of_requests (hcalls ▸ hcall)
      -- the call has still to submit
      have hmem : [[pasteFraming.submit]] ∈ s.calls.set i [[pasteFraming.submit]] :=
        List.mem_set (List.getElem?_eq_some_iff.mp hcall).1 _
      cases hdone _ hmem
  | i :: j :: schedule, waiting, s, t, hcalls, hplain, hrun, hdone => by
      obtain ⟨s₁, hfirst, hrun⟩ := Option.bind_eq_some_iff.mp hrun
      obtain ⟨s₂, hsecond, hrun⟩ := Option.bind_eq_some_iff.mp hrun
      obtain ⟨chunk, rest, hcall, rfl⟩ := of_step hfirst
      obtain ⟨text, hwaiting, rfl, rfl⟩ := of_requests (hcalls ▸ hcall)
      obtain ⟨chunk, rest, hcall', rfl⟩ := of_step hsecond
      have hperm := perm_waiting hwaiting
      have htext : pasteFraming.Plain (bytes (normalized text)) :=
        hplain text (hperm.mem_iff.mpr List.mem_cons_self)
      by_cases hij : i = j
      · -- the same call submits, and the others are as they were
        subst hij
        rw [List.getElem?_set_self (List.getElem?_eq_some_iff.mp hcall).1,
          Option.some.injEq] at hcall'
        obtain ⟨rfl, rfl⟩ := List.cons.inj hcall'
        have hcalls' : (s.calls.set i [[pasteFraming.submit]]).set i [] =
            requests (waiting.set i none) := by
          rw [List.set_set, hcalls, requests, requests, List.map_set]
          rfl
        obtain ⟨written, hwritten, hwrites⟩ := writes_of_runList schedule hcalls'
          (fun text h => hplain text (hperm.mem_iff.mpr (List.mem_cons_of_mem _ h))) hrun hdone
        refine ⟨_, ?_, hwrites.frame hwaiting htext⟩
        rw [hwritten, Framing.frame]
        simp only [List.append_assoc]
      · -- another call pastes, where a frame goes on with the submitting symbol
        rw [List.getElem?_set_ne hij, hcalls] at hcall'
        obtain ⟨other, -, rfl, rfl⟩ := of_requests hcall'
        obtain ⟨written, hwritten⟩ := stream_of_runList hrun
        refine ⟨pasteFraming.paste (bytes (normalized text)) ++
          (pasteFraming.paste (bytes (normalized other)) ++ written), ?_,
          fun hnext => absurd hnext.1 hij, fun order horder hframes => ?_⟩
        · rw [hwritten]
          simp only [List.append_assoc]
        · exact absurd hframes (htext.ne_frames (plain_contents horder))

/-! ## The main result -/

/-- **One paste and one submit for each prompt.** When all calls are through, the stream pastes and
submits each prompt once, if and only if no text has the closing marker of a paste in it and no
request came between the two of another call. -/
theorem delivered_iff (hrun : runList step (.new texts) schedule = some s) (hdone : s.Finished) :
    DeliversEach texts s.stream ↔
      (∀ text ∈ texts, pasteFraming.Plain (bytes (normalized text))) ∧ Undisturbed schedule := by
  have hcalls : (State.new texts).calls = requests (texts.map some) := by
    simp [State.new, requests]
  have hwaiting : (texts.map some).reduceOption = texts := by
    simp [List.reduceOption]
  constructor
  · rintro ⟨order, hperm, hstream, hplain, -⟩
    have hplain' : ∀ text ∈ texts, pasteFraming.Plain (bytes (normalized text)) :=
      fun text h => hplain text (hperm.mem_iff.mpr h)
    obtain ⟨written, hwritten, hwrites⟩ :=
      writes_of_runList schedule hcalls (by rwa [hwaiting]) hrun hdone
    refine ⟨hplain', hwrites.undisturbed order hplain ?_⟩
    rw [contents, List.flatMap_map, ← hstream, hwritten]
    rfl
  · rintro ⟨hplain, hundisturbed⟩
    obtain ⟨written, hwritten, hwrites⟩ :=
      writes_of_runList schedule hcalls (by rwa [hwaiting]) hrun hdone
    obtain ⟨order, hperm, rfl⟩ := hwrites.frames hundisturbed
    rw [hwaiting] at hperm
    have hplain' : ∀ text ∈ order, pasteFraming.Plain (bytes (normalized text)) :=
      fun text h => hplain text (hperm.mem_iff.mp h)
    have hstream : s.stream = (contents order).flatMap pasteFraming.frame := hwritten
    refine ⟨order, hperm, ?_, hplain', ?_⟩
    · rw [hstream, contents, List.flatMap_map]
    · rw [hstream, Framing.read_frames (plain_contents hplain')]
      rfl

section Examples

/-- Two prompts, one after the other. -/
def inTurn : State := (runList step (.new ["one", "two\n"]) [1, 1, 0, 0]).getD (.new [])

theorem delivered_iff_inTurn : DeliversEach ["one", "two\n"] inTurn.stream := by
  have hrun : runList step (.new ["one", "two\n"]) [1, 1, 0, 0] = some inTurn := rfl
  exact (delivered_iff hrun (by decide)).mpr ⟨by decide, rfl, rfl, trivial⟩

/-- Two prompts at the same time: both are pasted before the first is submitted. -/
def atOnce : State := (runList step (.new ["one", "two"]) [0, 1, 0, 1]).getD (.new [])

theorem atOnce_not_delivered :
    runList step (.new ["one", "two"]) [0, 1, 0, 1] = some atOnce ∧ atOnce.Finished ∧
      ¬ DeliversEach ["one", "two"] atOnce.stream := by
  refine ⟨rfl, by decide, ?_⟩
  rintro ⟨order, hperm, -, -, hread⟩
  -- the first carriage return submits both prompts, and the second an empty one
  have hsubmitted : pasteFraming.read false 0 [] atOnce.stream = [bytes "onetwo", []] := by decide
  have hempty : [] ∈ order.map fun text => bytes (normalized text) := by
    rw [← hread, hsubmitted]
    simp
  obtain ⟨text, htext, hnone⟩ := List.mem_map.mp hempty
  rcases List.mem_pair.mp (hperm.mem_iff.mp htext) with rfl | rfl
  · exact absurd hnone (by decide)
  · exact absurd hnone (by decide)

end Examples

end Sulion.PromptDelivery
