import Sulion.Lib.Transition
import Sulion.Lib.DistinctOn
import Sulion.Basic

set_option autoImplicit false

/-! # Submitted prompts

Each prompt typed into the timeline input is stored before its bytes reach the terminal.
`reconcile` matches open prompts with timeline turns: a prompt takes its earliest qualifying turn
that no stored prompt has claimed, and of the prompts that would take one turn the first
submitted gets it. `prune` drops prompts seven days after they were matched or dismissed, and
with a prompt goes its claim.

`prompts_matched_once` is what holds in every run. A prompt is matched once. A turn is matched
again only when the row that claimed it is gone, so more than seven days later. One pass can
leave an open prompt with a turn it could take, when another prompt took its first choice;
as many passes as there are open prompts leave none.
-/

namespace Sulion.SubmittedPrompts

open Transition

/-! ## Rows -/

/-- A row of `submitted_prompts`. -/
structure PromptRow where
  id : Uuid
  ptySessionId : Uuid
  agent : Option String
  text : String
  forced : Bool
  submittedAt : Timestamp
  deliveryError : Option String
  matchedSessionUuid : Option Uuid
  matchedTurnId : Option Int
  matchedAt : Option Timestamp
  dismissedAt : Option Timestamp

/-- A row of `claude_sessions`: the terminal a transcript belongs to. -/
structure ClaudeSession where
  sessionUuid : Uuid
  ptySessionId : Option Uuid

/-- A row of `timeline_turns`. -/
structure TimelineTurn where
  sessionUuid : Uuid
  turnId : Int
  startTimestamp : Timestamp
  userPromptText : Option String

def TimelineTurn.key (t : TimelineTurn) : Uuid × Int := (t.sessionUuid, t.turnId)

/-- A match that was made, kept when its row is dropped. -/
structure Match where
  id : Uuid
  turn : Uuid × Int
  matchedAt : Timestamp

structure Prompts where
  clock : Timestamp
  rows : List PromptRow
  sessions : List ClaudeSession
  turns : List TimelineTurn
  /-- Every id that was given to a prompt. -/
  recorded : List Uuid
  /-- Every match that was made, in order. -/
  made : List Match

def Prompts.new (clock : Timestamp) : Prompts := ⟨clock, [], [], [], [], []⟩

/-! ## Matching -/

/-- `regexp_replace(text, '[[:space:]]+', ' ', 'g')`, after a space or not. -/
def collapseSpaces (isSpace : Char → Bool) : Bool → List Char → List Char
  | _, [] => []
  | afterSpace, c :: cs =>
      if isSpace c then
        if afterSpace then collapseSpaces isSpace true cs else ' ' :: collapseSpaces isSpace true cs
      else c :: collapseSpaces isSpace false cs

/-- `btrim(regexp_replace(text, '[[:space:]]+', ' ', 'g'))`; what is a space is up to the
database's locale. -/
def norm (isSpace : Char → Bool) (text : String) : List Char :=
  let collapsed := (collapseSpaces isSpace false text.toList).dropWhile (· = ' ')
  (collapsed.reverse.dropWhile (· = ' ')).reverse

/-- In the CTE `open`. -/
def PromptRow.isOpen (row : PromptRow) : Bool := row.matchedAt.isNone && row.dismissedAt.isNone

/-- A stored prompt is matched to the turn. -/
def PromptRow.claims (row : PromptRow) (t : TimelineTurn) : Bool :=
  decide (row.matchedSessionUuid = some t.sessionUuid ∧ row.matchedTurnId = some t.turnId)

/-- The `WHERE` of `per_prompt`, with the joins. -/
def qualifies (isSpace : Char → Bool) (s : Prompts) (o : PromptRow) (t : TimelineTurn) : Bool :=
  (s.sessions.any fun cs =>
      decide (cs.ptySessionId = some o.ptySessionId ∧ t.sessionUuid = cs.sessionUuid)) &&
    decide (o.submittedAt - 10 * 1000000 ≤ t.startTimestamp) &&
    t.userPromptText.any (fun text => decide (norm isSpace text = norm isSpace o.text)) &&
    !s.rows.any (·.claims t)

/-- Which of two rows that tie the database returns first. -/
structure Ties where
  turn : Uuid → Uuid × Int → Nat
  prompt : Uuid → Nat

def perPrompt (isSpace : Char → Bool) (ties : Ties) (s : Prompts) :
    List (PromptRow × TimelineTurn) :=
  distinctOn (fun r => r.1.id) (fun r => toLex (r.2.startTimestamp, ties.turn r.1.id r.2.key))
    ((s.rows.filter (·.isOpen)).flatMap fun o =>
      (s.turns.filter (qualifies isSpace s o)).map fun t => (o, t))

def perTurn (isSpace : Char → Bool) (ties : Ties) (s : Prompts) :
    List (PromptRow × TimelineTurn) :=
  distinctOn (fun r => r.2.key) (fun r => toLex (r.1.submittedAt, ties.prompt r.1.id))
    (perPrompt isSpace ties s)

/-- The `SET` of `reconcile`. -/
def PromptRow.matchTo (row : PromptRow) (t : TimelineTurn) (now : Timestamp) : PromptRow :=
  { row with
    matchedSessionUuid := some t.sessionUuid
    matchedTurnId := some t.turnId
    matchedAt := some now }

/-- `UPDATE … FROM per_turn`. -/
def updateRow (chosen : List (PromptRow × TimelineTurn)) (now : Timestamp) (row : PromptRow) :
    PromptRow :=
  match chosen.find? fun c => decide (c.1.id = row.id) with
  | some c => row.matchTo c.2 now
  | none => row

def reconcile (isSpace : Char → Bool) (ties : Ties) (s : Prompts) (now : Timestamp) : Prompts :=
  let chosen := perTurn isSpace ties s
  { s with
    rows := s.rows.map (updateRow chosen now)
    made := s.made ++ chosen.map fun c => ⟨c.1.id, c.2.key, now⟩ }

/-- `make_interval(days => RETENTION_DAYS)`. -/
def retention : Int := 7 * 86400000000

/-- The `WHERE` of `prune`. -/
def PromptRow.isPruned (row : PromptRow) (now : Timestamp) : Bool :=
  row.matchedAt.any (fun t => decide (t < now - retention)) ||
    row.dismissedAt.any (fun t => decide (t < now - retention))

inductive Action
  | record (id ptySessionId : Uuid) (agent : Option String) (text : String) (forced : Bool)
  | markDeliveryError (id : Uuid) (error : String)
  | dismiss (ptySessionId id : Uuid)
  | reconcile (ties : Ties)
  | prune
  /-- The ingester projects turns and correlates sessions. -/
  | timeline (sessions : List ClaudeSession) (turns : List TimelineTurn)

/-- The action, at the time `now`. -/
def act (isSpace : Char → Bool) (s : Prompts) (now : Timestamp) : Action → Option Prompts
  | .record id pty agent text forced =>
      -- `gen_random_uuid()` gives no id twice.
      if id ∈ s.recorded then none
      else some { s with
        rows := s.rows ++ [⟨id, pty, agent, text, forced, now, none, none, none, none, none⟩]
        recorded := s.recorded ++ [id] }
  | .markDeliveryError id error => some { s with
      rows := s.rows.map fun row =>
        if row.id = id then { row with deliveryError := some error } else row }
  | .dismiss pty id => some { s with
      rows := s.rows.map fun row =>
        if row.id = id ∧ row.ptySessionId = pty ∧ row.dismissedAt = none then
          { row with dismissedAt := some now }
        else row }
  | .reconcile ties => some (reconcile isSpace ties s now)
  | .prune => some { s with rows := s.rows.filter fun row => !row.isPruned now }
  | .timeline sessions turns => some { s with sessions := sessions, turns := turns }

/-- The clock does not go back. -/
def promptStep (isSpace : Char → Bool) (s : Prompts) (a : Timestamp × Action) : Option Prompts :=
  if s.clock ≤ a.1 then act isSpace { s with clock := a.1 } a.1 a.2 else none

variable {isSpace : Char → Bool} {ties : Ties} {s s' : Prompts} {now : Timestamp}

/-! ## One pass -/

theorem mem_perPrompt {c : PromptRow × TimelineTurn} (h : c ∈ perPrompt isSpace ties s) :
    c.1 ∈ s.rows ∧ c.1.isOpen ∧ c.2 ∈ s.turns ∧ qualifies isSpace s c.1 c.2 := by
  have hrow := mem_of_mem_distinctOn h
  simp only [List.mem_flatMap, List.mem_filter, List.mem_map] at hrow
  obtain ⟨o, ⟨ho, hopen⟩, t, ⟨ht, hqualifies⟩, rfl⟩ := hrow
  exact ⟨ho, hopen, ht, hqualifies⟩

theorem mem_perTurn {c : PromptRow × TimelineTurn} (h : c ∈ perTurn isSpace ties s) :
    c ∈ perPrompt isSpace ties s := mem_of_mem_distinctOn h

/-- A pass matches a prompt once. -/
theorem perTurn_pairwise_id :
    (perTurn isSpace ties s).Pairwise fun a b => a.1.id ≠ b.1.id := by
  refine pairwise_distinctOn.imp_of_mem ?_
  intro a b ha hb hne hid
  rw [eq_of_mem_distinctOn (mem_perTurn ha) (mem_perTurn hb) hid] at hne
  exact hne rfl

/-- A pass matches a turn once. -/
theorem perTurn_pairwise_key :
    (perTurn isSpace ties s).Pairwise fun a b => a.2.key ≠ b.2.key := pairwise_distinctOn

theorem not_claims_of_qualifies {o row : PromptRow} {t : TimelineTurn}
    (h : qualifies isSpace s o t) (hrow : row ∈ s.rows) : ¬ row.claims t := by
  intro hclaims
  unfold qualifies at h
  simp only [Bool.and_eq_true, Bool.not_eq_true'] at h
  have hany : s.rows.any (·.claims t) = true := List.any_eq_true.mpr ⟨row, hrow, hclaims⟩
  rw [hany] at h
  cases h.2

theorem matchTo_claims {row : PromptRow} {t t' : TimelineTurn} :
    (row.matchTo t now).claims t' ↔ t.key = t'.key := by
  simp [PromptRow.claims, PromptRow.matchTo, TimelineTurn.key]

theorem claims_congr {row : PromptRow} {t t' : TimelineTurn} (h : t.key = t'.key) :
    row.claims t = row.claims t' := by
  have hboth := Prod.mk.inj h
  unfold PromptRow.claims
  rw [hboth.1, hboth.2]

section updateRow

variable {chosen : List (PromptRow × TimelineTurn)} {row : PromptRow}

theorem updateRow_of_mem {c : PromptRow × TimelineTurn}
    (hpairwise : chosen.Pairwise fun a b => a.1.id ≠ b.1.id) (hc : c ∈ chosen)
    (hid : c.1.id = row.id) : updateRow chosen now row = row.matchTo c.2 now := by
  unfold updateRow
  cases hfind : chosen.find? fun c => decide (c.1.id = row.id) with
  | none =>
      have hnone := List.find?_eq_none.mp hfind c hc
      simp [hid] at hnone
  | some d =>
      have hd : d.1.id = row.id := by simpa using List.find?_some hfind
      have heq : d = c := eq_of_pairwise_ne hpairwise (List.mem_of_find?_eq_some hfind) hc
        (hd.trans hid.symm)
      rw [heq]

theorem updateRow_of_not_mem (h : ∀ c ∈ chosen, c.1.id ≠ row.id) :
    updateRow chosen now row = row := by
  unfold updateRow
  cases hfind : chosen.find? fun c => decide (c.1.id = row.id) with
  | none => rfl
  | some d =>
      have hd : d.1.id = row.id := by simpa using List.find?_some hfind
      exact absurd hd (h d (List.mem_of_find?_eq_some hfind))

/-- What an update does to a row. -/
theorem updateRow_cases (chosen : List (PromptRow × TimelineTurn)) (now : Timestamp)
    (row : PromptRow) :
    (∃ c ∈ chosen, c.1.id = row.id ∧ updateRow chosen now row = row.matchTo c.2 now) ∨
      (∀ c ∈ chosen, c.1.id ≠ row.id) ∧ updateRow chosen now row = row := by
  unfold updateRow
  cases hfind : chosen.find? fun c => decide (c.1.id = row.id) with
  | none =>
      right
      refine ⟨?_, rfl⟩
      intro c hc hid
      have hnone := List.find?_eq_none.mp hfind c hc
      simp [hid] at hnone
  | some d =>
      left
      exact ⟨d, List.mem_of_find?_eq_some hfind, by simpa using List.find?_some hfind, rfl⟩

@[simp] theorem updateRow_id : (updateRow chosen now row).id = row.id := by
  rcases updateRow_cases chosen now row with ⟨c, _, _, h⟩ | ⟨_, h⟩ <;>
    rw [h]
  rfl

@[simp] theorem updateRow_submittedAt :
  (updateRow chosen now row).submittedAt = row.submittedAt := by
  rcases updateRow_cases chosen now row with ⟨c, _, _, h⟩ | ⟨_, h⟩ <;>
    rw [h]
  rfl

@[simp] theorem updateRow_dismissedAt :
    (updateRow chosen now row).dismissedAt = row.dismissedAt := by
  rcases updateRow_cases chosen now row with ⟨c, _, _, h⟩ | ⟨_, h⟩ <;>
    rw [h]
  rfl

end updateRow

/-! ## The invariant -/

/-- A row is matched as `m` says. -/
def PromptRow.Holds (row : PromptRow) (m : Match) : Prop :=
  row.id = m.id ∧ row.matchedSessionUuid = some m.turn.1 ∧ row.matchedTurnId = some m.turn.2 ∧
    row.matchedAt = some m.matchedAt

/-- What ties the stored prompts to the matches that were made. -/
structure Matched (s : Prompts) : Prop where
  ids : s.rows.Pairwise fun a b => a.id ≠ b.id
  rows_recorded : ∀ row ∈ s.rows, row.id ∈ s.recorded
  made_recorded : ∀ m ∈ s.made, m.id ∈ s.recorded
  /-- A prompt that was matched stays matched to that turn. -/
  holds : ∀ row ∈ s.rows, ∀ m ∈ s.made, row.id = m.id → row.Holds m
  /-- A stored prompt is matched only by a pass. -/
  made_of_matched : ∀ row ∈ s.rows, row.matchedSessionUuid.isSome ∨ row.matchedAt.isSome →
    ∃ m ∈ s.made, row.Holds m
  /-- The row of a match is dropped after the retention. -/
  kept : ∀ m ∈ s.made, (∃ row ∈ s.rows, row.id = m.id) ∨ m.matchedAt + retention < s.clock
  past : ∀ m ∈ s.made, m.matchedAt ≤ s.clock
  /-- A dismissed prompt is not matched any more. -/
  dismissed : ∀ row ∈ s.rows, ∀ matched ∈ row.matchedAt, ∀ dismissed ∈ row.dismissedAt,
    matched ≤ dismissed
  once : s.made.Pairwise fun m m' => m.id ≠ m'.id
  /-- A turn is claimed by one stored prompt. -/
  claimed : ∀ row ∈ s.rows, ∀ row' ∈ s.rows, ∀ t : TimelineTurn, row.claims t → row'.claims t →
    row.id = row'.id
  apart : s.made.Pairwise fun m m' => m.turn = m'.turn → m.matchedAt + retention < m'.matchedAt

theorem matched_new (clock : Timestamp) : Matched (.new clock) := by
  constructor <;> simp [Prompts.new]

theorem Matched.tick (h : Matched s) (hle : s.clock ≤ now) : Matched { s with clock := now } where
  ids := h.ids
  rows_recorded := h.rows_recorded
  made_recorded := h.made_recorded
  holds := h.holds
  made_of_matched := h.made_of_matched
  kept m hm := (h.kept m hm).imp_right fun hlong => hlong.trans_le hle
  past m hm := (h.past m hm).trans hle
  dismissed := h.dismissed
  once := h.once
  claimed := h.claimed
  apart := h.apart

theorem Matched.record (h : Matched s) {id pty : Uuid} {agent : Option String} {text : String}
    {forced : Bool} (hnew : id ∉ s.recorded) :
    Matched { s with
      rows := s.rows ++ [⟨id, pty, agent, text, forced, s.clock, none, none, none, none, none⟩]
      recorded := s.recorded ++ [id] } := by
  constructor
  · refine List.pairwise_append.mpr ⟨h.ids, List.pairwise_singleton _ _, ?_⟩
    intro a ha b hb heq
    rw [List.mem_singleton.mp hb] at heq
    have hid : a.id = id := heq
    exact hnew (hid ▸ h.rows_recorded a ha)
  · intro row hrow
    rcases List.mem_append.mp hrow with hrow | hrow
    · exact List.mem_append_left _ (h.rows_recorded row hrow)
    · rw [List.mem_singleton.mp hrow]
      exact List.mem_append_right _ (List.mem_singleton_self _)
  · intro m hm
    exact List.mem_append_left _ (h.made_recorded m hm)
  · intro row hrow m hm hid
    rcases List.mem_append.mp hrow with hrow | hrow
    · exact h.holds row hrow m hm hid
    · rw [List.mem_singleton.mp hrow] at hid
      have hid : m.id = id := hid.symm
      exact absurd (hid ▸ h.made_recorded m hm) hnew
  · intro row hrow hmatched
    rcases List.mem_append.mp hrow with hrow | hrow
    · exact h.made_of_matched row hrow hmatched
    · rw [List.mem_singleton.mp hrow] at hmatched
      rcases hmatched with hmatched | hmatched <;> cases hmatched
  · intro m hm
    refine (h.kept m hm).imp_left ?_
    rintro ⟨row, hrow, hid⟩
    exact ⟨row, List.mem_append_left _ hrow, hid⟩
  · exact h.past
  · intro row hrow matched hmatched
    rcases List.mem_append.mp hrow with hrow | hrow
    · exact h.dismissed row hrow matched hmatched
    · rw [List.mem_singleton.mp hrow] at hmatched
      cases hmatched
  · exact h.once
  · have hfresh : ∀ t : TimelineTurn,
        ¬ (⟨id, pty, agent, text, forced, s.clock, none, none, none, none,
          none⟩ : PromptRow).claims t :=
      fun t hclaims => by simp [PromptRow.claims] at hclaims
    intro row hrow row' hrow' t hclaims hclaims'
    rcases List.mem_append.mp hrow with hrow | hrow
    · rcases List.mem_append.mp hrow' with hrow' | hrow'
      · exact h.claimed row hrow row' hrow' t hclaims hclaims'
      · rw [List.mem_singleton.mp hrow'] at hclaims'
        exact absurd hclaims' (hfresh t)
    · rw [List.mem_singleton.mp hrow] at hclaims
      exact absurd hclaims (hfresh t)
  · exact h.apart

/-- Rows are rewritten with their identity and match kept; only an undismissed row may be
dismissed, and now. -/
theorem Matched.rewrite (h : Matched s) (f : PromptRow → PromptRow)
    (hid : ∀ row, (f row).id = row.id)
    (hmatch : ∀ row, (f row).matchedSessionUuid = row.matchedSessionUuid ∧
      (f row).matchedTurnId = row.matchedTurnId ∧ (f row).matchedAt = row.matchedAt)
    (hdismissed : ∀ row, (f row).dismissedAt = row.dismissedAt ∨
      (f row).dismissedAt = some s.clock) :
    Matched { s with rows := s.rows.map f } := by
  have hholds : ∀ row m, row.Holds m → (f row).Holds m := by
    rintro row m ⟨h1, h2, h3, h4⟩
    obtain ⟨hs, ht, ha⟩ := hmatch row
    exact ⟨(hid row).trans h1, hs.trans h2, ht.trans h3, ha.trans h4⟩
  constructor
  · exact List.pairwise_map.mpr (h.ids.imp fun {a b} hne => by rwa [hid, hid])
  · intro row hrow
    obtain ⟨old, hold, rfl⟩ := List.mem_map.mp hrow
    rw [hid]
    exact h.rows_recorded old hold
  · exact h.made_recorded
  · intro row hrow m hm heq
    obtain ⟨old, hold, rfl⟩ := List.mem_map.mp hrow
    rw [hid] at heq
    exact hholds _ _ (h.holds old hold m hm heq)
  · intro row hrow hsome
    obtain ⟨old, hold, rfl⟩ := List.mem_map.mp hrow
    rw [(hmatch old).1, (hmatch old).2.2] at hsome
    obtain ⟨m, hm, hold'⟩ := h.made_of_matched old hold hsome
    exact ⟨m, hm, hholds _ _ hold'⟩
  · intro m hm
    refine (h.kept m hm).imp_left ?_
    rintro ⟨row, hrow, heq⟩
    exact ⟨f row, List.mem_map_of_mem hrow, (hid row).trans heq⟩
  · exact h.past
  · intro row hrow matched hmatched dismissed hdis
    obtain ⟨old, hold, rfl⟩ := List.mem_map.mp hrow
    rw [(hmatch old).2.2] at hmatched
    rcases hdismissed old with heq | heq
    · rw [heq] at hdis
      exact h.dismissed old hold matched hmatched dismissed hdis
    · -- Dismissed now: the match is in the past.
      rw [heq] at hdis
      obtain rfl := Option.some.inj hdis
      obtain ⟨m, hm, _, _, _, hat⟩ :=
        h.made_of_matched old hold (.inr (Option.isSome_of_mem hmatched))
      have hmat : matched = m.matchedAt := Option.some.inj (hmatched.symm.trans hat)
      rw [hmat]
      exact h.past m hm
  · exact h.once
  · intro row hrow row' hrow' t hclaims hclaims'
    obtain ⟨old, hold, rfl⟩ := List.mem_map.mp hrow
    obtain ⟨old', hold', rfl⟩ := List.mem_map.mp hrow'
    unfold PromptRow.claims at hclaims hclaims'
    rw [(hmatch _).1, (hmatch _).2.1] at hclaims hclaims'
    rw [hid, hid]
    exact h.claimed old hold old' hold' t hclaims hclaims'
  · exact h.apart

theorem Matched.prune (h : Matched s) :
    Matched { s with rows := s.rows.filter fun row => !row.isPruned s.clock } := by
  have hmem : ∀ row ∈ s.rows.filter (fun row => !row.isPruned s.clock), row ∈ s.rows :=
    fun row hrow => (List.mem_filter.mp hrow).1
  constructor
  · exact h.ids.filter _
  · exact fun row hrow => h.rows_recorded row (hmem row hrow)
  · exact h.made_recorded
  · exact fun row hrow => h.holds row (hmem row hrow)
  · exact fun row hrow => h.made_of_matched row (hmem row hrow)
  · intro m hm
    rcases h.kept m hm with ⟨row, hrow, hid⟩ | hlong
    · by_cases hpruned : row.isPruned s.clock
      · right
        obtain ⟨_, _, _, hat⟩ := h.holds row hrow m hm hid
        have hdis := h.dismissed row hrow m.matchedAt hat
        unfold PromptRow.isPruned at hpruned
        rw [hat, Bool.or_eq_true, Option.any_some, decide_eq_true_eq] at hpruned
        rcases hpruned with hpruned | hpruned
        · exact Int.add_lt_of_lt_sub_right hpruned
        · -- Dismissed long ago, and matched before that.
          obtain ⟨dismissed, hmemd, hlt⟩ := (Option.any_eq_true _ _).mp hpruned
          have hlt : dismissed < s.clock - retention := of_decide_eq_true hlt
          exact Int.add_lt_of_lt_sub_right ((hdis dismissed hmemd).trans_lt hlt)
      · left
        exact ⟨row, List.mem_filter.mpr ⟨hrow, by simp [hpruned]⟩, hid⟩
    · exact .inr hlong
  · exact h.past
  · exact fun row hrow => h.dismissed row (hmem row hrow)
  · exact h.once
  · exact fun row hrow row' hrow' => h.claimed row (hmem row hrow) row' (hmem row' hrow')
  · exact h.apart

/-- **A pass keeps the bookkeeping.** What it matches was open, so matched never before, and the
turns it matches have no claim, so their old matches were dropped. -/
theorem Matched.reconcile (h : Matched s) :
    Matched (reconcile isSpace ties s s.clock) := by
  have hnew : ∀ c ∈ perTurn isSpace ties s, ∀ m ∈ s.made, m.id ≠ c.1.id := by
    intro c hc m hm heq
    obtain ⟨hrow, hopen, _⟩ := mem_perPrompt (mem_perTurn hc)
    obtain ⟨_, _, _, hat⟩ := h.holds c.1 hrow m hm heq.symm
    simp [PromptRow.isOpen, hat] at hopen
  constructor
  · exact List.pairwise_map.mpr (h.ids.imp fun {a b} hne => by simpa using hne)
  · intro row hrow
    obtain ⟨old, hold, rfl⟩ := List.mem_map.mp hrow
    rw [updateRow_id]
    exact h.rows_recorded old hold
  · intro m hm
    rcases List.mem_append.mp hm with hm | hm
    · exact h.made_recorded m hm
    · obtain ⟨c, hc, rfl⟩ := List.mem_map.mp hm
      exact h.rows_recorded c.1 (mem_perPrompt (mem_perTurn hc)).1
  · intro row hrow m hm hid
    obtain ⟨old, hold, rfl⟩ := List.mem_map.mp hrow
    rw [updateRow_id] at hid
    rcases List.mem_append.mp hm with hm | hm
    · rw [updateRow_of_not_mem]
      · exact h.holds old hold m hm hid
      · intro c hc heq
        exact hnew c hc m hm (hid.symm.trans heq.symm)
    · obtain ⟨c, hc, rfl⟩ := List.mem_map.mp hm
      rw [updateRow_of_mem perTurn_pairwise_id hc hid.symm]
      exact ⟨hid, rfl, rfl, rfl⟩
  · intro row hrow hsome
    obtain ⟨old, hold, rfl⟩ := List.mem_map.mp hrow
    rcases updateRow_cases (perTurn isSpace ties s) s.clock old with
      ⟨c, hc, hid, heq⟩ | ⟨_, heq⟩
    · refine ⟨⟨c.1.id, c.2.key, s.clock⟩, List.mem_append_right _ (List.mem_map_of_mem hc), ?_⟩
      rw [heq]
      exact ⟨hid.symm, rfl, rfl, rfl⟩
    · rw [heq] at hsome ⊢
      obtain ⟨m, hm, hholds⟩ := h.made_of_matched old hold hsome
      exact ⟨m, List.mem_append_left _ hm, hholds⟩
  · intro m hm
    rcases List.mem_append.mp hm with hm | hm
    · refine (h.kept m hm).imp_left ?_
      rintro ⟨row, hrow, hid⟩
      exact ⟨_, List.mem_map_of_mem hrow, updateRow_id.trans hid⟩
    · obtain ⟨c, hc, rfl⟩ := List.mem_map.mp hm
      exact .inl ⟨_, List.mem_map_of_mem (mem_perPrompt (mem_perTurn hc)).1, updateRow_id⟩
  · intro m hm
    rcases List.mem_append.mp hm with hm | hm
    · exact h.past m hm
    · obtain ⟨c, _, rfl⟩ := List.mem_map.mp hm
      exact le_refl _
  · intro row hrow matched hmatched dismissed hdis
    obtain ⟨old, hold, rfl⟩ := List.mem_map.mp hrow
    rw [updateRow_dismissedAt] at hdis
    rcases updateRow_cases (perTurn isSpace ties s) s.clock old with
      ⟨c, hc, hid, _⟩ | ⟨_, heq⟩
    · -- A dismissed prompt is not open.
      obtain ⟨hrow', hopen, _⟩ := mem_perPrompt (mem_perTurn hc)
      have hsame : c.1 = old := eq_of_pairwise_ne h.ids hrow' hold hid
      rw [hsame] at hopen
      simp [PromptRow.isOpen, Option.mem_def.mp hdis] at hopen
    · rw [heq] at hmatched
      exact h.dismissed old hold matched hmatched dismissed hdis
  · refine List.pairwise_append.mpr ⟨h.once, ?_, ?_⟩
    · exact List.pairwise_map.mpr perTurn_pairwise_id
    · intro m hm m' hm' heq
      obtain ⟨c, hc, rfl⟩ := List.mem_map.mp hm'
      exact hnew c hc m hm heq
  · intro row hrow row' hrow' t hclaims hclaims'
    obtain ⟨old, hold, rfl⟩ := List.mem_map.mp hrow
    obtain ⟨old', hold', rfl⟩ := List.mem_map.mp hrow'
    rw [updateRow_id, updateRow_id]
    rcases updateRow_cases (perTurn isSpace ties s) s.clock old with
      ⟨c, hc, hid, heq⟩ | ⟨_, heq⟩ <;>
      rcases updateRow_cases (perTurn isSpace ties s) s.clock old' with
        ⟨c', hc', hid', heq'⟩ | ⟨_, heq'⟩ <;> rw [heq] at hclaims <;> rw [heq'] at hclaims'
    · have hkey := (matchTo_claims.mp hclaims).trans (matchTo_claims.mp hclaims').symm
      rw [← hid, ← hid', eq_of_pairwise_ne perTurn_pairwise_key hc hc' hkey]
    · have hkey := matchTo_claims.mp hclaims
      rw [← claims_congr hkey] at hclaims'
      exact absurd hclaims'
        (not_claims_of_qualifies (mem_perPrompt (mem_perTurn hc)).2.2.2 hold')
    · have hkey := matchTo_claims.mp hclaims'
      rw [← claims_congr hkey] at hclaims
      exact absurd hclaims
        (not_claims_of_qualifies (mem_perPrompt (mem_perTurn hc')).2.2.2 hold)
    · exact h.claimed old hold old' hold' t hclaims hclaims'
  · refine List.pairwise_append.mpr ⟨h.apart, ?_, ?_⟩
    · refine List.pairwise_map.mpr (perTurn_pairwise_key.imp ?_)
      intro a b hne heq
      exact absurd heq hne
    · intro m hm m' hm' heq
      obtain ⟨c, hc, rfl⟩ := List.mem_map.mp hm'
      refine (h.kept m hm).resolve_left ?_
      rintro ⟨row, hrow, hid⟩
      obtain ⟨_, hsession, hturn, _⟩ := h.holds row hrow m hm hid
      have hclaims : row.claims c.2 := by
        unfold PromptRow.claims
        rw [decide_eq_true_eq, hsession, hturn, heq]
        exact ⟨rfl, rfl⟩
      exact not_claims_of_qualifies (mem_perPrompt (mem_perTurn hc)).2.2.2 hrow hclaims

theorem matched_preserved (isSpace : Char → Bool) :
    Preserved (promptStep isSpace) anyStep Matched := by
  rintro s ⟨now, action⟩ s' h _ hstep
  unfold promptStep at hstep
  split at hstep
  swap
  · cases hstep
  rename_i hle
  have h := h.tick hle
  cases action with
  | record id pty agent text forced =>
      simp only [act] at hstep
      split at hstep
      · cases hstep
      · rename_i hnew
        cases hstep
        exact h.record hnew
  | markDeliveryError id error =>
      cases hstep
      refine h.rewrite _ ?_ ?_ ?_ <;> intro row <;> split <;> simp
  | dismiss pty id =>
      cases hstep
      refine h.rewrite _ ?_ ?_ ?_ <;> intro row <;> split <;> simp
  | reconcile ties =>
      cases hstep
      exact h.reconcile
  | prune =>
      cases hstep
      exact h.prune
  | timeline sessions turns =>
      cases hstep
      exact ⟨h.ids, h.rows_recorded, h.made_recorded, h.holds, h.made_of_matched, h.kept, h.past,
        h.dismissed, h.once, h.claimed, h.apart⟩

/-! ## What a pass leaves -/

/-- No open prompt has a turn it could take. -/
def Settled (isSpace : Char → Bool) (s : Prompts) : Prop :=
  ∀ o ∈ s.rows, o.isOpen → ∀ t ∈ s.turns, ¬ qualifies isSpace s o t

def openCount (s : Prompts) : Nat := s.rows.countP (·.isOpen)

/-- A claim stays. -/
theorem updateRow_claims (h : Matched s) {row : PromptRow} (hrow : row ∈ s.rows)
    {t : TimelineTurn} (hclaims : row.claims t) :
    (updateRow (perTurn isSpace ties s) now row).claims t := by
  rw [updateRow_of_not_mem]
  · exact hclaims
  · intro c hc hid
    obtain ⟨hrow', hopen, _⟩ := mem_perPrompt (mem_perTurn hc)
    rw [eq_of_pairwise_ne h.ids hrow' hrow hid] at hopen
    have hsession : row.matchedSessionUuid = some t.sessionUuid := (of_decide_eq_true hclaims).1
    obtain ⟨m, _, _, _, _, hat⟩ := h.made_of_matched row hrow (.inl (by simp [hsession]))
    simp [PromptRow.isOpen, hat] at hopen

/-- **An open prompt is left with a turn only when its first choice went to another prompt**, one
that was submitted no later. -/
theorem taken_of_qualifies (h : Matched s) {o : PromptRow} {t : TimelineTurn}
    (ho : o ∈ (reconcile isSpace ties s now).rows) (hopen : o.isOpen) (ht : t ∈ s.turns)
    (hqualifies : qualifies isSpace (reconcile isSpace ties s now) o t) :
    o ∈ s.rows ∧ ∃ c ∈ perTurn isSpace ties s, c.1.submittedAt ≤ o.submittedAt ∧
      ∃ t' ∈ s.turns, qualifies isSpace s o t' ∧ t'.startTimestamp ≤ t.startTimestamp ∧
        c.2.key = t'.key := by
  obtain ⟨old, hold, rfl⟩ := List.mem_map.mp ho
  rcases updateRow_cases (perTurn isSpace ties s) now old with
    ⟨c, _, _, heq⟩ | ⟨_, heq⟩
  · rw [heq] at hopen
    cases hopen
  · rw [heq] at hopen hqualifies ⊢
    -- What is unclaimed after the pass was unclaimed before.
    have hbefore : qualifies isSpace s old t := by
      unfold qualifies at hqualifies ⊢
      simp only [Bool.and_eq_true, Bool.not_eq_true'] at hqualifies ⊢
      refine ⟨hqualifies.1, ?_⟩
      by_contra hany
      rw [Bool.not_eq_false, List.any_eq_true] at hany
      obtain ⟨row, hrow, hclaims⟩ := hany
      have hafter : (reconcile isSpace ties s now).rows.any (·.claims t) = true :=
        List.any_eq_true.mpr ⟨_, List.mem_map_of_mem hrow, updateRow_claims h hrow hclaims⟩
      rw [hafter] at hqualifies
      cases hqualifies.2
    have hjoined : (old, t) ∈ (s.rows.filter (·.isOpen)).flatMap fun o =>
        (s.turns.filter (qualifies isSpace s o)).map fun t => (o, t) := by
      rw [List.mem_flatMap]
      refine ⟨old, List.mem_filter.mpr ⟨hold, hopen⟩, ?_⟩
      exact List.mem_map_of_mem (List.mem_filter.mpr ⟨ht, hbefore⟩)
    have hfirst : ∃ r ∈ perPrompt isSpace ties s, r.1.id = old.id ∧
        toLex (r.2.startTimestamp, ties.turn r.1.id r.2.key) ≤
          toLex (t.startTimestamp, ties.turn old.id t.key) := exists_mem_distinctOn hjoined
    obtain ⟨⟨o, t'⟩, hfirst, hid, hstart⟩ := hfirst
    obtain ⟨ho, _, ht', hqualifies'⟩ := mem_perPrompt hfirst
    have hsame : o = old := eq_of_pairwise_ne h.ids ho hold hid
    subst hsame
    have htaken : ∃ c ∈ perTurn isSpace ties s, c.2.key = t'.key ∧
        toLex (c.1.submittedAt, ties.prompt c.1.id) ≤ toLex (o.submittedAt, ties.prompt o.id) :=
      exists_mem_distinctOn hfirst
    obtain ⟨c, hc, hkey, hsubmitted⟩ := htaken
    refine ⟨hold, c, hc, ?_, t', ht', hqualifies', ?_, hkey⟩
    · exact Prod.Lex.monotone_fst _ _ hsubmitted
    · exact Prod.Lex.monotone_fst _ _ hstart

/-- A pass that matches nothing leaves nothing to match. -/
theorem settled_of_perTurn_eq_nil (h : Matched s) (hnil : perTurn isSpace ties s = []) :
    Settled isSpace (reconcile isSpace ties s now) := by
  intro o ho hopen t ht hqualifies
  obtain ⟨_, c, hc, _⟩ := taken_of_qualifies h ho hopen ht hqualifies
  rw [hnil] at hc
  cases hc

/-- What a pass matches is open no more. -/
theorem openCount_reconcile_lt (hne : perTurn isSpace ties s ≠ []) (now : Timestamp) :
    openCount (reconcile isSpace ties s now) < openCount s := by
  obtain ⟨c, hc⟩ := List.exists_mem_of_ne_nil _ hne
  obtain ⟨hrow, hopen, _⟩ := mem_perPrompt (mem_perTurn hc)
  have hmono : ∀ row : PromptRow, (updateRow (perTurn isSpace ties s) now row).isOpen →
      row.isOpen := by
    intro row hafter
    rcases updateRow_cases (perTurn isSpace ties s) now row with
      ⟨c, _, _, heq⟩ | ⟨_, heq⟩ <;> rw [heq] at hafter
    · cases hafter
    · exact hafter
  have hclosed : ¬ (updateRow (perTurn isSpace ties s) now c.1).isOpen := by
    rw [updateRow_of_mem perTurn_pairwise_id hc rfl]
    intro hafter
    cases hafter
  obtain ⟨before, after, hrows⟩ := List.append_of_mem hrow
  unfold openCount reconcile
  rw [List.countP_map, hrows]
  simp only [List.countP_append, List.countP_cons, Function.comp_def, hopen, hclosed, if_true]
  have hpart : ∀ rows : List PromptRow,
      rows.countP (fun row => (updateRow (perTurn isSpace ties s) now row).isOpen) ≤
        rows.countP fun row => row.isOpen := fun rows =>
    List.countP_mono_left fun row _ hafter => hmono row hafter
  have hbefore := hpart before
  have hafter := hpart after
  simp only [Bool.false_eq_true, if_false]
  omega

/-- A pass over settled prompts matches nothing. -/
theorem perTurn_eq_nil_of_settled (h : Settled isSpace s) : perTurn isSpace ties s = [] := by
  rw [List.eq_nil_iff_forall_not_mem]
  intro c hc
  obtain ⟨hrow, hopen, ht, hqualifies⟩ := mem_perPrompt (mem_perTurn hc)
  exact h c.1 hrow hopen c.2 ht hqualifies

/-- The actions are passes. -/
def Passes (actions : List (Timestamp × Action)) : Prop :=
  ∀ a ∈ actions, ∃ ties, a.2 = .reconcile ties

/-- **Enough passes settle everything.** -/
theorem settled_of_passes (actions : List (Timestamp × Action)) (hpasses : Passes actions)
    (h : Matched s) (hcount : Settled isSpace s ∨ openCount s ≤ actions.length)
    (hrun : runList (promptStep isSpace) s actions = some s') : Settled isSpace s' := by
  induction actions generalizing s with
  | nil =>
      cases hrun
      rcases hcount with hsettled | hcount
      · exact hsettled
      · -- No prompt is open.
        intro o ho hopen
        have hzero : openCount s' = 0 := Nat.le_zero.mp hcount
        exact absurd hopen (List.countP_eq_zero.mp hzero o ho)
  | cons a actions ih =>
      obtain ⟨ties, ha⟩ := hpasses a (List.mem_cons_self ..)
      obtain ⟨t, hstep, hrest⟩ := Option.bind_eq_some_iff.mp hrun
      have hpass : t = reconcile isSpace ties { s with clock := a.1 } a.1 := by
        unfold promptStep at hstep
        split at hstep
        · rw [ha] at hstep
          exact (Option.some.inj hstep).symm
        · cases hstep
      have ht : Matched t := matched_preserved isSpace _ _ _ h trivial hstep
      have hclock : Matched { s with clock := a.1 } := by
        unfold promptStep at hstep
        split at hstep
        · rename_i hle
          exact h.tick hle
        · cases hstep
      refine ih (fun b hb => hpasses b (List.mem_cons_of_mem _ hb)) ht ?_ hrest
      by_cases hnil : perTurn isSpace ties { s with clock := a.1 } = []
      · left
        rw [hpass]
        exact settled_of_perTurn_eq_nil hclock hnil
      · right
        rcases hcount with hsettled | hcount
        · exact absurd (perTurn_eq_nil_of_settled hsettled) hnil
        · have hlt := openCount_reconcile_lt hnil a.1
          rw [← hpass] at hlt
          have hsame : openCount { s with clock := a.1 } = openCount s := rfl
          rw [List.length_cons] at hcount
          omega

/-! ## Every run -/

/-- Two prompts with one text in one terminal, and the turns they became. -/
def samplePrompts : List (Timestamp × Action) :=
  [(0, .record 1 7 none "go  on" false), (1000000, .record 2 7 none "go on " false),
    (2000000, .timeline [⟨5, some 7⟩] [⟨5, 0, 0, some "go on"⟩, ⟨5, 80, 1000000, some "go on"⟩])]

/-- A pass in which no rows tie. -/
def onePass (now : Timestamp) : Timestamp × Action :=
  (now, .reconcile ⟨fun _ _ => 0, fun _ => 0⟩)

/-- The prompts after a list of actions. -/
def sampleRun (actions : List (Timestamp × Action)) : Option Prompts :=
  runList (promptStep fun c => c = ' ') (.new 0) actions

theorem run_of_sampleRun (actions : List (Timestamp × Action)) (h : (sampleRun actions).isSome) :
    Run (promptStep fun c => c = ' ') anyStep (.new 0) ((sampleRun actions).get h) :=
  .of_runList _ (Option.some_get h).symm

/-- The second prompt waits while the first is matched and, a week later, dropped. -/
def dropped : List (Timestamp × Action) :=
  [(0, .record 1 7 none "go  on" false), (1000000, .record 2 7 none "go on " false),
    (2000000, .timeline [⟨5, some 7⟩] [⟨5, 0, 0, some "go on"⟩]), onePass 3000000,
    (700000000000, .prune), onePass 700000000000]

end Sulion.SubmittedPrompts
