import Sulion.CodeIntel.SettledIndex

set_option autoImplicit false

/-! # How the index catches up with the files

What the jobs keep over a run in which files change and steps fail, and when the table holds the
facts of the files after it. A row that a detecting refresh takes for unchanged holds what the index
gave it then. That is what the file holds now, unless a read of it failed, the file changed between
the read and the look at its metadata, or a deletion stopped halfway.
-/

namespace Sulion.CodeIntel.CatchUp

open Attempt
open Refresh (Key relativePath DeletionScope)

variable {σ ρ : Type} {x : Indexer σ ρ} {s t : State σ ρ} {key k : Key} {path : RelPath}
  {file : File}
  {f : Option (CodeFile σ ρ) → Option (CodeFile σ ρ)}

/-! ## Over a run -/

/-- The sizes and the times of the files tell their contents, now and later. -/
structure Told (v : RelPath → Stamp → List UInt8) (s : State σ ρ) : Prop where
  disk : ∀ path file, s.disk.file path = some file → file.content = v path file.stamp
  events : ∀ e ∈ s.events, ∀ path file, e.disk.file path = some file →
    file.content = v path file.stamp

/-- The next refresh marks the row, whatever it finds, or an index pass is still to come. -/
def Unsettled (row : CodeFile σ ρ) : Prop :=
  row.deleted = true ∨ row.parseStatus = .pending ∨ row.parseStatus = .unsupported

def Emptied (row : CodeFile σ ρ) : Prop := row.deleted = true → row.facts = ([], [])

section Runs

/-! A condition on a row depends on whether the run is spoiled. `clean` says that the conditions on
what the rows hold are wanted: without them there is nothing to know of the files. -/

variable (clean : Prop) (v : RelPath → Stamp → List UInt8)

/-- Each row satisfies its condition. -/
def Holds (R : Key → Bool → Option (CodeFile σ ρ) → Prop) (s : State σ ρ) : Prop :=
  (clean → Told v s) ∧ ∀ key, R key s.spoiled (s.files.row key)

/-- Between two jobs: a row that is settled has the facts of the content that its stamp tells. -/
def Sound (x : Indexer σ ρ) (key : Key) (spoiled : Bool) (old : Option (CodeFile σ ρ)) : Prop :=
  ∀ row, old = some row → Emptied row ∧
    (clean → spoiled = false → Unsettled row ∨
      row.facts = factsOf x (join key) key (v (join key) row.stamp))

/-- Before a file is indexed. -/
def Waiting (spoiled : Bool) (old : Option (CodeFile σ ρ)) : Prop :=
  ∃ row, old = some row ∧ Emptied row ∧ (clean → spoiled = false → Unsettled row)

/-- When the indexing of a file stops: its row is as before, or the content is text. -/
def Stopped (key : Key) (spoiled : Bool) (old : Option (CodeFile σ ρ)) : Prop :=
  ∃ row, old = some row ∧ Emptied row ∧
    (clean → spoiled = false → Unsettled row ∨ (textOf (v (join key) row.stamp)).isSome)

/-- While a failed file is cleared: its content has no facts. -/
def Failing (x : Indexer σ ρ) (key : Key) (spoiled : Bool) (old : Option (CodeFile σ ρ)) : Prop :=
  ∃ row, old = some row ∧ Emptied row ∧
    (clean → spoiled = false → Unsettled row ∧
      factsOf x (join key) key (v (join key) row.stamp) = ([], []))

/-- Between the read of a file and the statement that writes its row. -/
def Ready (key : Key) (content : List UInt8) (stamp : Stamp) (spoiled : Bool)
    (old : Option (CodeFile σ ρ)) : Prop :=
  Waiting clean spoiled old ∧ (clean → spoiled = false → v (join key) stamp = content)

/-- From that statement on, while the facts are replaced. -/
def Filling (key : Key) (content : List UInt8) (P : CodeFile σ ρ → Prop) (spoiled : Bool)
    (old : Option (CodeFile σ ρ)) : Prop :=
  ∃ row, old = some row ∧ row.deleted = false ∧
    (clean → spoiled = false → v (join key) row.stamp = content) ∧ P row

/-- The files of a batch that wait, and the other rows. -/
def queue (x : Indexer σ ρ) (rest : List Key) (key : Key) :
    Bool → Option (CodeFile σ ρ) → Prop :=
  if key ∈ rest then Waiting clean else Sound clean v x key

/-- Between two jobs. -/
abbrev Idle (x : Indexer σ ρ) : State σ ρ → Prop := Holds clean v (Sound clean v x)

/-- The row at one path has another condition. -/
abbrev HoldsAt (R : Key → Bool → Option (CodeFile σ ρ) → Prop) (key : Key)
    (C : Bool → Option (CodeFile σ ρ) → Prop) : State σ ρ → Prop :=
  Holds clean v (Function.update R key C)

variable {clean v}

variable {R R' : Key → Bool → Option (CodeFile σ ρ) → Prop}
  {C D : Bool → Option (CodeFile σ ρ) → Prop} {E : State σ ρ → Prop}

theorem Holds.mono (h : Holds clean v R s) (hR : ∀ key b old, R key b old → R' key b old) :
    Holds clean v R' s :=
  ⟨h.1, fun key => hR _ _ _ (h.2 key)⟩

/-- Another condition on the row at a path. -/
theorem Holds.update (h : HoldsAt clean v R key C s)
    (hC : ∀ b old, C b old → D b old) : HoldsAt clean v R key D s := by
  refine h.mono fun k b old hold => ?_
  by_cases hk : k = key
  · subst hk
    rw [Function.update_self] at hold ⊢
    exact hC b old hold
  · rw [Function.update_of_ne hk] at hold ⊢
    exact hold

theorem holdsAt_self : HoldsAt clean v R key (R key) = Holds clean v R := by
  rw [HoldsAt, Function.update_eq_self]

theorem Holds.restore (h : HoldsAt clean v R key C s)
    (hC : ∀ b old, C b old → R key b old) : Holds clean v R s := by
  have hsame := h.update hC
  rwa [holdsAt_self] at hsame

theorem step_holds :
    Keeps (Holds clean v R) step := by
  intro s hs
  rw [step]
  cases hevents : s.events with
  | nil => exact hs
  | cons e rest =>
      have htold : clean → Told v { s with disk := e.disk, events := rest } := fun hclean =>
        have h := (hs.1 hclean).events
        ⟨h e (hevents ▸ List.mem_cons_self), fun e' he' =>
          h e' (hevents ▸ List.mem_cons_of_mem _ he')⟩
      have hholds : Holds clean v R { s with disk := e.disk, events := rest } := ⟨htold, hs.2⟩
      cases hfails : e.fails <;>
        simpa only [hfails, Bool.false_eq_true, if_false, if_true] using hholds

theorem statement_holds (hC : ∀ b old, C b old → D b (f old)) :
    Leads (HoldsAt clean v R key C) (statement key f)
      (fun _ => HoldsAt clean v R key D)
      (HoldsAt clean v R key C) := by
  refine step_holds.bind fun _ => .change fun s hs =>
    ⟨fun hclean => ⟨(hs.1 hclean).disk, (hs.1 hclean).events⟩, fun k => ?_⟩
  have hrow := hs.2 k
  by_cases hk : k = key
  · subst hk
    rw [Function.update_self] at hrow ⊢
    rw [State.alter_row_self]
    exact hC _ _ hrow
  · rw [Function.update_of_ne hk] at hrow ⊢
    rw [State.alter_row_of_ne hk]
    exact hrow

theorem metadata_holds :
    Leads (Holds clean v R) (metadata path)
      (fun entry s => Holds clean v R s ∧ s.disk path = some entry) (Holds clean v R) := by
  refine step_holds.bind fun _ => Leads.bind (Q := fun found s => Holds clean v R s ∧
    s.disk path = found) (.look fun s hs => ⟨hs, rfl⟩) fun found => ?_
  cases found with
  | none => exact .fail fun s hs => hs.1
  | some entry => exact .pure fun s hs => hs

theorem read_holds :
    Keeps (Holds clean v R) (read path) := by
  refine step_holds.bind fun _ => Leads.bind (Q := fun _ => Holds clean v R)
    (.look fun s hs => hs) fun found => ?_
  cases found with
  | none => exact .fail fun s hs => hs
  | some file => exact .pure fun s hs => hs

theorem isFile_holds : Leads (Holds clean v R) (isFile path) (fun _ => Holds clean v R) E :=
  Leads.rescue (step_holds.bind fun _ => .look fun _ hs => hs) (.pure fun _ hs => hs)

theorem candidateAt_holds :
    Leads (Holds clean v R) (candidateAt x path)
      (fun found s => Holds clean v R s ∧ ∀ candidate, found = some candidate →
        SourceLanguage.fromPath path = some candidate.language) (Holds clean v R) := by
  rw [candidateAt]
  cases SourceLanguage.fromPath path with
  | none => exact .pure fun s hs => ⟨hs, fun _ h => by cases h⟩
  | some language =>
      refine metadata_holds.bind fun entry => ?_
      cases entry with
      | other size mtime => exact .pure fun s hs => ⟨hs.1, fun _ h => by cases h⟩
      | regular file =>
          dsimp only
          split
          · exact .pure fun s hs => ⟨hs.1, fun _ h => by cases h⟩
          · refine (read_holds.mono (fun s hs => hs.1) (fun _ _ h => h) fun _ h => h).bind
              fun probed => ?_
            split
            · exact .pure fun s hs => ⟨hs, fun _ h => by cases h⟩
            · exact .pure fun s hs => ⟨hs, fun _ h => by cases h; rfl⟩

theorem discover_holds (walked : List RelPath) :
    Keeps (Holds clean v R) (discover x walked) := by
  induction walked with
  | nil => exact .pure fun _ hs => hs
  | cons path rest ih =>
      refine Leads.bind (Q := fun _ => Holds clean v R) (step_holds.bind fun _ =>
        Leads.bind (Q := fun _ => Holds clean v R) (.look fun _ hs => hs) fun present => ?_)
          fun candidate => ih.bind fun candidates => .pure fun _ hs => hs
      split
      · exact candidateAt_holds.mono (fun _ h => h) (fun _ _ h => h.1) fun _ h => h
      · exact .pure fun _ hs => hs

/-! ### The storage -/

/-- Taking facts of a row away keeps the condition. -/
def Clearable (C : Bool → Option (CodeFile σ ρ) → Prop) : Prop :=
  ∀ b old, C b old →
    C b (old.map CodeFile.withoutReferences) ∧ C b (old.map CodeFile.withoutSymbols)

/-- The row has no facts, if there is one. -/
def Bare (old : Option (CodeFile σ ρ)) : Prop := ∀ row, old = some row → row.facts = ([], [])

theorem clearFileFacts_holds (hC : Clearable C) :
    Leads (HoldsAt clean v R key C) (clearFileFacts key)
      (fun _ => HoldsAt clean v R key (fun b old => C b old ∧ Bare old))
      (HoldsAt clean v R key C) := by
  let D : Bool → Option (CodeFile σ ρ) → Prop := fun b old =>
    C b old ∧ ∀ row, old = some row → row.references = []
  refine step_holds.bind fun _ => Leads.bind (Q := fun _ => HoldsAt clean v R key D)
    (statement_holds fun b old hold => ⟨(hC b old hold).1, fun row hrow => ?_⟩) fun _ =>
      (statement_holds fun b old hold => ⟨(hC b old hold.1).2, fun row hrow => ?_⟩).mono
        (fun _ h => h) (fun _ _ h => h) fun s hs => hs.update fun b old hold => hold.1
  · obtain ⟨old, -, rfl⟩ := Option.map_eq_some_iff.mp hrow
    rfl
  · obtain ⟨old, hold', rfl⟩ := Option.map_eq_some_iff.mp hrow
    rw [CodeFile.facts, CodeFile.withoutSymbols, hold.2 old hold']

theorem markFileDeleted_holds (hC : Clearable C) (hR : R key = Sound clean v x key) :
    Leads (HoldsAt clean v R key C) (markFileDeleted key)
      (fun _ => Holds clean v R) (HoldsAt clean v R key C) := by
  refine (clearFileFacts_holds hC).bind fun _ =>
    (statement_holds (D := R key) fun b old hold => ?_).mono (fun _ h => h)
      (fun _ s hs => hs.restore fun _ _ h => h) fun s hs => hs.update fun _ _ h => h.1
  rw [hR]
  rintro row hrow
  obtain ⟨old, hold', rfl⟩ := Option.map_eq_some_iff.mp hrow
  exact ⟨fun _ => hold.2 old hold', fun _ _ => .inl (.inl rfl)⟩

theorem markFileUnsupported_holds (hC : Clearable C) (hR : R key = Sound clean v x key) :
    Leads (HoldsAt clean v R key C) (markFileUnsupported key)
      (fun _ => Holds clean v R) (HoldsAt clean v R key C) := by
  refine (clearFileFacts_holds hC).bind fun _ =>
    (statement_holds (D := R key) fun b old hold => ?_).mono (fun _ h => h)
      (fun _ s hs => hs.restore fun _ _ h => h) fun s hs => hs.update fun _ _ h => h.1
  rw [hR]
  rintro row hrow
  obtain ⟨old, hold', rfl⟩ := Option.map_eq_some_iff.mp hrow
  exact ⟨fun _ => hold.2 old hold', fun _ _ => .inl (.inr (.inr rfl))⟩

theorem clearable_of_columns {D : Bool → CodeFile σ ρ → Prop}
    (hD : ∀ b row, D b row → D b row.withoutReferences ∧ D b row.withoutSymbols) :
    Clearable fun (b : Bool) (old : Option (CodeFile σ ρ)) => ∃ row, old = some row ∧ D b row := by
  rintro b old ⟨row, rfl, hrow⟩
  exact ⟨⟨_, rfl, (hD b row hrow).1⟩, ⟨_, rfl, (hD b row hrow).2⟩⟩

theorem emptied_cleared {row : CodeFile σ ρ} (h : Emptied row) :
    Emptied row.withoutReferences ∧ Emptied row.withoutSymbols := by
  constructor
  · intro hdeleted
    obtain ⟨hsymbols, -⟩ := Prod.mk.inj (h hdeleted)
    exact Prod.ext hsymbols rfl
  · intro hdeleted
    obtain ⟨-, hreferences⟩ := Prod.mk.inj (h hdeleted)
    exact Prod.ext rfl hreferences

theorem clearable_waiting : Clearable (Waiting (σ := σ) (ρ := ρ) clean) :=
  clearable_of_columns fun _ _ h =>
    ⟨⟨(emptied_cleared h.1).1, h.2⟩, ⟨(emptied_cleared h.1).2, h.2⟩⟩

theorem clearable_failing : Clearable (Failing clean v x key) :=
  clearable_of_columns fun _ _ h =>
    ⟨⟨(emptied_cleared h.1).1, h.2⟩, ⟨(emptied_cleared h.1).2, h.2⟩⟩

/-- A condition that a spoiled run does not lose. -/
def Fades (R : Key → Bool → Option (CodeFile σ ρ) → Prop) : Prop :=
  ∀ key b old, R key b old → R key true old

theorem sound_fades : Fades (Sound clean v x) :=
  fun _ _ _ h row hrow => ⟨(h row hrow).1, fun _ hspoiled => nomatch hspoiled⟩

theorem waiting_sound {b : Bool} {old : Option (CodeFile σ ρ)} (h : Waiting clean b old) :
    Sound clean v x key b old := by
  obtain ⟨row, rfl, hemptied, hunsettled⟩ := h
  rintro _ ⟨⟩
  exact ⟨hemptied, fun hclean hspoiled => .inl (hunsettled hclean hspoiled)⟩

theorem factsOf_of_notText {content : List UInt8} (h : textOf content = none) :
    factsOf x path key content = ([], []) := by
  rw [factsOf, h]
  cases SourceLanguage.fromPath path <;> rfl

/-- A failure that is not of the file itself spoils the run. -/
theorem notText_holds (hfades : Fades R) :
    Leads (HoldsAt clean v R key (Stopped clean v key))
      (change fun s => if notText key s then s else spoil s)
      (fun _ => HoldsAt clean v R key (Failing clean v x key)) E := by
  refine .change fun s hs => ?_
  have hself := hs.2 key
  rw [Function.update_self] at hself
  obtain ⟨row, hrow, hemptied, hstopped⟩ := hself
  have hothers : ∀ b, (b = s.spoiled ∨ b = true) →
      ∀ k, k ≠ key → Function.update R key (Failing clean v x key) k b (s.files.row k) := by
    intro b hb k hk
    have hrest := hs.2 k
    rw [Function.update_of_ne hk] at hrest ⊢
    rcases hb with rfl | rfl
    · exact hrest
    · exact hfades k _ _ hrest
  by_cases hnot : notText key s = true
  · rw [if_pos hnot]
    refine ⟨hs.1, fun k => ?_⟩
    by_cases hk : k = key
    · subst hk
      rw [Function.update_self]
      refine ⟨row, hrow, hemptied, fun hclean hspoiled => ?_⟩
      -- The stamp of the row is that of the file, whose content is not text.
      have hcontent : textOf (v (join k) row.stamp) = none := by
        rw [notText, hrow] at hnot
        cases hfile : s.disk.file (join k) with
        | none => rw [hfile] at hnot; cases hnot
        | some file =>
            rw [hfile] at hnot
            obtain ⟨hstamp, htext⟩ := Bool.and_eq_true_iff.mp hnot
            rw [of_decide_eq_true hstamp, ← (hs.1 hclean).disk _ file hfile]
            exact Option.isNone_iff_eq_none.mp htext
      refine ⟨(hstopped hclean hspoiled).resolve_right ?_, factsOf_of_notText hcontent⟩
      rw [hcontent]
      exact Bool.false_ne_true
    · exact hothers _ (.inl rfl) k hk
  · rw [if_neg hnot]
    refine ⟨fun hclean => ⟨(hs.1 hclean).disk, (hs.1 hclean).events⟩, fun k => ?_⟩
    by_cases hk : k = key
    · subst hk
      rw [Function.update_self]
      exact ⟨row, hrow, hemptied, fun _ hspoiled => (nomatch hspoiled)⟩
    · exact hothers _ (.inr rfl) k hk

theorem failing_sound {b : Bool} {old : Option (CodeFile σ ρ)} (h : Failing clean v x key b old) :
    Sound clean v x key b old := by
  obtain ⟨row, rfl, hemptied, hfailing⟩ := h
  rintro _ ⟨⟩
  exact ⟨hemptied, fun hclean hspoiled => .inl (hfailing hclean hspoiled).1⟩

theorem markFileFailed_holds (hR : R key = Sound clean v x key) (hfades : Fades R) :
    Leads (HoldsAt clean v R key (Stopped clean v key)) (markFileFailed key)
      (fun _ => Holds clean v R) (Holds clean v R) := by
  refine (notText_holds hfades).bind fun _ =>
    Leads.mono (P := HoldsAt clean v R key (Failing clean v x key)) (Q := fun _ => Holds clean v R)
      (E := HoldsAt clean v R key (Failing clean v x key)) ?_ (fun _ h => h)
      (fun _ _ h => h) fun s hs => hs.restore fun _ _ h => hR ▸ failing_sound h
  refine step_holds.bind fun _ => (clearFileFacts_holds clearable_failing).bind fun _ =>
    (statement_holds (D := R key) fun b old hold => ?_).mono (fun _ h => h)
      (fun _ s hs => hs.restore fun _ _ h => h) fun s hs => hs.update fun _ _ h => h.1
  obtain ⟨⟨row, rfl, -, hfailing⟩, hbare⟩ := hold
  rw [hR]
  rintro _ ⟨⟩
  refine ⟨fun hdeleted => (nomatch hdeleted), fun hclean hspoiled => .inr ?_⟩
  exact (hbare row rfl).trans (hfailing hclean hspoiled).2.symm

/-! ### The index passes -/

theorem waiting_stopped {b : Bool} {old : Option (CodeFile σ ρ)} (h : Waiting clean b old) :
    Stopped clean v key b old := by
  obtain ⟨row, hrow, hemptied, hunsettled⟩ := h
  exact ⟨row, hrow, hemptied, fun hclean hspoiled => .inl (hunsettled hclean hspoiled)⟩

section Filling

variable {content : List UInt8} {source : String} {P : CodeFile σ ρ → Prop}

/-- When the replacement stops, the content is text. -/
theorem filling_stopped (htext : textOf content = some source) {b : Bool}
    {old : Option (CodeFile σ ρ)} (h : Filling clean v key content P b old) :
    Stopped clean v key b old := by
  obtain ⟨row, hrow, hlive, hcontent, -⟩ := h
  refine ⟨row, hrow, fun hdeleted => ?_, fun hclean hspoiled => .inr ?_⟩
  · rw [hlive] at hdeleted
    cases hdeleted
  · rw [hcontent hclean hspoiled, htext]
    rfl

theorem clearable_filling : Clearable (Filling clean v key content fun _ : CodeFile σ ρ => True) :=
  clearable_of_columns fun _ _ h => ⟨h, h⟩

/-- A row that is filled has the facts of its content. -/
theorem filling_sound {language : SourceLanguage}
    (hlanguage : SourceLanguage.fromPath (join key) = some language)
    (htext : textOf content = some source) {b : Bool} {old : Option (CodeFile σ ρ)}
    (h : Filling clean v key content
      (fun row => row.symbols = x.extractSymbols language key source ∧
      row.references = x.extractReferences language key source) b old) :
    Sound clean v x key b old := by
  obtain ⟨row, rfl, hlive, hcontent, hsymbols, hreferences⟩ := h
  rintro _ ⟨⟩
  refine ⟨fun hdeleted => ?_, fun hclean hspoiled => .inr ?_⟩
  · rw [hlive] at hdeleted
    cases hdeleted
  · rw [CodeFile.facts, hsymbols, hreferences, hcontent hclean hspoiled, factsOf, hlanguage, htext]

theorem replaceSymbols_holds {language : SourceLanguage}
    (hlanguage : SourceLanguage.fromPath (join key) = some language)
    (htext : textOf content = some source) (hR : R key = Sound clean v x key) :
    Leads (HoldsAt clean v R key (Filling clean v key content fun _ => True))
      (replaceSymbols key (x.extractSymbols language key source)
        (x.extractReferences language key source))
      (fun _ => Holds clean v R) (HoldsAt clean v R key (Stopped clean v key)) := by
  let adding (symbols : List σ) (references : List ρ) : CodeFile σ ρ → Prop := fun row =>
    row.symbols ++ symbols = x.extractSymbols language key source ∧
      row.references ++ references = x.extractReferences language key source
  have hstop : ∀ (P : CodeFile σ ρ → Prop) (s : State σ ρ),
      HoldsAt clean v R key (Filling clean v key content P) s →
        HoldsAt clean v R key (Stopped clean v key) s :=
    fun P s hs => hs.update fun _ _ h => filling_stopped htext h
  have hsymbol : ∀ symbol rest references,
      Leads (HoldsAt clean v R key (Filling clean v key content
          (adding (symbol :: rest) references)))
        (insertSymbol key symbol)
        (fun _ => HoldsAt clean v R key (Filling clean v key content
          (adding rest references)))
        (HoldsAt clean v R key (Stopped clean v key)) := by
    intro symbol rest references
    refine (statement_holds ?_).mono (fun _ h => h) (fun _ _ h => h) (hstop _)
    rintro b _ ⟨row, rfl, hlive, hcontent, hsymbols, hreferences⟩
    exact ⟨_, rfl, hlive, hcontent, by simpa [CodeFile.addSymbol] using hsymbols, hreferences⟩
  have hreference : ∀ reference rest symbols,
      Leads (HoldsAt clean v R key (Filling clean v key content
          (adding symbols (reference :: rest))))
        (insertReference key reference)
        (fun _ => HoldsAt clean v R key (Filling clean v key content
          (adding symbols rest)))
        (HoldsAt clean v R key (Stopped clean v key)) := by
    intro reference rest symbols
    refine (statement_holds ?_).mono (fun _ h => h) (fun _ _ h => h) (hstop _)
    rintro b _ ⟨row, rfl, hlive, hcontent, hsymbols, hreferences⟩
    exact ⟨_, rfl, hlive, hcontent, hsymbols, by simpa [CodeFile.addReference] using hreferences⟩
  have hsymbols :=
    fun symbols references =>
    Leads.each
    (I := fun rest => HoldsAt clean v R key
    (Filling clean v key content (adding rest references)))
      (fun symbol rest => hsymbol symbol rest references) symbols
  have hreferences :=
    fun references symbols => Leads.each
    (I := fun rest => HoldsAt clean v R key (Filling clean v key content (adding symbols rest)))
      (fun reference rest => hreference reference rest symbols) references
  refine ((clearFileFacts_holds clearable_filling).mono (fun _ h => h) (fun _ s hs => hs.update ?_)
    (hstop _)).bind fun _ => (hsymbols _ _).bind fun _ => (hreferences _ _).mono (fun _ h => h)
      (fun _ s hs => hs.restore fun b old h => hR ▸ filling_sound hlanguage htext ?_) fun _ h => h
  · rintro b _ ⟨⟨row, rfl, hlive, hcontent, -⟩, hbare⟩
    obtain ⟨hsymbols, hreferences⟩ := Prod.mk.inj (hbare row rfl)
    exact ⟨row, rfl, hlive, hcontent, by rw [hsymbols]; rfl, by rw [hreferences]; rfl⟩
  · obtain ⟨row, rfl, hlive, hcontent, hsymbols, hreferences⟩ := h
    exact ⟨row, rfl, hlive, hcontent, by simpa using hsymbols, by simpa using hreferences⟩

theorem indexText_holds {language : SourceLanguage} {stamp : Stamp}
    (hlanguage : SourceLanguage.fromPath (join key) = some language)
    (htext : textOf content = some source) (hR : R key = Sound clean v x key) :
    Leads (HoldsAt clean v R key (Ready clean v key content stamp))
      (indexText x key language source stamp)
      (fun _ => Holds clean v R) (HoldsAt clean v R key (Stopped clean v key)) := by
  have hstop : ∀ s : State σ ρ, HoldsAt clean v R key (Ready clean v key content
      stamp) s → HoldsAt clean v R key (Stopped clean v key) s :=
    fun s hs => hs.update fun _ _ h => waiting_stopped h.1
  refine (step_holds.mono (fun _ h => h) (fun _ _ h => h) hstop).bind fun _ =>
    ((statement_holds fun b old h => ?_).mono (fun _ h => h) (fun _ _ h => h) hstop).bind fun _ =>
      replaceSymbols_holds hlanguage htext hR
  exact ⟨_, rfl, rfl, h.2, trivial⟩

end Filling

/-- A content that does not go with its metadata spoils the run. -/
theorem torn_holds (hfades : Fades R) {content : List UInt8} {entry : Entry} :
    Leads (fun s => HoldsAt clean v R key (Waiting clean) s ∧
        s.disk (join key) = some entry)
      (change fun s => if torn (join key) content s then spoil s else s)
      (fun _ => HoldsAt clean v R key (Ready clean v key content entry.stamp))
      E := by
  refine .change fun s hs => ?_
  obtain ⟨⟨htold, hrows⟩, hfile⟩ := hs
  have hself := hrows key
  rw [Function.update_self] at hself
  by_cases htorn : torn (join key) content s = true
  · rw [if_pos htorn]
    refine ⟨fun hclean => ⟨(htold hclean).disk, (htold hclean).events⟩, fun k => ?_⟩
    by_cases hk : k = key
    · subst hk
      rw [Function.update_self]
      obtain ⟨row, hrow, hemptied, -⟩ := hself
      exact ⟨⟨row, hrow, hemptied, fun _ h => (nomatch h)⟩, fun _ h => (nomatch h)⟩
    · have hrest := hrows k
      rw [Function.update_of_ne hk] at hrest ⊢
      exact hfades k _ _ hrest
  · rw [if_neg htorn]
    refine Holds.update ⟨htold, hrows⟩ fun b old h => ⟨h, fun hclean _ => ?_⟩
    cases entry with
    | other size mtime => exact absurd (by simp [torn, Disk.file, hfile]) htorn
    | regular file =>
        have hfound : s.disk.file (join key) = some file := by
          rw [Disk.file, hfile]
        have hsame : file.content = content := by
          simpa [torn, hfound] using htorn
        rw [Entry.stamp, ← (htold hclean).disk _ file hfound, hsame]

theorem candidateInRoot_holds :
    Leads (Holds clean v R) (candidateInRoot x path)
      (fun found s => Holds clean v R s ∧ ∀ candidate, found = some candidate →
        SourceLanguage.fromPath path = some candidate.language) (Holds clean v R) := by
  rw [candidateInRoot]
  split
  · split
    · exact .pure fun s hs => ⟨hs, fun _ h => by cases h⟩
    · exact candidateAt_holds
  · exact .fail fun _ hs => hs

/-- **The indexing of one file**, whatever happens. -/
theorem indexPendingFile_holds (hR : R key = Sound clean v x key) (hfades : Fades R) :
    Leads (HoldsAt clean v R key (Waiting clean)) (indexPendingFile x key)
      (fun _ => Holds clean v R) (HoldsAt clean v R key (Stopped clean v key)) := by
  have hstop : ∀ s : State σ ρ, HoldsAt clean v R key (Waiting clean) s →
      HoldsAt clean v R key (Stopped clean v key) s :=
    fun s hs => hs.update fun _ _ h => waiting_stopped h
  refine isFile_holds.bind fun present => ?_
  split
  · refine (candidateInRoot_holds.mono (fun _ h => h) (fun _ _ h => h) hstop).bind fun found => ?_
    cases found with
    | none =>
        exact (markFileUnsupported_holds clearable_waiting hR).mono (fun _ hs => hs.1)
          (fun _ _ h => h) hstop
    | some candidate =>
        refine Leads.of_fact fun hcandidate => ?_
        have hlanguage := hcandidate candidate rfl
        refine (read_holds.mono (fun _ h => h) (fun _ _ h => h) hstop).bind fun content => ?_
        cases htext : textOf content with
        | none => exact .fail hstop
        | some source =>
            exact (metadata_holds.mono (fun _ h => h) (fun _ _ h => h) hstop).bind fun entry =>
              (torn_holds hfades).bind fun _ => indexText_holds hlanguage htext hR
  · exact (markFileDeleted_holds clearable_waiting hR).mono (fun _ h => h) (fun _ _ h => h) hstop

theorem queue_of_mem {rest : List Key} (h : key ∈ rest) :
    queue clean v x rest key = Waiting clean := if_pos h

theorem queue_of_not_mem {rest : List Key} (h : key ∉ rest) :
    queue clean v x rest key = Sound clean v x key := if_neg h

theorem queue_fades (rest : List Key) : Fades (queue clean v x rest) := by
  intro key b old h
  by_cases hmem : key ∈ rest
  · rw [queue_of_mem hmem] at h ⊢
    obtain ⟨row, hrow, hemptied, -⟩ := h
    exact ⟨row, hrow, hemptied, fun _ hspoiled => (nomatch hspoiled)⟩
  · rw [queue_of_not_mem hmem] at h ⊢
    exact sound_fades key b old h

theorem queue_cons (key : Key) (rest : List Key) :
    queue clean v x (key :: rest) = Function.update (queue clean v x rest) key (Waiting clean) := by
  funext k
  by_cases hk : k = key
  · subst hk
    rw [Function.update_self, queue_of_mem List.mem_cons_self]
  · rw [Function.update_of_ne hk]
    simp [queue, hk]

theorem queue_mono {rest rest' : List Key} (hsub : rest ⊆ rest') (key : Key) (b : Bool)
    (old : Option (CodeFile σ ρ)) (h : queue clean v x rest' key b old) :
    queue clean v x rest key b old := by
  by_cases hmem : key ∈ rest
  · rw [queue_of_mem (hsub hmem)] at h
    rwa [queue_of_mem hmem]
  · rw [queue_of_not_mem hmem]
    by_cases hmem' : key ∈ rest'
    · rw [queue_of_mem hmem'] at h
      exact waiting_sound h
    · rwa [queue_of_not_mem hmem'] at h

theorem idle_of_queue {rest : List Key} (h : Holds clean v (queue clean v x rest) s) :
    Idle clean v x s :=
  h.mono fun key b old hold => by
    have hnone := queue_mono (List.nil_subset rest) key b old hold
    rwa [queue_of_not_mem List.not_mem_nil] at hnone

theorem indexPendingFiles_holds {pending : List Key} :
    Leads (fun s => Holds clean v (queue clean v x pending) s ∧ pending.Nodup)
      (indexPendingFiles x pending)
      (fun _ => Idle clean v x) (Idle clean v x) := by
  refine (Leads.each (I := fun rest s => Holds clean v (queue clean v x rest) s ∧ rest.Nodup)
    (fun key rest => Leads.of_fact fun hnodup => ?_) pending).mono (fun _ h => h)
      (fun _ s hs => idle_of_queue hs.1) fun _ h => h
  obtain ⟨hfresh, hrest⟩ := List.nodup_cons.mp hnodup
  have hR : queue clean v x rest key = Sound clean v x key := queue_of_not_mem hfresh
  rw [queue_cons]
  refine (Leads.rescue (indexPendingFile_holds hR (queue_fades rest))
    (markFileFailed_holds hR (queue_fades rest))).mono (fun _ h => h) (fun _ _ h => ⟨h, hrest⟩)
      fun s hs => idle_of_queue hs

theorem loadPendingFiles_holds {before : Key → Key → Bool} {limit : Int} :
    Leads (Idle clean v x) (loadPendingFiles before limit)
      (fun pending s => Holds clean v (queue clean v x pending) s ∧ pending.Nodup)
      (Idle clean v x) := by
  refine step_holds.bind fun _ => Leads.bind (Q := fun pending s =>
    Holds clean v (queue clean v x pending) s ∧ pending.Nodup) (.look fun s hs => ?_)
      fun pending => .pure fun s hs => ?_
  · refine ⟨⟨hs.1, fun key => ?_⟩, (List.nodup_dedup _).filter _⟩
    by_cases hmem : key ∈ s.files.select isPending
    · rw [queue_of_mem hmem]
      obtain ⟨row, hrow, hpending⟩ := (Option.any_eq_true _ _).mp (CodeFiles.mem_select.mp hmem)
      obtain ⟨-, hstatus⟩ := Bool.and_eq_true_iff.mp hpending
      exact ⟨row, hrow, (hs.2 key row hrow).1, fun _ _ => .inr (.inl (of_decide_eq_true hstatus))⟩
    · rw [queue_of_not_mem hmem]
      exact hs.2 key
  · have hperm := List.perm_insertionSort (fun a b => before a b = true) pending
    exact ⟨hs.1.mono (queue_mono fun key hkey => hperm.mem_iff.mp (List.mem_of_mem_take hkey)),
      (hperm.nodup_iff.mpr hs.2).sublist (List.take_sublist _ _)⟩

theorem indexPendingRoot_holds {before : Key → Key → Bool} {limit : Int} :
    Keeps (Idle clean v x) (indexPendingRoot x before limit) := by
  refine step_holds.bind fun _ => loadPendingFiles_holds.bind fun pending => ?_
  split
  · exact .pure fun s hs => idle_of_queue hs.1
  · refine Leads.of_fact fun hnodup => (step_holds.mono (fun _ h => h) (fun _ _ h => ⟨h, hnodup⟩)
      fun _ => idle_of_queue).bind fun _ =>
        (Leads.outcome indexPendingFiles_holds).bind fun result =>
        step_holds.bind fun _ => .ofOutcome result

/-! ### The refreshes -/

theorem markRow_sound {mode : DiscoveryMode} {language : SourceLanguage} {stamp : Stamp} {b : Bool}
    {old : Option (CodeFile σ ρ)} (h : Sound clean v x key b old) :
    Sound clean v x key b (markRow mode language stamp old) := by
  rw [markRow]
  split
  · rintro _ ⟨⟩
    exact ⟨fun hdeleted => (by cases hdeleted), fun _ _ => .inl (.inr (.inl rfl))⟩
  · exact h

theorem markCandidatePending_holds {mode : DiscoveryMode} {candidate : SourceFileCandidate} :
    Keeps (Idle clean v x) (markCandidatePending mode candidate) := by
  refine metadata_holds.bind fun entry => ?_
  let key := relativePath candidate.path
  have hmark : Keeps (HoldsAt clean v (Sound clean v x) key (Sound clean v x key))
      (statement key (markRow mode candidate.language (candidate.sizeBytes, entry.stamp.2))) :=
    statement_holds fun b old h => markRow_sound h
  rw [holdsAt_self] at hmark
  exact hmark.mono (fun _ h => h.1) (fun _ _ h => h) fun _ h => h

/-- A deletion that stops leaves a deleted row without facts. -/
theorem deleteOrSpoil_holds :
    Keeps (Idle clean v x) (deleteOrSpoil key) := by
  let C : Bool → Option (CodeFile σ ρ) → Prop := fun _ old => ∀ row, old = some row → Emptied row
  have hC : Clearable C := by
    refine fun b old hold => ⟨fun row hrow => ?_, fun row hrow => ?_⟩ <;>
      obtain ⟨old, hold', rfl⟩ := Option.map_eq_some_iff.mp hrow
    · exact (emptied_cleared (hold old hold')).1
    · exact (emptied_cleared (hold old hold')).2
  refine Leads.rescue ((markFileDeleted_holds hC rfl).mono (fun s hs => ?_) (fun _ _ h => h)
    fun _ h => h) (Leads.bind (Q := fun _ => Idle clean v x) (.change fun s hs => ?_)
      fun _ => .fail fun _ h => h)
  · have hsame : Holds clean v (Function.update (Sound clean v x) key (Sound clean v x key)) s := by
      rwa [Function.update_eq_self]
    exact hsame.update fun b old h row hrow => (h row hrow).1
  · refine ⟨fun hclean => ⟨(hs.1 hclean).disk, (hs.1 hclean).events⟩, fun k row hrow => ?_⟩
    have hself := hs.2 k
    by_cases hk : k = key
    · subst hk
      rw [Function.update_self] at hself
      exact ⟨hself row hrow, fun _ hspoiled => (nomatch hspoiled)⟩
    · rw [Function.update_of_ne hk] at hself
      exact sound_fades k _ _ hself row hrow

theorem markDirty_holds {mode : DiscoveryMode} {scope : DeletionScope} {walked : List RelPath} :
    Keeps (Idle clean v x) (markDirty x mode scope walked) := by
  refine step_holds.bind fun _ => (discover_holds walked).bind fun candidates => ?_
  refine (Leads.each (I := fun _ => Idle clean v x)
    (fun candidate rest => markCandidatePending_holds) candidates).bind fun _ => ?_
  refine Leads.bind (Q := fun _ => Idle clean v x) ?_ fun _ => step_holds
  exact step_holds.bind fun _ => Leads.bind (Q := fun _ => Idle clean v x)
    (.look fun _ h => h) fun rows => Leads.each (I := fun _ => Idle clean v x)
      (fun key rest => deleteOrSpoil_holds) _

theorem job_holds (job : Job) :
    Keeps (Idle clean v x) (job.run x) := by
  cases job with
  | refresh mode scope walked => exact markDirty_holds
  | index before limit => exact indexPendingRoot_holds
  | rest => exact step_holds

/-- **The run rule**: jobs keep the conditions on the rows. -/
theorem runJobs_holds (jobs : List Job) (h : Idle clean v x s) :
    Idle clean v x (runJobs x jobs s) := by
  induction jobs generalizing s with
  | nil => exact h
  | cons job rest ih => exact ih ((job_holds job).left h)

end Runs

/-! ## Every run -/

/-- The jobs of a run and what happens meanwhile. -/
structure Run where
  disk : Disk
  events : List Event
  jobs : List Job

def Run.start (r : Run) : State σ ρ where
  disk := r.disk
  files := .empty
  events := r.events
  spoiled := false

def Run.final (x : Indexer σ ρ) (r : Run) : State σ ρ := runJobs x r.jobs r.start

/-- Files of the same size and time at a path have the same content. No file fails to be indexed but
one that is not text, as it was marked; no deletion stops halfway; and no content changes between
the read and the metadata. -/
structure Run.Clean (x : Indexer σ ρ) (r : Run) : Prop where
  told : ∃ v, Told v (r.start : State σ ρ)
  unspoiled : (r.final x).spoiled = false

/-- The names have no backslash, which the path of a row does not keep. -/
def Plain (path : RelPath) : Prop :=
  path ≠ [] ∧ ∀ name ∈ path, name ≠ [] ∧ '/' ∉ name ∧ '\\' ∉ name

instance (path : RelPath) : Decidable (Plain path) := inferInstanceAs (Decidable (_ ∧ _))

section Final

variable {mode : DiscoveryMode} {walked : List RelPath} {r : Run}

theorem mem_intercalate {sep c : Char} (names : List Name)
    (h : c ∈ List.intercalate [sep] names) : c = sep ∨ ∃ name ∈ names, c ∈ name := by
  induction names with
  | nil => cases h
  | cons name rest ih =>
      rcases eq_or_ne rest [] with rfl | hne
      · rw [List.intercalate_singleton] at h
        exact .inr ⟨name, List.mem_cons_self, h⟩
      · rw [List.intercalate_cons_of_ne_nil hne, List.mem_append, List.mem_append] at h
        rcases h with (hname | hsep) | hrest
        · exact .inr ⟨name, List.mem_cons_self, hname⟩
        · exact .inl (List.mem_singleton.mp hsep)
        · rcases ih hrest with hsep | ⟨name', hmem, hc⟩
          · exact .inl hsep
          · exact .inr ⟨name', List.mem_cons_of_mem _ hmem, hc⟩

theorem join_relativePath (h : Plain path) : join (relativePath path) = path := by
  have hkept : relativePath path = List.intercalate ['/'] path := by
    rw [relativePath]
    refine (List.map_congr_left fun c hc => ?_).trans (List.map_id _)
    rw [if_neg, id]
    rintro rfl
    rcases mem_intercalate path hc with hsep | ⟨name, hname, hmem⟩
    · exact absurd hsep (by decide)
    · exact (h.2 name hname).2.2 hmem
  rw [hkept, join, List.splitOn_intercalate _ (fun name hname => (h.2 name hname).2.1) h.1]

theorem inRoot_of_plain (h : Plain path) : inRoot path = true := by
  cases path with
  | nil => exact absurd rfl h.1
  | cons name rest => simpa [inRoot] using (h.2 name List.mem_cons_self).1

theorem final_holds (clean : Prop) (v : RelPath → Stamp → List UInt8)
    (h : clean → Told v (r.start : State σ ρ)) :
    Idle clean v x (r.final x) :=
  runJobs_holds r.jobs ⟨h, fun _ _ hrow => nomatch hrow⟩

theorem deletedEmpty_final : DeletedEmpty (r.final x) := fun key row hrow =>
  ((final_holds (x := x) (r := r) False (fun _ _ => []) nofun).2 key row hrow).1

/-- A marked row is read from the file that it was marked for. -/
theorem given_of_plain (hplain : Plain path) (hfound : Discovered x walked s.disk path file) :
    given x s.disk (relativePath path) = factsOf x path (relativePath path) file.content := by
  have hjoin := join_relativePath hplain
  obtain ⟨-, hfile, hcandidate⟩ := hfound
  simp [given, hjoin, hfile, inRoot_of_plain hplain, hcandidate]

theorem recoverable_of_force (hplain : ∀ path ∈ walked, Plain path) (s : State σ ρ) :
    Recoverable x .forcePending walked s := by
  intro path file hfound
  refine .inl ⟨.inr ?_, given_of_plain (hplain path hfound.1) hfound⟩
  obtain ⟨candidate, hcandidate⟩ := Option.isSome_iff_exists.mp hfound.2.2
  refine ⟨path, file, candidate.language, hfound, rfl, (language_of_candidateOf hcandidate).1, ?_⟩
  cases s.files.row (relativePath path) <;> rfl

theorem recoverable_of_clean (hplain : ∀ path ∈ walked, Plain path) (hclean : r.Clean x) :
    Recoverable x mode walked (r.final x) := by
  obtain ⟨⟨v, htold⟩, hunspoiled⟩ := hclean
  obtain ⟨hstamps, hrows⟩ := final_holds (x := x) True v fun _ => htold
  intro path file hfound
  have hgiven := given_of_plain (hplain path hfound.1) hfound
  by_cases hmarked : Marked x mode walked (r.final x) (relativePath path)
  · exact .inl ⟨hmarked, hgiven⟩
  refine .inr ⟨hmarked, ?_⟩
  obtain ⟨candidate, hcandidate⟩ := Option.isSome_iff_exists.mp hfound.2.2
  have hnot : marks mode candidate.language file.stamp
      ((r.final x).files.row (relativePath path)) = false := Bool.eq_false_iff.mpr fun hmarks =>
    hmarked (.inr ⟨path, file, candidate.language, hfound, rfl,
      (language_of_candidateOf hcandidate).1, hmarks⟩)
  cases hrow : (r.final x).files.row (relativePath path) with
  | none =>
      rw [hrow] at hnot
      cases hnot
  | some row =>
      rw [hrow] at hnot
      simp only [marks, Bool.or_eq_false_iff, decide_eq_false_iff_not, ne_eq, not_not] at hnot
      obtain ⟨⟨⟨⟨⟨-, hlive⟩, hsupported⟩, -⟩, hstamp⟩, -⟩ := hnot
      rw [CodeFiles.facts, hrow]
      rcases (hrows _ row hrow).2 trivial hunspoiled with (hdeleted | hpending | hunsupported)
        | hfacts
      · rw [hlive] at hdeleted
        cases hdeleted
      · refine absurd (.inl ?_) hmarked
        rw [hrow]
        simp [isPending, hlive, hpending]
      · exact absurd hunsupported hsupported
      · have hcontent := (hstamps trivial).disk path file hfound.2.1
        rw [Option.elim_some, hfacts, join_relativePath (hplain path hfound.1), hstamp, ← hcontent]

/-- **Catching up.** When the files rest, a refresh of the root and index passes leave the right
facts exactly if each discovered file is marked or has them already. A forcing refresh marks them
all, and after a clean run a detecting one marks each that has other facts. -/
theorem caughtUp_iff_recoverable (hrest : (r.final x).events = [])
    (hsettles : Settles x mode walked (r.final x) t) :
    (CaughtUp x walked t ↔ Recoverable x mode walked (r.final x)) ∧
      ((∀ path ∈ walked, Plain path) → (mode = .forcePending ∨ r.Clean x) →
        CaughtUp x walked t) := by
  have hiff := caughtUp_iff_of_quiet hrest deletedEmpty_final hsettles
  refine ⟨hiff, fun hplain hrun => hiff.mpr ?_⟩
  rcases hrun with rfl | hclean
  · exact recoverable_of_force hplain _
  · exact recoverable_of_clean hplain hclean

theorem Settles.of_select {passes : List ((Key → Key → Bool) × Int)}
    (h : (runJobs x (.refresh mode .root walked :: passes.map fun pass => .index pass.1 pass.2)
      s).files.select isPending = []) :
    Settles x mode walked s (runJobs x (.refresh mode .root walked ::
      passes.map fun pass => .index pass.1 pass.2) s) where
  jobs := ⟨passes, rfl⟩
  done := fun key row hrow => by
    by_contra hpending
    have hmem : key ∈ (runJobs x (.refresh mode .root walked ::
        passes.map fun pass => .index pass.1 pass.2) s).files.select isPending := by
      rw [CodeFiles.mem_select, hrow]
      simpa using hpending
    rw [h] at hmem
    cases hmem

end Final

section Examples

/-- Each text has one symbol and no references. -/
def oneSymbol : Indexer String Unit where
  maxFileBytes := 100
  hasError _ _ := false
  extractSymbols _ _ _ := ["main"]
  extractReferences _ _ _ := []

def mainPath : RelPath := [['m', 'a', 'i', 'n', '.', 'r', 's']]

/-- `fn` and one modification time. -/
def mainFile : File := ⟨[102, 110], 5000⟩

def mainDisk : Disk := fun path => if path = mainPath then some (.regular mainFile) else none

/-- The last of these steps fails. -/
def failAfter (n : Nat) : List Event := List.replicate n ⟨mainDisk, false⟩ ++ [⟨mainDisk, true⟩]

/-- A refresh and an index pass that reads the file once it has found it there, and fails. -/
def failedRead : Run where
  disk := mainDisk
  events := failAfter 14
  jobs := [.refresh .detectChanges .root [mainPath], .index (fun _ _ => true) 10]

def settled (mode : DiscoveryMode) (s : State String Unit) : State String Unit :=
  runJobs oneSymbol (.refresh mode .root [mainPath] ::
    [((fun _ _ => true : Key → Key → Bool), (10 : Int))].map fun pass => .index pass.1 pass.2) s

theorem disk_of_mem_failAfter {n : Nat} {e : Event} (h : e ∈ failAfter n) : e.disk = mainDisk := by
  rcases List.mem_append.mp h with hrest | hlast
  · rw [List.eq_of_mem_replicate hrest]
  · rw [List.mem_singleton.mp hlast]

theorem content_of_mainDisk {path : RelPath} {file : File} (h : mainDisk.file path = some file) :
    file.content = mainFile.content := by
  have hfound := disk_of_file h
  rw [mainDisk] at hfound
  split at hfound
  · cases hfound
    rfl
  · cases hfound

/-- A walk that fails once, which the next refresh makes up for. -/
def failedWalk : Run where
  disk := mainDisk
  events := failAfter 2
  jobs := [.refresh .detectChanges .root [mainPath]]

theorem caughtUp_iff_recoverable_failedWalk :
    CaughtUp oneSymbol [mainPath] (settled .detectChanges (failedWalk.final oneSymbol)) :=
  (caughtUp_iff_recoverable rfl (Settles.of_select (by decide))).2 (by decide)
    (.inr ⟨⟨fun _ _ => mainFile.content, fun _ _ h => content_of_mainDisk h,
      fun _ he _ _ h => content_of_mainDisk (disk_of_mem_failAfter he ▸ h)⟩, rfl⟩)

/-- **A read that fails once**, while no file changes: the row is marked as failed and keeps the
size and the time of the file, so that no detecting refresh marks it again. -/
theorem failedRead_never_caught_up :
    (∀ e ∈ failedRead.events, e.disk = failedRead.disk) ∧ (failedRead.final oneSymbol).events = [] ∧
      Settles oneSymbol .detectChanges [mainPath] (failedRead.final oneSymbol)
        (settled .detectChanges (failedRead.final oneSymbol)) ∧
      ¬ CaughtUp oneSymbol [mainPath] (settled .detectChanges (failedRead.final oneSymbol)) := by
  refine ⟨fun e he => disk_of_mem_failAfter he, rfl, Settles.of_select (by decide),
    fun hcaughtUp => ?_⟩
  have hfacts := hcaughtUp.discovered mainPath mainFile ⟨List.mem_cons_self, rfl, by decide⟩
  exact absurd hfacts (by decide)

end Examples

end Sulion.CodeIntel.CatchUp
