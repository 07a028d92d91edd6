import Sulion.CodeIntel.IndexJobs

set_option autoImplicit false

/-! # The index jobs at rest

What the jobs do when no step fails and no file changes any more. A refresh of the root marks the
rows of the files that it takes for changed, and an index pass gives a pending row the facts of its
file. So it can be told from the state before which facts the table holds in the end.
-/

namespace Sulion.CodeIntel.CatchUp

open Attempt
open Refresh (Key relativePath DeletionScope)

variable {σ ρ : Type} {x : Indexer σ ρ} {s t : State σ ρ} {key k : Key} {path : RelPath}
  {file : File}
  {f : Option (CodeFile σ ρ) → Option (CodeFile σ ρ)}

/-! ## Steps and rows -/

theorem step_quiet (h : s.events = []) : step s = (.ok (), s) := by
  rw [step, h]

theorem statement_quiet (h : s.events = []) : statement key f s = (.ok (), s.alter key f) :=
  bind_of_ok (step_quiet h)

theorem disk_of_file {disk : Disk} (h : disk.file path = some file) :
    disk path = some (.regular file) := by
  rw [Disk.file] at h
  split at h
  · rename_i found hfound
    rw [hfound, Option.some.inj h]
  · cases h

theorem metadata_quiet (h : s.events = []) (hfile : s.disk.file path = some file) :
    metadata path s = (.ok (.regular file), s) := by
  have hlook : look (fun s : State σ ρ => s.disk path) s = (.ok (some (.regular file)), s) := by
    rw [look_apply, disk_of_file hfile]
  exact (bind_of_ok (step_quiet h)).trans (bind_of_ok hlook)

theorem read_quiet (h : s.events = []) (hfile : s.disk.file path = some file) :
    read path s = (.ok file.content, s) := by
  have hlook : look (fun s : State σ ρ => s.disk.file path) s = (.ok (some file), s) := by
    rw [look_apply, hfile]
  exact (bind_of_ok (step_quiet h)).trans (bind_of_ok hlook)

theorem isFile_quiet (h : s.events = []) : isFile path s = (.ok (s.disk.file path).isSome, s) := by
  have hlook : (step >>= fun _ => look fun s : State σ ρ => (s.disk.file path).isSome) s
      = (.ok (s.disk.file path).isSome, s) := bind_of_ok (step_quiet h)
  rw [isFile, rescue, hlook]

theorem candidateAt_quiet (h : s.events = []) (hfile : s.disk.file path = some file) :
    candidateAt x path s =
      (.ok (if sourceFileCandidate x.maxFileBytes path file.content then
        (SourceLanguage.fromPath path).map fun language => ⟨path, language, file.content.length⟩
      else none), s) := by
  rw [candidateAt, sourceFileCandidate]
  cases SourceLanguage.fromPath path with
  | none => simp
  | some language =>
      refine (bind_of_ok (metadata_quiet h hfile)).trans ?_
      dsimp only
      by_cases hsize : x.maxFileBytes < file.content.length
      · simp [hsize]
      · rw [if_neg hsize]
        refine (bind_of_ok (read_quiet h hfile)).trans ?_
        by_cases hbinary : looksBinary file.content = true
        · simp [hbinary]
        · simp [hbinary, hsize]

theorem entryAt_quiet (h : s.events = []) :
    entryAt x path s = (.ok ((s.disk.file path).bind (candidateOf x path)), s) := by
  refine (bind_of_ok (step_quiet h)).trans ((bind_of_ok (look_apply _ _)).trans ?_)
  cases hfile : s.disk.file path with
  | none => rfl
  | some file =>
      cases hignored : isIgnoredPathInRoot path with
      | true => simp [candidateOf, hignored]
      | false => simpa [candidateOf, hignored] using candidateAt_quiet h hfile

theorem discover_quiet (h : s.events = []) (walked : List RelPath) :
    discover x walked s =
      (.ok (walked.filterMap fun path => (s.disk.file path).bind (candidateOf x path)), s) := by
  induction walked with
  | nil => rfl
  | cons path rest ih =>
      refine (bind_of_ok (entryAt_quiet h)).trans ((bind_of_ok ih).trans ?_)
      cases hcandidate : (s.disk.file path).bind (candidateOf x path) with
      | none => simp [hcandidate]
      | some candidate => simp [hcandidate]

/-- The computation goes well, and writes the row at one path only. -/
def Writes (a : Attempt (State σ ρ) Unit) (s : State σ ρ) (key : Key)
    (f : Option (CodeFile σ ρ) → Option (CodeFile σ ρ)) : Prop :=
  ∃ t, a s = (.ok (), t) ∧ t.events = [] ∧ t.disk = s.disk ∧
    t.files.row key = f (s.files.row key) ∧ ∀ k, k ≠ key → t.files.row k = s.files.row k

namespace Writes

variable {a b : Attempt (State σ ρ) Unit} {g : Option (CodeFile σ ρ) → Option (CodeFile σ ρ)}

theorem statement (h : s.events = []) : Writes (statement key f) s key f :=
  ⟨s.alter key f, statement_quiet h, h, rfl, State.alter_row_self,
    fun _ hk => State.alter_row_of_ne hk⟩

theorem step_then (h : s.events = []) (ha : Writes a s key f) :
    Writes (step >>= fun _ => a) s key f := by
  obtain ⟨t, hrun, hrest⟩ := ha
  exact ⟨t, (bind_of_ok (step_quiet h)).trans hrun, hrest⟩

theorem then_ (ha : Writes a s key f)
    (hb : ∀ t : State σ ρ, t.events = [] → t.disk = s.disk → Writes b t key g) :
    Writes (a >>= fun _ => b) s key (fun row => g (f row)) := by
  obtain ⟨t, hrun, hevents, hdisk, hself, hrest⟩ := ha
  obtain ⟨u, hrun', hevents', hdisk', hself', hrest'⟩ := hb t hevents hdisk
  refine ⟨u, (bind_of_ok hrun).trans hrun', hevents', hdisk'.trans hdisk, ?_, fun k hk => ?_⟩
  · rw [hself', hself]
  · rw [hrest' k hk, hrest k hk]

theorem congr (ha : Writes a s key f) (h : ∀ row, f row = g row) : Writes a s key g :=
  funext h ▸ ha

theorem of_run {c : Attempt (State σ ρ) Unit} {u : State σ ρ} (hc : c s = a u)
    (ha : Writes a u key f) (hfiles : u.files = s.files) (hdisk : u.disk = s.disk) :
    Writes c s key f := by
  obtain ⟨t, hrun, hrest⟩ := ha
  rw [hfiles, hdisk] at hrest
  exact ⟨t, hc.trans hrun, hrest⟩

/-- Going through a list. -/
theorem each {β : Type} (body : β → Attempt (State σ ρ) Unit) (keyOf : β → Key)
    (g : β → Option (CodeFile σ ρ) → Option (CodeFile σ ρ)) (l : List β) (h : s.events = [])
    (hbody : ∀ b ∈ l, ∀ t : State σ ρ, t.events = [] → t.disk = s.disk →
      Writes (body b) t (keyOf b) (g b)) :
    ∃ t, each body l s = (.ok (), t) ∧ t.events = [] ∧ t.disk = s.disk ∧
      ∀ k, t.files.row k =
        (l.filter fun b => keyOf b = k).foldl (fun row b => g b row) (s.files.row k) := by
  induction l generalizing s with
  | nil => exact ⟨s, rfl, h, rfl, fun k => rfl⟩
  | cons b rest ih =>
      obtain ⟨u, hfirst, hevents, hdisk, hself, hothers⟩ := hbody b List.mem_cons_self s h rfl
      obtain ⟨t, hrun, hevents', hdisk', hrows⟩ := ih hevents fun b hb t ht htd =>
        hbody b (List.mem_cons_of_mem _ hb) t ht (htd.trans hdisk)
      refine ⟨t, (bind_of_ok hfirst).trans hrun, hevents', hdisk'.trans hdisk, fun k => ?_⟩
      rw [hrows k, List.filter_cons]
      by_cases hk : keyOf b = k
      · subst hk
        simp [hself]
      · rw [hothers k (Ne.symm hk), if_neg (by simpa using hk)]

theorem each_at {β : Type} {body : β → Attempt (State σ ρ) Unit}
    {g : β → Option (CodeFile σ ρ) → Option (CodeFile σ ρ)} {l : List β} (h : s.events = [])
    (hbody : ∀ b ∈ l, ∀ t : State σ ρ, t.events = [] → Writes (body b) t key (g b)) :
    Writes (Attempt.each body l) s key (fun row => l.foldl (fun row b => g b row) row) := by
  obtain ⟨t, hrun, hevents, hdisk, hrows⟩ :=
    Writes.each body (fun _ => key) g l h fun b hb t ht _ => hbody b hb t ht
  refine ⟨t, hrun, hevents, hdisk, ?_, fun k hk => ?_⟩
  · rw [hrows, List.filter_eq_self.mpr fun _ _ => by simp]
  · rw [hrows, List.filter_eq_nil_iff.mpr fun _ _ => by simpa using Ne.symm hk]
    rfl

end Writes

/-- The computation leaves a row that is not pending, with these facts, where there is a row. -/
def Leaves (a : Attempt (State σ ρ) Unit) (s : State σ ρ) (key : Key) (facts : List σ × List ρ) :
    Prop :=
  ∃ f, Writes a s key f ∧
    ∀ row, ∃ row', f (some row) = some row' ∧ isPending row' = false ∧ row'.facts = facts

theorem Leaves.of_run {a c : Attempt (State σ ρ) Unit} {facts : List σ × List ρ} {u : State σ ρ}
    (hc : c s = a u) (ha : Leaves a u key facts) (hfiles : u.files = s.files)
    (hdisk : u.disk = s.disk) : Leaves c s key facts := by
  obtain ⟨f, hwrites, hf⟩ := ha
  exact ⟨f, hwrites.of_run hc hfiles hdisk, hf⟩

theorem clearFileFacts_quiet (h : s.events = []) :
    Writes (clearFileFacts key) s key
      (·.map fun row => row.withoutReferences.withoutSymbols) := by
  refine .congr (.step_then h (.then_ (.statement h) fun t ht _ => .statement ht)) fun row => ?_
  cases row <;> rfl

theorem markFileDeleted_quiet (h : s.events = []) :
    Writes (markFileDeleted key) s key
      (·.map fun row => row.withoutReferences.withoutSymbols.gone) := by
  refine .congr (.then_ (clearFileFacts_quiet h) fun t ht _ => .statement ht) fun row => ?_
  cases row <;> rfl

theorem markFileUnsupported_quiet (h : s.events = []) :
    Writes (markFileUnsupported key) s key
      (·.map fun row => row.withoutReferences.withoutSymbols.setAside) := by
  refine .congr (.then_ (clearFileFacts_quiet h) fun t ht _ => .statement ht) fun row => ?_
  cases row <;> rfl

theorem markFileFailed_quiet (h : s.events = []) :
    Leaves (markFileFailed key) s key ([], []) := by
  have hmark : ∀ u : State σ ρ, u.events = [] → Writes (step >>= fun _ => clearFileFacts key >>=
      fun _ => statement key fun old =>
        some (write (old.bind (·.language)) (old.elim (0, none) (·.stamp)) .failed old)) u key _ :=
    fun u hu => .step_then hu (.then_ (clearFileFacts_quiet hu) fun t ht _ => .statement ht)
  have hghost : (if notText key s then s else spoil s).events = [] ∧
      (if notText key s then s else spoil s).files = s.files ∧
      (if notText key s then s else spoil s).disk = s.disk := by
    split <;> exact ⟨h, rfl, rfl⟩
  exact ⟨_, .of_run (bind_of_ok (change_apply _ _)) (hmark _ hghost.1) hghost.2.1 hghost.2.2,
    fun row => ⟨_, rfl, rfl, rfl⟩⟩

theorem foldl_map_some {α β : Type} (g : β → α → α) (l : List β) (a : α) :
    l.foldl (fun o b => o.map (g b)) (some a) = some (l.foldl (fun a b => g b a) a) := by
  induction l generalizing a with
  | nil => rfl
  | cons b rest ih => exact ih (g b a)

theorem facts_foldl_addSymbol (l : List σ) (row : CodeFile σ ρ) :
    (l.foldl (fun row symbol => row.addSymbol symbol) row).facts =
      (row.symbols ++ l, row.references) ∧
    isPending (l.foldl (fun row symbol => row.addSymbol symbol) row) = isPending row := by
  induction l generalizing row with
  | nil => simp [CodeFile.facts]
  | cons symbol rest ih =>
      obtain ⟨hfacts, hpending⟩ := ih (row.addSymbol symbol)
      exact ⟨by simpa [CodeFile.addSymbol] using hfacts, hpending⟩

theorem facts_foldl_addReference (l : List ρ) (row : CodeFile σ ρ) :
    (l.foldl (fun row reference => row.addReference reference) row).facts =
      (row.symbols, row.references ++ l) ∧
    isPending (l.foldl (fun row reference => row.addReference reference) row) = isPending row := by
  induction l generalizing row with
  | nil => simp [CodeFile.facts]
  | cons reference rest ih =>
      obtain ⟨hfacts, hpending⟩ := ih (row.addReference reference)
      exact ⟨by simpa [CodeFile.addReference] using hfacts, hpending⟩

theorem indexText_quiet {language : SourceLanguage} {source : String} (stamp : Stamp)
    (h : s.events = []) :
    Leaves (indexText x key language source stamp) s key
      (x.extractSymbols language key source, x.extractReferences language key source) := by
  refine ⟨_, .step_then h (.then_ (.statement h) fun t ht _ =>
    .then_ (clearFileFacts_quiet ht) fun u hu _ =>
      .then_ (.each_at hu fun b _ v hv => .statement hv) fun v hv _ =>
        .each_at hv fun b _ w hw => .statement hw), fun row => ?_⟩
  simp only [Option.map_some, foldl_map_some]
  refine ⟨_, rfl, ?_, ?_⟩
  · rw [(facts_foldl_addReference _ _).2, (facts_foldl_addSymbol _ _).2]
    show isPending (CodeFile.withoutSymbols _) = false
    by_cases herror : x.hasError language source = true <;> simp [isPending, herror, write,
      CodeFile.withoutSymbols, CodeFile.withoutReferences]
  · rw [(facts_foldl_addReference _ _).1]
    have hsymbols := (facts_foldl_addSymbol (x.extractSymbols language key source)
      (write (some language) stamp (if x.hasError language source then .parsedInPart else .parsed)
        (some row)).withoutReferences.withoutSymbols).1
    rw [CodeFile.facts, Prod.mk.injEq] at hsymbols
    rw [hsymbols.1, hsymbols.2]
    rfl

theorem candidateInRoot_quiet (h : s.events = []) (hfile : s.disk.file path = some file)
    (hroot : inRoot path = true) :
      candidateInRoot x path s = (.ok (candidateOf x path file), s) := by
  rw [candidateInRoot, if_pos hroot]
  cases hignored : isIgnoredPathInRoot path with
  | true => simp [candidateOf, hignored]
  | false => simpa [candidateOf, hignored] using candidateAt_quiet h hfile

theorem language_of_candidateOf {candidate : SourceFileCandidate}
    (h : candidateOf x path file = some candidate) :
    SourceLanguage.fromPath path = some candidate.language ∧ candidate.path = path ∧
      candidate.sizeBytes = file.content.length := by
  rw [candidateOf] at h
  split at h
  · obtain ⟨language, hlanguage, rfl⟩ := Option.map_eq_some_iff.mp h
    exact ⟨hlanguage, rfl, rfl⟩
  · cases h

/-- An attempt that stops without a change hands the row over to the handler. -/
theorem rescue_failed_quiet {a : Attempt (State σ ρ) Unit} (h : s.events = [])
    (ha : a s = (.error (), s)) : Leaves (a.rescue (markFileFailed key)) s key ([], []) :=
  .of_run (rescue_of_error ha) (markFileFailed_quiet h) rfl rfl

theorem Leaves.rescue {a : Attempt (State σ ρ) Unit} {facts : List σ × List ρ}
    (ha : Leaves a s key facts) : Leaves (a.rescue (markFileFailed key)) s key facts := by
  obtain ⟨f, ⟨t, hrun, hrest⟩, hf⟩ := ha
  exact ⟨f, ⟨t, rescue_of_ok hrun, hrest⟩, hf⟩

/-- **An index pass over one row.** -/
theorem indexPendingFile_quiet (h : s.events = []) :
    Leaves ((indexPendingFile x key).rescue (markFileFailed key)) s key (given x s.disk key) := by
  have hpresent : isFile (join key) s = _ := isFile_quiet h
  cases hfile : s.disk.file (join key) with
  | none =>
      rw [hfile] at hpresent
      have hgiven : given x s.disk key = ([], []) := by
        rw [given, hfile]
      rw [hgiven]
      refine Leaves.rescue
        (.of_run (bind_of_ok hpresent) ⟨_, markFileDeleted_quiet h, fun row => ?_⟩ rfl rfl)
      exact ⟨_, rfl, rfl, rfl⟩
  | some file =>
      rw [hfile] at hpresent
      cases hroot : inRoot (join key) with
      | false =>
          have hgiven : given x s.disk key = ([], []) := by
            simp [given, hfile, hroot]
          have hcandidate : candidateInRoot x (join key) s = (.error (), s) := by
            simp [candidateInRoot, hroot]
          rw [hgiven]
          exact rescue_failed_quiet h ((bind_of_ok hpresent).trans (bind_of_error hcandidate))
      | true =>
          have hcandidate := candidateInRoot_quiet (x := x) h hfile hroot
          cases hfound : candidateOf x (join key) file with
          | none =>
              have hgiven : given x s.disk key = ([], []) := by
                simp [given, hfile, hfound]
              rw [hfound] at hcandidate
              rw [hgiven]
              refine Leaves.rescue (.of_run ((bind_of_ok hpresent).trans (bind_of_ok hcandidate))
                ⟨_, markFileUnsupported_quiet h, fun row => ?_⟩ rfl rfl)
              exact ⟨_, rfl, rfl, rfl⟩
          | some candidate =>
              have hlanguage := (language_of_candidateOf hfound).1
              have hread := read_quiet h hfile
              rw [hfound] at hcandidate
              cases htext : textOf file.content with
              | none =>
                  have hgiven : given x s.disk key = ([], []) := by
                    simp [given, hfile, hfound, factsOf, htext]
                  rw [hgiven]
                  refine rescue_failed_quiet h ((bind_of_ok hpresent).trans
                    ((bind_of_ok hcandidate).trans ((bind_of_ok hread).trans ?_)))
                  simp [htext]
              | some source =>
                  have hgiven :
                      given x s.disk key = (x.extractSymbols candidate.language key source,
                      x.extractReferences candidate.language key source) := by
                    simp [given, hfile, hfound, hroot, factsOf, htext, hlanguage]
                  have htorn : torn (join key) file.content s = false := by
                    simp [torn, hfile]
                  rw [hgiven]
                  refine Leaves.rescue (.of_run (u := s) ((bind_of_ok hpresent).trans
                    ((bind_of_ok hcandidate).trans ((bind_of_ok hread).trans ?_)))
                    (indexText_quiet file.stamp h) rfl rfl)
                  simp only [htext]
                  refine (bind_of_ok (metadata_quiet h hfile)).trans
                    ((bind_of_ok (change_apply _ _)).trans ?_)
                  simp only [htorn, Bool.false_eq_true, if_false, Entry.stamp]

theorem markCandidatePending_quiet {mode : DiscoveryMode} {candidate : SourceFileCandidate}
    (h : s.events = []) (hfile : s.disk.file candidate.path = some file) :
    Writes (markCandidatePending mode candidate) s (relativePath candidate.path)
      (markRow mode candidate.language (candidate.sizeBytes, file.stamp.2)) :=
  .of_run (bind_of_ok (metadata_quiet h hfile)) (.statement h) rfl rfl

theorem deleteOrSpoil_quiet (h : s.events = []) :
    Writes (deleteOrSpoil key) s key
      (·.map fun row => row.withoutReferences.withoutSymbols.gone) := by
  obtain ⟨t, hrun, hrest⟩ : Writes (markFileDeleted key) s key _ := markFileDeleted_quiet h
  exact ⟨t, by rw [deleteOrSpoil, rescue, hrun], hrest⟩

/-! ## The refresh -/

/-- What the mark of a candidate makes of a row. -/
def markOf (mode : DiscoveryMode) (disk : Disk) (candidate : SourceFileCandidate)
    (old : Option (CodeFile σ ρ)) : Option (CodeFile σ ρ) :=
  match disk.file candidate.path with
  | some file => markRow mode candidate.language (candidate.sizeBytes, file.stamp.2) old
  | none => old

section Marking

variable {mode : DiscoveryMode} {disk : Disk} {candidate : SourceFileCandidate}
  {l : List SourceFileCandidate} {old : Option (CodeFile σ ρ)}

theorem markOf_cases (mode : DiscoveryMode) (disk : Disk) (candidate : SourceFileCandidate)
    (old : Option (CodeFile σ ρ)) :
    (markOf mode disk candidate old).any isPending = true ∨
      markOf mode disk candidate old = old := by
  rw [markOf]
  split
  · rw [markRow]
    split
    · exact .inl rfl
    · exact .inr rfl
  · exact .inr rfl

theorem pending_foldl_markOf (h : old.any isPending = true) :
    (l.foldl (fun row candidate => markOf mode disk candidate row) old).any isPending = true := by
  induction l generalizing old with
  | nil => exact h
  | cons candidate rest ih =>
      rcases markOf_cases mode disk candidate old with hnew | hsame
      · exact ih hnew
      · rw [List.foldl_cons, hsame]
        exact ih h

/-- One of the candidates marks the row: then it is pending in the end. -/
theorem pending_foldl_markOf_of_marks (hmem : candidate ∈ l)
    (hfile : disk.file candidate.path = some file)
    (hmarks : marks mode candidate.language (candidate.sizeBytes, file.stamp.2) old = true) :
    (l.foldl (fun row candidate => markOf mode disk candidate row) old).any isPending = true := by
  induction l with
  | nil => cases hmem
  | cons first rest ih =>
      rw [List.foldl_cons]
      rcases markOf_cases mode disk first old with hnew | hsame
      · exact pending_foldl_markOf hnew
      · rcases List.mem_cons.mp hmem with rfl | hrest
        · -- The candidate itself writes the row, which is then pending.
          refine pending_foldl_markOf ?_
          rw [markOf, hfile]
          simp only [markRow, hmarks, if_true]
          rfl
        · rw [hsame]
          exact ih hrest

theorem foldl_markOf_of_not_marks
    (h : ∀ candidate ∈ l, ∀ file, disk.file candidate.path = some file →
      marks mode candidate.language (candidate.sizeBytes, file.stamp.2) old = false) :
    l.foldl (fun row candidate => markOf mode disk candidate row) old = old := by
  induction l with
  | nil => rfl
  | cons first rest ih =>
      have hsame : markOf mode disk first old = old := by
        rw [markOf]
        split
        · rename_i file hfile
          simp [markRow, h first List.mem_cons_self file hfile]
        · rfl
      rw [List.foldl_cons, hsame]
      exact ih fun candidate hmem => h candidate (List.mem_cons_of_mem _ hmem)

end Marking

/-- There is no row, or it is deleted and has no facts. -/
def Gone (row : Option (CodeFile σ ρ)) : Prop :=
  ∀ r, row = some r → r.deleted = true ∧ r.facts = ([], [])

theorem gone_foldl {l : List Key} {row : Option (CodeFile σ ρ)} (h : l ≠ [] ∨ Gone row) :
    Gone (l.foldl (fun row _ => row.map fun r => r.withoutReferences.withoutSymbols.gone) row) := by
  induction l generalizing row with
  | nil => exact h.resolve_left fun hne => hne rfl
  | cons key rest ih =>
      refine ih (.inr fun r hr => ?_)
      obtain ⟨old, -, rfl⟩ := Option.map_eq_some_iff.mp hr
      exact ⟨rfl, rfl⟩

/-- A deleted row has no facts. -/
def DeletedEmpty (s : State σ ρ) : Prop :=
  ∀ key row, s.files.row key = some row → row.deleted = true → row.facts = ([], [])

section Refresh

variable {mode : DiscoveryMode} {walked : List RelPath}

theorem mem_candidates {candidate : SourceFileCandidate} :
    candidate ∈ walked.filterMap (fun path => (s.disk.file path).bind (candidateOf x path)) ↔
      ∃ file, Discovered x walked s.disk candidate.path file ∧
        candidateOf x candidate.path file = some candidate := by
  rw [List.mem_filterMap]
  constructor
  · rintro ⟨path, hwalked, hfound⟩
    obtain ⟨file, hfile, hcandidate⟩ := Option.bind_eq_some_iff.mp hfound
    obtain ⟨-, rfl, -⟩ := language_of_candidateOf hcandidate
    exact ⟨file, ⟨hwalked, hfile, by rw [hcandidate]; rfl⟩, hcandidate⟩
  · rintro ⟨file, ⟨hwalked, hfile, -⟩, hcandidate⟩
    exact ⟨candidate.path, hwalked, by rw [hfile]; exact hcandidate⟩

/-- The marks of the candidates on one row. -/
theorem marks_of_candidates {candidates : List SourceFileCandidate}
    (hcandidates : candidates = walked.filterMap fun path =>
      (s.disk.file path).bind (candidateOf x path)) :
    (Marked x mode walked s key →
      (((candidates.filter fun candidate => relativePath candidate.path = key).foldl
        (fun row candidate => markOf mode s.disk candidate row) (s.files.row key)).any
          isPending) = true) ∧
    (¬ Marked x mode walked s key →
      (candidates.filter fun candidate => relativePath candidate.path = key).foldl
        (fun row candidate => markOf mode s.disk candidate row) (s.files.row key) =
          s.files.row key) := by
  subst hcandidates
  constructor
  · rintro (hpending | ⟨path, file, language, hfound, hkey, hlanguage, hmarks⟩)
    · exact pending_foldl_markOf hpending
    · obtain ⟨candidate, hcandidate⟩ := Option.isSome_iff_exists.mp hfound.2.2
      obtain ⟨hlanguage', rfl, hsize⟩ := language_of_candidateOf hcandidate
      obtain rfl : language = candidate.language :=
        Option.some.inj (hlanguage.symm.trans hlanguage')
      have hmem := mem_candidates.mpr ⟨file, hfound, hcandidate⟩
      refine pending_foldl_markOf_of_marks
        (List.mem_filter.mpr ⟨hmem, by simpa using hkey⟩) hfound.2.1 ?_
      rw [hsize]
      exact hmarks
  · intro hnot
    refine foldl_markOf_of_not_marks fun candidate hmem file hfile => ?_
    obtain ⟨hmem, hkey⟩ := List.mem_filter.mp hmem
    obtain ⟨file', hfound, hcandidate⟩ := mem_candidates.mp hmem
    obtain rfl : file = file' := Option.some.inj (hfile.symm.trans hfound.2.1)
    obtain ⟨hlanguage, -, hsize⟩ := language_of_candidateOf hcandidate
    rw [hsize]
    exact Bool.eq_false_iff.mpr fun hmarks => hnot
      (.inr ⟨candidate.path, file, candidate.language, hfound, of_decide_eq_true hkey, hlanguage,
        hmarks⟩)

/-- The deletion takes the rows whose files were not seen. -/
theorem markDeletedFiles_quiet (h : s.events = []) (seen : List Key) :
    ∃ t, markDeletedFiles seen .root s = (.ok (), t) ∧ t.events = [] ∧ t.disk = s.disk ∧
      (∀ key ∈ seen, t.files.row key = s.files.row key) ∧
      ∀ key, key ∉ seen → (∀ row, s.files.row key = some row → row.deleted = true →
        row.facts = ([], [])) → Gone (t.files.row key) := by
  let rows := (s.files.select fun row => !row.deleted).filter fun key =>
    DeletionScope.root.covers key && !seen.contains key
  obtain ⟨t, hdelete, hevents, hdisk, hrows⟩ :=
    Writes.each deleteOrSpoil id
      (fun _ row => row.map fun r => r.withoutReferences.withoutSymbols.gone) rows h
      fun key _ t ht _ => deleteOrSpoil_quiet ht
  have hmem : ∀ key, key ∈ rows ↔
      (s.files.row key).any (fun row => !row.deleted) = true ∧ key ∉ seen := fun key => by
    rw [List.mem_filter, CodeFiles.mem_select]
    simp [DeletionScope.covers]
  refine ⟨t, (bind_of_ok (step_quiet h)).trans ((bind_of_ok (look_apply _ _)).trans hdelete),
    hevents, hdisk, fun key hkey => ?_, fun key hkey hempty => ?_⟩
  · rw [hrows, List.filter_eq_nil_iff.mpr]
    · rfl
    · rintro k hk heq
      obtain rfl : k = key := of_decide_eq_true heq
      exact ((hmem k).mp hk).2 hkey
  · rw [hrows]
    refine gone_foldl ?_
    by_cases hlive : (s.files.row key).any (fun row => !row.deleted) = true
    · exact .inl (List.ne_nil_of_mem (List.mem_filter.mpr ⟨(hmem key).mpr ⟨hlive, hkey⟩, by simp⟩))
    · -- A row that is deleted already has no facts.
      refine .inr fun row hrow => ?_
      have hdeleted : row.deleted = true := by
        rw [hrow] at hlive
        simpa using hlive
      exact ⟨hdeleted, hempty row hrow hdeleted⟩

/-- **A refresh of the root.** What it discovers is pending where it is marked and stays as it was
where it is not, and the other rows are gone. -/
theorem markDirty_quiet (mode : DiscoveryMode) (walked : List RelPath) (h : s.events = [])
    (hempty : DeletedEmpty s) :
    ∃ t, markDirty x mode .root walked s = (.ok (), t) ∧ t.events = [] ∧ t.disk = s.disk ∧
      (∀ path file, Discovered x walked s.disk path file →
        (Marked x mode walked s (relativePath path) →
          (t.files.row (relativePath path)).any isPending = true) ∧
        (¬ Marked x mode walked s (relativePath path) →
          t.files.row (relativePath path) = s.files.row (relativePath path))) ∧
      ∀ key, (∀ path file, Discovered x walked s.disk path file → relativePath path ≠ key) →
        Gone (t.files.row key) := by
  obtain ⟨candidates, hcandidates⟩ : ∃ l, l = walked.filterMap fun path =>
    (s.disk.file path).bind (candidateOf x path) := ⟨_, rfl⟩
  obtain ⟨u, hmark, hevents, hdisk, hrows⟩ :=
    Writes.each (markCandidatePending mode) (fun candidate => relativePath candidate.path)
      (markOf mode s.disk) candidates h fun candidate hmem t ht htd => by
        obtain ⟨file, ⟨-, hfile, -⟩, -⟩ := mem_candidates.mp (hcandidates ▸ hmem)
        refine .congr (markCandidatePending_quiet ht (htd ▸ hfile)) fun row => ?_
        rw [markOf, hfile]
  obtain ⟨t, hdelete, hevents', hdisk', hseen, hgone⟩ := markDeletedFiles_quiet hevents
    (candidates.map fun candidate => relativePath candidate.path)
  refine ⟨t, ?_, hevents', hdisk'.trans hdisk, fun path file hfound => ?_, fun key hother => ?_⟩
  · refine (bind_of_ok (step_quiet h)).trans
      ((bind_of_ok (hcandidates ▸ discover_quiet h walked)).trans
      ((bind_of_ok hmark).trans ((bind_of_ok hdelete).trans (step_quiet hevents'))))
  · obtain ⟨candidate, hcandidate⟩ := Option.isSome_iff_exists.mp hfound.2.2
    obtain ⟨-, rfl, -⟩ := language_of_candidateOf hcandidate
    have hmem : candidate ∈ candidates :=
      hcandidates ▸ mem_candidates.mpr ⟨file, hfound, hcandidate⟩
    rw [hseen _ (List.mem_map.mpr ⟨candidate, hmem, rfl⟩), hrows]
    exact marks_of_candidates hcandidates
  · have hnone : ∀ candidate ∈ candidates, relativePath candidate.path ≠ key := by
      intro candidate hmem
      obtain ⟨file, hfound, -⟩ := mem_candidates.mp (hcandidates ▸ hmem)
      exact hother _ _ hfound
    refine hgone key (by simpa using hnone) fun row hrow => ?_
    rw [hrows, List.filter_eq_nil_iff.mpr fun candidate hmem => by simpa using hnone candidate hmem]
      at hrow
    exact hempty key row hrow

end Refresh

/-! ## The passes -/

/-- The rows that were pending and are not any more hold what a pass gives them. The others are as
they were. -/
structure Passing (x : Indexer σ ρ) (u t : State σ ρ) : Prop where
  events : t.events = []
  disk : t.disk = u.disk
  rows : ∀ key, t.files.row key = u.files.row key ∨
    (u.files.row key).any isPending = true ∧
      ∃ row, t.files.row key = some row ∧ isPending row = false ∧ row.facts = given x u.disk key

variable {u : State σ ρ} {E : State σ ρ → Prop}

theorem passing_step : Leads (Passing x u) step (fun _ => Passing x u) E := fun t ht => by
  rw [step_quiet ht.events]
  exact ht

theorem indexPendingFiles_passing (pending : List Key) :
    Leads (fun t => Passing x u t ∧ ∀ key ∈ pending, (u.files.row key).any isPending = true)
      (indexPendingFiles x pending) (fun _ => Passing x u) E := by
  refine Leads.mono (E := E) (Leads.each (I := fun rest t => Passing x u t ∧
    ∀ key ∈ rest, (u.files.row key).any isPending = true) (fun key rest => .of_ok ?_) pending)
      (fun _ h => h) (fun _ _ h => h.1) (fun _ h => h)
  rintro t ⟨⟨hevents, hdisk, hrows⟩, hpending⟩
  obtain ⟨f, ⟨v, hrun, hevents', hdisk', hself, hothers⟩, hf⟩ :=
    (indexPendingFile_quiet hevents :
      Leaves ((indexPendingFile x key).rescue (markFileFailed key)) t key _)
  have hkey := hpending key List.mem_cons_self
  refine ⟨(), v, hrun, ⟨hevents', hdisk'.trans hdisk, fun k => ?_⟩,
    fun k hk => hpending k (List.mem_cons_of_mem _ hk)⟩
  by_cases hk : k = key
  · subst hk
    -- There is a row, since there was one.
    obtain ⟨row, hrow⟩ : ∃ row, t.files.row k = some row := by
      rcases hrows k with hsame | ⟨-, row, hrow, -⟩
      · obtain ⟨row, hrow, -⟩ := (Option.any_eq_true _ _).mp hkey
        exact ⟨row, hsame.trans hrow⟩
      · exact ⟨row, hrow⟩
    obtain ⟨row', hrow', hnot, hfacts⟩ := hf row
    exact .inr ⟨hkey, row', by rw [hself, hrow, hrow'], hnot, hdisk ▸ hfacts⟩
  · rw [hothers k hk]
    exact hrows k

theorem indexPendingRoot_passing (before : Key → Key → Bool) (limit : Int) :
    Keeps (Passing x u) (indexPendingRoot x before limit) := by
  refine passing_step.bind fun _ => Leads.bind (Q := fun pending t => Passing x u t ∧
    ∀ key ∈ pending, (u.files.row key).any isPending = true) ?_ fun pending => ?_
  · refine passing_step.bind fun _ => Leads.bind (Q := fun pending t => Passing x u t ∧
      ∀ key ∈ pending, (u.files.row key).any isPending = true) (.look fun t ht => ⟨ht, ?_⟩)
        fun pending => .pure fun t ht => ⟨ht.1, fun key hkey => ?_⟩
    · intro key hkey
      rw [CodeFiles.mem_select] at hkey
      rcases ht.rows key with hsame | ⟨hpending, -⟩
      · exact hsame ▸ hkey
      · exact hpending
    · exact ht.2 key ((List.perm_insertionSort _ _).mem_iff.mp (List.mem_of_mem_take hkey))
  · split
    · exact .pure fun t ht => ht.1
    · refine Leads.bind (Q := fun _ t => Passing x u t ∧
        ∀ key ∈ pending, (u.files.row key).any isPending = true) (fun t ht => ?_) fun _ =>
          (Leads.outcome (I := Passing x u) (indexPendingFiles_passing pending)).bind fun result =>
            passing_step.bind fun _ => .ofOutcome result
      rw [step_quiet ht.1.events]
      exact ht

theorem passes_passing (passes : List ((Key → Key → Bool) × Int)) (ht : Passing x u t) :
    Passing x u (runJobs x (passes.map fun pass => .index pass.1 pass.2) t) := by
  induction passes generalizing t with
  | nil => exact ht
  | cons pass rest ih => exact ih ((indexPendingRoot_passing pass.1 pass.2).left ht)

section Settled

variable {mode : DiscoveryMode} {walked : List RelPath}

/-- What the table holds in the end. -/
theorem facts_of_settles (h : s.events = []) (hempty : DeletedEmpty s)
    (hsettles : Settles x mode walked s t) :
    t.disk = s.disk ∧
    (∀ path file, Discovered x walked s.disk path file →
      (Marked x mode walked s (relativePath path) →
        t.files.facts (relativePath path) = given x s.disk (relativePath path)) ∧
      (¬ Marked x mode walked s (relativePath path) →
        t.files.facts (relativePath path) = s.files.facts (relativePath path))) ∧
    ∀ key, (∀ path file, Discovered x walked s.disk path file → relativePath path ≠ key) →
      t.files.facts key = ([], []) := by
  obtain ⟨⟨passes, rfl⟩, hdone⟩ := hsettles
  obtain ⟨u, hrun, hevents, hdisk, hfound, hgone⟩ :=
    markDirty_quiet (x := x) mode walked h hempty
  have hstart : runJobs x (.refresh mode .root walked ::
      passes.map fun pass => .index pass.1 pass.2) s =
        runJobs x (passes.map fun pass => .index pass.1 pass.2) u := by
    rw [runJobs, List.foldl_cons, Job.run, hrun]
    rfl
  rw [hstart] at hdone ⊢
  obtain ⟨-, hdisk', hrows⟩ := passes_passing passes
    (⟨hevents, rfl, fun key => .inl rfl⟩ : Passing x u u)
  -- A row that was not pending is as the refresh left it, and the others went through a pass.
  have hkept : ∀ key, (u.files.row key).any isPending = false →
      (runJobs x (passes.map fun pass => .index pass.1 pass.2) u).files.facts key =
        u.files.facts key := fun key hnot => by
    rcases hrows key with hsame | ⟨hpending, -⟩
    · rw [CodeFiles.facts, hsame, CodeFiles.facts]
    · rw [hnot] at hpending
      cases hpending
  have hpassed : ∀ key, (u.files.row key).any isPending = true →
      (runJobs x (passes.map fun pass => .index pass.1 pass.2) u).files.facts key =
        given x u.disk key := fun key hpending => by
    rcases hrows key with hsame | ⟨-, row, hrow, -, hfacts⟩
    · obtain ⟨row, hrow, hrowpending⟩ := (Option.any_eq_true _ _).mp hpending
      rw [hdone key row (hsame.trans hrow)] at hrowpending
      cases hrowpending
    · rw [CodeFiles.facts, hrow]
      exact hfacts
  refine ⟨hdisk'.trans hdisk, fun path file hdiscovered => ⟨fun hmarked => ?_, fun hnot => ?_⟩,
    fun key hother => ?_⟩
  · rw [← hdisk]
    exact hpassed _ ((hfound path file hdiscovered).1 hmarked)
  · have hsame := (hfound path file hdiscovered).2 hnot
    rw [hkept _ ?_, CodeFiles.facts, hsame, CodeFiles.facts]
    rw [hsame]
    exact Bool.eq_false_iff.mpr fun hpending => hnot (.inl hpending)
  · have hrowgone := hgone key hother
    rw [hkept key ?_]
    · rw [CodeFiles.facts]
      cases hrow : u.files.row key with
      | none => rfl
      | some row => exact (hrowgone row hrow).2
    · cases hrow : u.files.row key with
      | none => rfl
      | some row => simp [isPending, (hrowgone row hrow).1]

theorem caughtUp_iff_of_quiet (h : s.events = []) (hempty : DeletedEmpty s)
    (hsettles : Settles x mode walked s t) :
    CaughtUp x walked t ↔ Recoverable x mode walked s := by
  obtain ⟨hdisk, hfound, hother⟩ := facts_of_settles h hempty hsettles
  constructor
  · rintro ⟨hdiscovered, -⟩ path file hfile
    have hfacts := hdiscovered path file (hdisk ▸ hfile)
    by_cases hmarked : Marked x mode walked s (relativePath path)
    · exact .inl ⟨hmarked, ((hfound path file hfile).1 hmarked).symm.trans hfacts⟩
    · exact .inr ⟨hmarked, ((hfound path file hfile).2 hmarked).symm.trans hfacts⟩
  · intro hrecoverable
    refine ⟨fun path file hfile => ?_, fun key hkey => hother key (hdisk ▸ hkey)⟩
    rw [hdisk] at hfile
    rcases hrecoverable path file hfile with ⟨hmarked, hgiven⟩ | ⟨hnot, hfacts⟩
    · exact ((hfound path file hfile).1 hmarked).trans hgiven
    · exact ((hfound path file hfile).2 hnot).trans hfacts

end Settled

end Sulion.CodeIntel.CatchUp
