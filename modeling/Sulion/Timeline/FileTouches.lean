import Sulion.Rust.Path
import Sulion.Timeline.Items

set_option autoImplicit false

/-! # The repository paths of file touches

`normalize_candidate` in `ingest/timeline/file_touches.rs` gives the path under the repository that
a candidate names. An absolute candidate is cut at the repository's root as it is spelled; a
relative one is walked from the root, and from the working directory where that fails, component by
component. `workspace::resolve_in_repo` then looks at where the relative one leads.

The two spellings of a path share nothing but the last check. `spelledPath` is what the absolute
spelling of a relative path names, and `SpellingsAgree` says when the two give the same.
-/

namespace Sulion.FileTouches

open Rust

/-! ## The source's functions -/

/-- What the functions ask the file system. -/
structure FileSystem where
  isDir : Path → Bool
  pathExists : Path → Bool
  canonicalize : Path → Except String Path

/-- `FileTouchContext`, apart from the repository's name. The root is an absolute path. -/
structure FileTouchContext where
  repoRoot : String
  workingDir : String
  absolute : (Path.new repoRoot).isAbsolute = true

/-- `workspace::resolve_in_repo`. -/
def resolveInRepo (fs : FileSystem) (repoRoot rel : Path) : Except String (Path × Path) := do
  if rel.isAbsolute then throw "absolute path rejected"
  match rel.components.find? fun c => c = .parentDir ∨ c = .rootDir with
  | some .parentDir => throw "path escape (..) rejected"
  | some _ => throw "absolute path rejected"
  | none =>
      let target := if rel.isEmpty ∨ rel = ["."] then repoRoot else repoRoot.join rel
      if fs.pathExists target then
        let rootReal ← fs.canonicalize repoRoot
        let targetReal ← fs.canonicalize target
        if !targetReal.startsWith rootReal then throw "path escape after canonicalize"
      return (target, rel)

/-- The walk over the components of a relative candidate. -/
def walk (repoRoot : Path) : Path → List Path.Component → Option Path
  | current, [] => some current
  | current, .curDir :: components => walk repoRoot current components
  | current, .normal segment :: components => walk repoRoot (current.join [segment]) components
  | current, .parentDir :: components =>
      if current.components = repoRoot.components then none
      else current.pop.bind fun current => walk repoRoot current components
  | _, .rootDir :: _ => none

def normalizeRelativeCandidate (fs : FileSystem) (repoRoot base : Path) (candidate : String) :
    Option Path :=
  match walk repoRoot base (Path.new candidate).components with
  | none => none
  | some current =>
      if current.startsWith repoRoot then
        match current.stripBase repoRoot with
        | none => none
        | some rel =>
            if rel.isEmpty then none
            else (resolveInRepo fs repoRoot rel).toOption.map Prod.snd
      else none

/-- The texts that are no candidates. -/
def refusedText (candidate : String) : Bool :=
  decide (candidate = "") || startsWith candidate "-" || startsWith candidate "http://" ||
    startsWith candidate "https://" || startsWith candidate "$" || startsWith candidate "~" ||
    containsText candidate "\n"

def normalizeCandidate (fs : FileSystem) (context : FileTouchContext) (raw : String) :
    Option Path :=
  let repoRoot := Path.new context.repoRoot
  let candidate := trim raw
  if refusedText candidate then none
  else
    let rel :=
      if (Path.new candidate).isAbsolute then (Path.new candidate).stripBase repoRoot
      else if endsWith candidate "/" then none
      else
        (normalizeRelativeCandidate fs repoRoot repoRoot candidate).or
          (normalizeRelativeCandidate fs repoRoot (Path.new context.workingDir) candidate)
    match rel with
    | none => none
    | some rel =>
        if rel.isEmpty then none
        else if fs.isDir (repoRoot.join rel) then none
        else some rel

/-- The context that the reducer takes its touches from. -/
def touchContext (fs : FileSystem) (repoName : String) (context : FileTouchContext) :
    Timeline.FileTouchContext where
  repoName := repoName
  normalizeCandidate := fun raw => (normalizeCandidate fs context raw).map Path.text

/-! ## What the paths should be -/

/-- Whatever path the candidate gives has names only. -/
def StaysInside (fs : FileSystem) (context : FileTouchContext) (raw : String) : Prop :=
  ∀ rel, normalizeCandidate fs context raw = some rel → rel.NormalOnly

/-- An absolute candidate under the root with a parent among the components behind it, which names
no directory. -/
def Escapes (fs : FileSystem) (context : FileTouchContext) (raw : String) : Prop :=
  refusedText (trim raw) = false ∧ (Path.new (trim raw)).isAbsolute = true ∧
    ∃ rel, (Path.new (trim raw)).stripBase (Path.new context.repoRoot) = some rel ∧
      Path.Component.parentDir ∈ rel.components ∧
      fs.isDir ((Path.new context.repoRoot).join rel) = false

/-- What the absolute spelling of a relative path names under the root. -/
def spelledPath (r : String) : Path := (Path.new (trimEnd r)).trimEnd.trimStart

/-- The absolute spelling is no candidate. -/
def AbsoluteRefused (root r : String) : Prop :=
  refusedText (root ++ "/" ++ trimEnd r) = true ∨ spelledPath r = []

/-- The relative spelling is no candidate, or trimming it leaves an absolute path that names
nothing under the root. -/
def RelativeRefused (root r : String) : Prop :=
  refusedText (trim r) = true ∨
    if (Path.new (trim r)).isAbsolute then
      ((Path.new (trim r)).stripBase (Path.new root)).all Path.isEmpty = true
    else endsWith (trim r) "/" = true

/-- A path that is spelled as it is normalised: both spellings are candidates, no whitespace stands
in front, no slash behind, and what it names are names one by one. -/
structure Plain (root r : String) : Prop where
  absolute : ¬AbsoluteRefused root r
  text : refusedText (trim r) = false
  trimmed : trimEnd r = trim r
  slash : endsWith (trim r) "/" = false
  names : ∀ piece ∈ spelledPath r, Path.IsName piece

/-- When the two spellings of a path give the same. -/
def SpellingsAgree (root r : String) : Prop :=
  AbsoluteRefused root r ∧ RelativeRefused root r ∨ Plain root r

/-- If the path is there it leads to something under where the root leads. -/
def LeadsInside (fs : FileSystem) (root rel : Path) : Prop :=
  fs.pathExists (root.join rel) = true →
    ∃ rootReal targetReal, fs.canonicalize root = .ok rootReal ∧
      fs.canonicalize (root.join rel) = .ok targetReal ∧ targetReal.startsWith rootReal = true

/-- What is there under the root leads nowhere else. -/
def Contained (fs : FileSystem) (root : Path) : Prop :=
  ∀ rel : Path, (∀ piece ∈ rel, Path.IsName piece) → LeadsInside fs root rel

/-- The absolute and the relative spelling of a path give the same. -/
def SpelledAlike (fs : FileSystem) (context : FileTouchContext) (r : String) : Prop :=
  normalizeCandidate fs context (context.repoRoot ++ "/" ++ r) = normalizeCandidate fs context r

/-! ## Texts -/

theorem rdropWhile_append_cons {α : Type*} {p : α → Bool} {x : α} (front back : List α)
    (hx : p x = false) : (front ++ x :: back).rdropWhile p = front ++ x :: back.rdropWhile p := by
  induction back using List.reverseRecOn with
  | nil => exact List.rdropWhile_concat_neg _ _ _ (by rw [hx]; exact Bool.false_ne_true)
  | append_singleton back y ih =>
      have hsplit : front ++ x :: (back ++ [y]) = (front ++ x :: back) ++ [y] := by simp
      rw [hsplit]
      by_cases hy : p y = true
      · rw [List.rdropWhile_concat_pos _ _ _ hy, List.rdropWhile_concat_pos _ _ _ hy, ih]
      · rw [List.rdropWhile_concat_neg _ _ _ hy, List.rdropWhile_concat_neg _ _ _ hy]
        simp

theorem toList_trimEnd (text : String) :
    (trimEnd text).toList = text.toList.rdropWhile isWhitespace := String.toList_ofList

theorem toList_trim (text : String) :
    (trim text).toList = (text.toList.dropWhile isWhitespace).rdropWhile isWhitespace :=
  String.toList_ofList

/-- A text is absolute as a path when it starts with a slash. -/
theorem isAbsolute_new (text : String) :
    (Path.new text).isAbsolute = true ↔ text.toList.head? = some '/' := by
  unfold Path.new splitChar
  cases htext : text.toList with
  | nil => decide
  | cons ch chars =>
      rw [piecesOf]
      by_cases hch : ch = '/'
      · rw [if_pos hch, List.map_cons, hch]
        have hne : (piecesOf '/' chars).map String.ofList ≠ [] := by
          simpa using Path.piecesOf_ne_nil '/' chars
        have hstart : Path.start (String.ofList [] :: (piecesOf '/' chars).map String.ofList) =
            (some .rootDir, (piecesOf '/' chars).map String.ofList) := Path.start_root hne
        rw [Path.isAbsolute, hstart]
        simp
      · rw [if_neg hch]
        have hhead : (ch :: chars).head? ≠ some '/' := fun heq => hch (Option.some.inj heq)
        have hfirst (piece : List Char) (rest : Path) :
            Path.isAbsolute (String.ofList (ch :: piece) :: rest) = false := by
          rw [Bool.eq_false_iff]
          intro habsolute
          obtain ⟨q, -, hq⟩ := Path.eq_root_of_isAbsolute habsolute
          have hempty := congrArg String.toList (List.cons.inj hq).1
          rw [String.toList_ofList] at hempty
          exact absurd hempty (List.cons_ne_nil _ _)
        cases piecesOf '/' chars with
        | nil =>
            rw [List.map_cons, hfirst]
            simpa using hhead
        | cons piece pieces =>
            rw [List.map_cons, hfirst]
            simpa using hhead

/-- Trimming an absolute spelling trims its end. -/
theorem trim_spelling {root : String} (hroot : (Path.new root).isAbsolute = true) (r : String) :
    trim (root ++ "/" ++ r) = root ++ "/" ++ trimEnd r := by
  apply String.toList_injective
  rw [isAbsolute_new] at hroot
  have hstart : (root ++ "/" ++ r).toList.dropWhile isWhitespace = (root ++ "/" ++ r).toList := by
    cases hchars : root.toList with
    | nil => rw [hchars] at hroot; exact absurd hroot (Option.some_ne_none _).symm
    | cons ch chars =>
        rw [hchars] at hroot
        obtain rfl : ch = '/' := Option.some.inj hroot
        rw [String.toList_append, String.toList_append, hchars]
        rfl
  have hsplit : (root ++ "/" ++ r).toList = root.toList ++ '/' :: r.toList := by simp
  rw [toList_trim, hstart, hsplit, rdropWhile_append_cons _ _ (by decide), String.toList_append,
    String.toList_append, toList_trimEnd]
  simp

/-- The end-trimmed text is the trimmed one behind whitespace. -/
theorem exists_whitespace (text : String) : ∃ front, (∀ ch ∈ front, isWhitespace ch = true) ∧
    (trimEnd text).toList = front ++ (trim text).toList := by
  rw [toList_trimEnd, toList_trim]
  have hsplit := List.takeWhile_append_dropWhile (p := isWhitespace) (l := text.toList)
  cases hrest : text.toList.dropWhile isWhitespace with
  | nil =>
      refine ⟨[], by simp, ?_⟩
      rw [hrest, List.append_nil] at hsplit
      show text.toList.rdropWhile isWhitespace = []
      rw [List.rdropWhile_eq_nil_iff, ← hsplit]
      exact fun ch hch => List.mem_takeWhile_imp hch
  | cons ch rest =>
      have hch : isWhitespace ch = false := by
        have hne : text.toList.dropWhile isWhitespace ≠ [] := by
          rw [hrest]
          exact List.cons_ne_nil _ _
        have hhead := List.head_dropWhile_not isWhitespace hne
        simp only [hrest, List.head_cons] at hhead
        exact hhead
      refine ⟨text.toList.takeWhile isWhitespace, fun c hc => List.mem_takeWhile_imp hc, ?_⟩
      rw [hrest] at hsplit
      have hdrop : (ch :: rest).rdropWhile isWhitespace = ch :: rest.rdropWhile isWhitespace :=
        rdropWhile_append_cons [] rest hch
      rw [← hsplit, rdropWhile_append_cons _ _ hch, hdrop, hsplit]

/-! ## The absolute spelling -/

variable {fs : FileSystem} {root r : String} {q names : Path}

theorem isEmpty_trimStart (p : Path) : p.trimStart.isEmpty = decide (p.trimStart = []) := by
  cases h : p.trimStart with
  | nil => rfl
  | cons piece rest =>
      have hkept := Path.isSkipped_of_trimStart h
      have hne : piece ≠ "" := by
        rintro rfl
        exact absurd hkept (by decide)
      simp [Path.isEmpty, hne]

/-- The absolute spelling under the root gives what it spells. -/
theorem stripBase_spelling (hroot : (Path.new root).isAbsolute = true) (r : String) :
    (Path.new (root ++ "/" ++ trimEnd r)).isAbsolute = true ∧
      (Path.new (root ++ "/" ++ trimEnd r)).stripBase (Path.new root) = some (spelledPath r) := by
  obtain ⟨q, hq, hpieces⟩ := Path.eq_root_of_isAbsolute hroot
  have hnew : Path.new (root ++ "/" ++ trimEnd r) = "" :: (q ++ Path.new (trimEnd r)) := by
    rw [Path.new_append, hpieces]
    rfl
  have hne : q ++ Path.new (trimEnd r) ≠ [] := by simp [hq]
  rw [hnew, hpieces]
  refine ⟨?_, Path.stripBase_root rfl hne hq⟩
  rw [Path.isAbsolute, Path.start_root hne]
  rfl

theorem normalizeCandidate_absolute (fs : FileSystem) (context : FileTouchContext) (r : String)
    (hallowed : ¬AbsoluteRefused context.repoRoot r) :
    normalizeCandidate fs context (context.repoRoot ++ "/" ++ r) =
      if fs.isDir ((Path.new context.repoRoot).join (spelledPath r)) then none
      else some (spelledPath r) := by
  obtain ⟨habsolute, hstrip⟩ := stripBase_spelling context.absolute r
  unfold AbsoluteRefused at hallowed
  rw [not_or] at hallowed
  have hempty : (spelledPath r).isEmpty = false := by
    unfold spelledPath
    rw [isEmpty_trimStart]
    exact decide_eq_false hallowed.2
  unfold normalizeCandidate
  simp only
  rw [trim_spelling context.absolute, if_neg hallowed.1, if_pos habsolute, hstrip]
  simp only
  rw [hempty, if_neg Bool.false_ne_true]

theorem normalizeCandidate_absolute_refused (fs : FileSystem) (context : FileTouchContext)
    (r : String) (hrefused : AbsoluteRefused context.repoRoot r) :
    normalizeCandidate fs context (context.repoRoot ++ "/" ++ r) = none := by
  obtain ⟨habsolute, hstrip⟩ := stripBase_spelling context.absolute r
  unfold normalizeCandidate
  simp only
  rw [trim_spelling context.absolute]
  rcases hrefused with htext | hspelled
  · rw [if_pos htext]
  · rw [if_pos habsolute, hstrip, hspelled]
    by_cases htext : refusedText (context.repoRoot ++ "/" ++ trimEnd r) = true
    · rw [if_pos htext]
    · rw [if_neg htext]
      rfl

/-! ## Walking -/

/-- The names that a walk leaves behind the root. -/
def stackWalk : List String → List Path.Component → Option (List String)
  | names, [] => some names
  | names, .curDir :: components => stackWalk names components
  | names, .normal name :: components => stackWalk (names ++ [name]) components
  | names, .parentDir :: components =>
      if names = [] then none else stackWalk names.dropLast components
  | _, .rootDir :: _ => none

/-- The names among some components. -/
def namesIn (components : List Path.Component) : List String :=
  components.filterMap fun c => match c with
    | .normal name => some name
    | _ => none

/-- Behind an absolute path a walk moves as on its stack of names. -/
theorem walk_under (hq : q ≠ []) {current : Path} (h : Path.Under q names current)
    (hnames : ∀ piece ∈ names, Path.IsName piece) (components : List Path.Component)
    (hcomponents : ∀ piece ∈ namesIn components, Path.IsName piece) :
    match stackWalk names components with
    | none => walk ("" :: q) current components = none
    | some names' => ∃ current', walk ("" :: q) current components = some current' ∧
        Path.Under q names' current' ∧ ∀ piece ∈ names', Path.IsName piece := by
  induction components generalizing names current with
  | nil => exact ⟨current, rfl, h, hnames⟩
  | cons c components ih =>
      cases c with
      | rootDir => rfl
      | curDir => exact ih h hnames hcomponents
      | normal name =>
          have hname : Path.IsName name := hcomponents name List.mem_cons_self
          have hrest : ∀ piece ∈ namesIn components, Path.IsName piece :=
            fun piece hpiece => hcomponents piece (List.mem_cons_of_mem name hpiece)
          refine ih (h.join hnames hname) ?_ hrest
          intro piece hpiece
          rcases List.mem_append.mp hpiece with hold | hnew
          · exact hnames piece hold
          · rw [List.mem_singleton.mp hnew]
            exact hname
      | parentDir =>
          have htop := h.components_eq_iff hnames hq
          rw [stackWalk, walk]
          by_cases hempty : names = []
          · rw [if_pos hempty, if_pos (htop.mpr hempty)]
          · obtain ⟨current', hpop, hunder⟩ := h.pop hnames hempty
            rw [if_neg hempty, if_neg fun heq => hempty (htop.mp heq), hpop, Option.bind_some]
            exact ih hunder (fun piece hpiece => hnames piece (List.dropLast_subset _ hpiece))
              hcomponents

/-- The names left are names from below and from the walk, in order. -/
theorem stackWalk_sublist {names names' : List String} {components : List Path.Component}
    (h : stackWalk names components = some names') :
    names'.Sublist (names ++ namesIn components) := by
  induction components generalizing names with
  | nil =>
      obtain rfl := Option.some.inj h
      exact List.sublist_append_left _ _
  | cons c components ih =>
      cases c with
      | rootDir => exact absurd h (Option.some_ne_none names').symm
      | curDir => exact ih h
      | normal name =>
          have hsub := ih h
          rw [List.append_assoc] at hsub
          exact hsub
      | parentDir =>
          rw [stackWalk] at h
          by_cases hempty : names = []
          · rw [if_pos hempty] at h
            exact absurd h (Option.some_ne_none names').symm
          · rw [if_neg hempty] at h
            exact (ih h).trans ((List.dropLast_sublist names).append_right _)

/-- From far enough below no walk leaves the root. -/
theorem exists_stackWalk {names : List String} {components : List Path.Component}
    (hroot : Path.Component.rootDir ∉ components) (hdeep : components.length < names.length) :
    ∃ names', stackWalk names components = some names' ∧ names' ≠ [] := by
  induction components generalizing names with
  | nil =>
      refine ⟨names, rfl, ?_⟩
      rintro rfl
      exact absurd hdeep (Nat.lt_irrefl 0)
  | cons c components ih =>
      rw [List.length_cons] at hdeep
      have hrest : Path.Component.rootDir ∉ components :=
        fun hmem => hroot (List.mem_cons_of_mem c hmem)
      cases c with
      | rootDir => exact absurd List.mem_cons_self hroot
      | curDir => exact ih hrest (by omega)
      | normal name =>
          refine ih hrest ?_
          rw [List.length_append]
          omega
      | parentDir =>
          have hne : names ≠ [] := by
            rintro rfl
            simp at hdeep
          rw [stackWalk, if_neg hne]
          refine ih hrest ?_
          rw [List.length_dropLast]
          omega

/-- Names are pushed one after the other. -/
theorem stackWalk_names (names more : List String) :
    stackWalk names (more.map .normal) = some (names ++ more) := by
  induction more generalizing names with
  | nil => rw [List.append_nil]; rfl
  | cons name more ih =>
      rw [List.map_cons, stackWalk, ih, List.append_assoc]
      rfl

/-! ## The relative spelling -/

theorem isName_of_mem_namesIn {p : Path} {piece : String} (h : piece ∈ namesIn p.components) :
    Path.IsName piece := by
  obtain ⟨c, hc, hname⟩ := List.mem_filterMap.mp h
  rcases List.mem_append.mp hc with hstart | hbody
  · -- what a path starts with is no name
    rw [Option.mem_toList] at hstart
    unfold Path.start at hstart
    split at hstart <;> cases hstart <;> cases hname
  · obtain ⟨piece', hmem, rfl⟩ := List.mem_map.mp hbody
    have hkept : Path.isSkipped piece' = false := by simpa using (List.mem_filter.mp hmem).2
    unfold Path.component at hname
    by_cases hparent : piece' = ".."
    · rw [if_pos hparent] at hname
      exact absurd hname (Option.some_ne_none piece).symm
    · rw [if_neg hparent] at hname
      obtain rfl := Option.some.inj hname
      exact ⟨hkept, hparent⟩

theorem rootDir_notMem {p : Path} (h : p.isAbsolute = false) :
    Path.Component.rootDir ∉ p.components := by
  intro hmem
  rcases List.mem_append.mp hmem with hstart | hbody
  · rw [Option.mem_toList] at hstart
    exact absurd hstart (of_decide_eq_false h)
  · obtain ⟨piece, -, hpiece⟩ := List.mem_map.mp hbody
    unfold Path.component at hpiece
    split at hpiece <;> cases hpiece

theorem components_names (hnames : ∀ piece ∈ names, Path.IsName piece) :
    names.isAbsolute = false ∧ names.components = names.map .normal := by
  have hstart : Path.start names = (none, names) := by
    cases names with
    | nil => rfl
    | cons piece names => exact Path.start_of_kept (hnames piece List.mem_cons_self).kept
  rw [Path.isAbsolute, Path.components, hstart, Path.body_of_names hnames]
  exact ⟨rfl, rfl⟩

/-- Names that lead nowhere else are resolved, to themselves. -/
theorem resolveInRepo_names {repoRoot : Path} (hnames : ∀ piece ∈ names, Path.IsName piece)
    (hne : names ≠ []) (hinside : LeadsInside fs repoRoot names) :
    (resolveInRepo fs repoRoot names).toOption.map Prod.snd = some names := by
  obtain ⟨habsolute, hcomponents⟩ := components_names hnames
  have hfind : (names.components.find? fun c => c = .parentDir ∨ c = .rootDir) = none := by
    rw [hcomponents, List.find?_eq_none]
    intro c hc
    obtain ⟨name, -, rfl⟩ := List.mem_map.mp hc
    simp
  have htarget : ¬(names.isEmpty = true ∨ names = ["."]) := by
    rintro (hempty | rfl)
    · rcases of_decide_eq_true hempty with hnil | rfl
      · exact hne hnil
      · exact absurd (hnames "" (by simp)).kept (by decide)
    · exact absurd (hnames "." (by simp)).kept (by decide)
  unfold resolveInRepo
  rw [habsolute, hfind]
  simp only [Bool.false_eq_true, if_false, htarget]
  by_cases hexists : fs.pathExists (repoRoot.join names) = true
  · obtain ⟨rootReal, targetReal, hroot, htargetReal, hstarts⟩ := hinside hexists
    rw [if_pos hexists, hroot, htargetReal]
    simp [bind, Except.bind, pure, Except.pure, hstarts, Except.toOption]
  · rw [if_neg hexists]
    rfl

/-- What resolves was asked for; it has no parent in it, and leads nowhere else. -/
theorem resolveInRepo_ok {repoRoot rel : Path} {resolved : Path × Path}
    (h : resolveInRepo fs repoRoot rel = .ok resolved) :
    resolved.2 = rel ∧ Path.Component.parentDir ∉ rel.components ∧
      (rel.isEmpty = false → rel ≠ ["."] → LeadsInside fs repoRoot rel) := by
  unfold resolveInRepo at h
  by_cases habsolute : rel.isAbsolute = true
  · rw [if_pos habsolute] at h
    cases h
  rw [if_neg habsolute] at h
  cases hfind : rel.components.find? fun c => c = .parentDir ∨ c = .rootDir with
  | some c =>
      rw [hfind] at h
      cases c <;> cases h
  | none =>
      have hparent : Path.Component.parentDir ∉ rel.components := by
        intro hmem
        have hnone := List.find?_eq_none.mp hfind _ hmem
        simp at hnone
      rw [hfind] at h
      simp only [bind, Except.bind, pure, Except.pure] at h
      by_cases hexists : fs.pathExists
          (if rel.isEmpty ∨ rel = ["."] then repoRoot else repoRoot.join rel) = true
      · rw [if_pos hexists] at h
        split at h
        · cases h
        · rename_i rootReal hroot
          split at h
          · cases h
          · rename_i targetReal htarget
            by_cases hstarts : targetReal.startsWith rootReal = true
            · simp only [hstarts, Bool.not_true, Bool.false_eq_true, if_false] at h
              obtain rfl := Except.ok.inj h
              refine ⟨rfl, hparent, fun hempty hdot _ => ?_⟩
              rw [if_neg (by simp [hempty, hdot])] at htarget
              exact ⟨rootReal, targetReal, hroot, htarget, hstarts⟩
            · simp only [hstarts, Bool.not_false, if_true] at h
              cases h
      · rw [if_neg hexists] at h
        obtain rfl := Except.ok.inj h
        refine ⟨rfl, hparent, fun hempty hdot hjoin => ?_⟩
        rw [if_neg (by simp [hempty, hdot])] at hexists
        exact absurd hjoin hexists

/-- What a relative candidate gives is there, has no parent in it, and leads nowhere else. -/
theorem normalizeRelativeCandidate_some {repoRoot base rel : Path} {candidate : String}
    (h : normalizeRelativeCandidate fs repoRoot base candidate = some rel) :
    rel.isEmpty = false ∧ Path.Component.parentDir ∉ rel.components ∧
      (rel ≠ ["."] → LeadsInside fs repoRoot rel) ∧
      ∃ current : Path, current.stripBase repoRoot = some rel := by
  unfold normalizeRelativeCandidate at h
  cases hwalk : walk repoRoot base (Path.new candidate).components with
  | none =>
      rw [hwalk] at h
      cases h
  | some current =>
      rw [hwalk] at h
      simp only at h
      by_cases hstarts : current.startsWith repoRoot = true
      · rw [if_pos hstarts] at h
        cases hstrip : current.stripBase repoRoot with
        | none =>
            rw [hstrip] at h
            cases h
        | some rel' =>
            rw [hstrip] at h
            simp only at h
            by_cases hempty : rel'.isEmpty = true
            · rw [if_pos hempty] at h
              cases h
            · rw [if_neg hempty] at h
              cases hresolve : resolveInRepo fs repoRoot rel' with
              | error text =>
                  rw [hresolve] at h
                  cases h
              | ok resolved =>
                  rw [hresolve] at h
                  obtain ⟨hsame, hparent, hinside⟩ := resolveInRepo_ok hresolve
                  obtain rfl : rel' = rel := by
                    rw [← hsame]
                    exact Option.some.inj h
                  have hkept : Path.isEmpty rel' = false := by simpa using hempty
                  exact ⟨hkept, hparent, hinside hkept, current, hstrip⟩
      · rw [if_neg hstarts] at h
        cases h

/-- Behind the root a relative candidate gives the names that its walk leaves. -/
theorem normalizeRelativeCandidate_under {candidate : String} {base : Path} (hq : q ≠ [])
    (h : Path.Under q names base) (hnames : ∀ piece ∈ names, Path.IsName piece)
    (hinside : ∀ names', stackWalk names (Path.new candidate).components = some names' →
      LeadsInside fs ("" :: q) names') :
    normalizeRelativeCandidate fs ("" :: q) base candidate =
      (stackWalk names (Path.new candidate).components).filter
        fun names' => decide (names' ≠ []) := by
  have hwalk := walk_under hq h hnames (Path.new candidate).components
    fun piece hpiece => isName_of_mem_namesIn hpiece
  unfold normalizeRelativeCandidate
  cases hstack : stackWalk names (Path.new candidate).components with
  | none =>
      rw [hstack] at hwalk
      rw [hwalk]
      rfl
  | some names' =>
      rw [hstack] at hwalk
      obtain ⟨current', hcurrent, hunder, hnames'⟩ := hwalk
      have hstrip := hunder.stripBase hnames' hq
      have hstarts : current'.startsWith ("" :: q) = true := by
        rw [Path.startsWith, hstrip]
        rfl
      rw [hcurrent]
      simp only
      rw [if_pos hstarts, hstrip]
      simp only
      by_cases hempty : names' = []
      · rw [hempty]
        rfl
      · have hkept : Path.isEmpty names' = false := by
          apply decide_eq_false
          rintro (hnil | rfl)
          · exact hempty hnil
          · have hname := hnames' "" (List.mem_singleton_self _)
            exact absurd hname.kept (by decide)
        rw [hkept, if_neg Bool.false_ne_true,
          resolveInRepo_names hnames' hempty (hinside names' hstack)]
        have hkeep : decide (names' ≠ []) = true := decide_eq_true hempty
        rw [Option.filter_some, if_pos hkeep]

/-! ## What a candidate gives -/

/-- Where a candidate that is no refused text leads. -/
theorem normalizeCandidate_eq_some_iff {context : FileTouchContext} {raw : String} {rel : Path} :
    normalizeCandidate fs context raw = some rel ↔
      refusedText (trim raw) = false ∧
        (if (Path.new (trim raw)).isAbsolute then
            (Path.new (trim raw)).stripBase (Path.new context.repoRoot)
          else if endsWith (trim raw) "/" then none
          else
            (normalizeRelativeCandidate fs (Path.new context.repoRoot)
              (Path.new context.repoRoot) (trim raw)).or
              (normalizeRelativeCandidate fs (Path.new context.repoRoot)
                (Path.new context.workingDir) (trim raw))) = some rel ∧
        rel.isEmpty = false ∧ fs.isDir ((Path.new context.repoRoot).join rel) = false := by
  unfold normalizeCandidate
  simp only
  by_cases htext : refusedText (trim raw) = true
  · rw [if_pos htext, htext]
    simp
  · have hallowed : refusedText (trim raw) = false := by simpa using htext
    rw [if_neg htext, hallowed, eq_self, true_and]
    generalize (if (Path.new (trim raw)).isAbsolute then _ else _ : Option Path) = found
    cases found with
    | none => simp
    | some rel' =>
        simp only
        by_cases hempty : rel'.isEmpty = true
        · rw [if_pos hempty]
          constructor
          · intro h
            cases h
          · rintro ⟨hrel, hkept, -⟩
            obtain rfl := Option.some.inj hrel
            rw [hempty] at hkept
            cases hkept
        · rw [if_neg hempty]
          by_cases hdir : fs.isDir ((Path.new context.repoRoot).join rel') = true
          · rw [if_pos hdir]
            constructor
            · intro h
              cases h
            · rintro ⟨hrel, -, hfile⟩
              obtain rfl := Option.some.inj hrel
              rw [hdir] at hfile
              cases hfile
          · rw [if_neg hdir]
            constructor
            · intro h
              obtain rfl := Option.some.inj h
              exact ⟨rfl, by simpa using hempty, by simpa using hdir⟩
            · rintro ⟨hrel, -, -⟩
              exact hrel

/-! ## Staying inside -/

/-- Of what is left behind the root only parents are no names. -/
theorem normalOnly_iff {p base rel : Path} (hbase : base.isAbsolute = true)
    (h : p.stripBase base = some rel) :
    rel.NormalOnly ↔ Path.Component.parentDir ∉ rel.components := by
  obtain ⟨rest, rfl, -⟩ := Path.exists_of_stripBase hbase h
  rw [Path.normalOnly_trimStart_iff, Path.components_trimStart]

/-- **A candidate leads out of the repository only by an absolute spelling.** -/
theorem stays_inside_iff (fs : FileSystem) (context : FileTouchContext) (raw : String) :
    StaysInside fs context raw ↔ ¬Escapes fs context raw := by
  constructor
  · rintro hinside ⟨htext, habsolute, rel, hstrip, hparent, hfile⟩
    have hempty : rel.isEmpty = false := by
      apply decide_eq_false
      rintro (rfl | rfl)
      · exact absurd hparent List.not_mem_nil
      · exact absurd hparent List.not_mem_nil
    have hgiven : normalizeCandidate fs context raw = some rel := by
      rw [normalizeCandidate_eq_some_iff, if_pos habsolute]
      exact ⟨htext, hstrip, hempty, hfile⟩
    exact (normalOnly_iff context.absolute hstrip).mp (hinside rel hgiven) hparent
  · intro hescapes rel hgiven
    rw [normalizeCandidate_eq_some_iff] at hgiven
    obtain ⟨htext, hrel, -, hfile⟩ := hgiven
    by_cases habsolute : (Path.new (trim raw)).isAbsolute = true
    · rw [if_pos habsolute] at hrel
      rw [normalOnly_iff context.absolute hrel]
      exact fun hparent => hescapes ⟨htext, habsolute, rel, hrel, hparent, hfile⟩
    · rw [if_neg habsolute] at hrel
      by_cases hslash : endsWith (trim raw) "/" = true
      · rw [if_pos hslash] at hrel
        cases hrel
      · rw [if_neg hslash, Option.or_eq_some_iff] at hrel
        -- from the root or from the working directory
        rcases hrel with hrel | ⟨-, hrel⟩
        · obtain ⟨-, hparent, -, current, hstrip⟩ := normalizeRelativeCandidate_some hrel
          exact (normalOnly_iff context.absolute hstrip).mpr hparent
        · obtain ⟨-, hparent, -, current, hstrip⟩ := normalizeRelativeCandidate_some hrel
          exact (normalOnly_iff context.absolute hstrip).mpr hparent

/-! ## The two spellings -/

theorem normalizeCandidate_relative_refused (fs : FileSystem) (context : FileTouchContext)
    (hrefused : RelativeRefused context.repoRoot r) : normalizeCandidate fs context r = none := by
  rw [Option.eq_none_iff_forall_not_mem]
  intro rel hrel
  obtain ⟨htext, hfound, hempty, -⟩ := normalizeCandidate_eq_some_iff.mp hrel
  rcases hrefused with hrefused | hrefused
  · rw [hrefused] at htext
    cases htext
  · by_cases habsolute : (Path.new (trim r)).isAbsolute = true
    · rw [if_pos habsolute] at hrefused hfound
      rw [hfound, Option.all_some, hempty] at hrefused
      cases hrefused
    · rw [if_neg habsolute] at hrefused hfound
      rw [if_pos hrefused] at hfound
      cases hfound

/-- A relative path is not absolute for whitespace behind it. -/
theorem isAbsolute_trimEnd (hr : (Path.new r).isAbsolute = false) :
    (Path.new (trimEnd r)).isAbsolute = false := by
  rw [Bool.eq_false_iff, Ne, isAbsolute_new] at hr ⊢
  intro hhead
  apply hr
  rw [toList_trimEnd] at hhead
  obtain ⟨back, hback⟩ := List.rdropWhile_prefix isWhitespace r.toList
  rw [← hback, List.head?_append, hhead]
  rfl

/-- The components of a path that is spelled as it is normalised are the names it spells. -/
theorem stackWalk_plain (hplain : Plain root r) (hr : (Path.new r).isAbsolute = false) :
    (Path.new (trim r)).isAbsolute = false ∧
      stackWalk [] (Path.new (trim r)).components = some (spelledPath r) := by
  rw [← hplain.trimmed]
  have hrelative := isAbsolute_trimEnd hr
  refine ⟨hrelative, ?_⟩
  have hbody : (Path.new (trimEnd r)).body = (spelledPath r).map .normal := by
    rw [← Path.body_of_names hplain.names, spelledPath, Path.body_trimStart, Path.body_trimEnd]
  rcases Path.components_of_relative hrelative with hcomponents | hcomponents
  · rw [hcomponents, hbody, stackWalk_names, List.nil_append]
  · have hdot (cs : List Path.Component) :
        stackWalk [] (.curDir :: cs) = stackWalk [] cs := rfl
    rw [hcomponents, hbody, hdot, stackWalk_names, List.nil_append]

/-- The relative spelling of such a path gives what the absolute one does. -/
theorem normalizeCandidate_plain (fs : FileSystem) (context : FileTouchContext)
    (hplain : Plain context.repoRoot r) (hr : (Path.new r).isAbsolute = false)
    (hinside : LeadsInside fs (Path.new context.repoRoot) (spelledPath r)) :
    SpelledAlike fs context r := by
  obtain ⟨q, hq, hroot⟩ := Path.eq_root_of_isAbsolute context.absolute
  obtain ⟨hrelative, hwalk⟩ := stackWalk_plain hplain hr
  have hspelled : spelledPath r ≠ [] := fun hnil => hplain.absolute (Or.inr hnil)
  have hfromRoot : normalizeRelativeCandidate fs (Path.new context.repoRoot)
      (Path.new context.repoRoot) (trim r) = some (spelledPath r) := by
    rw [hroot] at hinside ⊢
    rw [normalizeRelativeCandidate_under hq (Path.Under.root hq) (by simp), hwalk]
    · exact Option.filter_eq_some_iff.mpr ⟨rfl, decide_eq_true hspelled⟩
    · intro names hnames
      obtain rfl := Option.some.inj (hwalk.symm.trans hnames)
      exact hinside
  unfold SpelledAlike
  rw [normalizeCandidate_absolute fs context r hplain.absolute]
  unfold normalizeCandidate
  simp only
  rw [hplain.text, hrelative, hplain.slash, hfromRoot]
  have hempty : (spelledPath r).isEmpty = false := by
    unfold spelledPath at hspelled ⊢
    rw [isEmpty_trimStart]
    exact decide_eq_false hspelled
  simp [hempty]

/-! ## A candidate where nothing is there -/

/-- A file system with nothing in it. -/
def emptyFiles : FileSystem where
  isDir := fun _ => false
  pathExists := fun _ => false
  canonicalize := fun _ => .error "no such file"

theorem emptyFiles_leadsInside (root rel : Path) : LeadsInside emptyFiles root rel :=
  fun hexists => absurd hexists Bool.false_ne_true

/-- A directory so many levels under the root. -/
def deep (root : String) : Nat → String
  | 0 => root
  | levels + 1 => deep root levels ++ "/" ++ "x"

theorem new_deep (root : String) (levels : Nat) :
    Path.new (deep root levels) = Path.new root ++ List.replicate levels "x" := by
  induction levels with
  | zero => simp [deep]
  | succ levels ih =>
      rw [deep, Path.new_append, ih, List.append_assoc, List.replicate_succ']
      rfl

theorem normalizeCandidate_relative {context : FileTouchContext} {rel : Path}
    (htext : refusedText (trim r) = false) (hrelative : (Path.new (trim r)).isAbsolute = false)
    (hslash : endsWith (trim r) "/" = false)
    (hfound : (normalizeRelativeCandidate fs (Path.new context.repoRoot)
      (Path.new context.repoRoot) (trim r)).or
        (normalizeRelativeCandidate fs (Path.new context.repoRoot) (Path.new context.workingDir)
          (trim r)) = some rel)
    (hfile : fs.isDir ((Path.new context.repoRoot).join rel) = false) :
    normalizeCandidate fs context r = some rel := by
  rw [normalizeCandidate_eq_some_iff, hrelative, if_neg Bool.false_ne_true, hslash,
    if_neg Bool.false_ne_true]
  refine ⟨htext, hfound, ?_, hfile⟩
  rcases Option.or_eq_some_iff.mp hfound with hfound | ⟨-, hfound⟩
  · exact (normalizeRelativeCandidate_some hfound).1
  · exact (normalizeRelativeCandidate_some hfound).1

/-- A relative candidate that is not refused gives a path in some working directory. -/
theorem exists_given (habsolute : (Path.new root).isAbsolute = true)
    (hallowed : ¬RelativeRefused root r) :
    ∃ workingDir, normalizeCandidate emptyFiles ⟨root, workingDir, habsolute⟩ r ≠ none := by
  unfold RelativeRefused at hallowed
  rw [not_or, Bool.not_eq_true] at hallowed
  obtain ⟨htext, hallowed⟩ := hallowed
  by_cases hleading : (Path.new (trim r)).isAbsolute = true
  · rw [if_pos hleading] at hallowed
    refine ⟨root, ?_⟩
    cases hstrip : (Path.new (trim r)).stripBase (Path.new root) with
    | none =>
        rw [hstrip] at hallowed
        exact absurd rfl hallowed
    | some rel =>
        rw [hstrip, Option.all_some, Bool.not_eq_true] at hallowed
        have hgiven : normalizeCandidate emptyFiles ⟨root, root, habsolute⟩ r = some rel := by
          rw [normalizeCandidate_eq_some_iff, if_pos hleading]
          exact ⟨htext, hstrip, hallowed, rfl⟩
        rw [hgiven]
        exact Option.some_ne_none rel
  · rw [if_neg hleading, Bool.not_eq_true] at hallowed
    have hrelative : (Path.new (trim r)).isAbsolute = false := by simpa using hleading
    obtain ⟨q, hq, hroot⟩ := Path.eq_root_of_isAbsolute habsolute
    -- deeper than the candidate has components
    obtain ⟨levels, hlevels⟩ : ∃ levels, (Path.new (trim r)).components.length < levels :=
      ⟨_, Nat.lt_succ_self _⟩
    have hx : ∀ piece ∈ List.replicate levels "x", Path.IsName piece := by
      intro piece hpiece
      rw [List.eq_of_mem_replicate hpiece]
      exact ⟨by decide, by decide⟩
    have hunder : Path.Under q (List.replicate levels "x") (Path.new (deep root levels)) := by
      refine ⟨q, rfl, by simp [hq], ?_⟩
      rw [new_deep, hroot]
      rfl
    have hlength : (Path.new (trim r)).components.length < (List.replicate levels "x").length := by
      rwa [List.length_replicate]
    obtain ⟨names, hwalk, hne⟩ := exists_stackWalk (rootDir_notMem hrelative) hlength
    have hdeep : normalizeRelativeCandidate emptyFiles (Path.new root)
        (Path.new (deep root levels)) (trim r) = some names := by
      rw [hroot, normalizeRelativeCandidate_under hq hunder hx
        fun names' _ => emptyFiles_leadsInside _ names', hwalk]
      exact Option.filter_eq_some_iff.mpr ⟨rfl, decide_eq_true hne⟩
    refine ⟨deep root levels, ?_⟩
    cases hfirst : normalizeRelativeCandidate emptyFiles (Path.new root) (Path.new root)
        (trim r) with
    | some rel =>
        have hgiven : normalizeCandidate emptyFiles ⟨root, deep root levels, habsolute⟩ r =
            some rel := by
          refine normalizeCandidate_relative htext hrelative hallowed ?_ rfl
          rw [hfirst, Option.some_or]
        rw [hgiven]
        exact Option.some_ne_none rel
    | none =>
        have hgiven : normalizeCandidate emptyFiles ⟨root, deep root levels, habsolute⟩ r =
            some names := by
          refine normalizeCandidate_relative htext hrelative hallowed ?_ rfl
          rw [hfirst, Option.none_or]
          exact hdeep
        rw [hgiven]
        exact Option.some_ne_none names

/-! ## Whitespace in front -/

theorem isName_of_whitespace {front : List Char} (hne : front ≠ [])
    (hfront : ∀ ch ∈ front, isWhitespace ch = true) (chars : List Char) :
    Path.IsName (String.ofList (front ++ chars)) := by
  cases front with
  | nil => exact absurd rfl hne
  | cons ch front =>
      have hch : isWhitespace ch = true := hfront ch List.mem_cons_self
      have hdot (rest : List Char) : String.ofList (ch :: front ++ chars) ≠
          String.ofList ('.' :: rest) := by
        intro heq
        have hchars := congrArg String.toList heq
        rw [String.toList_ofList, String.toList_ofList] at hchars
        rw [(List.cons.inj hchars).1] at hch
        exact absurd hch (by decide)
      have hempty : String.ofList (ch :: front ++ chars) ≠ "" := by
        intro heq
        have hchars := congrArg String.toList heq
        rw [String.toList_ofList] at hchars
        exact absurd hchars (List.cons_ne_nil _ _)
      constructor
      · apply decide_eq_false
        rintro (heq | heq)
        · exact hempty heq
        · exact hdot [] heq
      · exact hdot ['.']

/-- Whitespace in front is part of the first name that the absolute spelling names. -/
theorem body_spelledPath (hspaced : trimEnd r ≠ trim r) : ∃ front piece pieces, front ≠ [] ∧
    Path.new (trim r) = String.ofList piece :: pieces ∧
      (spelledPath r).body = .normal (String.ofList (front ++ piece)) :: Path.body pieces := by
  obtain ⟨front, hfront, htext⟩ := exists_whitespace r
  have hne : front ≠ [] := by
    rintro rfl
    rw [List.nil_append] at htext
    exact hspaced (String.toList_injective htext)
  have hslash : '/' ∉ front := by
    intro hmem
    have hwhite : isWhitespace '/' = false := by decide
    rw [hfront '/' hmem] at hwhite
    cases hwhite
  obtain ⟨piece, pieces, hpieces, happend⟩ :=
    Path.piecesOf_append_of_notMem hslash (trim r).toList
  refine ⟨front, piece, pieces.map String.ofList, hne, ?_, ?_⟩
  · unfold Path.new splitChar
    rw [hpieces, List.map_cons]
  · have hname := isName_of_whitespace hne hfront piece
    have hnew : Path.new (trimEnd r) =
        String.ofList (front ++ piece) :: pieces.map String.ofList := by
      unfold Path.new splitChar
      rw [htext, happend, List.map_cons]
    rw [spelledPath, Path.body_trimStart, Path.body_trimEnd, hnew,
      Path.body_cons_of_kept hname.kept, hname.component]

theorem namesIn_length (components : List Path.Component) :
    (namesIn components).length ≤ components.length := List.length_filterMap_le _ _

/-- What an absolute text names under the root is not what whitespace in front of it makes a name
of. -/
theorem stripBase_ne_spelledPath (habsolute : (Path.new root).isAbsolute = true)
    (hr : (Path.new r).isAbsolute = false) (hleading : (Path.new (trim r)).isAbsolute = true) :
    (Path.new (trim r)).stripBase (Path.new root) ≠ some (spelledPath r) := by
  intro hstrip
  have hspaced : trimEnd r ≠ trim r := by
    intro heq
    have hrelative := isAbsolute_trimEnd hr
    rw [heq, hleading] at hrelative
    cases hrelative
  obtain ⟨front, piece, pieces, -, hnew, hbody⟩ := body_spelledPath hspaced
  obtain ⟨rest, hrest, hlength⟩ := Path.exists_of_stripBase habsolute hstrip
  obtain ⟨q, hq, hroot⟩ := Path.eq_root_of_isAbsolute hleading
  obtain rfl : pieces = q := (List.cons.inj (hnew.symm.trans hroot)).2
  rw [hroot, Path.start_root hq] at hlength
  rw [hrest, Path.body_trimStart, Path.body_trimEnd] at hbody
  rw [hbody, List.length_cons] at hlength
  exact absurd hlength (Nat.not_succ_le_self _)

/-- What a relative candidate gives in the root is not that either. -/
theorem trimEnd_of_stackWalk (hrelative : (Path.new (trim r)).isAbsolute = false)
    (hwalk : stackWalk [] (Path.new (trim r)).components = some (spelledPath r))
    (hnames : ∀ piece ∈ spelledPath r, Path.IsName piece) : trimEnd r = trim r := by
  by_contra hspaced
  obtain ⟨front, piece, pieces, hfront, hnew, hbody⟩ := body_spelledPath hspaced
  have hsub := stackWalk_sublist hwalk
  rw [List.nil_append] at hsub
  have hnamesIn : namesIn (Path.new (trim r)).components = namesIn (Path.new (trim r)).body := by
    rcases Path.components_of_relative hrelative with hcomponents | hcomponents
    · rw [hcomponents]
    · have hdot (cs : List Path.Component) : namesIn (.curDir :: cs) = namesIn cs := rfl
      rw [hcomponents, hdot]
  rw [hnamesIn, hnew] at hsub
  -- the absolute spelling names one more than what is behind the first piece
  have hspelled : spelledPath r ≠ [] := by
    intro hnil
    rw [hnil] at hbody
    cases hbody
  have hlength : (spelledPath r).length = (Path.body pieces).length + 1 := by
    rw [← List.length_map Path.Component.normal, ← Path.body_of_names hnames, hbody,
      List.length_cons]
  have hshort : ¬(spelledPath r).Sublist (namesIn (Path.body pieces)) := by
    intro hless
    have hle := hless.length_le.trans (namesIn_length _)
    omega
  by_cases hskipped : Path.isSkipped (String.ofList piece) = true
  · rw [Path.body_cons_of_skipped hskipped] at hsub
    exact hshort hsub
  · rw [Path.body_cons_of_kept (by simpa using hskipped)] at hsub
    unfold Path.component at hsub
    by_cases hparent : String.ofList piece = ".."
    · rw [if_pos hparent] at hsub
      exact hshort hsub
    · rw [if_neg hparent] at hsub
      have hall : namesIn (.normal (String.ofList piece) :: Path.body pieces) =
          String.ofList piece :: namesIn (Path.body pieces) := rfl
      have heq : spelledPath r = String.ofList piece :: namesIn (Path.body pieces) := by
        rw [hall] at hsub
        apply hsub.eq_of_length_le
        rw [List.length_cons, hlength]
        exact Nat.succ_le_succ (namesIn_length _)
      rw [Path.body_of_names hnames, heq, List.map_cons] at hbody
      have hfirst := Path.Component.normal.inj (List.cons.inj hbody).1
      have hchars := congrArg List.length (String.ofList_injective hfirst)
      rw [List.length_append] at hchars
      exact hfront (List.length_eq_zero_iff.mp (by omega))

/-! ## When the spellings agree -/

/-- Spellings that agree where nothing is there, whatever the working directory, agree by being
refused or by being plain. -/
theorem spellingsAgree_of_empty (habsolute : (Path.new root).isAbsolute = true)
    (hr : (Path.new r).isAbsolute = false)
    (halike : ∀ workingDir, SpelledAlike emptyFiles ⟨root, workingDir, habsolute⟩ r) :
    SpellingsAgree root r := by
  by_cases hrefused : AbsoluteRefused root r
  · refine Or.inl ⟨hrefused, ?_⟩
    by_contra hallowed
    obtain ⟨workingDir, hgiven⟩ := exists_given habsolute hallowed
    have hnone := normalizeCandidate_absolute_refused emptyFiles ⟨root, workingDir, habsolute⟩ r
      hrefused
    exact hgiven ((halike workingDir).symm.trans hnone)
  · right
    -- the absolute spelling gives what it names, so the relative one does in the root
    have hgiven : normalizeCandidate emptyFiles ⟨root, root, habsolute⟩ r =
        some (spelledPath r) := by
      have hspelled := normalizeCandidate_absolute emptyFiles ⟨root, root, habsolute⟩ r hrefused
      exact (halike root).symm.trans hspelled
    rw [normalizeCandidate_eq_some_iff] at hgiven
    obtain ⟨htext, hfound, -, -⟩ := hgiven
    by_cases hleading : (Path.new (trim r)).isAbsolute = true
    · rw [if_pos hleading] at hfound
      exact absurd hfound (stripBase_ne_spelledPath habsolute hr hleading)
    · have hrelative : (Path.new (trim r)).isAbsolute = false := by simpa using hleading
      rw [if_neg hleading] at hfound
      by_cases hslash : endsWith (trim r) "/" = true
      · rw [if_pos hslash] at hfound
        cases hfound
      · rw [if_neg hslash, Option.or_self] at hfound
        obtain ⟨q, hq, hroot⟩ := Path.eq_root_of_isAbsolute habsolute
        rw [hroot, normalizeRelativeCandidate_under hq (Path.Under.root hq) (by simp)
          fun names _ => emptyFiles_leadsInside _ names] at hfound
        rw [Option.filter_eq_some_iff] at hfound
        obtain ⟨hwalk, -⟩ := hfound
        have hsub := stackWalk_sublist hwalk
        rw [List.nil_append] at hsub
        have hnames : ∀ piece ∈ spelledPath r, Path.IsName piece :=
          fun piece hpiece => isName_of_mem_namesIn (hsub.subset hpiece)
        exact ⟨hrefused, htext, trimEnd_of_stackWalk hrelative hwalk hnames,
          by simpa using hslash, hnames⟩

/-- Where what is there leads nowhere else, spellings that agree give the same. -/
theorem spelledAlike_of_spellingsAgree {context : FileTouchContext}
    (hr : (Path.new r).isAbsolute = false)
    (hcontained : Contained fs (Path.new context.repoRoot))
    (hagree : SpellingsAgree context.repoRoot r) : SpelledAlike fs context r := by
  rcases hagree with ⟨habsolute, hrelative⟩ | hplain
  · unfold SpelledAlike
    rw [normalizeCandidate_absolute_refused fs context r habsolute,
      normalizeCandidate_relative_refused fs context hrelative]
  · exact normalizeCandidate_plain fs context hplain hr (hcontained _ hplain.names)

/-- The relative spelling of a plain path gives it only where it leads nowhere else. -/
theorem leadsInside_of_spelledAlike {context : FileTouchContext}
    (hr : (Path.new r).isAbsolute = false) (hplain : Plain context.repoRoot r)
    (hfile : fs.isDir ((Path.new context.repoRoot).join (spelledPath r)) = false)
    (halike : SpelledAlike fs context r) :
    LeadsInside fs (Path.new context.repoRoot) (spelledPath r) := by
  have hspelled := normalizeCandidate_absolute fs context r hplain.absolute
  rw [hfile, if_neg Bool.false_ne_true] at hspelled
  have hgiven : normalizeCandidate fs context r = some (spelledPath r) :=
    halike.symm.trans hspelled
  rw [normalizeCandidate_eq_some_iff, (stackWalk_plain hplain hr).1,
    if_neg Bool.false_ne_true, hplain.slash, if_neg Bool.false_ne_true,
    Option.or_eq_some_iff] at hgiven
  have hdot : spelledPath r ≠ ["."] := by
    intro hdot
    have hname := hplain.names "." (by rw [hdot]; exact List.mem_singleton_self _)
    exact absurd hname.kept (by decide)
  rcases hgiven.2.1 with hfound | ⟨-, hfound⟩
  · exact (normalizeRelativeCandidate_some hfound).2.2.1 hdot
  · exact (normalizeRelativeCandidate_some hfound).2.2.1 hdot

/-- **When file touches stay inside and do not depend on the spelling.** A path leads out of the
repository only by an absolute spelling with a parent behind the root. The two spellings of a
relative path give the same, in all working directories and wherever what is there leads nowhere
else, just when both are refused or the path is spelled as it is normalised. Where a path that is so
spelled leads elsewhere, the absolute spelling alone gives it. -/
theorem file_touch_paths_iff (fs : FileSystem) (context : FileTouchContext) (candidate : String) :
    (StaysInside fs context candidate ↔ ¬Escapes fs context candidate) ∧
      ((Path.new candidate).isAbsolute = false →
        ((∀ fs' workingDir, Contained fs' (Path.new context.repoRoot) →
          SpelledAlike fs' ⟨context.repoRoot, workingDir, context.absolute⟩ candidate) ↔
            SpellingsAgree context.repoRoot candidate) ∧
        (Plain context.repoRoot candidate →
          fs.isDir ((Path.new context.repoRoot).join (spelledPath candidate)) = false →
            (SpelledAlike fs context candidate ↔
              LeadsInside fs (Path.new context.repoRoot) (spelledPath candidate)))) := by
  refine ⟨stays_inside_iff fs context candidate, fun hr => ⟨?_, ?_⟩⟩
  · constructor
    · intro halike
      exact spellingsAgree_of_empty context.absolute hr fun workingDir =>
        halike emptyFiles workingDir fun rel _ => emptyFiles_leadsInside _ rel
    · intro hagree fs' workingDir hcontained
      exact spelledAlike_of_spellingsAgree hr hcontained hagree
  · intro hplain hfile
    exact ⟨leadsInside_of_spelledAlike hr hplain hfile,
      normalizeCandidate_plain fs context hplain hr⟩

/-- The repository at `/repo`, with a session in it. -/
def repoContext : FileTouchContext where
  repoRoot := "/repo"
  workingDir := "/repo"
  absolute := by decide

/-- `/repo/../etc/passwd` gives `../etc/passwd`, and `/repo/a/./b` gives another path than `a/./b`
does. -/
theorem spellings_leave_repository :
    normalizeCandidate emptyFiles repoContext "/repo/../etc/passwd" =
        some ["..", "etc", "passwd"] ∧
      ¬StaysInside emptyFiles repoContext "/repo/../etc/passwd" ∧
      normalizeCandidate emptyFiles repoContext "/repo/a/./b" = some ["a", ".", "b"] ∧
      normalizeCandidate emptyFiles repoContext "a/./b" = some ["a", "b"] ∧
      ¬SpelledAlike emptyFiles repoContext "a/./b" := by
  have hout : normalizeCandidate emptyFiles repoContext "/repo/../etc/passwd" =
      some ["..", "etc", "passwd"] := by decide +kernel
  have habsolute : normalizeCandidate emptyFiles repoContext "/repo/a/./b" =
      some ["a", ".", "b"] := by decide +kernel
  have hrelative : normalizeCandidate emptyFiles repoContext "a/./b" = some ["a", "b"] := by
    decide +kernel
  refine ⟨hout, ?_, habsolute, hrelative, ?_⟩
  · intro hinside
    obtain ⟨name, hname⟩ := hinside _ hout .parentDir (by decide)
    cases hname
  · intro halike
    have hsame : some ["a", ".", "b"] = some ["a", "b"] :=
      habsolute.symm.trans (Eq.trans halike hrelative)
    exact absurd hsame (by decide)

end Sulion.FileTouches
