import Mathlib.Data.List.DropRight
import Sulion.Rust.Text

set_option autoImplicit false

/-! # Paths

`std::path` on Unix. A path is kept as the pieces of its text between the slashes, so that a text
in front of a slash and one behind it are two lists in a row. Empty pieces and dots count for
nothing but at the start: an empty first piece is the root, and a dot there a component of its own.
-/

namespace Sulion.Rust

/-- The pieces of the text of a path. -/
abbrev Path := List String

namespace Path

inductive Component
  | rootDir
  | curDir
  | parentDir
  | normal (name : String)
  deriving DecidableEq, Repr

/-- `Path::new`. -/
def new (text : String) : Path := splitChar text '/'

/-- The text of a path. -/
def text (p : Path) : String := "/".intercalate p

/-- The path is the empty text. -/
def isEmpty (p : Path) : Bool := decide (p = [] ∨ p = [""])

/-- A piece that is no component behind the start of a path. -/
def isSkipped (piece : String) : Bool := decide (piece = "" ∨ piece = ".")

/-- The root or the dot that a path starts with, and the pieces behind it. -/
def start : Path → Option Component × Path
  | "" :: piece :: rest => (some .rootDir, piece :: rest)
  | [""] => (none, [])
  | "." :: rest => (some .curDir, rest)
  | p => (none, p)

def isAbsolute (p : Path) : Bool := decide ((start p).1 = some .rootDir)

def component (piece : String) : Component := if piece = ".." then .parentDir else .normal piece

/-- The components of the pieces behind the start. -/
def body (p : Path) : List Component := (p.filter fun piece => !isSkipped piece).map component

def components (p : Path) : List Component := (start p).1.toList ++ body (start p).2

def trimStart (p : Path) : Path := p.dropWhile isSkipped

def trimEnd (p : Path) : Path := (p.reverse.dropWhile isSkipped).reverse

/-- The text of a start with pieces behind it. -/
def withStart : Option Component → Path → Path
  | some .rootDir, p => if p = [] then ["", ""] else "" :: p
  | some .curDir, p => "." :: p
  | _, p => p

/-- The pieces behind some components of a body. -/
def stripBody : List Component → Path → Option Path
  | [], p => some p
  | _ :: _, [] => none
  | c :: cs, piece :: p =>
      if isSkipped piece then stripBody (c :: cs) p
      else if component piece = c then stripBody cs p
      else none

/-- `Path::strip_prefix`: what is left of the text behind the components of `base`. -/
def stripBase (p base : Path) : Option Path :=
  match components base, (start p).1 with
  | [], first => some (withStart first (trimEnd (start p).2))
  | cs, none => (stripBody cs (start p).2).map fun rest => trimStart (trimEnd rest)
  | c :: cs, some first =>
      if first = c then (stripBody cs (start p).2).map fun rest => trimStart (trimEnd rest)
      else none

/-- `Path::starts_with`. -/
def startsWith (p base : Path) : Bool := (stripBase p base).isSome

/-- `Path::join`. -/
def join (p q : Path) : Path :=
  if isAbsolute q then q
  else if p.getLast? = some "" then p.dropLast ++ q
  else p ++ q

/-- `PathBuf::pop`. -/
def pop (p : Path) : Option Path :=
  match trimEnd (start p).2, (start p).1 with
  | [], some .curDir => some []
  | [], _ => none
  | pieces, first => some (withStart first (trimEnd pieces.dropLast))

/-- All components are names: no root, no dots. -/
def NormalOnly (p : Path) : Prop := ∀ c ∈ components p, ∃ name, c = .normal name

/-! ## Pieces -/

theorem piecesOf_ne_nil (ch : Char) (chars : List Char) : piecesOf ch chars ≠ [] := by
  induction chars with
  | nil => exact List.cons_ne_nil _ _
  | cons x chars ih =>
      rw [piecesOf]
      by_cases hx : x = ch
      · rw [if_pos hx]
        exact List.cons_ne_nil _ _
      · rw [if_neg hx]
        cases piecesOf ch chars with
        | nil => exact List.cons_ne_nil _ _
        | cons piece pieces => exact List.cons_ne_nil _ _

theorem piecesOf_append (ch : Char) (before after : List Char) :
    piecesOf ch (before ++ ch :: after) = piecesOf ch before ++ piecesOf ch after := by
  induction before with
  | nil => simp [piecesOf]
  | cons x before ih =>
      rw [List.cons_append, piecesOf, piecesOf, ih]
      by_cases hx : x = ch
      · rw [if_pos hx, if_pos hx, List.cons_append]
      · rw [if_neg hx, if_neg hx]
        cases hpieces : piecesOf ch before with
        | nil => exact absurd hpieces (piecesOf_ne_nil ch before)
        | cons piece pieces => rfl

/-- A text without a slash in front of another one is part of its first piece. -/
theorem piecesOf_append_of_notMem {ch : Char} {front : List Char} (hfront : ch ∉ front)
    (chars : List Char) : ∃ piece pieces, piecesOf ch chars = piece :: pieces ∧
      piecesOf ch (front ++ chars) = (front ++ piece) :: pieces := by
  induction front with
  | nil =>
      cases hpieces : piecesOf ch chars with
      | nil => exact absurd hpieces (piecesOf_ne_nil ch chars)
      | cons piece pieces => exact ⟨piece, pieces, rfl, hpieces⟩
  | cons x front ih =>
      obtain ⟨piece, pieces, hpieces, happend⟩ :=
        ih fun hmem => hfront (List.mem_cons_of_mem x hmem)
      have hx : x ≠ ch := by
        rintro rfl
        exact hfront List.mem_cons_self
      refine ⟨piece, pieces, hpieces, ?_⟩
      rw [List.cons_append, piecesOf, if_neg hx, happend]
      rfl

/-- A text in front of a slash and one behind it. -/
theorem new_append (before after : String) :
    new (before ++ "/" ++ after) = new before ++ new after := by
  unfold new splitChar
  rw [← List.map_append, ← piecesOf_append]
  congr 2
  simp

/-! ## Names -/

/-- A piece that is a name: neither skipped nor the parent. -/
structure IsName (piece : String) : Prop where
  kept : isSkipped piece = false
  ne : piece ≠ ".."

theorem IsName.component {piece : String} (h : IsName piece) :
    component piece = .normal piece := by
  rw [Path.component, if_neg h.ne]

theorem IsName.ne_empty {piece : String} (h : IsName piece) : piece ≠ "" := by
  rintro rfl
  exact absurd h.kept (by decide)

@[simp] theorem body_nil : body [] = [] := rfl

theorem body_append (p q : Path) : body (p ++ q) = body p ++ body q := by
  rw [body, List.filter_append, List.map_append]
  rfl

theorem body_cons_of_skipped {piece : String} {p : Path} (h : isSkipped piece = true) :
    body (piece :: p) = body p := by
  rw [body, List.filter_cons_of_neg (by rw [h]; decide)]
  rfl

theorem body_cons_of_kept {piece : String} {p : Path} (h : isSkipped piece = false) :
    body (piece :: p) = component piece :: body p := by
  rw [body, List.filter_cons_of_pos (by rw [h]; decide)]
  rfl

theorem body_of_names {names : Path} (h : ∀ piece ∈ names, IsName piece) :
    body names = names.map .normal := by
  induction names with
  | nil => rfl
  | cons piece names ih =>
      have hpiece := h piece List.mem_cons_self
      rw [body_cons_of_kept hpiece.kept, hpiece.component, List.map_cons]
      rw [ih fun piece' h' => h piece' (List.mem_cons_of_mem piece h')]

/-! ## Trimming -/

theorem trimStart_of_kept {piece : String} {p : Path} (h : isSkipped piece = false) :
    trimStart (piece :: p) = piece :: p := by
  rw [trimStart, List.dropWhile_cons_of_neg (by rw [h]; decide)]

theorem trimStart_skipped_append {front p : Path} (h : ∀ piece ∈ front, isSkipped piece = true) :
    trimStart (front ++ p) = trimStart p := by
  induction front with
  | nil => rfl
  | cons piece front ih =>
      rw [List.cons_append, trimStart,
        List.dropWhile_cons_of_pos (h piece List.mem_cons_self)]
      exact ih fun piece' h' => h piece' (List.mem_cons_of_mem piece h')

theorem trimEnd_eq_rdropWhile (p : Path) : trimEnd p = p.rdropWhile isSkipped := rfl

theorem trimEnd_concat_of_kept {piece : String} {p : Path} (h : isSkipped piece = false) :
    trimEnd (p ++ [piece]) = p ++ [piece] := by
  rw [trimEnd_eq_rdropWhile]
  exact List.rdropWhile_concat_neg _ _ _ (by rw [h]; decide)

theorem trimEnd_concat_of_skipped {piece : String} {p : Path} (h : isSkipped piece = true) :
    trimEnd (p ++ [piece]) = trimEnd p := by
  rw [trimEnd_eq_rdropWhile, trimEnd_eq_rdropWhile]
  exact List.rdropWhile_concat_pos _ _ _ h

theorem body_trimEnd (p : Path) : body (trimEnd p) = body p := by
  induction p using List.reverseRecOn with
  | nil => rfl
  | append_singleton p piece ih =>
      by_cases hpiece : isSkipped piece = true
      · rw [trimEnd_concat_of_skipped hpiece, ih, body_append, body_cons_of_skipped hpiece]
        exact (List.append_nil _).symm
      · rw [trimEnd_concat_of_kept (by simpa using hpiece)]

theorem body_trimStart (p : Path) : body (trimStart p) = body p := by
  induction p with
  | nil => rfl
  | cons piece p ih =>
      by_cases hpiece : isSkipped piece = true
      · rw [trimStart, List.dropWhile_cons_of_pos hpiece, body_cons_of_skipped hpiece]
        exact ih
      · rw [trimStart_of_kept (by simpa using hpiece)]

theorem trimEnd_append (p q : Path) :
    trimEnd (p ++ q) = if trimEnd q = [] then trimEnd p else p ++ trimEnd q := by
  induction q using List.reverseRecOn with
  | nil =>
      rw [List.append_nil]
      exact (if_pos rfl).symm
  | append_singleton q piece ih =>
      rw [← List.append_assoc]
      by_cases hpiece : isSkipped piece = true
      · rw [trimEnd_concat_of_skipped hpiece, trimEnd_concat_of_skipped hpiece, ih]
      · have hkept : isSkipped piece = false := by simpa using hpiece
        rw [trimEnd_concat_of_kept hkept, trimEnd_concat_of_kept hkept,
          if_neg (by simp), List.append_assoc]

theorem trimEnd_of_skipped {p : Path} (h : ∀ piece ∈ p, isSkipped piece = true) :
    trimEnd p = [] := by
  rw [trimEnd_eq_rdropWhile, List.rdropWhile_eq_nil_iff]
  exact h

/-- What starts a trimmed path is kept. -/
theorem isSkipped_of_trimStart {p q : Path} {piece : String} (h : trimStart p = piece :: q) :
    isSkipped piece = false := by
  induction p with
  | nil => exact absurd h (List.cons_ne_nil _ _).symm
  | cons first p ih =>
      by_cases hfirst : isSkipped first = true
      · rw [trimStart, List.dropWhile_cons_of_pos hfirst] at h
        exact ih h
      · have hkept : isSkipped first = false := by simpa using hfirst
        rw [trimStart_of_kept hkept] at h
        rw [← (List.cons.inj h).1]
        exact hkept

/-- A path that starts with a kept piece has neither root nor dot in front. -/
theorem start_of_kept {piece : String} {p : Path} (h : isSkipped piece = false) :
    start (piece :: p) = (none, piece :: p) := by
  have hempty : piece ≠ "" := by
    rintro rfl
    exact absurd h (by decide)
  have hdot : piece ≠ "." := by
    rintro rfl
    exact absurd h (by decide)
  unfold start
  split
  · rename_i heq
    exact absurd (List.cons.inj heq).1 hempty
  · rename_i heq
    exact absurd (List.cons.inj heq).1 hempty
  · rename_i heq
    exact absurd (List.cons.inj heq).1 hdot
  · rfl

theorem start_trimStart (p : Path) : start (trimStart p) = (none, trimStart p) := by
  cases h : trimStart p with
  | nil => rfl
  | cons piece q => exact start_of_kept (isSkipped_of_trimStart h)

theorem components_trimStart (p : Path) : components (trimStart p) = body p := by
  rw [components, start_trimStart, Option.toList_none, List.nil_append, body_trimStart]

/-- Behind its start a trimmed path has names only, unless a parent is among its pieces. -/
theorem normalOnly_trimStart_iff (p : Path) :
    NormalOnly (trimStart p) ↔ Component.parentDir ∉ body p := by
  unfold NormalOnly
  rw [components_trimStart]
  constructor
  · intro h hparent
    obtain ⟨name, hname⟩ := h _ hparent
    cases hname
  · intro h c hc
    obtain ⟨piece, -, rfl⟩ := List.mem_map.mp hc
    unfold component at hc ⊢
    by_cases hpiece : piece = ".."
    · rw [if_pos hpiece] at hc
      exact absurd hc h
    · rw [if_neg hpiece]
      exact ⟨piece, rfl⟩

/-! ## Prefixes -/

@[simp] theorem stripBody_nil (p : Path) : stripBody [] p = some p := by rw [stripBody]

/-- Behind the components of some pieces are pieces that count for nothing, and what follows. -/
theorem stripBody_append (b p : Path) : ∃ skipped, (∀ piece ∈ skipped, isSkipped piece = true) ∧
    stripBody (body b) (b ++ p) = some (skipped ++ p) := by
  induction b with
  | nil => exact ⟨[], by simp, stripBody_nil p⟩
  | cons piece b ih =>
      obtain ⟨skipped, hskipped, hstrip⟩ := ih
      by_cases hpiece : isSkipped piece = true
      · rw [body_cons_of_skipped hpiece]
        cases hbody : body b with
        | nil =>
            refine ⟨piece :: b, ?_, stripBody_nil _⟩
            intro piece' h'
            rcases List.mem_cons.mp h' with rfl | h'
            · exact hpiece
            · by_contra hkept
              have hmem : component piece' ∈ body b := by
                apply List.mem_map_of_mem
                rw [List.mem_filter]
                exact ⟨h', by simpa using hkept⟩
              rw [hbody] at hmem
              exact absurd hmem List.not_mem_nil
        | cons c cs =>
            rw [hbody] at hstrip
            refine ⟨skipped, hskipped, ?_⟩
            rw [List.cons_append, stripBody, if_pos hpiece]
            exact hstrip
      · have hkept : isSkipped piece = false := by simpa using hpiece
        refine ⟨skipped, hskipped, ?_⟩
        rw [body_cons_of_kept hkept, List.cons_append, stripBody, if_neg hpiece, if_pos rfl]
        exact hstrip

/-- What is left behind some components has no more components than the whole. -/
theorem stripBody_length {cs : List Component} {p rest : Path} (h : stripBody cs p = some rest) :
    (body rest).length ≤ (body p).length := by
  induction p generalizing cs with
  | nil =>
      cases cs with
      | nil =>
          rw [stripBody_nil] at h
          rw [Option.some.inj h]
      | cons c cs => exact absurd h (Option.some_ne_none rest).symm
  | cons piece p ih =>
      cases cs with
      | nil =>
          rw [stripBody_nil] at h
          rw [Option.some.inj h]
      | cons c cs =>
          rw [stripBody] at h
          by_cases hskipped : isSkipped piece = true
          · rw [if_pos hskipped] at h
            rw [body_cons_of_skipped hskipped]
            exact ih h
          · rw [if_neg hskipped] at h
            rw [body_cons_of_kept (by simpa using hskipped), List.length_cons]
            by_cases hc : component piece = c
            · rw [if_pos hc] at h
              exact (ih h).trans (Nat.le_succ _)
            · rw [if_neg hc] at h
              exact absurd h (Option.some_ne_none rest).symm

/-- A path that is not absolute is what stands behind its start, up to a dot in front. -/
theorem components_of_relative {p : Path} (h : isAbsolute p = false) :
    components p = body p ∨ components p = .curDir :: body p := by
  unfold components
  unfold isAbsolute at h
  unfold start at h ⊢
  split
  · cases h
  · exact Or.inl rfl
  · exact Or.inr rfl
  · exact Or.inl rfl

/-! ## Absolute paths -/

theorem start_root {p : Path} (h : p ≠ []) : start ("" :: p) = (some .rootDir, p) := by
  cases p with
  | nil => exact absurd rfl h
  | cons piece p => rfl

theorem components_root {p : Path} (h : p ≠ []) : components ("" :: p) = .rootDir :: body p := by
  rw [components, start_root h]
  rfl

/-- An absolute path is the root with pieces behind it. -/
theorem eq_root_of_isAbsolute {p : Path} (h : isAbsolute p = true) : ∃ q, q ≠ [] ∧ p = "" :: q := by
  have hstart : (start p).1 = some .rootDir := of_decide_eq_true h
  unfold start at hstart
  split at hstart
  · exact ⟨_, List.cons_ne_nil _ _, rfl⟩
  · cases hstart
  · cases hstart
  · cases hstart

theorem trim_skipped_append {skipped p : Path} (h : ∀ piece ∈ skipped, isSkipped piece = true) :
    trimStart (trimEnd (skipped ++ p)) = trimStart (trimEnd p) := by
  rw [trimEnd_append]
  by_cases hp : trimEnd p = []
  · rw [if_pos hp, hp, trimEnd_of_skipped h]
  · rw [if_neg hp, trimStart_skipped_append h]

/-- What stands under an absolute path is what is left of it, trimmed. -/
theorem stripBase_root {b q p : Path} (hbody : body b = body q) (hp : b ++ p ≠ []) (hq : q ≠ []) :
    stripBase ("" :: (b ++ p)) ("" :: q) = some (trimStart (trimEnd p)) := by
  obtain ⟨skipped, hskipped, hstrip⟩ := stripBody_append b p
  unfold stripBase
  rw [components_root hq, start_root hp, ← hbody]
  show (if Component.rootDir = Component.rootDir then
    (stripBody (body b) (b ++ p)).map fun rest => trimStart (trimEnd rest) else none) = _
  rw [if_pos rfl, hstrip, Option.map_some, trim_skipped_append hskipped]

/-- What is left behind an absolute path is trimmed, with no more components than the whole. -/
theorem exists_of_stripBase {p base rel : Path} (hbase : base.isAbsolute = true)
    (h : p.stripBase base = some rel) :
    ∃ rest, rel = trimStart (trimEnd rest) ∧ (body rest).length ≤ (body (start p).2).length := by
  obtain ⟨q, hq, rfl⟩ := eq_root_of_isAbsolute hbase
  unfold stripBase at h
  rw [components_root hq] at h
  cases hstart : (start p).1 with
  | none =>
      rw [hstart] at h
      obtain ⟨rest, hrest, rfl⟩ := Option.map_eq_some_iff.mp h
      exact ⟨rest, rfl, stripBody_length hrest⟩
  | some first =>
      rw [hstart] at h
      simp only at h
      by_cases hfirst : first = .rootDir
      · rw [if_pos hfirst] at h
        obtain ⟨rest, hrest, rfl⟩ := Option.map_eq_some_iff.mp h
        exact ⟨rest, rfl, stripBody_length hrest⟩
      · rw [if_neg hfirst] at h
        cases h

/-- Trimming leaves names alone. -/
theorem trim_names {names : Path} (h : ∀ piece ∈ names, IsName piece) :
    trimStart (trimEnd names) = names := by
  have hend : trimEnd names = names := by
    rcases List.eq_nil_or_concat names with rfl | ⟨front, last, rfl⟩
    · rfl
    · rw [List.concat_eq_append]
      exact trimEnd_concat_of_kept (h last (by simp)).kept
  rw [hend]
  cases names with
  | nil => rfl
  | cons piece names => exact trimStart_of_kept (h piece List.mem_cons_self).kept

/-- The path is an absolute one, whose pieces are `q`, with some names behind it. -/
def Under (q names current : Path) : Prop :=
  ∃ b, body b = body q ∧ b ++ names ≠ [] ∧ current = "" :: (b ++ names)

namespace Under

variable {q names current : Path}

theorem root (hq : q ≠ []) : Under q [] ("" :: q) :=
  ⟨q, rfl, by rwa [List.append_nil], by rw [List.append_nil]⟩

theorem components (h : Under q names current) (hnames : ∀ piece ∈ names, IsName piece) :
    components current = .rootDir :: (body q ++ names.map .normal) := by
  obtain ⟨b, hbody, hne, rfl⟩ := h
  rw [components_root hne, body_append, hbody, body_of_names hnames]

/-- The path is the absolute one itself exactly where no name is behind it. -/
theorem components_eq_iff (h : Under q names current) (hnames : ∀ piece ∈ names, IsName piece)
    (hq : q ≠ []) : Path.components current = Path.components ("" :: q) ↔ names = [] := by
  rw [h.components hnames, components_root hq]
  constructor
  · intro heq
    have hbody := (List.cons.inj heq).2
    simpa using hbody
  · rintro rfl
    simp

theorem stripBase (h : Under q names current) (hnames : ∀ piece ∈ names, IsName piece)
    (hq : q ≠ []) : Path.stripBase current ("" :: q) = some names := by
  obtain ⟨b, hbody, hne, rfl⟩ := h
  rw [stripBase_root hbody hne hq, trim_names hnames]

theorem join {name : String} (h : Under q names current) (hnames : ∀ piece ∈ names, IsName piece)
    (hname : IsName name) : Under q (names ++ [name]) (Path.join current [name]) := by
  obtain ⟨b, hbody, hne, rfl⟩ := h
  have hrelative : isAbsolute [name] = false := by
    rw [isAbsolute, start_of_kept hname.kept]
    rfl
  unfold Path.join
  rw [hrelative, if_neg Bool.false_ne_true]
  have hlast : ("" :: (b ++ names)).getLast? = (b ++ names).getLast? := by
    rw [List.getLast?_cons_of_ne_nil hne]
  rw [hlast]
  by_cases hslash : (b ++ names).getLast? = some ""
  · -- the path ends with a slash, which no name does
    rw [if_pos hslash]
    have hnil : names = [] := by
      rcases List.eq_nil_or_concat names with hnil | ⟨front, last, hfront⟩
      · exact hnil
      · have hname := hnames last (by rw [hfront]; simp)
        rw [hfront, List.concat_eq_append, ← List.append_assoc, List.getLast?_concat] at hslash
        exact absurd (Option.some.inj hslash) hname.ne_empty
    subst hnil
    rw [List.append_nil] at hslash hne ⊢
    obtain ⟨front, rfl⟩ : ∃ front, b = front ++ [""] := by
      refine ⟨b.dropLast, ?_⟩
      have hdrop := List.dropLast_append_getLast? "" hslash
      exact hdrop.symm
    refine ⟨front, ?_, by simp, ?_⟩
    · rw [← hbody, body_append]
      exact (List.append_nil _).symm
    · rw [List.dropLast_cons_of_ne_nil hne, List.dropLast_concat]
      rfl
  · rw [if_neg hslash]
    exact ⟨b, hbody, by simp, by simp⟩

theorem pop (h : Under q names current) (hnames : ∀ piece ∈ names, IsName piece)
    (hne : names ≠ []) :
    ∃ current', Path.pop current = some current' ∧ Under q names.dropLast current' := by
  obtain ⟨b, hbody, hnil, rfl⟩ := h
  rcases List.eq_nil_or_concat names with hempty | ⟨front, last, rfl⟩
  · exact absurd hempty hne
  rw [List.concat_eq_append] at hnames hnil ⊢
  have hlast := hnames last (by simp)
  have hfront : ∀ piece ∈ front, IsName piece := fun piece h =>
    hnames piece (List.mem_append_left _ h)
  have htrim : trimEnd (b ++ (front ++ [last])) = b ++ front ++ [last] := by
    rw [← List.append_assoc]
    exact trimEnd_concat_of_kept hlast.kept
  have hpop : Path.pop ("" :: (b ++ (front ++ [last]))) =
      some (withStart (some .rootDir) (trimEnd (b ++ front))) := by
    unfold Path.pop
    rw [start_root hnil, htrim]
    split
    · rename_i heq _
      exact absurd heq (by simp)
    · rename_i heq _
      exact absurd heq (by simp)
    · rw [List.dropLast_concat]
  rw [hpop, List.dropLast_concat]
  refine ⟨_, rfl, ?_⟩
  have hbody' : body (trimEnd (b ++ front)) = body q ++ front.map .normal := by
    rw [body_trimEnd, body_append, hbody, body_of_names hfront]
  by_cases hnames' : front = []
  · subst hnames'
    rw [List.append_nil] at hbody' ⊢
    by_cases hroot : trimEnd b = []
    · refine ⟨[""], ?_, by simp, ?_⟩
      · have hempty : body q = [] := by
          rw [hroot] at hbody'
          simpa using hbody'
        rw [hempty]
        rfl
      · rw [hroot]
        rfl
    · refine ⟨trimEnd b, by simpa using hbody', by simpa using hroot, ?_⟩
      rw [withStart, if_neg hroot, List.append_nil]
  · have htrim' : trimEnd (b ++ front) = b ++ front := by
      rw [trimEnd_append]
      have hself : trimEnd front = front := by
        rcases List.eq_nil_or_concat front with h | ⟨init, final, hinit⟩
        · exact absurd h hnames'
        · rw [hinit, List.concat_eq_append]
          exact trimEnd_concat_of_kept (hfront final (by rw [hinit]; simp)).kept
      rw [hself, if_neg hnames']
    rw [htrim']
    refine ⟨b, hbody, by simp [hnames'], ?_⟩
    rw [withStart, if_neg (by simp [hnames'])]

end Under

end Path

end Sulion.Rust
