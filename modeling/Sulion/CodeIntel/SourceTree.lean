import Mathlib.Data.List.DropRight
import Mathlib.Tactic

set_option autoImplicit false

/-! # The files of a code root

The tree below a root as the file system has it, the files that are indexed, and the walk of the
`ignore` crate over the tree: it goes through the directories, not through links, and passes over
the entries that it is told to skip. Where it starts it does not ask.
-/

namespace Sulion.CodeIntel

abbrev Name := List Char

/-- Relative to the root. -/
abbrev RelPath := List Name

mutual

/-- A link holds what it leads to. -/
inductive Node
  | file (content : List UInt8)
  | dir (entries : Entries)
  | link (target : Node)
  | dangling
  | other

inductive Entries
  | nil
  | cons (name : Name) (node : Node) (rest : Entries)

end

def Entries.find (name : Name) : Entries → Option Node
  | .nil => none
  | .cons n node rest => if n = name then some node else rest.find name

mutual

/-- Each directory has a name once. -/
def Node.Distinct : Node → Prop
  | .dir entries => entries.Distinct
  | .link target => target.Distinct
  | _ => True

def Entries.Distinct : Entries → Prop
  | .nil => True
  | .cons name node rest => rest.find name = none ∧ node.Distinct ∧ rest.Distinct

end

/-- The directory of a root. -/
structure Tree where
  entries : Entries
  distinct : entries.Distinct

def Tree.root (tree : Tree) : Node := .dir tree.entries

/-- What the links lead to. -/
def Node.follow : Node → Option Node
  | .link target => target.follow
  | .dangling => none
  | node => some node

/-- What the system finds at a path. -/
def Node.locate : Node → RelPath → Option Node
  | node, [] => node.follow
  | node, name :: path =>
      match node.follow with
      | some (.dir entries) => (entries.find name).bind fun child => child.locate path
      | _ => none

/-! ## Source files -/

inductive SourceLanguage
  | rust
  | typeScript
  | tsx
  | javaScript
  | json
  | yaml
  | toml
  | markdown
  deriving DecidableEq

/-- `Path::extension` of a file name. -/
def extension (name : Name) : Option Name :=
  let stem := (name.reverse.dropWhile (· ≠ '.')).drop 1
  if '.' ∈ name ∧ stem ≠ [] then some (name.reverse.takeWhile (· ≠ '.')).reverse else none

def SourceLanguage.fromPath (path : RelPath) : Option SourceLanguage :=
  match (path.getLast?.bind extension).map fun e => String.ofList (e.map Char.toLower) with
  | some "rs" => some .rust
  | some "ts" | some "mts" | some "cts" => some .typeScript
  | some "tsx" => some .tsx
  | some "js" | some "mjs" | some "cjs" | some "jsx" => some .javaScript
  | some "json" | some "jsonc" => some .json
  | some "yaml" | some "yml" => some .yaml
  | some "toml" => some .toml
  | some "md" | some "markdown" => some .markdown
  | _ => none

def binaryProbeBytes : Nat := 8192

def looksBinary (content : List UInt8) : Bool := (content.take binaryProbeBytes).contains 0

/-- The file at the path is indexed. -/
def sourceFileCandidate (maxFileBytes : Nat) (path : RelPath) (content : List UInt8) : Bool :=
  (SourceLanguage.fromPath path).isSome &&
    !(decide (maxFileBytes < content.length) || looksBinary content)

def ignoredDirNames : List String :=
  [".git", ".cache", ".next", ".nuxt", ".parcel-cache", ".pytest_cache", ".ruff_cache",
    ".svelte-kit", ".tox", ".turbo", ".venv", "build", "coverage", "dist", "node_modules", "out",
    "storybook-static", "target", "venv", "__pycache__"]

def isIgnoredDirName (name : Name) : Bool := ignoredDirNames.contains (String.ofList name)

def isIgnoredPathInRoot (path : RelPath) : Bool := path.any isIgnoredDirName

/-! ## The walk -/

/-- How a root is walked: the entries that hidden names and ignore files take out, and the largest
file. -/
structure Walk where
  ignores : RelPath → Bool
  maxFileBytes : Nat

/-- The walk does not go on to an entry. -/
def Walk.skips (w : Walk) (path : RelPath) : Bool :=
  w.ignores path || path.getLast?.any isIgnoredDirName

mutual

def Node.walk (w : Walk) (here : RelPath) : Node → List RelPath
  | .file content => if sourceFileCandidate w.maxFileBytes here content then [here] else []
  | .dir entries => entries.walk w here
  | _ => []

def Entries.walk (w : Walk) (here : RelPath) : Entries → List RelPath
  | .nil => []
  | .cons name node rest =>
      (if w.skips (here ++ [name]) then [] else node.walk w (here ++ [name])) ++ rest.walk w here

end

/-- The node that the walk comes to along a path. -/
def Node.descend (w : Walk) : RelPath → Node → RelPath → Option Node
  | _, node, [] => some node
  | here, .dir entries, name :: path =>
      if w.skips (here ++ [name]) then none
      else (entries.find name).bind fun child => child.descend w (here ++ [name]) path
  | _, _, _ :: _ => none

variable {w : Walk}

theorem Node.descend_file (here : RelPath) (content : List UInt8) (rest : RelPath) (node : Node) :
    (Node.file content).descend w here rest = some node ↔ rest = [] ∧ node = .file content := by
  cases rest with
  | nil =>
      rw [Node.descend, Option.some.injEq]
      exact ⟨fun h => ⟨rfl, h.symm⟩, fun h => h.2.symm⟩
  | cons name rest => simp [Node.descend]

mutual

/-- **The files of a walk** are the source files that it comes to. -/
theorem Node.mem_walk (node : Node) (h : node.Distinct) (here p : RelPath) :
    p ∈ node.walk w here ↔ ∃ rest content, p = here ++ rest ∧
      node.descend w here rest = some (.file content) ∧
        sourceFileCandidate w.maxFileBytes p content = true := by
  cases node with
  | file content =>
      rw [Node.walk]
      constructor
      · intro hp
        split at hp
        · rename_i htake
          obtain rfl := List.mem_singleton.mp hp
          exact ⟨[], content, (List.append_nil p).symm, rfl, htake⟩
        · exact absurd hp List.not_mem_nil
      · rintro ⟨rest, c, rfl, hdescend, htake⟩
        obtain ⟨rfl, hfile⟩ := (Node.descend_file here content rest _).mp hdescend
        cases hfile
        rw [List.append_nil] at htake ⊢
        rw [if_pos htake]
        exact List.mem_cons_self
  | dir entries =>
      rw [Node.walk, Entries.mem_walk entries h here p]
      constructor
      · rintro ⟨name, child, rest, content, hp, hskip, hfind, hdescend, htake⟩
        refine ⟨name :: rest, content, hp, ?_, htake⟩
        rw [Node.descend, hskip, hfind]
        exact hdescend
      · rintro ⟨rest, content, hp, hdescend, htake⟩
        cases rest with
        | nil => cases hdescend
        | cons name rest =>
            rw [Node.descend] at hdescend
            split at hdescend
            · cases hdescend
            · rename_i hskip
              obtain ⟨child, hfind, hdescend⟩ := Option.bind_eq_some_iff.mp hdescend
              exact ⟨name, child, rest, content, hp, by simpa using hskip, hfind, hdescend, htake⟩
  | link target =>
      refine ⟨fun hp => absurd hp List.not_mem_nil, ?_⟩
      rintro ⟨rest, content, -, hdescend, -⟩
      cases rest <;> cases hdescend
  | dangling =>
      refine ⟨fun hp => absurd hp List.not_mem_nil, ?_⟩
      rintro ⟨rest, content, -, hdescend, -⟩
      cases rest <;> cases hdescend
  | other =>
      refine ⟨fun hp => absurd hp List.not_mem_nil, ?_⟩
      rintro ⟨rest, content, -, hdescend, -⟩
      cases rest <;> cases hdescend

theorem Entries.mem_walk (entries : Entries) (h : entries.Distinct) (here p : RelPath) :
    p ∈ entries.walk w here ↔ ∃ name child rest content, p = here ++ name :: rest ∧
      w.skips (here ++ [name]) = false ∧ entries.find name = some child ∧
        child.descend w (here ++ [name]) rest = some (.file content) ∧
          sourceFileCandidate w.maxFileBytes p content = true := by
  cases entries with
  | nil =>
      refine ⟨fun hp => absurd hp List.not_mem_nil, ?_⟩
      rintro ⟨name, child, rest, content, -, -, hfind, -⟩
      cases hfind
  | cons n node rest =>
      rw [Entries.walk, List.mem_append, Entries.mem_walk rest h.2.2 here p]
      have hnode := Node.mem_walk node h.2.1 (here ++ [n]) p
      constructor
      · rintro (hp | ⟨name, child, path, content, hp, hskip, hfind, hrest⟩)
        · split at hp
          · exact absurd hp List.not_mem_nil
          · rename_i hskip
            obtain ⟨path, content, rfl, hdescend, htake⟩ := hnode.mp hp
            exact ⟨n, node, path, content, List.append_assoc _ _ _, by simpa using hskip,
              by rw [Entries.find, if_pos rfl], hdescend, htake⟩
        · -- the name is another one, as the directory has it once
          refine ⟨name, child, path, content, hp, hskip, ?_, hrest⟩
          have hne : n ≠ name := by
            rintro rfl
            rw [h.1] at hfind
            cases hfind
          rw [Entries.find, if_neg hne]
          exact hfind
      · rintro ⟨name, child, path, content, hp, hskip, hfind, hdescend, htake⟩
        rw [Entries.find] at hfind
        split at hfind
        · rename_i heq
          subst heq
          cases hfind
          rw [hskip]
          exact .inl (hnode.mpr ⟨path, content, by rw [hp, List.append_assoc]; rfl, hdescend,
            htake⟩)
        · exact .inr ⟨name, child, path, content, hp, hskip, hfind, hdescend, htake⟩

end

/-- The walk along a path goes on from where its first part leads. -/
theorem Node.descend_append (node : Node) (here path rest : RelPath) :
    node.descend w here (path ++ rest) =
      (node.descend w here path).bind fun n => n.descend w (here ++ path) rest := by
  induction path generalizing node here with
  | nil => rw [List.nil_append, List.append_nil, Node.descend, Option.bind_some]
  | cons name path ih =>
      cases node with
      | dir entries =>
          rw [List.cons_append, Node.descend, Node.descend]
          split
          · rfl
          · cases entries.find name with
            | none => rfl
            | some child =>
                rw [Option.bind_some, Option.bind_some, ih, List.append_assoc]
                rfl
      | _ => rfl

/-- The system finds what the walk comes to, or what the link there leads to. -/
theorem Node.locate_of_descend {node n : Node} {here path : RelPath}
    (h : node.descend w here path = some n) : node.locate path = n.follow := by
  induction path generalizing node here with
  | nil =>
      rw [Node.descend, Option.some.injEq] at h
      rw [h, Node.locate]
  | cons name path ih =>
      cases node with
      | dir entries =>
          rw [Node.descend] at h
          split at h
          · cases h
          · obtain ⟨child, hfind, hdescend⟩ := Option.bind_eq_some_iff.mp h
            rw [Node.locate, Node.follow]
            · dsimp only
              rw [hfind]
              exact ih hdescend
            all_goals nofun
      | _ => cases h

/-- The walk goes through no ignored directory. -/
theorem Node.not_ignored_of_descend {node n : Node} {here path : RelPath}
    (h : node.descend w here path = some n) : isIgnoredPathInRoot path = false := by
  induction path generalizing node here with
  | nil => rfl
  | cons name path ih =>
      cases node with
      | dir entries =>
          rw [Node.descend] at h
          split at h
          · cases h
          · rename_i hskip
            obtain ⟨child, -, hdescend⟩ := Option.bind_eq_some_iff.mp h
            have hname : isIgnoredDirName name = false := by
              simp only [Walk.skips, List.getLast?_append, List.getLast?_singleton,
                Option.some_or, Option.any_some, Bool.or_eq_true, not_or,
                Bool.not_eq_true] at hskip
              exact hskip.2
            rw [isIgnoredPathInRoot, List.any_cons, hname, Bool.false_or]
            exact ih hdescend
      | _ => cases h

theorem Entries.distinct_of_find {entries : Entries} {name : Name} {child : Node}
    (h : entries.Distinct) (hfind : entries.find name = some child) : child.Distinct := by
  cases entries with
  | nil => cases hfind
  | cons n node rest =>
      rw [Entries.find] at hfind
      split at hfind
      · cases hfind
        exact h.2.1
      · exact distinct_of_find h.2.2 hfind

theorem Node.distinct_of_follow {node n : Node} (h : node.Distinct)
    (hfollow : node.follow = some n) : n.Distinct := by
  induction node using Node.follow.induct with
  | case1 target ih =>
      rw [Node.follow] at hfollow
      exact ih h hfollow
  | case2 => cases hfollow
  | case3 node hlink hdangling =>
      rw [Node.follow.eq_3 node hlink hdangling] at hfollow
      exact Option.some.inj hfollow ▸ h

theorem Node.distinct_of_locate {node n : Node} {path : RelPath} (h : node.Distinct)
    (hlocate : node.locate path = some n) : n.Distinct := by
  induction path generalizing node with
  | nil => exact distinct_of_follow h hlocate
  | cons name path ih =>
      rw [Node.locate] at hlocate
      split at hlocate
      · rename_i entries hfollow
        obtain ⟨child, hfind, hchild⟩ := Option.bind_eq_some_iff.mp hlocate
        exact ih (Entries.distinct_of_find (distinct_of_follow h hfollow) hfind) hchild
      · cases hlocate

end Sulion.CodeIntel
