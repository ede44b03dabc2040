import ObserverRelay.Files.Path
import ObserverRelay.Text.Bytes
/-!
# File trees

Folders and files under one root, which is also where relative paths start. Every entry is
kept under its place, the list of names that leads to it. The operations refuse what a file
system refuses, in its order and in its words.
-/
namespace ObserverRelay.Files

/-- Why an operation on files is refused. -/
inductive Refusal
  | notFound
  | busy
  | alreadyThere
  | notFolder
  | isFolder
  | longName
  /-- The path holds a NUL character. -/
  | holdsNul
  deriving DecidableEq, Repr

/-- The wording of a refusal, with its number where it has one. -/
def Refusal.message : Refusal → String
  | .notFound => "No such file or directory (os error 2)"
  | .busy => "Device or resource busy (os error 16)"
  | .alreadyThere => "File exists (os error 17)"
  | .notFolder => "Not a directory (os error 20)"
  | .isFolder => "Is a directory (os error 21)"
  | .longName => "File name too long (os error 36)"
  | .holdsNul => "file name contained an unexpected NUL byte"

/-- What lies at a place. -/
inductive Entry
  | folder
  | file (contents : Bytes)
  deriving DecidableEq, Repr

/-- The names that lead from the root to an entry. -/
abbrev Place := List String

/-- The entries below the root with their places. -/
structure Tree where
  entries : List (Place × Entry)
  deriving DecidableEq, Repr

namespace Tree

/-- A root with nothing below it. -/
def empty : Tree := ⟨[]⟩

/-- The entry at a place. The root is a folder. -/
def at? (t : Tree) (p : Place) : Option Entry :=
  if p = [] then some .folder else t.entries.lookup p

/-- The tree with an entry at a place, in place of what was there. -/
def put (t : Tree) (p : Place) (e : Entry) : Tree :=
  ⟨(p, e) :: t.entries.filter fun x => x.1 != p⟩

/-- The tree without the entry at a place. -/
def remove (t : Tree) (p : Place) : Tree := ⟨t.entries.filter fun x => x.1 != p⟩

theorem at?_put_self (t : Tree) {p : Place} (h : p ≠ []) (e : Entry) :
    (t.put p e).at? p = some e := by
  simp [at?, put, h]

theorem lookup_filter_of_ne {p q : Place} (h : q ≠ p) (es : List (Place × Entry)) :
    (es.filter fun x => x.1 != p).lookup q = es.lookup q := by
  induction es with
  | nil => rfl
  | cons x xs ih =>
    obtain ⟨k, e⟩ := x
    by_cases hk : k = p
    · subst hk
      simp [List.lookup_cons, beq_eq_false_iff_ne.mpr h, ih]
    · simp [List.lookup_cons, hk, ih]

theorem at?_put_of_ne {p q : Place} (h : q ≠ p) (t : Tree) (e : Entry) :
    (t.put p e).at? q = t.at? q := by
  simp [at?, put, List.lookup_cons, beq_eq_false_iff_ne.mpr h, lookup_filter_of_ne h]

/-- Whether a folder lies at a place. -/
def hasFolder (t : Tree) (p : Place) : Bool := t.at? p == some .folder

/-- The place that is reached from another one by following pieces. Only folders can be walked
through, be it by a dot or by nothing at all. -/
def walk (t : Tree) (p : Place) : List String → Except Refusal Place
  | [] => .ok p
  | piece :: rest =>
    if ¬t.hasFolder p then .error .notFolder
    else if isStay piece then t.walk p rest
    else if piece = ".." then t.walk p.dropLast rest
    else if isLongName piece then .error .longName
    else
      match t.at? (p ++ [piece]) with
      | none => .error .notFound
      | some _ => t.walk (p ++ [piece]) rest

/-- Refuses the paths that no operation takes. -/
def vet (path : String) : Except Refusal Unit :=
  if path.toList.contains '\x00' then .error .holdsNul
  else if path = "" then .error .notFound
  else if maxPathLength < path.utf8ByteSize then .error .longName
  else .ok ()

/-- The contents of the file at a path. -/
def read (t : Tree) (path : String) : Except Refusal Bytes := do
  vet path
  let p ← t.walk [] (pieces path)
  match t.at? p with
  | some (.file contents) => return contents
  | some .folder => throw .isFolder
  | none => throw .notFound

/-- The place of a new entry of the given name in the folder to which pieces lead. -/
def newPlace (t : Tree) (folder : List String) (name : String) (special : Refusal) :
    Except Refusal Place := do
  let p ← t.walk [] folder
  if ¬t.hasFolder p then throw .notFolder
  if isStay name ∨ name = ".." then throw special
  if isLongName name then throw .longName
  return p ++ [name]

/-- Makes a folder in the folder to which components lead. -/
def makeFolder (t : Tree) (folder : List String) (name : String) : Except Refusal Tree := do
  if name.toList.contains '\x00' ∨ folder.any (·.toList.contains '\x00') then throw .holdsNul
  let p ← t.newPlace folder name .alreadyThere
  if (t.at? p).isSome then throw .alreadyThere
  return t.put p .folder

/-- Makes sure that components, given from the last one on, lead to a folder. Folders made on
the way stay when a later one is refused. -/
def makeFoldersUp (t : Tree) : List String → Except Refusal Unit × Tree
  | [] => (.ok (), t)
  | name :: up =>
    let settle (t : Tree) (e : Refusal) : Except Refusal Unit × Tree :=
      match t.walk [] (up.reverse ++ [name]) with
      | .ok p => if t.hasFolder p then (.ok (), t) else (.error e, t)
      | .error _ => (.error e, t)
    match t.makeFolder up.reverse name with
    | .ok t => (.ok (), t)
    | .error .notFound =>
      match t.makeFoldersUp up with
      | (.error e, t) => (.error e, t)
      | (.ok (), t) =>
        match t.makeFolder up.reverse name with
        | .ok t => (.ok (), t)
        | .error e => settle t e
    | .error e => settle t e

/-- Makes sure that components lead to a folder. -/
def makeFolders (t : Tree) (folder : List String) : Except Refusal Unit × Tree :=
  t.makeFoldersUp folder.reverse

/-- Puts a finished file at a path, in place of a file that is there. -/
def replace (t : Tree) (path : String) (contents : Bytes) : Except Refusal Tree := do
  vet path
  match splitLast? path with
  | none => throw .busy
  | some (folder, name, slashes) =>
    let p ← t.newPlace folder name .busy
    if slashes then throw .notFolder
    if t.hasFolder p then throw .isFolder
    return t.put p (.file contents)

/-- Puts a file at a path after its folders have been made. The file appears as a whole or not
at all; folders may stay behind. -/
def save (t : Tree) (path : String) (contents : Bytes) : Except Refusal Unit × Tree :=
  match t.makeFolders (parentComponents path) with
  | (.error e, t) => (.error e, t)
  | (.ok (), t) =>
    match t.replace path contents with
    | .error e => (.error e, t)
    | .ok t => (.ok (), t)

/-- The places as paths in order, a slash behind each folder. -/
def listing (t : Tree) : List String :=
  let line (x : Place × Entry) : String :=
    Text.joinWith "/" x.1 ++ (if x.2 = .folder then "/" else "")
  (t.entries.map line).mergeSort fun a b => decide (a ≤ b)

end Tree

end ObserverRelay.Files
