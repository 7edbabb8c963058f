import Declutter.Files.Path
import Declutter.Text.Bytes

/-!
# File trees

A tree of folders and files, and finding one's way in it by paths.

## Main definitions

* `FileTree` — a file or a folder.
* `FileTree.at?`, `FileTree.put`, `FileTree.erase` — looking up and changing what is at a place.
* `FileTree.files` — the files of a tree.
* `Disk`, `Disk.locate?`, `Disk.entry?` — a tree with a current folder, in which paths name places.
-/

namespace Declutter

/-- A file, or a folder with named entries. -/
inductive FileTree where
  | file (content : Bytes)
  | folder (entries : List (String × FileTree))
  deriving Repr, Inhabited

/-- A place in a tree: the names on the way to it. -/
abbrev Place := List String

namespace FileTree

/-- Whether this is a folder. -/
def isFolder : FileTree → Bool
  | file _ => false
  | folder _ => true

/-- The content, if this is a file. -/
def content? : FileTree → Option Bytes
  | file content => some content
  | folder _ => none

/-- The entries of a folder; a file has none. -/
def entries : FileTree → List (String × FileTree)
  | file _ => []
  | folder entries => entries

/-- What is at a place. -/
def at? (t : FileTree) : Place → Option FileTree
  | [] => some t
  | name :: rest => (t.entries.lookup name).bind (·.at? rest)

/-- Entries in which the one of a name is replaced by another; a new name comes last. -/
def putEntry (name : String) (t : FileTree) : List (String × FileTree) → List (String × FileTree)
  | [] => [(name, t)]
  | e :: rest => if e.1 == name then (name, t) :: rest else e :: putEntry name t rest

/-- The tree with `new` at a place.  The folders on the way are made if need be. -/
def put (t new : FileTree) : Place → FileTree
  | [] => new
  | name :: rest =>
    folder (putEntry name (((t.entries.lookup name).getD (folder [])).put new rest) t.entries)

/-- The tree without what is at a place. -/
def erase (t : FileTree) : Place → FileTree
  | [] => t
  | [name] => folder (t.entries.filter (·.1 != name))
  | name :: rest =>
    match t.entries.lookup name with
    | some below => folder (putEntry name (below.erase rest) t.entries)
    | none => t

mutual

/-- The files of a tree, each with its place. -/
def files : FileTree → List (Place × Bytes)
  | file content => [([], content)]
  | folder entries => filesIn entries

/-- The files of the entries of a folder. -/
def filesIn : List (String × FileTree) → List (Place × Bytes)
  | [] => []
  | (name, t) :: rest => (files t).map (fun f => (name :: f.1, f.2)) ++ filesIn rest

end

end FileTree

/-- A tree with a current folder. -/
structure Disk where
  root : FileTree := .folder []
  /-- The current folder. -/
  here : Place := []
  deriving Repr, Inhabited

namespace Disk

/-- Whether there is a folder at a place. -/
def isFolderAt (d : Disk) (p : Place) : Bool := (d.root.at? p).any (·.isFolder)

/-- The place to which some steps lead.  Each step starts from a folder, but what the last one
leads to need not exist. -/
def walk (d : Disk) (p : Place) : List String → Option Place
  | [] => some p
  | step :: rest =>
    if !d.isFolderAt p then none
    else if step == "." then d.walk p rest
    else if step == ".." then d.walk p.dropLast rest
    else d.walk (p ++ [step]) rest

/-- The place that a path names. -/
def locate? (d : Disk) (path : String) : Option Place :=
  if path == "" then none
  else d.walk (if Path.isAbsolute path then [] else d.here) (Path.parts path)

/-- What a path names, if it exists. -/
def entry? (d : Disk) (path : String) : Option FileTree := (d.locate? path).bind d.root.at?

/-- Whether a path names a folder. -/
def isFolder (d : Disk) (path : String) : Bool := (d.entry? path).any (·.isFolder)

/-- The content of the file that a path names. -/
def content? (d : Disk) (path : String) : Option Bytes := (d.entry? path).bind (·.content?)

/-- The disk with `new` where a path leads to, if it leads anywhere. -/
def put (d : Disk) (path : String) (new : FileTree) : Disk :=
  match d.locate? path with
  | some p => { d with root := d.root.put new p }
  | none => d

/-- The disk without what a path names. -/
def erase (d : Disk) (path : String) : Disk :=
  match d.locate? path with
  | some p => { d with root := d.root.erase p }
  | none => d

end Disk

end Declutter
