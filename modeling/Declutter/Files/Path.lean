/-!
# Paths

The names of files: components between slashes.  A path names its file from the current folder on,
or, if it begins with a slash, from the root.

## Main definitions

* `Path.parts` — the components of a path.
* `Path.join` — a name below a path.
* `Path.Normal`, `Path.normal` — what paths that differ only in spelling have in common.
-/

namespace Declutter.Path

/-- The components of a path, without the empty ones. -/
def components (path : String) : List String :=
  ((path.toList.splitOn '/').filter (· != [])).map String.ofList

/-- Whether a path ends with a slash. -/
def endsWithSlash (path : String) : Bool := path.toList.getLast? == some '/'

/-- Whether a path begins with a slash. -/
def isAbsolute (path : String) : Bool := path.toList.head? == some '/'

/-- The steps that a path consists of.  A slash at the end is a step to the place itself, since
what the path names must be a folder then. -/
def parts (path : String) : List String :=
  components path ++ if endsWithSlash path then ["."] else []

/-- The path of a name below a path. -/
def join (path name : String) : String :=
  if path == "" || endsWithSlash path then path ++ name else path ++ "/" ++ name

/-- The greatest number of bytes of a component. -/
def maxComponentSize : Nat := 255

/-- The number of bytes that no path reaches. -/
def maxSize : Nat := 4096

/-- Whether a path is too long to name a file. -/
def isTooLong (path : String) : Bool :=
  maxSize ≤ path.utf8ByteSize || (components path).any (maxComponentSize < ·.utf8ByteSize)

/-- What paths have in common that differ only in spelling. -/
structure Normal where
  /-- The number of slashes at the start: three or more are as good as one. -/
  slashes : Nat
  components : List String
  deriving DecidableEq, Repr, Inhabited

/-- One more component after others, which are given the last one first.  A step upwards undoes
the step before it, if there is one; at the root it leads nowhere. -/
def pushComponent (absolute : Bool) (before : List String) (name : String) : List String :=
  if name == "." then before
  else if name != ".." then name :: before
  else
    match before with
    | [] => if absolute then [] else [".."]
    | last :: rest => if last == ".." then ".." :: before else rest

/-- A path without detours. -/
def normal (path : String) : Normal :=
  let slashes := (path.toList.takeWhile (· == '/')).length
  { slashes := if slashes ≤ 2 then slashes else 1
    components := ((components path).foldl (pushComponent (isAbsolute path)) []).reverse }

end Declutter.Path
