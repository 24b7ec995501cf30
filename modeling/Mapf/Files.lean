/-! # Files

Files are reached by paths. A file tree holds files in memory and answers as a file system does, so what
a program does with files can be computed. -/

namespace Mapf

/-- Why the contents of a file cannot be had. -/
inductive FileError where
  | missing
  | isDirectory
  /-- A part of the path before the last one is no directory. -/
  | notDirectory
  | nameTooLong
  /-- The path holds the character that ends names. -/
  | nulInName
  deriving DecidableEq

def FileError.message : FileError → String
  | .missing => "No such file or directory (os error 2)"
  | .isDirectory => "Is a directory (os error 21)"
  | .notDirectory => "Not a directory (os error 20)"
  | .nameTooLong => "File name too long (os error 36)"
  | .nulInName => "file name contained an unexpected NUL byte"

/-- The contents of a file, or why there are none. -/
abbrev Contents := Except FileError ByteArray

/-- Files by their places. A place is the names that lead to it from the working directory: those of a
    directory around it begin with `..`, and an absolute one begins with `/`. -/
structure FileTree where
  files : List (List String × ByteArray)

namespace FileTree

def maxPathSize : Nat := 4095

def maxNameSize : Nat := 255

variable (tree : FileTree)

/-- Whether a place is a directory: one with files in it, the working directory or one around it. -/
def isDirectory (place : List String) : Bool :=
  place.all (· = "..") ||
    tree.files.any fun file => file.1.length > place.length && place.isPrefixOf file.1

/-- The place that a name leads to from another place, which has to be a directory. -/
def step (place : List String) (name : String) : Except FileError (List String) :=
  if !tree.isDirectory place then
    .error (if tree.files.any (·.1 = place) then .notDirectory else .missing)
  else if name.utf8ByteSize > maxNameSize then .error .nameTooLong
  else if name = "" || name = "." then .ok place
  else if name ≠ ".." then .ok (place ++ [name])
  else if place = ["/"] then .ok place
  else if place.getLastD ".." = ".." then .ok (place ++ [".."])
  else .ok place.dropLast

def locate (path : String) : Except FileError (List String) :=
  if path.contains '\x00' then .error .nulInName
  else if path.utf8ByteSize > maxPathSize then .error .nameTooLong
  else if path = "" then .error .missing
  else (path.splitOn "/").foldlM tree.step (if path.startsWith "/" then ["/"] else [])

def read (path : String) : Contents := do
  let place ← tree.locate path
  if tree.isDirectory place then .error .isDirectory
  else
    match tree.files.lookup place with
    | none => .error .missing
    | some bytes => .ok bytes

/-- Writes a file anew; `none` if there can be no such file. -/
def write? (path text : String) : Option FileTree :=
  match tree.locate path with
  | .error _ => none
  | .ok place =>
    if tree.isDirectory place then none
    else some ⟨(place, text.toUTF8) :: tree.files⟩

end FileTree

end Mapf
