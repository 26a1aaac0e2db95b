/-
# Metta.Command.Files -- where a command finds its text

A command reads at most one file.  What is at a path may be a text, nothing, or
something that cannot be read (`FileFault`).  A `FileTree` holds the files of the
directory in which a command runs; `FileTree.find` follows a path through it, as
`FileTree.follow` does part by part.  Outside of the directory there are only the
directories above it.
-/

namespace Metta

set_option autoImplicit false

/-- Why a file cannot be read although something may be there. -/
inductive FileFault where
  | isDirectory
  /-- The path leads through a file as if that were a directory. -/
  | throughFile
  /-- There is a null character in the path. -/
  | nullCharacter
  /-- The path, or a name in it, is longer than any file's. -/
  | tooLong
deriving DecidableEq, Repr

/-- What is found at a path. -/
inductive FileContent where
  | text (s : String)
  | missing
  | unreadable (f : FileFault)
deriving DecidableEq, Repr

/-- The files below a directory, each with the names that lead to it. -/
abbrev FileTree := List (List String × String)

namespace FileTree

/-- The greatest length of a name in bytes. -/
def maxName : Nat := 255

/-- The greatest length of a path in bytes. -/
def maxPath : Nat := 4095

/-- The names in a path, without empty ones and single points. -/
def parts (path : String) : List String :=
  (path.splitOn "/").filter fun p => p != "" && p != "."

/-- The tree of the files of these paths. -/
def ofFiles (files : List (String × String)) : FileTree := files.map fun f => (parts f.1, f.2)

/-- Every directory on the way to a file is there, and the one at the top. -/
def hasDirectory (t : FileTree) (here : List String) : Bool :=
  here.isEmpty || t.any fun f => here.isPrefixOf f.1 && f.1 != here

/-- What is found on the way `names` from the place `here`. -/
def follow (t : FileTree) (here : List String) : (names : List String) → FileContent
  | [] =>
    match t.lookup here with
    | some s => .text s
    | none => if t.hasDirectory here then .unreadable .isDirectory else .missing
  | name :: names =>
    if (t.lookup here).isSome then .unreadable .throughFile
    else if !t.hasDirectory here then .missing
    else if maxName < name.utf8ByteSize then .unreadable .tooLong
    else if name != ".." then t.follow (here ++ [name]) names
    else if !here.isEmpty then t.follow here.dropLast names
    else if names.all (· == "..") then .unreadable .isDirectory
    else .missing

/-- What is found at a path. -/
def find (t : FileTree) (path : String) : FileContent :=
  if path.contains '\x00' then .unreadable .nullCharacter
  else if maxPath < path.utf8ByteSize then .unreadable .tooLong
  else if !path.startsWith "/" then t.follow [] (parts path)
  else if (parts path).isEmpty then .unreadable .isDirectory
  else .missing

end FileTree

end Metta
