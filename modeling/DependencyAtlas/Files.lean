/-!
# Files

What is found under a path, and a tree of files that paths walk through.
-/

namespace DependencyAtlas

inductive FileEntry where
  | absent (reason : String)
  | unreadable (reason : String)
  | content (bytes : ByteArray)

namespace FileEntry

def present : FileEntry → Bool
  | absent _ => false
  | _ => true

def text : FileEntry → Except String String
  | absent reason => .error reason
  | unreadable reason => .error reason
  | content bytes =>
    match String.fromUTF8? bytes with
    | some s => .ok s
    | none => .error "stream did not contain valid UTF-8"

def noSuchFile : FileEntry :=
  .absent "No such file or directory (os error 2)"

def notADirectory : FileEntry :=
  .absent "Not a directory (os error 20)"

def isADirectory : FileEntry :=
  .unreadable "Is a directory (os error 21)"

def nameTooLong : FileEntry :=
  .absent "File name too long (os error 36)"

end FileEntry

/-- A path from a directory on. A slash at the end of the directory is not doubled. -/
def joinPath (directory path : String) : String :=
  if directory.endsWith "/" then directory ++ path else directory ++ "/" ++ path

def maxPathBytes : Nat := 4095

def maxNameBytes : Nat := 255

/-- The steps of a path that do not name anything: an empty part and a dot stay in a directory, two
dots leave it for the one above. -/
def isUnnamed (part : String) : Bool :=
  part == "" || part == "." || part == ".."

/-- What is found along a path through directories of which nothing is known but that they are
there. -/
def walkUnknown (parts : List String) : FileEntry :=
  match parts.find? fun part => !isUnnamed part with
  | none => .isADirectory
  | some name => if maxNameBytes < name.utf8ByteSize then .nameTooLong else .noSuchFile

/-- Files by their path from a root directory, the parts of the path given one by one. Directories
are there for the sake of the files in them. -/
structure FileTree where
  root : String
  files : List (List String × ByteArray)
  /-- Files outside the root directory, by their whole path. -/
  outside : List (String × ByteArray) := []

namespace FileTree

def isDirectory (t : FileTree) (path : List String) : Bool :=
  path.isEmpty || t.files.any fun f => path.isPrefixOf f.1 && path.length < f.1.length

def walk (t : FileTree) : List String → List String → FileEntry
  | _, [] => .isADirectory
  | here, part :: rest =>
    if part = "" ∨ part = "." then walk t here rest
    else if part = ".." then
      match here with
      | _ :: above => walk t above rest
      | [] => walkUnknown rest
    else if maxNameBytes < part.utf8ByteSize then .nameTooLong
    else
      let path := (part :: here).reverse
      if t.isDirectory path then walk t (part :: here) rest
      else
        match t.files.find? fun f => f.1 == path with
        | some f => if rest.isEmpty then .content f.2 else .notADirectory
        | none => .noSuchFile

def lookupOutside (t : FileTree) (path : String) (parts : List String) : FileEntry :=
  match t.outside.find? fun f => f.1 == path with
  | some f => .content f.2
  | none => walkUnknown parts

def lookup (t : FileTree) (path : String) : FileEntry :=
  if maxPathBytes < path.utf8ByteSize then .nameTooLong
  else
    match path.splitOn "/" with
    | [""] => .noSuchFile
    | parts =>
      let root := t.root.splitOn "/"
      if root.isPrefixOf parts then walk t [] (parts.drop root.length)
      else if path.startsWith "/" then t.lookupOutside path parts
      else walk t [] parts

end FileTree

end DependencyAtlas
