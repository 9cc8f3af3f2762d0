/-
Files as the program finds them.

The program never writes a file.  It looks for one by its path, and finds nothing, finds
something that cannot be read, or finds bytes.

A tree of files is one way to answer.  A path is walked part by part, and each part but
the last has to be a directory; so a path that leads through a file fails in another way
than one that leads nowhere.
-/

namespace UsbBoot

/-- What comes of looking for a file. -/
inductive Lookup
  /-- There is no such thing, as the system words it. -/
  | absent (text : String)
  /-- It is there but cannot be read, as the system words it. -/
  | unreadable (text : String)
  /-- It is there and holds these bytes. -/
  | found (bytes : List UInt8)
  deriving DecidableEq, Repr

/-- The bytes looked for, or how the system words that there are none. -/
def Lookup.bytes : Lookup → Except String (List UInt8)
  | .absent text | .unreadable text => .error text
  | .found bytes => .ok bytes

namespace Files

/-- How the system words that there is nothing at a path. -/
def nothingThere : String := "No such file or directory (os error 2)"

/-- How the system words that a path leads through a file. -/
def notDirectory : String := "Not a directory (os error 20)"

/-- How the system words that a directory was to be read. -/
def isDirectory : String := "Is a directory (os error 21)"

/-- How the system words that a name, or a whole path, has too many bytes. -/
def tooLong : String := "File name too long (os error 36)"

def nameLimit : Nat := 255

def pathLimit : Nat := 4095

/-- How it is worded that a path cannot be one, because it holds the character with the
number zero. -/
def impossiblePath : String := "file name contained an unexpected NUL byte"

/-- A tree of files.  A place in it is given by the names that lead there from the root. -/
structure Tree where
  /-- The files, by their places. -/
  files : List (List String × List UInt8)
  /-- The places of directories, beside those that files are in. -/
  directories : List (List String)

inductive Node
  | file (bytes : List UInt8)
  | directory

/-- What the names lead to, if anything. -/
def Tree.node? (tree : Tree) (place : List String) : Option Node :=
  match tree.files.find? (·.1 == place) with
  | some (_, bytes) => some (.file bytes)
  | none =>
    if (tree.directories ++ tree.files.map (·.1)).any place.isPrefixOf then some .directory
    else none

/-- The parts of a path between its slashes. -/
def parts (path : String) : List String :=
  (path.toList.splitOn '/').map String.ofList

/-- Walk on from a place by the parts of a path. -/
def Tree.walk (tree : Tree) : List String → List String → Lookup
  | place, [] =>
    match tree.node? place with
    | none => .absent nothingThere
    | some .directory => .unreadable isDirectory
    | some (.file bytes) => .found bytes
  | place, part :: rest =>
    match tree.node? place with
    | none => .absent nothingThere
    | some (.file _) => .absent notDirectory
    | some .directory =>
      if part = "" ∨ part = "." then tree.walk place rest
      -- Above the root there is the root.
      else if part = ".." then tree.walk place.dropLast rest
      else if nameLimit < part.utf8ByteSize then .absent tooLong
      else tree.walk (place ++ [part]) rest

/-- What a path leads to in a tree, relative ones from the given directory on. -/
def Tree.lookup (tree : Tree) (directory : List String) (path : String) : Lookup :=
  if path.toList.any (· == '\x00') then .absent impossiblePath
  else if pathLimit < path.utf8ByteSize then .absent tooLong
  else match parts path with
    | [""] => .absent nothingThere
    | "" :: rest => tree.walk [] rest
    | parts => tree.walk directory parts

end Files
end UsbBoot
