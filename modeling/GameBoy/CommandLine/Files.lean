import GameBoy.Word

/-!
# Files

The command line reads one file and writes another. What it needs of a file system is the class
`FileAccess`, so the same program runs on the files of the computer and on a `FileTree`, a file
system held as a value.

A path is a list of names separated by slashes. It is followed from the root if it starts with a
slash, and from the working directory otherwise. A single dot stays, two dots lead back, and the
root leads back to itself. On the way each name has to be a directory: a missing one is not found,
and a file is not a directory. A file cannot be read or written as if it were a directory, nor a
directory as if it were a file, and a path that ends in a slash asks for a directory.

Names and paths are limited in length, counted in bytes. The length of a path is looked at first,
and the length of a name when the walk comes to it.
-/

namespace GameBoy

/-- Why a file could not be read or written. -/
inductive FileError where
  | notFound
  | notDirectory
  | isDirectory
  | nameTooLong
  /-- Any other reason, in the words of the system. -/
  | other (text : String)
  deriving DecidableEq, Repr

def FileError.message : FileError → String
  | notFound => "No such file or directory (os error 2)"
  | notDirectory => "Not a directory (os error 20)"
  | isDirectory => "Is a directory (os error 21)"
  | nameTooLong => "File name too long (os error 36)"
  | other text => text

/-- Reading and writing whole files. -/
class FileAccess (m : Type → Type) where
  readFile : String → m (Except FileError (Array Byte))
  writeFile : String → Array Byte → m (Except FileError Unit)

/-! ## Paths -/

/-- A path taken apart. -/
structure Path where
  absolute : Bool
  way : List String
  last : Option String
  /-- Whether a slash follows the last name. -/
  trailing : Bool
  deriving DecidableEq, Repr

namespace Path

/-- The largest length of a path in bytes. -/
def lengthLimit : Nat := 4095

/-- The largest length of a name in bytes. -/
def nameLimit : Nat := 255

/-- Take a path apart. Nothing is found at the empty path. -/
def parse (path : String) : Except FileError Path :=
  if lengthLimit < path.utf8ByteSize then .error .nameTooLong
  else if path.isEmpty then .error .notFound
  else
    let names := (path.splitOn "/").filter (· != "")
    .ok
      { absolute := path.startsWith "/"
        way := names.dropLast
        last := names.getLast?
        trailing := path.endsWith "/" }

end Path

/-! ## A file system held as a value -/

/-- The files of a file system: the names that lead from the root to each, and its bytes. Every
proper part of such a list of names is a directory, and so is every part of the way to the working
directory. -/
structure FileTree where
  files : List (List String × Array Byte) := []
  /-- The names that lead from the root to the working directory. -/
  here : List String := []

/-- What a name in a directory stands for, with the names that lead there. -/
inductive FileTree.Entry where
  | directory (names : List String)
  | file (names : List String) (bytes : Array Byte)
  | missing (names : List String)

namespace FileTree

/-- The bytes of the file at a list of names. -/
def file? (tree : FileTree) (names : List String) : Option (Array Byte) :=
  tree.files.lookup names

/-- Whether a list of names leads to a directory. -/
def isDirectory (tree : FileTree) (names : List String) : Bool :=
  names.isPrefixOf tree.here ||
    tree.files.any fun entry => names.length < entry.1.length && names.isPrefixOf entry.1

/-- Replace or add the file at a list of names. -/
def insert (tree : FileTree) (names : List String) (bytes : Array Byte) : FileTree :=
  { tree with files := (names, bytes) :: tree.files.filter (·.1 != names) }

private theorem lookup_filter_ne {names other : List String} (hne : other ≠ names)
    (files : List (List String × Array Byte)) :
    (files.filter (·.1 != names)).lookup other = files.lookup other := by
  induction files with
  | nil => rfl
  | cons entry rest ih =>
    obtain ⟨key, value⟩ := entry
    by_cases h : key = names
    · subst h
      simp [List.lookup_cons, beq_eq_false_iff_ne.mpr hne, ih]
    · simp [h, List.lookup_cons, ih]

/-- Inserting a file sets the bytes at its names and no others. -/
theorem file?_insert (tree : FileTree) (names other : List String) (bytes : Array Byte) :
    (tree.insert names bytes).file? other =
      if other = names then some bytes else tree.file? other := by
  by_cases h : other = names
  · simp [file?, insert, h]
  · simp [file?, insert, h, List.lookup_cons, beq_eq_false_iff_ne.mpr h, lookup_filter_ne h]

/-- The working directory at a list of names that holds some files, each under its own names from
there on. -/
def holding (here : List String) (files : List (List String × Array Byte)) : FileTree :=
  files.foldl (fun tree file => tree.insert (here ++ file.1) file.2) { here := here }

/-- Look up a name in a directory. -/
def entry (tree : FileTree) (directory : List String) (name : String) : Except FileError Entry :=
  if name == "." then .ok (.directory directory)
  else if name == ".." then .ok (.directory directory.dropLast)
  else if Path.nameLimit < name.utf8ByteSize then .error .nameTooLong
  else
    let names := directory ++ [name]
    if tree.isDirectory names then .ok (.directory names)
    else
      match tree.file? names with
      | some bytes => .ok (.file names bytes)
      | none => .ok (.missing names)

/-- Go from a directory through names that all have to be directories. -/
def walk (tree : FileTree) (directory : List String) : List String → Except FileError (List String)
  | [] => .ok directory
  | name :: rest =>
    match tree.entry directory name with
    | .error e => .error e
    | .ok (.directory names) => walk tree names rest
    | .ok (.file ..) => .error .notDirectory
    | .ok (.missing _) => .error .notFound

/-- The directory in which the last name of a path is looked up. -/
def parent (tree : FileTree) (path : Path) : Except FileError (List String) :=
  tree.walk (if path.absolute then [] else tree.here) path.way

def read (tree : FileTree) (path : String) : Except FileError (Array Byte) := do
  let path ← Path.parse path
  let directory ← tree.parent path
  match path.last with
  | none => .error .isDirectory
  | some name =>
    match ← tree.entry directory name with
    | .directory _ => .error .isDirectory
    | .missing _ => .error .notFound
    | .file _ bytes => if path.trailing then .error .notDirectory else .ok bytes

/-- Write the file at a path. A path that ends in a slash is refused before its last name is
looked up. -/
def write (tree : FileTree) (path : String) (bytes : Array Byte) : Except FileError FileTree := do
  let path ← Path.parse path
  let directory ← tree.parent path
  match path.last with
  | none => .error .isDirectory
  | some name =>
    if path.trailing then .error .isDirectory
    else
      match ← tree.entry directory name with
      | .directory _ => .error .isDirectory
      | .missing names | .file names _ => .ok (tree.insert names bytes)

end FileTree

instance : FileAccess (StateM FileTree) where
  readFile path := fun tree => (tree.read path, tree)
  writeFile path bytes := fun tree =>
    match tree.write path bytes with
    | .error e => (.error e, tree)
    | .ok tree => (.ok (), tree)

end GameBoy
