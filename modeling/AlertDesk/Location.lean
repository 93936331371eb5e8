import AlertDesk.Failure
/-!
Where a database lives: a path in a tree of folders and files. Connecting makes the folders that the
path needs and then opens the file, or makes it. A file that is no database, or a folder in place of
the file, cannot be opened.
-/
namespace AlertDesk

namespace Location

/-- Paths are lists of names from the root of the tree, which is a folder itself. -/
abbrev Path := List String

/-- The folders below the root, and the files with what tells a database from other files. -/
structure Tree where
  folders : List Path := []
  files : List (Path × Bool) := []
deriving Repr

inductive Entry where
  | folder (place : Path)
  | file (isDatabase : Bool)
  /-- Nothing, in a folder that is there. -/
  | vacant (place : Path)
  /-- Nothing, and the folder is not there either. -/
  | lost
  /-- It leads through a file. -/
  | blocked
deriving DecidableEq, Repr

namespace Tree

/-- The entry under a name in a folder; two dots lead back to the folder above. -/
def enter (t : Tree) (place : Path) (name : String) : Entry :=
  if name = ".." then .folder place.dropLast
  else
    let path := place ++ [name]
    match t.files.lookup path with
    | some isDatabase => .file isDatabase
    | none => if t.folders.contains path then .folder path else .vacant path

def walk (t : Tree) : Entry → Path → Entry
  | entry, [] => entry
  | .folder place, name :: rest => t.walk (t.enter place name) rest
  | .file _, _ :: _ | .blocked, _ :: _ => .blocked
  | .vacant _, _ :: _ | .lost, _ :: _ => .lost

def find (t : Tree) (path : Path) : Entry := t.walk (.folder []) path

def addFolder (t : Tree) (place : Path) : Tree := { t with folders := place :: t.folders }

def fileExists : String := "File exists (os error 17)"

def notDirectory : String := "Not a directory (os error 20)"

def makeFolders (t : Tree) : Path → Except String Tree
  | [] => .ok t
  | last :: up =>
    match t.find (last :: up).reverse with
    | .folder _ => .ok t
    | .file _ => .error fileExists
    | .blocked => .error notDirectory
    | .vacant place => .ok (t.addFolder place)
    | .lost => do
      let t ← t.makeFolders up
      match t.find (last :: up).reverse with
      | .folder _ | .lost => return t
      | .file _ => throw fileExists
      | .blocked => throw notDirectory
      | .vacant place => return t.addFolder place

end Tree

/-- The names of a path. Empty names and single dots lead nowhere. -/
def names (path : String) : Path := (path.splitOn "/").filter fun name => name ≠ "" ∧ name ≠ "."

def connect (t : Tree) (path : String) : Except Failure Tree := do
  let path := names path
  let t ← (t.makeFolders path.dropLast.reverse).mapError fun reason => .store (.noDirectory reason)
  match t.find path with
  | .file true => return t
  | .file false => throw (.store .notADatabase)
  | .vacant place => return { t with files := (place, true) :: t.files }
  | .folder _ | .lost | .blocked => throw (.store .cannotOpen)

/-- A path that ends in a slash or a dot names a folder, never a file. -/
def namesFolder (path : String) : Bool :=
  match (path.splitOn "/").getLast? with
  | some name => name == "" || name == "."
  | none => true

end Location
end AlertDesk
