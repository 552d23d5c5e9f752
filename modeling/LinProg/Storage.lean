import LinProg.Format.Reader
import LinProg.Format.Writer

/-!
Files in a tree of directories, and the paths that lead to them. A directory is there if something
lies in it; the root and the working directory are always there.
-/

namespace LinProg

/-- Where a file or a directory lies: the names on the way from the root, its own last. -/
abbrev Location := List String

structure Storage where
  /-- The working directory, where a path without a leading slash starts. -/
  home : Location
  /-- The files. A location stands for the first file under it. -/
  files : List (Location × ByteArray)

/-- What a file is opened for. -/
inductive Purpose where
  | reading
  | writing
  deriving DecidableEq, Repr

namespace Storage

/-- The bytes that a name may have. -/
def nameLimit : Nat := 255

/-- The bytes that a path may have. -/
def pathLimit : Nat := 4095

def empty (home : Location) : Storage := ⟨home, []⟩

def content? (s : Storage) (l : Location) : Option ByteArray := s.files.lookup l

def isDirectory (s : Storage) (l : Location) : Bool :=
  l.isPrefixOf s.home || s.files.any fun f => l.isPrefixOf f.1 && l ≠ f.1

/-- The path from the root that a path stands for. -/
def absolute (s : Storage) (path : String) : String :=
  if path.startsWith "/" then path else "/" ++ "/".intercalate (s.home ++ [path])

/-- Takes one step of a path from a directory to a directory. The root lies above itself. -/
def descend (s : Storage) (here : Location) (step : String) : Except Fault Location :=
  if step = "." then .ok here
  else if step = ".." then .ok here.dropLast
  else if nameLimit < step.utf8ByteSize then .error .nameTooLong
  else if s.isDirectory (here ++ [step]) then .ok (here ++ [step])
  else .error (if (s.content? (here ++ [step])).isSome then .notDirectory else .notFound)

/-- Takes the last step of a path from a directory to a place for a file. -/
def place (s : Storage) (here : Location) (step : String) : Except Fault Location :=
  if step = "." || step = ".." then .error .isDirectory
  else if nameLimit < step.utf8ByteSize then .error .nameTooLong
  else if s.isDirectory (here ++ [step]) then .error .isDirectory
  else .ok (here ++ [step])

/-- The place for a file that a path leads to. A slash at the end asks for a directory, so there is
no such place; only a reader looks whether the directory is there. -/
def locate (s : Storage) (purpose : Purpose) (path : String) : Except Fault Location := do
  if path.contains '\x00' then throw .nulInName
  if path = "" then throw .notFound
  if pathLimit < path.utf8ByteSize then throw .nameTooLong
  let steps := (path.splitOn "/").filter (· ≠ "")
  let start := if path.startsWith "/" then [] else s.home
  match steps.getLast? with
  | none => throw .isDirectory
  | some last =>
    let here ← steps.dropLast.foldlM s.descend start
    if path.endsWith "/" then
      if purpose = .reading then
        let _ ← s.descend here last
      throw .isDirectory
    else s.place here last

def read (s : Storage) (path : String) : Except Fault ByteArray := do
  let l ← s.locate .reading path
  match s.content? l with
  | some bytes => .ok bytes
  | none => .error .notFound

/-- Puts a file at a location in place of the one that is there. -/
def put (s : Storage) (l : Location) (bytes : ByteArray) : Storage :=
  { s with files := (l, bytes) :: s.files.filter (·.1 ≠ l) }

theorem content?_put (s : Storage) (l : Location) (bytes : ByteArray) :
    (s.put l bytes).content? l = some bytes := List.lookup_cons_self

/-- Writes a program to a file. The file is emptied before the numbers of the program are looked at,
so a program that is refused leaves an empty file. -/
def writeProgram {α : Type} [NumberText α] (s : Storage) (path : String) (p : Program α) :
    Except Error Unit × Storage :=
  match s.locate .writing path with
  | .error fault => (.error (.fault fault), s)
  | .ok l =>
    match p.toText with
    | .error error => (.error error, s.put l .empty)
    | .ok text => (.ok (), s.put l text.toUTF8)

end Storage

end LinProg
