/-!
# Files

A tree of folders and files, and what can go wrong when a path is opened. The
tree is taken as follows: the working folder is its root, so a path with a
slash in front leads where it leads without; there are no links and no
permissions; and what a file holds is text in UTF-8.
-/

namespace Conduit

inductive OpenError
  | notFound
  | isFolder
  | notFolder
  | nameTooLong
  | nulInPath
  deriving DecidableEq, Repr

def OpenError.message : OpenError → String
  | .notFound => "No such file or directory (os error 2)"
  | .isFolder => "Is a directory (os error 21)"
  | .notFolder => "Not a directory (os error 20)"
  | .nameTooLong => "File name too long (os error 36)"
  | .nulInPath => "file name contained an unexpected NUL byte"

abbrev Path := List String

/-- Folders and files by their path from the working folder, which itself is always there. -/
structure Files where
  folders : List Path := []
  files : List (Path × String) := []
  deriving DecidableEq, Repr, Inhabited

namespace Files

def isFolder (fs : Files) (p : Path) : Bool := p.isEmpty || fs.folders.contains p

def text? (fs : Files) (p : Path) : Option String := fs.files.lookup p

def parts (path : String) : List String := (path.toList.splitOn '/').map String.ofList

def enter (fs : Files) : Path → List String → Except OpenError Path
  | here, [] => .ok here
  | here, name :: names =>
    if name = "" ∨ name = "." then enter fs here names
    else if name = ".." then enter fs here.dropLast names
    else if 255 < name.utf8ByteSize then .error .nameTooLong
    else if fs.isFolder (here ++ [name]) then enter fs (here ++ [name]) names
    else if (fs.text? (here ++ [name])).isSome then .error .notFolder
    else .error .notFound

/-- Where a path leads: the folder, the last name, and whether it must be a folder. -/
def resolve (fs : Files) (path : String) : Except OpenError (Path × String × Bool) := do
  if path.toList.contains '\x00' then throw .nulInPath
  if path.isEmpty then throw .notFound
  if 4095 < path.utf8ByteSize then throw .nameTooLong
  let names := parts path
  let slash := names.getLast? = some ""
  let names := names.filter (· ≠ "")
  let name := names.getLast?.getD "."
  let here ← fs.enter [] names.dropLast
  if 255 < name.utf8ByteSize then throw .nameTooLong
  return (here, name, slash)

/-- The place of a file to write to, which need not be there yet. -/
def writable (fs : Files) (path : String) : Except OpenError Path := do
  let (here, name, slash) ← fs.resolve path
  if name = "." ∨ name = ".." then throw .isFolder
  let p := here ++ [name]
  if fs.isFolder p then throw .isFolder
  match fs.text? p with
  | some _ => if slash then throw .notFolder else return p
  | none => if slash then throw .isFolder else return p

def put (fs : Files) (p : Path) (text : String) : Files :=
  if (fs.text? p).isSome then
    { fs with files := fs.files.map fun (q, t) => if q = p then (q, text) else (q, t) }
  else { fs with files := fs.files ++ [(p, text)] }

/-- Opens a file to write to it: it is created if missing, and emptied unless appended to. -/
def openFile (fs : Files) (path : String) (append : Bool) : Except OpenError (Files × Path) := do
  let p ← fs.writable path
  let old := if append then (fs.text? p).getD "" else ""
  return (fs.put p old, p)

def appendTo (fs : Files) (p : Path) (text : String) : Files :=
  fs.put p ((fs.text? p).getD "" ++ text)

def read? (fs : Files) (path : String) : Option String :=
  match fs.resolve path with
  | .ok (here, name, false) => fs.text? (here ++ [name])
  | _ => none

def makeFolder (fs : Files) (path : String) : Files :=
  let names := (parts path).filter fun n => n ≠ "" ∧ n ≠ "."
  (List.range names.length).foldl (fun fs n =>
    let p := names.take (n + 1)
    if fs.isFolder p then fs else { fs with folders := fs.folders ++ [p] }) fs

end Files

end Conduit
