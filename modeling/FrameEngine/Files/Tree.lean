import FrameEngine.Files.Path
import FrameEngine.IoFailure
import FrameEngine.Octets

/-!
# FrameEngine.Files.Tree

A tree of files. Paths are followed component by component from the root or from the directory the
program works in; every component but the last has to be a directory that is there.
-/

namespace FrameEngine

inductive FileNode where
  | file (content : Octets)
  /-- A device that is always empty and forgets what is written to it. -/
  | sink
  | directory (entries : List (String × FileNode))

/-- A tree of files, seen from a directory in it. -/
structure FileTree where
  root : FileNode
  /-- The directory that relative paths start from, as the names on the way to it. -/
  here : List String

namespace FileNode

def child? (name : String) (entries : List (String × FileNode)) : Option FileNode :=
  match entries with
  | [] => none
  | (n, node) :: rest => if n = name then some node else child? name rest

def at? (node : FileNode) : List String → Option FileNode
  | [] => some node
  | name :: names =>
    match node with
    | directory entries => (child? name entries).bind fun below => below.at? names
    | _ => none

/-- The entries with a node under a name, in place of one that was there before. -/
def putEntry (name : String) (node : FileNode) (entries : List (String × FileNode)) :
    List (String × FileNode) :=
  match entries with
  | [] => [(name, node)]
  | (n, old) :: rest => if n = name then (n, node) :: rest else (n, old) :: putEntry name node rest

/-- The tree with a node where names lead to. Directories on the way have to be there. -/
def put (node : FileNode) (new : FileNode) : List String → FileNode
  | [] => new
  | name :: names =>
    match node with
    | directory entries =>
      match child? name entries with
      | some below => directory (putEntry name (below.put new names) entries)
      | none => if names = [] then directory (putEntry name new entries) else node
    | _ => node

end FileNode

namespace FileTree

def missing : IoFailure := ⟨.notFound, some "No such file or directory (os error 2)"⟩

def isDirectory : IoFailure := ⟨.isADirectory, some "Is a directory (os error 21)"⟩

def isNoDirectory : IoFailure := ⟨.notADirectory, some "Not a directory (os error 20)"⟩

def holdsZero : IoFailure := ⟨.invalidInput, some "file name contained an unexpected NUL byte"⟩

/-- Follows components from the directory that `place` leads to; where they lead. The last one
need not be there. -/
def walk (t : FileTree) (place : List String) : List String → Except IoFailure (List String)
  | [] => .ok place
  | part :: rest =>
    match t.root.at? place with
    | some (.directory _) =>
      walk t (if part = "." then place else if part = ".." then place.dropLast else place ++ [part])
        rest
    | some _ => .error isNoDirectory
    | none => .error missing

def locate (t : FileTree) (path : String) : Except IoFailure (List String) :=
  if path.isEmpty then .error missing
  else if path.toList.contains (Char.ofNat 0) then .error holdsZero
  else t.walk (if Path.isRooted path.toList then [] else t.here) (Path.parts path)

/-- What is under a path. A slash at its end asks for a directory. -/
def find (t : FileTree) (path : String) : Except IoFailure FileNode := do
  match t.root.at? (← t.locate path) with
  | none => .error missing
  | some (.directory entries) => .ok (.directory entries)
  | some node => if Path.endsWithSlash path then .error isNoDirectory else .ok node

def exists? (t : FileTree) (path : String) : Bool := (t.find path).isOk

/-- The content of a file that was found. -/
def contentOf : FileNode → Except IoFailure Octets
  | .file content => .ok content
  | .sink => .ok []
  | .directory _ => .error isDirectory

/-- Opens a file for writing, which makes it if it is missing. What is done to the old content is
said by `f`. -/
def update (t : FileTree) (path : String) (f : Octets → Octets) : Except IoFailure FileTree := do
  let place ← t.locate path
  match t.root.at? place with
  | none =>
    if Path.endsWithSlash path then .error isDirectory
    else .ok { t with root := t.root.put (.file (f [])) place }
  | some (.directory _) => .error isDirectory
  | some .sink => if Path.endsWithSlash path then .error isNoDirectory else .ok t
  | some (.file content) =>
    if Path.endsWithSlash path then .error isNoDirectory
    else .ok { t with root := t.root.put (.file (f content)) place }

def write (t : FileTree) (path : String) (content : Octets) : Except IoFailure FileTree :=
  t.update path fun _ => content

/-- A file opened for adding to its end. -/
def openAppend (t : FileTree) (path : String) : Except IoFailure FileTree := t.update path id

end FileTree
end FrameEngine
