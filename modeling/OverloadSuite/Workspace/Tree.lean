import OverloadSuite.Workspace.Files
import Std.Data.ExtTreeMap.Lemmas

/-!
A tree of files as a value. Every file and directory stands under the list of names that lead to it
from the root; paths that are not absolute start at the working directory. An operation of a program
on a tree fails for the reason for which a system would refuse it.
-/
namespace OverloadSuite

/-- The names that lead from the root to a place. -/
abbrev Location := List String

/-- An order of locations: the places near the root come first. -/
def Location.order : Location → Location → Ordering :=
  compareLex (compareOn List.length) compare

instance : Std.TransCmp Location.order :=
  inferInstanceAs (Std.TransCmp (compareLex (compareOn List.length) compare))

instance : Std.LawfulEqCmp Location.order where
  eq_of_compare h := Std.compare_eq_iff_eq.mp (compareLex_eq_eq.mp h).2

/-- A file with its contents, or a directory. -/
inductive Node where
  | file (contents : ByteArray)
  | directory

/-- The files and directories below the root, and the working directory. -/
structure Tree where
  workingDirectory : Location
  nodes : Std.ExtTreeMap Location Node Location.order

namespace Tree

/-- What stands at a location. The root is a directory. -/
def node? (t : Tree) (location : Location) : Option Node :=
  if location.isEmpty then some .directory else t.nodes[location]?

/-- The tree with a node put at a location, in place of the one that stands there. -/
def put (t : Tree) (location : Location) (node : Node) : Tree :=
  { t with nodes := t.nodes.insert location node }

theorem node?_put (t : Tree) (location place : Location) (node : Node) (h : place ≠ []) :
    (t.put location node).node? place = if location = place then some node else t.node? place := by
  simp [node?, put, Std.ExtTreeMap.getElem?_insert, h]

/-- Where the names of a path lead to: a name within a directory, with or without a slash after it,
or the directory itself. -/
inductive Target where
  | entry (place : Location) (name : String) (slash : Bool)
  | directory (place : Location)
deriving DecidableEq, Repr

/-- The location of a target. -/
def Target.location : Target → Location
  | entry place name _ => place ++ [name]
  | directory place => place

/-- The longest name of a file, and the length that a path must not reach, in bytes. -/
def longestName : Nat := 255

/-- The length in bytes that no path reaches. -/
def pathLimit : Nat := 4096

/-- A name that the system can keep. -/
def checkName (name : String) : Except SystemError Unit :=
  if longestName < name.utf8ByteSize then .error .nameTooLong else .ok ()

/-- The directory that pieces of a path lead to from a directory. -/
def walk (t : Tree) (place : Location) : List String → Except SystemError Location
  | [] => .ok place
  | piece :: rest =>
    if Path.isIdle piece then t.walk place rest
    else if piece = ".." then t.walk place.dropLast rest
    else do
      checkName piece
      match t.node? (place ++ [piece]) with
      | some .directory => t.walk (place ++ [piece]) rest
      | some (.file _) => .error .notDirectory
      | none => .error .notFound

/-- The target of a path. -/
def target (t : Tree) (path : String) : Except SystemError Target :=
  if path.contains '\x00' then .error .nulByte
  else if path.isEmpty then .error .notFound
  else if pathLimit ≤ path.utf8ByteSize then .error .nameTooLong
  else
    let start := if Path.isAbsolute path then [] else t.workingDirectory
    let pieces := Path.pieces path
    let kept := pieces.reverse.dropWhile String.isEmpty
    match kept with
    | [] => .ok (.directory [])
    | last :: outer => do
      if last = "." ∨ last = ".." then
        return .directory (← t.walk start kept.reverse)
      else
        return .entry (← t.walk start outer.reverse) last (kept.length < pieces.length)

/-- The contents of the file at a path. -/
def read (t : Tree) (path : String) : Except SystemError ByteArray := do
  match ← t.target path with
  | .directory _ => .error .isDirectory
  | .entry place name slash =>
    checkName name
    match t.node? (place ++ [name]) with
    | some (.file contents) => if slash then .error .notDirectory else .ok contents
    | some .directory => .error .isDirectory
    | none => .error .notFound

/-- The tree after a text is written to a path. -/
def write (t : Tree) (path text : String) : Except SystemError Tree := do
  match ← t.target path with
  | .directory _ | .entry _ _ true => .error .isDirectory
  | .entry place name false =>
    checkName name
    match t.node? (place ++ [name]) with
    | some .directory => .error .isDirectory
    | _ => .ok (t.put (place ++ [name]) (.file text.toUTF8))

/-- The tree after a directory is made at a path. -/
def makeDirectory (t : Tree) (path : String) : Except SystemError Tree := do
  match ← t.target path with
  | .directory _ => .error .exists
  | .entry place name _ =>
    checkName name
    match t.node? (place ++ [name]) with
    | some _ => .error .exists
    | none => .ok (t.put (place ++ [name]) .directory)

/-- A path that leads to a directory. -/
def isDirectory (t : Tree) (path : String) : Bool :=
  match t.target path with
  | .ok target =>
    match t.node? target.location with
    | some .directory => true
    | _ => false
  | .error _ => false

end Tree

/-- A tree of files and what has been printed so far. -/
structure Workspace where
  tree : Tree
  printed : String
  warned : String

namespace Workspace

/-- A workspace in which an operation has been tried on the tree. -/
def attempt (w : Workspace) : Except SystemError Tree → Except SystemError Unit × Workspace
  | .ok tree => (.ok (), { w with tree })
  | .error e => (.error e, w)

instance : Files (StateM Workspace) where
  read path := fun w => (w.tree.read path, w)
  write path text := fun w => w.attempt (w.tree.write path text)
  makeDirectory path := fun w => w.attempt (w.tree.makeDirectory path)
  isDirectory path := fun w => (w.tree.isDirectory path, w)
  print text := fun w => ((), { w with printed := w.printed ++ text })
  warn line := fun w => ((), { w with warned := w.warned ++ line ++ "\n" })

end Workspace

end OverloadSuite
