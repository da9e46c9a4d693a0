import OverloadSuite.Text.Marker

/-!
Paths as text. The names of a path stand between slashes; an empty name and a single dot stand for
the place itself, except for a dot at the very beginning, which is kept.
-/
namespace OverloadSuite.Path

/-- The texts between the slashes of a path. -/
def pieces (path : String) : List String := Text.pieces "/" path

/-- A path from the root. -/
def isAbsolute (path : String) : Bool := path.startsWith "/"

/-- A piece that leads nowhere. -/
def isIdle (piece : String) : Bool := piece.isEmpty || piece == "."

/-- Pieces without the idle ones at their end. -/
def trimIdle (pieces : List String) : List String := (pieces.reverse.dropWhile isIdle).reverse

/-- The directory of a path: the path without its last name and what is idle around it. A root and
an empty path have none. -/
def parent? (path : String) : Option String :=
  match pieces path with
  | "" :: rest@(_ :: _) =>
    match (trimIdle rest).reverse with
    | [] => none
    | _ :: outer => some ("/" ++ String.intercalate "/" (trimIdle outer.reverse))
  | "." :: rest =>
    match (trimIdle rest).reverse with
    | [] => some ""
    | _ :: outer => some (String.intercalate "/" ("." :: trimIdle outer.reverse))
  | rest =>
    match (trimIdle rest).reverse with
    | [] => none
    | _ :: outer => some (String.intercalate "/" (trimIdle outer.reverse))

/-- A path as seen from a directory. An absolute one stays as it is. -/
def join (directory path : String) : String :=
  if isAbsolute path || directory.isEmpty then path
  else if directory.endsWith "/" then directory ++ path
  else directory ++ "/" ++ path

end OverloadSuite.Path
