/-!
Markers in a text. A text is cut at the occurrences of a marker, found from left to right without
overlap, and joined again with something else in their place.
-/
namespace OverloadSuite.Text

/-- The pieces of a text between the occurrences of a marker. `piece` holds, last character first,
what the current piece has so far, and `skip` counts the characters of an occurrence that are
still to be passed over. -/
def piecesFrom (marker : List Char) : (skip : Nat) → (piece : List Char) → List Char →
    List (List Char)
  | _, piece, [] => [piece.reverse]
  | skip + 1, piece, _ :: cs => piecesFrom marker skip piece cs
  | 0, piece, c :: cs =>
    if marker.isPrefixOf (c :: cs) then
      piece.reverse :: piecesFrom marker (marker.length - 1) [] cs
    else piecesFrom marker 0 (c :: piece) cs

/-- The pieces of a text between the occurrences of a non-empty marker; a text without the marker
is its own only piece. -/
def pieces (marker : String) (s : String) : List String :=
  (piecesFrom marker.toList 0 [] s.toList).map String.ofList

/-- A text with every occurrence of a non-empty marker replaced. -/
def replaceAll (marker replacement s : String) : String :=
  String.intercalate replacement (pieces marker s)

/-- A text that holds the marker is cut into more than one piece. -/
def holds (marker s : String) : Bool :=
  1 < (pieces marker s).length

end OverloadSuite.Text
