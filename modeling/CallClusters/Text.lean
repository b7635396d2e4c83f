/-! Texts cut into parts at a character, which belongs to no part. -/

namespace CallClusters.Text

/-- Puts a character in front of the first part, or starts a part before it. -/
def cutAt (mark c : Char) : List (List Char) → List (List Char)
  | [] => [[c]]
  | part :: parts => if c = mark then [] :: part :: parts else (c :: part) :: parts

/-- There is always one part more than there are marks. -/
def cut (mark : Char) (s : List Char) : List (List Char) := s.foldr (cutAt mark) [[]]

/-- The lines of a text. A carriage return in front of a line's end belongs to that end. -/
def lines (s : List Char) : List (List Char) :=
  (cut '\n' s).map fun line => if line.getLast? = some '\r' then line.dropLast else line

def parts (mark : Char) (s : String) : List String := (cut mark s.toList).map String.ofList

end CallClusters.Text
