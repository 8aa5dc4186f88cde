/-!
# Texts

`isWhiteSpace` is the Unicode property White_Space. The functions of the standard library's `str` that the
program applies to texts, on lists of characters.
-/

namespace Lib

def isWhiteSpace (c : Char) : Bool :=
  (0x09 ≤ c.toNat && c.toNat ≤ 0x0d) || c.toNat == 0x20 || c.toNat == 0x85 || c.toNat == 0xa0 || c.toNat == 0x1680 ||
    (0x2000 ≤ c.toNat && c.toNat ≤ 0x200a) || c.toNat == 0x2028 || c.toNat == 0x2029 || c.toNat == 0x202f ||
    c.toNat == 0x205f || c.toNat == 0x3000

/-- Nothing but white space. -/
def isBlank (s : String) : Bool := s.toList.all isWhiteSpace

/-- No white space at either end. -/
def isTrimmed (s : String) : Bool :=
  !(s.toList.head?.any isWhiteSpace) && !(s.toList.getLast?.any isWhiteSpace)

/-- `str::trim`. -/
def trimText (cs : List Char) : List Char := ((cs.dropWhile isWhiteSpace).reverse.dropWhile isWhiteSpace).reverse

/-- `str::replace`; `skip` counts what is left of the occurrence that is being replaced. -/
def replaceText (pattern new : List Char) : Nat → List Char → List Char
  | _, [] => []
  | skip + 1, _ :: cs => replaceText pattern new skip cs
  | 0, c :: cs =>
    if pattern.isPrefixOf (c :: cs) then new ++ replaceText pattern new (pattern.length - 1) cs
    else c :: replaceText pattern new 0 cs

/-- `str::lines`; `line` is the line so far, in reverse. A line ends with a line feed, and a carriage
return before it belongs to the end. -/
def textLines (line : List Char) : List Char → List (List Char)
  | [] => if line = [] then [] else [line.reverse]
  | c :: cs =>
    if c = '\n' then (if line.head? = some '\r' then line.tail.reverse else line.reverse) :: textLines [] cs
    else textLines (c :: line) cs

end Lib
