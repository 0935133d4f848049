/-!
# Blanks

The characters that count as white space in every script, and what is left of a text without those
around it.
-/

namespace Latchkey.Text

/-- The code points of blanks, as the first and the last one of each interval. -/
def blankRanges : List (Nat × Nat) :=
  [(0x09, 0x0d), (0x20, 0x20), (0x85, 0x85), (0xa0, 0xa0), (0x1680, 0x1680), (0x2000, 0x200a),
    (0x2028, 0x2029), (0x202f, 0x202f), (0x205f, 0x205f), (0x3000, 0x3000)]

/-- Whether a character is a blank. -/
def isBlank (c : Char) : Bool :=
  blankRanges.any fun r => decide (r.1 ≤ c.toNat) && decide (c.toNat ≤ r.2)

/-- The text without the characters of a kind at its end. -/
def trimEnd (isTrimmed : Char → Bool) (cs : List Char) : List Char :=
  (cs.reverse.dropWhile isTrimmed).reverse

/-- The text without blanks around it. -/
def trim (cs : List Char) : List Char := trimEnd isBlank (cs.dropWhile isBlank)

/-- The lines of a text, without the characters that end them. -/
def lines (cs : List Char) : List (List Char) :=
  let parts := cs.splitOn '\n'
  let ended := if parts.getLast? = some [] then parts.dropLast else parts
  ended.map fun l => if l.getLast? = some '\r' then l.dropLast else l

end Latchkey.Text
