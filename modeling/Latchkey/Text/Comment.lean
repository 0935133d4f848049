import Latchkey.Text.Blank

/-!
# Comments between slashes

Documents in several formats have comments that start with two slashes and end with the line, and
comments between a slash with a star and a star with a slash.
-/

namespace Latchkey.Text

/-- What follows the end of a comment that started with a slash and a star. -/
def behindComment? : List Char → Option (List Char)
  | [] => none
  | '*' :: '/' :: rest => some rest
  | _ :: rest => behindComment? rest

/-- What follows blanks and comments; a comment has to end. Each round takes a character at least,
so their number is fuel enough. -/
def skipGap? : (fuel : Nat) → List Char → Option (List Char)
  | 0, cs => some cs
  | fuel + 1, cs =>
    match cs with
    | '/' :: '/' :: rest => skipGap? fuel (rest.dropWhile (· != '\n'))
    | '/' :: '*' :: rest => (behindComment? rest).bind (skipGap? fuel)
    | c :: rest => if isBlank c || c = '\ufeff' then skipGap? fuel rest else some cs
    | [] => some []

/-- What follows blanks and comments. -/
def behindGap? (cs : List Char) : Option (List Char) := skipGap? cs.length cs

end Latchkey.Text
