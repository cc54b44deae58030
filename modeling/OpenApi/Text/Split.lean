/-!
# Splitting Text

The parts of a text between the characters that separate them. There is always
one part more than there are separators, so a text without any is its own only
part, and the empty text has one empty part.

## Main definitions

* `Text.splitBy`: The parts between characters of a class.
* `Text.splitAll`: The same on strings, for one character.
-/

namespace OpenApi

namespace Text

/-- The parts between the characters where `stop` holds. -/
def splitBy (stop : Char → Bool) : List Char → List (List Char)
  | [] => [[]]
  | c :: rest =>
    match splitBy stop rest with
    | [] => [[c]]
    | part :: parts => if stop c then [] :: part :: parts else (c :: part) :: parts

/-- The parts between the occurrences of one character. -/
def splitAll (separator : Char) (text : String) : List String :=
  (splitBy (· == separator) text.toList).map String.ofList

end Text

end OpenApi
