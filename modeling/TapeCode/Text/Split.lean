/-!
# Splitting text

The pieces of a text between separators; a text without a separator is one piece.
-/
namespace TapeCode.Text

def split (isSeparator : Char → Bool) : List Char → List (List Char)
  | [] => [[]]
  | c :: rest =>
    match split isSeparator rest with
    | [] => [[c]]
    | piece :: pieces =>
      if isSeparator c then [] :: piece :: pieces else (c :: piece) :: pieces

/-- The text before the first `separator` and the text behind it. -/
def splitOnce? (separator : Char) : List Char → Option (List Char × List Char)
  | [] => none
  | c :: rest =>
    if c = separator then some ([], rest)
    else (splitOnce? separator rest).map fun (before, behind) => (c :: before, behind)

end TapeCode.Text
