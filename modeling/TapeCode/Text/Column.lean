/-!
# Columns of text

Padding counts characters and never cuts a text that is already wider.
-/
namespace TapeCode.Text

def padLeft (fill : Char) (width : Nat) (text : String) : String :=
  String.ofList (List.replicate (width - text.length) fill) ++ text

def padRight (fill : Char) (width : Nat) (text : String) : String :=
  text ++ String.ofList (List.replicate (width - text.length) fill)

end TapeCode.Text
