import TapeCode.Text.Quoted

/-!
# Outlines

Nested values written for readers, one part per line and indented by depth.
-/
namespace TapeCode.Text

inductive Outline
  | leaf (text : String)
  | list (items : List Outline)
  | group (name : String) (items : List Outline)
  | record (name : String) (fields : List (String × Outline))
  deriving Repr, Inhabited

namespace Outline

def indentation (depth : Nat) : String := String.ofList (List.replicate (4 * depth) ' ')

mutual

/-- The text of an outline whose first line is already indented by `depth`. -/
def textAt (depth : Nat) : Outline → String
  | .leaf text => text
  | .list [] => "[]"
  | .list items => "[\n" ++ itemsText (depth + 1) items ++ indentation depth ++ "]"
  | .group name items =>
    name ++ "(\n" ++ itemsText (depth + 1) items ++ indentation depth ++ ")"
  | .record name fields =>
    name ++ " \x7b\n" ++ fieldsText (depth + 1) fields ++ indentation depth ++ "\x7d"

def itemsText (depth : Nat) : List Outline → String
  | [] => ""
  | first :: rest => indentation depth ++ textAt depth first ++ ",\n" ++ itemsText depth rest

def fieldsText (depth : Nat) : List (String × Outline) → String
  | [] => ""
  | (name, value) :: rest =>
    indentation depth ++ name ++ ": " ++ textAt depth value ++ ",\n" ++ fieldsText depth rest

end

def text (outline : Outline) : String := textAt 0 outline

def quoted (text : String) : Outline := .leaf (quotedString text)

def number (n : Nat) : Outline := .leaf (toString n)

def optional : Option Outline → Outline
  | none => .leaf "None"
  | some outline => .group "Some" [outline]

end Outline

end TapeCode.Text
