import DependencyAtlas.Decoding.Mismatch

/-!
# Literals of TOML

The values that a text can give to a key, as they show themselves from outside.
-/

namespace DependencyAtlas.Toml

open Decoding (Shape)

/-- A value as its text gives it. What stands inside lists and inline tables does not show. -/
inductive Literal where
  | text (value : String)
  | integer (value : Int)
  | floating (value : Float)
  | boolean (value : Bool)
  /-- A date, a time of day, or both. -/
  | moment
  | list
  | inlineTable

namespace Literal

/-- What the value is to a reader of settings; a date or time is like a mapping. -/
def shape : Literal → Shape
  | text s => .text s
  | integer i => .integer i
  | floating x => .floating x
  | boolean b => .boolean b
  | moment => .mapping
  | list => .sequence
  | inlineTable => .mapping

def typeName : Literal → String
  | text _ => "string"
  | integer _ => "integer"
  | floating _ => "float"
  | boolean _ => "boolean"
  | moment => "datetime"
  | list => "array"
  | inlineTable => "inline table"

end Literal

end DependencyAtlas.Toml
