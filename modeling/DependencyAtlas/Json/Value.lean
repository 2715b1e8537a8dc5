import DependencyAtlas.Text.Keyed

/-!
# JSON values

Values as a reader yields them. Integers are those that fit 64 bits, signed or unsigned; every
other number is a double. The fields of an object stand in ascending order of their keys, each key
once.
-/

namespace DependencyAtlas

inductive Json where
  | null
  | bool (value : Bool)
  | int (value : Int)
  | float (value : Float)
  | text (value : String)
  | list (items : List Json)
  | object (fields : List (String × Json))

namespace Json

/-- An object from fields in any order. Of fields with one key the last one counts. -/
def ofFields (fields : List (String × Json)) : Json :=
  .object (Text.byKey fields)

def field? (key : String) : Json → Option Json
  | .object fields => (fields.find? fun f => f.1 == key).map (·.2)
  | _ => none

def text? : Json → Option String
  | .text s => some s
  | _ => none

end Json

end DependencyAtlas
