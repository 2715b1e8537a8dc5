import DependencyAtlas.Decimal.Style
import DependencyAtlas.Text.Quoted

/-!
# Mismatches

Why a value of a data format does not fit the type it is read as: what was found, what was wanted,
and the message that says so. JSON and the configuration format share these causes.
-/

namespace DependencyAtlas.Decoding

/-- What a value is from outside; scalars show themselves. -/
inductive Shape where
  | null
  | boolean (value : Bool)
  | integer (value : Int)
  | floating (value : Float)
  | text (value : String)
  | sequence
  | mapping

inductive Wanted where
  | text
  | sequence
  | mapping
  | nothing
  /-- A count that fits 64 bits. -/
  | size
  /-- An unsigned word of 64 bits. -/
  | word
  | floating
  | record (name : String)
  | kind
  | singleKey
deriving DecidableEq

inductive Mismatch where
  | invalidType (found : Shape) (wanted : Wanted)
  | invalidValue (found : Shape) (wanted : Wanted)
  | missingField (name : String)
  | duplicateField (name : String)
  | unknownWord (text : String) (known : List String)
  /-- A record given as a list stops before a field without a default. -/
  | tooShort (length : Nat) (record : String) (fields : Nat)
  | tooLong (length : Nat)

def Shape.describe (decimal : Float → String) : Shape → String
  | .null => "null"
  | .boolean b => s!"boolean `{b}`"
  | .integer i => s!"integer `{i}`"
  | .floating x => s!"floating point `{decimal x}`"
  | .text s => s!"string {Text.quoted s}"
  | .sequence => "sequence"
  | .mapping => "map"

def Wanted.describe : Wanted → String
  | .text => "a string"
  | .sequence => "a sequence"
  | .mapping => "a map"
  | .nothing => "unit"
  | .size => "usize"
  | .word => "u64"
  | .floating => "f64"
  | .record name => s!"struct {name}"
  | .kind => "string or map"
  | .singleKey => "map with a single key"

def backticked (s : String) : String :=
  s!"`{s}`"

/-- The message, with doubles shown as `decimal` writes them. -/
def Mismatch.messageWith (decimal : Float → String) : Mismatch → String
  | .invalidType found wanted =>
    s!"invalid type: {found.describe decimal}, expected {wanted.describe}"
  | .invalidValue found wanted =>
    s!"invalid value: {found.describe decimal}, expected {wanted.describe}"
  | .missingField name => s!"missing field `{name}`"
  | .duplicateField name => s!"duplicate field `{name}`"
  | .unknownWord text known =>
    s!"unknown variant `{text}`, expected one of " ++
      String.intercalate ", " (known.map backticked)
  | .tooShort length record fields =>
    s!"invalid length {length}, expected struct {record} with {fields} elements"
  | .tooLong length => s!"invalid length {length}, expected fewer elements in array"

def Mismatch.message (m : Mismatch) : String :=
  m.messageWith Decimal.Style.compact.text

namespace Shape

def toText : Shape → Except Mismatch String
  | .text s => .ok s
  | found => .error (.invalidType found .text)

def maxWord : Int := 18446744073709551615

/-- An unsigned integer below `2 ^ 64`. -/
def toNatural (wanted : Wanted) : Shape → Except Mismatch Nat
  | .integer i =>
    if 0 ≤ i ∧ i ≤ maxWord then .ok i.toNat else .error (.invalidValue (.integer i) wanted)
  | found => .error (.invalidType found wanted)

/-- A double; an integer stands for the nearest one. -/
def toFloat : Shape → Except Mismatch Float
  | .floating x => .ok x
  | .integer i => .ok (Decimal.nearestInt i)
  | found => .error (.invalidType found .floating)

def toOption {α : Type} (read : Shape → Except Mismatch α) : Shape → Except Mismatch (Option α)
  | .null => .ok none
  | found => (read found).map some

end Shape

end DependencyAtlas.Decoding
