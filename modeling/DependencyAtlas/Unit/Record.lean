import DependencyAtlas.Unit.Kind

/-!
# Code units

A code unit and the dependencies it declares, what makes a unit valid, and its JSON form. The
printed form of a unit leaves out an absent `via`; reading restores it.
-/

namespace DependencyAtlas

/-- A dependency that a unit declares on the unit named `target`. The other fields are labels. -/
structure Dependency where
  target : String
  relationship : String
  via : Option String
  /-- The kind of the target, as it was declared. -/
  kind : String
deriving DecidableEq

structure CodeUnit where
  identifier : String
  kind : UnitKind
  file : String
  dependencies : List Dependency
deriving DecidableEq

namespace CodeUnit

/-- What is wrong with a unit, the first thing only. -/
def defect? (u : CodeUnit) : Option UnitDefect :=
  if Text.isBlank u.identifier then some .blankIdentifier
  else (u.dependencies.findIdx? fun d => Text.isBlank d.target).map .blankTarget

/-- Accepts a unit with an identifier and targets that are not blank. -/
def validate (u : CodeUnit) : Except GraphError PUnit :=
  match u.defect? with
  | none => .ok ()
  | some d => .error (.invalidUnit u.identifier d)

end CodeUnit

namespace Dependency

def defaultRelationship : String := "dependency"

def toJson (d : Dependency) : Json :=
  .object ([("type", .text d.kind), ("target", .text d.target),
    ("relationship", .text d.relationship)] ++
    match d.via with
    | none => []
    | some via => [("via", .text via)])

structure Draft where
  kind : Option String := none
  target : Option String := none
  relationship : Option String := none
  via : Option (Option String) := none

open Decoding

def Draft.visit (d : Draft) (key : String) (v : Json) : Except Mismatch Draft :=
  match key with
  | "type" => return { d with kind := ← fill "type" d.kind text v }
  | "target" => return { d with target := ← fill "target" d.target text v }
  | "relationship" => return { d with relationship := ← fill "relationship" d.relationship text v }
  | "via" => return { d with via := ← fill "via" d.via optionalText v }
  | _ => return d

/-- Absent labels take their defaults. -/
def ofParts (kind : Option String) (target : String) (relationship : Option String)
    (via : Option (Option String)) : Dependency where
  target := target
  relationship := relationship.getD defaultRelationship
  via := via.getD none
  kind := kind.getD ""

def ofFields (fields : List (String × Json)) : Except Mismatch Dependency := do
  let d ← visitFields Draft.visit {} fields
  return ofParts d.kind (← require "target" d.target) d.relationship d.via

def ofItems (items : List Json) : Except Mismatch Dependency := do
  let (kind, rest) ← nextItem text items
  let (target, rest) ← requireItem "Dependency" 4 1 text rest
  let (relationship, rest) ← nextItem text rest
  let (via, rest) ← nextItem optionalText rest
  endOfItems items rest (ofParts kind target relationship via)

def ofJson : Json → Except Mismatch Dependency
  | .object fields => ofFields fields
  | .list items => ofItems items
  | v => .error (.invalidType v.shape (.record "Dependency"))

end Dependency

namespace CodeUnit

def toJson (u : CodeUnit) : Json :=
  .object [("identifier", .text u.identifier), ("kind", u.kind.toJson),
    ("file_path", .text u.file), ("dependencies", .list (u.dependencies.map Dependency.toJson))]

structure Draft where
  identifier : Option String := none
  kind : Option UnitKind := none
  file : Option String := none
  dependencies : Option (List Dependency) := none

open Decoding

/-- The kind may also stand under the key `type`. -/
def Draft.visit (d : Draft) (key : String) (v : Json) : Except Mismatch Draft :=
  match key with
  | "identifier" => return { d with identifier := ← fill "identifier" d.identifier text v }
  | "kind" => return { d with kind := ← fill "kind" d.kind UnitKind.ofJson v }
  | "type" => return { d with kind := ← fill "kind" d.kind UnitKind.ofJson v }
  | "file_path" => return { d with file := ← fill "file_path" d.file text v }
  | "dependencies" =>
    return { d with
      dependencies := ← fill "dependencies" d.dependencies (listOf Dependency.ofJson) v }
  | _ => return d

def ofFields (fields : List (String × Json)) : Except Mismatch CodeUnit := do
  let d ← visitFields Draft.visit {} fields
  return {
    identifier := ← require "identifier" d.identifier
    kind := ← require "kind" d.kind
    file := d.file.getD ""
    dependencies := d.dependencies.getD [] }

def ofItems (items : List Json) : Except Mismatch CodeUnit := do
  let (identifier, rest) ← requireItem "UnitRecord" 4 0 text items
  let (kind, rest) ← requireItem "UnitRecord" 4 1 UnitKind.ofJson rest
  let (file, rest) ← nextItem text rest
  let (dependencies, rest) ← nextItem (listOf Dependency.ofJson) rest
  endOfItems items rest {
    identifier := identifier
    kind := kind
    file := file.getD ""
    dependencies := dependencies.getD [] }

def ofJson : Json → Except Mismatch CodeUnit
  | .object fields => ofFields fields
  | .list items => ofItems items
  | v => .error (.invalidType v.shape (.record "UnitRecord"))

/-- The identifier under which a value that is no unit is reported. -/
def claimedIdentifier (v : Json) : String :=
  ((v.field? "identifier").bind Json.text?).getD ""

def ofValue (v : Json) : Except GraphError CodeUnit :=
  match ofJson v with
  | .error m => .error (.invalidUnit (claimedIdentifier v) (.malformed m))
  | .ok u => u.validate.map fun _ => u

end CodeUnit

end DependencyAtlas
