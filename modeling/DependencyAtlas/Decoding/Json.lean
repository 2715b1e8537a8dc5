import DependencyAtlas.Decoding.Mismatch
import DependencyAtlas.Json.Value

/-!
# Decoding JSON values

The pieces that every record decoder is made of. A record is an object whose fields are visited in
their order, so that the first bad field is the error, or a list of its fields in their declared
order, of which trailing fields with a default may be absent.
-/

namespace DependencyAtlas

open Decoding

def Json.shape : Json → Shape
  | .null => .null
  | .bool b => .boolean b
  | .int i => .integer i
  | .float x => .floating x
  | .text s => .text s
  | .list _ => .sequence
  | .object _ => .mapping

namespace Decoding

def text (v : Json) : Except Mismatch String :=
  v.shape.toText

def optionalText (v : Json) : Except Mismatch (Option String) :=
  v.shape.toOption Shape.toText

def listOf {α : Type} (decode : Json → Except Mismatch α) : Json → Except Mismatch (List α)
  | .list items => items.mapM decode
  | v => .error (.invalidType v.shape .sequence)

def visitFields {δ : Type} (visit : δ → String → Json → Except Mismatch δ) (start : δ)
    (fields : List (String × Json)) : Except Mismatch δ :=
  fields.foldlM (fun d f => visit d f.1 f.2) start

def fill {α : Type} (name : String) (slot : Option α) (decode : Json → Except Mismatch α)
    (v : Json) : Except Mismatch (Option α) :=
  match slot with
  | some _ => .error (.duplicateField name)
  | none => (decode v).map some

def require {α : Type} (name : String) : Option α → Except Mismatch α
  | some a => .ok a
  | none => .error (.missingField name)

def nextItem {α : Type} (decode : Json → Except Mismatch α) :
    List Json → Except Mismatch (Option α × List Json)
  | [] => .ok (none, [])
  | v :: rest => (decode v).map fun a => (some a, rest)

def requireItem {α : Type} (record : String) (fields position : Nat)
    (decode : Json → Except Mismatch α) : List Json → Except Mismatch (α × List Json)
  | [] => .error (.tooShort position record fields)
  | v :: rest => (decode v).map fun a => (a, rest)

/-- A list of fields ends with the last field of its record. -/
def endOfItems {α : Type} (items rest : List Json) (a : α) : Except Mismatch α :=
  if rest.isEmpty then .ok a else .error (.tooLong items.length)

end Decoding

end DependencyAtlas
