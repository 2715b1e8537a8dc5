import DependencyAtlas.Error
import DependencyAtlas.Output.Page

/-!
# The page of a problem

Why a command failed, and for problems with a code what to do about it.
-/

namespace DependencyAtlas

structure Problem where
  message : String
  code : Option ErrorCode := none

namespace Problem

def lines (p : Problem) : List String :=
  s!"error: {p.message}" ::
    match p.code with
    | some c => [s!"  suggestion: {c.hint}"]
    | none => []

/-- The JSON form has its keys in ascending order. -/
def toJson (p : Problem) : Json :=
  let message := ("message", Json.text p.message)
  let fields :=
    match p.code with
    | some c => [("error_code", .text c.code), message, ("suggestion", .text c.hint)]
    | none => [message]
  .object [("error", .object fields)]

def page (p : Problem) : Page :=
  ⟨p.lines, p.lines, p.toJson⟩

end Problem

end DependencyAtlas
