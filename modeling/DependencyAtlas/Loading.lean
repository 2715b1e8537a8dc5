import DependencyAtlas.Files
import DependencyAtlas.Graph.Building
import DependencyAtlas.Graph.SnapshotJson
import DependencyAtlas.Json.Reader

/-!
# Loading graphs from files

A file holds units, in a list or under the key `units` of an object, or a snapshot, which is told by
its key `nodes`. All files are read before anything is registered. A value that is no valid unit is
set aside with its reason and does not stop the rest; a faulty snapshot stops the load.
-/

namespace DependencyAtlas

inductive Input where
  | units (values : List Json)
  | snapshot (content : Snapshot)

inductive LoadError where
  | unreadable (path reason : String)
  | notJson (path : String) (cause : Json.SyntaxError)
  | badSnapshot (path : String) (cause : Decoding.Mismatch)
  /-- An object without a list of units. -/
  | noUnits (path : String)
  /-- Neither a list nor an object. -/
  | notInput (path : String)
  /-- The units of a snapshot do not make a graph. -/
  | graph (cause : GraphError)

def LoadError.message : LoadError → String
  | unreadable path reason => s!"Failed to read {path}: {reason}"
  | notJson path cause => s!"Failed to parse {path} as JSON: {cause.message}"
  | badSnapshot path cause => s!"{path} is not a valid graph snapshot: {cause.message}"
  | noUnits path => s!"{path}: object input needs a `units` array"
  | notInput path => s!"{path}: expected a JSON array of unit records or a graph snapshot"
  | graph cause => cause.message

structure Rejected where
  source : String
  index : Nat
  error : GraphError

def Rejected.toJson (r : Rejected) : Json :=
  .object [("source", .text r.source), ("index", .int r.index),
    ("code", .text r.error.code.code), ("message", .text r.error.message)]

structure Loaded where
  graph : Graph
  rejected : List Rejected

namespace Input

def ofJson (path : String) (v : Json) : Except LoadError Input :=
  match v.field? "nodes" with
  | some _ =>
    match Snapshot.ofJson v with
    | .ok s => .ok (.snapshot s)
    | .error cause => .error (.badSnapshot path cause)
  | none =>
    match v with
    | .list values => .ok (.units values)
    | .object _ =>
      match v.field? "units" with
      | some (.list values) => .ok (.units values)
      | _ => .error (.noUnits path)
    | _ => .error (.notInput path)

def read (files : String → FileEntry) (path : String) : Except LoadError Input :=
  match (files path).text with
  | .error reason => .error (.unreadable path reason)
  | .ok content =>
    match Json.read content with
    | .error cause => .error (.notJson path cause)
    | .ok v => ofJson path v

/-- Registers the unit of a value or, with an error, leaves everything as it is. -/
def registerValue (b : SharedBuild) (v : Json) : Except GraphError SharedBuild := do
  b.register (← CodeUnit.ofValue v)

def registerValues (source : String) : Nat → SharedBuild → List Json → SharedBuild × List Rejected
  | _, b, [] => (b, [])
  | index, b, v :: rest =>
    match registerValue b v with
    | .ok b => registerValues source (index + 1) b rest
    | .error e =>
      let (b, rejected) := registerValues source (index + 1) b rest
      (b, ⟨source, index, e⟩ :: rejected)

def register (b : SharedBuild) (source : String) :
    Input → Except GraphError (SharedBuild × List Rejected)
  | units values => .ok (registerValues source 0 b values)
  | snapshot s => do
    let b ← (← s.toUnits).foldlM SharedBuild.register b
    return (b, [])

def registerAll : SharedBuild → List (String × Input) →
    Except GraphError (SharedBuild × List Rejected)
  | b, [] => .ok (b, [])
  | b, (source, input) :: rest => do
    let (b, rejected) ← input.register b source
    let (b, further) ← registerAll b rest
    return (b, rejected ++ further)

end Input

def Loaded.ofFiles (files : String → FileEntry) (paths : List String) :
    Except LoadError Loaded := do
  let inputs ← paths.mapM fun path => (Input.read files path).map fun input => (path, input)
  match Input.registerAll .new inputs with
  | .ok (b, rejected) => return ⟨b.finish, rejected⟩
  | .error e => .error (.graph e)

end DependencyAtlas
