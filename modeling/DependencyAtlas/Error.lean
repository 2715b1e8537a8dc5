import DependencyAtlas.Decoding.Mismatch

/-!
# Errors and their codes

The causes for which a unit, a kind or a snapshot is refused, with one message each, what an analysis
reports when one of its own invariants is broken, and the stable codes under which problems are
reported.
-/

namespace DependencyAtlas

inductive ErrorCode where
  | configParse
  | invalidUnit
  | unknownKind
  | lockPoisoned
  | corruptSnapshot
  | analysisInvariant
deriving DecidableEq

namespace ErrorCode

def all : List ErrorCode :=
  [configParse, invalidUnit, unknownKind, lockPoisoned, corruptSnapshot, analysisInvariant]

def code : ErrorCode → String
  | configParse => "E1001"
  | invalidUnit => "E2001"
  | unknownKind => "E2002"
  | lockPoisoned => "E3001"
  | corruptSnapshot => "E3002"
  | analysisInvariant => "E9001"

def message : ErrorCode → String
  | configParse => "Config file parse error"
  | invalidUnit => "Malformed unit record"
  | unknownKind => "Unknown unit kind"
  | lockPoisoned => "Graph lock poisoned"
  | corruptSnapshot => "Corrupt graph snapshot"
  | analysisInvariant => "Analysis invariant violated"

def hint : ErrorCode → String
  | configParse => "Fix syntax in the unitgraph config.toml and retry."
  | invalidUnit =>
    "Every unit needs a non-empty identifier and non-empty dependency targets."
  | unknownKind => "Use one of the documented unit kinds (model, service, ...)."
  | lockPoisoned =>
    "An extractor panicked mid-registration. Rebuild the graph from scratch."
  | corruptSnapshot => "Re-export the snapshot from a freshly built graph."
  | analysisInvariant => "Retry once. If persistent, report a bug with logs."

end ErrorCode

inductive UnitDefect where
  /-- Its value does not fit a unit. -/
  | malformed (mismatch : Decoding.Mismatch)
  | blankIdentifier
  /-- The first dependency with a blank target. -/
  | blankTarget (position : Nat)

def UnitDefect.message : UnitDefect → String
  | malformed m => m.message
  | blankIdentifier => "identifier is empty"
  | blankTarget position => s!"dependency #{position} has an empty target"

inductive GraphError where
  | invalidUnit (identifier : String) (defect : UnitDefect)
  | unknownKind (text : String)
  /-- A snapshot lists an edge whose source is not among its nodes. -/
  | unknownSource (source : String)

namespace GraphError

def message : GraphError → String
  | invalidUnit identifier defect =>
    s!"invalid unit {Text.quoted identifier}: {defect.message}"
  | unknownKind text => s!"unknown unit kind: {text}"
  | unknownSource source =>
    s!"corrupt snapshot: edge source {Text.quoted source} is not a node"

def code : GraphError → ErrorCode
  | invalidUnit .. => .invalidUnit
  | unknownKind .. => .unknownKind
  | unknownSource .. => .corruptSnapshot

end GraphError

structure AnalysisError where
  part : String
  detail : String
deriving DecidableEq

namespace AnalysisError

def message (e : AnalysisError) : String :=
  s!"{e.part}: internal invariant violated: {e.detail}"

def code (_ : AnalysisError) : ErrorCode :=
  .analysisInvariant

end AnalysisError

end DependencyAtlas
