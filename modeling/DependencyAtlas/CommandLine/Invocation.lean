import DependencyAtlas.CommandLine.Options
import DependencyAtlas.Config
import DependencyAtlas.Output.Page
import DependencyAtlas.Text.Unsigned
import DependencyAtlas.Unit.Kind

/-!
# Invocations

What a command line asks for. Options before the command and options behind it are read apart, each
option once; the general options may stand in both places, and those behind the command win.
-/

namespace DependencyAtlas

structure GeneralOptions where
  format : Option OutputMode := none
  json : Bool := false
  config : Option String := none
deriving DecidableEq

structure AnalysisOptions where
  hubLimit : Option Nat := none
  bridgeLimit : Option Nat := none
  sampleSize : Option Nat := none
  maxCycles : Option Nat := none
  seed : Option Nat := none
  pageRank : Option Nat := none
deriving DecidableEq

inductive Command where
  | analyze (inputs : List String) (options : AnalysisOptions)
  | snapshot (inputs : List String)
  | impact (input : String) (files : List String) (kind : Option UnitKind)
deriving DecidableEq

structure Invocation where
  general : GeneralOptions
  command : Command
deriving DecidableEq

inductive Halt where
  | help
  | version
  | misuse
deriving DecidableEq

namespace AnalysisOptions

def apply (o : AnalysisOptions) (c : Config) : Config :=
  { c with
    hubLimit := o.hubLimit.getD c.hubLimit
    bridgeLimit := o.bridgeLimit.getD c.bridgeLimit
    bridgeSampleSize := o.sampleSize.getD c.bridgeSampleSize
    maxCycles := o.maxCycles.getD c.maxCycles
    seed := o.seed <|> c.seed }

end AnalysisOptions

namespace GeneralOptions

/-- The options of both places; those of the second one win. -/
def join (outer inner : GeneralOptions) : GeneralOptions where
  format := inner.format <|> outer.format
  json := inner.json || outer.json
  config := inner.config <|> outer.config

end GeneralOptions

structure LevelState where
  verbose : Bool := false
  general : GeneralOptions := {}
  analysis : AnalysisOptions := {}
  kind : Option UnitKind := none
  operands : List String := []

namespace LevelState

def once {α : Type} (old new : Option α) : Except Halt (Option α) :=
  match old, new with
  | none, some a => .ok (some a)
  | _, _ => .error .misuse

/-- A path is not empty. -/
def path? (s : String) : Option String :=
  if s.isEmpty then none else some s

def number? (s : String) : Option Nat :=
  (Text.unsigned s).toOption

def kind? (s : String) : Option UnitKind :=
  (UnitKind.parse s).toOption

def set (s : LevelState) (option : OptionName) (value : String) : Except Halt LevelState :=
  let g := s.general
  let a := s.analysis
  match option with
  | .format => do
    return { s with general := { g with format := ← once g.format (OutputMode.ofName? value) } }
  | .config => do
    return { s with general := { g with config := ← once g.config (path? value) } }
  | .hubLimit => do
    return { s with analysis := { a with hubLimit := ← once a.hubLimit (number? value) } }
  | .bridgeLimit => do
    return { s with analysis := { a with bridgeLimit := ← once a.bridgeLimit (number? value) } }
  | .sampleSize => do
    return { s with analysis := { a with sampleSize := ← once a.sampleSize (number? value) } }
  | .maxCycles => do
    return { s with analysis := { a with maxCycles := ← once a.maxCycles (number? value) } }
  | .seed => do
    return { s with analysis := { a with seed := ← once a.seed (number? value) } }
  | .pageRank => do
    return { s with analysis := { a with pageRank := ← once a.pageRank (number? value) } }
  | .kind => do
    return { s with kind := ← once s.kind (kind? value) }
  | _ => .error .misuse

def raise (s : LevelState) (option : OptionName) : Except Halt LevelState :=
  match option with
  | .help => .error .help
  | .version => .error .version
  | .verbose => if s.verbose then .error .misuse else .ok { s with verbose := true }
  | .json =>
    if s.general.json then .error .misuse
    else .ok { s with general := { s.general with json := true } }
  | _ => .error .misuse

def addOperand (isPath : Nat → Bool) (s : LevelState) (value : String) : Except Halt LevelState :=
  if isPath s.operands.length && value.isEmpty then .error .misuse
  else .ok { s with operands := s.operands ++ [value] }

def take (isPath : Nat → Bool) (s : LevelState) : Argument → Except Halt LevelState
  | .flag option => s.raise option
  | .setting option value => s.set option value
  | .operand value => s.addOperand isPath value

/-- Takes in the arguments of a level from the first to the last, so that the first fault or
request for help counts, and says what ends them. -/
def read (l : Level) (isPath : Nat → Bool) (args : List String) :
    Except Halt (LevelState × Ending) := do
  let (arguments, ending) := l.scan args
  let s ← arguments.foldlM (take isPath) {}
  if ending = .refused then .error .misuse else return (s, ending)

end LevelState

namespace Invocation

def generalOptions : List OptionName :=
  [.help, .format, .json, .config]

def topLevel : Level where
  options := .verbose :: .version :: generalOptions
  endsAtWord := true

def analysisOptions : List OptionName :=
  [.hubLimit, .bridgeLimit, .sampleSize, .maxCycles, .seed, .pageRank]

def readCommand (options : List OptionName) (isPath : Nat → Bool) (args : List String) :
    Except Halt LevelState := do
  let (s, _) ← LevelState.read ⟨generalOptions ++ options, false⟩ isPath args
  return s

def parseAnalyze (args : List String) : Except Halt (GeneralOptions × Command) := do
  let s ← readCommand analysisOptions (fun _ => true) args
  if s.operands.isEmpty then .error .misuse
  else return (s.general, .analyze s.operands s.analysis)

def parseSnapshot (args : List String) : Except Halt (GeneralOptions × Command) := do
  let s ← readCommand [] (fun _ => true) args
  if s.operands.isEmpty then .error .misuse else return (s.general, .snapshot s.operands)

/-- The first operand is a path; the others are names of files as units give them. -/
def parseImpact (args : List String) : Except Halt (GeneralOptions × Command) := do
  let s ← readCommand [.kind] (fun position => position == 0) args
  match s.operands with
  | input :: file :: files => return (s.general, .impact input (file :: files) s.kind)
  | _ => .error .misuse

def commandNames : List String :=
  ["analyze", "export", "impact", "help"]

def parseHelp : List String → Except Halt (GeneralOptions × Command)
  | [] => .error .help
  | [name] => if commandNames.contains name then .error .help else .error .misuse
  | _ => .error .misuse

def parseCommand (name : String) (args : List String) : Except Halt (GeneralOptions × Command) :=
  match name with
  | "analyze" => parseAnalyze args
  | "export" => parseSnapshot args
  | "impact" => parseImpact args
  | "help" => parseHelp args
  | _ => .error .misuse

def parse (args : List String) : Except Halt Invocation := do
  match ← LevelState.read topLevel (fun _ => false) args with
  | (s, .word name rest) =>
    let (general, command) ← parseCommand name rest
    return ⟨s.general.join general, command⟩
  | _ => .error .misuse

end Invocation

end DependencyAtlas
