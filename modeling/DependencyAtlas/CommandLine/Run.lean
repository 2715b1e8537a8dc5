import DependencyAtlas.CommandLine.Invocation
import DependencyAtlas.Config.Resolve
import DependencyAtlas.Output.Analysis
import DependencyAtlas.Output.Export
import DependencyAtlas.Output.Impact
import DependencyAtlas.Output.Problem

/-!
# Running commands

What a command line leads to, given the files and the environment: an exit code and the text on both
outputs. Settings are resolved before a command runs, so their faults come first.
-/

namespace DependencyAtlas

structure Environment where
  files : String → FileEntry
  /-- Where the settings of the user are. -/
  userConfig : Option String
  seed : Option String := none
  format : Option String := none
  /-- Whether the output goes to a terminal. -/
  terminal : Bool := false
  /-- The seed for samples where none is set. -/
  chance : UInt64 := 0

structure Outcome where
  exit : Nat
  stdout : String
  stderr : String
deriving DecidableEq

namespace Outcome

def success (stdout : String) : Outcome :=
  ⟨0, stdout, ""⟩

def failure (stderr : String) : Outcome :=
  ⟨1, "", stderr⟩

def misuse (stderr : String) : Outcome :=
  ⟨2, "", stderr⟩

end Outcome

def usage : String :=
  Page.joinLines [
    "Usage: ug [OPTIONS] <COMMAND>",
    "",
    "Commands:",
    "  analyze  Run every structural diagnostic",
    "  export   Export the built graph as a snapshot",
    "  impact   List units affected by changed files"]

namespace Command

def page (env : Environment) (config : Config) : Command → Except LoadError Page
  | analyze inputs options => do
    let loaded ← Loaded.ofFiles env.files inputs
    let config := options.apply config
    let topology := Topology.ofGraph loaded.graph
    let ranks :=
      match options.pageRank with
      | none => []
      | some limit => (topology.rankedUnits config).ranks.take limit
    let report := topology.report config (config.generator env.chance)
    return AnalysisResult.page ⟨report, ranks, loaded.rejected⟩
  | snapshot inputs => do
    let loaded ← Loaded.ofFiles env.files inputs
    return loaded.graph.toSnapshot.page
  | impact input files kind => do
    let loaded ← Loaded.ofFiles env.files [input]
    return (Impact.ofGraph loaded.graph files kind).page

def inputs : Command → List String
  | analyze inputs _ => inputs
  | snapshot inputs => inputs
  | impact input _ _ => [input]

end Command

namespace Invocation

def configProblem (e : ConfigError) : Problem where
  message := e.fullMessage
  code := some .configParse

def execute (env : Environment) (i : Invocation) : Except Problem Page := do
  let config ←
    (Config.resolve env.files env.userConfig i.general.config env.seed).mapError configProblem
  (i.command.page env config).mapError fun e => { message := e.message }

def mode (env : Environment) (i : Invocation) : OutputMode :=
  .resolve i.general.format i.general.json env.format env.terminal

def run (env : Environment) (i : Invocation) : Outcome :=
  match i.execute env with
  | .ok page => .success (page.render (i.mode env))
  | .error problem => .failure (problem.page.render (i.mode env))

end Invocation

def runArguments (env : Environment) (args : List String) : Outcome :=
  match Invocation.parse args with
  | .ok i => i.run env
  | .error .help => .success usage
  | .error .version => .success "unitgraph-cli 0.1.0\n"
  | .error .misuse => .misuse usage

def pathsToRead (env : Environment) (args : List String) : List String :=
  match Invocation.parse args with
  | .ok i => i.general.config.toList ++ env.userConfig.toList ++ i.command.inputs
  | .error _ => []

end DependencyAtlas
