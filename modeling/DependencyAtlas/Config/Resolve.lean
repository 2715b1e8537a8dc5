import DependencyAtlas.Config
import DependencyAtlas.Files
import DependencyAtlas.Text.Blank
import DependencyAtlas.Text.Unsigned
import DependencyAtlas.Toml.Document

/-!
# Where settings come from

A configuration file sets what it names and leaves the rest at its default. A file asked for wins
over the file of the user; the seed of the environment wins over both.
-/

namespace DependencyAtlas

inductive ConfigError where
  | unreadable (path reason : String)
  | malformed (path : String) (cause : Toml.Error)
  /-- The file asked for is not there. -/
  | missing (path : String)
  /-- The seed of the environment is not a number. -/
  | badSeed (text : String) (fault : Text.UnsignedFault)

namespace ConfigError

def message : ConfigError → String
  | unreadable path _ => s!"Failed to read {path}"
  | malformed path _ => s!"Failed to parse {path}"
  | missing path => s!"config file {path} does not exist"
  | badSeed text _ => s!"UNITGRAPH_SEED must be an unsigned integer, got {Text.quoted text}"

def cause? : ConfigError → Option String
  | unreadable _ reason => some reason
  | malformed _ cause => some cause.message
  | missing _ => none
  | badSeed _ fault => some fault.message

def fullMessage (e : ConfigError) : String :=
  String.intercalate ": " (e.message :: e.cause?.toList)

end ConfigError

namespace Config

def ofToml (document : String) : Except Toml.Error Config := do
  let chars := document.toList
  let entries ← Toml.read chars
  let apply (c : Config) (entry : Toml.Key × Toml.Item) : Except Toml.Error Config :=
    match c.set entry.1.name entry.2.shape with
    | .ok c => .ok c
    | .error mismatch =>
      .error (Toml.errorAt chars { cause := some (.mismatch mismatch) } (entry.2.spanOr entry.1))
  entries.foldlM apply {}

/-- The settings of the file under a path; without a file there are the defaults only. -/
def load (files : String → FileEntry) (path : String) : Except ConfigError Config :=
  let entry := files path
  if !entry.present then .ok {}
  else
    match entry.text with
    | .error reason => .error (.unreadable path reason)
    | .ok document => (ofToml document).mapError (.malformed path)

/-- The path to the settings of the user, given the directory for settings, which counts if it is
absolute, and the home directory. -/
def userPath (directory home : Option String) : Option String :=
  let absolute := directory.filter fun d => d.startsWith "/"
  let fallback := (home.filter fun h => !h.isEmpty).map fun h => joinPath h ".config"
  (absolute <|> fallback).map fun d => joinPath d "unitgraph/config.toml"

def loadUser (files : String → FileEntry) (userPath : Option String) :
    Except ConfigError Config :=
  match userPath with
  | none => .ok {}
  | some path => load files path

def applySeed (seed : Option String) (c : Config) : Except ConfigError Config :=
  match seed with
  | none => .ok c
  | some text =>
    match Text.unsigned (Text.trim text) with
    | .ok n => .ok { c with seed := some n }
    | .error fault => .error (.badSeed text fault)

def resolve (files : String → FileEntry) (userPath path seed : Option String) :
    Except ConfigError Config := do
  let c ←
    match path with
    | none => loadUser files userPath
    | some path => if (files path).present then load files path else .error (.missing path)
  applySeed seed c

end Config

end DependencyAtlas
