import DependencyAtlas.CommandLine.Run

/-!
# The program

Gathers the environment and the files that a command line looks at, and writes what the run of it
yields.
-/

namespace DependencyAtlas

def entryOfError : IO.Error → FileEntry
  | .noFileOrDirectory .. => .noSuchFile
  | .inappropriateType _ code _ => if code = 21 then .isADirectory else .notADirectory
  | .invalidArgument .. => .nameTooLong
  | e => .unreadable (toString e)

def readEntry (path : String) : IO FileEntry := do
  try
    return .content (← IO.FS.readBinFile path)
  catch e =>
    return entryOfError e

def drawChance : IO UInt64 := do
  let bytes ← IO.getRandomBytes 8
  return bytes.foldl (fun n b => n * 256 + b.toUInt64) 0

def gatherEnvironment (args : List String) : IO Environment := do
  let env : Environment := {
    files := fun _ => .noSuchFile
    userConfig := Config.userPath (← IO.getEnv "XDG_CONFIG_HOME") (← IO.getEnv "HOME")
    seed := ← IO.getEnv "UNITGRAPH_SEED"
    format := ← IO.getEnv "UNITGRAPH_FORMAT"
    terminal := ← (← IO.getStdout).isTty
    chance := ← drawChance }
  let entries ← (pathsToRead env args).mapM fun path => do return (path, ← readEntry path)
  let files (path : String) : FileEntry :=
    match entries.find? fun e => e.1 == path with
    | some e => e.2
    | none => .noSuchFile
  return { env with files := files }

end DependencyAtlas

open DependencyAtlas in
def main (args : List String) : IO UInt32 := do
  let env ← gatherEnvironment args
  let outcome := runArguments env args
  IO.print outcome.stdout
  IO.eprint outcome.stderr
  return outcome.exit.toUInt32
