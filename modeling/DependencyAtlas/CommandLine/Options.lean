/-!
# Options on a command line

How arguments are told apart: long options with two dashes, whose value stands behind an equals
sign or in the next argument, short options that may share one dash, and operands. A value in an
argument of its own does not start with a dash, except for the dash alone. Two dashes alone end the
options.
-/

namespace DependencyAtlas

inductive OptionName where
  | help
  | version
  | verbose
  | format
  | json
  | config
  | hubLimit
  | bridgeLimit
  | sampleSize
  | maxCycles
  | seed
  | pageRank
  | kind
deriving DecidableEq

namespace OptionName

def long : OptionName → String
  | help => "help"
  | version => "version"
  | verbose => "verbose"
  | format => "format"
  | json => "json"
  | config => "config"
  | hubLimit => "hub-limit"
  | bridgeLimit => "bridge-limit"
  | sampleSize => "sample-size"
  | maxCycles => "max-cycles"
  | seed => "seed"
  | pageRank => "pagerank"
  | kind => "kind"

def short? : OptionName → Option Char
  | help => some 'h'
  | version => some 'V'
  | verbose => some 'v'
  | _ => none

def isFlag : OptionName → Bool
  | help => true
  | version => true
  | verbose => true
  | json => true
  | _ => false

end OptionName

inductive Argument where
  | flag (option : OptionName)
  | setting (option : OptionName) (value : String)
  | operand (value : String)
deriving DecidableEq

inductive Ending where
  | complete
  /-- The next argument cannot be understood. -/
  | refused
  /-- The first operand is a word that says what the rest is about. -/
  | word (name : String) (rest : List String)
deriving DecidableEq

/-- The options of a level, and whether its first operand ends it. -/
structure Level where
  options : List OptionName
  endsAtWord : Bool

namespace Level

def looksLikeOption (arg : String) : Bool :=
  match arg.toList with
  | '-' :: _ :: _ => true
  | _ => false

def findLong? (l : Level) (name : List Char) : Option OptionName :=
  l.options.find? fun o => o.long.toList == name

def findShort? (l : Level) (letter : Char) : Option OptionName :=
  l.options.find? fun o => o.short? == some letter

def prepend (a : Argument) (r : List Argument × Ending) : List Argument × Ending :=
  (a :: r.1, r.2)

/-- Tells the arguments of a level apart, as far as they can be understood. -/
def scan (l : Level) : List String → List Argument × Ending
  | [] => ([], .complete)
  | arg :: rest =>
    match arg.toList with
    | ['-', '-'] =>
      if !l.endsAtWord then (rest.map .operand, .complete)
      else if rest.isEmpty then ([], .complete)
      else ([], .refused)
    | '-' :: '-' :: word =>
      let name := word.takeWhile fun c => c != '='
      match l.findLong? name, word.dropWhile fun c => c != '=' with
      | none, _ => ([], .refused)
      | some o, _ :: value =>
        if o.isFlag then ([], .refused)
        else prepend (.setting o (String.ofList value)) (l.scan rest)
      | some o, [] =>
        if o.isFlag then prepend (.flag o) (l.scan rest)
        else
          match rest with
          | value :: rest =>
            if looksLikeOption value then ([], .refused)
            else prepend (.setting o value) (l.scan rest)
          | [] => ([], .refused)
    | '-' :: letter :: letters =>
      let flags := (letter :: letters).map l.findShort?
      let known := flags.takeWhile Option.isSome
      let understood := known.filterMap fun o => o.map Argument.flag
      if known.length < flags.length then (understood, .refused)
      else
        let (arguments, ending) := l.scan rest
        (understood ++ arguments, ending)
    | _ => if l.endsAtWord then ([], .word arg rest) else prepend (.operand arg) (l.scan rest)

end Level

end DependencyAtlas
