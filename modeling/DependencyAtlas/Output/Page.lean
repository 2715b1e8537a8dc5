import DependencyAtlas.Json.Printer

/-!
# Pages

What a command shows, in three forms: lines for scripts, lines for people, and JSON. The form is
chosen on the command line, or else by the environment, or else by whether people look.
-/

namespace DependencyAtlas

inductive OutputMode where
  /-- Sections for people. -/
  | pretty
  /-- Lines of values between tabs. -/
  | text
  | json
deriving DecidableEq

namespace OutputMode

def name : OutputMode → String
  | pretty => "pretty"
  | text => "text"
  | json => "json"

def all : List OutputMode :=
  [pretty, text, json]

def ofName? (s : String) : Option OutputMode :=
  all.find? fun m => m.name == s

/-- The form to use, given the one asked for, whether JSON was asked for, the word in the
environment and whether the output goes to a terminal. A word that is no form does not count. -/
def resolve (format : Option OutputMode) (json : Bool) (word : Option String) (terminal : Bool) :
    OutputMode :=
  let asked := if json then some OutputMode.json else none
  let fromWord := word.bind fun w => ofName? (String.ofList (w.toList.map Char.toLower))
  (format <|> asked <|> fromWord).getD (if terminal then pretty else text)

end OutputMode

structure Page where
  text : List String
  pretty : List String
  json : Json

namespace Page

def joinLines (lines : List String) : String :=
  String.join (lines.map fun line => line ++ "\n")

def render (p : Page) : OutputMode → String
  | .pretty => joinLines p.pretty
  | .text => joinLines p.text
  | .json => p.json.print ++ "\n"

def tabbed (values : List String) : String :=
  String.intercalate "\t" values

def padRight (width : Nat) (s : String) : String :=
  s ++ String.ofList (List.replicate (width - s.length) ' ')

def padLeft (width : Nat) (s : String) : String :=
  String.ofList (List.replicate (width - s.length) ' ') ++ s

def rule : String :=
  String.ofList (List.replicate 72 '-')

def sectionOf (heading : String) (body : List String) : List String :=
  heading :: rule :: body

def sections (parts : List (List String)) : List String :=
  (parts.intersperse [""]).flatten

/-- A name and its value, the values of several names one below the other. -/
def field (name value : String) : String :=
  padRight 16 (name ++ ":") ++ " " ++ value

def listed (nothing : String) (lines : List String) : List String :=
  (if lines.isEmpty then [nothing] else lines).map fun line => "  " ++ line

def counted (count : Nat) (name : String) : String :=
  padLeft 5 (toString count) ++ "  " ++ name

end Page

end DependencyAtlas
