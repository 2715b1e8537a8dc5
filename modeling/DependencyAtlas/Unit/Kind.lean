import DependencyAtlas.Decoding.Json
import DependencyAtlas.Error
import DependencyAtlas.Text.Blank

/-!
# Kinds of code units

The closed set of kinds, their names, and the two ways a kind is read: from JSON, where the name
must be exact, and from a word typed by a person, where blanks and the case of ASCII letters do not
count. Both know a few other names of the vendored kind and of `graphql`.
-/

namespace DependencyAtlas

inductive UnitKind where
  | model
  | controller
  | service
  | job
  | mailer
  | component
  | concern
  | helper
  | serializer
  | policy
  | validator
  | route
  | middleware
  | migration
  | graphql
  /-- Source that is vendored: the inside of a framework or of a library. -/
  | framework
  | other
deriving DecidableEq

namespace UnitKind

def all : List UnitKind :=
  [model, controller, service, job, mailer, component, concern, helper, serializer, policy,
    validator, route, middleware, migration, graphql, framework, other]

theorem mem_all (k : UnitKind) : k ∈ all := by
  cases k <;> decide

def name : UnitKind → String
  | model => "model"
  | controller => "controller"
  | service => "service"
  | job => "job"
  | mailer => "mailer"
  | component => "component"
  | concern => "concern"
  | helper => "helper"
  | serializer => "serializer"
  | policy => "policy"
  | validator => "validator"
  | route => "route"
  | middleware => "middleware"
  | migration => "migration"
  | graphql => "graphql"
  | framework => "framework"
  | other => "other"

/-- Vendored units have no dependents inside the application by construction. -/
def isVendored (k : UnitKind) : Bool :=
  k == framework

def aliases : UnitKind → List String
  | graphql => ["graph_ql"]
  | framework => ["gem_source", "rails_source", "vendored"]
  | _ => []

def words (k : UnitKind) : List String :=
  (k.name :: k.aliases).mergeSort fun a b => decide (a ≤ b)

/-- The kind with the given name or other name, exactly. -/
def ofWord? (s : String) : Option UnitKind :=
  all.find? fun k => k.name == s || k.aliases.contains s

/-- The kind that a person means by a word. -/
def parse (s : String) : Except GraphError UnitKind :=
  match ofWord? (String.ofList ((Text.trimChars s.toList).map Char.toLower)) with
  | some k => .ok k
  | none => .error (.unknownKind s)

def ofName (s : String) : Except Decoding.Mismatch UnitKind :=
  match ofWord? s with
  | some k => .ok k
  | none => .error (.unknownWord s (all.flatMap words))

/-- Decodes a kind from a name or from an object whose one key is a name and whose value is
null. -/
def ofJson : Json → Except Decoding.Mismatch UnitKind
  | .text s => ofName s
  | .object [(s, payload)] => do
    let k ← ofName s
    match payload with
    | .null => .ok k
    | v => .error (.invalidType v.shape .nothing)
  | .object _ => .error (.invalidValue .mapping .singleKey)
  | v => .error (.invalidType v.shape .kind)

def toJson (k : UnitKind) : Json :=
  .text k.name

theorem ofName_name (k : UnitKind) : ofName k.name = .ok k := by
  cases k <;> rfl

@[simp] theorem ofJson_toJson (k : UnitKind) : ofJson k.toJson = .ok k :=
  ofName_name k

end UnitKind

end DependencyAtlas
