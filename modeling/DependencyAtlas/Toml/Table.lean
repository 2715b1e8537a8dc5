import DependencyAtlas.Toml.Key
import DependencyAtlas.Toml.Literal

/-!
# Tables of TOML

The tree that the expressions of a document build up, and the rules for which expressions may
follow which: a key is set once, a table has one header, and dotted keys extend only tables that
dotted keys made.
-/

namespace DependencyAtlas.Toml

open Decoding (Shape)

inductive Origin where
  /-- By the header of a table inside it. -/
  | implied
  /-- By a dotted key. -/
  | dotted
  /-- By a header of its own. -/
  | header
deriving DecidableEq

inductive Item where
  | value (literal : Literal) (span : Span)
  /-- A table with a header reaches from there to the last value directly under it. -/
  | table (origin : Origin) (span : Option Span) (entries : List (Key × Item))
  /-- Tables with one header in double brackets each, the latest first. -/
  | tables (items : List Item)

inductive Scope where
  /-- In the document, under the header of a table. -/
  | document (header : List String)
  | inlineTable

/-- Two expressions that do not go together. -/
inductive Conflict where
  /-- The key is taken. The path is that of the table, where it is told. -/
  | repeatedKey (name : String) (table : Option (List String))
  /-- The key of a header is taken in the table of a path. -/
  | repeatedTable (name : String) (table : List String)
  /-- A path of keys leads to a value of a type that has no keys. -/
  | notATable (path : List String) (typeName : String)

def describePath : List String → String
  | [] => "document root"
  | path =>
    let path := String.intercalate "." path
    s!"table `{path}`"

def Conflict.message : Conflict → String
  | repeatedKey name none => s!"duplicate key `{name}`"
  | repeatedKey name (some path) => s!"duplicate key `{name}` in {describePath path}"
  | repeatedTable name path =>
    let key := writtenKey name
    s!"duplicate key `{key}` in {describePath path}"
  | notATable path typeName =>
    let path := String.intercalate "." path
    s!"dotted key `{path}` attempted to extend non-table type ({typeName})"

def Scope.path? : Scope → Option (List String)
  | document header => some header
  | inlineTable => none

def Scope.blocked (s : Scope) (path : List Key) (k : Key) (l : Literal) : Conflict :=
  match s, l with
  | .inlineTable, .inlineTable => .repeatedKey k.name none
  | _, _ => .notATable ((path ++ [k]).map Key.name) l.typeName

namespace Item

def shape : Item → Shape
  | value l _ => l.shape
  | table .. => .mapping
  | tables _ => .sequence

def emptyTable (origin : Origin) (span : Option Span) : Item :=
  table origin span []

/-- The place of an item. A table without a header of its own has none. -/
def span? : Item → Option Span
  | value _ span => some span
  | table _ span _ => span
  | tables [] => none
  | tables (latest :: earlier) =>
    match latest, (latest :: earlier).getLast? with
    | table _ (some last) _, some (table _ (some first) _) => some ⟨first.start, last.stop⟩
    | _, _ => none

def spanOr (k : Key) (i : Item) : Span :=
  i.span?.getD k.span

/-- Makes a table with a header reach up to a place. -/
def extendTo (stop : Nat) : Item → Item
  | table origin span entries => table origin (span.map fun s => ⟨s.start, stop⟩) entries
  | i => i

def entries : Item → List (Key × Item)
  | table _ _ es => es
  | _ => []

/-- Changes the item under a key, or adds it behind the others. -/
def alter (k : Key) (f : Option Item → Except Conflict Item) :
    List (Key × Item) → Except Conflict (List (Key × Item))
  | [] => do return [(k, ← f none)]
  | e :: rest =>
    if e.1.name = k.name then do return (e.1, ← f (some e.2)) :: rest
    else do return e :: (← alter k f rest)

/-- Changes the table at the end of a path of keys; tables on the way are made if need be. The
latest table counts where there are several. The keys passed so far come first. -/
def descend (scope : Scope) (dotted : Bool) (update : Item → Except Conflict Item) :
    List Key → List Key → Item → Except Conflict Item
  | _, [], t => update t
  | passed, k :: path, table origin span entries => do
    let below (child : Option Item) : Except Conflict Item :=
      let further := descend scope dotted update (passed ++ [k]) path
      match child with
      | none => further (emptyTable (if dotted then .dotted else .implied) none)
      | some (value l _) => .error (scope.blocked passed k l)
      | some (tables []) => .error (.repeatedKey k.name none)
      | some (tables (latest :: earlier)) => do
        return tables ((← further latest) :: earlier)
      | some (table o s es) =>
        if dotted ∧ o = .header then .error (.repeatedKey k.name none) else further (table o s es)
    return table origin span (← alter k below entries)
  | _, k :: _, _ => .error (.repeatedKey k.name none)

/-- Sets a key of a table that is not yet set. Only a dotted key reaches a table made by dotted
keys. -/
def put (scope : Scope) (dotted : Bool) (k : Key) (v : Item) : Item → Except Conflict Item
  | table origin span entries =>
    if (origin = .dotted) ≠ dotted then .error (.repeatedKey k.name none)
    else do
      let fresh (old : Option Item) : Except Conflict Item :=
        if old.isSome then .error (.repeatedKey k.name scope.path?) else .ok v
      return table origin span (← alter k fresh entries)
  | _ => .error (.repeatedKey k.name none)

def assign (t : Item) (scope : Scope) (path : List Key) (k : Key) (v : Item) :
    Except Conflict Item :=
  descend scope true (put scope (!path.isEmpty) k v) [] path t

def assignUnder (root : Item) (header path : List Key) (k : Key) (v : Item) :
    Except Conflict Item :=
  let scope : Scope := .document (header.map Key.name)
  let change (t : Item) : Except Conflict Item := do
    let t ← t.assign scope path k v
    return t.extendTo (v.spanOr k).stop
  descend scope false change [] header root

def changeEntries (path : List Key)
    (change : List (Key × Item) → Except Conflict (List (Key × Item))) (root : Item) :
    Except Conflict Item :=
  let enter : Item → Except Conflict Item
    | table origin span entries => do return table origin span (← change entries)
    | i => .ok i
  descend (.document []) false enter [] path root

/-- Opens a table with a header of its own. It takes its place behind the tables before it, even
if it has been there by implication. -/
def openTable (path : List Key) (k : Key) (span : Span) (root : Item) : Except Conflict Item :=
  let change (entries : List (Key × Item)) : Except Conflict (List (Key × Item)) :=
    match entries.find? fun e => e.1.name == k.name with
    | none => .ok (entries ++ [(k, emptyTable .header (some span))])
    | some (_, table .implied _ inner) =>
      let others := entries.filter fun e => e.1.name != k.name
      .ok (others ++ [(k, table .header (some span) inner)])
    | some _ => .error (.repeatedTable k.name (path.map Key.name))
  changeEntries path change root

def openNextTable (path : List Key) (k : Key) (span : Span) (root : Item) :
    Except Conflict Item :=
  let opened (old : Option Item) : Except Conflict Item :=
    match old with
    | none => .ok (tables [emptyTable .header (some span)])
    | some (tables items) => .ok (tables (emptyTable .header (some span) :: items))
    | some _ => .error (.repeatedTable k.name (path.map Key.name))
  changeEntries path (alter k opened) root

end Item

end DependencyAtlas.Toml
