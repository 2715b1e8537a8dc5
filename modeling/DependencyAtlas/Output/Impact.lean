import DependencyAtlas.Graph.Impact
import DependencyAtlas.Output.Page

/-!
# The page of an impact

The units that a change of some files affects, all of them or those of one kind.
-/

namespace DependencyAtlas

namespace Graph

def affectedOfKind (g : Graph) (files : List String) (kind : Option UnitKind) : List String :=
  match kind with
  | none => g.affectedBy files
  | some k =>
    let units := g.unitsOfKind k
    (g.affectedBy files).filter units.contains

end Graph

structure Impact where
  files : List String
  kind : Option UnitKind
  affected : List String
deriving DecidableEq

namespace Impact

def ofGraph (g : Graph) (files : List String) (kind : Option UnitKind) : Impact :=
  ⟨files, kind, g.affectedOfKind files kind⟩

def text (i : Impact) : List String :=
  i.affected

def heading (i : Impact) : String :=
  let only :=
    match i.kind with
    | some k => s!", {k.name} only"
    | none => ""
  s!"Affected units ({i.affected.length}) for {i.files.length} changed file(s){only}"

def pretty (i : Impact) : List String :=
  Page.sectionOf i.heading
    (Page.listed "No registered unit is defined in the changed files." i.affected)

def toJson (i : Impact) : Json :=
  .object ([("changed_files", .list (i.files.map .text))] ++
    (match i.kind with
      | some k => [("kind", k.toJson)]
      | none => []) ++
    [("affected", .list (i.affected.map .text))])

def page (i : Impact) : Page :=
  ⟨i.text, i.pretty, i.toJson⟩

end Impact

end DependencyAtlas
