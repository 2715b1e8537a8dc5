import DependencyAtlas.Analysis.Cycle
import DependencyAtlas.Analysis.Topology
import DependencyAtlas.Error

/-!
# Dependency cycles

A depth-first search with three colours. Roots and successors are visited in ascending order. An
edge to a grey vertex closes a cycle: the part of the stack from that vertex up. The search is a
state that is stepped until it is finished, and stops early when a cycle is found beyond the cap.
-/

namespace DependencyAtlas

/-- White vertices were not visited, grey ones are on the stack, black ones are finished. -/
inductive Colour where
  | white
  | grey
  | black
deriving DecidableEq

structure Frame where
  vertex : Nat
  position : Nat
deriving DecidableEq

structure CycleSearch where
  colours : Array Colour
  /-- The top of the stack is the head of the list. -/
  stack : List Frame
  root : Nat
  /-- The canonical cycles found so far, the latest first. -/
  found : List (List Nat)
  truncated : Bool

namespace CycleSearch

def start (size : Nat) : CycleSearch where
  colours := Array.replicate size .white
  stack := []
  root := 0
  found := []
  truncated := false

def colour (s : CycleSearch) (v : Nat) : Colour :=
  s.colours[v]?.getD .black

def paint (s : CycleSearch) (v : Nat) (c : Colour) : CycleSearch :=
  { s with colours := s.colours.setIfInBounds v c }

/-- The vertices on the stack from `v` up to the top, if `v` is on it. -/
def stackFrom? (v : Nat) (stack : List Frame) : Option (List Nat) :=
  let vertices := stack.map (·.vertex)
  if v ∈ vertices then some (v :: (vertices.takeWhile fun u => u ≠ v).reverse) else none

def missing (t : Topology) (v : Nat) : AnalysisError :=
  ⟨"cycles", s!"grey node {t.id v} is not on the DFS stack"⟩

/-- Reports the cycle that an edge to the grey vertex `v` closes, unless it is known. A cycle beyond
the cap ends the search. -/
def close (t : Topology) (cap : Nat) (v : Nat) (s : CycleSearch) :
    Except AnalysisError CycleSearch :=
  match stackFrom? v s.stack with
  | none => .error (missing t v)
  | some body =>
    let cycle := Cycle.canonicalize body
    if s.found.contains cycle then .ok s
    else if cap ≤ s.found.length then .ok { s with truncated := true }
    else .ok { s with found := cycle :: s.found }

def visit (t : Topology) (cap : Nat) (v : Nat) (s : CycleSearch) :
    Except AnalysisError CycleSearch :=
  match s.colour v with
  | .white => .ok { s.paint v .grey with stack := ⟨v, 0⟩ :: s.stack }
  | .grey => s.close t cap v
  | .black => .ok s

def step (t : Topology) (cap : Nat) (s : CycleSearch) :
    Except AnalysisError (Option CycleSearch) :=
  if s.truncated then .ok none
  else
    match s.stack with
    | [] =>
      if s.root < t.size then
        let next := { s with root := s.root + 1 }
        match s.colour s.root with
        | .white => .ok (some { next.paint s.root .grey with stack := [⟨s.root, 0⟩] })
        | _ => .ok (some next)
      else .ok none
    | top :: below =>
      match (t.successors top.vertex)[top.position]? with
      | none => .ok (some { s.paint top.vertex .black with stack := below })
      | some v =>
        let next := { s with stack := { top with position := top.position + 1 } :: below }
        (next.visit t cap v).map some

def run (t : Topology) (cap : Nat) : Nat → CycleSearch → Except AnalysisError CycleSearch
  | 0, s => .ok s
  | fuel + 1, s =>
    match s.step t cap with
    | .error e => .error e
    | .ok none => .ok s
    | .ok (some next) => run t cap fuel next

/-- The steps a search may take: each vertex is tried as a root and finished, and each edge is
looked at, at most once. -/
def stepBound (t : Topology) : Nat :=
  2 * t.size + (t.vertices.flatMap t.successors).length + 1

def final (t : Topology) (cap : Nat) : Except AnalysisError CycleSearch :=
  run t cap (stepBound t) (start t.size)

end CycleSearch

structure CycleReport where
  cycles : List (List String)
  truncated : Bool
deriving DecidableEq

namespace Topology

/-- What is reported of a search. Ascending numbers stand for ascending identifiers, so sorted
numbers give sorted names. -/
def named (t : Topology) (s : CycleSearch) : CycleReport :=
  let sorted := s.found.mergeSort fun a b => (compare a b).isLE
  ⟨sorted.map fun cycle => cycle.map t.id, s.truncated⟩

def tryCycles (t : Topology) (cap : Nat) : Except AnalysisError CycleReport :=
  (CycleSearch.final t cap).map t.named

def cycles (t : Topology) (cap : Nat) : CycleReport :=
  (t.tryCycles cap).toOption.getD ⟨[], false⟩

end Topology

end DependencyAtlas
