import DependencyAtlas.Analysis.Ranking
import DependencyAtlas.Analysis.Topology
import DependencyAtlas.Error
import DependencyAtlas.Random.Generator
import DependencyAtlas.Search.BreadthFirst

/-!
# Bridges

A bridge lies inside the shortest paths between other units. For each pair of units one shortest
path is taken, the one that a breadth-first search meets first, and its inner units are counted.
Small graphs are counted over all ordered pairs, large ones over a sample of pairs.
-/

namespace DependencyAtlas

structure Bridge where
  identifier : String
  count : Nat
deriving DecidableEq

namespace Topology

def search (t : Topology) (buffers : BreadthFirst) (source : Nat) (stop : Nat → Bool) :
    BreadthFirst :=
  .run (fun w => t.successors w.vertex) stop (t.size + 1) (buffers.restart source)

def searchFrom (t : Topology) (buffers : BreadthFirst) (source : Nat) : BreadthFirst :=
  t.search buffers source fun _ => false

def searchTo (t : Topology) (buffers : BreadthFirst) (source target : Nat) : BreadthFirst :=
  t.search buffers source fun v => v == target

end Topology

namespace BreadthFirst

def parentOf (s : BreadthFirst) (v : Nat) : Option Nat :=
  s.parent[v]?.getD none

/-- The vertices from one back to the source, which is left out. There is no answer if the parents
end elsewhere or are more than the fuel. -/
def walkBack? (s : BreadthFirst) (source : Nat) : Nat → Option Nat → Option (List Nat)
  | _, none => none
  | 0, some v => if v = source then some [] else none
  | fuel + 1, some v =>
    if v = source then some [] else (s.walkBack? source fuel (s.parentOf v)).map (v :: ·)

/-- The inner vertices of the path to a target, the last one first; there are none if the target was
not reached. -/
def interior? (s : BreadthFirst) (source target : Nat) : Option (List Nat) :=
  if s.seen[target]?.getD false then
    -- More steps than there are vertices mean that the parents go round in a circle.
    s.walkBack? source (s.parent.size + 1) (s.parentOf target)
  else some []

end BreadthFirst

namespace Bridges

def broken (t : Topology) (source target : Nat) : AnalysisError :=
  ⟨"bridges", s!"broken BFS parent chain from {t.id source} to {t.id target}"⟩

def count (tally : Array Nat) (vertices : List Nat) : Array Nat :=
  vertices.foldl (fun tally v => tally.modify v (· + 1)) tally

def tallyPath (t : Topology) (s : BreadthFirst) (source target : Nat) (tally : Array Nat) :
    Except AnalysisError (Array Nat) :=
  match s.interior? source target with
  | some vertices => .ok (count tally vertices)
  | none => .error (broken t source target)

def othersOf (t : Topology) (source : Nat) : List Nat :=
  t.vertices.filter fun v => v ≠ source

def tallyFrom (t : Topology) (state : BreadthFirst × Array Nat) (source : Nat) :
    Except AnalysisError (BreadthFirst × Array Nat) :=
  let s := t.searchFrom state.1 source
  ((othersOf t source).foldlM (fun tally target => tallyPath t s source target tally)
    state.2).map fun tally => (s, tally)

def tallyAll (t : Topology) : Except AnalysisError (Array Nat) :=
  (t.vertices.foldlM (tallyFrom t) (.idle t.size, .replicate t.size 0)).map Prod.snd

/-- The pair of different units that two draws stand for: the second draw skips the first. -/
def pairOf (i j : Nat) : Nat × Nat :=
  (i, if i ≤ j then j + 1 else j)

def drawPair {σ : Type} [Generator σ] (size : Nat) (g : σ) : (Nat × Nat) × σ :=
  let (i, g) := Generator.below size g
  let (j, g) := Generator.below (size - 1) g
  (pairOf i j, g)

def tallySample {σ : Type} [Generator σ] (t : Topology) :
    Nat → σ → BreadthFirst → Array Nat → Except AnalysisError (Array Nat)
  | 0, _, _, tally => .ok tally
  | draws + 1, g, buffers, tally =>
    let ((source, target), g) := drawPair t.size g
    let s := t.searchTo buffers source target
    match tallyPath t s source target tally with
    | .error e => .error e
    | .ok tally => tallySample t draws g s tally

/-- The counts over all pairs if there are at most `sampleSize` of them, and else over that many
drawn pairs. -/
def tally {σ : Type} [Generator σ] (t : Topology) (sampleSize : Nat) (g : σ) :
    Except AnalysisError (Array Nat) :=
  if t.size * (t.size - 1) ≤ sampleSize then tallyAll t
  else tallySample t sampleSize g (.idle t.size) (.replicate t.size 0)

end Bridges

namespace Topology

def ranked (t : Topology) (limit : Nat) (tally : Array Nat) : List Bridge :=
  let count (v : Nat) : Nat := tally[v]?.getD 0
  (Ranking.top count t.vertices limit).map fun v => ⟨t.id v, count v⟩

/-- The `limit` units with the highest counts. Graphs with fewer than `minNodes` units have no
bridges. -/
def tryBridges {σ : Type} [Generator σ] (t : Topology) (limit sampleSize minNodes : Nat) (g : σ) :
    Except AnalysisError (List Bridge) :=
  if t.size < max minNodes 2 ∨ limit = 0 then .ok []
  else (Bridges.tally t sampleSize g).map (t.ranked limit)

def bridges {σ : Type} [Generator σ] (t : Topology) (limit sampleSize minNodes : Nat) (g : σ) :
    List Bridge :=
  (t.tryBridges limit sampleSize minNodes g).toOption.getD []

end Topology

end DependencyAtlas
