import DependencyAtlas.Analysis.Topology
import DependencyAtlas.Decimal.Binary

/-!
# PageRank

Rank flows along dependencies, so a unit on which important units depend is important. The power
iteration is written for any arithmetic, with the order of its operations fixed: doubles make the
scores that are reported, and exact numbers make the same iteration a subject of algebra.
-/

namespace DependencyAtlas

class Scalar (α : Type) extends Add α, Sub α, Mul α, Div α where
  ofCount : Nat → α
  magnitude : α → α
  below : α → α → Bool
  sumStart : α
  /-- The order of scores, total also where `below` is not. -/
  order : α → α → Ordering

/-- The place of a double among all doubles. What is not a number comes below all numbers, and
negative zero below zero. -/
def floatKey (x : Float) : Int :=
  let bits := x.toBits.toNat
  match Decimal.Binary.ofFloat x with
  | .nan => -(2 * Decimal.signBit : Nat)
  | _ => if bits < Decimal.signBit then bits else (Decimal.signBit : Int) - 1 - bits

/-- Sums of doubles start from negative zero. -/
instance : Scalar Float where
  ofCount := Float.ofNat
  magnitude := Float.abs
  below x y := decide (x < y)
  sumStart := -0.0
  order x y := compare (floatKey x) (floatKey y)

structure RankedUnit (α : Type) where
  identifier : String
  score : α

structure PageRank (α : Type) where
  ranks : List (RankedUnit α)
  iterations : Nat
  converged : Bool

structure RankState (α : Type) where
  ranks : Array α
  iterations : Nat
  converged : Bool

namespace PageRank

variable {α : Type} [Scalar α]

open Scalar (ofCount)

def sum (terms : List α) : α :=
  terms.foldl (· + ·) Scalar.sumStart

def rankAt (ranks : Array α) (v : Nat) : α :=
  ranks[v]?.getD Scalar.sumStart

/-- The rank held by units without registered successors. It is spread over all units. -/
def danglingRank (t : Topology) (ranks : Array α) : α :=
  sum ((t.vertices.filter fun v => (t.successors v).isEmpty).map (rankAt ranks))

def floor (t : Topology) (damping : α) (ranks : Array α) : α :=
  (ofCount 1 - damping) / ofCount t.size + damping * danglingRank t ranks / ofCount t.size

def handOn (t : Topology) (damping : α) (ranks next : Array α) (v : Nat) : Array α :=
  let successors := t.successors v
  if successors.isEmpty then next
  else
    let share := damping * rankAt ranks v / ofCount successors.length
    successors.foldl (fun next w => next.modify w (· + share)) next

def iterate (t : Topology) (damping : α) (ranks : Array α) : Array α :=
  t.vertices.foldl (handOn t damping ranks) (Array.replicate t.size (floor t damping ranks))

def change (t : Topology) (old new : Array α) : α :=
  sum (t.vertices.map fun v => Scalar.magnitude (rankAt old v - rankAt new v))

def loop (t : Topology) (damping tolerance : α) : Nat → RankState α → RankState α
  | 0, s => s
  | left + 1, s =>
    let next := iterate t damping s.ranks
    let converged := Scalar.below (change t s.ranks next) tolerance
    let s' : RankState α := ⟨next, s.iterations + 1, converged⟩
    if converged then s' else loop t damping tolerance left s'

def start (t : Topology) : RankState α :=
  ⟨Array.replicate t.size (ofCount 1 / ofCount t.size), 0, false⟩

def ranked (t : Topology) (ranks : Array α) : List Nat :=
  t.vertices.mergeSort fun a b =>
    ((Scalar.order (rankAt ranks b) (rankAt ranks a)).then (compare a b)).isLE

end PageRank

/-- The units by their score. A graph without units has converged from the start. -/
def Topology.pageRank {α : Type} [Scalar α] (t : Topology) (damping tolerance : α)
    (maxIterations : Nat) : PageRank α :=
  if t.size = 0 then ⟨[], 0, true⟩
  else
    let s := PageRank.loop t damping tolerance maxIterations (PageRank.start t)
    ⟨(PageRank.ranked t s.ranks).map fun v => ⟨t.id v, PageRank.rankAt s.ranks v⟩,
      s.iterations, s.converged⟩

end DependencyAtlas
