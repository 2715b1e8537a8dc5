import DependencyAtlas.Decoding.Json

/-!
# Settings of the analyses

Every setting has a default. Settings come from JSON or from a configuration file; both name them
by the same keys and ignore keys they do not know.
-/

namespace DependencyAtlas

structure Config where
  hubLimit : Nat := 20
  bridgeLimit : Nat := 20
  /-- How many pairs of units to sample for bridges. -/
  bridgeSampleSize : Nat := 1000
  /-- Smaller graphs have no bridges. -/
  bridgeMinNodes : Nat := 3
  maxCycles : Nat := 10000
  seed : Option Nat := none
  /-- The probability of following a dependency. -/
  damping : Float := 0.85
  /-- The change of the ranks below which they have converged. -/
  tolerance : Float := 1e-6
  maxIterations : Nat := 100

namespace Config

open Decoding

def keys : List String :=
  ["hub_limit", "bridge_limit", "bridge_sample_size", "bridge_min_nodes", "max_cycles", "seed",
    "pagerank_damping", "pagerank_tolerance", "pagerank_max_iter"]

def set (c : Config) (key : String) (v : Shape) : Except Mismatch Config :=
  match key with
  | "hub_limit" => return { c with hubLimit := ← v.toNatural .size }
  | "bridge_limit" => return { c with bridgeLimit := ← v.toNatural .size }
  | "bridge_sample_size" => return { c with bridgeSampleSize := ← v.toNatural .size }
  | "bridge_min_nodes" => return { c with bridgeMinNodes := ← v.toNatural .size }
  | "max_cycles" => return { c with maxCycles := ← v.toNatural .size }
  | "seed" => return { c with seed := ← v.toOption (Shape.toNatural .word) }
  | "pagerank_damping" => return { c with damping := ← v.toFloat }
  | "pagerank_tolerance" => return { c with tolerance := ← v.toFloat }
  | "pagerank_max_iter" => return { c with maxIterations := ← v.toNatural .size }
  | _ => return c

def setAll (c : Config) (settings : List (String × Json)) : Except Mismatch Config :=
  settings.foldlM (fun c s => c.set s.1 s.2.shape) c

def ofJson : Json → Except Mismatch Config
  | .object fields => setAll {} fields
  | .list items => do
    let c ← setAll {} (keys.zip items)
    endOfItems items (items.drop keys.length) c
  | v => .error (.invalidType v.shape (.record "AnalysisConfig"))

end Config

end DependencyAtlas
