/-!
# Breadth-first search

Vertices are numbers below a size. The search takes vertices from a queue and puts their unseen
neighbours into it in the order in which the neighbours are given, remembering from where each was
first seen. The queue is two lists: the front in order and the back in reverse.
-/

namespace DependencyAtlas

structure Waiting where
  vertex : Nat
  distance : Nat
deriving DecidableEq

structure BreadthFirst where
  seen : Array Bool
  /-- From where a vertex was first seen; the start has no parent. -/
  parent : Array (Option Nat)
  front : List Waiting
  back : List Waiting
  /-- The vertices seen besides the start, the latest first. -/
  found : List Nat

namespace BreadthFirst

def start (size source : Nat) : BreadthFirst where
  seen := (Array.replicate size false).setIfInBounds source true
  parent := Array.replicate size none
  front := [⟨source, 0⟩]
  back := []
  found := []

def idle (size : Nat) : BreadthFirst where
  seen := .replicate size false
  parent := .replicate size none
  front := []
  back := []
  found := []

/-- A search about to leave its start, in the cleared buffers of an earlier one. -/
def restart (s : BreadthFirst) (source : Nat) : BreadthFirst where
  seen := (s.seen.map fun _ => false).setIfInBounds source true
  parent := s.parent.map fun _ => none
  front := [⟨source, 0⟩]
  back := []
  found := []

/-- Whether a vertex was seen. Nothing outside the graph is ever unseen. -/
def hasSeen (s : BreadthFirst) (v : Nat) : Bool :=
  s.seen[v]?.getD true

def queue (s : BreadthFirst) : List Waiting :=
  s.front ++ s.back.reverse

def meet (w : Waiting) (s : BreadthFirst) (v : Nat) : BreadthFirst :=
  if s.hasSeen v then s
  else
    { s with
      seen := s.seen.setIfInBounds v true
      parent := s.parent.setIfInBounds v (some w.vertex)
      back := ⟨v, w.distance + 1⟩ :: s.back
      found := v :: s.found }

def pop? (s : BreadthFirst) : Option (Waiting × BreadthFirst) :=
  match s.front with
  | w :: rest => some (w, { s with front := rest })
  | [] =>
    match s.back.reverse with
    | w :: rest => some (w, { s with front := rest, back := [] })
    | [] => none

/-- Searches until the queue is empty or a vertex to stop at is taken from it. The fuel bounds the
number of vertices taken. -/
def run (neighbours : Waiting → List Nat) (stop : Nat → Bool) : Nat → BreadthFirst → BreadthFirst
  | 0, s => s
  | fuel + 1, s =>
    match s.pop? with
    | none => s
    | some (w, rest) =>
      if stop w.vertex then rest
      else run neighbours stop fuel ((neighbours w).foldl (meet w) rest)

/-- The search from a vertex of a graph of the given size. Each vertex enters the queue at most
once. -/
def search (size : Nat) (neighbours : Waiting → List Nat) (stop : Nat → Bool) (source : Nat) :
    BreadthFirst :=
  run neighbours stop (size + 1) (start size source)

def discovered (s : BreadthFirst) : List Nat :=
  s.found.reverse

theorem queue_meet (w : Waiting) (s : BreadthFirst) (v : Nat) :
    (s.meet w v).queue = if s.hasSeen v then s.queue else s.queue ++ [⟨v, w.distance + 1⟩] := by
  unfold meet queue
  by_cases h : s.hasSeen v <;> simp [h]

theorem pop?_eq_none_iff (s : BreadthFirst) : s.pop? = none ↔ s.queue = [] := by
  unfold pop? queue
  cases hf : s.front with
  | cons w rest => simp
  | nil =>
    cases hb : s.back.reverse with
    | cons w rest => simp
    | nil => simp

theorem queue_of_pop? {s t : BreadthFirst} {w : Waiting} (h : s.pop? = some (w, t)) :
    s.queue = w :: t.queue := by
  unfold pop? at h
  unfold queue
  cases hf : s.front with
  | cons x rest =>
    simp only [hf, Option.some.injEq, Prod.mk.injEq] at h
    obtain ⟨rfl, rfl⟩ := h
    rfl
  | nil =>
    cases hb : s.back.reverse with
    | cons x rest =>
      simp only [hf, hb, Option.some.injEq, Prod.mk.injEq] at h
      obtain ⟨rfl, rfl⟩ := h
      simp
    | nil => simp [hf, hb] at h

end BreadthFirst

end DependencyAtlas
