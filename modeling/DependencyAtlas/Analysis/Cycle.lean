/-!
# Canonical cycles

A cycle is written from its least member round to that member again. The open form of a cycle,
which does not repeat its first member, and the closed form have one canonical form.
-/

namespace DependencyAtlas

namespace Cycle

/-- The members of a cycle in open or closed form, without the repeated first one. -/
def body {α : Type} [DecidableEq α] : List α → List α
  | first :: second :: rest =>
    if (second :: rest).getLast? = some first then (first :: second :: rest).dropLast
    else first :: second :: rest
  | short => short

def least {α : Type} [LT α] [DecidableLT α] (first : α) (rest : List α) : α :=
  rest.foldl (fun m x => if x < m then x else m) first

def canonicalize {α : Type} [DecidableEq α] [LT α] [DecidableLT α] (cycle : List α) : List α :=
  match body cycle with
  | [] => []
  | first :: rest =>
    let m := least first rest
    let before := (first :: rest).takeWhile fun x => x ≠ m
    let onwards := (first :: rest).dropWhile fun x => x ≠ m
    onwards ++ before ++ [m]

end Cycle

end DependencyAtlas
