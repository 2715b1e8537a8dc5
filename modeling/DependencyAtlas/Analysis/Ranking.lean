/-!
# Rankings

The highest counts first. Vertices with equal counts come in ascending order, and vertices that
count nothing are left out.
-/

namespace DependencyAtlas

namespace Ranking

/-- The vertices with a positive count, by count descending and then by number ascending. -/
def all (count : Nat → Nat) (vertices : List Nat) : List Nat :=
  (vertices.filter fun v => 0 < count v).mergeSort fun a b =>
    decide (count b < count a) || (count a == count b && decide (a ≤ b))

def top (count : Nat → Nat) (vertices : List Nat) (limit : Nat) : List Nat :=
  (all count vertices).take limit

end Ranking

end DependencyAtlas
