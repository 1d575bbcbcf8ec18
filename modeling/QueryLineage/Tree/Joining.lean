import QueryLineage.Tree.Node

/-!
# Joining siblings

Groups are built by passes over a run of siblings. A pass goes from left to right; at each sibling
it measures how many of the siblings behind it belong to the same group, and joins them with it.
Siblings are found by stepping over filler, and what is stepped over becomes part of the group, so
that a pass changes the shape of a tree but none of its leaves.
-/

namespace QueryLineage.Node

/-- The number of siblings up to and including the first that is not filler, if that satisfies
`p`. -/
def reach (filler : Filler) (p : Node → Bool) : List Node → Option Nat
  | [] => none
  | node :: siblings =>
    if node.isFiller filler then (reach filler p siblings).map (· + 1)
    else if p node then some 1
    else none

/-- Reaches several siblings one after the other. -/
def reaches (filler : Filler) : List (Node → Bool) → List Node → Option Nat
  | [], _ => some 0
  | p :: ps, siblings => do
    let n ← reach filler p siblings
    let m ← reaches filler ps (siblings.drop n)
    pure (n + m)

/-- Joins every sibling for which `extent` counts siblings behind it with as many of them. What has
been joined is not looked at again. -/
def joinOnce (extent : Node → List Node → Option Nat) (join : Node → List Node → Node) :
    List Node → List Node
  | [] => []
  | node :: siblings =>
    match extent node siblings with
    | some n => join node (siblings.take n) :: joinOnce extent join (siblings.drop n)
    | none => node :: joinOnce extent join siblings
termination_by siblings => siblings.length

/-- Joins siblings like `joinOnce`, and looks again at what has been joined, which may be the first
part of a larger group. -/
def joinRepeatedly (extent : Node → List Node → Option Nat) (join : Node → List Node → Node) :
    List Node → List Node
  | [] => []
  | [node] => [node]
  | node :: next :: siblings =>
    match extent node (next :: siblings) with
    | some (n + 1) =>
      joinRepeatedly extent join (join node (next :: siblings.take n) :: siblings.drop n)
    | _ => node :: joinRepeatedly extent join (next :: siblings)
termination_by siblings => siblings.length

/-- Puts a node and the siblings behind it into a new group. -/
def enclose (kind : Kind) (node : Node) (siblings : List Node) : Node :=
  group kind (node :: siblings)

/-- Adds siblings to an identifier; any other node becomes the first part of one. -/
def attach : Node → List Node → Node
  | group .identifier children, siblings => group .identifier (children ++ siblings)
  | leaf .identifier _, siblings => group .identifier siblings
  | node, siblings => group .identifier (node :: siblings)

end QueryLineage.Node
