/-!
# Dependencies first

Given things that need one another, `DependencyOrder.of` tells those that lie on a cycle, that is,
that need themselves in the end, from all others, and puts the others in an order in which every
one comes after the things it needs.

A thing lies on a cycle if it is among the things that can be reached from what it needs
(`DependencyOrder.reachable`). The others are put in order by visits: a visit to a thing first
visits what it needs, and then puts the thing at the end (`DependencyOrder.visit`).
-/

namespace ElementCatalog

/-- Things split by whether they need themselves in the end. -/
structure DependencyOrder (α : Type) where
  /-- The things that do not lie on a cycle, each after the things it needs. -/
  order : List α
  /-- The things on cycles, in the order in which they were given. -/
  cyclic : List α
deriving Repr

namespace DependencyOrder

variable {α : Type} [DecidableEq α] (needs : α → List α)

/-- What is reached from the things of a frontier in the given number of steps, together with
what was seen before. -/
def expand : Nat → List α → List α → List α
  | 0, seen, _ => seen
  | steps + 1, seen, frontier =>
    -- Only what was not seen before can lead further.
    let next := (frontier.flatMap needs).eraseDups.filter (· ∉ seen)
    if next = [] then seen else expand steps (seen ++ next) next

/-- The things that a thing needs directly or through others, given how many things there are. -/
def reachable (count : Nat) (thing : α) : List α :=
  let direct := (needs thing).eraseDups
  expand needs count direct direct

/-- The things placed so far with a thing and all that it needs, given how deep needs can go. -/
def visit : Nat → List α → α → List α
  | 0, placed, _ => placed
  | depth + 1, placed, thing =>
    if thing ∈ placed then placed
    else (needs thing).foldl (visit depth) placed ++ [thing]

/-- The given things, each after the things it needs, except for those on cycles. -/
def of (things : List α) : DependencyOrder α :=
  let cyclic := things.filter fun thing => thing ∈ reachable needs things.length thing
  let acyclic := things.filter (· ∉ cyclic)
  let needed thing := (needs thing).filter (· ∈ acyclic)
  { order := acyclic.foldl (visit needed acyclic.length) []
    cyclic := cyclic }

end DependencyOrder

end ElementCatalog
