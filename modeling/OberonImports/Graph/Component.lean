import OberonImports.Graph.Basic

/-!
# Strongly connected components

One depth-first search finds the classes of nodes that reach each other. Nodes are numbered as they
are discovered and kept on a stack until their class is known. Following the edges of a node yields
the lowest number that they lead back to on the stack. If that is the node's own number, then the
node and all that lies above it on the stack form a class.
-/

namespace OberonImports.Graph

/-- The state of the search: the numbers of the discovered nodes, newest first, the nodes whose
class is still open, newest first, and the classes found. -/
structure Search where
  numbers : List (String × Nat)
  stack : List String
  classes : List (List String)
  deriving Repr, DecidableEq

namespace Search

def start : Search := ⟨[], [], []⟩

def next (search : Search) : Nat := search.numbers.length

/-- Number a node and put it on the stack. -/
def discover (search : Search) (name : String) : Search :=
  { search with
    numbers := (name, search.next) :: search.numbers
    stack := name :: search.stack }

/-- Take a node and all above it from the stack, as one class. -/
def close (search : Search) (name : String) : Search :=
  { search with
    stack := (search.stack.dropWhile (· ≠ name)).tail
    classes := (search.stack.takeWhile (· ≠ name) ++ [name]) :: search.classes }

/-- Leave a node: its class is complete if nothing below its own number was reached. -/
def finish (search : Search) (name : String) (number low : Nat) : Search :=
  if low < number then search else search.close name

/-- Follow edges to the `targets` in order. The names in `fresh` are those of the nodes that are not
on the current path. The result is the least of `low` and the numbers reached on the stack. -/
def follow (graph : Graph) (fresh : List String) :
    List String → Nat → Search → Nat × Search
  | [], low, search => (low, search)
  | target :: targets, low, search =>
      match search.numbers.lookup target with
      | some number =>
          follow graph fresh targets
            (if target ∈ search.stack then min low number else low) search
      | none =>
          if _h : target ∈ fresh then
            let number := search.next
            let (reached, search) := follow graph (fresh.erase target)
              (graph.successors target) number (search.discover target)
            follow graph fresh targets (if reached < number then min low reached else low)
              (search.finish target number reached)
          else follow graph fresh targets low search
termination_by targets => (fresh.length, targets.length)
decreasing_by
  · exact .right _ (by simp)
  · have := List.length_erase_of_mem _h
    have := List.length_pos_of_mem _h
    exact .left _ _ (by omega)
  · exact .right _ (by simp)
  · exact .right _ (by simp)

/-- Search from a node that starts no path yet. -/
def visit (graph : Graph) (search : Search) (root : String) : Search :=
  match search.numbers.lookup root with
  | some _ => search
  | none =>
      let number := search.next
      let (reached, search) := follow graph (graph.names.erase root) (graph.successors root)
        number (search.discover root)
      search.finish root number reached

end Search

/-- The classes of nodes that reach each other. -/
def components (graph : Graph) : List (List String) :=
  (graph.names.foldl (Search.visit graph) .start).classes

/-- Whether a class holds a cycle: it has several nodes, or one with an edge to itself. -/
def isCyclic (graph : Graph) : List String → Bool
  | [] => false
  | [name] => graph.hasEdge name name
  | _ => true

/-- The order of lists of names: by the first name that differs, and a list that ends comes
first. -/
def namesLe : List String → List String → Bool
  | [], _ => true
  | _ :: _, [] => false
  | first :: names, other :: others =>
      if first = other then namesLe names others else first < other

/-- The import cycles: for each class that holds one, its names in ascending order. The lists are in
ascending order too. -/
def cycles (graph : Graph) : List (List String) :=
  ((graph.components.filter graph.isCyclic).map (·.mergeSort (· ≤ ·))).mergeSort namesLe

end OberonImports.Graph
