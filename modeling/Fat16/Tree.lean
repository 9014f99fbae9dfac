import Fat16.Finding

/-!
# Directory trees

A tree keeps its directories in one array, in the order in which they were reached; the place of a
directory in this array is its id, and children are lists of ids. `Tree.depthFirst` lists the
directories with every directory before its children and the children in entry order.

In a tree every directory has one place, so the listing takes as many steps as there are
directories. This is the bound that `Tree.depthFirst` works with, and nothing else is assumed of
the ids in the lists of children.
-/

namespace Fat16

/-- Where a directory belongs and what it was read from. -/
inductive Place where
  /-- The root directory, which has an area of its own. -/
  | root
  /-- The directory of entry number `entry` in the directory `parent`, read from a chain. -/
  | below (parent entry : Nat) (chain : Chain)
  deriving DecidableEq

/-- A directory of the tree. -/
structure Node where
  /-- The place of this directory in the tree's array. -/
  id : Nat
  /-- Where the directory belongs. -/
  place : Place
  /-- How many steps it is below the root. -/
  depth : Nat
  /-- The sector where it starts. -/
  startSector : Option Nat
  /-- How many bytes it should have. -/
  sizeBytes : Nat
  /-- Its entries. -/
  entries : List DirectoryEntry
  /-- The directories below it that were expanded from its entries. -/
  children : Array Nat
  /-- What was found wrong with it. -/
  findings : Array Finding
  deriving DecidableEq

namespace Node

/-- Whether this is the root directory. -/
def isRoot (node : Node) : Bool := node.place == .root

/-- The directory above. -/
def parent? (node : Node) : Option Nat :=
  match node.place with
  | .root => none
  | .below parent _ _ => some parent

/-- The entry of the directory above that stands for this one. -/
def entry? (node : Node) : Option Nat :=
  match node.place with
  | .root => none
  | .below _ entry _ => some entry

/-- The chain that the directory was read from. -/
def chain? (node : Node) : Option Chain :=
  match node.place with
  | .root => none
  | .below _ _ chain => some chain

/-- The entries that name directories below this one. -/
def subdirectories (node : Node) : List DirectoryEntry :=
  node.entries.filter DirectoryEntry.isSubdirectory

/-- The directory with one more child. -/
def addChild (node : Node) (id : Nat) : Node := { node with children := node.children.push id }

/-- The directory with more findings. -/
def addFindings (node : Node) (findings : List Finding) : Node :=
  { node with findings := node.findings ++ findings }

end Node

/-- The directories reached from the root. -/
structure Tree where
  /-- The directories; the root comes first. -/
  nodes : Array Node
  deriving DecidableEq

namespace Tree

/-- How many directories there are. -/
def size (t : Tree) : Nat := t.nodes.size

/-- The directory with the given id. -/
def get? (t : Tree) (id : Nat) : Option Node := t.nodes[id]?

/-- Lists up to `steps` directories from the stack of ids `waiting` on, after those in `acc`. An id
that is none ends the listing. -/
def visit (t : Tree) : (steps : Nat) → (waiting : List Nat) → (acc : Array Node) → Array Node
  | 0, _, acc => acc
  | _ + 1, [], acc => acc
  | steps + 1, id :: waiting, acc =>
    match t.get? id with
    | none => acc
    | some node => t.visit steps (node.children.toList ++ waiting) (acc.push node)

/-- The directories, each before its children. -/
def depthFirst (t : Tree) : List Node := (t.visit t.size [0] #[]).toList

/-- The findings of all directories with the ids of these, by id. -/
def findings (t : Tree) : List (Nat × Finding) :=
  t.nodes.toList.flatMap fun node ↦ node.findings.toList.map fun f ↦ (node.id, f)

end Tree

end Fat16
