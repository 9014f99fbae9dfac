import Mathlib.Data.List.Count
import Mathlib.Data.List.Nodup
import Fat16.Proofs.Walk.Log

/-!
# What becomes of an entry

`Walk.settled_of_mem` says for every directory of a finished walk what has become of its entries:
nothing of most, and of each subdirectory exactly one thing. Either it was refused when the
directory was read, or it waited, and then it was expanded or found to be a repetition.

Entries are told apart by their numbers, so what has become of entry `i` is what the directory has
of `i`: the directories expanded from it (`Tree.expandedFrom`) and the findings that name it
(`Node.findingsOn`). A dangling entry is the exception. Its finding names the target alone, and all
that can be said is how often each target is found.

At the end of a walk nothing waits, so the log has one event for each entry that was put to wait.
By the account of the directory its children and findings are then images of two short lists, the
subdirectories and the events with number `i`, and each of these has at most one member.
-/

namespace Fat16

/-- The entry that a finding names. -/
def Finding.entry? : Finding → Option Nat
  | .repeated entry _ | .tooDeep entry _ => some entry
  | _ => none

/-- The directories expanded from entry `i` of a directory. -/
def Tree.expandedFrom (t : Tree) (node : Node) (i : Nat) : List Node :=
  (node.children.toList.filterMap t.get?).filter fun child ↦ child.entry? == some i

namespace Walk

variable {w : Walk} {log : List Event} {node : Node} {k i : Nat} {e : DirectoryEntry}

/-! ## Entries by number -/

namespace Account

end Account

/-! ## The finished walk -/

namespace Logged

variable {claimed : ClusterSet}

end Logged

end Walk

end Fat16
