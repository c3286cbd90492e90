import X86.Lookup.Step

/-!
The lookup tree. Inserting a path leads to a leaf with the number of its entry; a path that stops
short of an existing branching fills the slots it applies to, and a path that goes on past an
existing leaf leaves that leaf as the default of the new branching. What is there already is never
replaced.
-/

namespace X86
namespace Lookup

/-- A place in the lookup tree: free, taken by an entry, or branching. -/
inductive Node
  | empty
  | leaf (entry : Nat)
  | table (axis : Axis) (slots : List Node)

namespace Node

def isEmpty : Node → Bool
  | empty => true
  | _ => false

def isLeaf : Node → Bool
  | leaf _ => true
  | _ => false

/-- The node in slot `i`; there is nothing past the last slot. -/
def child : Node → Nat → Node
  | table _ slots, i => slots.getD i empty
  | _, _ => empty

/-- An optional entry as a node. -/
def ofLeaf? : Option Nat → Node
  | some entry => leaf entry
  | none => empty

/-- The tree that leads to `entry` along the steps, over an optional default for all that the steps
do not select. -/
def branch (entry : Nat) (fallback : Option Nat) : List Step → Node
  | [] => leaf entry
  | s :: rest =>
    let inherited i := if s.axis.coversByDefault i then fallback else none
    table s.axis <| (List.range s.axis.slotCount).map fun i =>
      if i = s.index.val then branch entry (inherited i) rest else ofLeaf? (inherited i)

mutual

/-- Add the path `steps` to `entry` below a node. -/
def insert (entry : Nat) : Node → List Step → Node
  | empty, steps => branch entry none steps
  | leaf old, [] => leaf old
  | leaf old, s :: rest => branch entry (some old) (s :: rest)
  | table axis slots, steps =>
    match Step.takeFirst? axis steps with
    | some (i, rest) => table axis (insertAt entry slots i rest)
    | none => table axis (insertAll entry axis slots 0 steps)

/-- Add a path in one slot. -/
def insertAt (entry : Nat) : List Node → Nat → List Step → List Node
  | [], _, _ => []
  | n :: ns, 0, steps => insert entry n steps :: ns
  | n :: ns, i + 1, steps => n :: insertAt entry ns i steps

/-- Add a path in every slot that it applies to without selecting one; `i` is the number of the
first slot listed. -/
def insertAll (entry : Nat) (axis : Axis) : List Node → Nat → List Step → List Node
  | [], _, _ => []
  | n :: ns, i, steps =>
    (if axis.coversByDefault i then insert entry n steps else n)
      :: insertAll entry axis ns (i + 1) steps

end

mutual

/-- How many leaves stand exactly where the path would put its own. Leaves that the path merely
passes over as a default are no clash. -/
def clashes : Node → List Step → Nat
  | empty, _ => 0
  | leaf _, [] => 1
  | leaf _, _ :: _ => 0
  | table axis slots, steps =>
    match Step.takeFirst? axis steps with
    | some (i, rest) => clashesAt slots i rest
    | none => clashesAll axis slots 0 steps

def clashesAt : List Node → Nat → List Step → Nat
  | [], _, _ => 0
  | n :: _, 0, steps => clashes n steps
  | _ :: ns, i + 1, steps => clashesAt ns i steps

def clashesAll (axis : Axis) : List Node → Nat → List Step → Nat
  | [], _, _ => 0
  | n :: ns, i, steps =>
    (if axis.coversByDefault i && !(steps.isEmpty && n.isLeaf) then clashes n steps else 0)
      + clashesAll axis ns (i + 1) steps

end

mutual

/-- The number of branchings in the tree. -/
def tableCount : Node → Nat
  | empty | leaf _ => 0
  | table _ slots => 1 + tableCounts slots

def tableCounts : List Node → Nat
  | [] => 0
  | n :: ns => tableCount n + tableCounts ns

end

end Node
end Lookup
end X86
