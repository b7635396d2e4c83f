import CallClusters.Graph.Basic
import CallClusters.Number
import CallClusters.Traced

/-! Building a graph from input in which names repeat and edges dangle. The builder drops what
the checked operations of `Graph` would refuse, and reports the edges it drops. It finds names
through an index of their positions. -/

namespace CallClusters

/-- Positions of names, of which the first one counts. -/
abbrev NameIndex := List (String × Nat)

/-- Enters `name` at `next` unless it is there already; with the position that it then has. -/
def NameIndex.enter (index : NameIndex) (name : String) (next : Nat) : NameIndex × Nat :=
  match index.lookup name with
  | some i => (index, i)
  | none => ((name, next) :: index, next)

/-- Every listed name has its own position in the index, and no other name has one. -/
def NameIndex.Lists (index : NameIndex) (nodes : List String) : Prop :=
  ∀ name i, index.lookup name = some i ↔ nodes[i]? = some name

structure Builder (W : Type) where
  index : NameIndex
  nodes : List String
  edges : List (Edge W)
  indexed : index.Lists nodes

/-- A name is listed just when it has been entered at the end. -/
theorem NameIndex.Lists.enter {index : NameIndex} {nodes : List String} (h : index.Lists nodes)
    (name : String) :
    (index.enter name nodes.length).1.Lists
      (if (index.enter name nodes.length).2 = nodes.length then nodes ++ [name] else nodes) := by
  unfold NameIndex.enter
  split
  · rename_i i hi
    have hlt : i < nodes.length := (List.getElem?_eq_some_iff.1 ((h name i).1 hi)).1
    rw [if_neg (Nat.ne_of_lt hlt)]
    exact h
  · rename_i hnone
    rw [if_pos rfl]
    intro other i
    rw [List.getElem?_append, List.lookup_cons]
    by_cases hother : other = name
    · subst hother
      have habsent : nodes[i]? ≠ some other := by
        intro hi
        rw [(h other i).2 hi] at hnone
        cases hnone
      grind
    · have := h other i
      grind

namespace Builder

variable {W : Type}

def empty : Builder W := ⟨[], [], [], by simp [NameIndex.Lists]⟩

def contains (b : Builder W) (name : String) : Bool := (b.index.lookup name).isSome

/-- The node of that name. -/
def node? (b : Builder W) (name : String) : Option String := do b.nodes[← b.index.lookup name]?

/-- A name that is present already is not added again. -/
def addNode (b : Builder W) (name : String) : Builder W :=
  let next := b.nodes.length
  let entered := b.index.enter name next
  { b with
    index := entered.1
    nodes := if entered.2 = next then b.nodes ++ [name] else b.nodes
    indexed := b.indexed.enter name }

def addNodes (b : Builder W) (names : List String) : Builder W := names.foldl addNode b

/-- The report on an edge that was dropped. -/
def skipped (source target : String) : Event W :=
  .edgeSkipped source target "endpoint is not among the graph's nodes"

/-- A call of weight one between two present nodes. -/
def addEdge [Number W] (b : Builder W) (source target : String) (method caller : Method) :
    Builder W × Bool × List (Event W) :=
  match b.node? source, b.node? target with
  | some source, some target =>
    ({ b with edges := b.edges ++ [⟨source, target, method, caller, Number.ofNat 1⟩] }, true, [])
  | _, _ => (b, false, [skipped source target])

def build (b : Builder W) : Graph W := ⟨b.nodes, b.edges⟩

end Builder

end CallClusters
