import CallClusters.Graph.Builder
import CallClusters.Json.Printer
import CallClusters.Json.Row

/-! Graphs as JSON data. A record may lack what a graph cannot: an edge record need not name its
methods, and its ends need not be nodes. Reading data into a record, and making a graph of a
record, are two steps with errors of their own. -/

namespace CallClusters

/-! ### Methods and nodes -/

namespace Parameter

def toJson (p : Parameter) : Json := .record [("type", .text p.type), ("value", .text p.name)]

def ofJson? (j : Json) : Option Parameter := do
  let row ← j.row? ["type", "value"] 0
  return {
    type := ← row.defaulted? "type" "" Json.string?
    name := ← row.defaulted? "value" "" Json.string? }

end Parameter

namespace Method

def toJson (m : Method) : Json := .record [
  ("return_type", .text m.returnType),
  ("method_name", .text m.name),
  ("declaring_class", .text m.declaringClass),
  ("arguments", .array (m.parameters.map Parameter.toJson)),
  ("method_signature", .text m.signature)]

def ofJson? (j : Json) : Option Method := do
  let row ← j.row?
    ["return_type", "method_name", "declaring_class", "arguments", "method_signature"] 0
  return {
    returnType := ← row.defaulted? "return_type" "" Json.string?
    name := ← row.defaulted? "method_name" "" Json.string?
    declaringClass := ← row.defaulted? "declaring_class" "" Json.string?
    parameters := ← row.defaulted? "arguments" [] (Json.list? Parameter.ofJson?)
    signature := ← row.defaulted? "method_signature" "" Json.string? }

end Method

def nodeToJson (name : String) : Json := .record [("name", .text name)]

def nodeOfJson? (j : Json) : Option String := do
  (← j.row? ["name"] 0).defaulted? "name" "" Json.string?

/-! ### Edges -/

structure EdgeRecord where
  source : String
  target : String
  method : Option Method
  caller : Option Method
  deriving DecidableEq

namespace EdgeRecord

/-- A missing method is left out. -/
def toJson (e : EdgeRecord) : Json := .record (
  [("source", .text e.source), ("destination", .text e.target)]
  ++ (e.method.map fun m => ("link_method", m.toJson)).toList
  ++ (e.caller.map fun m => ("source_method", m.toJson)).toList)

def ofJson? (j : Json) : Option EdgeRecord := do
  let row ← j.row? ["source", "destination", "link_method", "source_method"] 0
  return {
    source := ← row.defaulted? "source" "" Json.string?
    target := ← row.defaulted? "destination" "" Json.string?
    method := ← row.optional? "link_method" Method.ofJson?
    caller := ← row.optional? "source_method" Method.ofJson? }

def ofEdge {W : Type} (e : Edge W) : EdgeRecord := ⟨e.source, e.target, some e.method, some e.caller⟩

/-- The called method and the calling one; of two missing methods the called one is named. -/
def methods (e : EdgeRecord) : Except Fault (Method × Method) :=
  match e.method, e.caller with
  | some method, some caller => .ok (method, caller)
  | none, _ => .error (.missingMethod e.source e.target "link_method")
  | _, none => .error (.missingMethod e.source e.target "source_method")

/-- An edge by itself, of weight one. -/
def toEdge {W : Type} [Number W] (e : EdgeRecord) : Except Fault (Edge W) := do
  let (method, caller) ← e.methods
  return ⟨e.source, e.target, method, caller, Number.ofNat 1⟩

end EdgeRecord

/-! ### Graphs -/

structure GraphRecord where
  nodes : List String
  edges : List EdgeRecord
  deriving DecidableEq

namespace GraphRecord

variable {W : Type}

def toJson (g : GraphRecord) : Json := .record [
  ("nodes", .array (g.nodes.map nodeToJson)),
  ("edges", .array (g.edges.map EdgeRecord.toJson))]

def ofJson? (j : Json) : Option GraphRecord := do
  let row ← j.row? ["nodes", "edges"] 0
  return {
    nodes := ← row.defaulted? "nodes" [] (Json.list? nodeOfJson?)
    edges := ← row.defaulted? "edges" [] (Json.list? EdgeRecord.ofJson?) }

def ofGraph (g : Graph W) : GraphRecord := ⟨g.nodes, g.edges.map EdgeRecord.ofEdge⟩

variable [Number W]

/-- Adds the edges one by one. A dangling edge is dropped and reported; an edge without its
methods stops the building, whether it dangles or not. -/
def addEdges (b : Builder W) : List EdgeRecord → Traced W (Builder W)
  | [] => return b
  | e :: rest => do
    let (method, caller) ← Traced.ofExcept e.methods
    let (b, _, events) := b.addEdge e.source e.target method caller
    Traced.emitAll events
    addEdges b rest

def toGraph (g : GraphRecord) : Traced W (Graph W) := do
  let b ← addEdges (Builder.empty.addNodes g.nodes) g.edges
  return b.build

end GraphRecord

end CallClusters
