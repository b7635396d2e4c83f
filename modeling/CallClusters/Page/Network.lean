import CallClusters.Json.Printer
import CallClusters.Page.Color

/-! Pages that draw a network in a browser. -/

namespace CallClusters

namespace Network

structure Node where
  name : String
  color : String
  deriving DecidableEq

structure Link where
  source : String
  target : String
  color : String
  title : Option String
  deriving DecidableEq

/-- The keys of page data stand in alphabetical order. -/
def Node.toJson (n : Node) : Json := .record [
  ("color", .text n.color), ("id", .text n.name), ("label", .text n.name)]

def Link.toJson (l : Link) : Json := .record (
  [("color", .text l.color), ("from", .text l.source)]
  ++ (l.title.map fun title => ("title", .text title)).toList
  ++ [("to", .text l.target)])

end Network

structure Network where
  title : String
  nodes : List Network.Node
  links : List Network.Link
  deriving DecidableEq

/-! ### The two networks of an analysis -/

/-- Everything in black, and each name once. -/
def Graph.network {W : Type} (g : Graph W) : Network where
  title := "Graph without clusters"
  nodes := g.names.map fun name => ⟨name, Color.plain⟩
  links := g.edges.map fun e => ⟨e.source, e.target, Color.plain, none⟩

namespace Clustering

variable {W : Type}

/-- A name that several clusters list is drawn once, in the colour of the first of them. -/
def networkNodes (palette : List (UInt32 × String)) (drawn : List String) :
    List (Cluster W) → List Network.Node
  | [] => []
  | k :: rest =>
    let fresh := k.nodes.eraseDups.filter fun name => !drawn.contains name
    (fresh.map fun name => ⟨name, colorOf palette k.id⟩) ++ networkNodes palette (drawn ++ fresh) rest

/-- Each cluster in its colour, and then the edges between clusters. -/
def network (c : Clustering W) (blackSingles : Bool) : Network :=
  let palette := c.palette blackSingles
  { title := "Graph with clusters"
    nodes := networkNodes palette [] c.clusters
    links :=
      (c.clusters.flatMap fun k =>
        k.intraEdges.map fun e => ⟨e.source, e.target, colorOf palette k.id, none⟩)
      ++ c.interEdges.map fun e =>
        ⟨e.source, e.target, Color.crossing, some "Inter-cluster edge"⟩ }

end Clustering

/-! ### The page -/

namespace Network

/-- Large labels, arrowheads, and nodes that push each other apart. -/
def options : List String := [
  "\x7b",
  "    \"nodes\": \x7b",
  "        \"font\": \x7b",
  "            \"size\": 75,",
  "            \"face\": \"sans-serif\"",
  "        \x7d",
  "    \x7d,",
  "    \"edges\": \x7b",
  "        \"width\": 8,",
  "        \"arrows\": \x7b",
  "            \"to\": \x7b",
  "                \"enabled\": true,",
  "                \"scaleFactor\": 2.5",
  "            \x7d",
  "        \x7d",
  "    \x7d,",
  "    \"physics\": \x7b",
  "        \"barnesHut\": \x7b",
  "            \"gravitationalConstant\": -80000,",
  "            \"centralGravity\": 0.3,",
  "            \"springLength\": 95,",
  "            \"damping\": 0.09",
  "        \x7d,",
  "        \"minVelocity\": 0.75",
  "    \x7d",
  "\x7d"]

def head (title : String) : List String := [
  "<!DOCTYPE html>",
  "<html lang=\"en\">",
  "<head>",
  "  <meta charset=\"UTF-8\">",
  "  <title>" ++ title ++ "</title>",
  "  <script src=\"https://unpkg.com/vis-network/standalone/umd/vis-network.min.js\"></script>",
  "  <style>",
  "    #network \x7b width: 100%; height: 800px; border: 1px solid lightgray; \x7d",
  "  </style>",
  "</head>"]

/-- The data stand in a script as they are written in JSON. -/
def body (n : Network) : List String := [
  "<body>",
  "  <div id=\"network\"></div>",
  "  <script type=\"text/javascript\">",
  "    var nodes = new vis.DataSet(" ++ (Json.array (n.nodes.map Node.toJson)).compact ++ ");",
  "    var edges = new vis.DataSet(" ++ (Json.array (n.links.map Link.toJson)).compact ++ ");",
  "    var options = " ++ String.intercalate "\n" options ++ ";",
  "    var container = document.getElementById(\"network\");",
  "    var network = new vis.Network(container, \x7b nodes: nodes, edges: edges \x7d, options);",
  "  </script>",
  "</body>",
  "</html>"]

def page (n : Network) : String :=
  String.join ((head n.title ++ n.body).map fun line => line ++ "\n")

end Network

end CallClusters
