/-! The community detection algorithms that clusters can come from, and their names in prose, in
file and JSON data, and on a command line. -/

namespace CallClusters

inductive Algorithm where
  | louvain | girvanNewman | leiden | infomap | connectedComponents
  deriving DecidableEq

namespace Algorithm

def all : List Algorithm := [louvain, girvanNewman, leiden, infomap, connectedComponents]

def title : Algorithm → String
  | louvain => "Louvain"
  | girvanNewman => "Girvan-Newman"
  | leiden => "Leiden"
  | infomap => "Infomap"
  | connectedComponents => "connected components"

/-- The name in data, which is also the name of the directory for the results. -/
def key : Algorithm → String
  | louvain => "louvain"
  | girvanNewman => "girvan_newman"
  | leiden => "leiden"
  | infomap => "infomap"
  | connectedComponents => "connected_components"

/-- The name on a command line. -/
def option : Algorithm → String
  | louvain => "louvain"
  | girvanNewman => "girvan-newman"
  | leiden => "leiden"
  | infomap => "infomap"
  | connectedComponents => "connected-components"

def ofKey? (name : String) : Option Algorithm := all.find? fun a => a.key == name

/-- Letter case counts unless it is asked to be ignored, and then only for the letters a to z. -/
def ofOption? (name : String) (ignoreCase : Bool) : Option Algorithm :=
  let fold (s : String) : String := if ignoreCase then s.map Char.toLower else s
  all.find? fun a => fold a.option == fold name

/-- Whether the partition is found by another program and read from a file. -/
def isExternal : Algorithm → Bool
  | connectedComponents => false
  | _ => true

end Algorithm

end CallClusters
