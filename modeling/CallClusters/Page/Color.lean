import CallClusters.Cluster.Basic

/-! The colours of clusters on a page: even steps around the hue wheel, of which the first tenth,
the reds, is left to the edges between clusters. -/

namespace CallClusters

namespace Color

def plain : String := "black"

/-- For edges between clusters. -/
def crossing : String := "red"

/-- A channel between zero and one as a byte, rounded down. -/
def byte (x : Float) : String := toString (x * 255.0).toUInt8.toNat

def rgba (r g b : Float) : String :=
  "rgba(" ++ byte r ++ ", " ++ byte g ++ ", " ++ byte b ++ ", 0.9)"

/-- The full colour at a hue, which goes once around the wheel from zero to one. -/
def ofHue (hue : Float) : String :=
  let h := hue * 6.0
  let sector := h.toUInt32.toNat
  let f := h - Float.ofNat sector
  match sector % 6 with
  | 0 => rgba 1.0 f 0.0
  | 1 => rgba (1.0 - f) 1.0 0.0
  | 2 => rgba 0.0 1.0 f
  | 3 => rgba 0.0 (1.0 - f) 1.0
  | 4 => rgba f 0.0 1.0
  | _ => rgba 1.0 0.0 (1.0 - f)

/-- The step on the wheel, out of `count`, for the cluster at a position. -/
def sample (count index : Nat) : Nat := count / 10 + index % max (count - count / 10) 1

end Color

namespace Clustering

variable {W : Type}

/-- Every cluster's id and colour. Clusters of a single node are black if `blackSingles`. -/
def palette (c : Clustering W) (blackSingles : Bool) : List (UInt32 × String) :=
  let count := c.clusters.length
  c.clusters.mapIdx fun index k =>
    (k.id,
      if blackSingles && k.size == 1 then Color.plain
      else Color.ofHue (Float.ofNat (Color.sample count index) / Float.ofNat count))

/-- Of clusters with the same id the last one gives the colour. -/
def colorOf (palette : List (UInt32 × String)) (id : UInt32) : String :=
  (palette.reverse.lookup id).getD Color.plain

/-- The colour of each id, in the order of the ids. -/
def colors (c : Clustering W) (blackSingles : Bool) : List (UInt32 × String) :=
  let palette := c.palette blackSingles
  ((palette.map Prod.fst).eraseDups.mergeSort (fun a b => decide (a ≤ b))).map fun id =>
    (id, colorOf palette id)

end Clustering

end CallClusters
