import CallClusters.Proofs.Page.Drawing
import CallClusters.Proofs.Text

/-! Which steps of the hue wheel the clusters take. They begin behind the whole steps of the first
tenth. Where a tenth is no whole number of steps, the step that they begin with still lies in it,
and of fewer than ten clusters the first one is as red as the edges between clusters. The wheel ends
in red as well, and its last step is as red once the steps are small enough. -/

namespace CallClusters

namespace Color

/-- How many steps are in use. -/
def span (count : Nat) : Nat := count - count / 10

/-- The colour at the start of the wheel. -/
def pureRed : String := "rgba(255, 0, 0, 0.9)"

section Steps
variable {count : Nat} (hcount : 0 < count) (index : Nat)
include hcount

theorem sample_eq : sample count index = count / 10 + index % span count := by
  have hspan : 1 ≤ count - count / 10 := by omega
  rw [sample, Nat.max_eq_left hspan, span]

theorem sample_lt : sample count index < count := by
  have hmod : index % span count < span count := Nat.mod_lt _ (by unfold span; omega)
  rw [sample_eq hcount]
  unfold span at hmod ⊢
  omega

/-- No step lies a whole step or more inside the first tenth. -/
theorem count_le_sample : count ≤ 10 * sample count index + 9 := by
  rw [sample_eq hcount]
  omega

/-- Only where the clusters start over can a step lie in the first tenth. -/
theorem count_le_sample_iff :
    count ≤ 10 * sample count index ↔ 10 ∣ count ∨ index % span count ≠ 0 := by
  rw [sample_eq hcount]
  omega

end Steps

/-! ### Pure red -/

theorem cut_rgba (r g b : Float) :
    Text.cut ',' (rgba r g b).toList = ["rgba(".toList ++ (byte r).toList,
      ' ' :: (byte g).toList, ' ' :: (byte b).toList, " 0.9)".toList] := by
  have hdigits (x : Float) : ',' ∉ (byte x).toList := fun h =>
    absurd (isDigit_of_mem_byte h) (by decide)
  have hlast : Text.cut ',' " 0.9)".toList = [" 0.9)".toList] := by decide
  have hletters : (rgba r g b).toList = ("rgba(".toList ++ (byte r).toList) ++ ',' ::
      ((' ' :: (byte g).toList) ++ ',' :: ((' ' :: (byte b).toList) ++ ',' :: " 0.9)".toList)) := by
    simp only [rgba, String.toList_append, List.append_assoc, List.cons_append,
      show ", ".toList = [',', ' '] by decide, show ", 0.9)".toList = ',' :: " 0.9)".toList by decide,
      List.nil_append]
  rw [hletters, Text.cut_append_mark, Text.cut_append_mark, Text.cut_append_mark, hlast,
    Text.cut_of_not_mem (by simp [hdigits]), Text.cut_of_not_mem (by simp [hdigits]),
    Text.cut_of_not_mem (by simp [hdigits])]
  rfl

/-- Colours are equal if their channels are. -/
theorem rgba_eq_iff {r g b r' g' b' : Float} :
    rgba r g b = rgba r' g' b' ↔ byte r = byte r' ∧ byte g = byte g' ∧ byte b = byte b' := by
  constructor
  · intro h
    have hcut := congrArg (fun s : String => Text.cut ',' s.toList) h
    simpa [cut_rgba, String.toList_inj] using hcut
  · rintro ⟨hr, hg, hb⟩
    rw [rgba, hr, hg, hb, rgba]

/-- The hue lies next to the start of the wheel, on either side of it, and by less than the least step
of a channel. -/
def IsRed (hue : Float) : Prop :=
  let h := hue * 6.0
  let sector := h.toUInt32.toNat
  let f := h - Float.ofNat sector
  sector % 6 = 0 ∧ byte f = "0" ∨ sector % 6 = 5 ∧ byte (1.0 - f) = "0"

theorem ofHue_eq_pureRed_iff (hue : Float) : ofHue hue = pureRed ↔ IsRed hue := by
  have hred : pureRed = rgba 1.0 0.0 0.0 := by decide
  have hnone : byte 0.0 = "0" := by decide
  have hfull : byte 1.0 = "255" := by decide
  -- Only in the first and the last sector red is full, and one of the other channels at zero.
  have hsectors (n : Nat) :
      n % 6 = 0 ∨ n % 6 = 1 ∨ n % 6 = 2 ∨ n % 6 = 3 ∨ n % 6 = 4 ∨ n % 6 = 5 := by omega
  rcases hsectors (hue * 6.0).toUInt32.toNat with h | h | h | h | h | h <;>
    simp [ofHue, IsRed, hred, rgba_eq_iff, h, hnone, hfull]

/-- Fewer than ten clusters begin at the start of the wheel. -/
theorem ofHue_start : ∀ count < 10, 0 < count →
    ofHue (Float.ofNat (sample count 0) / Float.ofNat count) = pureRed := by
  decide

/-- The last of 1530 steps ends the wheel less than a channel's least step short of a full turn. -/
theorem ofHue_end : ofHue (Float.ofNat 1529 / Float.ofNat 1530) = pureRed := by decide +kernel

end Color

namespace Clustering

variable {W : Type}

/-- The cluster is drawn black for its size. -/
def isBlack (blackSingles : Bool) (k : Cluster W) : Bool := blackSingles && k.size == 1

/-- Every cluster that is not black takes a step behind the first tenth of the wheel. -/
def SkipsReds (c : Clustering W) (blackSingles : Bool) : Prop :=
  ∀ i k, c.clusters[i]? = some k → isBlack blackSingles k = false →
    c.clusters.length ≤ 10 * Color.sample c.clusters.length i ∧
      Color.sample c.clusters.length i < c.clusters.length

section Palette
variable {c : Clustering W} {blackSingles : Bool} {i : Nat} {k : Cluster W}

theorem length_pos_of_getElem? (hk : c.clusters[i]? = some k) : 0 < c.clusters.length :=
  Nat.zero_lt_of_lt (List.getElem?_eq_some_iff.1 hk).1

theorem getElem?_palette (hk : c.clusters[i]? = some k) (hblack : isBlack blackSingles k = false) :
    (c.palette blackSingles)[i]? = some (k.id, Color.ofHue
      (Float.ofNat (Color.sample c.clusters.length i) / Float.ofNat c.clusters.length)) := by
  simp only [palette, List.getElem?_mapIdx, hk, Option.map_some]
  rw [isBlack] at hblack
  rw [hblack]
  rfl

theorem skipsReds_of_dvd (h : 10 ∣ c.clusters.length) : c.SkipsReds blackSingles := by
  intro i k hk _
  have hcount := length_pos_of_getElem? hk
  exact ⟨(Color.count_le_sample_iff hcount i).2 (.inl h), Color.sample_lt hcount i⟩

theorem skipsReds_of_black (h : ∀ i k, c.clusters[i]? = some k →
    i % Color.span c.clusters.length = 0 → isBlack blackSingles k = true) :
    c.SkipsReds blackSingles := by
  intro i k hk hblack
  have hcount := length_pos_of_getElem? hk
  have hi : i % Color.span c.clusters.length ≠ 0 := by
    intro hi
    simp [h i k hk hi] at hblack
  exact ⟨(Color.count_le_sample_iff hcount i).2 (.inr hi), Color.sample_lt hcount i⟩

/-- Where a tenth of the wheel is no whole number of steps, a cluster that starts over has to be
black. -/
theorem isBlack_of_skipsReds (h : c.SkipsReds blackSingles) (hten : ¬ 10 ∣ c.clusters.length)
    (hk : c.clusters[i]? = some k) (hi : i % Color.span c.clusters.length = 0) :
    isBlack blackSingles k = true := by
  cases hblack : isBlack blackSingles k with
  | true => rfl
  | false =>
    have hskips := (Color.count_le_sample_iff (length_pos_of_getElem? hk) i).1 (h i k hk hblack).1
    exact absurd hi (hskips.resolve_left hten)

theorem getElem?_palette_eq_pureRed_iff (hk : c.clusters[i]? = some k)
    (hblack : isBlack blackSingles k = false) :
    (c.palette blackSingles)[i]? = some (k.id, Color.pureRed) ↔ Color.IsRed
      (Float.ofNat (Color.sample c.clusters.length i) / Float.ofNat c.clusters.length) := by
  rw [getElem?_palette hk hblack, Option.some.injEq, Prod.mk.injEq, Color.ofHue_eq_pureRed_iff]
  exact and_iff_right rfl

end Palette

/-- What becomes of the first tenth of the wheel. The step of a cluster that is not black is on the
wheel, and at most nine tenths of a step inside the first tenth. All these steps are behind the
first tenth exactly if the number of clusters is a multiple of ten, or if every cluster at which the
steps start over is black. Of fewer than ten clusters the first one is pure red, unless it is black.
However many there are, a cluster is pure red if its hue is that near to the start of the wheel, which
the last of 1530 steps is although none of them lies in the first tenth. -/
theorem skipsReds_iff (c : Clustering W) (blackSingles : Bool) :
    let count := c.clusters.length
    (∀ i k, c.clusters[i]? = some k → isBlack blackSingles k = false →
      (c.palette blackSingles)[i]? =
        some (k.id, Color.ofHue (Float.ofNat (Color.sample count i) / Float.ofNat count)) ∧
      Color.sample count i < count ∧ count ≤ 10 * Color.sample count i + 9) ∧
    (c.SkipsReds blackSingles ↔
      10 ∣ count ∨ ∀ i k, c.clusters[i]? = some k → i % Color.span count = 0 →
        isBlack blackSingles k = true) ∧
    (count < 10 → ∀ k, c.clusters[0]? = some k → isBlack blackSingles k = false →
      (c.palette blackSingles)[0]? = some (k.id, Color.pureRed)) ∧
    (∀ i k, c.clusters[i]? = some k → isBlack blackSingles k = false →
      ((c.palette blackSingles)[i]? = some (k.id, Color.pureRed) ↔
        Color.IsRed (Float.ofNat (Color.sample count i) / Float.ofNat count))) ∧
    (count = 1530 → c.SkipsReds blackSingles ∧
      ∀ i k, c.clusters[i]? = some k → isBlack blackSingles k = false →
        Color.sample count i + 1 = count →
          (c.palette blackSingles)[i]? = some (k.id, Color.pureRed)) := by
  intro count
  refine ⟨fun i k hk hblack => ?_, ⟨fun h => ?_, ?_⟩, fun hfew k hk hblack => ?_,
    fun i k hk hblack => getElem?_palette_eq_pureRed_iff hk hblack,
    fun hmany => ⟨skipsReds_of_dvd ⟨153, hmany⟩, ?_⟩⟩
  · have hcount := length_pos_of_getElem? hk
    exact ⟨getElem?_palette hk hblack, Color.sample_lt hcount i, Color.count_le_sample hcount i⟩
  · by_cases hten : 10 ∣ count
    · exact .inl hten
    · exact .inr fun i k hk hi => isBlack_of_skipsReds h hten hk hi
  · rintro (hten | hstart)
    · exact skipsReds_of_dvd hten
    · exact skipsReds_of_black hstart
  · rw [getElem?_palette hk hblack, Color.ofHue_start count hfew (length_pos_of_getElem? hk)]
  · intro i k hk hblack hlast
    have hmany : c.clusters.length = 1530 := hmany
    have hstep : Color.sample c.clusters.length i = 1529 := Nat.succ.inj (hlast.trans hmany)
    rw [getElem?_palette hk hblack, hstep, hmany, Color.ofHue_end]

/-- The first of two clusters takes the start of the wheel, unless it is black, and the last step of
1530 comes before the steps start over. -/
theorem skipsReds_iff_pair :
    let single : Cluster Rat := ⟨1, ["A"], []⟩
    let pair : Cluster Rat := ⟨2, ["B", "C"], []⟩
    let c : Clustering Rat := ⟨[single, pair], []⟩
    let wheel : Clustering Rat := ⟨List.replicate 1530 pair, []⟩
    c.SkipsReds true ∧ c.clusters[1]? = some pair ∧ isBlack true pair = false ∧
      (c.palette true)[1]? = some (2, Color.ofHue (Float.ofNat 1 / Float.ofNat 2)) ∧
      c.clusters.length < 10 ∧ c.clusters[0]? = some single ∧ isBlack false single = false ∧
      (c.palette false)[0]? = some (1, Color.pureRed) ∧
      wheel.clusters.length = 1530 ∧ wheel.clusters[1376]? = some pair ∧
      Color.sample 1530 1376 + 1 = 1530 ∧ (wheel.palette false)[1376]? = some (2, Color.pureRed) := by
  intro single pair c wheel
  obtain ⟨hsteps, hskips, -⟩ := skipsReds_iff c true
  obtain ⟨-, -, hred, -⟩ := skipsReds_iff c false
  obtain ⟨-, -, -, -, hend⟩ := skipsReds_iff wheel false
  have hhalf : (c.palette true)[1]? = some (2, Color.ofHue (Float.ofNat 1 / Float.ofNat 2)) := by
    rw [(hsteps 1 pair rfl rfl).1, show Color.sample c.clusters.length 1 = 1 by decide]
    rfl
  have hwheel : wheel.clusters.length = 1530 := List.length_replicate
  have hpair : wheel.clusters[1376]? = some pair := by
    rw [List.getElem?_replicate, if_pos (by decide)]
  have hlast : Color.sample wheel.clusters.length 1376 + 1 = wheel.clusters.length := by
    rw [hwheel]
    decide
  refine ⟨hskips.2 (.inr fun i k hk hi => ?_), rfl, rfl, hhalf, by decide, rfl, rfl,
    hred (by decide) single rfl rfl, hwheel, hpair, by decide,
    (hend hwheel).2 1376 pair hpair rfl hlast⟩
  match i with
  | 0 =>
    cases hk
    rfl
  | 1 => exact absurd hi (by decide)
  | i + 2 => cases hk

/-- Two clusters: the steps would have to be the one half way around the wheel for both. -/
theorem not_skipsReds_two :
    let c : Clustering Rat := ⟨[⟨1, ["A", "B"], []⟩, ⟨2, ["C", "D"], []⟩], []⟩
    ¬ c.SkipsReds false ∧
      c.palette false = [(1, "rgba(255, 0, 0, 0.9)"), (2, "rgba(0, 255, 255, 0.9)")] := by
  intro c
  refine ⟨fun h => ?_, ?_⟩
  · exact absurd (h 0 _ rfl rfl).1 (by decide)
  · decide +kernel

end Clustering

end CallClusters
