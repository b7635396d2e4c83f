import CallClusters.Files.Tree
import CallClusters.Proofs.Files.Path

/-! What an operation on a tree changes. Whatever is made or written, paths lead to where they led
before, and files elsewhere stay as they are. A file that was written is read back. -/

namespace CallClusters.FileTree

variable {t t' : FileTree} {place : Place} {path : String}

/-! ### Entries -/

theorem find?_root (t : FileTree) : t.find? #[] = some .directory := rfl

theorem lookup_filter_ne {entries : List (Place × Entry)} {other : Place} (h : other ≠ place) :
    (entries.filter fun e => e.1 != place).lookup other = entries.lookup other := by
  induction entries with
  | nil => rfl
  | cons e entries ih =>
    by_cases he : e.1 = place
    · have hother : (other == e.1) = false := beq_false_of_ne (he ▸ h)
      rw [List.filter_cons_of_neg (by simp [he]), ih, List.lookup_cons, hother]
    · rw [List.filter_cons_of_pos (by simp [he]), List.lookup_cons, List.lookup_cons, ih]

theorem find?_insert_self (hplace : place ≠ #[]) (entry : Entry) :
    (t.insert place entry).find? place = some entry := by
  simp [find?, insert, hplace]

theorem find?_insert_of_ne {other : Place} (h : other ≠ place) (entry : Entry) :
    (t.insert place entry).find? other = t.find? other := by
  have hother : (other == place) = false := beq_false_of_ne h
  simp only [find?, insert, List.lookup_cons, hother, lookup_filter_ne h]

theorem ne_root_of_not_directory (h : t.isDirectory place = false) : place ≠ #[] := by
  rintro rfl
  simp [isDirectory, find?_root] at h

/-! ### What may change -/

/-- No directory is lost, and no file comes, goes or changes except where it may be written. -/
structure Changes (written : Place → Prop) (t t' : FileTree) : Prop where
  here : t'.here = t.here
  directory : ∀ place, t.isDirectory place = true → t'.isDirectory place = true
  file : ∀ place content, ¬ written place →
    (t'.find? place = some (.file content) ↔ t.find? place = some (.file content))

namespace Changes

variable {written : Place → Prop}

protected theorem refl (t : FileTree) : Changes written t t :=
  ⟨rfl, fun _ h => h, fun _ _ _ => Iff.rfl⟩

protected theorem trans {t'' : FileTree} (h : Changes written t t') (h' : Changes written t' t'') :
    Changes written t t'' :=
  ⟨h'.here.trans h.here, fun place hplace => h'.directory place (h.directory place hplace),
    fun place content hplace => (h'.file place content hplace).trans (h.file place content hplace)⟩

/-- More places may be written than are. -/
theorem mono {wider : Place → Prop} (h : Changes written t t')
    (hwider : ∀ place, written place → wider place) : Changes wider t t' :=
  ⟨h.here, h.directory, fun place content hplace =>
    h.file place content fun hwritten => hplace (hwider place hwritten)⟩

/-- A directory is made where nothing was. -/
theorem insert_directory (hplace : t.find? place = none) :
    Changes written t (t.insert place .directory) := by
  have hroot : place ≠ #[] := by
    rintro rfl
    cases hplace
  refine ⟨rfl, fun other hother => ?_, fun other content _ => ?_⟩
  · by_cases h : other = place
    · rw [h, isDirectory, find?_insert_self hroot, beq_self_eq_true]
    · rwa [isDirectory, find?_insert_of_ne h]
  · by_cases h : other = place
    · rw [h, find?_insert_self hroot, hplace]
      simp
    · rw [find?_insert_of_ne h]

/-- A file is written where no directory is. -/
theorem insert_file (hplace : t.isDirectory place = false) (hwritten : written place)
    (content : Content) : Changes written t (t.insert place (.file content)) := by
  refine ⟨rfl, fun other hother => ?_, fun other content hother => ?_⟩
  · have h : other ≠ place := by
      rintro rfl
      rw [hplace] at hother
      cases hother
    rwa [isDirectory, find?_insert_of_ne h]
  · have h : other ≠ place := by
      rintro rfl
      exact hother hwritten
    rw [find?_insert_of_ne h]

theorem makeAlong (steps : List Path.Step) (t : FileTree) (here : Place) :
    Changes written t (t.makeAlong here steps).1 := by
  induction steps generalizing t here with
  | nil => exact .refl t
  | cons step steps ih =>
    cases step with
    | up => exact ih t here.pop
    | down name =>
      unfold FileTree.makeAlong
      split
      · simp only
        split
        · rename_i hfind
          exact (insert_directory hfind).trans (ih _ _)
        · exact ih t (here.push name)
        · exact .refl t
      · exact .refl t

theorem makeDirectories (t : FileTree) (path : String) :
    Changes written t (t.makeDirectories path).1 := by
  unfold FileTree.makeDirectories
  split
  · exact .refl t
  · split
    · exact makeAlong _ t _
    · exact makeAlong _ t _

theorem of_makeDirectories {ok : Bool} (h : t.makeDirectories path = (t', ok)) :
    Changes written t t' := by
  have hmade : Changes written t (t.makeDirectories path).1 := makeDirectories t path
  rwa [h] at hmade

end Changes

/-! ### Where a path leads -/

theorem walk_append (t : FileTree) (here : Place) (before after : List Path.Step) :
    t.walk here (before ++ after) =
      (t.walk here before).bind fun place => t.walk place after := by
  induction before generalizing here with
  | nil => rfl
  | cons step before ih =>
    cases step with
    | up =>
      simp only [List.cons_append, walk]
      split
      · exact ih here.pop
      · rfl
    | down name =>
      simp only [List.cons_append, walk]
      split
      · split
        · exact ih (here.push name)
        · rfl
      · rfl

/-- A path that ends in a name leads to a place of this name. -/
theorem exists_push_of_walk_join {here : Place} {directory name : String}
    (hname : Path.steps name = [.down name])
    (h : t.walk here (Path.steps (Path.join directory name)) = some place) :
    ∃ above, t.walk here (Path.steps directory) = some above ∧ place = above.push name := by
  rw [Path.steps_join, hname, walk_append, Option.bind_eq_some_iff] at h
  obtain ⟨above, habove, h⟩ := h
  refine ⟨above, habove, ?_⟩
  unfold walk at h
  split at h
  · simp only at h
    split at h
    · exact (Option.some.inj h).symm
    · cases h
  · cases h

theorem exists_push_of_locate_join {directory name : String}
    (hname : Path.steps name = [.down name])
    (h : t.locate (Path.join directory name) = some place) :
    ∃ above, t.walk (t.base (Path.join directory name)) (Path.steps directory) = some above ∧
      place = above.push name := by
  unfold locate at h
  split at h
  · cases h
  · exact exists_push_of_walk_join hname h

theorem back?_of_locate_join {directory name : String} (hname : Path.steps name = [.down name])
    (h : t.locate (Path.join directory name) = some place) : place.back? = some name := by
  obtain ⟨above, -, rfl⟩ := exists_push_of_locate_join hname h
  exact Array.back?_push

namespace Changes

variable {written : Place → Prop} (h : Changes written t t')
include h

theorem walk {here : Place} {steps : List Path.Step} (hplace : t.walk here steps = some place) :
    t'.walk here steps = some place := by
  induction steps generalizing here with
  | nil => exact hplace
  | cons step steps ih =>
    unfold FileTree.walk at hplace ⊢
    split at hplace
    · rename_i hhere
      rw [if_pos (h.directory here hhere)]
      cases step with
      | up => exact ih hplace
      | down name =>
        simp only at hplace ⊢
        split at hplace
        · rename_i hfits
          rw [if_pos hfits]
          exact ih hplace
        · cases hplace
    · cases hplace

theorem locate (hplace : t.locate path = some place) : t'.locate path = some place := by
  unfold FileTree.locate at hplace ⊢
  split at hplace
  · cases hplace
  · rename_i hpath
    rw [if_neg hpath, base, h.here]
    exact h.walk hplace

end Changes

/-! ### Reading and writing -/

theorem get?_eq_some_file {content : Content} :
    t.get? path = some (.file content) ↔
      ∃ place, t.locate path = some place ∧ t.find? place = some (.file content) ∧
        Path.namesDirectory path = false := by
  simp only [get?, Option.bind_eq_bind, Option.bind_eq_some_iff]
  refine exists_congr fun place => and_congr_right fun _ => ?_
  cases t.find? place with
  | none => simp
  | some entry =>
    cases entry with
    | directory => simp
    | file other => cases Path.namesDirectory path <;> simp

theorem write?_eq_some {content : Content} :
    t.write? path content = some t' ↔
      ∃ place, t.locate path = some place ∧ t.isDirectory place = false ∧
        Path.namesDirectory path = false ∧ t.insert place (.file content) = t' := by
  simp only [write?, Option.bind_eq_bind, Option.bind_eq_some_iff]
  refine exists_congr fun place => and_congr_right fun _ => ?_
  cases t.isDirectory place <;> cases Path.namesDirectory path <;> simp

/-- A path under which a file stays where it is not written leads to the same file. -/
theorem Changes.get?_file {written : Place → Prop} (h : Changes written t t') {content : Content}
    (hpath : ∀ place, t.locate path = some place → ¬ written place)
    (hfile : t.get? path = some (.file content)) : t'.get? path = some (.file content) := by
  obtain ⟨place, hplace, hfind, hnames⟩ := get?_eq_some_file.1 hfile
  exact get?_eq_some_file.2
    ⟨place, h.locate hplace, (h.file place content (hpath place hplace)).2 hfind, hnames⟩

theorem Changes.write? {written : Place → Prop} {content : Content}
    (hpath : ∀ place, t.locate path = some place → written place)
    (h : t.write? path content = some t') : Changes written t t' := by
  obtain ⟨place, hplace, hdirectory, -, rfl⟩ := write?_eq_some.1 h
  exact .insert_file hdirectory (hpath place hplace) content

/-- What was written is there. -/
theorem get?_of_write? {content : Content} (h : t.write? path content = some t') :
    t'.get? path = some (.file content) := by
  have hchanges : Changes (fun _ => True) t t' := .write? (fun _ _ => trivial) h
  obtain ⟨place, hplace, hdirectory, hnames, rfl⟩ := write?_eq_some.1 h
  exact get?_eq_some_file.2 ⟨place, hchanges.locate hplace,
    find?_insert_self (ne_root_of_not_directory hdirectory) _, hnames⟩

/-! ### Files under a path -/

/-- Where a path leads from a directory, once all directories on its way are there. -/
def Leads (here : Place) (path : String) (place : Place) : Prop :=
  ∃ t : FileTree, t.here = here ∧ t.locate path = some place

/-- The path leads to a file, though perhaps not all directories on its way are there. -/
def Holds (t : FileTree) (path : String) (content : Content) : Prop :=
  ∃ place, Leads t.here path place ∧ t.find? place = some (.file content)

/-- No tree leads the steps of a path anywhere else. -/
theorem walk_unique {here other : Place} {steps : List Path.Step}
    (h : t.walk here steps = some place) (h' : t'.walk here steps = some other) : place = other := by
  induction steps generalizing here with
  | nil =>
    cases h
    cases h'
    rfl
  | cons step steps ih =>
    unfold walk at h h'
    split at h <;> split at h'
    · cases step with
      | up => exact ih h h'
      | down name =>
        simp only at h h'
        split at h
        · rename_i hfits
          rw [if_pos hfits] at h'
          exact ih h h'
        · cases h
    all_goals contradiction

theorem Leads.unique {here other : Place} (h : Leads here path place)
    (h' : Leads here path other) : place = other := by
  obtain ⟨t, rfl, ht⟩ := h
  obtain ⟨t', hhere, ht'⟩ := h'
  unfold locate at ht ht'
  split at ht
  · cases ht
  · rename_i hpath
    rw [if_neg hpath, base, hhere] at ht'
    exact walk_unique ht ht'

theorem Leads.back? {here : Place} {directory name : String} (hname : Path.steps name = [.down name])
    (h : Leads here (Path.join directory name) place) : place.back? = some name := by
  obtain ⟨t, -, ht⟩ := h
  exact back?_of_locate_join hname ht

/-- Such a file is found as soon as the path can be followed. -/
theorem holds_of_get? {content : Content} (h : t.get? path = some (.file content)) :
    t.Holds path content := by
  obtain ⟨place, hplace, hfind, -⟩ := get?_eq_some_file.1 h
  exact ⟨place, ⟨t, rfl, hplace⟩, hfind⟩

theorem Holds.unique {content other : Content} (h : t.Holds path content)
    (h' : t.Holds path other) : content = other := by
  obtain ⟨place, hplace, hfind⟩ := h
  obtain ⟨place', hplace', hfind'⟩ := h'
  obtain rfl := hplace.unique hplace'
  rw [hfind] at hfind'
  cases hfind'
  rfl

/-- Where nothing is written, no such file comes, goes or changes. -/
theorem Changes.holds_iff {written : Place → Prop} (h : Changes written t t')
    (hpath : ∀ place, Leads t.here path place → ¬ written place) {content : Content} :
    t'.Holds path content ↔ t.Holds path content := by
  unfold Holds
  rw [h.here]
  exact exists_congr fun place => and_congr_right fun hplace =>
    h.file place content (hpath place hplace)

end CallClusters.FileTree
