import CallClusters.Analysis.Document
import CallClusters.Proofs.Files.Tree

/-! What a job yields where it succeeds, and what it may write, whether it succeeds or not. -/

namespace CallClusters.Job

variable {α β : Type} {files after : FileTree}

/-! ### Sequences -/

theorem bind_of_ok {x : Job α} {a : α} (h : (x files).result = .ok a) (f : α → Job β) :
    (x >>= f) files =
      ⟨(f a (x files).files).files, (x files).notes ++ (f a (x files).files).notes,
        (f a (x files).files).result⟩ := by
  change Job.bind x f files = _
  simp only [Job.bind, h]

theorem bind_of_error {x : Job α} {failure : Failure} (h : (x files).result = .error failure)
    (f : α → Job β) : (x >>= f) files = ⟨(x files).files, (x files).notes, .error failure⟩ := by
  change Job.bind x f files = _
  simp only [Job.bind, h]

/-- The directories above a path are those along its parent. -/
theorem makeParents_eq (path : String) (failure : Failure) :
    makeParents path failure = makeDirectories (Path.parent path) failure := by
  unfold makeParents makeDirectories FileTree.makeParents
  rfl

/-! ### Success -/

/-- The job has a result, and leaves the tree as it is afterwards. -/
def Yields (x : Job α) (files : FileTree) (a : α) (after : FileTree) : Prop :=
  (x files).result = .ok a ∧ (x files).files = after

/-- A sequence yields what its second part yields from where the first part led. -/
@[simp] theorem yields_bind {x : Job α} {f : α → Job β} {b : β} :
    (x >>= f).Yields files b after ↔
      ∃ a between, x.Yields files a between ∧ (f a).Yields between b after := by
  cases h : (x files).result with
  | error failure => simp [Yields, bind_of_error h, h]
  | ok a => simp [Yields, bind_of_ok h, h]

/-- The first part yields nothing but a tree. -/
@[simp high] theorem yields_then {x : Job Unit} {f : Unit → Job β} {b : β} :
    (x >>= f).Yields files b after ↔
      ∃ between, x.Yields files () between ∧ (f ()).Yields between b after :=
  yields_bind.trans ⟨fun ⟨_, h⟩ => h, fun h => ⟨(), h⟩⟩

@[simp] theorem yields_pure {a b : α} :
    (pure a : Job α).Yields files b after ↔ a = b ∧ files = after := by
  change Except.ok a = Except.ok b ∧ files = after ↔ _
  rw [Except.ok.injEq]

@[simp] theorem yields_note {n : Note} {u : Unit} :
    (note n).Yields files u after ↔ files = after := by
  simp [Yields, note]

@[simp] theorem yields_remark {text : String} {u : Unit} :
    (remark text).Yields files u after ↔ files = after := yields_note

@[simp] theorem yields_emit {event : Event Float} {u : Unit} :
    (emit event).Yields files u after ↔ files = after := yields_note

@[simp] theorem yields_emitAll {events : List (Event Float)} {u : Unit} :
    (emitAll events).Yields files u after ↔ files = after := by
  simp [Yields, emitAll]

@[simp] theorem yields_fail {failure : Failure} {a : α} :
    (fail failure : Job α).Yields files a after ↔ False := by
  simp [Yields, fail]

@[simp] theorem yields_unless {stop : Bool} {failure : Failure} {x : Job α} {a : α} :
    (if stop = true then fail failure else x).Yields files a after ↔
      stop = false ∧ x.Yields files a after := by
  cases stop <;> simp

@[simp] theorem yields_ofTraced {x : Traced Float α} {a : α} :
    (ofTraced x).Yields files a after ↔ x.result = .ok a ∧ files = after := by
  cases h : x.result <;> simp [Yields, ofTraced, h, Except.mapError]

@[simp] theorem yields_inspect {f : FileTree → Except Failure α} {a : α} :
    (inspect f).Yields files a after ↔ f files = .ok a ∧ files = after := Iff.rfl

@[simp] theorem yields_makeDirectories {path : String} {failure : Failure} {u : Unit} :
    (makeDirectories path failure).Yields files u after ↔
      files.makeDirectories path = (after, true) := by
  unfold Yields makeDirectories
  rcases files.makeDirectories path with ⟨made, _ | _⟩ <;> simp

@[simp] theorem yields_makeParents {path : String} {failure : Failure} {u : Unit} :
    (makeParents path failure).Yields files u after ↔ files.makeParents path = (after, true) := by
  rw [makeParents_eq, yields_makeDirectories, FileTree.makeParents]

@[simp] theorem yields_write {path content : String} {failure : Failure} {u : Unit} :
    (write path content failure).Yields files u after ↔
      files.write? path (.text content) = some after := by
  unfold Yields write
  cases files.write? path (.text content) <;> simp

theorem yields_save {path : String} {value : Json} {u : Unit} :
    (save path value).Yields files u after ↔
      ∃ made, files.makeParents path = (made, true) ∧
        made.write? path (.text value.pretty) = some after := by
  simp [save]

theorem get?_of_yields_save {path : String} {value : Json} {u : Unit}
    (h : (save path value).Yields files u after) :
    after.get? path = some (.file (.text value.pretty)) := by
  obtain ⟨made, -, hwrite⟩ := yields_save.1 h
  exact FileTree.get?_of_write? hwrite

/-! ### What may be written -/

/-- Whether it succeeds or fails, the job writes files to these places only. -/
def Touches (written : Place → Prop) (x : Job α) : Prop :=
  ∀ files, FileTree.Changes written files (x files).files

variable {written : Place → Prop}

theorem Yields.changes {x : Job α} {a : α} (h : x.Yields files a after) (hx : x.Touches written) :
    FileTree.Changes written files after := h.2 ▸ hx files

theorem Touches.mono {x : Job α} {wider : Place → Prop} (hx : x.Touches written)
    (hwider : ∀ place, written place → wider place) : x.Touches wider :=
  fun files => (hx files).mono hwider

theorem touches_bind {x : Job α} {f : α → Job β} (hx : x.Touches written)
    (hf : ∀ a, (f a).Touches written) : (x >>= f).Touches written := by
  intro files
  cases h : (x files).result with
  | error failure =>
    rw [bind_of_error h]
    exact hx files
  | ok a =>
    rw [bind_of_ok h]
    exact (hx files).trans (hf a _)

theorem touches_pure (a : α) : (pure a : Job α).Touches written := fun files => .refl files

theorem touches_note (n : Note) : (note n).Touches written := fun files => .refl files

theorem touches_remark (text : String) : (remark text).Touches written := touches_note _

theorem touches_emit (event : Event Float) : (emit event).Touches written := touches_note _

theorem touches_emitAll (events : List (Event Float)) : (emitAll events).Touches written :=
  fun files => .refl files

theorem touches_fail (failure : Failure) : (fail failure : Job α).Touches written :=
  fun files => .refl files

theorem touches_ofTraced (x : Traced Float α) : (ofTraced x).Touches written :=
  fun files => .refl files

theorem touches_inspect (f : FileTree → Except Failure α) : (inspect f).Touches written :=
  fun files => .refl files

theorem touches_makeDirectories (path : String) (failure : Failure) :
    (makeDirectories path failure).Touches written := by
  intro files
  have h : FileTree.Changes written files (files.makeDirectories path).1 :=
    .makeDirectories files path
  unfold makeDirectories
  split <;> rename_i heq <;> rwa [heq] at h

theorem touches_makeParents (path : String) (failure : Failure) :
    (makeParents path failure).Touches written := by
  rw [makeParents_eq]
  exact touches_makeDirectories _ failure

theorem touches_write {path : String}
    (hpath : ∀ (t : FileTree) place, t.locate path = some place → written place)
    (content : String) (failure : Failure) : (write path content failure).Touches written := by
  intro files
  unfold write
  cases h : files.write? path (.text content) with
  | some after => exact .write? (hpath files) h
  | none => exact .refl files

theorem touches_save {path : String}
    (hpath : ∀ (t : FileTree) place, t.locate path = some place → written place) (value : Json) :
    (save path value).Touches written :=
  touches_bind (touches_makeParents path _) fun _ => touches_write hpath _ _

/-- No file of this name is written, wherever it lies. -/
def Avoids (name : String) (x : Job α) : Prop := x.Touches fun place => place.back? ≠ some name

section Avoids
variable {directory name other : String} (hother : Path.steps other = [.down other])
  (hne : other ≠ name)
include hother hne

theorem back?_ne_of_locate_join (t : FileTree) (place : Place)
    (hplace : t.locate (Path.join directory other) = some place) : place.back? ≠ some name := by
  rw [FileTree.back?_of_locate_join hother hplace]
  exact fun h => hne (Option.some.inj h)

theorem avoids_write (content : String) (failure : Failure) :
    (write (Path.join directory other) content failure).Avoids name :=
  touches_write (back?_ne_of_locate_join hother hne) content failure

theorem avoids_save (value : Json) : (save (Path.join directory other) value).Avoids name :=
  touches_save (back?_ne_of_locate_join hother hne) value

end Avoids

/-- A file stays as it is where no file of its name is written. -/
theorem Yields.get?_of_avoids {x : Job α} {a : α} {directory name : String} {content : Content}
    (h : x.Yields files a after) (hx : x.Avoids name) (hname : Path.steps name = [.down name])
    (hfile : files.get? (Path.join directory name) = some (.file content)) :
    after.get? (Path.join directory name) = some (.file content) :=
  (h.changes hx).get?_file
    (fun _ hplace => not_not_intro (FileTree.back?_of_locate_join hname hplace)) hfile

/-- Then no file of this name comes, goes or changes under its path. -/
theorem Yields.holds_iff {x : Job α} {a : α} {directory name : String} {content : Content}
    (h : x.Yields files a after) (hx : x.Avoids name) (hname : Path.steps name = [.down name]) :
    after.Holds (Path.join directory name) content ↔ files.Holds (Path.join directory name) content :=
  (h.changes hx).holds_iff fun _ hplace => not_not_intro (hplace.back? hname)

end CallClusters.Job
