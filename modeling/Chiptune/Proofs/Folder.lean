import Mathlib.Tactic.Common
import Chiptune.Folder
/-!
# Writing into a folder

A path that can be followed leads where its steps say, through directories only (`locate_eq_ok`). So a file
that can be created makes no directory (`isDirectory_write`): it is then at its place with its content
(`read_write`), and all other places are as before (`file?_write_of_ne`).
-/
namespace Chiptune.Folder

variable {f g : Folder} {path : String} {content : Array UInt8} {l l' : Location}

/-! ## Following a path -/

theorem enter_eq_ok {s : String} (h : f.enter l s = .ok l') :
    f.isDirectory l = true ∧ s.utf8ByteSize ≤ nameLimit ∧ l' = l.step s := by
  unfold enter at h
  split at h
  · rename_i hdirectory
    split at h
    · rename_i hsize
      cases h
      exact ⟨hdirectory, hsize, rfl⟩
    · cases h
  · split at h <;> cases h

/-- The way is there if it leads through directories, whatever files there are. -/
theorem enter_congr {s : String} (hdirectory : ∀ d, g.isDirectory d = f.isDirectory d)
    (h : f.enter l s = .ok l') : g.enter l s = .ok l' := by
  obtain ⟨hl, hsize, rfl⟩ := enter_eq_ok h
  rw [enter, if_pos ((hdirectory l).trans hl), if_pos hsize]

theorem foldlM_enter_eq_ok {steps : List String} (h : steps.foldlM f.enter l = .ok l') :
    l' = steps.foldl Location.step l ∧ ∀ d ∈ Location.before l steps, f.isDirectory d = true := by
  induction steps generalizing l with
  | nil =>
    cases h
    exact ⟨rfl, nofun⟩
  | cons s steps ih =>
    rw [List.foldlM_cons] at h
    cases hs : f.enter l s with
    | error fault =>
      rw [hs] at h
      cases h
    | ok next =>
      rw [hs] at h
      obtain ⟨hl, -, rfl⟩ := enter_eq_ok hs
      obtain ⟨hend, hway⟩ := ih h
      exact ⟨hend, List.forall_mem_cons.2 ⟨hl, hway⟩⟩

theorem foldlM_enter_congr {steps : List String} (hdirectory : ∀ d, g.isDirectory d = f.isDirectory d)
    (h : steps.foldlM f.enter l = .ok l') : steps.foldlM g.enter l = .ok l' := by
  induction steps generalizing l with
  | nil => exact h
  | cons s steps ih =>
    rw [List.foldlM_cons] at h ⊢
    cases hs : f.enter l s with
    | error fault =>
      rw [hs] at h
      cases h
    | ok next =>
      rw [hs] at h
      rw [enter_congr hdirectory hs]
      exact ih h

theorem locate_eq_ok (h : f.locate path = .ok l) :
    l = .ofPath path ∧ ∀ d ∈ Location.before (.start path) (Location.steps path), f.isDirectory d = true := by
  unfold locate at h
  split at h
  · cases h
  · split at h
    · cases h
    · split at h
      · cases h
      · exact foldlM_enter_eq_ok h

theorem locate_congr (hdirectory : ∀ d, g.isDirectory d = f.isDirectory d) (h : f.locate path = .ok l) :
    g.locate path = .ok l := by
  unfold locate at h ⊢
  split at h
  · cases h
  · rename_i hzero
    split at h
    · cases h
    · rename_i hempty
      split at h
      · cases h
      · rename_i hlong
        rw [if_neg hzero, if_neg hempty, if_neg hlong]
        exact foldlM_enter_congr hdirectory h

theorem canCreate_iff :
    f.canCreate path = true ↔ f.locate path = .ok (.ofPath path) ∧ f.isDirectory (.ofPath path) = false := by
  unfold canCreate
  cases h : f.locate path with
  | error fault => simp
  | ok l =>
    obtain ⟨rfl, -⟩ := locate_eq_ok h
    simp

/-! ## Writing -/

theorem file?_write_self (f : Folder) (path : String) (content : Array UInt8) :
    (f.write path content).file? (.ofPath path) = some content := List.lookup_cons_self

theorem lookup_filter_ne {files : List (Location × Array UInt8)} (h : l ≠ l') :
    (files.filter (·.1 ≠ l')).lookup l = files.lookup l := by
  induction files with
  | nil => rfl
  | cons file files ih =>
    obtain ⟨k, content⟩ := file
    by_cases hk : k = l'
    · subst hk
      have hl : (l == k) = false := beq_false_of_ne h
      rw [List.filter_cons_of_neg (by simp), ih, List.lookup_cons, hl]
    · rw [List.filter_cons_of_pos (by simpa using hk), List.lookup_cons, List.lookup_cons, ih]

/-- Nothing is written at another place. -/
theorem file?_write_of_ne (h : l ≠ .ofPath path) : (f.write path content).file? l = f.file? l := by
  have hl : (l == Location.ofPath path) = false := beq_false_of_ne h
  rw [file?, write, List.lookup_cons, hl]
  exact lookup_filter_ne h

/-- The way to a file that can be created is there already. -/
theorem isDirectory_write (h : f.canCreate path = true) (content : Array UInt8) (d : Location) :
    (f.write path content).isDirectory d = f.isDirectory d := by
  obtain ⟨-, hway⟩ := locate_eq_ok (canCreate_iff.1 h).1
  by_cases hd : d ∈ Location.before (.start path) (Location.steps path)
  · rw [hway d hd]
    simp [isDirectory, write, hd]
  · simp [isDirectory, write, hd]

theorem canCreate_write (h : f.canCreate path = true) (content : Array UInt8) :
    (f.write path content).canCreate path = true := by
  obtain ⟨hlocate, hfile⟩ := canCreate_iff.1 h
  rw [canCreate_iff, isDirectory_write h]
  exact ⟨locate_congr (isDirectory_write h content) hlocate, hfile⟩

/-- **A file that can be created has what is written into it.** -/
theorem read_write (h : f.canCreate path = true) (content : Array UInt8) :
    (f.write path content).read path = .ok content := by
  obtain ⟨hlocate, -⟩ := canCreate_iff.1 (canCreate_write h content)
  simp [read, hlocate, file?_write_self, bind, Except.bind]

/-- What is added to an empty file is its content. -/
theorem append_write_empty (f : Folder) (path : String) (content : Array UInt8) :
    (f.write path #[]).append path content = (f.write path #[]).write path content := by
  rw [append, file?_write_self]
  simp

end Chiptune.Folder
