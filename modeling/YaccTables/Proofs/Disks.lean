import YaccTables.Disk
import YaccTables.Proofs.Traversal

/-!
# What a write leaves on a disk

A file that was written at a path is what the path leads to afterwards, with the whole text, and
every other file is as it was (`Disk.stored_of_write`). The path leads to the same place as before,
since the folders on the way are still folders (`walk_eq_ok`): none of them is at the place of the
new file.
-/

namespace YaccTables

namespace Disk

variable {d d' : Disk} {place : List Bytes}

/-! ## A disk with a file put on it -/

/-- A file is put at one place and at no other. -/
theorem content?_put (d : Disk) (place : List Bytes) (content : Bytes) (other : List Bytes) :
    (d.put place content).content? other
      = if other = place then some content else d.content? other := by
  rw [content?, put, List.lookup_cons]
  by_cases hother : other = place
  · rw [if_pos hother, beq_iff_eq.mpr hother]
  · rw [if_neg hother, beq_false_of_ne hother, content?]
    dsimp only
    -- the files that were left out are all at the place itself
    induction d.files with
    | nil => rfl
    | cons entry files ih =>
      rw [List.filter_cons, List.lookup_cons]
      by_cases hentry : entry.1 = place
      · have hne : other ≠ entry.1 := fun h => hother (h.trans hentry)
        rw [if_neg (by simp [hentry]), beq_false_of_ne hne, ih]
      · rw [if_pos (by simp [hentry]), List.lookup_cons, ih]

/-- No place gets lost, so folders stay folders. -/
theorem isFolder_put (content : Bytes) {other : List Bytes} (h : d.isFolder other = true) :
    (d.put place content).isFolder other = true := by
  simp only [isFolder, put, Bool.or_eq_true, List.any_eq_true] at h ⊢
  rcases h with h | ⟨⟨at', content'⟩, hmem, hbegins⟩
  · exact .inl h
  · refine .inr ?_
    by_cases hat : at' = place
    · subst hat
      exact ⟨(at', content), List.mem_cons_self, hbegins⟩
    · exact ⟨(at', content'), List.mem_cons_of_mem _ (List.mem_filter.mpr ⟨hmem, by simp [hat]⟩),
        hbegins⟩

/-- A folder is where neither a file nor a void is. -/
theorem entryAt_eq_folder_iff {other next : List Bytes} :
    d.entryAt other = .folder next ↔
      d.voids.contains other = false ∧ d.content? other = none ∧ d.isFolder other = true ∧
        other = next := by
  unfold entryAt
  cases d.voids.contains other <;> cases d.content? other <;> cases d.isFolder other <;> simp

/-- A file, or a place for one, is found where it was looked for. -/
theorem eq_of_entryAt {other : List Bytes} {entry : Entry} (h : d.entryAt other = entry)
    (hplace : (∃ content, entry = .file place content) ∨ entry = .vacant place) :
    d.voids.contains other = false ∧ other = place := by
  rw [entryAt] at h
  by_cases hvoid : d.voids.contains other = true
  · rw [if_pos hvoid] at h
    rcases hplace with ⟨content, rfl⟩ | rfl
    · cases h
    · cases h
  rw [if_neg hvoid] at h
  refine ⟨by simpa using hvoid, ?_⟩
  cases hcontent : d.content? other with
  | some content =>
    rw [hcontent] at h
    rcases hplace with ⟨content', rfl⟩ | rfl
    · exact (Entry.file.inj h).1
    · cases h
  | none =>
    rw [hcontent] at h
    dsimp only at h
    split_ifs at h
    · rcases hplace with ⟨content', rfl⟩ | rfl
      · cases h
      · cases h
    · rcases hplace with ⟨content', rfl⟩ | rfl
      · cases h
      · exact Entry.vacant.inj h

/-- Folders are folders once a file was put where none is. -/
theorem entryAt_put {other next : List Bytes} (content : Bytes)
    (hplace : ∀ next, d.entryAt place ≠ .folder next) (h : d.entryAt other = .folder next) :
    (d.put place content).entryAt other = .folder next := by
  have hne : other ≠ place := by
    rintro rfl
    exact hplace next h
  obtain ⟨hvoid, hnone, hfolder, rfl⟩ := entryAt_eq_folder_iff.mp h
  refine entryAt_eq_folder_iff.mpr ⟨hvoid, ?_, isFolder_put content hfolder, rfl⟩
  rw [content?_put, if_neg hne, hnone]

/-! ## Following a path on another disk -/

/-- A path through folders goes the same way on a disk that has them too. -/
theorem walk_eq_ok {next : List Bytes} {parts : List Bytes}
    (hfolders : ∀ other next, d.entryAt other = .folder next → d'.entryAt other = .folder next)
    (h : d.walk place parts = .ok next) : d'.walk place parts = .ok next := by
  -- one part on the way
  have hstep : ∀ place part next, d.follow place part = .ok (.folder next) →
      d'.follow place part = .ok (.folder next) := by
    intro place part next hfollow
    unfold follow at hfollow ⊢
    split_ifs at hfollow ⊢
    · exact hfollow
    · exact hfollow
    · rw [hfolders _ next (Except.ok.inj hfollow)]
  induction parts generalizing place with
  | nil => exact h
  | cons part rest ih =>
    rw [walk, bind_eq_ok_iff] at h ⊢
    obtain ⟨entry, hentry, hrest⟩ := h
    cases entry with
    | folder middle => exact ⟨.folder middle, hstep place part middle hentry, ih hrest⟩
    | file at' content => exact absurd hrest (by simp)
    | vacant at' => exact absurd hrest (by simp)
    | void => exact absurd hrest (by simp)

/-- What can be written at a path is at the place of a last part that is looked up in a folder. -/
theorem target_eq_ok {path : Bytes} {entry : Entry} (h : d.target path = .ok entry) :
    ∃ r folder part, route path = .ok r ∧ r.endsWithSlash = false ∧ d.base r = .ok folder ∧
      r.parts.getLast? = some part ∧ d.entryAt (folder ++ [part]) = entry ∧
      (∀ next, entry ≠ .folder next) ∧
      ∀ d' : Disk, d'.follow folder part = .ok (d'.entryAt (folder ++ [part])) := by
  rw [target, bind_eq_ok_iff] at h
  obtain ⟨r, hroute, h⟩ := h
  rw [bind_eq_ok_iff] at h
  obtain ⟨folder, hbase, h⟩ := h
  by_cases hslash : r.endsWithSlash = true
  · rw [if_pos hslash] at h
    cases h
  rw [if_neg hslash, bind_eq_ok_iff] at h
  obtain ⟨last, hlast, h⟩ := h
  have hentry : last = entry ∧ ∀ next, last ≠ .folder next := by
    cases last with
    | folder => cases h
    | file => exact ⟨Except.ok.inj h, by simp⟩
    | vacant => exact ⟨Except.ok.inj h, by simp⟩
    | void => exact ⟨Except.ok.inj h, by simp⟩
  obtain ⟨rfl, hfolder⟩ := hentry
  rw [destination, hbase, ok_bind] at hlast
  cases hpart : r.parts.getLast? with
  | none =>
    rw [hpart] at hlast
    exact absurd (Except.ok.inj hlast).symm (hfolder folder)
  | some part =>
    rw [hpart] at hlast
    have hfollow : d.entryAt (folder ++ [part]) = last ∧
        ∀ d' : Disk, d'.follow folder part = .ok (d'.entryAt (folder ++ [part])) := by
      dsimp only at hlast
      unfold follow at hlast ⊢
      split_ifs at hlast ⊢
      · exact absurd (Except.ok.inj hlast).symm (hfolder _)
      · exact absurd (Except.ok.inj hlast).symm (hfolder _)
      · exact ⟨Except.ok.inj hlast, fun _ => rfl⟩
    exact ⟨r, folder, part, hroute, by simpa using hslash, hbase, hpart, hfollow.1, hfolder,
      hfollow.2⟩

/-! ## Writing -/

/-- What a write of a text at a path leaves behind. -/
inductive Stored (d : Disk) (path text : Bytes) (d' : Disk) : Prop
  /-- One file holds the whole text and is what the path leads to. The others are as they were. -/
  | file (place : List Bytes) (reads : d'.read path = .ok text)
      (holds : d'.content? place = some text)
      (others : ∀ other, other ≠ place → d'.content? other = d.content? other)
  /-- The path leads to a device that takes anything. -/
  | void (h : d.target path = .ok .void) (unchanged : d' = d)

/-- A file that was put where a path leads is read back by this path. -/
theorem read_put {path : Bytes} {entry : Entry} (h : d.target path = .ok entry)
    (hplace : (∃ content, entry = .file place content) ∨ entry = .vacant place) (text : Bytes) :
    (d.put place text).read path = .ok text := by
  obtain ⟨r, folder, part, hroute, hslash, hbase, hpart, hentry, hfolder, hfollow⟩ :=
    target_eq_ok h
  obtain ⟨hvoid, rfl⟩ := eq_of_entryAt hentry hplace
  have hfolders : ∀ other next, d.entryAt other = .folder next →
      (d.put (folder ++ [part]) text).entryAt other = .folder next :=
    fun other next => entryAt_put text fun next hnext => hfolder next (hentry.symm.trans hnext)
  have hbase' : (d.put (folder ++ [part]) text).base r = .ok folder := walk_eq_ok hfolders hbase
  have hentry' : (d.put (folder ++ [part]) text).entryAt (folder ++ [part])
      = .file (folder ++ [part]) text := by
    unfold entryAt
    rw [content?_put, if_pos rfl, if_neg (by simpa [put] using hvoid)]
  have hfound : (d.put (folder ++ [part]) text).found path
      = .ok (.file (folder ++ [part]) text) := by
    rw [found, hroute, ok_bind, destination, hbase', ok_bind, hpart]
    dsimp only
    rw [hfollow, hentry', ok_bind]
    dsimp only
    rw [hslash]
    rfl
  rw [read, hfound]

/-- **What was written is what the path leads to afterwards**, and nothing else has changed. -/
theorem stored_of_write {path text : Bytes} (h : d.write path text = .ok d') :
    d.Stored path text d' := by
  have hput : ∀ place : List Bytes, ∀ other, other ≠ place →
      (d.put place text).content? other = d.content? other := by
    intro place other hne
    rw [content?_put, if_neg hne]
  have hholds : ∀ place : List Bytes, (d.put place text).content? place = some text := by
    intro place
    rw [content?_put, if_pos rfl]
  unfold write at h
  split at h
  · cases h
  · next place old htarget =>
    obtain rfl := Except.ok.inj h
    exact .file place (read_put htarget (.inl ⟨old, rfl⟩) text) (hholds place) (hput place)
  · next place htarget =>
    obtain rfl := Except.ok.inj h
    exact .file place (read_put htarget (.inr rfl) text) (hholds place) (hput place)
  · next entry hfile hvacant htarget =>
    obtain ⟨_, _, _, _, _, _, _, _, hfolder, _⟩ := target_eq_ok htarget
    refine .void ?_ (Except.ok.inj h).symm
    cases entry with
    | file place old => exact absurd rfl (hfile place old)
    | folder place => exact absurd rfl (hfolder place)
    | vacant place => exact absurd rfl (hvacant place)
    | void => exact htarget

-- through a folder and out of the working folder, in place of a file that is there
example : let d : Disk := { files := [([utf8 "a"], utf8 "1"), ([utf8 "w", utf8 "b"], utf8 "2")],
                            location := [utf8 "w"] }
    ∃ d', d.write (utf8 ".././a") (utf8 "3") = .ok d' ∧
      d'.read (utf8 "/w/../a") = .ok (utf8 "3") ∧ d'.read (utf8 "b") = .ok (utf8 "2") := by
  exact ⟨_, rfl, by decide +kernel, by decide +kernel⟩

end Disk

end YaccTables
