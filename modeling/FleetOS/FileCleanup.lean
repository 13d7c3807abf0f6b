import FleetOS.FileChains
import FleetOS.GraphRows

/-!
# The log files of a process

`fs_cleanup_process` deletes the files whose path starts with the stem of the process
(`logStem`). It goes through the directory once and deletes by path, so it relies on each entry
being the first one left with its path; the invariant of the loop is `Swept`.

The decimal of one pid can start with the decimal of another, but a stem ends with a `_`, so no
path has the stems of two processes (`not_logStem_of_logStem`).
-/

namespace FleetOS

/-- What the paths of the log files of a process start with. -/
def logStem (pid : ℤ) : CString := ("/logs/drone_" ++ toString pid ++ "_").toList

/-- The body of the loop of `fs_cleanup_process`. -/
def sweepFile (stem : CString) (fs : FileSystem) (i : ℕ) : FileSystem :=
  if (fs.files i).used ∧ stem.isPrefixOf (fs.files i).path then (fsDelete fs (fs.files i).path).1
  else fs

theorem fsCleanupProcess_eq (fs : FileSystem) (pid : ℤ) :
    fsCleanupProcess fs pid = (List.range maxFiles).foldl (sweepFile ((logStem pid).take 31)) fs :=
  rfl

/-- From `fs` to `fs'` the files with `stem` were deleted from the first `n` entries. -/
structure Swept (stem : CString) (n : ℕ) (fs fs' : FileSystem) : Prop where
  chains : DisjointChains fs'
  kept : ∀ i < maxFiles, (fs'.files i).used = true → (fs.files i).used = true ∧ SameFile fs fs' i
  spared : ∀ i < maxFiles, (fs.files i).used = true → ¬stem <+: (fs.files i).path →
    (fs'.files i).used = true
  gone : ∀ i < n, (fs'.files i).used = true → ¬stem <+: (fs'.files i).path

variable {fs fs' : FileSystem} {stem : CString} {n idx : ℕ}

theorem Released.used (r : Released fs fs' idx) {i : ℕ} (hu : (fs'.files i).used = true) :
    i ≠ idx ∧ (fs.files i).used = true := by
  have hne : i ≠ idx := by
    rintro rfl
    rw [r.unused] at hu
    cases hu
  exact ⟨hne, r.files i hne ▸ hu⟩

theorem Released.chains (r : Released fs fs' idx) (h : DisjointChains fs) (hidx : idx < maxFiles)
    (hu : (fs.files idx).used = true) : DisjointChains fs' := by
  have hsame : ∀ i < maxFiles, (fs'.files i).used = true → SameFile fs fs' i := fun i hi hiu =>
    r.sameFile h hidx hu hi (r.used hiu).2 (r.used hiu).1
  have hblocks : ∀ i < maxFiles, (fs'.files i).used = true → fileBlocks fs' i = fileBlocks fs i :=
    fun i hi hiu => (hsame i hi hiu).fileBlocks_eq h hi (r.used hiu).2
  refine ⟨fun i hi hiu => ?_, fun i hi j hj hiu hju hij => ?_⟩
  · obtain ⟨hc, hl⟩ := h.chain i hi (r.used hiu).2
    rw [hblocks i hi hiu]
    exact ⟨(hsame i hi hiu).chain hc, hl⟩
  · rw [hblocks i hi hiu, hblocks j hj hju]
    exact h.disjoint i hi j hj (r.used hiu).2 (r.used hju).2 hij

/-! ## The loop -/

theorem Swept.refl (h : DisjointChains fs) : Swept stem 0 fs fs :=
  ⟨h, fun _ _ hu => ⟨hu, rfl, fun _ _ => rfl, fun _ _ => rfl⟩, fun _ _ hu _ => hu,
    fun i hi => absurd hi i.not_lt_zero⟩

/-- The entry that `fs_delete` finds for the path of entry `n` is entry `n`. -/
theorem Swept.findFile_eq (h : Swept stem n fs fs') (hn : n < maxFiles)
    (hu : (fs'.files n).used = true) (hs : stem <+: (fs'.files n).path) :
    findFile fs' (fs'.files n).path = some n := by
  cases hf : findFile fs' (fs'.files n).path with
  | none => exact absurd ⟨hu, rfl⟩ (findFile_eq_none.mp hf n hn)
  | some idx =>
    obtain ⟨hidx, hiu, hpath⟩ := findFile_eq_some hf
    have hle : ¬idx < n := fun hlt => h.gone idx hlt hiu (hpath ▸ hs)
    have hge : ¬n < idx := by
      intro hlt
      obtain ⟨-, -, hno⟩ := List.find?_range_eq_some.mp hf
      have := hno n hlt
      simp [hu] at this
    have he : idx = n := by omega
    rw [he]

theorem Swept.step (h : Swept stem n fs fs') (hd : DisjointChains fs) (hn : n < maxFiles) :
    Swept stem (n + 1) fs (sweepFile stem fs' n) := by
  unfold sweepFile
  split_ifs with hc
  · obtain ⟨hu, hs⟩ := hc
    have hs := List.isPrefixOf_iff_prefix.mp hs
    have hfind := h.findFile_eq hn hu hs
    rcases fsDelete_cases h.chains (fs'.files n).path with ⟨hnone, -⟩ | ⟨idx, hidx, -, r⟩
    · rw [hnone] at hfind
      cases hfind
    obtain rfl : idx = n := Option.some.inj (hidx.symm.trans hfind)
    refine ⟨r.chains h.chains hn hu, fun i hi hiu => ?_, fun i hi hiu hns => ?_, fun i hi hiu => ?_⟩
    · obtain ⟨hne, hiu'⟩ := r.used hiu
      obtain ⟨hold, hsame⟩ := h.kept i hi hiu'
      exact ⟨hold, hsame.trans (r.sameFile h.chains hn hu hi hiu' hne) hd hi hold⟩
    · have hiu' := h.spared i hi hiu hns
      have hne : i ≠ idx := by
        rintro rfl
        rw [(h.kept i hi hiu').2.entry] at hs
        exact hns hs
      rw [r.files i hne]
      exact hiu'
    · obtain ⟨hne, hiu'⟩ := r.used hiu
      rw [r.files i hne]
      exact h.gone i (by omega) hiu'
  · refine ⟨h.chains, h.kept, h.spared, fun i hi hiu hs => ?_⟩
    rcases Nat.lt_succ_iff_lt_or_eq.mp hi with hi | rfl
    · exact h.gone i hi hiu hs
    · exact hc ⟨hiu, List.isPrefixOf_iff_prefix.mpr hs⟩

theorem swept_foldl (h : DisjointChains fs) (hn : n ≤ maxFiles) :
    Swept stem n fs ((List.range n).foldl (sweepFile stem) fs) := by
  induction n with
  | zero => exact .refl h
  | succ n ih =>
    rw [List.range_succ, List.foldl_append]
    exact (ih (by omega)).step h hn

/-- The other files can be read as before. -/
theorem Swept.fsRead_eq (h : Swept stem n fs fs') (hd : DisjointChains fs) {path : CString}
    (hs : ¬stem <+: path) (size : ℤ) : fsRead fs' path size = fsRead fs path size := by
  have hfind : findFile fs' path = findFile fs path := by
    refine findFile_congr fun i hi => ⟨fun ⟨hu, hp⟩ => ?_, fun ⟨hu, hp⟩ => ?_⟩
    · obtain ⟨hold, hsame⟩ := h.kept i hi hu
      exact ⟨hold, hsame.entry ▸ hp⟩
    · have hu' := h.spared i hi hu (hp ▸ hs)
      exact ⟨hu', (h.kept i hi hu').2.entry ▸ hp⟩
  refine fsRead_congr hd h.chains hfind (fun i hf => ?_) size
  obtain ⟨hi, hu, -⟩ := findFile_eq_some (hfind.trans hf)
  exact (h.kept i hi hu).2

/-! ## The stems -/

theorem take_logStem {pid : ℤ} (hp : validPid pid) : (logStem pid).take 31 = logStem pid := by
  have hall : ∀ p ∈ pidIndices, (logStem p).take 31 = logStem p := by decide +kernel
  exact hall pid (mem_pidIndices.mpr hp)

/-- No path has the stems of two processes. -/
theorem not_logStem_of_logStem {p q : ℤ} (hp : validPid p) (hq : validPid q) (hpq : p ≠ q)
    {path : CString} (h : logStem q <+: path) : ¬logStem p <+: path := by
  have hall : ∀ p ∈ pidIndices, ∀ q ∈ pidIndices, p ≠ q → ¬logStem p <+: logStem q := by
    decide +kernel
  intro h'
  have hp := mem_pidIndices.mpr hp
  have hq := mem_pidIndices.mpr hq
  rcases List.prefix_or_prefix_of_prefix h' h with hpre | hpre
  · exact hall p hp q hq hpq hpre
  · exact hall q hq p hp hpq.symm hpre

theorem swept_fsCleanupProcess (h : DisjointChains fs) {pid : ℤ} (hp : validPid pid) :
    Swept (logStem pid) maxFiles fs (fsCleanupProcess fs pid) := by
  rw [fsCleanupProcess_eq, take_logStem hp]
  exact swept_foldl h le_rfl

end FleetOS
