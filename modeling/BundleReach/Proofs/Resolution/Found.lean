import BundleReach.Proofs.FileTree.Resolve
import BundleReach.Proofs.Resolution.Candidates

/-!
# What resolution finds

By whatever route a specifier is resolved, what is found has been probed for: it is the resolved
path of a file.  Probing finds nothing else (`isFilePlace_of_probe`), and resolving is a search
along candidates that are probed (`resolve_found`).
-/

namespace BundleReach.Resolver

variable {r : Resolver} {p : Path}

/-- A path is the resolved path of a file. -/
def IsFilePlace (r : Resolver) (p : Path) : Prop :=
  ∃ q, r.tree.isFile q = true ∧ p = r.tree.resolve q

theorem IsFilePlace.mem_places (h : r.IsFilePlace p) : p ∈ r.tree.places := by
  obtain ⟨q, hq, rfl⟩ := h
  exact FileTree.resolve_mem_places hq

/-! ## Probing -/

theorem isFile_of_probeEndings {candidate : Path} {endings : List String}
    (h : r.probeEndings candidate endings = .ok (some p)) : r.tree.isFile p = true := by
  induction endings with
  | nil => cases h
  | cons ending rest ih =>
    obtain ⟨named, -, h⟩ := bind_eq_ok_iff.1 h
    split at h
    · rename_i hfile
      cases h
      exact hfile
    · exact ih h

/-- What probing finds is the resolved path of a file. -/
theorem isFilePlace_of_probe {candidate : Path} (h : r.probe candidate = .ok (some p)) :
    r.IsFilePlace p := by
  rw [probe] at h
  split at h
  · rename_i hfile
    cases h
    exact ⟨_, hfile, rfl⟩
  · obtain ⟨found, hfound, h⟩ := bind_eq_ok_iff.1 h
    cases found with
    | some q =>
      cases h
      exact ⟨q, isFile_of_probeEndings hfound, rfl⟩
    | none =>
      simp only at h
      split at h
      · obtain ⟨q, hq, rfl⟩ := Option.map_eq_some_iff.1 (pure_eq_ok_iff.1 h)
        exact ⟨q, by simpa using List.find?_some hq, rfl⟩
      · cases h

/-! ## Specifiers -/

/-- What a specifier leads to is what one of its candidates leads to. -/
theorem exists_probe_of_found {importer : Path} {specifier : String} {route : Route}
    (h : r.resolve importer specifier = .ok (.found p route)) :
    ∃ c ∈ r.candidates importer specifier, r.probe c.1 = .ok (some p) ∧ c.2 = route := by
  rcases r.resolve_cases importer specifier with ⟨-, heq⟩ | ⟨-, -, heq⟩ | ⟨-, -, heq⟩
  · rw [heq] at h
    cases h
  · rw [heq] at h
    cases h
  rw [heq] at h
  have hsearch : r.search (r.candidates importer specifier) = .ok (some (p, route)) := by
    cases hs : r.search (r.candidates importer specifier) with
    | error fault =>
      rw [hs] at h
      cases h
    | ok found =>
      rw [hs] at h
      cases found with
      | none => cases h
      | some c => cases h; rfl
  obtain ⟨before, c, after, hsplit, -, hc⟩ := search_eq_some_iff.1 hsearch
  exact ⟨c, hsplit ▸ List.mem_append_cons_self, hc⟩

/-- What a specifier is found to lead to is the resolved path of a file. -/
theorem resolve_found {importer : Path} {specifier : String} {route : Route}
    (h : r.resolve importer specifier = .ok (.found p route)) : r.IsFilePlace p := by
  obtain ⟨c, -, hprobe, -⟩ := exists_probe_of_found h
  exact isFilePlace_of_probe hprobe

end BundleReach.Resolver
