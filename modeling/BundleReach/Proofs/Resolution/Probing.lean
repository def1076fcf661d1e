import BundleReach.Proofs.FileTree.Canonical
import BundleReach.Proofs.Path.Endings
import BundleReach.Proofs.Resolution.Candidates

/-!
# What probing finds

Where endings hold no slash and a path does not go up to the root of all paths, probing it is a
search along its spellings: the path itself, the path with each ending, and its index files if it is
a folder.  The first spelling that is a file is found, links taken out, and what is found is found
again under its own path.

* `spellings` — the paths that a path may be spelled as, in order.
* `probe_eq_find?` — probing is looking for the first file among them.
* `probe_exact` — when nothing is found, what is found, and that it is canonical.
-/

namespace BundleReach

open BundleReach.Path (RenameFault)

namespace Path

/-- The path with a text added to its name. -/
def withEnding (p : Path) (ending : String) : Path :=
  ⟨p.anchor, p.parts.dropLast ++ [p.name ++ ending]⟩

/-- The path of what has a name in the folder at a path. -/
def entryNamed (p : Path) (name : String) : Path := ⟨p.anchor, p.parts ++ [name]⟩

end Path

namespace Resolver

variable {r : Resolver} {p c file : Path}

/-- The paths that a path may be spelled as, in the order in which they are tried. -/
def spellings (r : Resolver) (p : Path) : List Path :=
  p :: r.settings.extensions.map p.withEnding ++
    if r.tree.isFolder p then r.settings.extensions.map fun e => p.entryNamed ("index" ++ e) else []

/-- Names that are parts with every ending are tried one after the other. -/
theorem probeEndings_eq_find? (hp : p.name ≠ "") {endings : List String}
    (hends : ∀ ending ∈ endings, Path.IsPart (p.name ++ ending)) :
    r.probeEndings p endings = .ok ((endings.map p.withEnding).find? r.tree.isFile) := by
  induction endings with
  | nil => rfl
  | cons ending rest ih =>
    have hrename : p.rename (p.name ++ ending) = .ok (p.withEnding ending) :=
      Path.rename_eq_ok hp (hends ending List.mem_cons_self)
    rw [probeEndings, hrename, List.map_cons, List.find?_cons]
    show (if r.tree.isFile (p.withEnding ending) = true then Except.ok (some (p.withEnding ending))
      else r.probeEndings p rest) = _
    rw [ih fun other hother => hends other (List.mem_cons_of_mem _ hother)]
    cases r.tree.isFile (p.withEnding ending) <;> rfl

theorem indexFiles_eq (hends : ∀ ending ∈ r.settings.extensions, '/' ∉ ending.toList) (p : Path) :
    r.indexFiles p = r.settings.extensions.map fun e => p.entryNamed ("index" ++ e) := by
  have hindex : Path.IsPart "index" := by decide
  exact List.map_congr_left fun ending hending =>
    Path.child_of_isPart (hindex.append (hends ending hending)) p

/-- Below the root of all paths, probing a path looks for the first file among the spellings of its
normal form. -/
theorem probe_eq_find? (hends : ∀ ending ∈ r.settings.extensions, '/' ∉ ending.toList)
    (hc : c.IsWritten) (hroot : c.normal.parts ≠ []) :
    r.probe c = .ok (((r.spellings c.normal).find? r.tree.isFile).map r.tree.resolve) := by
  have hname := hc.normal.isPart_name hroot
  have hprobe := probeEndings_eq_find? (r := r) hname.ne_empty
    fun ending hending => hname.append (hends ending hending)
  rw [probe, spellings, List.cons_append, List.find?_cons]
  cases hself : r.tree.isFile c.normal with
  | true => rfl
  | false =>
    rw [if_neg Bool.false_ne_true, hprobe, List.find?_append]
    cases (r.settings.extensions.map c.normal.withEnding).find? r.tree.isFile with
    | some q => rfl
    | none =>
      simp only [Option.none_or]
      by_cases hfolder : r.tree.isFolder c.normal = true
      · rw [if_pos hfolder, if_pos hfolder, indexFiles_eq hends]
        rfl
      · rw [if_neg hfolder, if_neg hfolder]
        rfl

/-- No link stands on the way to a file's resolved path. -/
theorem clear_resolve_of_isFile (h : r.tree.isFile p = true) :
    r.tree.Clear (r.tree.resolve p).parts := by
  obtain ⟨content, hentry⟩ := FileTree.exists_content_of_isFile h
  obtain ⟨place, hwalk, -⟩ := FileTree.exists_walk_of_entry? hentry
  obtain ⟨goal, hclear, hresolve⟩ := (FileTree.LoopFree.of_walk hwalk).exists_clear
  rw [hresolve]
  exact hclear

/-- A file's resolved path means that file: it is what probing it finds. -/
theorem probe_resolve (h : r.tree.isFile p = true) :
    r.probe (r.tree.resolve p) = .ok (some (r.tree.resolve p)) := by
  have hnormal : (r.tree.resolve p).normal = r.tree.resolve p :=
    Path.normal_of_ne_up (clear_resolve_of_isFile h).ne_up
  rw [probe, hnormal, if_pos (FileTree.isFile_resolve h), FileTree.resolve_resolve_of_isFile h]
  rfl

/-- Where endings hold no slash, a path below the root of all paths leads nowhere if none of its
spellings is a file; else it leads to the first one that is, with the links taken out.  No link
stands on the way to what is found, which is a file, and is found under its own path again. -/
theorem probe_exact (r : Resolver) (c : Path)
    (hends : ∀ ending ∈ r.settings.extensions, '/' ∉ ending.toList) (hc : c.IsWritten)
    (hroot : c.normal.parts ≠ []) :
    (r.probe c = .ok none ↔ ∀ q ∈ r.spellings c.normal, r.tree.isFile q = false) ∧
    (∀ file, r.probe c = .ok (some file) ↔
      ComesAfter (fun q => r.tree.isFile q = false)
        (fun q => r.tree.isFile q = true ∧ file = r.tree.resolve q) (r.spellings c.normal)) ∧
    (∃ found, r.probe c = .ok found) ∧
    ∀ file, r.probe c = .ok (some file) →
      r.tree.isFile file = true ∧ r.tree.Clear file.parts ∧ r.probe file = .ok (some file) := by
  have hprobe := probe_eq_find? hends hc hroot
  have hfound : ∀ file, r.probe c = .ok (some file) ↔
      ∃ q, (r.spellings c.normal).find? r.tree.isFile = some q ∧ file = r.tree.resolve q := by
    intro file
    rw [hprobe, Except.ok.injEq, Option.map_eq_some_iff]
    exact exists_congr fun q => and_congr_right fun _ => eq_comm
  refine ⟨?_, fun file => ?_, ⟨_, hprobe⟩, fun file h => ?_⟩
  · rw [hprobe, Except.ok.injEq, Option.map_eq_none_iff, List.find?_eq_none]
    simp only [Bool.not_eq_true]
  · rw [hfound]
    simp only [List.find?_eq_some_iff_append, Bool.not_eq_true']
    constructor
    · rintro ⟨q, ⟨hq, before, after, hsplit, hbefore⟩, rfl⟩
      exact ⟨before, q, after, hsplit, hbefore, hq, rfl⟩
    · rintro ⟨before, q, after, hsplit, hbefore, hq, rfl⟩
      exact ⟨q, ⟨hq, before, after, hsplit, hbefore⟩, rfl⟩
  · obtain ⟨q, hfind, rfl⟩ := (hfound file).1 h
    have hq : r.tree.isFile q = true := List.find?_some hfind
    exact ⟨FileTree.isFile_resolve hq, clear_resolve_of_isFile hq, probe_resolve hq⟩

/-- An application that reaches a folder beside it through a link. -/
def linkedResolver : Resolver where
  tree := ⟨[(["shop"], .folder), (["shop", "lib"], .link ⟨.here, [Path.up, "real"]⟩),
    (["real"], .folder), (["real", "index.ts"], .file [])]⟩
  app := { name := "shop", root := ⟨.root, ["shop"]⟩, kind := .app }
  addons := []
  settings := .initial 4

theorem probe_exact_linked :
    (∀ ending ∈ linkedResolver.settings.extensions, '/' ∉ ending.toList) ∧
      Path.IsWritten ⟨.root, ["shop", "x", Path.up, "lib"]⟩ ∧
      Path.normal ⟨.root, ["shop", "x", Path.up, "lib"]⟩ = ⟨.root, ["shop", "lib"]⟩ ∧
      linkedResolver.probe ⟨.root, ["shop", "x", Path.up, "lib"]⟩ =
        .ok (some ⟨.root, ["real", "index.ts"]⟩) ∧
      linkedResolver.probe ⟨.root, ["real", "index.ts"]⟩ =
        .ok (some ⟨.root, ["real", "index.ts"]⟩) := by
  have hends : ∀ ending ∈ linkedResolver.settings.extensions, '/' ∉ ending.toList := by decide
  have hwritten : Path.IsWritten ⟨.root, ["shop", "x", Path.up, "lib"]⟩ := by decide
  have hnormal :
      Path.normal ⟨.root, ["shop", "x", Path.up, "lib"]⟩ = ⟨.root, ["shop", "lib"]⟩ := by
    decide
  have hprobe : linkedResolver.probe ⟨.root, ["shop", "x", Path.up, "lib"]⟩ =
      .ok (some ⟨.root, ["real", "index.ts"]⟩) := by
    decide
  refine ⟨hends, hwritten, hnormal, hprobe, ?_⟩
  have hexact := probe_exact linkedResolver _ hends hwritten (by rw [hnormal]; decide)
  exact (hexact.2.2.2 _ hprobe).2.2

end Resolver

end BundleReach
