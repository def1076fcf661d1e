import BundleReach.Proofs.FileTree.Resolve
import BundleReach.Proofs.Path.Name
import Mathlib.Data.List.Nodup

/-!
# Well-formed trees and resolved places

In a well-formed tree names lead to every entry, and no two entries stand at one place.  The top
alone is such a tree, and writing entries under names keeps it one: `WellFormed.write`.

Where a walk ends, no link stands on the way (`firm_of_walk`), so that walking there again meets
none: a resolved path is resolved already, and leads to what the path led to.

* `resolve_resolve`, `entry?_resolve` — resolving twice is resolving once.
* `WellFormed.isPlain_resolve` — a resolved path is plain.
* `WellFormed.nodup_names` — a folder has no name twice.
-/

namespace BundleReach.FileTree

variable {t : FileTree}

/-! ## Well-formed trees -/

/-- Names lead to every entry of a tree, and to no two entries the same ones. -/
structure WellFormed (t : FileTree) : Prop where
  names : ∀ place ∈ Table.keys t.entries, ∀ part ∈ place, Path.IsName part
  once : (Table.keys t.entries).Nodup

namespace WellFormed

theorem bare : WellFormed FileTree.bare where
  names place h := by cases h
  once := List.nodup_nil

theorem put (h : t.WellFormed) {place : List String} (hp : ∀ part ∈ place, Path.IsName part)
    (e : Entry) : WellFormed ⟨Table.put place e t.entries⟩ where
  names other hother := by
    rcases Table.mem_keys_put.1 hother with hother | rfl
    · exact h.names other hother
    · exact hp
  once := Table.nodup_keys_put place e h.once

theorem addFolders (h : t.WellFormed) {place parts : List String}
    (hplace : ∀ part ∈ place, Path.IsName part) (hparts : ∀ part ∈ parts, Path.IsName part) :
    (t.addFolders place parts).WellFormed := by
  induction parts generalizing t place with
  | nil => exact h
  | cons part rest ih =>
    have hnext : ∀ q ∈ place ++ [part], Path.IsName q := by
      intro q hq
      rcases List.mem_append.1 hq with hq | hq
      · exact hplace q hq
      · exact List.mem_singleton.1 hq ▸ hparts part List.mem_cons_self
    have hrest : ∀ q ∈ rest, Path.IsName q := fun q hq => hparts q (List.mem_cons_of_mem part hq)
    rw [FileTree.addFolders]
    refine ih ?_ hnext hrest
    split
    · exact h
    · exact h.put hnext .folder

/-- Writing under names keeps a tree well-formed. -/
theorem write (h : t.WellFormed) {p : Path} (hp : ∀ part ∈ p.parts, Path.IsName part)
    (e : Entry) : (t.write p e).WellFormed := by
  have hfolders : (t.addFolder p.parent).WellFormed :=
    h.addFolders (fun part hpart => by cases hpart) fun part hpart =>
      hp part (List.dropLast_subset _ hpart)
  exact hfolders.put hp e

end WellFormed

/-! ## Places that walks reach -/

/-- A place that a walk can end at: folders lead to it, and no link stands there. -/
inductive Firm (t : FileTree) : List String → Prop
  | top : Firm t []
  | step {place : List String} {part : String} {e : Entry} (before : Firm t place)
      (folder : t.at? place = some .folder) (down : part ≠ Path.up)
      (there : t.at? (place ++ [part]) = some e) (noLink : ∀ target, e ≠ .link target) :
      Firm t (place ++ [part])

/-- A walk that goes up stays where walks can end. -/
theorem Firm.dropLast {place : List String} (h : t.Firm place) : t.Firm place.dropLast := by
  cases h with
  | top => exact .top
  | step before =>
    rw [List.dropLast_concat]
    exact before

theorem Firm.linkStart {place : List String} (h : t.Firm place) (target : Path) :
    t.Firm (linkStart place target) := by
  rw [FileTree.linkStart]
  split
  · exact .top
  · exact h

theorem Firm.of_walkFrom
    {follow : List String → List String → Except AccessFault (List String)}
    (hf : ∀ {place parts goal}, t.Firm place → follow place parts = .ok goal → t.Firm goal)
    {place parts goal : List String} (hp : t.Firm place)
    (h : t.walkFrom follow place parts = .ok goal) : t.Firm goal := by
  induction parts generalizing place with
  | nil =>
    rw [walkFrom] at h
    exact Except.ok.inj h ▸ hp
  | cons part rest ih =>
    rw [walkFrom] at h
    split at h
    · rename_i hfolder
      by_cases hu : part = Path.up
      · rw [if_pos hu] at h
        exact ih hp.dropLast h
      · rw [if_neg hu] at h
        split at h
        · cases h
        · exact hf (hp.linkStart _) h
        · rename_i e hlink hthere
          exact ih (.step hp hfolder hu hthere hlink) h
    · cases h
    · cases h

theorem Firm.of_walkThrough (links : Nat) {place parts goal : List String} (hp : t.Firm place)
    (h : t.walkThrough links place parts = .ok goal) : t.Firm goal := by
  induction links generalizing place parts goal with
  | zero => exact .of_walkFrom (fun _ h => by cases h) hp h
  | succ links ih => exact .of_walkFrom (fun hp h => ih hp h) hp h

theorem firm_of_walk {p : Path} {place : List String} (h : t.walk p = .ok place) :
    t.Firm place :=
  .of_walkThrough mostLinks .top h

/-- Such a place is reached by the parts that lead to it, without a link on the way. -/
theorem Firm.walkFrom_append {place : List String} (h : t.Firm place)
    (follow : List String → List String → Except AccessFault (List String)) (rest : List String) :
    t.walkFrom follow [] (place ++ rest) = t.walkFrom follow place rest := by
  induction h generalizing rest with
  | top => rfl
  | @step place part e before folder down there noLink ih =>
    rw [List.append_assoc, ih, List.singleton_append, walkFrom, folder, if_neg down, there]
    cases e with
    | link target => exact absurd rfl (noLink target)
    | file | folder => rfl

theorem Firm.walk_eq {place : List String} (h : t.Firm place) (a : Anchor) :
    t.walk ⟨a, place⟩ = .ok place := by
  have hend : ∀ follow, t.walkFrom follow [] place = .ok place := by
    intro follow
    rw [← List.append_nil place, h.walkFrom_append follow [], List.append_nil, walkFrom]
  exact hend _

/-! ## Resolved paths -/

/-- A walk along a resolved path ends where one along the path does. -/
theorem walk_resolve {p : Path} {place : List String} (h : t.walk p = .ok place) :
    t.walk (t.resolve p) = .ok place := by
  rw [resolve_eq_of_walk h, (firm_of_walk h).walk_eq]

/-- Resolving a resolved path changes nothing. -/
theorem resolve_resolve {p : Path} {place : List String} (h : t.walk p = .ok place) :
    t.resolve (t.resolve p) = t.resolve p := by
  rw [resolve_eq_of_walk (walk_resolve h), resolve_eq_of_walk h]

theorem exists_walk_of_entry? {p : Path} {e : Entry} (h : t.entry? p = some e) :
    ∃ place, t.walk p = .ok place ∧ t.at? place = some e := by
  unfold entry? at h
  split at h
  · rename_i place hwalk
    exact ⟨place, hwalk, h⟩
  · cases h

/-- A resolved path leads to what the path leads to. -/
theorem entry?_resolve {p : Path} {e : Entry} (h : t.entry? p = some e) :
    t.entry? (t.resolve p) = some e := by
  obtain ⟨place, hwalk, hat⟩ := exists_walk_of_entry? h
  unfold entry?
  rw [walk_resolve hwalk]
  exact hat

theorem exists_content_of_isFile {p : Path} (h : t.isFile p = true) :
    ∃ content, t.entry? p = some (.file content) := by
  rw [isFile] at h
  split at h
  · rename_i content hentry
    exact ⟨content, hentry⟩
  · cases h

/-- A file can be read. -/
theorem exists_read_of_isFile {p : Path} (h : t.isFile p = true) :
    ∃ content, t.read p = .ok content := by
  obtain ⟨content, hentry⟩ := exists_content_of_isFile h
  obtain ⟨place, hwalk, hat⟩ := exists_walk_of_entry? hentry
  refine ⟨content, ?_⟩
  simp only [read, hwalk, bind, Except.bind, hat]
  rfl

theorem isFile_resolve {p : Path} (h : t.isFile p = true) : t.isFile (t.resolve p) = true := by
  obtain ⟨content, hentry⟩ := exists_content_of_isFile h
  rw [isFile, entry?_resolve hentry]

theorem resolve_resolve_of_isFile {p : Path} (h : t.isFile p = true) :
    t.resolve (t.resolve p) = t.resolve p := by
  obtain ⟨content, hentry⟩ := exists_content_of_isFile h
  obtain ⟨place, hwalk, -⟩ := exists_walk_of_entry? hentry
  exact resolve_resolve hwalk

namespace WellFormed

/-- Where something stands, names lead. -/
theorem isName_of_at? (h : t.WellFormed) {place : List String} {e : Entry}
    (hat : t.at? place = some e) : ∀ part ∈ place, Path.IsName part := by
  cases place with
  | nil => exact fun part hpart => by cases hpart
  | cons first rest => exact h.names _ (Table.mem_keys_iff.2 ⟨e, hat⟩)

/-- The resolved path of what stands in a tree is plain. -/
theorem isPlain_resolve (h : t.WellFormed) {p : Path} {e : Entry} (hentry : t.entry? p = some e) :
    (t.resolve p).IsPlain := by
  obtain ⟨place, hwalk, hat⟩ := exists_walk_of_entry? hentry
  rw [resolve_eq_of_walk hwalk]
  exact ⟨rfl, h.isName_of_at? hat⟩

/-! ## Names in folders -/

theorem nextPart?_eq_some_iff {place parts : List String} {part : String} :
    nextPart? place parts = some part ↔ parts = place ++ [part] := by
  rw [nextPart?]
  constructor
  · intro h
    split at h
    · rename_i last hlast
      split at h
      · rename_i hplace
        rw [← hplace, ← Option.some.inj h]
        exact (List.dropLast_append_getLast? last hlast).symm
      · cases h
    · cases h
  · rintro rfl
    simp

/-- A folder of a well-formed tree has no name twice. -/
theorem nodup_names (h : t.WellFormed) (place : List String) : (t.names place).Nodup := by
  have hkeys : t.names place = (Table.keys t.entries).filterMap (nextPart? place) := by
    rw [Table.keys, List.filterMap_map]
    rfl
  rw [hkeys]
  refine h.once.filterMap fun k k' part hk hk' => ?_
  rw [nextPart?_eq_some_iff.1 hk, nextPart?_eq_some_iff.1 hk']

theorem nodup_names_children (h : t.WellFormed) (p : Path) :
    ((t.children p).map Path.name).Nodup := by
  rw [children]
  split
  · rename_i place _
    have hnames : ((t.names place).map fun n => (⟨p.anchor, p.parts ++ [n]⟩ : Path)).map Path.name =
        t.names place := by
      simp [Path.name, Function.comp_def]
    rw [hnames]
    exact h.nodup_names place
  · exact List.nodup_nil

end WellFormed

end BundleReach.FileTree
