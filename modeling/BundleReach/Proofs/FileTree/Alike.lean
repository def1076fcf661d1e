import BundleReach.Proofs.FileTree.WellFormed

/-!
# Trees that are alike

Two trees are alike if the same entries stand at the same places, files but for their contents.
Whatever is asked of a tree other than to read a file, it is answered alike.

* `Alike.walk_eq`, `Alike.resolve_eq` — paths lead to the same places, and are resolved alike.
* `Alike.isFile_eq`, `Alike.isFolder_eq` — to files and folders alike.
* `Alike.read_eq` — a file is read alike if its content is the same in both trees.
* `Alike.names_perm` — folders hold the same names, though not in one order.
-/

namespace BundleReach.FileTree

variable {t t' : FileTree} {place parts : List String} {p : Path}

/-! ## Entries and trees -/

/-- The same stands at a place of two trees, or a file does in both. -/
inductive AlikeAt : Option Entry → Option Entry → Prop
  | nothing : AlikeAt none none
  | folder : AlikeAt (some .folder) (some .folder)
  | link (target : Path) : AlikeAt (some (.link target)) (some (.link target))
  | file (content content' : Text.Bytes) : AlikeAt (some (.file content)) (some (.file content'))

theorem AlikeAt.refl (e : Option Entry) : AlikeAt e e := by
  cases e with
  | none => exact .nothing
  | some e =>
    cases e with
    | file content => exact .file content content
    | folder => exact .folder
    | link target => exact .link target

/-- Trees with the same paths, kinds of entries and links. -/
def Alike (t t' : FileTree) : Prop := ∀ place, AlikeAt (t.at? place) (t'.at? place)

/-- A tree with another content for one of its files is alike. -/
theorem alike_put {content : Text.Bytes} (h : t.at? place = some (.file content))
    (content' : Text.Bytes) : Alike t ⟨Table.put place (.file content') t.entries⟩ := by
  intro other
  cases other with
  | nil => exact .folder
  | cons first rest =>
    cases place with
    | nil => cases h
    | cons first' rest' =>
      by_cases hsame : first :: rest = first' :: rest'
      · rw [hsame, h]
        have hput : at? ⟨Table.put (first' :: rest') (.file content') t.entries⟩ (first' :: rest') =
            some (.file content') := Table.find?_put_self ..
        rw [hput]
        exact .file content content'
      · have hput : at? ⟨Table.put (first' :: rest') (.file content') t.entries⟩ (first :: rest) =
            t.at? (first :: rest) := Table.find?_put_of_ne hsame ..
        rw [hput]
        exact .refl _

theorem read_of_walk (h : t.walk p = .ok place) :
    t.read p = match t.at? place with
      | some (.file content) => .ok content
      | some .folder => .error .isAFolder
      | _ => .error .missing := by
  rw [read, h]
  rfl

namespace Alike

/-! ## Walking -/

theorem walkFrom_eq (h : Alike t t')
    (follow : List String → List String → Except AccessFault (List String)) :
    t.walkFrom follow place parts = t'.walkFrom follow place parts := by
  induction parts generalizing place with
  | nil => rfl
  | cons part rest ih =>
    rw [walkFrom, walkFrom]
    have hhere := h place
    generalize t.at? place = here, t'.at? place = here' at hhere
    cases hhere with
    | nothing | link | file => rfl
    | folder =>
      by_cases hup : part = Path.up
      · simp only [if_pos hup]
        exact ih
      · simp only [if_neg hup]
        have hnext := h (place ++ [part])
        generalize t.at? (place ++ [part]) = next, t'.at? (place ++ [part]) = next' at hnext
        cases hnext with
        | nothing | link => rfl
        | folder | file => exact ih

theorem walkThrough_eq (h : Alike t t') (links : Nat) :
    t.walkThrough links = t'.walkThrough links := by
  induction links with
  | zero =>
    funext place parts
    exact h.walkFrom_eq _
  | succ links ih =>
    funext place parts
    rw [walkThrough, walkThrough, ih]
    exact h.walkFrom_eq _

/-- A path leads to the same place. -/
theorem walk_eq (h : Alike t t') : t.walk = t'.walk := by
  funext p
  rw [walk, walk, h.walkThrough_eq]

theorem entry? (h : Alike t t') (p : Path) : AlikeAt (t.entry? p) (t'.entry? p) := by
  rw [FileTree.entry?, FileTree.entry?, h.walk_eq]
  cases t'.walk p with
  | error fault => exact .nothing
  | ok place => exact h place

theorem isFile_eq (h : Alike t t') : t.isFile = t'.isFile := by
  funext p
  rw [isFile, isFile]
  have hentry := h.entry? p
  generalize t.entry? p = e, t'.entry? p = e' at hentry
  cases hentry <;> rfl

theorem isFolder_eq (h : Alike t t') : t.isFolder = t'.isFolder := by
  funext p
  rw [isFolder, isFolder]
  have hentry := h.entry? p
  generalize t.entry? p = e, t'.entry? p = e' at hentry
  cases hentry <;> rfl

/-- What a path leads to is read alike if it is the same. -/
theorem read_eq (h : Alike t t')
    (hsame : ∀ place, t.walk p = .ok place → t.at? place = t'.at? place) :
    t.read p = t'.read p := by
  cases hwalk : t.walk p with
  | error fault =>
    have hwalk' : t'.walk p = .error fault := h.walk_eq ▸ hwalk
    rw [read, read, hwalk, hwalk']
    rfl
  | ok place =>
    have hwalk' : t'.walk p = .ok place := h.walk_eq ▸ hwalk
    rw [read_of_walk hwalk, read_of_walk hwalk', hsame place hwalk]

/-! ## Resolving -/

theorem resolveFrom_eq (h : Alike t t')
    (follow : List String → List String → Option (List String)) :
    t.resolveFrom follow place parts = t'.resolveFrom follow place parts := by
  induction parts generalizing place with
  | nil => rfl
  | cons part rest ih =>
    rw [resolveFrom, resolveFrom]
    by_cases hup : part = Path.up
    · rw [if_pos hup, if_pos hup]
      exact ih
    · rw [if_neg hup, if_neg hup]
      have hnext := h (place ++ [part])
      generalize t.at? (place ++ [part]) = next, t'.at? (place ++ [part]) = next' at hnext
      cases hnext with
      | nothing | folder | file => exact ih
      | link target => exact Option.bind_congr fun next _ => ih

theorem resolveThrough_eq (h : Alike t t') (depth : Nat) :
    t.resolveThrough depth = t'.resolveThrough depth := by
  induction depth with
  | zero =>
    funext place parts
    exact h.resolveFrom_eq _
  | succ depth ih =>
    funext place parts
    rw [resolveThrough, resolveThrough, ih]
    exact h.resolveFrom_eq _

/-- A path is resolved alike.  The trees may have looked for links to another depth, but both have
looked deep enough. -/
theorem resolve_eq (h : Alike t t') : t.resolve = t'.resolve := by
  funext p
  let depth := max t.entries.length t'.entries.length
  have hdepth : t.resolveThrough depth = t.resolveThrough t.entries.length :=
    resolveThrough_eq_of_le (Nat.le_max_left _ _)
  have hdepth' : t'.resolveThrough depth = t'.resolveThrough t'.entries.length :=
    resolveThrough_eq_of_le (Nat.le_max_right _ _)
  rw [resolve, resolve, ← hdepth, ← hdepth', h.resolveThrough_eq]

/-! ## Listing -/

theorem isSome_at?_eq (h : Alike t t') (place : List String) :
    (t.at? place).isSome = (t'.at? place).isSome := by
  have hplace := h place
  generalize t.at? place = e, t'.at? place = e' at hplace
  cases hplace <;> rfl

/-- Below the top, the trees have entries at the same places. -/
theorem mem_keys_iff (h : Alike t t') (hne : place ≠ []) :
    place ∈ Table.keys t.entries ↔ place ∈ Table.keys t'.entries := by
  have hfind (u : FileTree) : (u.at? place).isSome = true ↔ place ∈ Table.keys u.entries := by
    rw [Table.mem_keys_iff, Option.isSome_iff_exists]
    cases place with
    | nil => exact absurd rfl hne
    | cons first rest => rfl
  rw [← hfind, ← hfind, h.isSome_at?_eq]

end Alike

theorem mem_names_iff {name : String} :
    name ∈ t.names place ↔ place ++ [name] ∈ Table.keys t.entries := by
  rw [names, List.mem_filterMap, Table.keys, List.mem_map]
  exact exists_congr fun e => and_congr_right fun _ => WellFormed.nextPart?_eq_some_iff

/-- The names in a folder are the same, whatever their order. -/
theorem Alike.names_perm (h : Alike t t') (ht : t.WellFormed) (ht' : t'.WellFormed)
    (place : List String) : (t.names place).Perm (t'.names place) := by
  rw [List.perm_ext_iff_of_nodup (ht.nodup_names place) (ht'.nodup_names place)]
  intro name
  rw [mem_names_iff, mem_names_iff, h.mem_keys_iff (by simp)]

theorem Alike.children_perm (h : Alike t t') (ht : t.WellFormed) (ht' : t'.WellFormed)
    (p : Path) : (t.children p).Perm (t'.children p) := by
  rw [children, children, h.walk_eq]
  cases t'.walk p with
  | error fault => exact .refl _
  | ok place => exact (h.names_perm ht ht' place).map _

end BundleReach.FileTree
