import BundleReach.Proofs.FileTree.WellFormed

/-!
# What stands below a folder

A walk goes through the links that it meets, while a look at what is below a folder passes them by.
So a file that a path leads to is seen below the folder unless a link stands on the way
(`mem_below_iff_of_isFile`).

* `walkThrough_append` — a walk along parts and further ones comes by where the first ones lead.
* `Grounded.folder_of_mem_keys` — above an entry there are folders.
* `mem_below_iff` — what is seen below a folder.
-/

namespace BundleReach.FileTree

variable {t : FileTree} {folder : Path} {place parts rest goal : List String}

/-! ## Walks in two parts -/

/-- A walk along parts and further ones comes by the place that the parts lead to, if the walk goes
on so from where a link leads. -/
theorem walkFrom_append {follow : List String → List String → Except AccessFault (List String)}
    {reaches : List String → Prop}
    (hfollow : ∀ place parts, follow place (parts ++ rest) = .ok goal →
      ∃ mid, follow place parts = .ok mid ∧ reaches mid)
    (hrest : ∀ mid, t.walkFrom follow mid rest = .ok goal → reaches mid)
    (h : t.walkFrom follow place (parts ++ rest) = .ok goal) :
    ∃ mid, t.walkFrom follow place parts = .ok mid ∧ reaches mid := by
  induction parts generalizing place with
  | nil => exact ⟨place, rfl, hrest place h⟩
  | cons part parts ih =>
    rw [List.cons_append, walkFrom] at h
    rw [walkFrom]
    split at h
    · by_cases hup : part = Path.up
      · rw [if_pos hup] at h ⊢
        exact ih h
      · rw [if_neg hup] at h ⊢
        split at h
        · cases h
        · -- The link's parts come before those that are left.
          rw [← List.append_assoc] at h
          exact hfollow _ _ h
        · exact ih h
    · cases h
    · cases h

/-- A walk that fails nowhere comes by the place that its first parts lead to, and goes on from
there.  It may have met some of the links by then. -/
theorem walkThrough_append (links : Nat)
    (h : t.walkThrough links place (parts ++ rest) = .ok goal) :
    ∃ mid, t.walkThrough links place parts = .ok mid ∧
      ∃ left, t.walkThrough left mid rest = .ok goal := by
  induction links generalizing place parts with
  | zero => exact walkFrom_append (fun _ _ h => by cases h) (fun _ h => ⟨0, h⟩) h
  | succ links ih =>
    exact walkFrom_append (fun place parts h => @ih place parts h) (fun _ h => ⟨links + 1, h⟩) h

/-- A step down leaves a folder for what stands in it, and goes on from there if that is no
link. -/
theorem of_walkFrom_cons {follow : List String → List String → Except AccessFault (List String)}
    {part : String} (hdown : part ≠ Path.up)
    (h : t.walkFrom follow place (part :: rest) = .ok goal) :
    ∃ e, t.at? (place ++ [part]) = some e ∧
      ((∀ target, e ≠ .link target) → t.walkFrom follow (place ++ [part]) rest = .ok goal) := by
  rw [walkFrom] at h
  split at h
  · rw [if_neg hdown] at h
    split at h
    · cases h
    · rename_i target hat
      exact ⟨.link target, hat, fun hlink => absurd rfl (hlink target)⟩
    · rename_i e _ hat
      exact ⟨e, hat, fun _ => h⟩
  · cases h
  · cases h

/-- Whatever is walked on from is a folder. -/
theorem folder_of_walkThrough {links : Nat} {part : String}
    (h : t.walkThrough links place (part :: rest) = .ok goal) : t.at? place = some .folder := by
  cases links <;>
  · rw [walkThrough, walkFrom] at h
    split at h
    · assumption
    · cases h
    · cases h

/-- Where parts lead to a file from a path, the path leads to a folder. -/
theorem exists_walk_of_isFile (hne : rest ≠ [])
    (h : t.isFile ⟨folder.anchor, folder.parts ++ rest⟩ = true) :
    ∃ place links goal, t.walk folder = .ok place ∧ t.at? place = some .folder ∧
      t.walkThrough links place rest = .ok goal := by
  obtain ⟨content, hentry⟩ := exists_content_of_isFile h
  obtain ⟨goal, hgoal, -⟩ := exists_walk_of_entry? hentry
  obtain ⟨place, hplace, links, hrest⟩ := walkThrough_append _ hgoal
  obtain ⟨part, rest, rfl⟩ := List.exists_cons_of_ne_nil hne
  exact ⟨place, links, goal, hplace, folder_of_walkThrough hrest, hrest⟩

theorem isFolder_of_isFile (hne : rest ≠ [])
    (h : t.isFile ⟨folder.anchor, folder.parts ++ rest⟩ = true) : t.isFolder folder = true := by
  obtain ⟨place, -, -, hwalk, hat, -⟩ := exists_walk_of_isFile hne h
  rw [isFolder, entry?, hwalk, beq_iff_eq]
  exact hat

/-! ## Entries and the folders above them -/

/-- Every entry of a tree stands in a folder. -/
def Grounded (t : FileTree) : Prop :=
  ∀ place ∈ Table.keys t.entries, t.at? place.dropLast = some .folder

instance (t : FileTree) : Decidable t.Grounded :=
  inferInstanceAs (Decidable (∀ place ∈ Table.keys t.entries, _))

theorem mem_keys_of_at? {part : String} {e : Entry} (h : t.at? (place ++ [part]) = some e) :
    place ++ [part] ∈ Table.keys t.entries := by
  cases place with
  | nil => exact Table.mem_keys_iff.2 ⟨e, h⟩
  | cons first rest => exact Table.mem_keys_iff.2 ⟨e, h⟩

/-- Above an entry there are folders all the way. -/
theorem Grounded.folder_of_mem_keys (h : t.Grounded) (hne : rest ≠ [])
    (hmem : place ++ rest ∈ Table.keys t.entries) : t.at? place = some .folder := by
  induction rest generalizing place with
  | nil => exact absurd rfl hne
  | cons part rest ih =>
    rw [List.append_cons] at hmem
    have hmem' : place ++ [part] ∈ Table.keys t.entries := by
      cases rest with
      | nil => simpa using hmem
      | cons next rest => exact mem_keys_of_at? (ih (List.cons_ne_nil _ _) hmem)
    have hfolder := h _ hmem'
    rwa [List.dropLast_concat] at hfolder

/-- A file is neither at the path of a folder nor above it. -/
theorem not_prefix_of_isFolder {p : Path} (hp : t.isFile p = true)
    (hfolder : t.isFolder folder = true) : ¬ (t.resolve p).parts <+: folder.parts := by
  obtain ⟨content, hfile⟩ := exists_content_of_isFile hp
  obtain ⟨place, hplace, hat⟩ := exists_walk_of_entry? hfile
  rw [isFolder, beq_iff_eq] at hfolder
  obtain ⟨goal, hgoal, hgoalAt⟩ := exists_walk_of_entry? hfolder
  rw [resolve_eq_of_walk hplace]
  rintro ⟨rest, hrest⟩
  have hon : t.walkThrough mostLinks place rest = .ok goal := by
    rw [walk, ← hrest] at hgoal
    exact ((firm_of_walk hplace).walkFrom_append _ rest).symm.trans hgoal
  cases rest with
  | nil =>
    obtain rfl : place = goal := Except.ok.inj hon
    rw [hat] at hgoalAt
    cases hgoalAt
  | cons part rest =>
    have hhere := folder_of_walkThrough hon
    rw [hat] at hhere
    cases hhere

/-! ## Listing -/

/-- What is seen below a folder has an entry in the tree below the folder's place. -/
theorem mem_below_iff (hwalk : t.walk folder = .ok place) {p : Path} :
    p ∈ t.below folder ↔ ∃ rest, rest ≠ [] ∧ place ++ rest ∈ Table.keys t.entries ∧
      p = ⟨folder.anchor, folder.parts ++ rest⟩ := by
  rw [below, hwalk]
  simp only [List.mem_filterMap, Option.ite_none_right_eq_some, List.isPrefixOf_iff_prefix,
    Option.some.injEq]
  constructor
  · rintro ⟨e, he, ⟨⟨rest, hrest⟩, hself⟩, rfl⟩
    refine ⟨rest, ?_, ?_, ?_⟩
    · rintro rfl
      exact hself (by rw [← hrest, List.append_nil])
    · rw [hrest]
      exact List.mem_map.2 ⟨e, he, rfl⟩
    · rw [← hrest, List.drop_left]
  · rintro ⟨rest, hne, hmem, rfl⟩
    obtain ⟨e, he, heq⟩ := List.mem_map.1 hmem
    refine ⟨e, he, ⟨⟨rest, heq.symm⟩, ?_⟩, ?_⟩
    · rw [heq]
      exact fun hself => hne (List.append_right_eq_self.1 hself)
    · rw [heq, List.drop_left]

/-- A link stands on the way from a folder along parts, before their end. -/
def BehindLink (t : FileTree) (folder : Path) (parts : List String) : Prop :=
  ∃ place before after target, t.walk folder = .ok place ∧ parts = before ++ after ∧ after ≠ [] ∧
    t.at? (place ++ before) = some (.link target)

/-- Where a walk down names ends, the tree has an entry at these names, or one of them before the
last is that of a link. -/
theorem mem_keys_or_link_of_walkFrom
    {follow : List String → List String → Except AccessFault (List String)} (hne : rest ≠ [])
    (hdown : ∀ part ∈ rest, part ≠ Path.up) (h : t.walkFrom follow place rest = .ok goal) :
    place ++ rest ∈ Table.keys t.entries ∨ ∃ before after target, rest = before ++ after ∧
      after ≠ [] ∧ t.at? (place ++ before) = some (.link target) := by
  induction rest generalizing place with
  | nil => exact absurd rfl hne
  | cons part rest ih =>
    obtain ⟨e, hnext, hon⟩ := of_walkFrom_cons (hdown part List.mem_cons_self) h
    by_cases hlast : rest = []
    · subst hlast
      exact .inl (mem_keys_of_at? hnext)
    by_cases hlink : ∃ target, e = .link target
    · obtain ⟨target, rfl⟩ := hlink
      exact .inr ⟨[part], rest, target, rfl, hlast, hnext⟩
    · have hdown' : ∀ q ∈ rest, q ≠ Path.up := fun q hq =>
        hdown q (List.mem_cons_of_mem part hq)
      rcases ih hlast hdown' (hon fun target he => hlink ⟨target, he⟩) with
        hmem | ⟨before, after, target, rfl, hafter, hat⟩
      · exact .inl (by rwa [List.append_cons])
      · exact .inr ⟨part :: before, after, target, rfl, hafter, by rwa [List.append_cons]⟩

/-- A file is seen below a folder unless it is behind a link. -/
theorem mem_below_iff_of_isFile (ht : t.Grounded) (hne : rest ≠ [])
    (hdown : ∀ part ∈ rest, part ≠ Path.up)
    (hfile : t.isFile ⟨folder.anchor, folder.parts ++ rest⟩ = true) :
    ⟨folder.anchor, folder.parts ++ rest⟩ ∈ t.below folder ↔ ¬ t.BehindLink folder rest := by
  obtain ⟨place, links, goal, hwalk, -, hrest⟩ := exists_walk_of_isFile hne hfile
  rw [mem_below_iff hwalk]
  constructor
  · rintro ⟨rest', -, hmem, heq⟩ ⟨place', before, after, target, hwalk', rfl, hafter, hlink⟩
    obtain rfl : before ++ after = rest' := List.append_cancel_left (congrArg Path.parts heq)
    obtain rfl : place = place' := Except.ok.inj (hwalk.symm.trans hwalk')
    rw [← List.append_assoc] at hmem
    have hfolder := ht.folder_of_mem_keys hafter hmem
    rw [hfolder] at hlink
    cases hlink
  · intro hlink
    refine ⟨rest, hne, ?_, rfl⟩
    have hwalked : ∃ follow, t.walkFrom follow place rest = .ok goal := by
      cases links with
      | zero => exact ⟨_, hrest⟩
      | succ links => exact ⟨_, hrest⟩
    obtain ⟨follow, hwalked⟩ := hwalked
    refine (mem_keys_or_link_of_walkFrom hne hdown hwalked).resolve_right ?_
    rintro ⟨before, after, target, hparts, hafter, hat⟩
    exact hlink ⟨place, before, after, target, hwalk, hparts, hafter, hat⟩

/-! ## Trees without links -/

/-- Whether an entry is a link. -/
def isLink : Entry → Bool
  | .link _ => true
  | _ => false

/-- No entry of a tree is a link. -/
def LinkFree (t : FileTree) : Prop := ∀ e ∈ t.entries, isLink e.2 = false

instance (t : FileTree) : Decidable t.LinkFree :=
  inferInstanceAs (Decidable (∀ e ∈ t.entries, _))

namespace LinkFree

theorem at?_ne (h : t.LinkFree) {e : Entry} (hat : t.at? place = some e) (target : Path) :
    e ≠ .link target := by
  rintro rfl
  cases place with
  | nil => cases hat
  | cons first rest => cases h _ (Table.mem_of_find? hat)

/-- A walk along names ends where they say. -/
theorem eq_of_walkFrom (h : t.LinkFree)
    {follow : List String → List String → Except AccessFault (List String)}
    (hdown : ∀ part ∈ parts, part ≠ Path.up) (hwalk : t.walkFrom follow place parts = .ok goal) :
    goal = place ++ parts := by
  induction parts generalizing place with
  | nil =>
    rw [List.append_nil]
    exact (Except.ok.inj hwalk).symm
  | cons part rest ih =>
    obtain ⟨e, hat, hon⟩ := of_walkFrom_cons (hdown part List.mem_cons_self) hwalk
    rw [ih (fun q hq => hdown q (List.mem_cons_of_mem part hq)) (hon (h.at?_ne hat)),
      List.append_assoc, List.singleton_append]

theorem eq_of_walk (h : t.LinkFree) {p : Path} (hdown : ∀ part ∈ p.parts, part ≠ Path.up)
    (hwalk : t.walk p = .ok place) : place = p.parts :=
  h.eq_of_walkFrom hdown hwalk

/-- A path to a file ends in the file's own name, even if it goes up on the way. -/
theorem getLast?_of_walk (h : t.LinkFree) {p : Path} (hwalk : t.walk p = .ok place)
    {content : Text.Bytes} (hfile : t.at? place = some (.file content)) :
    place.getLast? = p.parts.getLast? := by
  rcases List.eq_nil_or_concat p.parts with hnil | ⟨init, last, hparts⟩
  · rw [walk, hnil] at hwalk
    obtain rfl : [] = place := Except.ok.inj hwalk
    cases hfile
  · rw [List.concat_eq_append] at hparts
    rw [walk, hparts] at hwalk
    obtain ⟨mid, hmid, left, hleft⟩ := walkThrough_append _ hwalk
    have hstep : ∃ follow, t.walkFrom follow mid [last] = .ok place := by
      cases left with
      | zero => exact ⟨_, hleft⟩
      | succ left => exact ⟨_, hleft⟩
    obtain ⟨follow, hstep⟩ := hstep
    by_cases hup : last = Path.up
    · -- Above a place that a walk ends at there is a folder.
      have hfirm : t.Firm mid := .of_walkThrough mostLinks .top hmid
      rw [walkFrom, folder_of_walkThrough hleft, if_pos hup] at hstep
      obtain rfl : mid.dropLast = place := Except.ok.inj hstep
      have habove : t.at? mid.dropLast = some .folder := by
        cases hfirm with
        | top => rfl
        | step _ hfolder =>
          rw [List.dropLast_concat]
          exact hfolder
      rw [habove] at hfile
      cases hfile
    · have hdown : ∀ part ∈ [last], part ≠ Path.up := by simpa using hup
      rw [h.eq_of_walkFrom hdown hstep, hparts, List.getLast?_concat, List.getLast?_concat]

end LinkFree

end BundleReach.FileTree
