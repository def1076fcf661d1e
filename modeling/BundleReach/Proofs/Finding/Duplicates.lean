import BundleReach.Proofs.Finding.Bundles
import Mathlib.Data.List.Nodup

/-!
# What bundles ship in common

A module that bundles need and ship is looked at in each of them.  Where no closure holds a path
twice and nothing else in it has the module's id, the bundles that are looked at are those that need
and ship the module, each once (`holders_eq`); where besides no two bundles have one name, the
module is found exactly if two of them ship different contents for it (`isFound_iff`).

* `filterMap_differing` — which modules are found, in the order of the graph.
* `duplicatesByDigest_eq` — comparing digests of contents finds the same, as long as no two contents
  that are compared have one digest.
-/

namespace BundleReach

open Text (Bytes)

variable {α : Type} {t : FileTree} {g : ModuleGraph} {bundles : List Bundle} {c : Closures}
  {packages : List Package} {p : Path} {id : String}

/-! ## Items that differ -/

section

variable [DecidableEq α]

theorem differ_iff {l : List α} : differ l = true ↔ ∃ x ∈ l, ∃ y ∈ l, x ≠ y := by
  cases l with
  | nil => simp [differ]
  | cons first rest =>
    rw [differ, List.any_eq_true]
    constructor
    · rintro ⟨x, hx, hne⟩
      exact ⟨x, List.mem_cons_of_mem first hx, first, List.mem_cons_self, of_decide_eq_true hne⟩
    · rintro ⟨x, hx, y, hy, hne⟩
      -- One of the two is not the first item.
      by_cases hfirst : x = first
      · subst hfirst
        refine ⟨y, (List.mem_cons.1 hy).resolve_left (Ne.symm hne), ?_⟩
        exact decide_eq_true (Ne.symm hne)
      · exact ⟨x, (List.mem_cons.1 hx).resolve_left hfirst, decide_eq_true hfirst⟩

/-- Images of items differ as the items do, if different ones have different images. -/
theorem differ_map {β : Type} [DecidableEq β] {f : α → β} {l : List α}
    (h : ∀ x ∈ l, ∀ y ∈ l, f x = f y → x = y) : differ (l.map f) = differ l := by
  rw [Bool.eq_iff_iff, differ_iff, differ_iff]
  constructor
  · rintro ⟨u, hu, v, hv, hne⟩
    obtain ⟨x, hx, rfl⟩ := List.mem_map.1 hu
    obtain ⟨y, hy, rfl⟩ := List.mem_map.1 hv
    exact ⟨x, hx, y, hy, fun heq => hne (congrArg f heq)⟩
  · rintro ⟨x, hx, y, hy, hne⟩
    exact ⟨f x, List.mem_map_of_mem hx, f y, List.mem_map_of_mem hy, fun heq =>
      hne (h x hx y hy heq)⟩

end

theorem two_le_length_of_ne {l : List α} {x y : α} (hx : x ∈ l) (hy : y ∈ l) (hne : x ≠ y) :
    2 ≤ l.length := by
  match l with
  | [] => cases hx
  | [a] => exact absurd ((List.mem_singleton.1 hx).trans (List.mem_singleton.1 hy).symm) hne
  | a :: b :: rest =>
    rw [List.length_cons, List.length_cons]
    omega

/-! ## Bundles that hold a module -/

/-- A bundle with the file that it ships for a module, if it needs the module and ships it. -/
def Bundle.held? (c : Closures) (p : Path) (id : String) (b : Bundle) : Option (Bundle × Path) :=
  if p ∈ closureOf c b then (b.physical.bind (Table.find? id)).map fun file => (b, file) else none

theorem Bundle.held?_eq_some_iff {b : Bundle} {h : Bundle × Path} :
    b.held? c p id = some h ↔ p ∈ closureOf c b ∧ h.1 = b ∧
      ∃ shipped, b.physical = some shipped ∧ Table.find? id shipped = some h.2 := by
  rw [held?, Option.ite_none_right_eq_some, Option.map_eq_some_iff]
  refine and_congr_right fun _ => ?_
  constructor
  · rintro ⟨file, hfile, rfl⟩
    obtain ⟨shipped, hshipped, hfind⟩ := Option.bind_eq_some_iff.1 hfile
    exact ⟨rfl, shipped, hshipped, hfind⟩
  · rintro ⟨rfl, shipped, hshipped, hfind⟩
    exact ⟨h.2, Option.bind_eq_some_iff.2 ⟨shipped, hshipped, hfind⟩, rfl⟩

/-- The bundles that hold a module are those that need and ship it, each once. -/
theorem holders_eq (hclosures : ∀ b ∈ bundles, (closureOf c b).Nodup)
    (hids : ∀ b ∈ bundles, ∀ q ∈ closureOf c b, g.idOf q = g.idOf p → q = p) :
    holders g bundles c (g.idOf p) = bundles.filterMap (Bundle.held? c p (g.idOf p)) := by
  rw [holders, List.filterMap_eq_flatMap_toList]
  refine List.flatMap_congr fun b hb => ?_
  have hpaths : (closureOf c b).filter (fun q => g.idOf q == g.idOf p) =
      if p ∈ closureOf c b then [p] else [] := by
    have hsame : ∀ q ∈ closureOf c b, (g.idOf q == g.idOf p) = (q == p) := by
      intro q hq
      rw [Bool.eq_iff_iff, beq_iff_eq, beq_iff_eq]
      exact ⟨hids b hb q hq, fun h => congrArg g.idOf h⟩
    rw [List.filter_congr hsame, List.filter_beq]
    split
    · rename_i hp
      rw [List.count_eq_one_of_mem (hclosures b hb) hp, List.replicate_one]
    · rename_i hp
      rw [List.count_eq_zero_of_not_mem hp, List.replicate_zero]
  rw [Bundle.held?, hpaths]
  by_cases hp : p ∈ closureOf c b
  · rw [if_pos hp, if_pos hp]
    cases b.physical.bind (Table.find? (g.idOf p)) <;> rfl
  · rw [if_neg hp, if_neg hp]
    cases b.physical.bind (Table.find? (g.idOf p)) <;> rfl

/-- Bundles that hold a module are told by their names. -/
theorem names_held (bundles : List Bundle) (c : Closures) (p : Path) (id : String) :
    (bundles.filterMap (Bundle.held? c p id)).map (fun h => h.1.name) =
      (bundles.filter fun b => (b.held? c p id).isSome).map Bundle.name := by
  induction bundles with
  | nil => rfl
  | cons b rest ih =>
    cases hb : b.held? c p id with
    | none =>
      rw [List.filterMap_cons_none hb, List.filter_cons_of_neg (by simp [hb]), ih]
    | some h =>
      obtain ⟨-, hsame, -⟩ := Bundle.held?_eq_some_iff.1 hb
      rw [List.filterMap_cons_some hb, List.filter_cons_of_pos (by simp [hb]), List.map_cons,
        List.map_cons, hsame, ih]

theorem contents_eq {held : List (Bundle × Path)} (h : (held.map fun h => h.1.name).Nodup) :
    (contents t held).map Prod.snd = held.map fun h => (t.read h.2).toOption := by
  have hkeys : (Table.keys (held.map fun h => (h.1.name, (t.read h.2).toOption))).Nodup := by
    rwa [Table.keys, List.map_map]
  rw [contents, Table.ofEntries_of_nodup hkeys, List.map_map]
  rfl

/-! ## Different contents -/

/-- A bundle ships a content for a module. -/
def Bundle.ShipsContent (t : FileTree) (id : String) (content : Bytes) (b : Bundle) : Prop :=
  ∃ shipped file, b.physical = some shipped ∧ Table.find? id shipped = some file ∧
    t.read file = .ok content

/-- Two bundles that need a module ship different contents for it. -/
def ShippedDiffering (t : FileTree) (bundles : List Bundle) (c : Closures) (p : Path)
    (id : String) : Prop :=
  ∃ b₁ ∈ bundles, ∃ b₂ ∈ bundles, b₁ ≠ b₂ ∧ p ∈ closureOf c b₁ ∧ p ∈ closureOf c b₂ ∧
    ∃ content₁ content₂, b₁.ShipsContent t id content₁ ∧ b₂.ShipsContent t id content₂ ∧
      content₁ ≠ content₂

/-- Every file that the bundles ship can be read. -/
def AllReadable (t : FileTree) (bundles : List Bundle) : Prop :=
  ∀ b ∈ bundles, ∀ shipped, b.physical = some shipped → ∀ id file,
    Table.find? id shipped = some file → ∃ content, t.read file = .ok content

/-- Bundles that hold a module, none of them twice, hold it with different contents exactly if two
bundles ship it so. -/
theorem differ_held_iff (hread : AllReadable t bundles) :
    differ ((bundles.filterMap (Bundle.held? c p id)).map fun h => (t.read h.2).toOption) = true ↔
      ShippedDiffering t bundles c p id := by
  rw [differ_iff]
  constructor
  · rintro ⟨x, hx, y, hy, hne⟩
    obtain ⟨h₁, hh₁, rfl⟩ := List.mem_map.1 hx
    obtain ⟨h₂, hh₂, rfl⟩ := List.mem_map.1 hy
    obtain ⟨b₁, hb₁, hheld₁⟩ := List.mem_filterMap.1 hh₁
    obtain ⟨b₂, hb₂, hheld₂⟩ := List.mem_filterMap.1 hh₂
    obtain ⟨hp₁, hsame₁, shipped₁, hshipped₁, hfind₁⟩ := Bundle.held?_eq_some_iff.1 hheld₁
    obtain ⟨hp₂, hsame₂, shipped₂, hshipped₂, hfind₂⟩ := Bundle.held?_eq_some_iff.1 hheld₂
    obtain ⟨content₁, hread₁⟩ := hread b₁ hb₁ shipped₁ hshipped₁ id h₁.2 hfind₁
    obtain ⟨content₂, hread₂⟩ := hread b₂ hb₂ shipped₂ hshipped₂ id h₂.2 hfind₂
    refine ⟨b₁, hb₁, b₂, hb₂, ?_, hp₁, hp₂, content₁, content₂,
      ⟨shipped₁, h₁.2, hshipped₁, hfind₁, hread₁⟩,
      ⟨shipped₂, h₂.2, hshipped₂, hfind₂, hread₂⟩, ?_⟩
    · rintro rfl
      rw [Option.some.inj (hheld₁.symm.trans hheld₂)] at hne
      exact hne rfl
    · rintro rfl
      rw [hread₁, hread₂] at hne
      exact hne rfl
  · rintro ⟨b₁, hb₁, b₂, hb₂, -, hp₁, hp₂, content₁, content₂,
      ⟨shipped₁, file₁, hshipped₁, hfind₁, hread₁⟩, ⟨shipped₂, file₂, hshipped₂, hfind₂, hread₂⟩,
      hne⟩
    have hheld₁ : b₁.held? c p id = some (b₁, file₁) :=
      Bundle.held?_eq_some_iff.2 ⟨hp₁, rfl, shipped₁, hshipped₁, hfind₁⟩
    have hheld₂ : b₂.held? c p id = some (b₂, file₂) :=
      Bundle.held?_eq_some_iff.2 ⟨hp₂, rfl, shipped₂, hshipped₂, hfind₂⟩
    refine ⟨_, List.mem_map.2 ⟨_, List.mem_filterMap.2 ⟨b₁, hb₁, hheld₁⟩, rfl⟩, _,
      List.mem_map.2 ⟨_, List.mem_filterMap.2 ⟨b₂, hb₂, hheld₂⟩, rfl⟩, ?_⟩
    rw [hread₁, hread₂]
    exact fun heq => hne (Option.some.inj heq)

/-- What bundles hold for a module is found to differ. -/
def IsFound (t : FileTree) (held : List (Bundle × Path)) : Prop :=
  2 ≤ held.length ∧ differ ((contents t held).map Prod.snd) = true

instance (t : FileTree) (held : List (Bundle × Path)) : Decidable (IsFound t held) :=
  inferInstanceAs (Decidable (2 ≤ held.length ∧ _))

/-- A module is found exactly where two bundles that need it ship different contents for it. -/
theorem isFound_iff (hnames : (bundles.map Bundle.name).Nodup)
    (hclosures : ∀ b ∈ bundles, (closureOf c b).Nodup)
    (hids : ∀ b ∈ bundles, ∀ q ∈ closureOf c b, g.idOf q = g.idOf p → q = p)
    (hread : AllReadable t bundles) :
    IsFound t (holders g bundles c (g.idOf p)) ↔
      ShippedDiffering t bundles c p (g.idOf p) := by
  have hheld : ((bundles.filterMap (Bundle.held? c p (g.idOf p))).map fun h => h.1.name).Nodup := by
    rw [names_held]
    exact hnames.sublist (List.filter_sublist.map Bundle.name)
  rw [IsFound, holders_eq hclosures hids, contents_eq hheld, ← differ_held_iff hread,
    and_iff_right_iff_imp]
  intro hdiffer
  obtain ⟨x, hx, y, hy, hne⟩ := differ_iff.1 hdiffer
  have hlength := two_le_length_of_ne hx hy hne
  rwa [List.length_map] at hlength

/-! ## What is found -/

theorem crossBundleDuplicates_eq :
    crossBundleDuplicates t g bundles c =
      (g.modules.filter fun e => decide (IsFound t (holders g bundles c e.2.id))).map fun e =>
        .crossBundleDuplicate e.2.id ((holders g bundles c e.2.id).map fun h => h.1.name) := by
  have hmap : ∀ (keep : Path × Module → Bool) (f : Path × Module → Finding),
      (g.modules.filter keep).map f =
        g.modules.filterMap fun e => if keep e then some (f e) else none := by
    intro keep f
    rw [← List.filterMap_eq_map, List.filterMap_filter]
    rfl
  rw [hmap, crossBundleDuplicates]
  refine List.filterMap_congr fun e _ => ?_
  simp only [decide_eq_true_eq]
  rfl

/-- The modules found to be shipped with different contents, in the order of the graph, each with
the bundles that hold it. -/
theorem filterMap_differing :
    (findings t g bundles c packages).filterMap Finding.differing? =
      (g.modules.filter fun e => decide (IsFound t (holders g bundles c e.2.id))).map fun e =>
        (e.2.id, (holders g bundles c e.2.id).map fun h => h.1.name) := by
  have hapart : ∀ f : Finding, f.isOfBundles = false → f.differing? = none := by
    intro f hf
    cases f with
    | crossBundleDuplicate => cases hf
    | _ => rfl
  have hmismatches : bundles.flatMap
      (fun b => (bundleMismatches g c b).filterMap Finding.differing?) = [] := by
    refine List.flatMap_eq_nil_iff.2 fun b _ => List.filterMap_eq_nil_iff.2 fun f hf => ?_
    have hbundle := bundle?_of_mem_bundleMismatches hf
    cases f with
    | crossBundleDuplicate => cases hbundle
    | _ => rfl
  rw [filterMap_findings hapart, hmismatches, List.nil_append, crossBundleDuplicates_eq,
    List.filterMap_map]
  exact List.filterMap_eq_map_iff_forall_eq_some.2 fun _ _ => rfl

/-! ## Digests -/

/-- What is found if digests of contents are compared and not the contents. -/
def duplicatesByDigest {δ : Type} [DecidableEq δ] (digest : Bytes → δ) (t : FileTree)
    (g : ModuleGraph) (bundles : List Bundle) (c : Closures) : List Finding :=
  g.modules.filterMap fun e =>
    let held := holders g bundles c e.2.id
    if 2 ≤ held.length ∧ differ ((contents t held).map fun content => content.2.map digest) then
      some (.crossBundleDuplicate e.2.id (held.map fun h => h.1.name))
    else none

/-- A holder of a module ships what it holds. -/
theorem physical_of_mem_holders {h : Bundle × Path} (hh : h ∈ holders g bundles c id) :
    h.1 ∈ bundles ∧ ∃ shipped, h.1.physical = some shipped ∧
      Table.find? id shipped = some h.2 := by
  obtain ⟨b, hb, hh⟩ := List.mem_flatMap.1 hh
  split at hh
  · cases hh
  · rename_i file hfile
    obtain ⟨shipped, hshipped, hfind⟩ := Option.bind_eq_some_iff.1 hfile
    obtain ⟨q, -, rfl⟩ := List.mem_map.1 hh
    exact ⟨hb, shipped, hshipped, hfind⟩

/-- Comparing digests finds what comparing contents does, if contents that are shipped for one
module have one digest only where they are the same. -/
theorem duplicatesByDigest_eq {δ : Type} [DecidableEq δ] {digest : Bytes → δ}
    (h : ∀ b₁ ∈ bundles, ∀ b₂ ∈ bundles, ∀ id content₁ content₂,
      b₁.ShipsContent t id content₁ → b₂.ShipsContent t id content₂ →
        digest content₁ = digest content₂ → content₁ = content₂) :
    duplicatesByDigest digest t g bundles c = crossBundleDuplicates t g bundles c := by
  refine List.filterMap_congr fun e _ => ?_
  generalize hheld : holders g bundles c e.2.id = held
  have hships : ∀ content, some content ∈ (contents t held).map Prod.snd →
      ∃ b ∈ bundles, b.ShipsContent t e.2.id content := by
    intro content hcontent
    obtain ⟨entry, hentry, hsnd⟩ := List.mem_map.1 hcontent
    obtain ⟨h, hh, rfl⟩ := List.mem_map.1 (Table.mem_of_mem_ofEntries hentry)
    obtain ⟨hb, shipped, hshipped, hfind⟩ := physical_of_mem_holders (hheld ▸ hh)
    refine ⟨h.1, hb, shipped, h.2, hshipped, hfind, ?_⟩
    cases hread : t.read h.2 with
    | error fault =>
      rw [hread] at hsnd
      cases hsnd
    | ok content' =>
      rw [hread] at hsnd
      exact congrArg Except.ok (Option.some.inj hsnd)
  have hdiffer : differ ((contents t held).map fun content => content.2.map digest) =
      differ ((contents t held).map Prod.snd) := by
    have hmap : ((contents t held).map fun content => content.2.map digest) =
        ((contents t held).map Prod.snd).map (Option.map digest) := by
      rw [List.map_map]
      rfl
    rw [hmap]
    refine differ_map fun x hx y hy heq => ?_
    cases x with
    | none => exact (Option.map_eq_none_iff.1 heq.symm).symm
    | some content₁ =>
      obtain ⟨content₂, rfl, hdigest⟩ := Option.map_eq_some_iff.1 heq.symm
      obtain ⟨b₁, hb₁, hships₁⟩ := hships content₁ hx
      obtain ⟨b₂, hb₂, hships₂⟩ := hships content₂ hy
      rw [h b₁ hb₁ b₂ hb₂ _ _ _ hships₁ hships₂ hdigest.symm]
  simp only [hdiffer]

end BundleReach
