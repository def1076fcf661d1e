import BundleReach.Proofs.Package.Discovery

/-!
# Tables in manifests

An object that is read holds each name once: a name that is written again replaces what was written
before.  So the tables of a package that is located hold each name once, too.

* `Json.Tidy` — every object in a value holds each name once.
* `Json.tidy_of_read` — what is read is tidy.
* `nodup_appModules_of_located` — the names of an addon for the application's modules.
-/

namespace BundleReach

namespace Json

/-- Every object in a value holds each name once. -/
inductive Tidy : Json → Prop where
  | plain {j} : (∀ items, j ≠ .list items) → (∀ members, j ≠ .object members) → Tidy j
  | list {items} : (∀ j ∈ items, Tidy j) → Tidy (.list items)
  | object {members} : (Table.keys members).Nodup → (∀ e ∈ members, Tidy e.2) →
      Tidy (.object members)

/-- Members read so far: each name once, the values tidy. -/
def TidyMembers (members : List (String × Json)) : Prop :=
  (Table.keys members).Nodup ∧ ∀ e ∈ members, e.2.Tidy

theorem TidyMembers.nil : TidyMembers [] := ⟨List.nodup_nil, nofun⟩

theorem TidyMembers.put {members : List (String × Json)} {name : String} {j : Json}
    (h : TidyMembers members) (hj : j.Tidy) : TidyMembers (Table.put name j members) := by
  refine ⟨Table.nodup_keys_put name j h.1, fun e he => ?_⟩
  rcases Table.mem_put he with he | rfl
  · exact h.2 e he
  · exact hj

theorem Tidy.members {members : List (String × Json)} (h : (Json.object members).Tidy) :
    TidyMembers members := by
  cases h with
  | plain _ hobject => exact absurd rfl (hobject members)
  | object hkeys hvalues => exact ⟨hkeys, hvalues⟩

/-! ## Reading -/

theorem tidy_int (i : Int) : (int i).Tidy := .plain nofun nofun

theorem tidy_float (d : Numeral.Double) : (float d).Tidy := .plain nofun nofun

theorem tidy_text (s : String) : (text s).Tidy := .plain nofun nofun

theorem tidy_of_readUnsigned {start cs rest : List Char} {negative : Bool} {j : Json}
    (h : readUnsigned start negative cs = .ok (j, rest)) : j.Tidy := by
  unfold readUnsigned at h
  -- it makes no difference here what the digits are
  extract_lets whole afterWhole fraction afterFraction exponent at h
  clear_value exponent afterFraction fraction afterWhole whole
  dsimp +zetaDelta only at h
  split at h
  · cases h
  split at h
  · split at h
    · cases h
    · cases h
      exact tidy_int _
  · cases h
    exact tidy_float _

theorem tidy_of_readNumber {cs rest : List Char} {j : Json}
    (h : readNumber cs = .ok (j, rest)) : j.Tidy := by
  unfold readNumber at h
  split at h
  · exact tidy_of_readUnsigned h
  · exact tidy_of_readUnsigned h

theorem tidy_of_word? {cs rest : List Char} {j : Json} (h : word? cs = some (j, rest)) :
    j.Tidy := by
  obtain ⟨w, hw, h⟩ := Option.map_eq_some_iff.1 h
  have hmem := List.mem_of_find?_eq_some hw
  cases h
  unfold words at hmem
  simp only [List.mem_cons, List.not_mem_nil, or_false] at hmem
  rcases hmem with rfl | rfl | rfl | rfl | rfl | rfl <;> exact .plain nofun nofun

/-- What is read with so much fuel is tidy: a value, the items of a list, and the members of an
object after tidy ones. -/
structure ReadsTidy (fuel : Nat) : Prop where
  value : ∀ cs j rest, readValue fuel cs = .ok (j, rest) → j.Tidy
  items : ∀ cs js rest, readItems fuel cs = .ok (js, rest) → ∀ j ∈ js, j.Tidy
  members : ∀ before cs members rest, TidyMembers before →
    readMembers fuel before cs = .ok (members, rest) → TidyMembers members

theorem ReadsTidy.succ_value {fuel : Nat} (h : ReadsTidy fuel) {cs rest : List Char} {j : Json}
    (hread : readValue (fuel + 1) cs = .ok (j, rest)) : j.Tidy := by
  unfold readValue at hread
  split at hread
  · obtain ⟨⟨s, more⟩, -, hread⟩ := bind_eq_ok_iff.1 hread
    cases hread
    exact tidy_text s
  · split at hread
    · cases hread
      exact .object List.nodup_nil nofun
    · obtain ⟨⟨members, after⟩, hmembers, hread⟩ := bind_eq_ok_iff.1 hread
      cases hread
      obtain ⟨hkeys, hvalues⟩ := h.members _ _ _ _ .nil hmembers
      exact .object hkeys hvalues
  · split at hread
    · cases hread
      exact .list nofun
    · obtain ⟨⟨items, after⟩, hitems, hread⟩ := bind_eq_ok_iff.1 hread
      cases hread
      exact .list (h.items _ _ _ hitems)
  · split at hread
    · rename_i found hword
      cases hread
      exact tidy_of_word? hword
    · exact tidy_of_readNumber hread

theorem ReadsTidy.succ_items {fuel : Nat} (h : ReadsTidy fuel) {cs rest : List Char}
    {js : List Json} (hread : readItems (fuel + 1) cs = .ok (js, rest)) : ∀ j ∈ js, j.Tidy := by
  unfold readItems at hread
  obtain ⟨⟨item, more⟩, hitem, hread⟩ := bind_eq_ok_iff.1 hread
  have hfirst := h.value _ _ _ hitem
  dsimp only at hread
  split at hread
  · cases hread
    intro j hj
    rw [List.mem_singleton.1 hj]
    exact hfirst
  · obtain ⟨⟨items, after⟩, hitems, hread⟩ := bind_eq_ok_iff.1 hread
    cases hread
    exact List.forall_mem_cons.2 ⟨hfirst, h.items _ _ _ hitems⟩
  · cases hread

theorem ReadsTidy.succ_members {fuel : Nat} (h : ReadsTidy fuel) {cs rest : List Char}
    {before members : List (String × Json)} (hbefore : TidyMembers before)
    (hread : readMembers (fuel + 1) before cs = .ok (members, rest)) : TidyMembers members := by
  unfold readMembers at hread
  split at hread
  · obtain ⟨⟨name, more⟩, -, hread⟩ := bind_eq_ok_iff.1 hread
    dsimp only at hread
    split at hread
    · obtain ⟨⟨value, more⟩, hvalue, hread⟩ := bind_eq_ok_iff.1 hread
      have hput : TidyMembers (Table.put name value before) := hbefore.put (h.value _ _ _ hvalue)
      dsimp only at hread
      split at hread
      · cases hread
        exact hput
      · exact h.members _ _ _ _ hput hread
      · cases hread
    · cases hread
  · cases hread

theorem readsTidy (fuel : Nat) : ReadsTidy fuel := by
  induction fuel with
  | zero => exact ⟨fun _ _ _ h => (by cases h), fun _ _ _ h => (by cases h),
      fun _ _ _ _ _ h => (by cases h)⟩
  | succ fuel ih => exact ⟨fun _ _ _ => ih.succ_value, fun _ _ _ => ih.succ_items,
      fun _ _ _ _ => ih.succ_members⟩

theorem tidy_of_read {cs : List Char} {j : Json} (h : read cs = .ok j) : j.Tidy := by
  unfold read at h
  split at h
  · rename_i document hdocument
    cases h
    unfold readDocument at hdocument
    dsimp only at hdocument
    split at hdocument
    · cases hdocument
    obtain ⟨⟨value, rest⟩, hvalue, hdocument⟩ := bind_eq_ok_iff.1 hdocument
    dsimp only at hdocument
    split at hdocument
    · cases hdocument
      exact (readsTidy _).value _ _ _ hvalue
    · cases hdocument
  · cases h
  · cases h

end Json

/-! ## Manifests -/

namespace Manifest

open Json (TidyMembers)

variable {m : Manifest}

theorem tidyMembers_of_read {bytes : Text.Bytes} (h : read bytes = .ok m) : TidyMembers m := by
  unfold read at h
  split at h
  · cases h
  · split at h
    · cases h
    · rename_i members hread
      cases h
      exact (Json.tidy_of_read hread).members
    · cases h

theorem tidy_get (h : TidyMembers m) (name : String) : (m.get name).Tidy := by
  unfold get
  cases hfind : Table.find? name m with
  | none => exact .plain nofun nofun
  | some j => exact h.2 _ (Table.mem_of_find? hfind)

theorem tidyMembers_addonMeta (h : TidyMembers m) : TidyMembers (m.addonMeta?.getD []) := by
  unfold addonMeta?
  split
  · rename_i members hmembers
    have hmember := tidy_get h addonMember
    rw [hmembers] at hmember
    exact hmember.members
  · split
    · split <;> exact .nil
    · exact .nil

/-- A table read off an object holds each name once. -/
theorem nodup_keys_textEntries {j : Json} (h : j.Tidy) : (Table.keys (textEntries j)).Nodup := by
  unfold textEntries
  split
  · rename_i members
    refine h.members.1.sublist ?_
    clear h
    induction members with
    | nil => exact List.nil_sublist _
    | cons e rest ih =>
      cases htext : e.2.text? with
      | none =>
        rw [List.filterMap_cons_none (by rw [htext]; rfl)]
        exact ih.cons e.1
      | some text =>
        rw [List.filterMap_cons_some (by rw [htext]; rfl)]
        exact ih.cons_cons e.1
  · exact List.nodup_nil

end Manifest

/-! ## Packages -/

variable {t : FileTree} {root : Path} {packages : List Package}

theorem nodup_appModules_of_package {m : Manifest} {kind : PackageKind} {pkg : Package}
    (h : manifestAt? t root = some m) (hpkg : m.package root kind = .ok pkg) :
    (Table.keys pkg.appModules).Nodup := by
  have hread : ∃ bytes, Manifest.read bytes = .ok m := by
    unfold manifestAt? at h
    split at h
    · cases h
    · rename_i bytes hbytes
      refine ⟨bytes, ?_⟩
      cases hread : Manifest.read bytes with
      | error fault =>
        rw [hread] at h
        cases h
      | ok m' =>
        rw [hread] at h
        rw [Option.some.inj h]
  obtain ⟨bytes, hread⟩ := hread
  have htidy := Manifest.tidyMembers_addonMeta (Manifest.tidyMembers_of_read hread)
  obtain ⟨dependencies, -, hpkg⟩ := bind_eq_ok_iff.1 hpkg
  rw [← pure_eq_ok_iff.1 hpkg]
  exact Manifest.nodup_keys_textEntries (Manifest.tidy_get htidy "app-js")

theorem Visits.nodup_appModules {owner : Path} {names : List String} {met met' : List Path}
    {found : List Package} (h : Visits t root owner names met found met') :
    ∀ pkg ∈ found, (Table.keys pkg.appModules).Nodup := by
  induction h with
  | done => exact nofun
  | pass _ _ ih => exact ih
  | unreadable _ _ _ _ ih => exact ih
  | enter _ _ read described _ _ ih₁ ih₂ =>
    intro q hq
    rcases List.mem_append.1 hq with hq | hq
    · rcases List.mem_cons.1 hq with rfl | hq
      · exact nodup_appModules_of_package read described
      · exact ih₁ q hq
    · exact ih₂ q hq

/-- No package of an output names one module of the application twice. -/
theorem nodup_appModules_of_located (h : locatePackages t root = .ok packages) :
    ∀ pkg ∈ packages, (Table.keys pkg.appModules).Nodup := by
  obtain ⟨app, found, happ, hfound, rfl⟩ := locatePackages_eq_ok_iff.1 h
  obtain ⟨m, hm, -, hpkg⟩ := exists_manifest_of_loadApp happ
  obtain ⟨met, hvisits⟩ := locateAddons_eq_ok_iff.1 hfound
  exact List.forall_mem_cons.2 ⟨nodup_appModules_of_package hm hpkg, hvisits.nodup_appModules⟩

end BundleReach
