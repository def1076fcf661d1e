import BundleReach.Proofs.Package.Tables
import BundleReach.Proofs.Resolution.AppNames

/-!
# Conflicts between addons

Two addons may supply the same module of the application; the one located last wins, so it matters
in which order they come.  Such a conflict is reported by the names in the addons' tables as they
are written, while a specifier stands for several of them: its path as it is, and with each
ending.  So two addons that write the module's name differently are in conflict and not reported.

* `Resolver.find?_appModuleConflicts_iff` — the names that are reported, with which addons.
* `Resolver.Reported`, `Resolver.SharesName` — a conflict that is reported, and one that is visible
  in the tables.
* `Resolver.resolve_of_last` — the addon located last that supplies a module decides what it is.
* `Resolver.conflict_reported_iff` — a conflict is reported if and only if the addons write one
  name.
-/

namespace BundleReach

namespace Resolver

variable {r : Resolver} {a b : Package} {name sub : String}

/-! ## What is reported -/

/-- The names of the addons that have a name in their tables, in located order. -/
def providersAmong (name : String) (addons : List Package) : List String :=
  (addons.filter fun addon => Table.has name addon.appModules).map Package.name

/-- The table of all names with the addons that have them, after what is in a table already. -/
def providersAfter (addons : List Package) (t : Table String (List String)) :
    Table String (List String) :=
  addons.foldl (fun t addon => (Table.keys addon.appModules).foldl
    (fun t name => Table.change name [] (· ++ [addon.name]) t) t) t

theorem appModuleConflicts_eq (r : Resolver) :
    r.appModuleConflicts = (providersAfter r.addons []).filter fun e => 1 < e.2.length := rfl

theorem nodup_keys_providersAfter (addons : List Package) {t : Table String (List String)}
    (h : (Table.keys t).Nodup) : (Table.keys (providersAfter addons t)).Nodup := by
  induction addons generalizing t with
  | nil => exact h
  | cons addon rest ih => exact ih (Table.nodup_keys_foldl_change _ _ _ h)

theorem providersAmong_cons (addon : Package) (rest : List Package) :
    providersAmong name (addon :: rest) =
      (if Table.has name addon.appModules then [addon.name] else []) ++
        providersAmong name rest := by
  unfold providersAmong
  rw [List.filter_cons]
  split <;> rfl

/-- Each addon that has a name joins the addons that have it, once. -/
theorem find?_providersAfter {addons : List Package}
    (h : ∀ addon ∈ addons, (Table.keys addon.appModules).Nodup) (t : Table String (List String)) :
    (Table.find? name (providersAfter addons t)).getD [] =
      (Table.find? name t).getD [] ++ providersAmong name addons := by
  induction addons generalizing t with
  | nil => exact (List.append_nil _).symm
  | cons addon rest ih =>
    rw [providersAfter, List.foldl_cons, ← providersAfter,
      ih (fun other hother => h other (List.mem_cons_of_mem addon hother)),
      Table.find?_foldl_change (h addon List.mem_cons_self), providersAmong_cons]
    by_cases hhas : name ∈ Table.keys addon.appModules
    · rw [if_pos hhas, if_pos (Table.has_iff_mem_keys.2 hhas), ← List.append_assoc]
      rfl
    · have hnot : ¬ Table.has name addon.appModules = true := fun hname =>
        hhas (Table.has_iff_mem_keys.1 hname)
      rw [if_neg hhas, if_neg hnot, List.nil_append]

/-- A name is reported with the addons that have it, if there are at least two of them. -/
theorem find?_appModuleConflicts_iff
    (h : ∀ addon ∈ r.addons, (Table.keys addon.appModules).Nodup) {names : List String} :
    Table.find? name r.appModuleConflicts = some names ↔
      names = providersAmong name r.addons ∧ 1 < names.length := by
  have hkeys := nodup_keys_providersAfter r.addons (t := []) List.nodup_nil
  have hall : (Table.find? name (providersAfter r.addons [])).getD [] =
      providersAmong name r.addons := find?_providersAfter h []
  have hkept : (Table.keys r.appModuleConflicts).Nodup := by
    rw [appModuleConflicts_eq]
    exact hkeys.sublist (List.filter_sublist.map Prod.fst)
  constructor
  · intro hfind
    have hmem := Table.mem_of_find? hfind
    rw [appModuleConflicts_eq, List.mem_filter] at hmem
    rw [Table.find?_of_mem hkeys hmem.1] at hall
    exact ⟨hall, of_decide_eq_true hmem.2⟩
  · rintro ⟨rfl, hlong⟩
    refine Table.find?_of_mem hkept ?_
    rw [appModuleConflicts_eq, List.mem_filter]
    refine ⟨Table.mem_of_find? ?_, decide_eq_true hlong⟩
    cases hfind : Table.find? name (providersAfter r.addons []) with
    | none =>
      rw [hfind] at hall
      rw [← hall] at hlong
      exact absurd hlong (Nat.not_lt_zero 1)
    | some names =>
      rw [hfind] at hall
      rw [← hall]
      rfl

/-- A conflict of two addons over a module is reported: some name that stands for the module, with
both addons. -/
def Reported (r : Resolver) (sub : String) (a b : Package) : Prop :=
  ∃ name names, r.StandsFor sub name ∧ Table.find? name r.appModuleConflicts = some names ∧
    [a.name, b.name].Sublist names

/-- Two addons have one and the same name for a module. -/
def SharesName (r : Resolver) (sub : String) (a b : Package) : Prop :=
  ∃ name, r.StandsFor sub name ∧ Table.has name a.appModules = true ∧
    Table.has name b.appModules = true

/-- A conflict is reported if and only if two addons of these names have one name for the module. -/
theorem reported_iff (h : ∀ addon ∈ r.addons, (Table.keys addon.appModules).Nodup) :
    r.Reported sub a b ↔ ∃ a' b', [a', b'].Sublist r.addons ∧ a'.name = a.name ∧
      b'.name = b.name ∧ r.SharesName sub a' b' := by
  constructor
  · rintro ⟨name, names, hstands, hfind, hnames⟩
    obtain ⟨rfl, -⟩ := (find?_appModuleConflicts_iff h).1 hfind
    obtain ⟨found, hfound, hpair⟩ := List.sublist_map_iff.1 hnames
    obtain ⟨a', rest, rfl, ha, hrest⟩ := List.map_eq_cons_iff.1 hpair.symm
    obtain ⟨b', nothing, rfl, hb, hnothing⟩ := List.map_eq_cons_iff.1 hrest
    obtain rfl := List.map_eq_nil_iff.1 hnothing
    have hhas : ∀ c ∈ [a', b'], Table.has name c.appModules = true := fun c hc =>
      (List.mem_filter.1 (hfound.subset hc)).2
    exact ⟨a', b', hfound.trans List.filter_sublist, ha, hb, name, hstands,
      hhas a' List.mem_cons_self, hhas b' (List.mem_cons_of_mem _ List.mem_cons_self)⟩
  · rintro ⟨a', b', hpair, ha, hb, name, hstands, hhasa, hhasb⟩
    have hfound : [a', b'].Sublist
        (r.addons.filter fun addon => Table.has name addon.appModules) := by
      have hkept : [a', b'].filter (fun addon => Table.has name addon.appModules) = [a', b'] :=
        List.filter_eq_self.2 fun c hc => by
          rcases List.mem_cons.1 hc with rfl | hc
          · exact hhasa
          · rw [List.mem_singleton.1 hc]
            exact hhasb
      rw [← hkept]
      exact hpair.filter _
    have hnames : [a.name, b.name].Sublist (providersAmong name r.addons) := by
      rw [← ha, ← hb]
      exact hfound.map Package.name
    exact ⟨name, _, hstands, (find?_appModuleConflicts_iff h).2 ⟨rfl, hnames.length_le⟩, hnames⟩

/-- Where no other addon has either name, the conflict is reported if and only if these two have one
name for the module. -/
theorem reported_iff_sharesName (h : ∀ addon ∈ r.addons, (Table.keys addon.appModules).Nodup)
    (hpair : [a, b].Sublist r.addons)
    (hnames : ∀ c ∈ r.addons, (c.name = a.name → c = a) ∧ (c.name = b.name → c = b)) :
    r.Reported sub a b ↔ r.SharesName sub a b := by
  rw [reported_iff h]
  constructor
  · rintro ⟨a', b', hpair', ha, hb, hshares⟩
    have hmema : a' ∈ r.addons := hpair'.subset List.mem_cons_self
    have hmemb : b' ∈ r.addons := hpair'.subset (List.mem_cons_of_mem _ List.mem_cons_self)
    rwa [(hnames a' hmema).1 ha, (hnames b' hmemb).2 hb] at hshares
  · exact fun hshares => ⟨a, b, hpair, rfl, rfl, hshares⟩

/-! ## Addons that are swapped -/

section Swapped

variable {importer p q : Path} {specifier : String} {before between after : List Package}

/-- The resolver of the same packages with other addons, or with the addons in another order. -/
def withAddons (r : Resolver) (addons : List Package) : Resolver := { r with addons := addons }

theorem probeEndings_withAddons (r : Resolver) (addons : List Package) (p : Path)
    (endings : List String) :
    (r.withAddons addons).probeEndings p endings = r.probeEndings p endings := by
  induction endings with
  | nil => rfl
  | cons ending rest ih =>
    rw [probeEndings, probeEndings, ih]
    rfl

/-- What a path means does not depend on the addons. -/
theorem probe_withAddons (r : Resolver) (addons : List Package) (p : Path) :
    (r.withAddons addons).probe p = r.probe p := by
  simp only [probe, probeEndings_withAddons]
  rfl

theorem supplies_withAddons_iff {addons : List Package} :
    (r.withAddons addons).Supplies sub a p ↔ r.Supplies sub a p := by
  unfold Supplies
  simp only [probe_withAddons]
  rfl

theorem suppliesNothing_withAddons_iff {addons : List Package} :
    (r.withAddons addons).SuppliesNothing sub a ↔ r.SuppliesNothing sub a := by
  unfold SuppliesNothing
  simp only [probe_withAddons]
  rfl

theorem InAppNamespace.withAddons (h : r.InAppNamespace specifier sub) (addons : List Package) :
    (r.withAddons addons).InAppNamespace specifier sub :=
  ⟨h.notSupplied, h.notRelative, h.notAbsolute, h.split, h.inside, h.notRenamed,
    h.packageNotRenamed⟩

/-- The last of the addons that supply a module of the application decides what it is. -/
theorem resolve_of_last (hname : r.InAppNamespace specifier sub) (hexports : r.app.exports = none)
    (hkinds : ∀ addon ∈ r.addons, addon.isApp = false) (himporter : r.MeansApp importer)
    (habsent : r.probe (r.app.root.child sub) = .ok none) (hsplit : r.addons = before ++ b :: after)
    (hlater : ∀ other ∈ after, r.SuppliesNothing sub other) (hb : r.Supplies sub b q) :
    r.resolve importer specifier = .ok (.found q .appModule) := by
  rw [hname.resolve_eq hexports hkinds himporter, search_appNameCandidates_iff]
  exact .supplied habsent hsplit hlater hb

end Swapped

/-- Of two addons that supply a module of the application the later one has it, so swapping them
swaps what the module's name leads to.  The conflict is reported with both names if and only if two
addons of these names write one and the same name for the module: where no other addon has either
name, if and only if these two do. -/
theorem conflict_reported_iff (sub : String) {t : FileTree} {root : Path}
    {packages : List Package} {settings : Settings} {before between after : List Package}
    (hlocated : locatePackages t root = .ok packages)
    (hresolver : ofPackages t packages settings = .ok r)
    (hsplit : r.addons = before ++ a :: (between ++ b :: after)) :
    (r.Reported sub a b ↔ ∃ a' b', [a', b'].Sublist r.addons ∧ a'.name = a.name ∧
      b'.name = b.name ∧ r.SharesName sub a' b') ∧
    ((∀ c ∈ r.addons, (c.name = a.name → c = a) ∧ (c.name = b.name → c = b)) →
      (r.Reported sub a b ↔ r.SharesName sub a b)) ∧
    ∀ specifier importer p q, r.InAppNamespace specifier sub → r.app.exports = none →
      r.probe (r.app.root.child sub) = .ok none → r.Supplies sub a p → r.Supplies sub b q →
      (∀ other ∈ after, r.SuppliesNothing sub other) → r.MeansApp importer →
      (r.withAddons (before ++ b :: (between ++ a :: after))).MeansApp importer →
      r.resolve importer specifier = .ok (.found q .appModule) ∧
        (r.withAddons (before ++ b :: (between ++ a :: after))).resolve importer specifier =
          .ok (.found p .appModule) := by
  obtain ⟨-, hpackages, -, -⟩ := ofPackages_eq_ok_iff.1 hresolver
  obtain ⟨app, found, -, hfound, rfl⟩ := locatePackages_eq_ok_iff.1 hlocated
  obtain ⟨-, rfl⟩ := List.cons.inj hpackages
  have hkeys : ∀ addon ∈ r.addons, (Table.keys addon.appModules).Nodup := fun addon haddon =>
    nodup_appModules_of_located hlocated addon (List.mem_cons_of_mem _ haddon)
  have hkinds : ∀ addon ∈ r.addons, addon.isApp = false := by
    obtain ⟨met, hvisits⟩ := locateAddons_eq_ok_iff.1 hfound
    exact hvisits.isApp_eq_false
  have hpair : [a, b].Sublist r.addons := by
    have hb : [b].Sublist (between ++ b :: after) :=
      List.singleton_sublist.2 (List.mem_append_right _ List.mem_cons_self)
    rw [hsplit]
    exact (hb.cons_cons a).trans (List.sublist_append_right before _)
  refine ⟨reported_iff hkeys, reported_iff_sharesName hkeys hpair, ?_⟩
  intro specifier importer p q hname hexports habsent ha hb hlater himporter hswapped
  constructor
  · have hlast : r.addons = (before ++ a :: between) ++ b :: after :=
      hsplit.trans (List.append_assoc before (a :: between) (b :: after)).symm
    exact resolve_of_last hname hexports hkinds himporter habsent hlast hlater hb
  · have hothers : ∀ addon ∈ before ++ b :: (between ++ a :: after), addon.isApp = false := by
      intro addon haddon
      refine hkinds addon ?_
      rw [hsplit]
      simp only [List.mem_append, List.mem_cons] at haddon ⊢
      tauto
    refine resolve_of_last (hname.withAddons _) hexports hothers hswapped
      ((probe_withAddons _ _ _).trans habsent)
      (List.append_assoc before (b :: between) (a :: after)).symm ?_ ?_
    · exact fun other hother => suppliesNothing_withAddons_iff.2 (hlater other hother)
    · exact supplies_withAddons_iff.2 ha

set_option synthInstance.maxSize 256 in
/-- The two addons that supply `app/x`, one by the name `./x.js` and one by the name `./x`, are in
conflict, and nothing is reported. -/
theorem conflict_unreported_supplied :
    ∃ packages r a b, locatePackages suppliedOutput ⟨.root, ["app"]⟩ = .ok packages ∧
      ofPackages suppliedOutput packages (.initial 4) = .ok r ∧ r.addons = [a, b] ∧
      a.name ≠ b.name ∧
      r.resolve ⟨.root, ["app", "app.js"]⟩ "app/x" =
        .ok (.found ⟨.root, ["app", "node_modules", "b", "m.js"]⟩ .appModule) ∧
      (r.withAddons [b, a]).resolve ⟨.root, ["app", "app.js"]⟩ "app/x" =
        .ok (.found ⟨.root, ["app", "node_modules", "a", "m.js"]⟩ .appModule) ∧
      ¬ r.Reported "x" a b := by
  have hrun : ∃ packages, locatePackages suppliedOutput ⟨.root, ["app"]⟩ = .ok packages ∧
      ∃ r, ofPackages suppliedOutput packages (.initial 4) = .ok r ∧
        r.app.name = "app" ∧ r.app.exports = none ∧ r.app.renamedModules = [] ∧
        r.app.renamedPackages = [] ∧
        (r.owner? ⟨.root, ["app", "app.js"]⟩).map Package.isApp = some true ∧
        ((r.withAddons r.addons.reverse).owner? ⟨.root, ["app", "app.js"]⟩).map Package.isApp =
          some true ∧
        r.probe (r.app.root.child "x") = .ok none ∧
        r.addons.map (fun addon => (addon.name, addon.appModules, addon.root)) =
          [("a", [("./x.js", "./m.js")], ⟨.root, ["app", "node_modules", "a"]⟩),
            ("b", [("./x", "./m.js")], ⟨.root, ["app", "node_modules", "b"]⟩)] ∧
        r.probe (Path.child ⟨.root, ["app", "node_modules", "a"]⟩ "./m.js") =
          .ok (some ⟨.root, ["app", "node_modules", "a", "m.js"]⟩) ∧
        r.probe (Path.child ⟨.root, ["app", "node_modules", "b"]⟩ "./m.js") =
          .ok (some ⟨.root, ["app", "node_modules", "b", "m.js"]⟩) := by
    decide +kernel
  obtain ⟨packages, hlocated, r, hr, happ, hexports, hmodules, hrenamed, hown, hswapped, habsent,
    hboth, hfilea, hfileb⟩ := hrun
  obtain ⟨-, -, hsettings, -⟩ := ofPackages_eq_ok_iff.1 hr
  obtain ⟨a, rest, haddons, ha, hrest⟩ := List.map_eq_cons_iff.1 hboth
  obtain ⟨b, nothing, rfl, hb, hnothing⟩ := List.map_eq_cons_iff.1 hrest
  obtain rfl := List.map_eq_nil_iff.1 hnothing
  obtain ⟨hnamea, htablea, hroota⟩ : a.name = "a" ∧ a.appModules = [("./x.js", "./m.js")] ∧
      a.root = ⟨.root, ["app", "node_modules", "a"]⟩ := by
    simpa only [Prod.mk.injEq] using ha
  obtain ⟨hnameb, htableb, hrootb⟩ : b.name = "b" ∧ b.appModules = [("./x", "./m.js")] ∧
      b.root = ⟨.root, ["app", "node_modules", "b"]⟩ := by
    simpa only [Prod.mk.injEq] using hb
  have hne : a.name ≠ b.name := by
    rw [hnamea, hnameb]
    decide
  have hname : r.InAppNamespace "app/x" "x" := by
    refine .of_nothing_renamed ?_ (by decide) (by decide) ?_ (by decide) hmodules hrenamed
    · rw [hsettings]
      decide
    · rw [happ]
      decide +kernel
  have hstands : r.StandsFor "x" "./x.js" ∧ r.StandsFor "x" "./x" := by
    refine ⟨⟨".js", ?_, by decide⟩, ⟨"", List.mem_cons_self, by decide⟩⟩
    rw [hsettings]
    decide
  have hsuppliesa : r.Supplies "x" a ⟨.root, ["app", "node_modules", "a", "m.js"]⟩ := by
    rw [Supplies, htablea, hroota]
    exact comesAfter_cons_iff.2 (.inl ⟨hstands.1, hfilea⟩)
  have hsuppliesb : r.Supplies "x" b ⟨.root, ["app", "node_modules", "b", "m.js"]⟩ := by
    rw [Supplies, htableb, hrootb]
    exact comesAfter_cons_iff.2 (.inl ⟨hstands.2, hfileb⟩)
  rw [haddons] at hswapped
  have hsplit : r.addons = [] ++ a :: ([] ++ b :: []) := haddons
  obtain ⟨-, hreported, hswap⟩ := conflict_reported_iff "x" hlocated hr hsplit
  have hlater : ∀ other ∈ ([] : List Package), r.SuppliesNothing "x" other :=
    fun other hother => absurd hother List.not_mem_nil
  obtain ⟨hresolve, hresolve'⟩ := hswap _ _ _ _ hname hexports habsent hsuppliesa hsuppliesb
    hlater (.of_isApp hown) (.of_isApp hswapped)
  refine ⟨packages, r, a, b, hlocated, hr, haddons, hne, hresolve, hresolve', fun h => ?_⟩
  have hunique : ∀ c ∈ r.addons, (c.name = a.name → c = a) ∧ (c.name = b.name → c = b) := by
    rw [haddons]
    intro c hc
    rcases List.mem_cons.1 hc with rfl | hc
    · exact ⟨fun _ => rfl, fun h => absurd h hne⟩
    · rw [List.mem_singleton.1 hc]
      exact ⟨fun h => absurd h.symm hne, fun _ => rfl⟩
  obtain ⟨name, -, hhasa, hhasb⟩ := (hreported hunique).1 h
  rw [htablea, Table.has_iff_mem_keys] at hhasa
  rw [htableb, Table.has_iff_mem_keys] at hhasb
  exact absurd ((List.mem_singleton.1 hhasa).symm.trans (List.mem_singleton.1 hhasb)) (by decide)

end Resolver

end BundleReach
