import BundleReach.Proofs.Facts.Patterns
import BundleReach.Proofs.Facts.Statements
import BundleReach.Proofs.Script.Recognition

/-!
# The names that export statements introduce

An export statement introduces the name `default`, the names of the entries of its clause, the name
after `* as`, or the names of its declaration.  Most of these names are known to be on offer.  Those
of declarations that are not in the list of declarations are not: signatures of functions, modules,
aliases of imports and resources, by themselves or after `declare`; nor is the first part of the
dotted name of a namespace, a name that a pattern loses, or the keyword in `* as default`.

* `Declares`, `Introduces` — the names that a declaration and an export statement introduce.
* `Overlooked`, `Overlooks` — those of them that are not read off.
* `Unlisted` — the declarations that nothing is read off.
* `Introduces.offered_or_overlooked` — a statement offers all the names that it does not overlook.
* `introduced_known_iff` — all names introduced are known if and only if those overlooked are.
-/

namespace BundleReach.Facts

open Script

/-! ## What declarations introduce -/

/-- Declarations that have one name. -/
def namedKinds : List Kind := [
  .functionDeclaration, .generatorFunctionDeclaration, .functionSignature, .classDeclaration,
  .abstractClassDeclaration, .enumDeclaration, .interfaceDeclaration, .typeAliasDeclaration]

/-- Declarations of variables and resources. -/
def variableKinds : List Kind := [.lexicalDeclaration, .variableDeclaration, .usingDeclaration]

/-- Declarations of namespaces, by either keyword. -/
def spaceKinds : List Kind := [.internalModule, .moduleDeclaration]

/-- Declarations that are not in the list of those whose names are offered. -/
def unlistedKinds : List Kind := [
  .functionSignature, .moduleDeclaration, .importAlias, .usingDeclaration]

/-- A name, or a name with dots in it, begins with an identifier. -/
inductive Heads : Tree → String → Prop where
  | name {t} : t.kind = .identifier → Heads t t.text
  | dotted {t o name} : t.kind = .nestedIdentifier ∨ t.kind = .memberExpression →
      t.child? .object = some o → Heads o name → Heads t name

/-- A declaration introduces a name.  A namespace with dots in its name introduces the outermost
one, and a module that is named by a string introduces nothing. -/
inductive Declares : Tree → String → Prop where
  | named {d t} : d.kind ∈ namedKinds → d.child? .name = some t → Declares d t.text
  | binding {d name} : d.kind ∈ variableKinds → name ∈ declaredBindings d → Declares d name
  | space {d t name} : d.kind ∈ spaceKinds → d.child? .name = some t → Heads t name →
      Declares d name
  | synonym {d t} : d.kind = .importAlias → d.children.find? (·.kind == .identifier) = some t →
      Declares d t.text
  | ambient {a d name} : a.kind = .ambientDeclaration → d ∈ a.children → Declares d name →
      Declares a name

/-- A name that a declaration introduces is not read off it. -/
inductive Overlooked : Tree → String → Prop where
  | unlisted {d name} : d.kind ∈ unlistedKinds → Declares d name → Overlooked d name
  | dotted {d t name} : d.kind = .internalModule → d.child? .name = some t →
      t.kind ≠ .identifier → Heads t name → Overlooked d name
  | lost {d name} : d.kind = .lexicalDeclaration ∨ d.kind = .variableDeclaration →
      .lost name ∈ declaredSightings d → Overlooked d name
  | ambient {a d name} : a.kind = .ambientDeclaration → d ∈ a.children → Overlooked d name →
      Overlooked a name

/-- A declaration is not in the list of those whose names are offered, by itself or after
`declare`. -/
inductive Unlisted : Tree → Prop where
  | itself {d} : d.kind ∈ unlistedKinds → Unlisted d
  | ambient {a d} : a.kind = .ambientDeclaration → d ∈ a.children → Unlisted d → Unlisted a

/-- An export statement introduces a name. -/
inductive Introduces (e : Tree) : String → Prop where
  | default : e.hasWord "default" = true → Introduces e "default"
  | entry {c s name} : c ∈ e.children → c.kind = .exportClause → s ∈ c.children →
      s.kind = .exportSpecifier → (s.child? .alias).or (s.child? .name) = some name →
      Introduces e (unquoted name.text)
  | space {n name} : n ∈ e.children → n.kind = .namespaceExport →
      n.children.getLast? = some name → Introduces e (unquoted name.text)
  | declaration {d name} : e.hasWord "default" = false → d ∈ e.children →
      d.role = some .declaration → Declares d name → Introduces e name

/-- An export statement introduces a name that is not read off it. -/
inductive Overlooks (e : Tree) : String → Prop where
  | keyword {n name} : n ∈ e.children → n.kind = .namespaceExport →
      n.children.getLast? = some name → name.kind = .word → Overlooks e (unquoted name.text)
  | declaration {d name} : e.hasWord "default" = false → d ∈ e.children →
      d.role = some .declaration → Overlooked d name → Overlooks e name

theorem Heads.eq_text {t : Tree} {name : String} (h : Heads t name) (hkind : t.kind = .identifier) :
    name = t.text := by
  cases h with
  | name _ => rfl
  | dotted hdotted _ _ => rcases hdotted with hdotted | hdotted <;> cases hkind.symm.trans hdotted

theorem Overlooked.declares {d : Tree} {name : String} (h : Overlooked d name) :
    Declares d name := by
  induction h with
  | unlisted _ hdeclares => exact hdeclares
  | dotted hkind hname _ hheads => exact .space (by rw [hkind]; decide) hname hheads
  | lost hkind hlost =>
    refine .binding (by rcases hkind with hkind | hkind <;> rw [hkind] <;> decide) ?_
    rw [declaredBindings_eq]
    exact List.mem_filterMap.2 ⟨_, hlost, rfl⟩
  | ambient hkind hd _ ih => exact .ambient hkind hd ih

theorem Overlooks.introduces {e : Tree} {name : String} (h : Overlooks e name) :
    Introduces e name := by
  cases h with
  | keyword hn hkind hlast _ => exact .space hn hkind hlast
  | declaration hdefault hd hrole hoverlooked =>
    exact .declaration hdefault hd hrole hoverlooked.declares

/-! ## What is read off a declaration -/

variable {g : Dialect} {root : Tree}

/-- Where at most one item of a list has a property, this is the one that is found. -/
theorem find?_eq_some_of_countP_le_one {α : Type} {p : α → Bool} {l : List α} {a : α}
    (h : l.countP p ≤ 1) (ha : a ∈ l) (hp : p a = true) : l.find? p = some a := by
  have hmem : a ∈ l.filter p := List.mem_filter.2 ⟨ha, hp⟩
  have hone : (l.filter p).length = 1 :=
    Nat.le_antisymm (List.countP_eq_length_filter ▸ h) (List.length_pos_of_mem hmem)
  obtain ⟨b, hb⟩ := List.length_eq_one_iff.1 hone
  rw [hb, List.mem_singleton] at hmem
  rw [← List.head?_filter, hb, hmem, List.head?_cons]

/-- The declarations whose names are offered that have a single name. -/
theorem declaredNames_of_name {d t : Tree} (hambient : d.kind ≠ .ambientDeclaration)
    (hvariables : ¬ (d.kind = .lexicalDeclaration ∨ d.kind = .variableDeclaration))
    (hname : d.child? .name = some t) : declaredNames d = [t.text] := by
  rw [not_or] at hvariables
  cases d with
  | node l cs =>
    rw [declaredNames]
    split
    · exact absurd ‹_› hambient
    · exact absurd ‹_› hvariables.1
    · exact absurd ‹_› hvariables.2
    · rw [show cs.find? _ = some t from hname]
      rfl

/-- Declarations in the list, and those that are not. -/
def ambientSorts : List (Trait → Bool) := [
  fun x => isDeclaration x.kind,
  fun x => unlistedKinds.contains x.kind]

/-- There is one declaration at most after `declare`, in the list or not. -/
theorem ambientDeclaration_counts {a : Tree} (h : Made g (.node .ambientDeclaration) a) :
    a.children.countP (fun c => isDeclaration c.kind) +
      a.children.countP (fun c => unlistedKinds.contains c.kind) ≤ 1 := by
  have hcounts := h.countEach_satisfies (show overlookComments ambientSorts = true by decide)
    (p := fun v => v == [1, 0] || v == [0, 1] || v == [0, 0]) (by cases g <;> decide +kernel)
  simp only [Bool.or_eq_true, beq_iff_eq, countEach, ambientSorts, List.map_cons, List.map_nil,
    List.cons.injEq, and_true] at hcounts
  show a.children.countP (fun c => isDeclaration c.trait.kind) +
    a.children.countP (fun c => unlistedKinds.contains c.trait.kind) ≤ 1
  omega

theorem declaredNames_eq_of_ambient {a : Tree} (hkind : a.kind = .ambientDeclaration) :
    declaredNames a =
      ((a.children.find? fun c => isDeclaration c.kind).map declaredNames).getD [] := by
  cases a with
  | node l cs =>
    rw [declaredNames, show l.kind = .ambientDeclaration from hkind]
    exact ambientNames_eq cs

theorem declaredNames_of_ambient {a d : Tree} (hmade : Made g (.node .ambientDeclaration) a)
    (hkind : a.kind = .ambientDeclaration) (hd : d ∈ a.children)
    (hlisted : isDeclaration d.kind = true) : declaredNames a = declaredNames d := by
  have hone : a.children.countP (fun c => isDeclaration c.kind) ≤ 1 :=
    Nat.le_of_add_right_le (ambientDeclaration_counts hmade)
  rw [declaredNames_eq_of_ambient hkind, find?_eq_some_of_countP_le_one hone hd hlisted]
  rfl

/-- Nothing is read off a declaration that is not in the list. -/
theorem Unlisted.offers_nothing {d : Tree} (hroot : root.IsScript g) (hd : d ∈ root.preorder)
    (h : Unlisted d) : (if isDeclaration d.kind then declaredNames d else []) = [] := by
  induction h with
  | itself hkind =>
    have hlisted := (show ∀ k ∈ unlistedKinds, isDeclaration k = false by decide) _ hkind
    rw [hlisted, if_neg Bool.false_ne_true]
  | @ambient a d hkind hin hunlisted ih =>
    have hmade := hroot.made (by decide) (by decide) hd hkind
    have hdin := root.preorder_subset hd (Tree.mem_preorder_of_mem_children hin)
    rw [if_pos (by rw [hkind]; rfl)]
    cases hunlisted with
    | itself hdkind =>
      -- the only declaration is none of those that are looked for
      have hpos : 0 < a.children.countP fun c => unlistedKinds.contains c.kind :=
        List.countP_pos_iff.2 ⟨d, hin, List.contains_iff_mem.2 hdkind⟩
      have hcounts := ambientDeclaration_counts hmade
      have hnone : a.children.countP (fun c => isDeclaration c.kind) = 0 := by omega
      rw [declaredNames_eq_of_ambient hkind,
        List.find?_eq_none.2 (List.countP_eq_zero.1 hnone)]
      rfl
    | ambient hdkind _ _ =>
      have hlisted : isDeclaration d.kind = true := by
        rw [hdkind]
        rfl
      have hnames := ih hdin
      rw [if_pos hlisted] at hnames
      rw [declaredNames_of_ambient hmade hkind hin hlisted, hnames]

/-- A declaration that introduces a name is in the list of those whose names are offered, or is
known to be missing there. -/
theorem Declares.listed_or_unlisted {d : Tree} {name : String} (h : Declares d name) :
    isDeclaration d.kind = true ∨ d.kind ∈ unlistedKinds := by
  have hall : ∀ k ∈ namedKinds ++ variableKinds ++ spaceKinds,
      isDeclaration k = true ∨ k ∈ unlistedKinds := by
    decide
  cases h with
  | named hkind _ => exact hall _ (List.mem_append_left _ (List.mem_append_left _ hkind))
  | binding hkind _ => exact hall _ (List.mem_append_left _ (List.mem_append_right _ hkind))
  | space hkind _ _ => exact hall _ (List.mem_append_right _ hkind)
  | synonym hkind _ => exact .inr (by rw [hkind]; decide)
  | ambient hkind _ _ => exact .inl (by rw [hkind]; rfl)

/-- A declaration that is in the list has every name read off it that it introduces and that is not
overlooked. -/
theorem Declares.collected_of_listed {d : Tree} {name : String} (hroot : root.IsScript g)
    (hd : d ∈ root.preorder) (h : Declares d name) (hlisted : isDeclaration d.kind = true) :
    name ∈ declaredNames d ∨ Overlooked d name := by
  induction h with
  | @named d t hkind hname =>
    have hambient : d.kind ≠ .ambientDeclaration := by
      rintro heq
      rw [heq] at hkind
      exact absurd hkind (by decide)
    have hvariables : ¬ (d.kind = .lexicalDeclaration ∨ d.kind = .variableDeclaration) := by
      rintro (heq | heq) <;> rw [heq] at hkind <;> exact absurd hkind (by decide)
    rw [declaredNames_of_name hambient hvariables hname]
    exact .inl (List.mem_singleton_self _)
  | @binding d name hkind hname =>
    have hvariables : d.kind = .lexicalDeclaration ∨ d.kind = .variableDeclaration :=
      (show ∀ k ∈ variableKinds, isDeclaration k = true →
        k = .lexicalDeclaration ∨ k = .variableDeclaration by decide) _ hkind hlisted
    rw [declaredBindings_eq] at hname
    obtain ⟨s, hs, hbinding⟩ := List.mem_filterMap.1 hname
    cases s with
    | bound name' =>
      cases hbinding
      rw [declaredNames_eq_of_variables hvariables, flatMap_boundNames]
      exact .inl (List.mem_filterMap.2 ⟨_, hs, rfl⟩)
    | lost name' =>
      cases hbinding
      exact .inr (.lost hvariables hs)
    | stray name' => cases hbinding
  | @space d t name hkind hname hheads =>
    have hspace : d.kind = .internalModule :=
      (show ∀ k ∈ spaceKinds, isDeclaration k = true → k = .internalModule by decide) _ hkind
        hlisted
    by_cases hidentifier : t.kind = .identifier
    · rw [declaredNames_of_name (by rw [hspace]; decide) (by rw [hspace]; decide) hname,
        hheads.eq_text hidentifier]
      exact .inl (List.mem_singleton_self _)
    · exact .inr (.dotted hspace hname hidentifier hheads)
  | @synonym d t hkind hname =>
    rw [hkind] at hlisted
    cases hlisted
  | @ambient a d name hkind hin hdeclares ih =>
    have hdin : d ∈ root.preorder :=
      root.preorder_subset hd (Tree.mem_preorder_of_mem_children hin)
    rcases hdeclares.listed_or_unlisted with hinner | hunlisted
    · rcases ih hdin hinner with hname | hoverlooked
      · have hmade := hroot.made (by decide) (by decide) hd hkind
        rw [declaredNames_of_ambient hmade hkind hin hinner]
        exact .inl hname
      · exact .inr (.ambient hkind hin hoverlooked)
    · exact .inr (.ambient hkind hin (.unlisted hunlisted hdeclares))

/-- A name that a declaration introduces is read off it, the declaration being in the list, or it is
overlooked. -/
theorem Declares.collected_or_overlooked {d : Tree} {name : String} (hroot : root.IsScript g)
    (hd : d ∈ root.preorder) (h : Declares d name) :
    (isDeclaration d.kind = true ∧ name ∈ declaredNames d) ∨ Overlooked d name := by
  rcases h.listed_or_unlisted with hlisted | hunlisted
  · rcases h.collected_of_listed hroot hd hlisted with hname | hoverlooked
    · exact .inl ⟨hlisted, hname⟩
    · exact .inr hoverlooked
  · exact .inr (.unlisted hunlisted h)

/-! ## What is read off an export statement -/

/-- Sources, the keyword `default`, clauses, namespaces and declarations. -/
def exportSorts : List (Trait → Bool) := [
  fun x => x.role == some .source,
  fun x => x.kind == .word && x.word == some "default",
  fun x => x.kind == .exportClause,
  fun x => x.kind == .namespaceExport,
  fun x => x.role == some .declaration]

/-- How many of them an export statement can have. -/
def exportForms : List Tally := [
  [1, 0, 0, 0, 0], [1, 0, 0, 1, 0], [1, 0, 1, 0, 0], [0, 0, 1, 0, 0],
  [0, 1, 0, 0, 0], [0, 1, 0, 0, 1], [0, 0, 0, 0, 1], [0, 0, 0, 0, 0]]

/-- What the parts of an export statement exclude, and that each of them is found. -/
structure ExportParts (e : Tree) : Prop where
  default : e.hasWord "default" = true → e.child? .source = none
  clause : ∀ c ∈ e.children, c.kind = .exportClause → e.hasWord "default" = false ∧
    e.namedChildren.find? (·.kind == .exportClause) = some c
  space : ∀ n ∈ e.children, n.kind = .namespaceExport → (e.child? .source).isSome = true ∧
    e.namedChildren.find? (·.kind == .exportClause) = none ∧
    e.namedChildren.find? (·.kind == .namespaceExport) = some n
  declaration : ∀ d ∈ e.children, d.role = some .declaration → e.child? .source = none ∧
    e.namedChildren.find? (·.kind == .exportClause) = none ∧ e.child? .declaration = some d

theorem find?_namedChildren (t : Tree) {k : Kind} (hk : k ≠ .word) :
    t.namedChildren.find? (·.kind == k) = t.children.find? (·.kind == k) := by
  rw [Tree.namedChildren, List.find?_filter]
  congr 1
  funext c
  by_cases hc : c.kind = k
  · have hnamed : c.isNamed = true := by rwa [Tree.isNamed, hc, bne_iff_ne]
    rw [hc, hnamed, beq_self_eq_true]
    rfl
  · rw [beq_false_of_ne hc]
    exact decide_eq_false fun h => Bool.false_ne_true h.2

/-- An export statement has its parts in one of the forms. -/
theorem exportStatement_counts {e : Tree} (h : Made g (.node .exportStatement) e) :
    [e.children.countP (·.role == some .source),
      e.children.countP (fun c => c.kind == .word && c.text == "default"),
      e.children.countP (·.kind == .exportClause), e.children.countP (·.kind == .namespaceExport),
      e.children.countP (·.role == some .declaration)] ∈ exportForms := by
  have hcounts := h.countEach_satisfies (show overlookComments exportSorts = true by decide)
    (p := fun v => exportForms.contains v) (by cases g <;> decide +kernel)
  have hword : ∀ c : Tree, (c.trait.kind == .word && c.trait.word == some "default") =
      (c.kind == .word && c.text == "default") := by
    intro c
    by_cases hkind : c.kind = .word
    · simp only [Tree.trait, hkind, if_true]
      rfl
    · simp only [Tree.trait, beq_false_of_ne hkind, Bool.false_and]
  rw [List.contains_iff_mem] at hcounts
  simp only [countEach, exportSorts, List.map_cons, List.map_nil, hword] at hcounts
  exact hcounts

theorem exportParts {e : Tree} (h : Made g (.node .exportStatement) e) : ExportParts e := by
  have hforms := exportStatement_counts h
  simp only [exportForms, List.mem_cons, List.not_mem_nil, or_false, List.cons.injEq, and_true]
    at hforms
  have hone {p : Tree → Bool} {c : Tree} (hc : c ∈ e.children) (hp : p c = true) :
      0 < e.children.countP p := List.countP_pos_iff.2 ⟨c, hc, hp⟩
  have hnone {p : Tree → Bool} (hp : e.children.countP p = 0) : e.children.find? p = none :=
    List.find?_eq_none.2 (List.countP_eq_zero.1 hp)
  constructor
  case default =>
    intro hdefault
    obtain ⟨c, hc, hword⟩ := List.any_eq_true.1 hdefault
    have hpos := hone (p := fun c => c.kind == .word && c.text == "default") hc hword
    exact hnone (by omega)
  case clause =>
    intro c hc hkind
    have hpos := hone (p := fun c => c.kind == .exportClause) hc (beq_iff_eq.2 hkind)
    refine ⟨?_, ?_⟩
    · have hzero : e.children.countP (fun c => c.kind == .word && c.text == "default") = 0 := by
        omega
      exact List.any_eq_false.2 (List.countP_eq_zero.1 hzero)
    · rw [find?_namedChildren e (by decide)]
      exact find?_eq_some_of_countP_le_one (by omega) hc (beq_iff_eq.2 hkind)
  case space =>
    intro n hn hkind
    have hpos := hone (p := fun c => c.kind == .namespaceExport) hn (beq_iff_eq.2 hkind)
    rw [find?_namedChildren e (by decide), find?_namedChildren e (by decide)]
    refine ⟨?_, hnone (by omega), ?_⟩
    · rw [Tree.child?, List.find?_isSome, ← List.countP_pos_iff]
      omega
    · exact find?_eq_some_of_countP_le_one (by omega) hn (beq_iff_eq.2 hkind)
  case declaration =>
    intro d hd hrole
    have hpos := hone (p := fun c => c.role == some .declaration) hd (beq_iff_eq.2 hrole)
    rw [find?_namedChildren e (by decide)]
    refine ⟨hnone (by omega), hnone (by omega), ?_⟩
    exact find?_eq_some_of_countP_le_one (by omega) hd (beq_iff_eq.2 hrole)

theorem exports_of_local {e : Tree} (hkind : e.kind = .exportStatement)
    (hsource : e.child? .source = none) : (contribution e).exports = localExports e := by
  rw [contribution, hkind]
  show (exportContribution e).exports = _
  rw [exportContribution, hsource]

theorem exports_of_reexport {e : Tree} (hkind : e.kind = .exportStatement)
    (hsource : (e.child? .source).isSome = true) :
    (contribution e).exports = (reexportedNames e).2 := by
  obtain ⟨source, hsource⟩ := Option.isSome_iff_exists.1 hsource
  rw [contribution, hkind]
  show (exportContribution e).exports = _
  rw [exportContribution, hsource]
  rfl

/-- The name of an entry, or its alias, is among those that the clause offers. -/
theorem mem_offeredNames {c s name : Tree} (hs : s ∈ c.children) (hkind : s.kind = .exportSpecifier)
    (hname : (s.child? .alias).or (s.child? .name) = some name) :
    unquoted name.text ∈ offeredNames c := by
  have hnamed : s.isNamed = true := by rw [Tree.isNamed, hkind]; rfl
  refine List.mem_filterMap.2 ⟨s, List.mem_filter.2 ⟨hs, hnamed⟩, ?_⟩
  rw [hkind, hname]
  rfl

/-- The names of a clause are offered on, and without a source they are offered as well. -/
theorem ExportParts.exports_of_clause {e c : Tree} (h : ExportParts e)
    (hkind : e.kind = .exportStatement) (hc : c ∈ e.children) (hclause : c.kind = .exportClause) :
    (contribution e).exports = offeredNames c := by
  obtain ⟨hdefault, hfind⟩ := h.clause c hc hclause
  cases hsource : e.child? .source with
  | none =>
    rw [exports_of_local hkind hsource, localExports, hdefault, if_neg Bool.false_ne_true, hfind]
  | some source =>
    rw [exports_of_reexport hkind (by rw [hsource]; rfl), reexportedNames, hfind]

theorem ExportParts.exports_of_space {e n : Tree} (h : ExportParts e)
    (hkind : e.kind = .exportStatement) (hn : n ∈ e.children) (hspace : n.kind = .namespaceExport) :
    (contribution e).exports = (n.namedChildren.getLast?.map fun t => unquoted t.text).toList := by
  obtain ⟨hsource, hclause, hfind⟩ := h.space n hn hspace
  rw [exports_of_reexport hkind hsource, reexportedNames, hclause, hfind]

theorem ExportParts.exports_of_declaration {e d : Tree} (h : ExportParts e)
    (hkind : e.kind = .exportStatement) (hdefault : e.hasWord "default" = false)
    (hd : d ∈ e.children) (hrole : d.role = some .declaration) :
    (contribution e).exports = if isDeclaration d.kind then declaredNames d else [] := by
  obtain ⟨hsource, hclause, hfind⟩ := h.declaration d hd hrole
  rw [exports_of_local hkind hsource, localExports, hdefault, if_neg Bool.false_ne_true, hclause,
    hfind]

/-- An export statement offers every name that it introduces and does not overlook. -/
theorem Introduces.offered_or_overlooked {e : Tree} {name : String} (hroot : root.IsScript g)
    (he : e ∈ root.preorder) (hkind : e.kind = .exportStatement) (h : Introduces e name) :
    name ∈ (contribution e).exports ∨ Overlooks e name := by
  have hparts := exportParts (hroot.made (by decide) (by decide) he hkind)
  cases h with
  | default hdefault =>
    rw [exports_of_local hkind (hparts.default hdefault), localExports, hdefault, if_pos rfl]
    exact .inl (List.mem_singleton_self _)
  | entry hc hclause hs hspecifier hname =>
    rw [hparts.exports_of_clause hkind hc hclause]
    exact .inl (mem_offeredNames hs hspecifier hname)
  | @space n name hn hspace hlast =>
    by_cases hword : name.kind = .word
    · exact .inr (.keyword hn hspace hlast hword)
    · obtain ⟨before, hbefore⟩ := List.getLast?_eq_some_iff.1 hlast
      have hnamed : n.namedChildren.getLast? = some name := by
        rw [Tree.namedChildren, hbefore, List.filter_append,
          List.filter_cons_of_pos (p := Tree.isNamed) (bne_iff_ne.2 hword), List.filter_nil,
          List.getLast?_concat]
      rw [hparts.exports_of_space hkind hn hspace, hnamed]
      exact .inl (List.mem_singleton_self _)
  | @declaration d name hdefault hd hrole hdeclares =>
    rw [hparts.exports_of_declaration hkind hdefault hd hrole]
    have hin : d ∈ root.preorder :=
      root.preorder_subset he (Tree.mem_preorder_of_mem_children hd)
    rcases hdeclares.collected_or_overlooked hroot hin with ⟨hlisted, hname⟩ | hoverlooked
    · rw [if_pos hlisted]
      exact .inl hname
    · exact .inr (.declaration hdefault hd hrole hoverlooked)

/-! ## All names of a script -/

/-- All names that export statements at the top of a script introduce are known to be on offer, if
and only if those that are not read off their statements are on offer by another statement.  Nothing
at all is read off a statement with a declaration that is not in the list. -/
theorem introduced_known_iff (hroot : root.IsScript g) :
    ((∀ e ∈ root.children, e.kind = .exportStatement → ∀ name, Introduces e name →
        Exported (scriptFacts root) name) ↔
      ∀ e ∈ root.children, e.kind = .exportStatement → ∀ name, Overlooks e name →
        Exported (scriptFacts root) name) ∧
      ∀ e ∈ root.children, e.kind = .exportStatement → e.hasWord "default" = false →
        ∀ d ∈ e.children, d.role = some .declaration → Unlisted d →
          (contribution e).exports = [] := by
  refine ⟨⟨?_, ?_⟩, ?_⟩
  · intro h e he hkind name hoverlooks
    exact h e he hkind name hoverlooks.introduces
  · intro h e he hkind name hintroduces
    have hin := Tree.mem_preorder_of_mem_children he
    rcases hintroduces.offered_or_overlooked hroot hin hkind with hname | hoverlooks
    · have hlink : isLink e = true := by
        rw [isLink, hkind]
        rfl
      rw [exported_scriptFacts_iff, esm_statements, exports_statements]
      exact ⟨List.any_eq_true.2 ⟨e, hin, hlink⟩, List.mem_flatMap.2 ⟨e, hin, hname⟩⟩
    · exact h e he hkind name hoverlooks
  · intro e he hkind hdefault d hd hrole hunlisted
    have hin := Tree.mem_preorder_of_mem_children he
    have hdin := root.preorder_subset hin (Tree.mem_preorder_of_mem_children hd)
    have hparts := exportParts (hroot.made (by decide) (by decide) hin hkind)
    rw [hparts.exports_of_declaration hkind hdefault hd hrole]
    exact hunlisted.offers_nothing hroot hdin

/-- The statement `export import A = B;`. -/
def synonymExport : Tree :=
  .branch .exportStatement "export import A = B;" [
    .leaf .word "export",
    (Tree.branch .importAlias "import A = B;" [
      .leaf .word "import", .leaf .identifier "A", .leaf .word "=", .leaf .identifier "B",
      .leaf .word ";"]).playing .declaration]

/-- The script `export import A = B;`. -/
def synonymScript : Tree := .branch .program "export import A = B;" [synonymExport]

/-- The script `export import A = B;` introduces the name `A`, which is not known. -/
theorem introduced_known_iff_synonym :
    synonymScript.IsScript .typed ∧ Introduces synonymExport "A" ∧
      (scriptFacts synonymScript).exports = .known [] ∧
      ¬ ∀ e ∈ synonymScript.children, e.kind = .exportStatement → ∀ name, Overlooks e name →
        Exported (scriptFacts synonymScript) name := by
  have hscript : synonymScript.IsScript .typed := Tree.isScript_of_recognized 30 (by decide +kernel)
  have hintroduces : Introduces synonymExport "A" :=
    .declaration rfl (List.mem_cons_of_mem _ List.mem_cons_self) rfl
      (.synonym (t := .leaf .identifier "A") rfl rfl)
  have hunknown : ¬ Exported (scriptFacts synonymScript) "A" := by
    rintro ⟨names, hnames, hname⟩
    cases hnames
    cases hname
  refine ⟨hscript, hintroduces, rfl, fun hoverlooked => hunknown ?_⟩
  exact (introduced_known_iff hscript).1.2 hoverlooked synonymExport List.mem_cons_self rfl "A"
    hintroduces

end BundleReach.Facts
