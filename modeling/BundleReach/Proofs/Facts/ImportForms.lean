import BundleReach.Proofs.Facts.Imports
import BundleReach.Proofs.Script.Recognition

/-!
# The forms of import statements

An import statement names its module by a string, in every form that the grammars have: alone, after
`from`, or as the argument of `require` in `import x = require("m")`.  The last form has a clause of
its own, and there the string is a part of the clause and no part of the statement.  So a statement
of this form makes the script a module, and refers to nothing.

* `NamesModule` — the string that an import statement names its module by.
* `importStatement_cases` — the two ways in which a statement has such a string.
* `importStatement_refers_iff` — every form refers to the module that it names, but for this one.
-/

namespace BundleReach.Facts

open Script

variable {d : Dialect} {n : Tree}

/-- The string that an import statement names its module by. -/
inductive NamesModule (n : Tree) : Tree → Prop where
  | itself {s} : s ∈ n.children → s.role = some .source → NamesModule n s
  | required {c s} : c ∈ n.children → c.kind = .importRequireClause → s ∈ c.children →
      s.role = some .source → NamesModule n s

/-- An import statement of the form `import x = require("m")`. -/
def Requires (n : Tree) : Prop := ∃ c ∈ n.children, c.kind = .importRequireClause

/-- A node has a single child that is a source, and this is a string. -/
structure OnlySource (n s : Tree) : Prop where
  isString : s.kind = .string
  only : n.children.filter (·.role == some .source) = [s]

namespace OnlySource

variable {s t : Tree}

theorem mem_iff (h : OnlySource n s) : t ∈ n.children ∧ t.role = some .source ↔ t = s := by
  rw [← List.mem_singleton (b := s), ← h.only, List.mem_filter, beq_iff_eq]

theorem child?_eq (h : OnlySource n s) : n.child? .source = some s := by
  rw [Tree.child?, ← List.head?_filter, h.only, List.head?_cons]

/-- A node with as many sources as strings that are sources, and one of both. -/
theorem of_countP (hsource : n.children.countP (fun c => c.role == some .source) = 1)
    (hstring : n.children.countP (fun c => c.role == some .source && c.kind == .string) = 1) :
    ∃ s, OnlySource n s := by
  rw [List.countP_eq_length_filter] at hsource
  obtain ⟨s, hs⟩ := List.length_eq_one_iff.1 hsource
  obtain ⟨t, ht, hboth⟩ := List.countP_pos_iff.1 (hstring ▸ Nat.one_pos)
  rw [Bool.and_eq_true_iff] at hboth
  have hts : t ∈ n.children.filter (·.role == some .source) := List.mem_filter.2 ⟨ht, hboth.1⟩
  rw [hs, List.mem_singleton] at hts
  exact ⟨s, hts ▸ beq_iff_eq.1 hboth.2, hs⟩

end OnlySource

/-! ## What the grammars admit -/

/-- Sources, sources that are strings, and clauses with `require`. -/
def sourceSorts : List (Trait → Bool) := [
  fun x => x.role == some .source,
  fun x => x.role == some .source && x.kind == .string,
  fun x => x.kind == .importRequireClause]

/-- An import statement has a string for a source, or a clause with `require`, and never both. -/
theorem importStatement_cases (h : Made d (.node .importStatement) n) :
    ((∃ s, OnlySource n s) ∧ ¬ Requires n) ∨
      ((∃ c, n.children.filter (·.kind == .importRequireClause) = [c]) ∧
        ∀ s ∈ n.children, s.role ≠ some .source) := by
  have hcounts := h.countEach_satisfies (show overlookComments sourceSorts = true by decide)
    (p := fun v => v == [1, 1, 0] || v == [0, 0, 1]) (by cases d <;> decide +kernel)
  rw [Bool.or_eq_true_iff, beq_iff_eq, beq_iff_eq] at hcounts
  simp only [countEach, sourceSorts, List.map_cons, List.map_nil, List.cons.injEq, and_true]
    at hcounts
  rcases hcounts with ⟨hsource, hstring, hclause⟩ | ⟨hsource, -, hclause⟩
  · refine .inl ⟨OnlySource.of_countP hsource hstring, ?_⟩
    rintro ⟨c, hc, hkind⟩
    exact List.countP_eq_zero.1 hclause c hc (beq_iff_eq.2 hkind)
  · rw [List.countP_eq_length_filter] at hclause
    refine .inr ⟨List.length_eq_one_iff.1 hclause, fun s hs hrole => ?_⟩
    exact List.countP_eq_zero.1 hsource s hs (beq_iff_eq.2 hrole)

theorem importRequireClause_source (h : Made d (.node .importRequireClause) n) :
    ∃ s, OnlySource n s := by
  have hcounts := h.countEach_satisfies (show overlookComments sourceSorts = true by decide)
    (p := fun v => v == [1, 1, 0]) (by cases d <;> decide +kernel)
  rw [beq_iff_eq] at hcounts
  simp only [countEach, sourceSorts, List.map_cons, List.map_nil, List.cons.injEq, and_true]
    at hcounts
  exact OnlySource.of_countP hcounts.1 hcounts.2.1

/-! ## What a statement contributes -/

theorem imports_of_onlySource {s : Tree} (hn : n.kind = .importStatement) (h : OnlySource n s) :
    (contribution n).imports = [⟨inner s.text, .static, importNames n, n.line⟩] := by
  rw [imports_of_importStatement hn, h.child?_eq, Option.bind_some, literal?, h.isString]
  rfl

theorem imports_of_no_source (hn : n.kind = .importStatement)
    (h : ∀ s ∈ n.children, s.role ≠ some .source) : (contribution n).imports = [] := by
  have hnone : n.child? .source = none :=
    List.find?_eq_none.2 fun s hs hrole => h s hs (beq_iff_eq.1 hrole)
  rw [imports_of_importStatement hn, hnone]
  rfl

/-- A statement with a source of its own, and without `require`, names its module by the source. -/
theorem namesModule_iff_of_source {s t : Tree} (h : OnlySource n s) (hrequires : ¬ Requires n) :
    NamesModule n t ↔ t = s := by
  rw [← h.mem_iff]
  constructor
  · rintro (⟨ht, hrole⟩ | ⟨hc, hkind, -, -⟩)
    · exact ⟨ht, hrole⟩
    · exact absurd ⟨_, hc, hkind⟩ hrequires
  · rintro ⟨ht, hrole⟩
    exact .itself ht hrole

/-- A statement with `require`, and without a source of its own, names its module by the source of
the clause. -/
theorem namesModule_iff_of_clause {c s t : Tree}
    (hclause : n.children.filter (·.kind == .importRequireClause) = [c]) (h : OnlySource c s)
    (hnone : ∀ s ∈ n.children, s.role ≠ some .source) : NamesModule n t ↔ t = s := by
  have hmem : ∀ c', c' ∈ n.children ∧ c'.kind = .importRequireClause ↔ c' = c := by
    intro c'
    rw [← List.mem_singleton (b := c), ← hclause, List.mem_filter, beq_iff_eq]
  rw [← h.mem_iff]
  constructor
  · rintro (⟨ht, hrole⟩ | ⟨hc, hkind, ht, hrole⟩)
    · exact absurd hrole (hnone t ht)
    · rw [(hmem _).1 ⟨hc, hkind⟩] at ht
      exact ⟨ht, hrole⟩
  · rintro ⟨ht, hrole⟩
    obtain ⟨hc, hkind⟩ := (hmem c).2 rfl
    exact .required hc hkind ht hrole

/-- The references of a script are those of a node, between those of the nodes before and after. -/
theorem imports_scriptFacts_split {root : Tree} {before after : List Tree}
    (hsplit : root.preorder = before ++ n :: after) :
    (scriptFacts root).imports =
      before.filterMap reference? ++ (contribution n).imports ++ after.filterMap reference? := by
  rw [imports_scriptFacts, hsplit, List.filterMap_append, List.filterMap_cons, imports_eq_toList,
    List.append_assoc]
  cases reference? n with
  | none => rfl
  | some ref => rfl

/-- Every import statement of a script names its module by one string, and makes the script a
module.  Among the references of the script, in reading order, its own is one to this module, taken
with all that the statement names; unless the string is the argument of `require`: such a statement
has none. -/
theorem importStatement_refers_iff {root : Tree} (h : root.IsScript d) {before after : List Tree}
    (hsplit : root.preorder = before ++ n :: after) (hn : n.kind = .importStatement) :
    (scriptFacts root).format = .esm ∧
      (scriptFacts root).imports =
        before.filterMap reference? ++ (contribution n).imports ++ after.filterMap reference? ∧
      ∃ s, s.kind = .string ∧ (∀ t, NamesModule n t ↔ t = s) ∧
        ((contribution n).imports = [⟨inner s.text, .static, importNames n, n.line⟩] ↔
          ¬ Requires n) ∧
        (Requires n → (contribution n).imports = []) := by
  have hmem : n ∈ root.preorder := by
    rw [hsplit]
    exact List.mem_append_right _ List.mem_cons_self
  have hmodule : isLink n = true := by
    rw [isLink, hn]
    rfl
  refine ⟨format_eq_esm_iff.2 ⟨n, hmem, hmodule⟩, imports_scriptFacts_split hsplit, ?_⟩
  rcases importStatement_cases (h.made (by decide) (by decide) hmem hn) with
    ⟨⟨s, hs⟩, hrequires⟩ | ⟨⟨c, hclause⟩, hnone⟩
  · refine ⟨s, hs.isString, fun t => namesModule_iff_of_source hs hrequires, ?_, ?_⟩
    · exact iff_of_true (imports_of_onlySource hn hs) hrequires
    · exact fun hrequired => absurd hrequired hrequires
  · obtain ⟨hc, hkind⟩ := List.mem_filter.1 (hclause ▸ List.mem_singleton_self c)
    rw [beq_iff_eq] at hkind
    have hin : c ∈ root.preorder :=
      root.preorder_subset hmem (Tree.mem_preorder_of_mem_children hc)
    obtain ⟨s, hs⟩ :=
      importRequireClause_source (h.made (by decide) (by decide) hin hkind)
    have hempty := imports_of_no_source hn hnone
    refine ⟨s, hs.isString, fun t => namesModule_iff_of_clause hclause hs hnone, ?_, ?_⟩
    · rw [hempty]
      exact iff_of_false nofun fun hrequires => hrequires ⟨c, hc, hkind⟩
    · exact fun _ => hempty

/-- The statement `import x = require("m");`. -/
def requireStatement : Tree :=
  .branch .importStatement "import x = require(\"m\");" [
    .leaf .word "import",
    .branch .importRequireClause "x = require(\"m\")" [
      .leaf .identifier "x", .leaf .word "=", .leaf .word "require", .leaf .word "(",
      (Tree.branch .string "\"m\"" [
        .leaf .word "\"", .leaf .stringFragment "m", .leaf .word "\""]).playing .source,
      .leaf .word ")"],
    .leaf .word ";"]

/-- The script `import x = require("m");`. -/
def requiringScript : Tree := .branch .program "import x = require(\"m\");" [requireStatement]

/-- The script `import x = require("m");` refers to nothing. -/
theorem importStatement_refers_iff_required :
    requiringScript.IsScript .typed ∧ Requires requireStatement ∧
      (scriptFacts requiringScript).format = .esm ∧ (scriptFacts requiringScript).imports = [] := by
  have hscript : requiringScript.IsScript .typed :=
    Tree.isScript_of_recognized 30 (by decide +kernel)
  have hsplit : requiringScript.preorder =
      [requiringScript] ++ requireStatement :: Tree.preorderAll requireStatement.children := rfl
  have hrequires : Requires requireStatement := ⟨_, List.mem_cons_of_mem _ List.mem_cons_self, rfl⟩
  obtain ⟨hformat, himports, -, -, -, -, hnone⟩ :=
    importStatement_refers_iff hscript hsplit rfl
  refine ⟨hscript, hrequires, hformat, ?_⟩
  rw [himports, hnone hrequires]
  decide

end BundleReach.Facts
