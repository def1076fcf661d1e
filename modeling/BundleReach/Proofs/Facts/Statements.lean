import BundleReach.Facts.Script

/-!
# What the nodes of a script state together

The facts of a script are what each of its nodes states, in reading order.

* `foldr_contributions`, `scriptFacts_eq` — the references, the names and the marks of all nodes.
* `contribution_esm`, `kind_of_mem_exports` — import and export statements mark a script as a
  module, and export statements offer names.
* `format_eq_esm_iff` — what makes a script a module.
* `Exported`, `exported_scriptFacts_iff` — the names that a module is known to offer.
-/

namespace BundleReach.Facts

open Script

variable {t : Tree}

/-- Some nodes state together what each of them states. -/
theorem foldr_contributions (ns : List Tree) :
    (ns.map contribution).foldr Contribution.append .empty =
      ⟨ns.flatMap fun n => (contribution n).imports, ns.flatMap fun n => (contribution n).exports,
        ns.any fun n => (contribution n).esm, ns.any fun n => (contribution n).cjs⟩ := by
  induction ns with
  | nil => rfl
  | cons n ns ih =>
    rw [List.map_cons, List.foldr_cons, ih]
    rfl

theorem imports_scriptFacts_eq (t : Tree) : (scriptFacts t).imports = (statements t).imports := by
  unfold scriptFacts
  cases hesm : (statements t).esm <;> simp only [hesm] <;> rfl

theorem exports_statements (t : Tree) :
    (statements t).exports = t.preorder.flatMap fun n => (contribution n).exports := by
  rw [statements, foldr_contributions]

theorem scriptFacts_eq (t : Tree) :
    scriptFacts t = if (statements t).esm then
        ⟨.esm, (statements t).imports, .known (statements t).exports.eraseDups⟩
      else
        ⟨if (statements t).cjs then .cjs else .script, (statements t).imports, .unknown⟩ := rfl

/-! ## Modules -/

/-- Is the node an import or an export statement? -/
def isLink (t : Tree) : Bool := t.kind == .importStatement || t.kind == .exportStatement

theorem exportContribution_esm (t : Tree) : (exportContribution t).esm = true := by
  unfold exportContribution
  cases t.child? .source with
  | none => rfl
  | some source => rfl

/-- A call neither offers a name nor marks a script as a module. -/
theorem callContribution_bare (t : Tree) :
    (callContribution t).exports = [] ∧ (callContribution t).esm = false := by
  unfold callContribution
  cases t.child? .function with
  | none => exact ⟨rfl, rfl⟩
  | some f =>
    dsimp only
    split
    · exact ⟨rfl, rfl⟩
    · split
      · cases literalArgument? t with
        | none => exact ⟨rfl, rfl⟩
        | some s => exact ⟨rfl, rfl⟩
      · exact ⟨rfl, rfl⟩

/-- Only import and export statements mark a script as a module. -/
theorem contribution_esm (t : Tree) : (contribution t).esm = isLink t := by
  unfold contribution isLink
  split
  · rename_i hkind
    rw [hkind]
    rfl
  · rename_i hkind
    rw [hkind, exportContribution_esm]
    rfl
  · rename_i hkind
    rw [hkind, (callContribution_bare t).2]
    rfl
  · rename_i hkind
    rw [hkind]
    rfl
  · rename_i himport hexport _ _
    rw [beq_false_of_ne himport, beq_false_of_ne hexport]
    rfl

/-- Only export statements offer names. -/
theorem kind_of_mem_exports {name : String} (h : name ∈ (contribution t).exports) :
    t.kind = .exportStatement := by
  unfold contribution at h
  split at h
  · cases h
  · assumption
  · rw [(callContribution_bare t).1] at h
    cases h
  · cases h
  · cases h

theorem esm_statements (t : Tree) : (statements t).esm = t.preorder.any isLink := by
  rw [statements, foldr_contributions]
  show t.preorder.any (fun n => (contribution n).esm) = _
  simp only [contribution_esm]

/-- A script is a module if and only if it has an import or an export statement, wherever. -/
theorem format_eq_esm_iff : (scriptFacts t).format = .esm ↔ ∃ n ∈ t.preorder, isLink n = true := by
  rw [← List.any_eq_true, ← esm_statements, scriptFacts_eq]
  cases (statements t).esm with
  | true => exact iff_of_true rfl rfl
  | false => cases (statements t).cjs <;> exact iff_of_false nofun nofun

/-! ## Names on offer -/

/-- Some facts are known to include that the module offers a name. -/
def Exported (f : ModuleFacts) (name : String) : Prop :=
  ∃ names, f.exports = .known names ∧ name ∈ names

theorem exported_scriptFacts_iff {name : String} :
    Exported (scriptFacts t) name ↔ (statements t).esm = true ∧ name ∈ (statements t).exports := by
  rw [scriptFacts_eq, Exported]
  cases (statements t).esm with
  | true =>
    constructor
    · rintro ⟨names, hnames, hname⟩
      cases hnames
      exact ⟨rfl, List.mem_eraseDups.1 hname⟩
    · rintro ⟨-, hname⟩
      exact ⟨_, rfl, List.mem_eraseDups.2 hname⟩
  | false =>
    constructor
    · rintro ⟨names, hnames, -⟩
      cases hnames
    · rintro ⟨hesm, -⟩
      cases hesm

end BundleReach.Facts
