import BundleReach.Proofs.Facts.Introduced
import BundleReach.Proofs.Script.Preorder

/-!
# Statements inside namespaces

The body of a namespace, of a module or of an ambient declaration has import and export statements
of its own, which concern the namespace and not the script.  The nodes of a script are read wherever
they stand, so such a statement counts like one outside: the names that it offers are known to be on
offer, and alone it makes the script a module.

* `Enclosed` — the places strictly inside a namespace, a module or an ambient declaration.
* `exported_iff_offered`, `format_eq_esm_iff_linked` — names and format come from both sides.
* `enclosed_exports_known` — when a script is none the worse for it.
-/

namespace BundleReach.Facts

open Script

/-- Namespaces, modules and ambient declarations. -/
def isEnclosure (k : Kind) : Bool :=
  [Kind.internalModule, .moduleDeclaration, .ambientDeclaration].contains k

/-- A place is strictly inside a namespace, a module or an ambient declaration, at any depth. -/
def Enclosed (root : Tree) (p : List Nat) : Prop :=
  ∃ q i r m, p = q ++ i :: r ∧ root.at? q = some m ∧ isEnclosure m.kind = true

/-- An export statement offers the name, at one of some places. -/
def OfferedWhere (root : Tree) (P : List Nat → Prop) (name : String) : Prop :=
  ∃ p n, P p ∧ root.at? p = some n ∧ n.kind = .exportStatement ∧ name ∈ (contribution n).exports

/-- There is an import or export statement at one of some places. -/
def LinkedWhere (root : Tree) (P : List Nat → Prop) : Prop :=
  ∃ p n, P p ∧ root.at? p = some n ∧ isLink n = true

variable {g : Dialect} {root : Tree}

/-- What a node of a tree satisfies, a node at some place does, and the place is either enclosed or
not. -/
theorem exists_mem_preorder_iff {Q : Tree → Prop} (P : List Nat → Prop) :
    (∃ n ∈ root.preorder, Q n) ↔
      (∃ p n, ¬ P p ∧ root.at? p = some n ∧ Q n) ∨ ∃ p n, P p ∧ root.at? p = some n ∧ Q n := by
  constructor
  · rintro ⟨n, hn, hQ⟩
    obtain ⟨p, hp⟩ := Tree.mem_preorder_iff.1 hn
    by_cases hP : P p
    · exact .inr ⟨p, n, hP, hp, hQ⟩
    · exact .inl ⟨p, n, hP, hp, hQ⟩
  · rintro (⟨p, n, -, hp, hQ⟩ | ⟨p, n, -, hp, hQ⟩)
    · exact ⟨n, Tree.mem_preorder_iff.2 ⟨p, hp⟩, hQ⟩
    · exact ⟨n, Tree.mem_preorder_iff.2 ⟨p, hp⟩, hQ⟩

/-- A name is known if and only if some node offers it. -/
theorem exported_iff_exists {name : String} :
    Exported (scriptFacts root) name ↔
      ∃ n ∈ root.preorder, n.kind = .exportStatement ∧ name ∈ (contribution n).exports := by
  rw [exported_scriptFacts_iff, esm_statements, exports_statements, List.mem_flatMap]
  constructor
  · rintro ⟨-, n, hn, hname⟩
    exact ⟨n, hn, kind_of_mem_exports hname, hname⟩
  · rintro ⟨n, hn, hkind, hname⟩
    refine ⟨List.any_eq_true.2 ⟨n, hn, ?_⟩, n, hn, hname⟩
    rw [isLink, hkind]
    rfl

theorem exported_iff_offered {name : String} :
    Exported (scriptFacts root) name ↔
      OfferedWhere root (fun p => ¬ Enclosed root p) name ∨
        OfferedWhere root (Enclosed root) name := by
  rw [exported_iff_exists]
  exact exists_mem_preorder_iff (Enclosed root)

theorem format_eq_esm_iff_linked :
    (scriptFacts root).format = .esm ↔
      LinkedWhere root (fun p => ¬ Enclosed root p) ∨ LinkedWhere root (Enclosed root) := by
  rw [format_eq_esm_iff]
  exact exists_mem_preorder_iff (Enclosed root)

/-- The export and import statements inside namespaces, modules and ambient declarations count like
those outside: each name that such a statement introduces is known to be on offer, unless it is
overlooked.  So all names that a script is known to offer are offered outside if and only if all
those that are offered inside are; and a script that is taken for a module has a statement outside
if and only if it does not have all of its statements inside. -/
theorem enclosed_exports_known (hroot : root.IsScript g) :
    (∀ p e name, Enclosed root p → root.at? p = some e → e.kind = .exportStatement →
        Introduces e name → Exported (scriptFacts root) name ∨ Overlooks e name) ∧
      (∀ name, Exported (scriptFacts root) name ↔
        OfferedWhere root (fun p => ¬ Enclosed root p) name ∨
          OfferedWhere root (Enclosed root) name) ∧
      ((∀ name, Exported (scriptFacts root) name →
          OfferedWhere root (fun p => ¬ Enclosed root p) name) ↔
        ∀ name, OfferedWhere root (Enclosed root) name →
          OfferedWhere root (fun p => ¬ Enclosed root p) name) ∧
      ((scriptFacts root).format = .esm ↔
        LinkedWhere root (fun p => ¬ Enclosed root p) ∨ LinkedWhere root (Enclosed root)) ∧
      (((scriptFacts root).format = .esm → LinkedWhere root fun p => ¬ Enclosed root p) ↔
        (LinkedWhere root (Enclosed root) → LinkedWhere root fun p => ¬ Enclosed root p)) := by
  refine ⟨?_, fun name => exported_iff_offered, ?_, format_eq_esm_iff_linked, ?_⟩
  · intro p e name _ he hkind hintroduces
    have hin : e ∈ root.preorder := Tree.mem_preorder_iff.2 ⟨p, he⟩
    refine (hintroduces.offered_or_overlooked hroot hin hkind).imp_left fun hname => ?_
    exact exported_iff_exists.2 ⟨e, hin, hkind, hname⟩
  · refine forall_congr' fun name => ?_
    rw [exported_iff_offered, or_imp, and_iff_right id]
  · rw [format_eq_esm_iff_linked, or_imp, and_iff_right id]

/-- The statement `export const a: number;`. -/
def enclosedExport : Tree :=
  .branch .exportStatement "export const a: number;" [
    .leaf .word "export",
    (Tree.branch .lexicalDeclaration "const a: number;" [
      (Tree.leaf .word "const").playing .kind,
      .branch .variableDeclarator "a: number" [
        (Tree.leaf .identifier "a").playing .name,
        (Tree.branch .annotatedType ": number" [
          .leaf .word ":",
          .branch .predefinedType "number" [.leaf .word "number"]]).playing .type],
      .leaf .word ";"]).playing .declaration]

/-- The module `module "x" { export const a: number; }`. -/
def enclosingModule : Tree :=
  .branch .moduleDeclaration "module \"x\" \x7b export const a: number; \x7d" [
    .leaf .word "module",
    (Tree.branch .string "\"x\"" [
      .leaf .word "\"", .leaf .stringFragment "x", .leaf .word "\""]).playing .name,
    (Tree.branch .statementBlock "\x7b export const a: number; \x7d" [
      .leaf .word "\x7b", enclosedExport, .leaf .word "\x7d"]).playing .body]

/-- The script `declare module "x" { export const a: number; }`. -/
def enclosingScript : Tree :=
  .branch .program "declare module \"x\" \x7b export const a: number; \x7d" [
    .branch .ambientDeclaration "declare module \"x\" \x7b export const a: number; \x7d" [
      .leaf .word "declare", enclosingModule]]

/-- The script `declare module "x" { export const a: number; }` is taken for a module that offers
the name `a`, and has no statement outside of the declaration. -/
theorem enclosed_exports_known_alone :
    enclosingScript.IsScript .typed ∧ (scriptFacts enclosingScript).format = .esm ∧
      (scriptFacts enclosingScript).exports = .known ["a"] ∧
      (¬ LinkedWhere enclosingScript fun p => ¬ Enclosed enclosingScript p) ∧
      ¬ (LinkedWhere enclosingScript (Enclosed enclosingScript) →
        LinkedWhere enclosingScript fun p => ¬ Enclosed enclosingScript p) := by
  have hscript : enclosingScript.IsScript .typed :=
    Tree.isScript_of_recognized 80 (by decide +kernel)
  have hlinks : enclosingScript.places.filter
      (fun p => ((enclosingScript.at? p).map isLink).getD false) = [[0, 1, 2, 1]] := by
    decide +kernel
  have hnone : ¬ LinkedWhere enclosingScript fun p => ¬ Enclosed enclosingScript p := by
    rintro ⟨p, n, houtside, hp, hn⟩
    have hmem : p ∈ enclosingScript.places.filter
        fun p => ((enclosingScript.at? p).map isLink).getD false := by
      refine List.mem_filter.2 ⟨Tree.mem_places_iff.2 ?_, ?_⟩
      · rw [hp]
        rfl
      · rw [hp]
        exact hn
    rw [hlinks, List.mem_singleton] at hmem
    exact houtside ⟨[0], 1, [2, 1], _, hmem, rfl, rfl⟩
  have hformat : (scriptFacts enclosingScript).format = .esm := by decide +kernel
  refine ⟨hscript, hformat, by decide +kernel, hnone, fun himp => hnone ?_⟩
  exact (enclosed_exports_known hscript).2.2.2.2.2 himp hformat

end BundleReach.Facts
