import BundleReach.Facts.Script
import BundleReach.Proofs.Script.Preorder

/-!
# The names that patterns bind

A pattern binds the names in its target places: the elements of an array, the entries of an object,
the value of a pair, what is left of a default value.  The names that an exported declaration offers
are collected without regard to places, by what a node is and what its parent is.  So a name that is
itself the default value of a target is offered, and so are the names of patterns inside default
values and computed keys, while a target by the name `undefined`, which is no identifier to the
grammar, is left out.

* `bindings` — the names that a pattern binds, by the places in it.
* `sightings` — every name that is bound or collected, in reading order, with which of both it is.
* `boundNames_eq`, `bindings_eq` — both lists of names are read off the sightings.
* `exports_eq_declaredBindings_iff` — what is exported is what is bound if and only if nothing is
  lost and nothing strays in.
-/

namespace BundleReach.Facts

open Script

/-! ## Target places -/

/-- Does the child of a node of the given kind stand where what it is, or has in it, is bound? -/
def isTarget (parent : Kind) (t : Tree) : Bool :=
  match parent with
  | .arrayPattern | .restPattern => true
  | .objectPattern =>
    [Kind.pairPattern, .restPattern, .objectAssignmentPattern,
      .shorthandPropertyIdentifierPattern].contains t.kind
  | .pairPattern => t.role == some .value
  | .assignmentPattern => t.role == some .left
  | .objectAssignmentPattern =>
    t.role == some .left &&
      [Kind.shorthandPropertyIdentifierPattern, .objectPattern, .arrayPattern].contains t.kind
  | _ => false

/-- Is a target of this kind a name? -/
def isName (k : Kind) : Bool :=
  [Kind.identifier, .shorthandPropertyIdentifierPattern, .undefinedLiteral].contains k

mutual

/-- The names that a target binds. -/
def bindings : Tree → List String
  | .node l cs => if isName l.kind then [l.text] else bindingsAmong l.kind cs

/-- The names that the children of a target of the given kind bind. -/
def bindingsAmong (parent : Kind) : List Tree → List String
  | [] => []
  | t :: ts => (if isTarget parent t then bindings t else []) ++ bindingsAmong parent ts

end

/-! ## Sightings -/

/-- A name that a pattern binds, or that is collected from it. -/
inductive Sighting where
  /-- Bound and collected. -/
  | bound (name : String)
  /-- Bound, but not collected. -/
  | lost (name : String)
  /-- Collected, but not bound. -/
  | stray (name : String)
  deriving DecidableEq, Repr

namespace Sighting

/-- The name, if it is collected. -/
def collected? : Sighting → Option String
  | bound name | stray name => some name
  | lost _ => none

/-- The name, if it is bound. -/
def binding? : Sighting → Option String
  | bound name | lost name => some name
  | stray _ => none

end Sighting

/-- The sighting of a target itself, which is bound if it is a name. -/
def ownSighting (collected : Bool) (t : Tree) : List Sighting :=
  if isName t.kind then [if collected then .bound t.text else .lost t.text] else []

mutual

/-- The sightings strictly inside a target. -/
def sightingsWithin : Tree → List Sighting
  | .node l cs => sightingsAmong l.kind cs

/-- The sightings in the children of a target of the given kind.  Whatever is collected from other
places than targets is stray. -/
def sightingsAmong (parent : Kind) : List Tree → List Sighting
  | [] => []
  | t :: ts =>
    (if isTarget parent t then ownSighting (t.kind != .undefinedLiteral) t ++ sightingsWithin t
      else (ownName parent t ++ namesWithin t).map Sighting.stray) ++ sightingsAmong parent ts

end

/-- The sightings in what a declarator binds, which is not inside a pattern yet. -/
def sightings (t : Tree) : List Sighting :=
  if t.kind == .identifier then [.bound t.text] else ownSighting false t ++ sightingsWithin t

/-! ## What is collected -/

theorem collected_strays (names : List String) :
    (names.map Sighting.stray).filterMap Sighting.collected? = names := by
  rw [List.filterMap_map]
  exact List.filterMap_some

/-- A name in a target place inside a pattern is collected, unless it is `undefined`. -/
theorem collected_ownSighting {parent : Kind} {t : Tree} (h : isTarget parent t = true) :
    (ownSighting (t.kind != .undefinedLiteral) t).filterMap Sighting.collected? =
      ownName parent t := by
  unfold ownName
  split
  · rename_i hkind
    rw [ownSighting, hkind]
    rfl
  · rename_i hkind
    -- the parents that can have an identifier for a target are those it is collected under
    have hbinds :
        (bindsNames parent && !(parent == .pairPattern && t.role == some .key)) = true := by
      unfold isTarget at h
      split at h <;> simp_all [bindsNames]
    rw [if_pos hbinds, ownSighting, hkind]
    rfl
  · rename_i hshorthand hidentifier
    by_cases hundefined : t.kind = .undefinedLiteral
    · rw [ownSighting, hundefined]
      rfl
    · have hname : isName t.kind = false := by
        simp only [isName, List.contains_cons, List.contains_nil, Bool.or_false,
          Bool.or_eq_false_iff, beq_eq_false_iff_ne]
        exact ⟨hidentifier, hshorthand, hundefined⟩
      rw [ownSighting, hname]
      rfl

mutual

theorem collected_sightingsWithin (t : Tree) :
    (sightingsWithin t).filterMap Sighting.collected? = namesWithin t := by
  cases t with
  | node l cs =>
    rw [sightingsWithin, namesWithin]
    exact collected_sightingsAmong l.kind cs

theorem collected_sightingsAmong (parent : Kind) (ts : List Tree) :
    (sightingsAmong parent ts).filterMap Sighting.collected? = namesAmong parent ts := by
  cases ts with
  | nil => simp only [sightingsAmong, namesAmong, List.filterMap_nil]
  | cons t ts =>
    rw [sightingsAmong, namesAmong, List.filterMap_append, collected_sightingsAmong parent ts]
    congr 1
    by_cases htarget : isTarget parent t = true
    · rw [if_pos htarget, List.filterMap_append, collected_ownSighting htarget,
        collected_sightingsWithin t]
    · rw [if_neg htarget, collected_strays]

end

theorem boundNames_eq (t : Tree) :
    boundNames t = (sightings t).filterMap Sighting.collected? := by
  unfold boundNames sightings
  by_cases hkind : (t.kind == .identifier) = true
  · rw [if_pos hkind, if_pos hkind]
    rfl
  · have hown : (ownSighting false t).filterMap Sighting.collected? = [] := by
      unfold ownSighting
      split <;> rfl
    rw [if_neg hkind, if_neg hkind, List.filterMap_append, hown, collected_sightingsWithin]
    rfl

/-! ## What is bound -/

theorem binding_strays (names : List String) :
    (names.map Sighting.stray).filterMap Sighting.binding? = [] := by
  rw [List.filterMap_map]
  exact List.filterMap_eq_nil_iff.2 fun _ _ => rfl

theorem binding_ownSighting (collected : Bool) (t : Tree) :
    (ownSighting collected t).filterMap Sighting.binding? =
      if isName t.kind then [t.text] else [] := by
  unfold ownSighting
  cases isName t.kind with
  | false => rfl
  | true => cases collected <;> rfl

/-- A name has no targets in it. -/
theorem isTarget_of_isName {k : Kind} (h : isName k = true) (t : Tree) : isTarget k t = false := by
  unfold isName at h
  simp only [List.contains_cons, List.contains_nil, Bool.or_false, Bool.or_eq_true, beq_iff_eq] at h
  rcases h with rfl | rfl | rfl <;> rfl

theorem bindingsAmong_of_isName {k : Kind} (h : isName k = true) (ts : List Tree) :
    bindingsAmong k ts = [] := by
  induction ts with
  | nil => rw [bindingsAmong]
  | cons t ts ih =>
    rw [bindingsAmong, isTarget_of_isName h, ih]
    rfl

/-- A target binds itself, if it is a name, and what the targets in it bind. -/
theorem bindings_eq_append (t : Tree) :
    bindings t =
      (if isName t.kind then [t.text] else []) ++ bindingsAmong t.kind t.children := by
  cases t with
  | node l cs =>
    show bindings (.node l cs) =
      (if isName l.kind then [l.text] else []) ++ bindingsAmong l.kind cs
    rw [bindings]
    by_cases hname : isName l.kind = true
    · rw [if_pos hname, if_pos hname, bindingsAmong_of_isName hname, List.append_nil]
    · rw [if_neg hname, if_neg hname, List.nil_append]

mutual

theorem binding_sightingsWithin (t : Tree) :
    (sightingsWithin t).filterMap Sighting.binding? = bindingsAmong t.kind t.children := by
  cases t with
  | node l cs =>
    rw [sightingsWithin]
    exact binding_sightingsAmong l.kind cs

theorem binding_sightingsAmong (parent : Kind) (ts : List Tree) :
    (sightingsAmong parent ts).filterMap Sighting.binding? = bindingsAmong parent ts := by
  cases ts with
  | nil => simp only [sightingsAmong, bindingsAmong, List.filterMap_nil]
  | cons t ts =>
    rw [sightingsAmong, bindingsAmong, List.filterMap_append, binding_sightingsAmong parent ts]
    congr 1
    by_cases htarget : isTarget parent t = true
    · rw [if_pos htarget, if_pos htarget, List.filterMap_append, binding_ownSighting,
        binding_sightingsWithin t, ← bindings_eq_append]
    · rw [if_neg htarget, if_neg htarget, binding_strays]

end

theorem bindings_eq (t : Tree) : bindings t = (sightings t).filterMap Sighting.binding? := by
  unfold sightings
  by_cases hkind : t.kind = .identifier
  · have hname : isName t.kind = true := by
      rw [hkind]
      rfl
    rw [if_pos (beq_iff_eq.2 hkind), bindings_eq_append, if_pos hname,
      bindingsAmong_of_isName hname]
    rfl
  · rw [if_neg (by rwa [beq_iff_eq]), bindings_eq_append, List.filterMap_append,
      binding_ownSighting, binding_sightingsWithin]

/-! ## Exported declarations of variables -/

/-- What the declarators of a declaration bind. -/
def targets (d : Tree) : List Tree :=
  d.children.filterMap fun c => if c.kind == .variableDeclarator then c.child? .name else none

/-- The names that a declaration binds. -/
def declaredBindings (d : Tree) : List String := (targets d).flatMap bindings

/-- The sightings in a declaration. -/
def declaredSightings (d : Tree) : List Sighting := (targets d).flatMap sightings

/-- A declaration as it is exported declares variables by another one: itself, or the one after
`declare`. -/
inductive DeclaresVariables : Tree → Tree → Prop where
  | itself {d} : d.kind = .lexicalDeclaration ∨ d.kind = .variableDeclaration →
      DeclaresVariables d d
  | ambient {a d} : a.kind = .ambientDeclaration →
      a.children.find? (fun c => isDeclaration c.kind) = some d →
      d.kind = .lexicalDeclaration ∨ d.kind = .variableDeclaration → DeclaresVariables a d

/-- An export statement that exports a declaration of variables. -/
structure ExportsVariables (e d : Tree) : Prop where
  statement : e.kind = .exportStatement
  noSource : e.child? .source = none
  noDefault : e.hasWord "default" = false
  noClause : e.namedChildren.find? (·.kind == .exportClause) = none
  declaration : ∃ a, e.child? .declaration = some a ∧ DeclaresVariables a d

theorem declaratorNames_flatMap (cs : List Tree) :
    cs.flatMap declaratorNames =
      (cs.filterMap fun c =>
        if c.kind == .variableDeclarator then c.child? .name else none).flatMap boundNames := by
  induction cs with
  | nil => rfl
  | cons c cs ih =>
    rw [List.flatMap_cons, ih, declaratorNames]
    by_cases hkind : (c.kind == .variableDeclarator) = true
    · rw [if_pos hkind]
      cases hname : c.child? .name with
      | none => rw [List.filterMap_cons_none (by rw [if_pos hkind, hname])]; rfl
      | some t => rw [List.filterMap_cons_some (by rw [if_pos hkind, hname])]; rfl
    · rw [if_neg hkind, List.filterMap_cons_none (by rw [if_neg hkind]), List.nil_append]

theorem declaredNames_eq_of_variables {d : Tree}
    (h : d.kind = .lexicalDeclaration ∨ d.kind = .variableDeclaration) :
    declaredNames d = (targets d).flatMap boundNames := by
  cases d with
  | node l cs =>
    have hnames : declaredNames (.node l cs) = cs.flatMap declaratorNames := by
      rw [declaredNames]
      rcases h with h | h <;> rw [show l.kind = _ from h]
    rw [hnames, declaratorNames_flatMap]
    rfl

theorem ambientNames_eq (cs : List Tree) :
    ambientNames cs =
      ((cs.find? fun c => isDeclaration c.kind).map declaredNames).getD [] := by
  induction cs with
  | nil => rw [ambientNames]; rfl
  | cons c cs ih =>
    rw [ambientNames]
    by_cases hkind : isDeclaration c.kind = true
    · rw [if_pos hkind, List.find?_cons_of_pos (p := fun c : Tree => isDeclaration c.kind) hkind]
      rfl
    · rw [if_neg hkind, ih,
        List.find?_cons_of_neg (p := fun c : Tree => isDeclaration c.kind) hkind]

theorem DeclaresVariables.declaredNames_eq {a d : Tree} (h : DeclaresVariables a d) :
    isDeclaration a.kind = true ∧ declaredNames a = (targets d).flatMap boundNames := by
  cases h with
  | itself hkind =>
    refine ⟨?_, declaredNames_eq_of_variables hkind⟩
    rcases hkind with hkind | hkind <;> rw [hkind] <;> rfl
  | ambient hambient hfind hkind =>
    refine ⟨by rw [hambient]; rfl, ?_⟩
    rw [← declaredNames_eq_of_variables hkind]
    cases a with
    | node l cs =>
      rw [declaredNames, show l.kind = .ambientDeclaration from hambient]
      show ambientNames cs = _
      rw [ambientNames_eq, show cs.find? _ = some d from hfind]
      rfl

theorem flatMap_boundNames (d : Tree) :
    (targets d).flatMap boundNames = (declaredSightings d).filterMap Sighting.collected? := by
  rw [declaredSightings, List.filterMap_flatMap]
  congr 1
  funext t
  exact boundNames_eq t

/-- What an exported declaration of variables offers is what is collected from its targets. -/
theorem ExportsVariables.exports_eq {e d : Tree} (h : ExportsVariables e d) :
    (contribution e).exports = (declaredSightings d).filterMap Sighting.collected? := by
  obtain ⟨a, hdeclaration, hvariables⟩ := h.declaration
  obtain ⟨hkind, hnames⟩ := hvariables.declaredNames_eq
  have hexports : (contribution e).exports = declaredNames a := by
    simp only [contribution, h.statement, exportContribution, h.noSource, localExports,
      h.noDefault, h.noClause, hdeclaration, hkind, if_true, Bool.false_eq_true, if_false]
  rw [hexports, hnames, flatMap_boundNames]

theorem declaredBindings_eq (d : Tree) :
    declaredBindings d = (declaredSightings d).filterMap Sighting.binding? := by
  rw [declaredBindings, declaredSightings, List.filterMap_flatMap]
  congr 1
  funext t
  exact bindings_eq t

/-! ## Where both agree -/

theorem count_collected (seen : List Sighting) (name : String) :
    (seen.filterMap Sighting.collected?).count name =
      seen.count (.bound name) + seen.count (.stray name) := by
  induction seen with
  | nil => rfl
  | cons s seen ih =>
    cases s with
    | bound other => simp [Sighting.collected?, List.count_cons, ih]; omega
    | lost other => simp [List.filterMap_cons, Sighting.collected?, ih]
    | stray other => simp [Sighting.collected?, List.count_cons, ih]; omega

theorem count_binding (seen : List Sighting) (name : String) :
    (seen.filterMap Sighting.binding?).count name =
      seen.count (.bound name) + seen.count (.lost name) := by
  induction seen with
  | nil => rfl
  | cons s seen ih =>
    cases s with
    | bound other => simp [Sighting.binding?, List.count_cons, ih]; omega
    | lost other => simp [Sighting.binding?, List.count_cons, ih]; omega
    | stray other => simp [List.filterMap_cons, Sighting.binding?, ih]

/-- The same names are collected and bound, order aside, if and only if each is lost as often as it
is stray. -/
theorem collected_perm_binding_iff {seen : List Sighting} :
    (seen.filterMap Sighting.collected?).Perm (seen.filterMap Sighting.binding?) ↔
      ∀ name, seen.count (.lost name) = seen.count (.stray name) := by
  rw [List.perm_iff_count]
  refine forall_congr' fun name => ?_
  rw [count_collected, count_binding, Nat.add_left_cancel_iff, eq_comm]

/-- Unless some name is lost in one place and stray in another, the same names are collected and
bound if and only if none is lost and none is stray. -/
theorem collected_eq_binding_iff {seen : List Sighting}
    (hapart : ∀ name, .lost name ∈ seen → .stray name ∉ seen) :
    seen.filterMap Sighting.collected? = seen.filterMap Sighting.binding? ↔
      ∀ name, .lost name ∉ seen ∧ .stray name ∉ seen := by
  constructor
  · intro heq name
    have hcount := collected_perm_binding_iff.1 (.of_eq heq) name
    have hnone : .lost name ∉ seen := by
      intro hlost
      have hpos := List.count_pos_iff.2 hlost
      rw [hcount, List.count_eq_zero_of_not_mem (hapart name hlost)] at hpos
      cases hpos
    rw [List.count_eq_zero_of_not_mem hnone] at hcount
    exact ⟨hnone, List.count_eq_zero.1 hcount.symm⟩
  · intro hnone
    refine List.filterMap_congr fun s hs => ?_
    cases s with
    | bound name => rfl
    | lost name => exact absurd hs (hnone name).1
    | stray name => exact absurd hs (hnone name).2

/-- An exported declaration of variables offers the names that it binds, order aside, if and only if
each is lost as often as it strays in.  It offers them in order if and only if none is lost and none
strays in, unless one that strays in stands in for one of the same name that is lost. -/
theorem exports_eq_declaredBindings_iff {e d : Tree} (h : ExportsVariables e d) :
    ((contribution e).exports.Perm (declaredBindings d) ↔
      ∀ name, (declaredSightings d).count (.lost name) =
        (declaredSightings d).count (.stray name)) ∧
    ((∀ name, .lost name ∈ declaredSightings d → .stray name ∉ declaredSightings d) →
      ((contribution e).exports = declaredBindings d ↔
        ∀ name, .lost name ∉ declaredSightings d ∧ .stray name ∉ declaredSightings d)) := by
  rw [h.exports_eq, declaredBindings_eq]
  exact ⟨collected_perm_binding_iff, collected_eq_binding_iff⟩

/-- The declaration in `export const [a = fallback] = o;`. -/
def defaultedDeclaration : Tree :=
  .branch .lexicalDeclaration "const [a = fallback] = o;" [
    (Tree.leaf .word "const").playing .kind,
    .branch .variableDeclarator "[a = fallback] = o" [
      (Tree.branch .arrayPattern "[a = fallback]" [
        .leaf .word "[",
        .branch .assignmentPattern "a = fallback" [
          (Tree.leaf .identifier "a").playing .left,
          .leaf .word "=",
          (Tree.leaf .identifier "fallback").playing .right],
        .leaf .word "]"]).playing .name,
      .leaf .word "=",
      (Tree.leaf .identifier "o").playing .value],
    .leaf .word ";"]

/-- The statement `export const [a = fallback] = o;`. -/
def defaultedExport : Tree :=
  .branch .exportStatement "export const [a = fallback] = o;" [
    .leaf .word "export", defaultedDeclaration.playing .declaration]

theorem exports_ne_declaredBindings_defaulted :
    ExportsVariables defaultedExport (defaultedDeclaration.playing .declaration) ∧
      declaredBindings (defaultedDeclaration.playing .declaration) = ["a"] ∧
      (contribution defaultedExport).exports ≠
        declaredBindings (defaultedDeclaration.playing .declaration) := by
  have hexports : ExportsVariables defaultedExport (defaultedDeclaration.playing .declaration) :=
    ⟨rfl, rfl, rfl, rfl, _, rfl, .itself (.inl rfl)⟩
  have hseen : declaredSightings (defaultedDeclaration.playing .declaration) =
      [.bound "a", .stray "fallback"] := by
    decide
  have hlost : ∀ name,
      .lost name ∉ declaredSightings (defaultedDeclaration.playing .declaration) := by
    rw [hseen]
    intro name hname
    simp at hname
  have hiff := (exports_eq_declaredBindings_iff hexports).2 fun name h => absurd h (hlost name)
  refine ⟨hexports, by decide, fun heq => (hiff.1 heq "fallback").2 ?_⟩
  rw [hseen]
  decide

end BundleReach.Facts
