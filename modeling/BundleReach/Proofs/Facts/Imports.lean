import BundleReach.Proofs.Facts.Statements
import BundleReach.Proofs.Script.Preorder

/-!
# Where a script refers to other modules

An import statement, an export statement that names a module, and a call of `import` or `require`
with a literal first argument refer to a module; where in the tree they stand makes no difference.
The references of a script are those of its sites, one for each, in reading order, whatever other
sites a site is nested in.

* `RefersTo` — which nodes refer to which module, how, and with which names.
* `RefersTo.unique`, `reference?_eq_some_iff` — a node refers to one module at most, the one that it
  contributes.
* `imports_in_reading_order` — the references of a script are those of its sites, in order.
-/

namespace BundleReach.Facts

open Script

/-! ## What refers to a module -/

/-- A string, or a template without substitutions, with the text between its quotes. -/
inductive Literal (t : Tree) : String → Prop where
  | string : t.kind = .string → Literal t (inner t.text)
  | template : t.kind = .templateString → (∀ c ∈ t.children, c.kind ≠ .templateSubstitution) →
      Literal t (inner t.text)

/-- The first named node among the arguments of a call, whatever it is. -/
def FirstArgument (call a : Tree) : Prop :=
  ∃ args, call.child? .arguments = some args ∧ args.namedChildren.head? = some a

/-- The names that some nodes take from another module, in the order in which they are written. -/
def InOrder (Takes : Tree → List String → Prop) (ts : List Tree) (names : List String) : Prop :=
  ∃ parts, List.Forall₂ Takes ts parts ∧ names = parts.flatten

/-- The name that an entry between braces takes, which is not its local name. -/
inductive EntryTakes (k : Kind) (e : Tree) : List String → Prop where
  | named {name} : e.kind = k → e.hasWord "type" = false → e.child? .name = some name →
      EntryTakes k e [unquoted name.text]
  | typeOnly : e.kind = k → e.hasWord "type" = true → EntryTakes k e []
  | nameless : e.kind = k → e.child? .name = none → EntryTakes k e []
  | other : e.kind ≠ k → EntryTakes k e []

/-- The names that a part of an import clause takes. -/
inductive PartTakes (part : Tree) : List String → Prop where
  | default : part.kind = .identifier → PartTakes part ["default"]
  | namespace : part.kind = .namespaceImport → PartTakes part ["*"]
  | braces {names} : part.kind = .namedImports →
      InOrder (EntryTakes .importSpecifier) part.namedChildren names → PartTakes part names
  | other : part.kind ≠ .identifier → part.kind ≠ .namespaceImport → part.kind ≠ .namedImports →
      PartTakes part []

/-- The names that a child of an import statement takes. -/
inductive ClauseTakes (c : Tree) : List String → Prop where
  | clause {names} : c.kind = .importClause → InOrder PartTakes c.namedChildren names →
      ClauseTakes c names
  | other : c.kind ≠ .importClause → ClauseTakes c []

/-- The names that an import statement takes. -/
inductive ImportTakes (t : Tree) : List String → Prop where
  | values {names} : t.hasWord "type" = false → InOrder ClauseTakes t.children names →
      ImportTakes t names
  | typeOnly : t.hasWord "type" = true → ImportTakes t []

/-- The names that an export statement takes from the module it names. -/
inductive ReexportTakes (t : Tree) : List String → Prop where
  | clause {c names} : t.namedChildren.find? (·.kind == .exportClause) = some c →
      t.hasWord "type" = false → InOrder (EntryTakes .exportSpecifier) c.namedChildren names →
      ReexportTakes t names
  | typeOnly {c} : t.namedChildren.find? (·.kind == .exportClause) = some c →
      t.hasWord "type" = true → ReexportTakes t []
  | namespace {n} : t.namedChildren.find? (·.kind == .exportClause) = none →
      t.namedChildren.find? (·.kind == .namespaceExport) = some n → ReexportTakes t []
  | star : t.namedChildren.find? (·.kind == .exportClause) = none →
      t.namedChildren.find? (·.kind == .namespaceExport) = none → ReexportTakes t ["*"]

/-- A node refers to a module by itself.  The grammars let only a string be the source of a
statement. -/
inductive RefersTo (t : Tree) : ImportRef → Prop where
  | statement {source s names} : t.kind = .importStatement → t.child? .source = some source →
      Literal source s → ImportTakes t names → RefersTo t ⟨s, .static, names, t.line⟩
  | reexport {source s names} : t.kind = .exportStatement → t.child? .source = some source →
      Literal source s → ReexportTakes t names → RefersTo t ⟨s, .reexport, names, t.line⟩
  | importCall {f a s} : t.kind = .callExpression → t.child? .function = some f →
      f.kind = .importValue → FirstArgument t a → Literal a s →
      RefersTo t ⟨s, .dynamic, ["*"], t.line⟩
  | requireCall {f a s} : t.kind = .callExpression → t.child? .function = some f →
      f.kind = .identifier → f.text = "require" → FirstArgument t a → Literal a s →
      RefersTo t ⟨s, .static, ["*"], t.line⟩

/-! ## Texts and names -/

theorem literal?_eq_some_iff {t : Tree} {s : String} : literal? t = some s ↔ Literal t s := by
  unfold literal?
  constructor
  · intro h
    split at h
    · cases h
      exact .string ‹_›
    · split at h
      · cases h
      · rename_i hkind hany
        cases h
        refine .template hkind fun c hc hsubstitution => hany ?_
        exact List.any_eq_true.2 ⟨c, hc, beq_iff_eq.2 hsubstitution⟩
    · cases h
  · rintro (hkind | ⟨hkind, hall⟩)
    · rw [hkind]
    · have hany : t.children.any (fun c => c.kind == .templateSubstitution) = false := by
        refine List.any_eq_false.2 fun c hc hsubstitution => hall c hc (beq_iff_eq.1 hsubstitution)
      rw [hkind]
      simp only [hany, Bool.false_eq_true, if_false]

theorem literalArgument?_eq_some_iff {call : Tree} {s : String} :
    literalArgument? call = some s ↔ ∃ a, FirstArgument call a ∧ Literal a s := by
  unfold literalArgument? FirstArgument
  rw [Option.bind_eq_some_iff]
  simp only [Option.bind_eq_some_iff, literal?_eq_some_iff]

/-- Where each node takes the names that a function tells, several take them one after another. -/
theorem inOrder_iff {Takes : Tree → List String → Prop} {f : Tree → List String}
    (h : ∀ t names, Takes t names ↔ names = f t) {ts : List Tree} {names : List String} :
    InOrder Takes ts names ↔ names = ts.flatMap f := by
  have hparts : ∀ parts, List.Forall₂ Takes ts parts ↔ parts = ts.map f := by
    induction ts with
    | nil => intro parts; rw [List.forall₂_nil_left_iff, List.map_nil]
    | cons t ts ih =>
      intro parts
      rw [List.forall₂_cons_left_iff, List.map_cons]
      constructor
      · rintro ⟨part, rest, hpart, hrest, rfl⟩
        rw [(h t part).1 hpart, (ih rest).1 hrest]
      · rintro rfl
        exact ⟨f t, ts.map f, (h t _).2 rfl, (ih _).2 rfl, rfl⟩
  unfold InOrder
  simp only [hparts, exists_eq_left, List.flatMap]

/-- The name that an entry of some kind takes, if it takes one. -/
def entryName? (k : Kind) (e : Tree) : Option String :=
  if e.kind == k && !isTypeOnly e then (e.child? .name).map (unquoted ·.text) else none

theorem entryTakes_iff (k : Kind) (e : Tree) (names : List String) :
    EntryTakes k e names ↔ names = (entryName? k e).toList := by
  unfold entryName? isTypeOnly
  constructor
  · rintro (⟨hkind, htype, hname⟩ | ⟨hkind, htype⟩ | ⟨hkind, hname⟩ | hkind)
    · simp only [hkind, htype, hname, beq_self_eq_true, Bool.not_false, Bool.and_self, if_true]
      rfl
    · simp only [htype, Bool.not_true, Bool.and_false, Bool.false_eq_true, if_false]
      rfl
    · rw [hname, Option.map_none, ite_self]
      rfl
    · rw [beq_false_of_ne hkind, Bool.false_and, if_neg Bool.false_ne_true]
      rfl
  · rintro rfl
    by_cases hkind : e.kind = k
    · rw [hkind, beq_self_eq_true, Bool.true_and]
      cases htype : e.hasWord "type" with
      | true => exact .typeOnly hkind htype
      | false =>
        cases hname : e.child? .name with
        | none => exact .nameless hkind hname
        | some name => exact .named hkind htype hname
    · rw [beq_false_of_ne hkind, Bool.false_and, if_neg Bool.false_ne_true]
      exact .other hkind

theorem inOrder_entryTakes_iff {k : Kind} {es : List Tree} {names : List String} :
    InOrder (EntryTakes k) es names ↔ names = es.filterMap (entryName? k) := by
  rw [List.filterMap_eq_flatMap_toList]
  exact inOrder_iff (entryTakes_iff k)

theorem partTakes_iff (part : Tree) (names : List String) :
    PartTakes part names ↔ names = partNames part := by
  unfold partNames
  constructor
  · rintro (hkind | hkind | ⟨hkind, hnames⟩ | ⟨hidentifier, hnamespace, hbraces⟩)
    · rw [hkind]
    · rw [hkind]
    · rw [hkind]
      exact inOrder_entryTakes_iff.1 hnames
    · split
      · exact absurd ‹_› hidentifier
      · exact absurd ‹_› hnamespace
      · exact absurd ‹_› hbraces
      · rfl
  · rintro rfl
    split
    · exact .default ‹_›
    · exact .namespace ‹_›
    · exact .braces ‹_› (inOrder_entryTakes_iff.2 rfl)
    · exact .other ‹_› ‹_› ‹_›

theorem clauseTakes_iff (c : Tree) (names : List String) :
    ClauseTakes c names ↔
      names = if c.kind == .importClause then c.namedChildren.flatMap partNames else [] := by
  constructor
  · rintro (⟨hkind, hnames⟩ | hkind)
    · rw [hkind, beq_self_eq_true, if_pos rfl]
      exact (inOrder_iff partTakes_iff).1 hnames
    · rw [beq_false_of_ne hkind, if_neg Bool.false_ne_true]
  · rintro rfl
    by_cases hkind : c.kind = .importClause
    · rw [hkind, beq_self_eq_true, if_pos rfl]
      exact .clause hkind ((inOrder_iff partTakes_iff).2 rfl)
    · rw [beq_false_of_ne hkind, if_neg Bool.false_ne_true]
      exact .other hkind

theorem flatMap_filter {α β : Type} (p : α → Bool) (f : α → List β) (l : List α) :
    (l.filter p).flatMap f = l.flatMap fun a => if p a then f a else [] := by
  induction l with
  | nil => rfl
  | cons a l ih =>
    rw [List.flatMap_cons, ← ih, List.filter_cons]
    by_cases hp : p a = true
    · rw [if_pos hp, if_pos hp, List.flatMap_cons]
    · rw [if_neg hp, if_neg hp, List.nil_append]

theorem importTakes_iff {t : Tree} {names : List String} :
    ImportTakes t names ↔ names = importNames t := by
  have hclauses : InOrder ClauseTakes t.children names ↔
      names = (t.children.filter (·.kind == .importClause)).flatMap fun c =>
        c.namedChildren.flatMap partNames := by
    rw [flatMap_filter]
    exact inOrder_iff clauseTakes_iff
  unfold importNames isTypeOnly
  constructor
  · rintro (⟨htype, hnames⟩ | htype)
    · rw [htype, if_neg Bool.false_ne_true]
      exact hclauses.1 hnames
    · rw [htype, if_pos rfl]
  · cases htype : t.hasWord "type" with
    | true =>
      rintro rfl
      exact .typeOnly htype
    | false =>
      intro hnames
      rw [if_neg Bool.false_ne_true] at hnames
      exact .values htype (hclauses.2 hnames)

theorem reexportTakes_iff {t : Tree} {names : List String} :
    ReexportTakes t names ↔ names = (reexportedNames t).1 := by
  unfold reexportedNames isTypeOnly
  constructor
  · rintro (⟨hclause, htype, hnames⟩ | ⟨hclause, htype⟩ | ⟨hclause, hnamespace⟩ |
      ⟨hclause, hnamespace⟩)
    · rw [hclause, htype]
      exact inOrder_entryTakes_iff.1 hnames
    · rw [hclause, htype]
      rfl
    · rw [hclause, hnamespace]
    · rw [hclause, hnamespace]
  · rintro rfl
    cases hclause : t.namedChildren.find? (·.kind == .exportClause) with
    | some c =>
      cases htype : t.hasWord "type" with
      | true => exact .typeOnly hclause htype
      | false => exact .clause hclause htype (inOrder_entryTakes_iff.2 rfl)
    | none =>
      cases hnamespace : t.namedChildren.find? (·.kind == .namespaceExport) with
      | some n => exact .namespace hclause hnamespace
      | none => exact .star hclause hnamespace

/-! ## What a node contributes -/

/-- A call of `import`. -/
def IsImportCall (t : Tree) : Prop := ∃ f, t.child? .function = some f ∧ f.kind = .importValue

/-- A call of `require`. -/
def IsRequireCall (t : Tree) : Prop :=
  ∃ f, t.child? .function = some f ∧ f.kind = .identifier ∧ f.text = "require"

theorem imports_of_importStatement {t : Tree} (h : t.kind = .importStatement) :
    (contribution t).imports = (((t.child? .source).bind literal?).map fun s =>
      ImportRef.mk s .static (importNames t) t.line).toList := by
  rw [contribution, h]
  rfl

theorem imports_of_exportStatement {t : Tree} (h : t.kind = .exportStatement) :
    (contribution t).imports = (((t.child? .source).bind literal?).map fun s =>
      ImportRef.mk s .reexport (reexportedNames t).1 t.line).toList := by
  rw [contribution, h]
  show (exportContribution t).imports = _
  unfold exportContribution
  cases t.child? .source with
  | none => rfl
  | some source => rfl

theorem callContribution_of_importCall {t : Tree} (h : IsImportCall t) :
    callContribution t = { imports := ((literalArgument? t).map fun s =>
      ImportRef.mk s .dynamic ["*"] t.line).toList } := by
  obtain ⟨f, hf, hkind⟩ := h
  unfold callContribution
  rw [hf]
  show (if f.kind == .importValue then _ else _) = _
  rw [hkind, beq_self_eq_true, if_pos rfl]

theorem callContribution_of_requireCall {t : Tree} (h : IsRequireCall t) :
    callContribution t =
      { imports := ((literalArgument? t).map fun s =>
          ImportRef.mk s .static ["*"] t.line).toList
        cjs := (literalArgument? t).isSome } := by
  obtain ⟨f, hf, hkind, htext⟩ := h
  unfold callContribution
  rw [hf]
  show (if f.kind == .importValue then _ else if f.kind == .identifier && f.text == "require" then _
    else _) = _
  rw [hkind, htext, if_neg (by decide), if_pos (by decide)]
  cases literalArgument? t with
  | none => rfl
  | some s => rfl

theorem callContribution_of_other {t : Tree} (himport : ¬ IsImportCall t)
    (hrequire : ¬ IsRequireCall t) : callContribution t = .empty := by
  unfold callContribution
  cases hf : t.child? .function with
  | none => rfl
  | some f =>
    show (if f.kind == .importValue then _
      else if f.kind == .identifier && f.text == "require" then _ else _) = _
    rw [if_neg, if_neg]
    · intro h
      obtain ⟨hkind, htext⟩ := Bool.and_eq_true_iff.1 h
      exact hrequire ⟨f, hf, beq_iff_eq.1 hkind, beq_iff_eq.1 htext⟩
    · intro hkind
      exact himport ⟨f, hf, beq_iff_eq.1 hkind⟩

theorem imports_of_callExpression {t : Tree} (h : t.kind = .callExpression) :
    (contribution t).imports = (callContribution t).imports := by
  rw [contribution, h]

theorem imports_of_other {t : Tree} (himport : t.kind ≠ .importStatement)
    (hexport : t.kind ≠ .exportStatement) (hcall : t.kind ≠ .callExpression) :
    (contribution t).imports = [] := by
  unfold contribution
  split
  · exact absurd ‹_› himport
  · exact absurd ‹_› hexport
  · exact absurd ‹_› hcall
  · rfl
  · rfl

/-- What a node contributes is one reference at most, and one that it makes. -/
theorem exists_imports_eq_toList (t : Tree) :
    ∃ o : Option ImportRef, (contribution t).imports = o.toList ∧
      ∀ ref, o = some ref → RefersTo t ref := by
  by_cases himport : t.kind = .importStatement
  · refine ⟨_, imports_of_importStatement himport, fun ref href => ?_⟩
    obtain ⟨s, hs, rfl⟩ := Option.map_eq_some_iff.1 href
    obtain ⟨source, hsource, hliteral⟩ := Option.bind_eq_some_iff.1 hs
    exact .statement himport hsource (literal?_eq_some_iff.1 hliteral) (importTakes_iff.2 rfl)
  by_cases hexport : t.kind = .exportStatement
  · refine ⟨_, imports_of_exportStatement hexport, fun ref href => ?_⟩
    obtain ⟨s, hs, rfl⟩ := Option.map_eq_some_iff.1 href
    obtain ⟨source, hsource, hliteral⟩ := Option.bind_eq_some_iff.1 hs
    exact .reexport hexport hsource (literal?_eq_some_iff.1 hliteral) (reexportTakes_iff.2 rfl)
  by_cases hcall : t.kind = .callExpression
  · rw [imports_of_callExpression hcall]
    by_cases hdynamic : IsImportCall t
    · rw [callContribution_of_importCall hdynamic]
      refine ⟨_, rfl, fun ref href => ?_⟩
      obtain ⟨s, hs, rfl⟩ := Option.map_eq_some_iff.1 href
      obtain ⟨a, hfirst, hliteral⟩ := literalArgument?_eq_some_iff.1 hs
      obtain ⟨f, hf, hkind⟩ := hdynamic
      exact .importCall hcall hf hkind hfirst hliteral
    by_cases hrequire : IsRequireCall t
    · rw [callContribution_of_requireCall hrequire]
      refine ⟨_, rfl, fun ref href => ?_⟩
      obtain ⟨s, hs, rfl⟩ := Option.map_eq_some_iff.1 href
      obtain ⟨a, hfirst, hliteral⟩ := literalArgument?_eq_some_iff.1 hs
      obtain ⟨f, hf, hkind, htext⟩ := hrequire
      exact .requireCall hcall hf hkind htext hfirst hliteral
    · rw [callContribution_of_other hdynamic hrequire]
      exact ⟨none, rfl, nofun⟩
  · exact ⟨none, imports_of_other himport hexport hcall, nofun⟩

/-- A reference that a node makes is one that it contributes. -/
theorem RefersTo.mem_imports {t : Tree} {ref : ImportRef} (h : RefersTo t ref) :
    ref ∈ (contribution t).imports := by
  cases h with
  | statement hkind hsource hliteral hnames =>
    rw [imports_of_importStatement hkind, hsource, importTakes_iff.1 hnames, Option.bind_some,
      literal?_eq_some_iff.2 hliteral]
    exact List.mem_singleton_self _
  | reexport hkind hsource hliteral hnames =>
    rw [imports_of_exportStatement hkind, hsource, reexportTakes_iff.1 hnames, Option.bind_some,
      literal?_eq_some_iff.2 hliteral]
    exact List.mem_singleton_self _
  | importCall hkind hf hvalue hfirst hliteral =>
    rw [imports_of_callExpression hkind, callContribution_of_importCall ⟨_, hf, hvalue⟩,
      literalArgument?_eq_some_iff.2 ⟨_, hfirst, hliteral⟩]
    exact List.mem_singleton_self _
  | requireCall hkind hf hidentifier htext hfirst hliteral =>
    rw [imports_of_callExpression hkind,
      callContribution_of_requireCall ⟨_, hf, hidentifier, htext⟩,
      literalArgument?_eq_some_iff.2 ⟨_, hfirst, hliteral⟩]
    exact List.mem_singleton_self _

/-- The module that a node refers to, if it refers to one. -/
def reference? (t : Tree) : Option ImportRef := (contribution t).imports.head?

theorem imports_eq_toList (t : Tree) : (contribution t).imports = (reference? t).toList := by
  unfold reference?
  obtain ⟨o, ho, -⟩ := exists_imports_eq_toList t
  rw [ho]
  cases o with
  | none => rfl
  | some ref => rfl

theorem reference?_eq_some_iff {t : Tree} {ref : ImportRef} :
    reference? t = some ref ↔ RefersTo t ref := by
  constructor
  · intro h
    obtain ⟨o, ho, hrefers⟩ := exists_imports_eq_toList t
    rw [reference?, ho] at h
    cases o with
    | none => cases h
    | some ref' => exact hrefers ref h
  · intro h
    have hmem := h.mem_imports
    rwa [imports_eq_toList, Option.mem_toList] at hmem

/-- A node refers to one module at most. -/
theorem RefersTo.unique {t : Tree} {ref ref' : ImportRef} (h : RefersTo t ref)
    (h' : RefersTo t ref') : ref = ref' := by
  rw [← reference?_eq_some_iff] at h h'
  exact Option.some_inj.1 (h.symm.trans h')

/-! ## All references of a script -/

theorem imports_scriptFacts (t : Tree) :
    (scriptFacts t).imports = t.preorder.filterMap reference? := by
  rw [imports_scriptFacts_eq, statements, foldr_contributions, List.filterMap_eq_flatMap_toList]
  show (t.preorder.flatMap fun n => (contribution n).imports) = _
  congr 1
  funext n
  exact imports_eq_toList n

/-- Is there a node at the place, and does it refer to a module? -/
def isSite (t : Tree) (p : List Nat) : Bool := ((t.at? p).bind reference?).isSome

/-- The places in a tree from which it refers to modules, in reading order. -/
def sites (t : Tree) : List (List Nat) := t.places.filter (isSite t)

theorem isSite_iff {t : Tree} {p : List Nat} :
    isSite t p = true ↔ ∃ n ref, t.at? p = some n ∧ RefersTo n ref := by
  unfold isSite
  constructor
  · intro h
    obtain ⟨ref, href⟩ := Option.isSome_iff_exists.1 h
    obtain ⟨n, hn, href⟩ := Option.bind_eq_some_iff.1 href
    exact ⟨n, ref, hn, reference?_eq_some_iff.1 href⟩
  · rintro ⟨n, ref, hn, href⟩
    rw [hn, Option.bind_some, reference?_eq_some_iff.2 href]
    rfl

theorem mem_sites_iff {t : Tree} {p : List Nat} :
    p ∈ sites t ↔ ∃ n ref, t.at? p = some n ∧ RefersTo n ref := by
  rw [sites, List.mem_filter, isSite_iff, Tree.mem_places_iff]
  constructor
  · exact And.right
  · rintro ⟨n, ref, hn, href⟩
    exact ⟨Option.isSome_iff_exists.2 ⟨n, hn⟩, n, ref, hn, href⟩

theorem isSite_eq {t n : Tree} {p : List Nat} (h : t.at? p = some n) :
    isSite t p = (reference? n).isSome := by
  rw [isSite, h, Option.bind_some]

/-- Leaving out the places and the nodes that refer to nothing leaves a reference for each place. -/
theorem forall₂_references {t : Tree} {ps : List (List Nat)} {ns : List Tree}
    (h : List.Forall₂ (fun p n => t.at? p = some n) ps ns) :
    List.Forall₂ (fun p ref => ∃ n, t.at? p = some n ∧ RefersTo n ref) (ps.filter (isSite t))
      (ns.filterMap reference?) := by
  induction h with
  | nil => exact .nil
  | @cons p n ps ns hp hrest ih =>
    rw [List.filter_cons, isSite_eq hp]
    cases href : reference? n with
    | none =>
      rw [List.filterMap_cons_none href, Option.isSome_none, if_neg Bool.false_ne_true]
      exact ih
    | some ref =>
      rw [List.filterMap_cons_some href, Option.isSome_some, if_pos rfl]
      exact .cons ⟨n, hp, reference?_eq_some_iff.1 href⟩ ih

/-- How a script refers to modules: the sites are all places that refer to one, each of them once
and in the order in which a loop over the tree visits them, and there is one reference for each. -/
structure VisitsSites (t : Tree) (sites : List (List Nat)) (refs : List ImportRef) : Prop where
  complete : ∀ p, p ∈ sites ↔ ∃ n ref, t.at? p = some n ∧ RefersTo n ref
  increasing : sites.Pairwise (· < ·)
  visited : ∀ visited, Tree.Walks [t] visited →
    ∃ nodes, nodes.Sublist visited ∧ List.Forall₂ (fun p n => t.at? p = some n) sites nodes
  references : List.Forall₂ (fun p ref => ∃ n, t.at? p = some n ∧ RefersTo n ref) sites refs

/-- The references of a script are exactly those of the nodes that refer to a module by themselves,
one for each, in the recursive preorder of the tree, and so in the order in which the nodes
start. -/
theorem imports_in_reading_order (t : Tree) :
    VisitsSites t (sites t) (scriptFacts t).imports ∧
      (∀ n ref ref', RefersTo n ref → RefersTo n ref' → ref = ref') ∧
      ∀ start stop, t.Layout start stop → (sites t).Pairwise fun p q => start p ≤ start q := by
  have hincreasing : (sites t).Pairwise (· < ·) := t.pairwise_places.filter _
  refine ⟨⟨fun p => mem_sites_iff, hincreasing, ?_, ?_⟩, fun n ref ref' => RefersTo.unique, ?_⟩
  · intro visited hwalk
    rw [Tree.walks_singleton_iff.1 hwalk]
    refine ⟨t.preorder.filter fun n => (reference? n).isSome, List.filter_sublist, ?_⟩
    refine List.rel_filter ?_ t.forall₂_places
    intro p n hp
    show isSite t p = true ↔ (reference? n).isSome = true
    rw [isSite_eq hp]
  · rw [imports_scriptFacts]
    exact forall₂_references t.forall₂_places
  · intro start stop hlayout
    refine hincreasing.imp_of_mem fun {p q} hp hq hpq => hlayout.start_le ?_ ?_ hpq
    · exact Tree.mem_places_iff.1 (List.mem_of_mem_filter hp)
    · exact Tree.mem_places_iff.1 (List.mem_of_mem_filter hq)

end BundleReach.Facts
