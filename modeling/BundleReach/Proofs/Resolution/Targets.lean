import BundleReach.Resolution.Exports

/-!
# The file that a target leads to

A target may be a list of targets or a choice among conditions, in one another to any depth.  A list
is gone through until an item leads to a file.  A choice goes by the first condition that it names,
and if that one leads nowhere, the others are not tried.  So a target may offer a file without
leading to one.

* `Exports.Offers` — the files that can be reached from a target by items and conditions;
  `Exports.Yields` — those that are reached where every choice goes by its first condition.
* `Exports.exists_pickTarget_iff` — a target leads to a file just if it yields one.
* `Exports.DeadChoice` — a choice that offers a file though its first condition does not.
* `Exports.pickTarget_complete_unless_dead_choice` — all that is within a target leads to a file
  where it offers one, just if no choice within it is dead.
-/

namespace BundleReach

/-- What holds of lists and objects if it holds of all that they hold, and of every other value,
holds of all values. -/
theorem Json.nested_induction {motive : Json → Prop}
    (list : ∀ items, (∀ item ∈ items, motive item) → motive (.list items))
    (object : ∀ members, (∀ m ∈ members, motive m.2) → motive (.object members))
    (other : ∀ t, (∀ items, t ≠ .list items) → (∀ members, t ≠ .object members) → motive t)
    (t : Json) : motive t := by
  match t with
  | .list items =>
    refine list items fun item hitem => ?_
    have hsize := List.sizeOf_lt_of_mem hitem
    exact nested_induction list object other item
  | .object members =>
    refine object members fun m hm => ?_
    have hsize := List.sizeOf_lt_of_mem hm
    have hvalue : sizeOf m.2 < sizeOf m := by
      obtain ⟨name, value⟩ := m
      simp only [Prod.mk.sizeOf_spec]
      omega
    exact nested_induction list object other m.2
  | .null | .bool _ | .int _ | .float _ | .text _ => exact other _ (by simp) (by simp)
termination_by sizeOf t
decreasing_by
  · simp only [Json.list.sizeOf_spec]
    omega
  · simp only [Json.object.sizeOf_spec]
    omega

namespace Exports

variable {t target : Json} {items : List Json} {members : List (String × Json)} {file : String}

/-! ## What a target offers and yields -/

/-- The conditions that a choice may go by, those that come before others first. -/
def conditions : List String := ["import", "browser", "default"]

/-- What a choice names for the first of the conditions that it names. -/
def firstNamed? (members : List (String × Json)) : Option Json :=
  conditions.findSome? fun name => Table.find? name members

/-- A file can be reached from a target: through any items of lists, and through any conditions that
choices name. -/
inductive Offers : Json → String → Prop where
  | text {file : String} : Offers (.text file) file
  | item {items : List Json} {item : Json} {file : String} (mem : item ∈ items)
      (offered : Offers item file) : Offers (.list items) file
  | member {members : List (String × Json)} {name : String} {target : Json} {file : String}
      (condition : name ∈ conditions) (named : Table.find? name members = some target)
      (offered : Offers target file) : Offers (.object members) file

/-- A file can be reached from a target where every choice goes by the first condition that it
names. -/
inductive Yields : Json → String → Prop where
  | text {file : String} : Yields (.text file) file
  | item {items : List Json} {item : Json} {file : String} (mem : item ∈ items)
      (yielded : Yields item file) : Yields (.list items) file
  | first {members : List (String × Json)} {target : Json} {file : String}
      (named : firstNamed? members = some target) (yielded : Yields target file) :
      Yields (.object members) file

theorem exists_of_firstNamed? (h : firstNamed? members = some target) :
    ∃ name ∈ conditions, Table.find? name members = some target :=
  List.exists_of_findSome?_eq_some h

/-- A choice that names a condition has a first one. -/
theorem exists_firstNamed? {name : String} (hname : name ∈ conditions)
    (h : Table.find? name members = some target) : ∃ first, firstNamed? members = some first := by
  refine Option.isSome_iff_exists.1 ?_
  rw [firstNamed?, List.findSome?_isSome_iff]
  exact ⟨name, hname, by rw [h]; rfl⟩

theorem Yields.offers (h : Yields t file) : Offers t file := by
  induction h with
  | text => exact .text
  | item mem _ ih => exact .item mem ih
  | first named _ ih =>
    obtain ⟨name, hname, hfind⟩ := exists_of_firstNamed? named
    exact .member hname hfind ih

/-! ## What a target leads to -/

theorem pickItem_eq_findSome? (items : List Json) :
    pickTarget.pickItem items = items.findSome? pickTarget := by
  induction items with
  | nil => simp [pickTarget.pickItem]
  | cons item rest ih =>
    rw [pickTarget.pickItem, List.findSome?_cons, ih]
    cases pickTarget item with
    | some file => rfl
    | none => rfl

theorem pickMember_eq_map (name : String) (members : List (String × Json)) :
    pickTarget.pickMember name members = (Table.find? name members).map pickTarget := by
  induction members with
  | nil => simp [pickTarget.pickMember, Table.find?]
  | cons m rest ih =>
    rw [pickTarget.pickMember, Table.find?, ih]
    by_cases hname : m.1 = name
    · simp [hname]
    · simp [hname]

theorem pickTarget_list (items : List Json) :
    pickTarget (.list items) = items.findSome? pickTarget := by
  rw [pickTarget, pickItem_eq_findSome?]

/-- A choice leads where the first condition that it names leads. -/
theorem pickTarget_object (members : List (String × Json)) :
    pickTarget (.object members) = (firstNamed? members).bind pickTarget := by
  rw [pickTarget, pickMember_eq_map, pickMember_eq_map, pickMember_eq_map]
  simp only [firstNamed?, conditions, List.findSome?_cons, List.findSome?_nil]
  cases Table.find? "import" members with
  | some target => rfl
  | none =>
    cases Table.find? "browser" members with
    | some target => rfl
    | none =>
      cases Table.find? "default" members with
      | some target => rfl
      | none => rfl

theorem yields_of_pickTarget (h : pickTarget t = some file) : Yields t file := by
  induction t using Json.nested_induction with
  | list items ih =>
    rw [pickTarget_list] at h
    obtain ⟨item, hitem, hpick⟩ := List.exists_of_findSome?_eq_some h
    exact .item hitem (ih item hitem hpick)
  | object members ih =>
    rw [pickTarget_object] at h
    obtain ⟨first, hfirst, hpick⟩ := Option.bind_eq_some_iff.1 h
    obtain ⟨name, -, hfind⟩ := exists_of_firstNamed? hfirst
    exact .first hfirst (ih (name, first) (Table.mem_of_find? hfind) hpick)
  | other t hlist hobject =>
    cases t with
    | text s =>
      simp only [pickTarget, Option.some.injEq] at h
      exact h ▸ .text
    | list items => exact absurd rfl (hlist items)
    | object members => exact absurd rfl (hobject members)
    | null | bool _ | int _ | float _ => simp [pickTarget] at h

/-- A target that yields a file leads to one, if not to this one: an item before may yield
another. -/
theorem exists_pickTarget_of_yields (h : Yields t file) : ∃ found, pickTarget t = some found := by
  induction h with
  | @text file => exact ⟨file, by simp [pickTarget]⟩
  | item mem _ ih =>
    obtain ⟨found, hfound⟩ := ih
    rw [pickTarget_list]
    refine Option.isSome_iff_exists.1 (List.findSome?_isSome_iff.2 ⟨_, mem, ?_⟩)
    rw [hfound]
    rfl
  | first named _ ih =>
    rw [pickTarget_object, named]
    exact ih

theorem exists_pickTarget_iff :
    (∃ file, pickTarget t = some file) ↔ ∃ file, Yields t file := by
  constructor
  · rintro ⟨file, h⟩
    exact ⟨file, yields_of_pickTarget h⟩
  · rintro ⟨file, h⟩
    exact exists_pickTarget_of_yields h

theorem pickTarget_eq_none_iff : pickTarget t = none ↔ ∀ file, ¬ Yields t file := by
  rw [← not_exists, ← exists_pickTarget_iff, not_exists, Option.eq_none_iff_forall_ne_some]

/-! ## Dead choices -/

/-- A choice offers a file, but the first condition that it names does not. -/
def DeadChoice (members : List (String × Json)) : Prop :=
  (∃ file, Offers (.object members) file) ∧
    ∃ first, firstNamed? members = some first ∧ ∀ file, ¬ Offers first file

/-- A target is another one, or is met on the way into it through items and conditions. -/
inductive Within (t : Json) : Json → Prop where
  | self : Within t t
  | item {items : List Json} {item : Json} (outer : Within t (.list items)) (mem : item ∈ items) :
      Within t item
  | member {members : List (String × Json)} {name : String} {target : Json}
      (outer : Within t (.object members)) (condition : name ∈ conditions)
      (named : Table.find? name members = some target) : Within t target

/-- Where no choice is dead, what offers a file yields one. -/
theorem exists_yields_of_offers
    (hdead : ∀ members, Within t (.object members) → ¬ DeadChoice members) {part : Json}
    (hpart : Within t part) (h : ∃ file, Offers part file) : ∃ file, Yields part file := by
  induction part using Json.nested_induction with
  | list items ih =>
    obtain ⟨file, hfile⟩ := h
    cases hfile with
    | item mem offered =>
      obtain ⟨found, hfound⟩ := ih _ mem (hpart.item mem) ⟨file, offered⟩
      exact ⟨found, .item mem hfound⟩
  | object members ih =>
    -- The condition that the file is offered by need not be the first one, but then the first one
    -- offers a file too.
    have hoffers := h
    obtain ⟨file, hfile⟩ := h
    cases hfile with
    | member condition named offered =>
      obtain ⟨first, hfirst⟩ := exists_firstNamed? condition named
      obtain ⟨name, hname, hfind⟩ := exists_of_firstNamed? hfirst
      have halive : ∃ file, Offers first file := by
        refine Classical.not_forall_not.1 fun hnone => ?_
        exact hdead members hpart ⟨hoffers, first, hfirst, hnone⟩
      obtain ⟨found, hfound⟩ :=
        ih (name, first) (Table.mem_of_find? hfind) (hpart.member hname hfind) halive
      exact ⟨found, .first hfirst hfound⟩
  | other part hlist hobject =>
    obtain ⟨file, hfile⟩ := h
    cases hfile with
    | text => exact ⟨file, .text⟩
    | item => exact absurd rfl (hlist _)
    | member => exact absurd rfl (hobject _)

/-- What a target leads to is a file that it offers.  It leads to none just if it yields none: if on
every way to a file some choice would have to go by another condition than the first that it names.
All that is within a target leads to a file wherever one is offered, just if no choice within the
target is dead. -/
theorem pickTarget_complete_unless_dead_choice (t : Json) :
    (∀ file, pickTarget t = some file → Offers t file) ∧
    (pickTarget t = none ↔ ∀ file, ¬ Yields t file) ∧
    ((∀ part, Within t part → (pickTarget part = none ↔ ∀ file, ¬ Offers part file)) ↔
      ∀ members, Within t (.object members) → ¬ DeadChoice members) := by
  refine ⟨fun file h => (yields_of_pickTarget h).offers, pickTarget_eq_none_iff, ?_, ?_⟩
  · rintro hcomplete members hmembers ⟨⟨file, hfile⟩, first, hfirst, hnone⟩
    have hpick : pickTarget (.object members) = none := by
      rw [pickTarget_object, hfirst]
      refine Option.eq_none_iff_forall_ne_some.2 fun found hfound => ?_
      exact hnone found (yields_of_pickTarget hfound).offers
    exact (hcomplete _ hmembers).1 hpick file hfile
  · intro hdead part hpart
    rw [pickTarget_eq_none_iff]
    constructor
    · intro hnone file hfile
      obtain ⟨found, hfound⟩ := exists_yields_of_offers hdead hpart ⟨file, hfile⟩
      exact hnone found hfound
    · intro hnone file hfile
      exact hnone file hfile.offers

/-- A choice whose `import` is a choice of another kind. -/
def importForNode : Json :=
  .object [("import", .object [("node", .text "./node.js")]), ("default", .text "./index.js")]

/-- Its default is offered, but is not picked. -/
theorem default_behind_import_unpicked :
    Offers importForNode "./index.js" ∧ pickTarget importForNode = none := by
  have hcondition : "default" ∈ conditions := by decide
  exact ⟨.member hcondition rfl .text, rfl⟩

end Exports

end BundleReach
