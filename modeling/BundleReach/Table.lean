/-!
# Tables

A table is a list of entries in the order in which their keys were first written.  Writing a key
again keeps its place and replaces its value.
-/

namespace BundleReach

/-- Keys with their values, in the order of first writing. -/
abbrev Table (α β : Type) := List (α × β)

namespace Table

variable {α β : Type} [DecidableEq α]

/-- The value written for a key. -/
def find? (key : α) : Table α β → Option β
  | [] => none
  | (k, v) :: rest => if k = key then some v else find? key rest

/-- Whether a key has been written. -/
def has (key : α) (t : Table α β) : Bool := (find? key t).isSome

/-- Changes the value of a key: a key not yet there joins at the end with the value that `start`
turns into. -/
def change (key : α) (start : β) (f : β → β) : Table α β → Table α β
  | [] => [(key, f start)]
  | (k, v) :: rest => if k = key then (k, f v) :: rest else (k, v) :: change key start f rest

/-- Writes a value for a key. -/
def put (key : α) (value : β) (t : Table α β) : Table α β := change key value (fun _ => value) t

/-- Writes entries one after the other. -/
def ofEntries (entries : List (α × β)) : Table α β :=
  entries.foldl (fun t e => put e.1 e.2 t) []

/-- The keys in order. -/
def keys (t : Table α β) : List α := t.map Prod.fst

/-! ## What writing does -/

theorem find?_change_self (key : α) (start : β) (f : β → β) (t : Table α β) :
    find? key (change key start f t) = some (f ((find? key t).getD start)) := by
  induction t with
  | nil => simp [change, find?]
  | cons e rest ih =>
    obtain ⟨k, v⟩ := e
    by_cases h : k = key
    · simp [change, find?, h]
    · simp [change, find?, h, ih]

theorem find?_change_of_ne {key other : α} (h : other ≠ key) (start : β) (f : β → β)
    (t : Table α β) : find? other (change key start f t) = find? other t := by
  induction t with
  | nil => simp [change, find?, Ne.symm h]
  | cons e rest ih =>
    obtain ⟨k, v⟩ := e
    by_cases hk : k = key
    · subst hk
      simp [change, find?, Ne.symm h]
    · simp [change, find?, hk, ih]

@[simp] theorem find?_put_self (key : α) (value : β) (t : Table α β) :
    find? key (put key value t) = some value := by
  simp [put, find?_change_self]

theorem find?_put_of_ne {key other : α} (h : other ≠ key) (value : β) (t : Table α β) :
    find? other (put key value t) = find? other t :=
  find?_change_of_ne h value _ t

/-- A key that is there keeps its place, a new one joins at the end. -/
theorem keys_change (key : α) (start : β) (f : β → β) (t : Table α β) :
    keys (change key start f t) = if key ∈ keys t then keys t else keys t ++ [key] := by
  induction t with
  | nil => simp [change, keys]
  | cons e rest ih =>
    obtain ⟨k, v⟩ := e
    by_cases hk : k = key
    · simp [change, keys, hk]
    · simp only [keys] at ih
      simp only [change, keys, hk, ↓reduceIte, List.map_cons, List.mem_cons, Ne.symm hk,
        false_or, ih]
      by_cases h : key ∈ rest.map Prod.fst <;> simp [h]

theorem nodup_keys_change (key : α) (start : β) (f : β → β) {t : Table α β}
    (h : (keys t).Nodup) : (keys (change key start f t)).Nodup := by
  rw [keys_change]
  split
  · exact h
  · next hk =>
    rw [List.nodup_append]
    refine ⟨h, by simp, fun a ha b hb => ?_⟩
    rw [List.mem_singleton] at hb
    subst hb
    exact fun e => hk (e ▸ ha)

theorem nodup_keys_put (key : α) (value : β) {t : Table α β} (h : (keys t).Nodup) :
    (keys (put key value t)).Nodup :=
  nodup_keys_change key value _ h

/-- However often keys are written, each stands once in the table. -/
theorem nodup_keys_ofEntries (entries : List (α × β)) : (keys (ofEntries entries)).Nodup := by
  suffices ∀ t : Table α β, (keys t).Nodup →
      (keys (entries.foldl (fun t e => put e.1 e.2 t) t)).Nodup from this [] (by simp [keys])
  induction entries with
  | nil => exact fun t h => h
  | cons e rest ih => exact fun t h => ih _ (nodup_keys_put e.1 e.2 h)

theorem find?_eq_none_iff {key : α} {t : Table α β} : find? key t = none ↔ key ∉ keys t := by
  induction t with
  | nil => simp [find?, keys]
  | cons e rest ih =>
    obtain ⟨k, v⟩ := e
    by_cases hk : k = key
    · simp [find?, keys, hk]
    · simp only [keys] at ih
      simp [find?, keys, hk, Ne.symm hk, ih]

/-! ## Keys -/

theorem mem_keys_iff {key : α} {t : Table α β} :
    key ∈ keys t ↔ ∃ value, find? key t = some value := by
  cases h : find? key t with
  | none => simp [find?_eq_none_iff.1 h]
  | some v => exact ⟨fun _ => ⟨v, rfl⟩, fun _ => Decidable.byContradiction fun hn => by
      simp [find?_eq_none_iff.2 hn] at h⟩

theorem has_iff_mem_keys {key : α} {t : Table α β} : has key t = true ↔ key ∈ keys t := by
  rw [has, Option.isSome_iff_exists, mem_keys_iff]

theorem mem_of_find? {key : α} {value : β} {t : Table α β} (h : find? key t = some value) :
    (key, value) ∈ t := by
  induction t with
  | nil => simp [find?] at h
  | cons e rest ih =>
    obtain ⟨k, v⟩ := e
    by_cases hk : k = key
    · simp_all [find?]
    · exact List.mem_cons_of_mem _ (ih (by simpa [find?, hk] using h))

/-- Where each key stands once, an entry is what is found under its key. -/
theorem find?_of_mem {key : α} {value : β} {t : Table α β} (hn : (keys t).Nodup)
    (h : (key, value) ∈ t) : find? key t = some value := by
  induction t with
  | nil => simp at h
  | cons e rest ih =>
    obtain ⟨k, v⟩ := e
    rw [keys, List.map_cons, List.nodup_cons] at hn
    rcases List.mem_cons.1 h with h | h
    · cases h
      simp [find?]
    · have hk : k ≠ key := fun hk => hn.1 (List.mem_map.2 ⟨(key, value), h, hk.symm⟩)
      simpa [find?, hk] using ih hn.2 h

omit [DecidableEq α] in
@[simp] theorem keys_append (s t : Table α β) : keys (s ++ t) = keys s ++ keys t :=
  List.map_append

/-- A new key joins at the end. -/
theorem put_of_not_mem {key : α} (value : β) {t : Table α β} (h : key ∉ keys t) :
    put key value t = t ++ [(key, value)] := by
  induction t with
  | nil => rfl
  | cons e rest ih =>
    obtain ⟨k, v⟩ := e
    rw [keys, List.map_cons, List.mem_cons, not_or] at h
    simpa [put, change, Ne.symm h.1] using ih h.2

/-- Entries with different keys make the table that they are. -/
theorem ofEntries_of_nodup {entries : List (α × β)} (h : (keys entries).Nodup) :
    ofEntries entries = entries := by
  suffices ∀ s : Table α β, (keys (s ++ entries)).Nodup →
      entries.foldl (fun t e => put e.1 e.2 t) s = s ++ entries from this [] h
  clear h
  induction entries with
  | nil => intro s _; simp
  | cons e rest ih =>
    intro s hs
    have he : e.1 ∉ keys s := by
      rw [keys_append, List.nodup_append] at hs
      exact fun hm => hs.2.2 e.1 hm e.1 (by simp [keys]) rfl
    rw [List.foldl_cons, put_of_not_mem e.2 he, ih _ (by simpa using hs), List.append_assoc]
    rfl

theorem mem_keys_change {key other : α} {start : β} {f : β → β} {t : Table α β} :
    other ∈ keys (change key start f t) ↔ other ∈ keys t ∨ other = key := by
  rw [keys_change]
  by_cases h : key ∈ keys t
  · rw [if_pos h]
    exact ⟨.inl, fun h' => h'.elim id fun e => e ▸ h⟩
  · rw [if_neg h, List.mem_append, List.mem_singleton]

theorem mem_keys_put {key other : α} {value : β} {t : Table α β} :
    other ∈ keys (put key value t) ↔ other ∈ keys t ∨ other = key :=
  mem_keys_change

/-- The keys written are the keys of the table. -/
theorem mem_keys_ofEntries {key : α} {entries : List (α × β)} :
    key ∈ keys (ofEntries entries) ↔ key ∈ keys entries := by
  suffices ∀ s : Table α β, key ∈ keys (entries.foldl (fun t e => put e.1 e.2 t) s) ↔
      key ∈ keys s ∨ key ∈ keys entries by
    rw [ofEntries, this []]
    simp [keys]
  induction entries with
  | nil => simp [keys]
  | cons e rest ih =>
    intro s
    rw [List.foldl_cons, ih, mem_keys_put, or_assoc]
    exact or_congr_right (by rw [keys, keys, List.map_cons, List.mem_cons])

theorem mem_put {key : α} {value : β} {t : Table α β} {e : α × β} (h : e ∈ put key value t) :
    e ∈ t ∨ e = (key, value) := by
  induction t with
  | nil => exact .inr (List.mem_singleton.1 h)
  | cons first rest ih =>
    obtain ⟨k, v⟩ := first
    rw [put, change] at h
    split at h
    · rename_i hk
      rcases List.mem_cons.1 h with rfl | h
      · exact .inr (hk ▸ rfl)
      · exact .inl (List.mem_cons_of_mem _ h)
    · rcases List.mem_cons.1 h with rfl | h
      · exact .inl List.mem_cons_self
      · exact (ih h).imp_left (List.mem_cons_of_mem _)

/-- What a table holds has been written. -/
theorem mem_of_mem_ofEntries {e : α × β} {entries : List (α × β)} (h : e ∈ ofEntries entries) :
    e ∈ entries := by
  suffices ∀ s : Table α β, e ∈ entries.foldl (fun t e => put e.1 e.2 t) s →
      e ∈ s ∨ e ∈ entries from (this [] h).resolve_left List.not_mem_nil
  clear h
  induction entries with
  | nil => exact fun s h => .inl h
  | cons first rest ih =>
    intro s h
    rcases ih _ h with h | h
    · rcases mem_put h with h | rfl
      · exact .inl h
      · exact .inr List.mem_cons_self
    · exact .inr (List.mem_cons_of_mem first h)

/-! ## Changing several keys -/

/-- Each of several keys is changed once. -/
theorem find?_foldl_change {key : α} {changed : List α} (hn : changed.Nodup) (start : β)
    (f : β → β) (t : Table α β) :
    find? key (changed.foldl (fun t k => change k start f t) t) =
      if key ∈ changed then some (f ((find? key t).getD start)) else find? key t := by
  induction changed generalizing t with
  | nil => rfl
  | cons k rest ih =>
    rw [List.nodup_cons] at hn
    rw [List.foldl_cons, ih hn.2]
    by_cases hk : key = k
    · subst hk
      rw [if_neg hn.1, if_pos List.mem_cons_self, find?_change_self]
    · rw [find?_change_of_ne hk]
      simp only [List.mem_cons, hk, false_or]

theorem nodup_keys_foldl_change (changed : List α) (start : β) (f : β → β) {t : Table α β}
    (h : (keys t).Nodup) : (keys (changed.foldl (fun t k => change k start f t) t)).Nodup := by
  induction changed generalizing t with
  | nil => exact h
  | cons k rest ih => exact ih (nodup_keys_change k start f h)

end Table

end BundleReach
