import Mathlib.Data.List.Nodup

/-!
# Dict — Python's insertion-ordered dictionaries

Every accumulator of `FlinkTableBuilder` is a Python `dict`: the build cache `_built_tables`,
the window batches `window_agg_map` and `sliding_window_agg_map`, the join batches
`right_tables` with their field-descriptor maps, and `field_default_value`. A `dict` iterates
in insertion order, and a write to a key that is already present keeps the key where it was,
so the order of the calls the builder issues is the order in which their keys were first
written. `Dict` is that: an association list whose keys never repeat.

The module starts with the list idiom `if x not in xs: xs.append(x)`, which the builder uses
for its dependency list and which `add_or_replace_columns` does to a schema.
-/

namespace Feathub

/-! ## Appending what is absent -/

section AppendIfAbsent

variable {α : Type} [DecidableEq α]

/-- `if x not in xs: xs.append(x)`. -/
def appendIfAbsent (xs : List α) (x : α) : List α :=
  if x ∈ xs then xs else xs ++ [x]

theorem mem_appendIfAbsent {xs : List α} {x y : α} :
    y ∈ appendIfAbsent xs x ↔ y ∈ xs ∨ y = x := by
  unfold appendIfAbsent; split <;> simp_all [or_iff_left_of_imp]

theorem prefix_appendIfAbsent (xs : List α) (x : α) : xs <+: appendIfAbsent xs x := by
  unfold appendIfAbsent; split
  · exact List.prefix_refl xs
  · exact List.prefix_append xs [x]

theorem nodup_appendIfAbsent {xs : List α} (x : α) (h : xs.Nodup) :
    (appendIfAbsent xs x).Nodup := by
  unfold appendIfAbsent; split
  · exact h
  · exact List.nodup_append.2 ⟨h, List.nodup_singleton x, List.disjoint_singleton.2 ‹_›⟩

theorem mem_foldl_appendIfAbsent {xs ys : List α} {y : α} :
    y ∈ ys.foldl appendIfAbsent xs ↔ y ∈ xs ∨ y ∈ ys := by
  induction ys generalizing xs with
  | nil => simp
  | cons z zs ih => simp [ih, mem_appendIfAbsent, or_assoc]

theorem prefix_foldl_appendIfAbsent (xs ys : List α) : xs <+: ys.foldl appendIfAbsent xs := by
  induction ys generalizing xs with
  | nil => exact List.prefix_refl xs
  | cons z zs ih => exact (prefix_appendIfAbsent xs z).trans (ih _)

theorem nodup_foldl_appendIfAbsent {xs : List α} (ys : List α) (h : xs.Nodup) :
    (ys.foldl appendIfAbsent xs).Nodup := by
  induction ys generalizing xs with
  | nil => exact h
  | cons z zs ih => exact ih (nodup_appendIfAbsent z h)

end AppendIfAbsent

/-- An insertion-ordered dictionary; its key list carries its own `Nodup`. -/
structure Dict (α β : Type) where
  entries : List (α × β)
  nodup : (entries.map Prod.fst).Nodup

namespace Dict

variable {α β : Type}

/-- `{}`. -/
def empty : Dict α β := ⟨[], List.nodup_nil⟩

/-- The keys, in insertion order. -/
def keys (d : Dict α β) : List α := d.entries.map Prod.fst

@[simp] theorem keys_empty : (empty : Dict α β).keys = [] := rfl

@[simp] theorem entries_empty : (empty : Dict α β).entries = [] := rfl

theorem keys_nodup (d : Dict α β) : d.keys.Nodup := d.nodup

variable [DecidableEq α]

/-- `d.get(k)`. -/
def get? (d : Dict α β) (k : α) : Option β := d.entries.lookup k

/-- Write `v` at `k` in an association list: in place when `k` is there, else at the end. -/
def insertEntry (k : α) (v : β) : List (α × β) → List (α × β)
  | [] => [(k, v)]
  | (k', v') :: rest => if k' = k then (k, v) :: rest else (k', v') :: insertEntry k v rest

theorem keys_insertEntry (k : α) (v : β) (es : List (α × β)) :
    (insertEntry k v es).map Prod.fst =
      if k ∈ es.map Prod.fst then es.map Prod.fst else es.map Prod.fst ++ [k] := by
  induction es with
  | nil => rfl
  | cons e rest ih =>
    obtain ⟨k', v'⟩ := e
    by_cases hk : k' = k
    · subst hk; simp [insertEntry]
    · by_cases hm : k ∈ rest.map Prod.fst <;>
        simp [insertEntry, hk, ih, hm, Ne.symm hk]

theorem nodup_insertEntry (k : α) (v : β) {es : List (α × β)} (h : (es.map Prod.fst).Nodup) :
    ((insertEntry k v es).map Prod.fst).Nodup := by
  rw [keys_insertEntry]
  split
  · exact h
  · exact List.nodup_append.2 ⟨h, List.nodup_singleton k, List.disjoint_singleton.2 ‹_›⟩

theorem lookup_cons_eq (j k : α) (w : β) (es : List (α × β)) :
    ((j, w) :: es).lookup k = if k = j then some w else es.lookup k := by
  by_cases h : k = j
  · subst h; simp [List.lookup_cons]
  · have hb : (k == j) = false := by simpa using h
    simp [List.lookup_cons, hb, h]

theorem lookup_insertEntry (k k' : α) (v : β) (es : List (α × β)) :
    (insertEntry k v es).lookup k' = if k' = k then some v else es.lookup k' := by
  induction es with
  | nil => simp [insertEntry, lookup_cons_eq]
  | cons e rest ih =>
    obtain ⟨j, w⟩ := e
    by_cases hj : j = k
    · subst hj; by_cases h : k' = j <;> simp [insertEntry, lookup_cons_eq, h]
    · by_cases h : k' = j
      · subst h; simp [insertEntry, lookup_cons_eq, hj, ih]
      · simp [insertEntry, lookup_cons_eq, hj, h, ih]

/-- `d[k] = v`. -/
def insert (d : Dict α β) (k : α) (v : β) : Dict α β :=
  ⟨insertEntry k v d.entries, nodup_insertEntry k v d.nodup⟩

/-- `d.setdefault(k, init)` followed by the in-place update `f` of the value it returns. -/
def upsert (d : Dict α β) (k : α) (init : β) (f : β → β) : Dict α β :=
  d.insert k (f ((d.get? k).getD init))

@[simp] theorem get?_empty (k : α) : (empty : Dict α β).get? k = none := rfl

theorem keys_insert (d : Dict α β) (k : α) (v : β) :
    (d.insert k v).keys = if k ∈ d.keys then d.keys else d.keys ++ [k] :=
  keys_insertEntry k v d.entries

@[simp] theorem get?_insert (d : Dict α β) (k k' : α) (v : β) :
    (d.insert k v).get? k' = if k' = k then some v else d.get? k' :=
  lookup_insertEntry k k' v d.entries

theorem keys_upsert (d : Dict α β) (k : α) (init : β) (f : β → β) :
    (d.upsert k init f).keys = if k ∈ d.keys then d.keys else d.keys ++ [k] :=
  keys_insert _ _ _

@[simp] theorem get?_upsert (d : Dict α β) (k k' : α) (init : β) (f : β → β) :
    (d.upsert k init f).get? k' = if k' = k then some (f ((d.get? k).getD init)) else d.get? k' :=
  get?_insert _ _ _ _

theorem mem_keys_iff (d : Dict α β) (k : α) : k ∈ d.keys ↔ (d.get? k).isSome := by
  simp [keys, get?, List.lookup_isSome_iff]

theorem get?_eq_none_iff (d : Dict α β) (k : α) : d.get? k = none ↔ k ∉ d.keys := by
  rw [mem_keys_iff, Option.not_isSome_iff_eq_none]

/-- In a dict, an entry is exactly a successful lookup. -/
theorem mem_entries_iff (d : Dict α β) (k : α) (v : β) :
    (k, v) ∈ d.entries ↔ d.get? k = some v := by
  obtain ⟨es, h⟩ := d
  simp only [get?]
  induction es with
  | nil => simp
  | cons e rest ih =>
    obtain ⟨j, w⟩ := e
    simp only [List.map_cons, List.nodup_cons, List.mem_map] at h
    by_cases hj : k = j
    · subst hj
      have hnot : (k, v) ∉ rest := fun hu => h.1 ⟨(k, v), hu, rfl⟩
      simp [lookup_cons_eq, hnot, eq_comm]
    · simp [lookup_cons_eq, hj, ih h.2]

/-- The entries of `d[k] = v` are those of `d`, with the one at `k` now `(k, v)`. -/
theorem mem_entries_insert (d : Dict α β) (k k' : α) (v v' : β) :
    (k', v') ∈ (d.insert k v).entries ↔
      (k' = k ∧ v' = v) ∨ (k' ≠ k ∧ (k', v') ∈ d.entries) := by
  rw [mem_entries_iff, mem_entries_iff, get?_insert]
  by_cases h : k' = k <;> simp [h, eq_comm]

/-- A dict is determined by its keys, in order, and a lookup of each. -/
theorem entries_eq_map_keys (d : Dict α β) (g : α → β)
    (h : ∀ k ∈ d.keys, d.get? k = some (g k)) : d.entries = d.keys.map fun k => (k, g k) := by
  conv_lhs => rw [← List.map_id d.entries]
  rw [keys, List.map_map]
  refine List.map_congr_left fun e he => ?_
  have hget := (mem_entries_iff d e.1 e.2).1 he
  rw [h e.1 (List.mem_map_of_mem _ he), Option.some.injEq] at hget
  exact Prod.ext rfl hget.symm

end Dict

end Feathub
