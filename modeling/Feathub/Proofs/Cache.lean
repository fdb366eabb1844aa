import Feathub.Builder

/-!
# Cache — what `_built_tables` holds

`_get_table` checks the cache before it compiles a descriptor, and writes the cache only after
the compile returns. In between, the compile makes nested `_get_table` calls of its own.

* `getTable_succ` : one call, as the source reads: a hit, a conflict, or a compile then a write;
* `reentrant_build_rebinds_name` : a view named like its own source: within the one outer call,
  the nested call on the source binds the name to the source and returns, then the outer call
  binds it again, to the view.
-/

namespace Feathub

open Build

section Bind

variable {α β : Type} {x : Build α} {f : α → Build β} {σ σ' : Cache}

theorem Build.bind_of_ok {a : α} (h : x σ = some (.ok a, σ')) : (x >>= f) σ = f a σ' := by
  rw [bind_apply, h]

theorem Build.bind_of_error {e : BuildError} (h : x σ = some (.error e, σ')) :
    (x >>= f) σ = some (.error e, σ') := by
  rw [bind_apply, h]

theorem Build.bind_of_none (h : x σ = none) : (x >>= f) σ = none := by
  rw [bind_apply, h]

theorem Build.bind_assoc {γ : Type} (x : Build α) (f : α → Build β) (g : β → Build γ) :
    (x >>= f) >>= g = x >>= fun a => f a >>= g := by
  funext σ
  simp only [bind_apply]
  rcases x σ with _ | ⟨_ | a, σ'⟩ <;> rfl

/-- What a bind that returned did: its first part raised, or returned and then its second. -/
theorem Build.bind_eq_some {r : Except BuildError β} (h : (x >>= f) σ = some (r, σ')) :
    (∃ e, x σ = some (.error e, σ') ∧ r = .error e) ∨
      ∃ a σ₁, x σ = some (.ok a, σ₁) ∧ f a σ₁ = some (r, σ') := by
  rw [bind_apply] at h
  match hx : x σ, h with
  | some (.error e, _), h => cases h; exact .inl ⟨e, rfl, rfl⟩
  | some (.ok a, σ₁), h => exact .inr ⟨a, σ₁, rfl, h⟩

end Bind

section ExceptBind

variable {ε α β : Type} {x : Except ε α} {f : α → Except ε β}

/-- A bind of pure computations that returned: both parts returned. -/
theorem except_bind_eq_ok {b : β} (h : x >>= f = .ok b) : ∃ a, x = .ok a ∧ f a = .ok b := by
  cases x with
  | error => cases h
  | ok a => exact ⟨a, rfl, h⟩

/-- A bind of pure computations that raised: its first part raised, or returned and then its
second raised. -/
theorem except_bind_eq_error {e : ε} (h : x >>= f = .error e) :
    x = .error e ∨ ∃ a, x = .ok a ∧ f a = .error e := by
  cases x with
  | error e' => cases h; exact .inl rfl
  | ok a => exact .inr ⟨a, rfl, h⟩

end ExceptBind

/-- One `_get_table` call: a hit returns the cached table or raises the conflict; a miss
compiles with one call less of fuel and writes the result. -/
theorem getTable_succ (registry : Registry) (fuel : Nat) (features : TableDescriptor)
    (σ : Cache) :
    getTable registry (fuel + 1) features σ =
      match σ.get? features.name with
      | some (cached, table) =>
        some (if features ≠ cached then .error (.conflictingDescriptor features cached)
          else .ok table, σ)
      | none =>
        match compileTableDescriptor (getTable registry fuel) registry features σ with
        | none => none
        | some (.error e, σ') => some (.error e, σ')
        | some (.ok table, σ') =>
          some (.ok table, σ'.insert features.name (features, table)) := by
  show (Build.cache >>= _) σ = _
  simp only [bind_apply, cache_apply]
  rcases σ.get? features.name with _ | ⟨cached, table⟩
  · simp only [bind_apply]
    rcases compileTableDescriptor (getTable registry fuel) registry features σ with
      _ | ⟨_ | table, σ'⟩ <;> rfl
  · by_cases hc : features = cached <;> simp [hc]

section Call

variable {registry : Registry} {fuel : Nat} {features : TableDescriptor} {σ : Cache}

/-- A hit on the same descriptor returns the cached table. -/
theorem getTable_succ_of_hit {table : Plan} (h : σ.get? features.name = some (features, table)) :
    getTable registry (fuel + 1) features σ = some (.ok table, σ) := by
  rw [getTable_succ, h]
  simp

/-- A miss whose compile runs out of fuel runs out of fuel. -/
theorem getTable_succ_of_miss_none (h : σ.get? features.name = none)
    (hc : compileTableDescriptor (getTable registry fuel) registry features σ = none) :
    getTable registry (fuel + 1) features σ = none := by
  rw [getTable_succ]
  simp only [h, hc]

/-- A miss whose compile returns or raises returns or raises the same. -/
theorem getTable_succ_of_miss (h : σ.get? features.name = none) {r : Except BuildError Plan}
    {σ' : Cache} (hc : compileTableDescriptor (getTable registry fuel) registry features σ =
      some (r, σ')) : ∃ σ'', getTable registry (fuel + 1) features σ = some (r, σ'') := by
  rw [getTable_succ]
  simp only [h, hc]
  cases r <;> exact ⟨_, rfl⟩

end Call

/-! ## A view named like its source -/

/-- A feature table named `x`. -/
def sourceX : TableDescriptor := .featureTable "x" ["a", "ts"] (some "ts") "epoch"

/-- A view named `x` over `sourceX`, keeping its fields. -/
def viewX : TableDescriptor := .derivedFeatureView "x" sourceX [] true (some "ts") "epoch" false

/-- The empty registry. -/
def emptyRegistry : Registry := ⟨fun _ => none⟩

/-- One session, one call: `_get_table(viewX)` misses `x` and compiles the view; that compile
makes the nested call on the source, which misses `x` too, compiles the source and binds `x` to
it, so the compile returns with `x` bound to the source. The outer call then returns as well and
binds `x` again, now to the view. -/
theorem reentrant_build_rebinds_name :
    sourceX.name = viewX.name ∧ sourceX ≠ viewX ∧ (Dict.empty : Cache).get? viewX.name = none ∧
    getTable emptyRegistry 1 sourceX Dict.empty =
      some (.ok (.source sourceX), Dict.empty.insert "x" (sourceX, .source sourceX)) ∧
    ∃ table, compileTableDescriptor (getTable emptyRegistry 1) emptyRegistry viewX Dict.empty =
        some (.ok table, Dict.empty.insert "x" (sourceX, .source sourceX)) ∧
      getTable emptyRegistry 2 viewX Dict.empty = some (.ok table,
        (Dict.empty.insert "x" (sourceX, .source sourceX)).insert "x" (viewX, table)) :=
  ⟨rfl, by decide, rfl, rfl, _, rfl, rfl⟩

end Feathub
