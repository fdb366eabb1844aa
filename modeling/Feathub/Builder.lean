import Feathub.SlidingView

/-!
# Builder — `FlinkTableBuilder` and its build cache

`_get_table` memoizes one compiled table per descriptor name in `_built_tables`. A miss
dispatches on the descriptor class; the view compiles call `_get_table` again on their source
and, for a `DerivedFeatureView`, on each join table the registry resolves, so `_get_table` is
a recursion through the descriptor graph.

The recursion is modelled on fuel. A computation of the builder is a `Build`: it reads and
writes the cache and returns or raises; what it wrote before raising stays written, as on the
Python object. `none` is a recursion that ran out of fuel. `getTable_mono` says fuel is only a
bound: more of it never changes an outcome.
-/

namespace Feathub

/-- `_built_tables`: descriptor name ↦ `(descriptor, built table)`. -/
abbrev Cache := Dict String (TableDescriptor × Plan)

/-- A computation of the builder on its cache. -/
def Build (α : Type) : Type := Cache → Option (Except BuildError α × Cache)

namespace Build

variable {α β : Type}

/-- Return `a`. -/
protected def pure (a : α) : Build α := fun σ => some (.ok a, σ)

/-- Run `x`, then `f` on its value; a raise or a lack of fuel stops the run. -/
protected def bind (x : Build α) (f : α → Build β) : Build β := fun σ =>
  match x σ with
  | none => none
  | some (.error e, σ') => some (.error e, σ')
  | some (.ok a, σ') => f a σ'

instance : Monad Build where
  pure := Build.pure
  bind := Build.bind

/-- `raise e`. -/
def throw (e : BuildError) : Build α := fun σ => some (.error e, σ)

/-- A pure computation that may raise. -/
def ofExcept (x : Except BuildError α) : Build α := fun σ => some (x, σ)

/-- Read the cache. -/
def cache : Build Cache := fun σ => some (.ok σ, σ)

/-- Write the cache. -/
def modifyCache (f : Cache → Cache) : Build Unit := fun σ => some (.ok (), f σ)

/-- Out of fuel. -/
def diverge : Build α := fun _ => none

@[simp] theorem pure_apply (a : α) (σ : Cache) : (pure a : Build α) σ = some (.ok a, σ) := rfl

theorem bind_apply (x : Build α) (f : α → Build β) (σ : Cache) :
    (x >>= f) σ = match x σ with
      | none => none
      | some (.error e, σ') => some (.error e, σ')
      | some (.ok a, σ') => f a σ' := rfl

@[simp] theorem throw_apply (e : BuildError) (σ : Cache) :
    (throw e : Build α) σ = some (.error e, σ) := rfl

@[simp] theorem ofExcept_apply (x : Except BuildError α) (σ : Cache) :
    ofExcept x σ = some (x, σ) := rfl

@[simp] theorem cache_apply (σ : Cache) : cache σ = some (.ok σ, σ) := rfl

@[simp] theorem modifyCache_apply (f : Cache → Cache) (σ : Cache) :
    modifyCache f σ = some (.ok (), f σ) := rfl

@[simp] theorem diverge_apply (σ : Cache) : (diverge : Build α) σ = none := rfl

/-- Every outcome `x` reaches from a cache, `y` reaches too: `y` has at least `x`'s fuel. -/
def Approx (x y : Build α) : Prop := ∀ σ r, x σ = some r → y σ = some r

theorem Approx.refl (x : Build α) : Approx x x := fun _ _ h => h

theorem Approx.trans {x y z : Build α} (hxy : Approx x y) (hyz : Approx y z) : Approx x z :=
  fun σ r h => hyz σ r (hxy σ r h)

theorem Approx.bind {x y : Build α} {f g : α → Build β} (hxy : Approx x y)
    (hfg : ∀ a, Approx (f a) (g a)) : Approx (x >>= f) (y >>= g) := by
  intro σ r h
  rw [bind_apply] at h ⊢
  match hx : x σ, h with
  | some (.error e, σ'), h => rw [hxy σ _ hx]; exact h
  | some (.ok a, σ'), h => rw [hxy σ _ hx]; exact hfg a σ' r h

theorem Approx.of_diverge (y : Build α) : Approx diverge y := fun _ _ h => nomatch h

end Build

/-! ## `_get_table` -/

/-- The join tables of a view, resolved by name and built: the loop that fills
`descriptors_by_names` and `table_by_names`. -/
def resolveJoinTables (get : TableDescriptor → Build Plan) (registry : Registry)
    (acc : Dict String TableDescriptor × Dict String Plan) :
    List String → Build (Dict String TableDescriptor × Dict String Plan)
  | [] => pure acc
  | name :: rest => do
    let descriptor ← Build.ofExcept (registry.getFeatures name)
    let table ← get descriptor
    resolveJoinTables get registry (acc.1.insert name descriptor, acc.2.insert name table) rest

/-- `_get_table_from_derived_feature_view`; `get` is `_get_table`. -/
def getTableFromDerivedFeatureView (get : TableDescriptor → Build Plan) (registry : Registry)
    (featureView source : TableDescriptor) : Build Plan := do
  let sourceTable ← get source
  let resolved ← resolveJoinTables get registry (Dict.empty, Dict.empty)
    (joinTableNames featureView)
  Build.ofExcept (compileDerivedFeatureView featureView sourceTable resolved.1 resolved.2)

/-- `_get_table_from_sliding_feature_view`; `get` is `_get_table`. -/
def getTableFromSlidingFeatureView (get : TableDescriptor → Build Plan)
    (featureView source : TableDescriptor) : Build Plan := do
  let sourceTable ← get source
  Build.ofExcept (compileSlidingFeatureView featureView sourceTable)

/-- The dispatch of `_get_table` on a cache miss. -/
def compileTableDescriptor (get : TableDescriptor → Build Plan) (registry : Registry) :
    TableDescriptor → Build Plan
  | features@(.featureTable ..) => pure (.source features)
  | features@(.derivedFeatureView _ source ..) =>
    getTableFromDerivedFeatureView get registry features source
  | features@(.slidingFeatureView _ source ..) =>
    getTableFromSlidingFeatureView get features source
  | features@(.other ..) => Build.throw (.unsupportedDescriptor features)

/-- `_get_table(features)` for a descriptor, on `fuel` nested calls. -/
def getTable (registry : Registry) : Nat → TableDescriptor → Build Plan
  | 0, _ => Build.diverge
  | fuel + 1, features => do
    match (← Build.cache).get? features.name with
    | some (cached, table) =>
      if features ≠ cached then Build.throw (.conflictingDescriptor features cached)
      else pure table
    | none =>
      let table ← compileTableDescriptor (getTable registry fuel) registry features
      Build.modifyCache (·.insert features.name (features, table))
      pure table

/-! ## Keys, time range and `build` -/

/-- The key set of `build`: a `pandas.DataFrame` or a descriptor. -/
inductive Keys where
  | dataFrame (df : DataFrame)
  | descriptor (d : TableDescriptor)

/-- `_get_table(keys)`: a data frame becomes a table of its own, uncached. -/
def getKeyTable (registry : Registry) (fuel : Nat) : Keys → Build Plan
  | .dataFrame df => pure (.fromPandas df)
  | .descriptor d => getTable registry fuel d

/-- The loop and the join of `_filter_table_by_keys`: every field of the key table must be a
field of the table; the rows kept are those that join with a key row on all of them. -/
def joinByKeys (table keyTable : Plan) : Except BuildError Plan :=
  match keyTable.fields.find? (· ∉ table.fields) with
  | some fieldName => .error (.keyNotInTable fieldName table.fields)
  | none => .ok (.joinOnKey keyTable table keyTable.fields)

/-- `_filter_table_by_keys`. -/
def filterTableByKeys (registry : Registry) (fuel : Nat) (table : Plan) (keys : Keys) :
    Build Plan :=
  getKeyTable registry fuel keys >>= fun keyTable => Build.ofExcept (joinByKeys table keyTable)

/-- `_range_table_by_time`: `event_time >= start` and `event_time < end`, each bound written
out by `strftime("%Y-%m-%d %H:%M:%S")` and read back by `to_timestamp`. -/
def rangeTableByTime (table : Plan) (startDatetime endDatetime : Option Datetime) : Plan :=
  let table := match startDatetime with
    | none => table
    | some start => .filterEventTime table .ge (start.strftime "%Y-%m-%d %H:%M:%S")
  match endDatetime with
  | none => table
  | some stop => .filterEventTime table .lt (stop.strftime "%Y-%m-%d %H:%M:%S")

/-- The time range of `build`: a bound needs the view's timestamp field. -/
def rangeByTime (features : TableDescriptor) (table : Plan)
    (startDatetime endDatetime : Option Datetime) : Except BuildError Plan :=
  if startDatetime.isSome || endDatetime.isSome then
    if features.timestampField.isNone then .error .missingTimestampField
    else .ok (rangeTableByTime table startDatetime endDatetime)
  else .ok table

/-- The last step of `build`: the event-time column is dropped when the table has it. -/
def dropEventTime (table : Plan) : Plan :=
  if eventTimeAttributeName ∈ table.fields then .dropColumns table eventTimeAttributeName
  else table

/-- `build(features, keys, start_datetime, end_datetime)`. -/
def build (registry : Registry) (fuel : Nat) (features : TableDescriptor) (keys : Option Keys)
    (startDatetime endDatetime : Option Datetime) : Build Plan :=
  if features.isUnresolvedFeatureView then Build.throw .unresolvedFeatureView else
  getTable registry fuel features >>= fun table =>
  (match keys with
    | none => pure table
    | some keys => filterTableByKeys registry fuel table keys) >>= fun table =>
  Build.ofExcept (rangeByTime features table startDatetime endDatetime) >>= fun table =>
  pure (dropEventTime table)

/-! ## Fuel is only a bound -/

section Mono

open Build

variable {get get' : TableDescriptor → Build Plan} {registry : Registry}

theorem resolveJoinTables_mono (hget : ∀ d, Approx (get d) (get' d))
    (acc : Dict String TableDescriptor × Dict String Plan) (names : List String) :
    Approx (resolveJoinTables get registry acc names)
      (resolveJoinTables get' registry acc names) := by
  induction names generalizing acc with
  | nil => exact Approx.refl _
  | cons name rest ih =>
    exact Approx.bind (Approx.refl _) fun d => Approx.bind (hget d) fun t => ih _

theorem compileTableDescriptor_mono (hget : ∀ d, Approx (get d) (get' d)) (d : TableDescriptor) :
    Approx (compileTableDescriptor get registry d) (compileTableDescriptor get' registry d) := by
  cases d with
  | derivedFeatureView =>
    exact Approx.bind (hget _) fun _ =>
      Approx.bind (resolveJoinTables_mono hget _ _) fun _ => Approx.refl _
  | slidingFeatureView => exact Approx.bind (hget _) fun _ => Approx.refl _
  | featureTable | other => exact Approx.refl _

theorem getTable_succ_approx (fuel : Nat) (d : TableDescriptor) :
    Approx (getTable registry fuel d) (getTable registry (fuel + 1) d) := by
  induction fuel generalizing d with
  | zero => exact Approx.of_diverge _
  | succ n ih =>
    refine Approx.bind (Approx.refl _) fun σ => ?_
    split
    · exact Approx.refl _
    · exact Approx.bind (compileTableDescriptor_mono ih d) fun _ => Approx.refl _

/-- More fuel never changes an outcome of `_get_table`. -/
theorem getTable_mono {fuel fuel' : Nat} (h : fuel ≤ fuel') (d : TableDescriptor) :
    Approx (getTable registry fuel d) (getTable registry fuel' d) := by
  induction h with
  | refl => exact Approx.refl _
  | step _ ih => exact ih.trans (getTable_succ_approx _ d)

end Mono

end Feathub
