import Feathub.Proofs.Filters
import Feathub.Proofs.Frame

/-!
# Output — the columns and the rows of what `build` returns

A build compiles its descriptor by `_get_table`, joins it with the key table, keeps the time
range and drops the event-time column. What it returns is fixed by the descriptors alone, not by
the session's cache:

* `outputSchema` : the columns a descriptor compiles to, by recursion on the descriptor: a
  source's scanned fields, a view's output fields over its source's columns;
* `getTable_fields_outputSchema` : in every valid cache, which every session of builds keeps,
  every bound table has the columns of its descriptor, and so has every table a `_get_table`
  call returns;
* `build_eq_ok` : a build that returns, from a valid cache, is the uncached compile of its
  descriptor and of its key set, joined, ranged and stripped of the event-time column;
* `build_fields` : it returns the columns `buildSchema` gives, the key columns first, never the
  event-time column;
* `buildRows` and `build_rows` : on every engine, it returns the rows of the uncached compile
  that match a key row, in the time range cut to the second, each without its event-time cell,
  for bounds whose year has four digits.
-/

namespace Feathub

open Build

/-! ## The columns a descriptor compiles to -/

/-- The columns of the table `_get_table` compiles a descriptor to: the fields a source is
scanned with, a view's output fields over its source's columns. `_get_table` compiles another
descriptor class to no table. -/
def outputSchema : TableDescriptor → List String
  | features@(.featureTable ..) => features.scanFields
  | features@(.derivedFeatureView _ source ..) => getOutputFields features (outputSchema source)
  | features@(.slidingFeatureView _ source ..) => getOutputFields features (outputSchema source)
  | .other .. => []

section Columns

variable {registry : Registry}

theorem fields_compileDerivedFeatureView {featureView : TableDescriptor}
    {sourceTable table : Plan} {descriptorsByNames : Dict String TableDescriptor}
    {tableByNames : Dict String Plan}
    (h : compileDerivedFeatureView featureView sourceTable descriptorsByNames tableByNames =
      .ok table) : table.fields = getOutputFields featureView sourceTable.fields := by
  obtain ⟨_, -, h⟩ := except_bind_eq_ok h
  obtain ⟨_, -, h⟩ := except_bind_eq_ok h
  cases h
  rfl

theorem fields_compileSlidingFeatureView {featureView : TableDescriptor}
    {sourceTable table : Plan} (h : compileSlidingFeatureView featureView sourceTable = .ok table) :
    table.fields = getOutputFields featureView sourceTable.fields := by
  obtain ⟨_, -, h⟩ := except_bind_eq_ok h
  cases h
  rfl

/-- The dispatch compiles a descriptor to its columns, when every table the nested `_get_table`
returns has the columns of its descriptor: the join tables do not show in a view's columns. -/
theorem fields_compileTableDescriptor {get : TableDescriptor → Build Plan}
    (hget : ∀ d σ table σ', get d σ = some (.ok table, σ') → table.fields = outputSchema d)
    {features : TableDescriptor} {σ σ' : Cache} {table : Plan}
    (h : compileTableDescriptor get registry features σ = some (.ok table, σ')) :
    table.fields = outputSchema features := by
  cases features with
  | featureTable => cases h; rfl
  | derivedFeatureView =>
    simp only [compileTableDescriptor, getTableFromDerivedFeatureView] at h
    rcases bind_eq_some h with ⟨_, -, ⟨⟩⟩ | ⟨_, _, hsource, h⟩
    rcases bind_eq_some h with ⟨_, -, ⟨⟩⟩ | ⟨_, _, -, h⟩
    simp only [ofExcept_apply, Option.some.injEq, Prod.mk.injEq] at h
    rw [fields_compileDerivedFeatureView h.1, hget _ _ _ _ hsource]
    rfl
  | slidingFeatureView =>
    simp only [compileTableDescriptor, getTableFromSlidingFeatureView] at h
    rcases bind_eq_some h with ⟨_, -, ⟨⟩⟩ | ⟨_, _, hsource, h⟩
    simp only [ofExcept_apply, Option.some.injEq, Prod.mk.injEq] at h
    rw [fields_compileSlidingFeatureView h.1, hget _ _ _ _ hsource]
    rfl
  | other => cases h

theorem fields_of_compileSpec {fuel : Nat} :
    ∀ {d : TableDescriptor} {table : Plan},
      compileSpec registry fuel d = some (.ok table) → table.fields = outputSchema d := by
  induction fuel with
  | zero => intro _ _ h; cases h
  | succ fuel ih =>
    intro d table h
    obtain ⟨⟨_, _⟩, hc, hr⟩ := Option.map_eq_some.1 h
    cases hr
    exact fields_compileTableDescriptor (fun _ _ _ _ hd => ih (specGet_eq_some hd).1) hc

theorem fields_of_specResult {d : TableDescriptor} {table : Plan}
    (h : SpecResult registry d (.ok table)) : table.fields = outputSchema d :=
  fields_of_compileSpec h.choose_spec

/-- Every table a valid cache binds has its descriptor's columns. -/
theorem CacheValid.fields {σ : Cache} (hσ : CacheValid registry σ) {name : String}
    {features : TableDescriptor} {table : Plan} (h : σ.get? name = some (features, table)) :
    table.fields = outputSchema features :=
  fields_of_specResult (hσ name features table h).2

theorem fields_getTable {σ σ' : Cache} (hσ : CacheValid registry σ) {fuel : Nat}
    {features : TableDescriptor} {table : Plan}
    (h : getTable registry fuel features σ = some (.ok table, σ')) :
    table.fields = outputSchema features := by
  obtain ⟨-, -, hspec | ⟨_, ⟨⟩, -⟩⟩ := getTable_sound fuel features σ _ σ' hσ h
  exact fields_of_specResult hspec

/-- In every valid cache, whatever the registry, every bound table has the columns its
descriptor determines; a `_get_table` call from it returns a table with the columns of its
descriptor, and leaves a cache whose bound tables have theirs. -/
theorem getTable_fields_outputSchema {σ σ' : Cache} (hσ : CacheValid registry σ) {fuel : Nat}
    {features : TableDescriptor} {table : Plan}
    (h : getTable registry fuel features σ = some (.ok table, σ')) :
    (∀ name d t, σ.get? name = some (d, t) → t.fields = outputSchema d) ∧
      table.fields = outputSchema features ∧
      ∀ name d t, σ'.get? name = some (d, t) → t.fields = outputSchema d := by
  obtain ⟨hσ', -, -⟩ := getTable_sound fuel features σ _ σ' hσ h
  exact ⟨fun _ _ _ => hσ.fields, fields_getTable hσ h, fun _ _ _ => hσ'.fields⟩

end Columns

theorem history_sessionX : History emptyRegistry sessionX :=
  @History.step emptyRegistry Dict.empty sessionX 1 sourceX none none none _ .fresh rfl

theorem cacheValid_sessionX : CacheValid emptyRegistry sessionX :=
  CacheValid.of_history history_sessionX

theorem getTable_fields_outputSchema_viewY :
    CacheValid emptyRegistry sessionX ∧
    ∃ table σ', getTable emptyRegistry 2 viewY sessionX = some (.ok table, σ') ∧
      (∀ name d t, sessionX.get? name = some (d, t) → t.fields = outputSchema d) ∧
      table.fields = outputSchema viewY ∧
      ∀ name d t, σ'.get? name = some (d, t) → t.fields = outputSchema d :=
  ⟨cacheValid_sessionX, _, _, rfl,
    @getTable_fields_outputSchema emptyRegistry sessionX _ cacheValid_sessionX 2 viewY _ rfl⟩

/-! ## What a build that returns is made of -/

/-- The key table a build joins with, compiled without a cache: none without keys, a data frame
as it is, a descriptor by its uncached compile. -/
def KeyTableOf (registry : Registry) : Option Keys → Option Plan → Prop
  | none, keyTable => keyTable = none
  | some (.dataFrame df), keyTable => keyTable = some (.fromPandas df)
  | some (.descriptor d), keyTable =>
    ∃ table, keyTable = some table ∧ SpecResult registry d (.ok table)

/-- The key step of `build` once the key table is built: none, or the checks and the join of
`_filter_table_by_keys`. -/
def keyStep (table : Plan) : Option Plan → Except BuildError Plan
  | none => .ok table
  | some keyTable => joinByKeys table keyTable

section Build

variable {registry : Registry}

/-- A build that returns, from a valid cache, is made of the uncached compiles of its descriptor
and of its key set: the key step, the time range and the drop of the event-time column, applied
to those. -/
theorem build_eq_ok {σ σ' : Cache} (hσ : CacheValid registry σ) {fuel : Nat}
    {features : TableDescriptor} {keys : Option Keys} {startDatetime endDatetime : Option Datetime}
    {plan : Plan}
    (h : build registry fuel features keys startDatetime endDatetime σ = some (.ok plan, σ')) :
    ∃ table keyTable keyed ranged, SpecResult registry features (.ok table) ∧
      KeyTableOf registry keys keyTable ∧ keyStep table keyTable = .ok keyed ∧
      rangeByTime features keyed startDatetime endDatetime = .ok ranged ∧
      plan = dropEventTime ranged := by
  unfold build at h
  split at h
  · cases h
  rcases bind_eq_some h with ⟨_, -, ⟨⟩⟩ | ⟨table, σ₁, ht, h⟩
  obtain ⟨hσ₁, -, htable | ⟨_, ⟨⟩, -⟩⟩ := getTable_sound fuel features σ _ σ₁ hσ ht
  rcases bind_eq_some h with ⟨_, -, ⟨⟩⟩ | ⟨keyed, σ₂, hk, h⟩
  rcases bind_eq_some h with ⟨_, -, ⟨⟩⟩ | ⟨ranged, σ₃, hr, hp⟩
  simp only [ofExcept_apply, Option.some.injEq, Prod.mk.injEq] at hr
  cases hp
  -- the key table: none, the data frame, or the uncached compile of the key descriptor
  have hkey : ∃ keyTable, KeyTableOf registry keys keyTable ∧ keyStep table keyTable = .ok keyed := by
    cases keys with
    | none => cases hk; exact ⟨none, rfl, rfl⟩
    | some keys =>
      rcases bind_eq_some hk with ⟨_, -, ⟨⟩⟩ | ⟨keyTable, σ₄, hkt, hj⟩
      simp only [ofExcept_apply, Option.some.injEq, Prod.mk.injEq] at hj
      refine ⟨some keyTable, ?_, hj.1⟩
      cases keys with
      | dataFrame => cases hkt; rfl
      | descriptor d =>
        obtain ⟨-, -, hspec | ⟨_, ⟨⟩, -⟩⟩ := getTable_sound fuel d σ₁ _ σ₄ hσ₁ hkt
        exact ⟨keyTable, rfl, hspec⟩
  obtain ⟨keyTable, hkt, hks⟩ := hkey
  exact ⟨table, keyTable, keyed, ranged, htable, hkt, hks, hr.1, rfl⟩

end Build

/-! ## The columns of a build -/

/-- The columns of a key set's table: a data frame's columns, or those a descriptor compiles
to. -/
def keySchema : Keys → List String
  | .dataFrame df => df.columns
  | .descriptor d => outputSchema d

/-- The columns a build returns: those of the descriptor, after the key columns when keys are
given, without the event-time column. -/
def buildSchema (features : TableDescriptor) : Option Keys → List String
  | none => (outputSchema features).filter (· ≠ eventTimeAttributeName)
  | some keys => (keySchema keys ++ (outputSchema features).filter (· ∉ keySchema keys)).filter
      (· ≠ eventTimeAttributeName)

theorem eventTime_not_mem_buildSchema (features : TableDescriptor) (keys : Option Keys) :
    eventTimeAttributeName ∉ buildSchema features keys := by
  cases keys <;> simp [buildSchema]

section Fields

variable {features : TableDescriptor} {table keyed ranged : Plan}
  {startDatetime endDatetime : Option Datetime}

theorem joinByKeys_eq_ok {keyTable : Plan} (h : joinByKeys table keyTable = .ok keyed) :
    keyed = .joinOnKey keyTable table keyTable.fields := by
  unfold joinByKeys at h
  split at h
  · cases h
  · exact (Except.ok.inj h).symm

theorem fields_joinByKeys {keyTable : Plan} (h : joinByKeys table keyTable = .ok keyed) :
    keyed.fields = keyTable.fields ++ table.fields.filter (· ∉ keyTable.fields) := by
  rw [joinByKeys_eq_ok h]
  rfl

theorem fields_rangeTableByTime (table : Plan) (startDatetime endDatetime : Option Datetime) :
    (rangeTableByTime table startDatetime endDatetime).fields = table.fields := by
  cases startDatetime <;> cases endDatetime <;> rfl

theorem fields_rangeByTime
    (h : rangeByTime features table startDatetime endDatetime = .ok ranged) :
    ranged.fields = table.fields := by
  unfold rangeByTime at h
  split at h
  · split at h
    · cases h
    · cases h
      exact fields_rangeTableByTime _ _ _
  · cases h
    rfl

theorem fields_dropEventTime (table : Plan) :
    (dropEventTime table).fields = table.fields.filter (· ≠ eventTimeAttributeName) := by
  unfold dropEventTime
  split
  · rfl
  · exact (List.filter_eq_self.2 fun f hf => decide_eq_true (ne_of_mem_of_not_mem hf ‹_›)).symm

end Fields

/-- From every cache a session holds, a build that returns gives the columns `buildSchema`
determines from the descriptor and the key set alone: the key columns first, then the other
columns the descriptor compiles to; never the event-time column. -/
theorem build_fields {registry : Registry} {σ σ' : Cache} (hσ : CacheValid registry σ)
    {fuel : Nat}
    {features : TableDescriptor} {keys : Option Keys} {startDatetime endDatetime : Option Datetime}
    {plan : Plan}
    (h : build registry fuel features keys startDatetime endDatetime σ = some (.ok plan, σ')) :
    plan.fields = buildSchema features keys ∧ eventTimeAttributeName ∉ plan.fields := by
  obtain ⟨table, keyTable, keyed, ranged, htable, hkt, hks, hr, rfl⟩ := build_eq_ok hσ h
  have hfields : (dropEventTime ranged).fields = buildSchema features keys := by
    rw [fields_dropEventTime, fields_rangeByTime hr]
    match keys, keyTable, hkt, hks with
    | none, _, rfl, hks =>
      cases hks
      rw [fields_of_specResult htable]
      rfl
    | some (.dataFrame _), _, rfl, hks =>
      rw [fields_joinByKeys hks, fields_of_specResult htable]
      rfl
    | some (.descriptor _), _, ⟨_, rfl, hspec⟩, hks =>
      rw [fields_joinByKeys hks, fields_of_specResult htable, fields_of_specResult hspec]
      rfl
  exact ⟨hfields, hfields ▸ eventTime_not_mem_buildSchema features keys⟩

theorem build_fields_viewY :
    CacheValid emptyRegistry sessionX ∧
    ∃ plan σ', build emptyRegistry 2 viewY (some (.descriptor sourceX)) (some halfPastMidnight)
        none sessionX = some (.ok plan, σ') ∧
      plan.fields = buildSchema viewY (some (.descriptor sourceX)) ∧
      eventTimeAttributeName ∉ plan.fields :=
  ⟨cacheValid_sessionX, _, _, rfl, @build_fields emptyRegistry sessionX _ cacheValid_sessionX 2
    viewY (some (.descriptor sourceX)) (some halfPastMidnight) none _ rfl⟩

/-! ## The rows of a build -/

/-- Whether a row's event time is in the range a build keeps: at or after the start and before
the end, each bound cut to the second, as `_range_table_by_time` writes it out. -/
def inTimeRange (startDatetime endDatetime : Option Datetime) (r : Row) : Bool :=
  (startDatetime.all fun start =>
    (eventTimeOf r).any fun t => decide (start.truncateToSecond ≤ t)) &&
  (endDatetime.all fun stop => (eventTimeOf r).any fun t => decide (t < stop.truncateToSecond))

/-- The rows of the key step: the table's rows, or the rows of the table that match a key row
on every column of the key table (`join_table_on_key`). -/
def keyedRows (engine : Engine) (table : Plan) : Option Plan → List Row
  | none => table.eval engine
  | some keyTable =>
    joinOnKeyRows keyTable.fields keyTable.fields table.fields (keyTable.eval engine)
      (table.eval engine)

/-- The rows a build means, on an engine: the keyed rows in the time range, each without its
event-time cell. -/
def buildRows (engine : Engine) (table : Plan) (keyTable : Option Plan)
    (startDatetime endDatetime : Option Datetime) : List Row :=
  ((keyedRows engine table keyTable).filter (inTimeRange startDatetime endDatetime)).map
    (·.filter (·.1 ≠ eventTimeAttributeName))

section Rows

variable {engine : Engine} {features : TableDescriptor} {table keyed ranged : Plan}
  {keyTable : Option Plan} {startDatetime endDatetime : Option Datetime}

theorem eval_keyStep (h : keyStep table keyTable = .ok keyed) :
    keyed.eval engine = keyedRows engine table keyTable := by
  cases keyTable with
  | none => cases h; rfl
  | some keyTable =>
    rw [joinByKeys_eq_ok (show joinByKeys table keyTable = .ok keyed from h)]
    rfl

theorem eval_rangeByTime (hstart : ∀ s ∈ startDatetime, 1000 ≤ s.year)
    (hend : ∀ e ∈ endDatetime, 1000 ≤ e.year)
    (h : rangeByTime features table startDatetime endDatetime = .ok ranged) :
    ranged.eval engine = (table.eval engine).filter (inTimeRange startDatetime endDatetime) := by
  unfold rangeByTime at h
  split at h
  · split at h
    · cases h
    · cases h
      exact eval_rangeTableByTime _ _ hstart hend
  · cases h
    obtain ⟨rfl, rfl⟩ : startDatetime = none ∧ endDatetime = none := by
      cases startDatetime <;> cases endDatetime <;> simp_all
    exact (List.filter_eq_self.2 fun _ _ => rfl).symm

theorem eventTime_mem_keyStep (ht : eventTimeAttributeName ∈ table.fields)
    (h : keyStep table keyTable = .ok keyed) : eventTimeAttributeName ∈ keyed.fields := by
  cases keyTable with
  | none => cases h; exact ht
  | some keyTable =>
    rw [fields_joinByKeys h]
    by_cases hk : eventTimeAttributeName ∈ keyTable.fields
    · exact List.mem_append_left _ hk
    · exact List.mem_append_right _ (List.mem_filter.2 ⟨ht, decide_eq_true hk⟩)

theorem eval_dropEventTime_of_mem (h : eventTimeAttributeName ∈ table.fields) :
    (dropEventTime table).eval engine =
      (table.eval engine).map (·.filter (·.1 ≠ eventTimeAttributeName)) := by
  rw [dropEventTime, if_pos h]
  rfl

end Rows

/-- From every valid cache, a build that returns gives, on every engine, the rows of the
uncached compile of its descriptor that match a row of the uncached key table, those in the time
range cut to the second, each without its event-time cell: the event-time column is always there
to drop. The bounds are those of years of four digits, which `strftime` writes as
`TO_TIMESTAMP` reads them. -/
theorem build_rows {registry : Registry} {σ σ' : Cache} (hσ : CacheValid registry σ) {fuel : Nat}
    {features : TableDescriptor} {keys : Option Keys} {startDatetime endDatetime : Option Datetime}
    (hstart : ∀ s ∈ startDatetime, 1000 ≤ s.year) (hend : ∀ e ∈ endDatetime, 1000 ≤ e.year)
    {plan : Plan}
    (h : build registry fuel features keys startDatetime endDatetime σ = some (.ok plan, σ')) :
    ∃ table keyTable, SpecResult registry features (.ok table) ∧
      KeyTableOf registry keys keyTable ∧
      ∀ engine, plan.eval engine = buildRows engine table keyTable startDatetime endDatetime := by
  obtain ⟨table, keyTable, keyed, ranged, htable, hkt, hks, hr, rfl⟩ := build_eq_ok hσ h
  refine ⟨table, keyTable, htable, hkt, fun engine => ?_⟩
  have hmem : eventTimeAttributeName ∈ ranged.fields :=
    fields_rangeByTime hr ▸ eventTime_mem_keyStep (eventTime_mem_of_specResult htable) hks
  rw [eval_dropEventTime_of_mem hmem, eval_rangeByTime hstart hend hr, eval_keyStep hks]
  rfl

theorem build_rows_viewY :
    CacheValid emptyRegistry sessionX ∧ (∀ s ∈ some halfPastMidnight, 1000 ≤ s.year) ∧
    (∀ e ∈ (none : Option Datetime), 1000 ≤ e.year) ∧
    ∃ plan σ', build emptyRegistry 2 viewY (some (.descriptor sourceX)) (some halfPastMidnight)
        none sessionX = some (.ok plan, σ') ∧
      ∃ table keyTable, SpecResult emptyRegistry viewY (.ok table) ∧
        KeyTableOf emptyRegistry (some (.descriptor sourceX)) keyTable ∧
        ∀ engine, plan.eval engine =
          buildRows engine table keyTable (some halfPastMidnight) none :=
  have hstart : ∀ s ∈ some halfPastMidnight, 1000 ≤ s.year := fun _ h => by cases h; decide
  have hend : ∀ e ∈ (none : Option Datetime), 1000 ≤ e.year := fun _ h => nomatch h
  ⟨cacheValid_sessionX, hstart, hend, _, _, rfl, @build_rows emptyRegistry sessionX _
    cacheValid_sessionX 2 viewY (some (.descriptor sourceX)) (some halfPastMidnight) none hstart
    hend _ rfl⟩

end Feathub
