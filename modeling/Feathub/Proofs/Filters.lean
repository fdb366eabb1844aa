import Feathub.Proofs.Sessions
import Feathub.Semantics

/-!
# Filters — the time range and the key filter of `build`

`_range_table_by_time` writes each bound out with `strftime("%Y-%m-%d %H:%M:%S")`, which has
no directive for the microseconds, and reads it back with `TO_TIMESTAMP`. So, for bounds whose
year has four digits:

* `passesEventTime_strftime` : a bound compares as its whole second;
* `eval_rangeTableByTime` : the rows kept are those whose event time is at or after the start
  cut to the second and before the end cut to the second;
* `build_keeps_row_before_start` : a build keeps a row half a second before its start.

`_filter_table_by_keys` joins on every field of the key table, and a descriptor's key table is
a compiled table, which carries the event-time column:

* `eventTime_mem_getTable` : every table `_get_table` returns from a valid cache has it;
* `filterTableByKeys_joins` : the key filter as a whole: the rows of the table that match a key
  row on every field of the key table, each once;
* `key_filter_matches_event_time` : a row matching a key row on every column `build` shows of
  the keys is dropped, because its event time differs.
-/

namespace Feathub

open Build

/-- The event time of a row, when its event-time cell holds a timestamp. -/
def eventTimeOf (r : Row) : Option Datetime :=
  match r.get eventTimeAttributeName with
  | .timestamp t => some t
  | _ => none

/-- The bound `strftime` writes and `TO_TIMESTAMP` reads back is the bound cut to the second. -/
theorem passesEventTime_strftime (op : Comparison) {bound : Datetime} (hyear : 1000 ≤ bound.year) :
    passesEventTime op (bound.strftime "%Y-%m-%d %H:%M:%S") = fun r =>
      (eventTimeOf r).any fun t => match op with
        | .ge => decide (bound.truncateToSecond ≤ t)
        | .lt => decide (t < bound.truncateToSecond) := by
  funext r
  unfold passesEventTime eventTimeOf
  rw [toTimestamp_strftime_seconds bound hyear]
  cases r.get eventTimeAttributeName <;> cases op <;> rfl

/-- The rows `_range_table_by_time` keeps: event time at or after the start and before the end,
each bound cut to the second. -/
theorem eval_rangeTableByTime (engine : Engine) (table : Plan)
    {startDatetime endDatetime : Option Datetime} (hstart : ∀ s ∈ startDatetime, 1000 ≤ s.year)
    (hend : ∀ e ∈ endDatetime, 1000 ≤ e.year) :
    (rangeTableByTime table startDatetime endDatetime).eval engine =
      (table.eval engine).filter fun r =>
        (startDatetime.all fun start =>
          (eventTimeOf r).any fun t => decide (start.truncateToSecond ≤ t)) &&
        (endDatetime.all fun stop =>
          (eventTimeOf r).any fun t => decide (t < stop.truncateToSecond)) := by
  cases startDatetime <;> cases endDatetime <;>
    simp_all [rangeTableByTime, Plan.eval, passesEventTime_strftime, List.filter_filter,
      Bool.and_comm]

/-- The executor that runs no collaborator; enough for plans built from a data frame. -/
def idleEngine : Engine :=
  ⟨fun _ => [], fun _ _ => .null, fun v _ => v, fun _ _ _ => [], fun _ _ _ => [],
    fun _ _ _ _ => []⟩

/-- 2024-01-01 00:00:00.500000. -/
def halfPastMidnight : Datetime := ⟨2024, 1, 1, 0, 0, 0, 500000, by decide, by decide, by decide,
  by decide, by decide, by decide, by decide⟩

/-- 2024-01-01 00:00:00.200000. -/
def fifthPastMidnight : Datetime := ⟨2024, 1, 1, 0, 0, 0, 200000, by decide, by decide,
  by decide, by decide, by decide, by decide, by decide⟩

/-- A feature table of clicks, stamped by `ts`. -/
def clicks : TableDescriptor := .featureTable "clicks" ["ts"] (some "ts") "epoch"

/-- One click at 00:00:00.2, its event time read from `ts`. -/
def clickEngine : Engine :=
  { idleEngine with
    scan := fun _ => [[("ts", .timestamp fifthPastMidnight),
      (eventTimeAttributeName, .timestamp fifthPastMidnight)]] }

/-- The build from 00:00:00.5 on returns the click at 00:00:00.2. -/
theorem build_keeps_row_before_start :
    fifthPastMidnight < halfPastMidnight ∧
    ∃ plan σ, build emptyRegistry 1 clicks none (some halfPastMidnight) none Dict.empty =
        some (.ok plan, σ) ∧
      plan.eval clickEngine = [[("ts", .timestamp fifthPastMidnight)]] :=
  ⟨by decide, _, _, rfl, by decide⟩

/-! ## The key filter -/

theorem eventTime_mem_scanFields (d : TableDescriptor) :
    eventTimeAttributeName ∈ d.scanFields := by
  unfold TableDescriptor.scanFields
  split
  · split <;> simp [*]
  · exact List.mem_singleton_self _

/-- A chain of `Except` steps that returned: its first step returned. -/
theorem eventTime_mem_compileDerivedFeatureView {featureView : TableDescriptor}
    {sourceTable table : Plan} {descriptorsByNames : Dict String TableDescriptor}
    {tableByNames : Dict String Plan}
    (h : compileDerivedFeatureView featureView sourceTable descriptorsByNames tableByNames =
      .ok table) : eventTimeAttributeName ∈ table.fields := by
  obtain ⟨_, -, h⟩ := except_bind_eq_ok h
  obtain ⟨_, -, h⟩ := except_bind_eq_ok h
  cases h
  exact eventTime_mem_getOutputFields _ _

theorem eventTime_mem_compileSlidingFeatureView {featureView : TableDescriptor}
    {sourceTable table : Plan} (h : compileSlidingFeatureView featureView sourceTable = .ok table) :
    eventTimeAttributeName ∈ table.fields := by
  obtain ⟨_, -, h⟩ := except_bind_eq_ok h
  cases h
  exact eventTime_mem_getOutputFields _ _

/-- Whatever `_get_table` the dispatch calls, the table it returns has the event-time column. -/
theorem eventTime_mem_compileTableDescriptor {get : TableDescriptor → Build Plan}
    {registry : Registry} {features : TableDescriptor} {σ σ' : Cache} {table : Plan}
    (h : compileTableDescriptor get registry features σ = some (.ok table, σ')) :
    eventTimeAttributeName ∈ table.fields := by
  cases features with
  | featureTable =>
    cases h
    exact eventTime_mem_scanFields _
  | derivedFeatureView =>
    simp only [compileTableDescriptor, getTableFromDerivedFeatureView] at h
    rcases bind_eq_some h with ⟨_, -, he⟩ | ⟨_, _, -, h⟩
    · cases he
    rcases bind_eq_some h with ⟨_, -, he⟩ | ⟨_, _, -, h⟩
    · cases he
    simp only [ofExcept_apply, Option.some.injEq, Prod.mk.injEq] at h
    exact eventTime_mem_compileDerivedFeatureView h.1
  | slidingFeatureView =>
    simp only [compileTableDescriptor, getTableFromSlidingFeatureView] at h
    rcases bind_eq_some h with ⟨_, -, he⟩ | ⟨_, _, -, h⟩
    · cases he
    simp only [ofExcept_apply, Option.some.injEq, Prod.mk.injEq] at h
    exact eventTime_mem_compileSlidingFeatureView h.1
  | other => cases h

theorem eventTime_mem_of_specResult {registry : Registry} {features : TableDescriptor}
    {table : Plan} (h : SpecResult registry features (.ok table)) :
    eventTimeAttributeName ∈ table.fields := by
  obtain ⟨_ | fuel, h⟩ := h
  · cases h
  obtain ⟨⟨_, σ'⟩, hc, hr⟩ := Option.map_eq_some.1 h
  cases hr
  exact eventTime_mem_compileTableDescriptor hc

/-- Every table `_get_table` returns from a valid cache carries the event-time column. -/
theorem eventTime_mem_getTable {registry : Registry} {fuel : Nat} {features : TableDescriptor}
    {σ σ' : Cache} {table : Plan} (hσ : CacheValid registry σ)
    (h : getTable registry fuel features σ = some (.ok table, σ')) :
    eventTimeAttributeName ∈ table.fields := by
  obtain ⟨-, -, hspec | ⟨_, he, -⟩⟩ := getTable_sound fuel features σ _ σ' hσ h
  · exact eventTime_mem_of_specResult hspec
  · cases he

theorem joinByKeys_eq_error_iff {table keyTable : Plan} :
    (∃ e, joinByKeys table keyTable = .error e) ↔
      ∃ f ∈ keyTable.fields, f ∉ table.fields := by
  unfold joinByKeys
  split
  · rename_i f hf
    exact iff_of_true ⟨_, rfl⟩
      ⟨f, List.mem_of_find?_eq_some hf, by simpa using List.find?_some hf⟩
  · rename_i hf
    refine iff_of_false (fun ⟨_, he⟩ => nomatch he) fun ⟨f, hmem, hnot⟩ => ?_
    simpa [hnot] using List.find?_eq_none.1 hf f hmem

/-- `_filter_table_by_keys`. It builds the key table: a data frame as it is, a descriptor by
`_get_table`, so with the event-time column. It raises when that raises or when a field of the
key table is missing from the table; otherwise its rows are the rows of the table that match
some key row on every field of the key table, in order, each once whatever rows the key table
repeats, with the key table's fields first. -/
theorem filterTableByKeys_joins (registry : Registry) {σ : Cache} (hσ : CacheValid registry σ)
    (fuel : Nat) (table : Plan) (keys : Keys) {r : Except BuildError Plan} {σ' : Cache}
    (h : filterTableByKeys registry fuel table keys σ = some (r, σ')) :
    ∃ rk, getKeyTable registry fuel keys σ = some (rk, σ') ∧
      (∀ e, rk = .error e → r = .error e) ∧
      ∀ keyTable, rk = .ok keyTable →
        (∀ df, keys = .dataFrame df → keyTable = .fromPandas df) ∧
        (∀ K, keys = .descriptor K → eventTimeAttributeName ∈ keyTable.fields) ∧
        ((∃ e, r = .error e) ↔ ∃ f ∈ keyTable.fields, f ∉ table.fields) ∧
        ∀ plan, r = .ok plan → ∀ engine, plan.eval engine =
          ((table.eval engine).filter fun t =>
            (keyTable.eval engine).any fun k => keysMatch keyTable.fields k t).map fun t =>
              (keyTable.fields ++ table.fields.filter (· ∉ keyTable.fields)).map
                fun f => (f, t.get f) := by
  unfold filterTableByKeys at h
  rcases bind_eq_some h with ⟨e, hk, rfl⟩ | ⟨keyTable, σ₁, hk, h⟩
  · exact ⟨_, hk, fun _ he => by cases he; rfl, fun _ he => by cases he⟩
  simp only [ofExcept_apply, Option.some.injEq, Prod.mk.injEq] at h
  obtain ⟨rfl, rfl⟩ := h
  refine ⟨_, hk, fun _ he => ?_, fun _ he => ?_⟩
  · cases he
  cases he
  refine ⟨fun df hdf => ?_, fun K hK => ?_, joinByKeys_eq_error_iff,
    fun plan hplan engine => ?_⟩
  · subst hdf
    cases hk
    rfl
  · subst hK
    exact eventTime_mem_getTable hσ hk
  · unfold joinByKeys at hplan
    split at hplan
    · cases hplan
    · cases hplan
      rfl

/-- A key set holding the click's time twice. -/
def repeatedClickKeys : DataFrame :=
  ⟨["ts"], [[.timestamp fifthPastMidnight], [.timestamp fifthPastMidnight]]⟩

theorem filterTableByKeys_joins_clicks :
    ∃ plan σ', filterTableByKeys emptyRegistry 1 (.source clicks) (.dataFrame repeatedClickKeys)
        Dict.empty = some (.ok plan, σ') ∧
      plan.eval clickEngine = [[("ts", .timestamp fifthPastMidnight),
        (eventTimeAttributeName, .timestamp fifthPastMidnight)]] ∧
      ∃ rk, getKeyTable emptyRegistry 1 (.dataFrame repeatedClickKeys) Dict.empty = some (rk, σ') ∧
        (∀ e, rk = .error e → (.ok plan : Except BuildError Plan) = .error e) ∧
        ∀ keyTable, rk = .ok keyTable →
          (∀ df, Keys.dataFrame repeatedClickKeys = .dataFrame df → keyTable = .fromPandas df) ∧
          (∀ K, Keys.dataFrame repeatedClickKeys = .descriptor K →
            eventTimeAttributeName ∈ keyTable.fields) ∧
          ((∃ e, (.ok plan : Except BuildError Plan) = .error e) ↔
            ∃ f ∈ keyTable.fields, f ∉ (Plan.source clicks).fields) ∧
          ∀ plan', (.ok plan : Except BuildError Plan) = .ok plan' → ∀ engine, plan'.eval engine =
            (((Plan.source clicks).eval engine).filter fun t =>
              (keyTable.eval engine).any fun k => keysMatch keyTable.fields k t).map fun t =>
                (keyTable.fields ++ (Plan.source clicks).fields.filter (· ∉ keyTable.fields)).map
                  fun f => (f, t.get f) :=
  ⟨_, _, rfl, by decide, @filterTableByKeys_joins emptyRegistry Dict.empty cacheValid_empty 1
    (.source clicks) (.dataFrame repeatedClickKeys) _ _ rfl⟩

/-! ## Keys compared on their event time -/

/-- Users, stamped by their sign-up time. -/
def users : TableDescriptor :=
  .featureTable "users" ["user_id", "signup_ts"] (some "signup_ts") "epoch"

/-- A view keeping every field of `users`. -/
def activeUsers : TableDescriptor :=
  .derivedFeatureView "active_users" users [] true (some "signup_ts") "epoch" false

/-- Logins, stamped by the login time, with the user's sign-up time. -/
def logins : TableDescriptor :=
  .featureTable "logins" ["user_id", "signup_ts", "login_ts"] (some "login_ts") "epoch"

/-- The user who signed up at 00:00:00.2. -/
def userRow : Row :=
  [("user_id", .int 1), ("signup_ts", .timestamp fifthPastMidnight),
    (eventTimeAttributeName, .timestamp fifthPastMidnight)]

/-- That user's login at 00:00:00.5. -/
def loginRow : Row :=
  [("user_id", .int 1), ("signup_ts", .timestamp fifthPastMidnight),
    ("login_ts", .timestamp halfPastMidnight),
    (eventTimeAttributeName, .timestamp halfPastMidnight)]

/-- Each table scans to its one row, its event time read from its timestamp field. -/
def loginEngine : Engine :=
  { idleEngine with
    scan := fun d => match d.name with
      | "users" => [userRow]
      | "logins" => [loginRow]
      | _ => [] }

/-- `build(active_users)` shows the user's id and sign-up time; the login row has both, yet
filtering the logins by the keys `active_users` drops it. -/
theorem key_filter_matches_event_time :
    (∃ shown σ, build emptyRegistry 2 activeUsers none none none Dict.empty =
        some (.ok shown, σ) ∧
      shown.eval loginEngine =
        [[("user_id", .int 1), ("signup_ts", .timestamp fifthPastMidnight)]]) ∧
    (Plan.source logins).eval loginEngine = [loginRow] ∧
    ∃ plan σ, filterTableByKeys emptyRegistry 2 (.source logins) (.descriptor activeUsers)
        Dict.empty = some (.ok plan, σ) ∧
      plan.eval loginEngine = [] :=
  ⟨⟨_, _, rfl, by decide⟩, rfl, _, _, rfl, by decide⟩

end Feathub
