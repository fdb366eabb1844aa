import Feathub.Proofs.Cache
import Feathub.Proofs.Dispatch

/-!
# Pipeline — the calls a view's compile makes

The builder makes a table by a chain of Table API calls, `tmp_table = tmp_table.xxx(...)`, and
a join continues its left table. `Plan.steps` lists those calls in order, each with the table
it is made on, so what a compile issues can be read off the plan it returns:

* `tmpTable_foldlM_derivedFeatureStep` : the dispatch loops evaluate each expression they do not
  skip on the accumulating table, by one `add_or_replace_columns` (`dispatchExpression`);
* `steps_compileDerivedFeatureView` : after the accumulating table's calls, a derived view's
  compile makes one `evaluate_over_window_transform` per entry of the window map, then one
  `temporal_join` per entry of the join map, against the named table projected to the fields of
  the entry's descriptor map, then the final `select`; each is made on a table with every column
  of the accumulating table;
* `MergedFrom` and `steps_compileSlidingFeatureView` : a sliding view's merge loop makes the
  first batch's `evaluate_sliding_window_transform` on the accumulating table, then for each
  further batch a `full_outer_join_on_key_with_default_value` with that batch's sliding window,
  again on the accumulating table;
* `window_batches_of_dispatch` : so the window calls of either compile are one per distinct
  descriptor of the dispatched window features, each with `from_feature` of exactly its
  features.
-/

namespace Feathub

/-- One Table API call on a table, with its arguments but that table. -/
inductive Call where
  | addOrReplaceColumns (expr : String) (resultType : DType) (name : String)
  | overWindow (window : OverWindowDescriptor) (aggs : List AggregationFieldDescriptor)
  | slidingWindow (window : SlidingWindowDescriptor) (aggs : List AggregationFieldDescriptor)
  | select (fields : List String)
  | temporalJoin (right : Plan) (keys : List String)
      (descriptors : List (String × JoinFieldDescriptor))
  | fullOuterJoin (right : Plan) (keys : List String) (defaults : List (String × (Value × DType)))
  | joinOnKey (right : Plan) (keys : List String)
  | filterEventTime (op : Comparison) (literal : String)
  | addColumns (sql : String) (aliasName : String)
  | dropColumns (name : String)
  deriving DecidableEq

/-- The calls made from a plan's scan or data frame on, in order, each with the table it is
made on; a join is a call on its left table. -/
def Plan.steps : Plan → List (Plan × Call)
  | .source _ | .fromPandas _ => []
  | .addOrReplaceColumns table expr resultType name =>
    table.steps ++ [(table, .addOrReplaceColumns expr resultType name)]
  | .overWindow table window aggs => table.steps ++ [(table, .overWindow window aggs)]
  | .slidingWindow table window aggs => table.steps ++ [(table, .slidingWindow window aggs)]
  | .select table fields => table.steps ++ [(table, .select fields)]
  | .temporalJoin left right keys descriptors =>
    left.steps ++ [(left, .temporalJoin right keys descriptors)]
  | .fullOuterJoin left right keys defaults =>
    left.steps ++ [(left, .fullOuterJoin right keys defaults)]
  | .joinOnKey left right keys => left.steps ++ [(left, .joinOnKey right keys)]
  | .filterEventTime table op literal => table.steps ++ [(table, .filterEventTime op literal)]
  | .addColumns table sql aliasName => table.steps ++ [(table, .addColumns sql aliasName)]
  | .dropColumns table name => table.steps ++ [(table, .dropColumns name)]

/-- The calls of a plan, in order. -/
def Plan.calls (p : Plan) : List Call := p.steps.map Prod.snd

/-- The call that evaluates an expression feature: `add_or_replace_columns` of its expression,
cast to its type, under its name. -/
def expressionCall (f : Feature) : Option Call :=
  match f.transform with
  | .expression expr => some (.addOrReplaceColumns expr f.dtype f.name)
  | _ => none

/-- The accumulating table after the turn of `f`: an expression whose name is not a column yet
is evaluated on it; any other feature leaves it. -/
def dispatchExpression (table : Plan) (f : Feature) : Plan :=
  if f.name ∈ table.fields then table else
  match f.transform with
  | .expression expr => evaluateExpressionTransform table expr f.name f.dtype
  | _ => table

/-- A loop that returned ran every turn: the turns before `f` returned, and so did `f`'s. -/
theorem foldlM_turn_ok {ε σ α : Type} {step : σ → α → Except ε σ} {processed rest l : List α}
    {f : α} {init st : σ} (hl : processed ++ f :: rest = l) (h : l.foldlM step init = .ok st) :
    ∃ st₁ st₂, processed.foldlM step init = .ok st₁ ∧ step st₁ f = .ok st₂ := by
  rw [← hl, List.foldlM_append] at h
  obtain ⟨st₁, h₁, h⟩ := except_bind_eq_ok h
  rw [List.foldlM_cons] at h
  obtain ⟨st₂, h₂, -⟩ := except_bind_eq_ok h
  exact ⟨st₁, st₂, h₁, h₂⟩

/-! ## The accumulating table -/

section Expressions

theorem fields_dispatchExpression (table : Plan) (f : Feature) :
    (dispatchExpression table f).fields = fieldsAfter table.fields f := by
  unfold dispatchExpression
  split
  · exact (fieldsAfter_of_mem ‹_›).symm
  next hmem =>
    cases htr : f.transform with
    | expression expr =>
      simp only [htr]
      exact (fieldsAfter_of_expression hmem htr).symm
    | _ =>
      simp only [htr]
      exact (fieldsAfter_of_isExpression_eq_false (by rw [htr]; rfl)).symm

theorem calls_dispatchExpression (table : Plan) (f : Feature) :
    (dispatchExpression table f).calls =
      table.calls ++ (dispatchedAt table.fields f).filterMap expressionCall := by
  unfold dispatchExpression dispatchedAt
  split
  · simp
  · split <;> simp_all [expressionCall, evaluateExpressionTransform, Plan.calls, Plan.steps]

/-- The accumulating table's own calls: one `add_or_replace_columns` per dispatched expression,
in order. -/
theorem calls_foldl_dispatchExpression (table : Plan) (fs : List Feature) :
    (fs.foldl dispatchExpression table).calls =
      table.calls ++ (dispatchedFeatures table.fields fs).filterMap expressionCall := by
  induction fs generalizing table with
  | nil => simp [dispatchedFeatures]
  | cons f fs ih =>
    rw [List.foldl_cons, ih, calls_dispatchExpression, fields_dispatchExpression,
      dispatchedFeatures_cons, List.filterMap_append, List.append_assoc]

variable {timestampField : Option String} {sourceFields : List String}
  {descriptorsByNames : Dict String TableDescriptor}

theorem tmpTable_derivedFeatureStep {st st' : DerivedState} {f : Feature}
    (h : derivedFeatureStep timestampField sourceFields descriptorsByNames st f = .ok st') :
    st'.tmpTable = dispatchExpression st.tmpTable f := by
  unfold dispatchExpression
  rcases derivedFeatureStep_eq_ok h with ⟨hmem, rfl⟩ | ⟨hmem, hcase⟩
  · rw [if_pos hmem]
  rw [if_neg hmem]
  rcases hcase with ⟨_, htr, rfl⟩ | ⟨_, htr, -, rfl⟩ | ⟨_, _, _, _, _, htr, -, -, -, -, rfl⟩ <;>
    simp only [htr]

theorem tmpTable_slidingFeatureStep {st st' : SlidingState} {f : Feature}
    (h : slidingFeatureStep timestampField st f = .ok st') :
    st'.tmpTable = dispatchExpression st.tmpTable f := by
  unfold dispatchExpression
  rcases slidingFeatureStep_eq_ok h with ⟨hmem, rfl⟩ | ⟨hmem, hcase⟩
  · rw [if_pos hmem]
  rw [if_neg hmem]
  rcases hcase with ⟨_, htr, rfl⟩ | ⟨_, htr, -, rfl⟩ <;> simp only [htr]

/-- The derived loop's accumulating table is the expressions it does not skip, evaluated in
turn on its first table. -/
theorem tmpTable_foldlM_derivedFeatureStep {fs : List Feature} {st st' : DerivedState}
    (h : fs.foldlM (derivedFeatureStep timestampField sourceFields descriptorsByNames) st =
      .ok st') : st'.tmpTable = fs.foldl dispatchExpression st.tmpTable := by
  induction fs generalizing st with
  | nil => cases h; rfl
  | cons f fs ih =>
    rw [List.foldlM_cons] at h
    obtain ⟨st₁, hstep, hrest⟩ := except_bind_eq_ok h
    rw [ih hrest, tmpTable_derivedFeatureStep hstep]
    rfl

theorem tmpTable_foldlM_slidingFeatureStep {fs : List Feature} {st st' : SlidingState}
    (h : fs.foldlM (slidingFeatureStep timestampField) st = .ok st') :
    st'.tmpTable = fs.foldl dispatchExpression st.tmpTable := by
  induction fs generalizing st with
  | nil => cases h; rfl
  | cons f fs ih =>
    rw [List.foldlM_cons] at h
    obtain ⟨st₁, hstep, hrest⟩ := except_bind_eq_ok h
    rw [ih hrest, tmpTable_slidingFeatureStep hstep]
    rfl

end Expressions

/-! ## The phases after the derived loop -/

/-- The over-window phase: one call per entry of the window map, in order, each on a table with
every column of the phase's first table. -/
theorem steps_applyOverWindows (table : Plan)
    (windowAggMap : Dict OverWindowDescriptor (List AggregationFieldDescriptor)) :
    ∃ windows, (applyOverWindows table windowAggMap).steps = table.steps ++ windows ∧
      windows.map Prod.snd = windowAggMap.entries.map (fun b => .overWindow b.1 b.2) ∧
      (∀ s ∈ windows, table.fields <+: s.1.fields) ∧
      table.fields <+: (applyOverWindows table windowAggMap).fields := by
  unfold applyOverWindows
  induction windowAggMap.entries generalizing table with
  | nil => exact ⟨[], by simp, rfl, nofun, List.prefix_refl _⟩
  | cons batch rest ih =>
    obtain ⟨windows, hsteps, hcalls, hkeeps, hlast⟩ := ih (.overWindow table batch.1 batch.2)
    have hnext : table.fields <+: (Plan.overWindow table batch.1 batch.2).fields :=
      List.prefix_append _ _
    refine ⟨(table, .overWindow batch.1 batch.2) :: windows, ?_, by simp [hcalls], ?_,
      hnext.trans hlast⟩
    · rw [List.foldl_cons, hsteps]
      simp [Plan.steps]
    · intro s hs
      rcases List.mem_cons.1 hs with rfl | hs
      exacts [List.prefix_refl _, hnext.trans (hkeeps s hs)]

/-- The join phase: one `temporal_join` per entry of the join map, in order, against the named
table projected to the fields of the entry's descriptor map; each on a table with every column
of the phase's first table. -/
theorem steps_applyTemporalJoins {tableByNames : Dict String Plan} {table joined : Plan}
    {rightTables : Dict (String × List String) (Dict String JoinFieldDescriptor)}
    (h : applyTemporalJoins tableByNames table rightTables = .ok joined) :
    ∃ joins, joined.steps = table.steps ++ joins ∧
      List.Forall₂ (fun batch s => ∃ right, tableByNames.get? batch.1.1 = some right ∧
          s.2 = .temporalJoin (.select right batch.2.keys) batch.1.2 batch.2.entries)
        rightTables.entries joins ∧
      (∀ s ∈ joins, table.fields <+: s.1.fields) ∧ table.fields <+: joined.fields := by
  unfold applyTemporalJoins at h
  generalize rightTables.entries = batches at h
  induction batches generalizing table with
  | nil => cases h; exact ⟨[], by simp, .nil, nofun, List.prefix_refl _⟩
  | cons batch rest ih =>
    rw [List.foldlM_cons] at h
    obtain ⟨joined₁, hbatch, hrest⟩ := except_bind_eq_ok h
    unfold temporalJoinBatch at hbatch
    split at hbatch
    · cases hbatch
    next right hright =>
      cases hbatch
      obtain ⟨joins, hsteps, hcalls, hkeeps, hlast⟩ := ih hrest
      have hnext : table.fields <+:
          (Plan.temporalJoin table (.select right batch.2.keys) batch.1.2 batch.2.entries).fields :=
        List.prefix_append _ _
      refine ⟨(table, .temporalJoin (.select right batch.2.keys) batch.1.2 batch.2.entries) ::
        joins, ?_, .cons ⟨right, hright, rfl⟩ hcalls, ?_, hnext.trans hlast⟩
      · rw [hsteps]
        simp [Plan.steps]
      · intro s hs
        rcases List.mem_cons.1 hs with rfl | hs
        exacts [List.prefix_refl _, hnext.trans (hkeeps s hs)]

/-- Every call of the join phase is a temporal join. -/
theorem temporalJoin_of_forall₂ {tableByNames : Dict String Plan}
    {batches : List ((String × List String) × Dict String JoinFieldDescriptor)}
    {joins : List (Plan × Call)}
    (h : List.Forall₂ (fun batch s => ∃ right, tableByNames.get? batch.1.1 = some right ∧
      s.2 = .temporalJoin (.select right batch.2.keys) batch.1.2 batch.2.entries) batches joins) :
    ∀ s ∈ joins, ∃ right keys descriptors, s.2 = .temporalJoin right keys descriptors := by
  induction h with
  | nil => exact fun _ hs => nomatch hs
  | cons hcall _ ih =>
    intro s hs
    rcases List.mem_cons.1 hs with rfl | hs
    · obtain ⟨_, -, hcall⟩ := hcall
      exact ⟨_, _, _, hcall⟩
    · exact ih s hs

/-- The calls of a derived view's compile after its dispatch loop: the over-window calls of the
window map, the temporal joins of the join map, the final `select`; every window call and every
join is made on a table with every column of the loop's accumulating table. -/
theorem steps_compileDerivedFeatureView {featureView : TableDescriptor} {sourceTable table : Plan}
    {descriptorsByNames : Dict String TableDescriptor} {tableByNames : Dict String Plan}
    (h : compileDerivedFeatureView featureView sourceTable descriptorsByNames tableByNames =
      .ok table) :
    ∃ st, derivedDispatch featureView sourceTable descriptorsByNames = .ok st ∧
      ∃ windows joins joined, table.steps = st.tmpTable.steps ++ windows ++ joins ++
          [(joined, .select (getOutputFields featureView sourceTable.fields))] ∧
        windows.map Prod.snd = st.windowAggMap.entries.map (fun b => .overWindow b.1 b.2) ∧
        List.Forall₂ (fun batch s => ∃ right, tableByNames.get? batch.1.1 = some right ∧
            s.2 = .temporalJoin (.select right batch.2.keys) batch.1.2 batch.2.entries)
          st.rightTables.entries joins ∧
        ∀ s ∈ windows ++ joins, st.tmpTable.fields <+: s.1.fields := by
  obtain ⟨st, hst, h⟩ := except_bind_eq_ok h
  obtain ⟨joined, hjoined, h⟩ := except_bind_eq_ok h
  cases h
  obtain ⟨windows, hwsteps, hwcalls, hwkeeps, hwlast⟩ :=
    steps_applyOverWindows st.tmpTable st.windowAggMap
  obtain ⟨joins, hjsteps, hjcalls, hjkeeps, -⟩ := steps_applyTemporalJoins hjoined
  refine ⟨st, hst, windows, joins, joined, ?_, hwcalls, hjcalls, fun s hs => ?_⟩
  · show joined.steps ++ _ = _
    rw [hjsteps, hwsteps]
  · rcases List.mem_append.1 hs with hs | hs
    exacts [hwkeeps s hs, hwlast.trans (hjkeeps s hs)]

/-- The derived loop's accumulating table: the source's calls, then one
`add_or_replace_columns` per dispatched expression. -/
theorem calls_derivedDispatch {featureView : TableDescriptor} {sourceTable : Plan}
    {descriptorsByNames : Dict String TableDescriptor} {st : DerivedState}
    (h : derivedDispatch featureView sourceTable descriptorsByNames = .ok st) :
    st.tmpTable.calls = sourceTable.calls ++
      (dispatchedFeatures sourceTable.fields (getDependentFeatures featureView)).filterMap
        expressionCall := by
  rw [tmpTable_foldlM_derivedFeatureStep h]
  exact calls_foldl_dispatchExpression _ _

theorem calls_slidingDispatch {featureView : TableDescriptor} {sourceTable : Plan}
    {st : SlidingState} (h : slidingDispatch featureView sourceTable = .ok st) :
    st.tmpTable.calls = sourceTable.calls ++
      (dispatchedFeatures sourceTable.fields (getDependentFeatures featureView)).filterMap
        expressionCall := by
  rw [tmpTable_foldlM_slidingFeatureStep h]
  exact calls_foldl_dispatchExpression _ _

/-! ## The merge loop of a sliding view -/

/-- What the merge loop made of the batches, from the accumulating table `tmpTable`: with no
batch, the table itself; else the first batch's sliding window on it, then for each further
batch a full outer join, on the group-by keys and the window time, with that batch's sliding
window on it. -/
def MergedFrom (tmpTable : Plan) :
    List (SlidingWindowDescriptor × List AggregationFieldDescriptor) → Plan → Prop
  | [], merged => merged = tmpTable
  | batch :: rest, merged => ∃ joins,
    merged.steps = tmpTable.steps ++ (tmpTable, .slidingWindow batch.1 batch.2) :: joins ∧
    List.Forall₂ (fun b s => ∃ defaults, s.2 = .fullOuterJoin (.slidingWindow tmpTable b.1 b.2)
      (b.1.groupByKeys ++ [eventTimeAttributeName]) defaults) rest joins

theorem steps_foldl_mergeStep (tmpTable : Plan)
    (rest : List (SlidingWindowDescriptor × List AggregationFieldDescriptor)) :
    ∀ (aggTable : Plan) (defaults : Dict String (Value × DType)), ∃ merged joins,
      (rest.foldl (mergeStep tmpTable) (some aggTable, defaults)).1 = some merged ∧
      merged.steps = aggTable.steps ++ joins ∧
      List.Forall₂ (fun b s => ∃ defaults, s.2 = .fullOuterJoin (.slidingWindow tmpTable b.1 b.2)
        (b.1.groupByKeys ++ [eventTimeAttributeName]) defaults) rest joins := by
  induction rest with
  | nil => exact fun aggTable _ => ⟨aggTable, [], rfl, by simp, .nil⟩
  | cons batch rest ih =>
    intro aggTable defaults
    obtain ⟨merged, joins, hmerged, hsteps, hjoins⟩ := ih _ _
    exact ⟨merged, (aggTable, .fullOuterJoin (.slidingWindow tmpTable batch.1 batch.2)
      (batch.1.groupByKeys ++ [eventTimeAttributeName]) (addFieldDefaults defaults batch.2).entries)
      :: joins, hmerged, by rw [hsteps]; simp [Plan.steps], .cons ⟨_, rfl⟩ hjoins⟩

theorem mergedFrom_mergeSlidingWindowAggs (tmpTable : Plan)
    (slidingWindowAggMap : Dict SlidingWindowDescriptor (List AggregationFieldDescriptor)) :
    MergedFrom tmpTable slidingWindowAggMap.entries
      ((mergeSlidingWindowAggs tmpTable slidingWindowAggMap).1.getD tmpTable) := by
  unfold mergeSlidingWindowAggs
  cases slidingWindowAggMap.entries with
  | nil => rfl
  | cons batch rest =>
    obtain ⟨merged, joins, hmerged, hsteps, hjoins⟩ :=
      steps_foldl_mergeStep tmpTable rest (.slidingWindow tmpTable batch.1 batch.2) _
    refine ⟨joins, ?_, hjoins⟩
    rw [List.foldl_cons]
    simp only [mergeStep] at hmerged ⊢
    rw [hmerged, Option.getD_some, hsteps]
    simp [Plan.steps]

/-- A sliding view's compile: the merge loop's calls on the accumulating table, then the
timestamp field and the final `select`. -/
theorem steps_compileSlidingFeatureView {featureView : TableDescriptor} {sourceTable table : Plan}
    (h : compileSlidingFeatureView featureView sourceTable = .ok table) :
    ∃ st merged, slidingDispatch featureView sourceTable = .ok st ∧
      MergedFrom st.tmpTable st.slidingWindowAggMap.entries merged ∧
      table = .select (addTimestampField featureView merged)
        (getOutputFields featureView sourceTable.fields) := by
  obtain ⟨st, hst, h⟩ := except_bind_eq_ok h
  cases h
  exact ⟨st, _, hst, mergedFrom_mergeSlidingWindowAggs _ _, rfl⟩

/-! ## Window batching -/

/-- Window batching. A derived view's compile makes, after the source's calls and one
`add_or_replace_columns` per dispatched expression, one `evaluate_over_window_transform` per
batch of the dispatched over-window features, then only temporal joins and the final `select`.
A sliding view's compile makes its sliding windows in the merge loop, one per batch of the
dispatched sliding-window features, each on the accumulating table. The batches are one per
distinct descriptor, in order of first occurrence, each holding `from_feature` of exactly the
dispatched features of its descriptor, in dependency order, each once. -/
theorem window_batches_of_dispatch :
    (∀ featureView sourceTable descriptorsByNames tableByNames table,
      compileDerivedFeatureView featureView sourceTable descriptorsByNames tableByNames =
        .ok table →
      let done := dispatchedFeatures sourceTable.fields (getDependentFeatures featureView)
      ∃ joins, table.calls = sourceTable.calls ++ done.filterMap expressionCall ++
          (batches overWindowDescriptorOf windowBatch done).map (fun b => .overWindow b.1 b.2) ++
          joins ++ [.select (getOutputFields featureView sourceTable.fields)] ∧
        ∀ c ∈ joins, ∃ right keys descriptors, c = .temporalJoin right keys descriptors) ∧
    (∀ featureView sourceTable table, compileSlidingFeatureView featureView sourceTable = .ok table →
      let done := dispatchedFeatures sourceTable.fields (getDependentFeatures featureView)
      ∃ st merged, slidingDispatch featureView sourceTable = .ok st ∧
        st.tmpTable.calls = sourceTable.calls ++ done.filterMap expressionCall ∧
        MergedFrom st.tmpTable (batches slidingWindowDescriptorOf windowBatch done) merged ∧
        table = .select (addTimestampField featureView merged)
          (getOutputFields featureView sourceTable.fields)) ∧
    ∀ fields featureView, (dispatchedFeatures fields (getDependentFeatures featureView)).Nodup := by
  refine ⟨fun featureView sourceTable descriptorsByNames tableByNames table h => ?_,
    fun featureView sourceTable table h => ?_, dispatchedFeatures_nodup⟩
  · obtain ⟨st, hst, windows, joins, joined, hsteps, hwindows, hjoins, -⟩ :=
      steps_compileDerivedFeatureView h
    refine ⟨joins.map Prod.snd, ?_, ?_⟩
    · rw [← entries_of_batchesOf (derivedDispatch_inv hst).windows, ← hwindows,
        ← calls_derivedDispatch hst, Plan.calls, hsteps]
      simp [Plan.calls]
    · intro c hc
      obtain ⟨s, hs, rfl⟩ := List.mem_map.1 hc
      exact temporalJoin_of_forall₂ hjoins s hs
  · obtain ⟨st, merged, hst, hmerged, rfl⟩ := steps_compileSlidingFeatureView h
    refine ⟨st, merged, hst, calls_slidingDispatch hst, ?_, rfl⟩
    rwa [← entries_of_batchesOf (slidingDispatch_inv hst).windows]

/-- Purchases by user. -/
def purchases : TableDescriptor :=
  .featureTable "purchases" ["user_id", "amount", "ts"] (some "ts") "epoch"

/-- An over-window aggregate of purchase amounts per user over the last minute. -/
def spendFeature (name aggFunc : String) : Feature :=
  ⟨name, ⟨"INT64"⟩, .overWindow ⟨"amount", aggFunc, ["user_id"], some 60000, none, none⟩,
    some ["user_id"], []⟩

/-- Two aggregates over one window. -/
def spendView : TableDescriptor :=
  .derivedFeatureView "spend" purchases [spendFeature "total" "SUM", spendFeature "n" "COUNT"]
    false (some "ts") "epoch" false

theorem window_batches_of_dispatch_spendView :
    ∃ table, compileDerivedFeatureView spendView (.source purchases) Dict.empty Dict.empty =
        .ok table ∧
      let done := dispatchedFeatures (Plan.source purchases).fields (getDependentFeatures spendView)
      ∃ joins, table.calls = (Plan.source purchases).calls ++ done.filterMap expressionCall ++
          (batches overWindowDescriptorOf windowBatch done).map (fun b => .overWindow b.1 b.2) ++
          joins ++ [.select (getOutputFields spendView (Plan.source purchases).fields)] ∧
        ∀ c ∈ joins, ∃ right keys descriptors, c = .temporalJoin right keys descriptors :=
  ⟨_, rfl, window_batches_of_dispatch.1 spendView (.source purchases) Dict.empty Dict.empty _ rfl⟩

end Feathub
