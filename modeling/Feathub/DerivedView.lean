import Feathub.Plan
import Feathub.DependentFeatures

/-!
# DerivedView — `_get_table_from_derived_feature_view` after its nested builds

Once the source table and the join tables are built, the compile of a `DerivedFeatureView`
is a pure function of them:

1. the dispatch loop walks the dependent features: an expression is evaluated at once on the
   accumulating table; an over-window feature is added to the batch of its
   `OverWindowDescriptor`; a join feature is added to the batch of its
   `(table_name, tuple(keys))`, whose field-descriptor map it extends;
2. each over-window batch becomes one `evaluate_over_window_transform`, in insertion order;
3. each join batch becomes one `temporal_join` against the right table projected to the
   batch's fields, in insertion order;
4. the result is projected to the output fields.

A feature whose name is already a column of the accumulating table is skipped.
-/

namespace Feathub

/-- The accumulators of the dispatch loop: `tmp_table`, `window_agg_map`, `right_tables`. -/
structure DerivedState where
  tmpTable : Plan
  windowAggMap : Dict OverWindowDescriptor (List AggregationFieldDescriptor)
  rightTables : Dict (String × List String) (Dict String JoinFieldDescriptor)

/-- `window_aggs = agg_map.setdefault(descriptor, []); window_aggs.append(
AggregationFieldDescriptor.from_feature(feature))`: the write both dispatch loops make for a
window feature. -/
def appendToBatch {W : Type} [DecidableEq W] (aggMap : Dict W (List AggregationFieldDescriptor))
    (descriptor : W) (feature : Feature) : Dict W (List AggregationFieldDescriptor) :=
  aggMap.upsert descriptor [] (· ++ [AggregationFieldDescriptor.fromFeature feature])

/-- The writes one join feature makes to the field-descriptor map of its batch, in order:
each key, the right table's timestamp field and the event-time column pass through, then the
feature's own field is pulled. -/
def mergeJoinFieldDescriptors (descriptors : Dict String JoinFieldDescriptor)
    (keys : List String) (rightTimestampField : String) (rightTableDescriptor : TableDescriptor)
    (featureName : String) : Dict String JoinFieldDescriptor :=
  (((keys.foldl (fun d key => d.insert key (JoinFieldDescriptor.fromFieldName key)) descriptors
    ).insert rightTimestampField (JoinFieldDescriptor.fromFieldName rightTimestampField)
    ).insert eventTimeAttributeName (JoinFieldDescriptor.fromFieldName eventTimeAttributeName)
    ).insert featureName
      (JoinFieldDescriptor.fromTableDescriptorAndFieldName rightTableDescriptor featureName)

/-- One turn of the dispatch loop of `_get_table_from_derived_feature_view`. -/
def derivedFeatureStep (timestampField : Option String) (sourceFields : List String)
    (descriptorsByNames : Dict String TableDescriptor) (st : DerivedState) (feature : Feature) :
    Except BuildError DerivedState :=
  if feature.name ∈ st.tmpTable.fields then .ok st else
  match feature.transform with
  | .expression expr =>
    .ok { st with
      tmpTable := evaluateExpressionTransform st.tmpTable expr feature.name feature.dtype }
  | .overWindow transform =>
    if timestampField = none then .error .overWindowWithoutTimestamp else
    .ok { st with
      windowAggMap :=
        appendToBatch st.windowAggMap (OverWindowDescriptor.fromOverWindowTransform transform)
          feature }
  | .join tableName featureName =>
    match feature.keys with
    | none => .error (.joinWithoutKey feature)
    | some keys =>
      if !keys.all (· ∈ sourceFields) then .error (.sourceMissingJoinKeys sourceFields keys) else
      match descriptorsByNames.get? tableName with
      | none => .error (.keyError tableName)
      | some rightTableDescriptor =>
        match rightTableDescriptor.timestampField with
        | none => .error (.joinWithoutTimestamp rightTableDescriptor)
        | some rightTimestampField =>
          .ok { st with
            rightTables := st.rightTables.upsert (tableName, keys) Dict.empty
              (mergeJoinFieldDescriptors · keys rightTimestampField rightTableDescriptor
                featureName) }
  | transform => .error (.unsupportedTransformation transform.typeName feature.name)

/-- The over-window phase: one `evaluate_over_window_transform` per batch. -/
def applyOverWindows (table : Plan)
    (windowAggMap : Dict OverWindowDescriptor (List AggregationFieldDescriptor)) : Plan :=
  windowAggMap.entries.foldl (fun t batch => .overWindow t batch.1 batch.2) table

/-- One join batch: the right table projected to the batch's fields, joined as of each
left row's event time. -/
def temporalJoinBatch (tableByNames : Dict String Plan) (table : Plan)
    (batch : (String × List String) × Dict String JoinFieldDescriptor) :
    Except BuildError Plan :=
  match tableByNames.get? batch.1.1 with
  | none => .error (.keyError batch.1.1)
  | some right => .ok (.temporalJoin table (.select right batch.2.keys) batch.1.2 batch.2.entries)

/-- The join phase: one `temporal_join` per batch. -/
def applyTemporalJoins (tableByNames : Dict String Plan) (table : Plan)
    (rightTables : Dict (String × List String) (Dict String JoinFieldDescriptor)) :
    Except BuildError Plan :=
  rightTables.entries.foldlM (temporalJoinBatch tableByNames) table

/-- The initial accumulators: the source table and no batches. -/
def DerivedState.init (sourceTable : Plan) : DerivedState :=
  ⟨sourceTable, Dict.empty, Dict.empty⟩

/-- The dispatch loop over the dependent features. -/
def derivedDispatch (featureView : TableDescriptor) (sourceTable : Plan)
    (descriptorsByNames : Dict String TableDescriptor) : Except BuildError DerivedState :=
  (getDependentFeatures featureView).foldlM
    (derivedFeatureStep featureView.timestampField sourceTable.fields descriptorsByNames)
    (DerivedState.init sourceTable)

/-- `_get_table_from_derived_feature_view` from the point where the source table and the join
tables are built. -/
def compileDerivedFeatureView (featureView : TableDescriptor) (sourceTable : Plan)
    (descriptorsByNames : Dict String TableDescriptor) (tableByNames : Dict String Plan) :
    Except BuildError Plan := do
  let st ← derivedDispatch featureView sourceTable descriptorsByNames
  let table ← applyTemporalJoins tableByNames (applyOverWindows st.tmpTable st.windowAggMap)
    st.rightTables
  pure (.select table (getOutputFields featureView sourceTable.fields))

/-- The join tables of a view: `set(feature.transform.table_name for …)` over its declared
features, iterated in order of first occurrence; Python iterates the set in an order of its
own, and the results below hold for any order of the distinct names. -/
def joinTableNames (featureView : TableDescriptor) : List String :=
  (featureView.resolvedFeatures.filterMap fun feature =>
    match feature.transform with
    | .join tableName _ => some tableName
    | _ => none).foldl appendIfAbsent []

end Feathub
