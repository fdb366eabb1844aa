import Feathub.DerivedView

/-!
# SlidingView — `_get_table_from_sliding_feature_view` after its source is built

The dispatch loop evaluates expressions at once and batches sliding-window features by their
`SlidingWindowDescriptor`. Each batch is then aggregated into its own sub-table, keyed by the
group-by keys and the window time, and the sub-tables are merged by a chained full outer join
on those keys. Before each sub-table is aggregated, the defaults of its fields join the
`field_default_value` map, so the map handed to a merge covers every field merged so far.

Last, the view's timestamp field is derived from the window time: by `UNIX_TIMESTAMP` for
the format `"epoch"`, else by `DATE_FORMAT` with the format in Java's notation, its single
quotes doubled for the SQL literal.
-/

namespace Feathub

/-- The accumulators of the dispatch loop: `tmp_table`, `sliding_window_agg_map`. -/
structure SlidingState where
  tmpTable : Plan
  slidingWindowAggMap : Dict SlidingWindowDescriptor (List AggregationFieldDescriptor)

/-- One turn of the dispatch loop of `_get_table_from_sliding_feature_view`. -/
def slidingFeatureStep (timestampField : Option String) (st : SlidingState) (feature : Feature) :
    Except BuildError SlidingState :=
  if feature.name ∈ st.tmpTable.fields then .ok st else
  match feature.transform with
  | .expression expr =>
    .ok { st with
      tmpTable := evaluateExpressionTransform st.tmpTable expr feature.name feature.dtype }
  | .slidingWindow transform =>
    if timestampField = none then .error .slidingWindowWithoutTimestamp else
    .ok { st with
      slidingWindowAggMap := appendToBatch st.slidingWindowAggMap
        (SlidingWindowDescriptor.fromSlidingWindowTransform transform) feature }
  | transform => .error (.unsupportedTransformation transform.typeName feature.name)

/-- The dispatch loop over the dependent features. -/
def slidingDispatch (featureView : TableDescriptor) (sourceTable : Plan) :
    Except BuildError SlidingState :=
  (getDependentFeatures featureView).foldlM (slidingFeatureStep featureView.timestampField)
    ⟨sourceTable, Dict.empty⟩

/-- `get_default_value_and_type(agg_descriptor)`.

Modelled from the spec: "that field's aggregation-specific typed default (e.g., 0 for
count/sum, not an untyped null)"; other aggregations default to a `NULL` of the field's type. -/
def getDefaultValueAndType (agg : AggregationFieldDescriptor) : Value × DType :=
  if agg.aggFunc = "COUNT" ∨ agg.aggFunc = "SUM" then (.int 0, agg.fieldDataType)
  else (.null, agg.fieldDataType)

/-- `field_default_value[agg.field_name] = get_default_value_and_type(agg)` for each field of a
batch. -/
def addFieldDefaults (defaults : Dict String (Value × DType))
    (aggs : List AggregationFieldDescriptor) : Dict String (Value × DType) :=
  aggs.foldl (fun d agg => d.insert agg.fieldName (getDefaultValueAndType agg)) defaults

/-- One turn of the merge loop over `(agg_table, field_default_value)`. -/
def mergeStep (tmpTable : Plan) (acc : Option Plan × Dict String (Value × DType))
    (batch : SlidingWindowDescriptor × List AggregationFieldDescriptor) :
    Option Plan × Dict String (Value × DType) :=
  let defaults := addFieldDefaults acc.2 batch.2
  let tmpAggTable := Plan.slidingWindow tmpTable batch.1 batch.2
  match acc.1 with
  | none => (some tmpAggTable, defaults)
  | some aggTable =>
    (some (.fullOuterJoin aggTable tmpAggTable (batch.1.groupByKeys ++ [eventTimeAttributeName])
      defaults.entries), defaults)

/-- The merge loop: the merged aggregation table, `none` when there is no batch. -/
def mergeSlidingWindowAggs (tmpTable : Plan)
    (slidingWindowAggMap : Dict SlidingWindowDescriptor (List AggregationFieldDescriptor)) :
    Option Plan × Dict String (Value × DType) :=
  slidingWindowAggMap.entries.foldl (mergeStep tmpTable) (none, Dict.empty)

/-- `to_java_date_format(timestamp_format)`.

Modelled from the spec ("a calendar string format"): each `strftime` directive becomes the
`DateTimeFormatter` pattern letters of the same field; other characters are copied. -/
def toJavaDateFormat (format : String) : String :=
  let rec go : List Char → List Char
    | '%' :: c :: rest =>
      (match c with
        | 'Y' => "yyyy".toList | 'm' => "MM".toList | 'd' => "dd".toList
        | 'H' => "HH".toList | 'M' => "mm".toList | 'S' => "ss".toList
        | 'f' => "SSSSSS".toList | c => ['%', c]) ++ go rest
    | c :: rest => c :: go rest
    | [] => []
  ⟨go format.toList⟩

/-- `s.replace("'", "''")`: every single quote doubled. -/
def escapeSingleQuotes (s : String) : String :=
  ⟨s.toList.flatMap fun c => if c = '\'' then ['\'', '\''] else [c]⟩

/-- The SQL of the timestamp column derived from the window time. -/
def timestampFieldSql (timestampFormat : String) : String :=
  if timestampFormat = "epoch" then
    "UNIX_TIMESTAMP(CAST(`" ++ eventTimeAttributeName ++ "` AS STRING))"
  else
    "DATE_FORMAT(`" ++ eventTimeAttributeName ++ "`, '" ++
      escapeSingleQuotes (toJavaDateFormat timestampFormat) ++ "')"

/-- Add the view's timestamp field, when it declares one. -/
def addTimestampField (featureView : TableDescriptor) (table : Plan) : Plan :=
  match featureView.timestampField with
  | none => table
  | some timestampField => .addColumns table (timestampFieldSql featureView.timestampFormat)
      timestampField

/-- `_get_table_from_sliding_feature_view` from the point where the source table is built. -/
def compileSlidingFeatureView (featureView : TableDescriptor) (sourceTable : Plan) :
    Except BuildError Plan := do
  let st ← slidingDispatch featureView sourceTable
  let table := (mergeSlidingWindowAggs st.tmpTable st.slidingWindowAggMap).1.getD st.tmpTable
  pure (.select (addTimestampField featureView table)
    (getOutputFields featureView sourceTable.fields))

end Feathub
