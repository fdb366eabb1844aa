import Feathub.Datetime
import Feathub.Descriptor

/-!
# Plan — the lazy Flink tables the builder constructs

`FlinkTableBuilder` executes nothing: every Table API call (`select`, `filter`,
`add_or_replace_columns`, …) and every `join_utils` / `*_window_utils` call adds a node to a
lazy plan. `Plan` is that plan as syntax, one constructor per call the builder makes, and
`Plan.fields` is `table.get_schema().get_field_names()`, the one thing about a table the
builder inspects while it builds.

The schemas of `get_table_from_source`, the window utilities and the join utilities are not
among the sources; they are modelled from the spec's description of each collaborator.
-/

namespace Feathub

/-- A cell value. `null` is SQL `NULL`. -/
inductive Value where
  | null
  | bool (b : Bool)
  | int (i : Int)
  | string (s : String)
  | timestamp (t : Datetime)
  deriving DecidableEq

/-- A `pandas.DataFrame`: column names and rows of cells. -/
structure DataFrame where
  columns : List String
  rows : List (List Value)
  deriving DecidableEq

/-- The comparison of a range filter on the event-time column. -/
inductive Comparison where
  | ge
  | lt
  deriving DecidableEq, Repr

/-- A lazy Flink table, as the calls that build it. -/
inductive Plan where
  /-- `get_table_from_source(t_env, features)`. -/
  | source (table : TableDescriptor)
  /-- `t_env.from_pandas(features)`. -/
  | fromPandas (df : DataFrame)
  /-- `add_or_replace_columns(call_sql(expr).cast(to_flink_type(result_type)).alias(name))`. -/
  | addOrReplaceColumns (table : Plan) (expr : String) (resultType : DType) (name : String)
  /-- `evaluate_over_window_transform(table, window, aggs)`. -/
  | overWindow (table : Plan) (window : OverWindowDescriptor)
      (aggs : List AggregationFieldDescriptor)
  /-- `evaluate_sliding_window_transform(t_env, table, window, aggs)`. -/
  | slidingWindow (table : Plan) (window : SlidingWindowDescriptor)
      (aggs : List AggregationFieldDescriptor)
  /-- `table.select(*[col(field) for field in fields])`. -/
  | select (table : Plan) (fields : List String)
  /-- `temporal_join(t_env, left, right, keys, descriptors)`. -/
  | temporalJoin (left right : Plan) (keys : List String)
      (descriptors : List (String × JoinFieldDescriptor))
  /-- `full_outer_join_on_key_with_default_value(left, right, keys, defaults)`. -/
  | fullOuterJoin (left right : Plan) (keys : List String)
      (defaults : List (String × (Value × DType)))
  /-- `join_table_on_key(left, right, keys)`. -/
  | joinOnKey (left right : Plan) (keys : List String)
  /-- `table.filter(col(EVENT_TIME_ATTRIBUTE_NAME) op lit(literal).to_timestamp)`. -/
  | filterEventTime (table : Plan) (op : Comparison) (literal : String)
  /-- `table.add_columns(call_sql(sql).alias(alias))`. -/
  | addColumns (table : Plan) (sql : String) (aliasName : String)
  /-- `table.drop_columns(name)`. -/
  | dropColumns (table : Plan) (name : String)
  deriving DecidableEq

/-- The fields `get_table_from_source` gives a scanned `FeatureTable`.

Modelled from the spec: the source's declared fields, and "every compiled intermediate table
carries an internal synthetic event-time column". -/
def TableDescriptor.scanFields : TableDescriptor → List String
  | .featureTable _ fieldNames _ _ =>
    if eventTimeAttributeName ∈ fieldNames then fieldNames
    else fieldNames ++ [eventTimeAttributeName]
  | _ => [eventTimeAttributeName]

/-- `table.get_schema().get_field_names()`.

Modelled from the spec for the collaborators: an over window "adds one running-aggregate
column per descriptor"; a sliding window "returns the `(group_keys, emission_time)`-keyed
aggregate table"; an as-of join layers the right table's pulled fields onto the left rows; a
key join and a full outer join keep the keys once and the other fields of both sides.
`add_or_replace_columns` replaces a column in place or appends it. -/
def Plan.fields : Plan → List String
  | .source table => table.scanFields
  | .fromPandas df => df.columns
  | .addOrReplaceColumns table _ _ name => appendIfAbsent table.fields name
  | .overWindow table _ aggs => table.fields ++ aggs.map (·.fieldName)
  | .slidingWindow _ window aggs =>
    window.groupByKeys ++ [eventTimeAttributeName] ++ aggs.map (·.fieldName)
  | .select _ fields => fields
  | .temporalJoin left right keys _ =>
    left.fields ++ right.fields.filter (fun f => f ∉ keys ∧ f ≠ eventTimeAttributeName)
  | .fullOuterJoin left right keys _ =>
    keys ++ left.fields.filter (· ∉ keys) ++ right.fields.filter (· ∉ keys)
  | .joinOnKey left right keys => left.fields ++ right.fields.filter (· ∉ keys)
  | .filterEventTime table _ _ => table.fields
  | .addColumns table _ aliasName => table.fields ++ [aliasName]
  | .dropColumns table name => table.fields.filter (· ≠ name)

/-- `_evaluate_expression_transform`: the expression's value, cast to the feature's type, as
the column `result_field_name`. -/
def evaluateExpressionTransform (sourceTable : Plan) (expr : String)
    (resultFieldName : String) (resultType : DType) : Plan :=
  .addOrReplaceColumns sourceTable expr resultType resultFieldName

@[simp] theorem evaluateExpressionTransform_fields (sourceTable : Plan) (expr : String)
    (resultFieldName : String) (resultType : DType) :
    (evaluateExpressionTransform sourceTable expr resultFieldName resultType).fields =
      appendIfAbsent sourceTable.fields resultFieldName := rfl

end Feathub
