import Feathub.Plan

/-!
# Semantics — the rows a plan denotes

The builder only constructs plans; the rows come from Flink once a plan runs. `Plan.eval`
gives each node its rows:

* the Table API calls the builder makes itself (`select`, `filter`, `add_columns`,
  `drop_columns`, `from_pandas`) get their relational meaning;
* the two joins of `join_utils` whose meaning the results below rest on are modelled from the
  spec: `join_table_on_key` as an inner equality join, and
  `full_outer_join_on_key_with_default_value` as a full outer join that fills the cells a side
  lacks from the default map;
* everything else (the scan of a source, SQL expressions, over and sliding windows, the
  as-of join) is a parameter, an `Engine`.

Keys match by SQL equality: `NULL` matches nothing.
-/

namespace Feathub

/-- A row: its cells by column name, in column order. -/
abbrev Row := List (String × Value)

/-- The cell of column `f`; `NULL` when the row lacks the column. -/
def Row.get (r : Row) (f : String) : Value := (r.lookup f).getD .null

/-- SQL `a = b` as a join condition: `NULL` equals nothing. -/
def sqlEq (a b : Value) : Bool := a != .null && a == b

/-- Two rows agree, by SQL equality, on every key. -/
def keysMatch (keys : List String) (a b : Row) : Bool :=
  keys.all fun k => sqlEq (a.get k) (b.get k)

/-- The collaborators whose rows the builder takes as given. -/
structure Engine where
  /-- `get_table_from_source`. -/
  scan : TableDescriptor → List Row
  /-- `call_sql(expr)` on one row. -/
  sql : String → Row → Value
  /-- `.cast(to_flink_type(dtype))`. -/
  cast : Value → DType → Value
  /-- `evaluate_over_window_transform`. -/
  overWindow : List Row → OverWindowDescriptor → List AggregationFieldDescriptor → List Row
  /-- `evaluate_sliding_window_transform`. -/
  slidingWindow : List Row → SlidingWindowDescriptor → List AggregationFieldDescriptor →
    List Row
  /-- `temporal_join`. -/
  temporalJoin : List Row → List Row → List String → List (String × JoinFieldDescriptor) →
    List Row

/-- A row of a full outer join: the keys, then the left side's other fields, then the right
side's, each part with its cells from its own side. -/
def outerJoinRow (keys leftOnly rightOnly : List String)
    (keyCell leftCell rightCell : String → Value) : Row :=
  keys.map (fun f => (f, keyCell f)) ++ leftOnly.map (fun f => (f, leftCell f)) ++
    rightOnly.map fun f => (f, rightCell f)

/-- The cell a full outer join gives a field its row's side lacks: the value of the field's entry
in the default map. -/
def defaultCell (defaults : List (String × (Value × DType))) (f : String) : Value :=
  ((defaults.lookup f).map Prod.fst).getD .null

/-- `full_outer_join_on_key_with_default_value` on rows.

Modelled from the spec: it "full-outer-joins … on (group keys, event time), filling absent
cells with per-field typed defaults". Rows that match on the keys are merged; a row that
matches nothing keeps its own cells and takes, for each field of the other side, the value of
its entry in the default map. -/
def fullOuterJoinRows (keys leftFields rightFields : List String)
    (defaults : List (String × (Value × DType))) (left right : List Row) : List Row :=
  let row := outerJoinRow keys (leftFields.filter (· ∉ keys)) (rightFields.filter (· ∉ keys))
  (left.flatMap fun l =>
    match right.filter (keysMatch keys l) with
    | [] => [row l.get l.get (defaultCell defaults)]
    | matched => matched.map fun r => row l.get l.get r.get) ++
  (right.filter fun r => !left.any fun l => keysMatch keys l r).map fun r =>
    row r.get (defaultCell defaults) r.get

/-- `join_table_on_key(left, right, keys)` on rows.

Modelled from the spec: the key filter "performs an equality semi-join retaining only rows whose
key values appear in the key set". The rows of `right` that match a row of `left` on the keys,
each once and in order, with the fields of `left` first. -/
def joinOnKeyRows (keys leftFields rightFields : List String) (left right : List Row) :
    List Row :=
  (right.filter fun r => left.any fun l => keysMatch keys l r).map fun r =>
    (leftFields ++ rightFields.filter (· ∉ keys)).map fun f => (f, r.get f)

/-- Whether a row passes `col(EVENT_TIME_ATTRIBUTE_NAME) op lit(literal).to_timestamp`; a
`NULL` on either side fails it. -/
def passesEventTime (op : Comparison) (literal : String) (r : Row) : Bool :=
  match r.get eventTimeAttributeName, toTimestamp literal with
  | .timestamp t, some bound =>
    match op with
    | .ge => decide (bound ≤ t)
    | .lt => decide (t < bound)
  | _, _ => false

/-- The rows of a plan. -/
def Plan.eval (engine : Engine) : Plan → List Row
  | .source table => engine.scan table
  | .fromPandas df => df.rows.map df.columns.zip
  | .addOrReplaceColumns table expr resultType name =>
    (table.eval engine).map fun r =>
      Dict.insertEntry name (engine.cast (engine.sql expr r) resultType) r
  | .overWindow table window aggs => engine.overWindow (table.eval engine) window aggs
  | .slidingWindow table window aggs => engine.slidingWindow (table.eval engine) window aggs
  | .select table fields => (table.eval engine).map fun r => fields.map fun f => (f, r.get f)
  | .temporalJoin left right keys descriptors =>
    engine.temporalJoin (left.eval engine) (right.eval engine) keys descriptors
  | .fullOuterJoin left right keys defaults =>
    fullOuterJoinRows keys left.fields right.fields defaults (left.eval engine)
      (right.eval engine)
  | .joinOnKey left right keys =>
    joinOnKeyRows keys left.fields right.fields (left.eval engine) (right.eval engine)
  | .filterEventTime table op literal => (table.eval engine).filter (passesEventTime op literal)
  | .addColumns table sql aliasName =>
    (table.eval engine).map fun r => r ++ [(aliasName, engine.sql sql r)]
  | .dropColumns table name => (table.eval engine).map (·.filter (·.1 ≠ name))

end Feathub
