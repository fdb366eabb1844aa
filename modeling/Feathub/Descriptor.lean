import Feathub.Dict

/-!
# Descriptor — features, transforms and table descriptors

The definitions `FlinkTableBuilder` compiles:

* `Transform` : the four transform classes the builder dispatches on, and `other` for any
  class it has no branch for;
* `Feature` : a named, typed column with its transform, join keys and input features;
* `TableDescriptor` : a `FeatureTable` (a source), a `DerivedFeatureView`, a
  `SlidingFeatureView`, or any other descriptor class;
* the window, aggregation and join-field descriptors the builder batches on;
* `BuildError` : every exception the builder raises, with its message;
* `Registry` : the lookup of join tables by name.

Python compares descriptors, features and transforms field by field, so every type here has
a `DecidableEq` that does the same.
-/

namespace Feathub

/-- `EVENT_TIME_ATTRIBUTE_NAME`: the internal event-time column every compiled table
carries.

Modelled from the spec: the constant lives in `flink_table_builder_constants`, which is not
among the sources; the spec calls it only "the internal synthetic event-time column". Of its
text, the results below use only that it holds no backtick, so that the timestamp SQL quotes it
as one identifier. -/
def eventTimeAttributeName : String := "__event_time_attribute__"

/-- A Feathub data type (`feathub.common.types.DType`), by name. -/
structure DType where
  name : String
  deriving DecidableEq, Repr

/-! ## Transforms -/

/-- `OverWindowTransform`: an aggregation over the rows preceding each row. Durations are in
milliseconds. -/
structure OverWindowTransform where
  expr : String
  aggFunc : String
  groupByKeys : List String
  windowSize : Option Nat
  limit : Option Nat
  filterExpr : Option String
  deriving DecidableEq, Repr

/-- `SlidingWindowTransform`: an aggregation emitted on a grid of window ends. -/
structure SlidingWindowTransform where
  expr : String
  aggFunc : String
  groupByKeys : List String
  windowSize : Nat
  stepSize : Nat
  limit : Option Nat
  filterExpr : Option String
  deriving DecidableEq, Repr

/-- The transform of a feature. `other` is any transform class the builder has no branch for,
by its class name. -/
inductive Transform where
  | expression (expr : String)
  | overWindow (transform : OverWindowTransform)
  | slidingWindow (transform : SlidingWindowTransform)
  | join (tableName featureName : String)
  | other (typeName : String)
  deriving DecidableEq, Repr

/-- `type(transform).__name__`. -/
def Transform.typeName : Transform → String
  | .expression _ => "ExpressionTransform"
  | .overWindow _ => "OverWindowTransform"
  | .slidingWindow _ => "SlidingWindowTransform"
  | .join _ _ => "JoinTransform"
  | .other typeName => typeName

/-! ## Features -/

/-- `Feature`: a derived column. `inputFeatures` are the features its transform reads. -/
structure Feature where
  name : String
  dtype : DType
  transform : Transform
  keys : Option (List String)
  inputFeatures : List Feature
  deriving Repr

mutual
/-- Field-by-field equality of features, as `Feature.__eq__`. -/
def Feature.decEq : (a b : Feature) → Decidable (a = b)
  | ⟨n, d, t, k, i⟩, ⟨n', d', t', k', i'⟩ =>
    if hn : n = n' then if hd : d = d' then if ht : t = t' then if hk : k = k' then
      match Feature.decEqList i i' with
      | isTrue hi => isTrue (by subst hn hd ht hk hi; rfl)
      | isFalse hi => isFalse (by intro h; cases h; exact hi rfl)
    else isFalse (by intro h; cases h; exact hk rfl)
    else isFalse (by intro h; cases h; exact ht rfl)
    else isFalse (by intro h; cases h; exact hd rfl)
    else isFalse (by intro h; cases h; exact hn rfl)
/-- Equality of feature lists, element by element. -/
def Feature.decEqList : (as bs : List Feature) → Decidable (as = bs)
  | [], [] => isTrue rfl
  | [], _ :: _ => isFalse (by intro h; cases h)
  | _ :: _, [] => isFalse (by intro h; cases h)
  | a :: as, b :: bs =>
    match Feature.decEq a b, Feature.decEqList as bs with
    | isTrue h₁, isTrue h₂ => isTrue (by subst h₁ h₂; rfl)
    | isFalse h₁, _ => isFalse (by intro h; cases h; exact h₁ rfl)
    | _, isFalse h₂ => isFalse (by intro h; cases h; exact h₂ rfl)
end

instance : DecidableEq Feature := Feature.decEq

/-! ## Table descriptors -/

/-- A `TableDescriptor`. A `FeatureTable` is a source, scanned with the fields it declares. A
view holds its resolved features and whether it still `is_unresolved()`. `other` is any
descriptor class `_get_table` has no branch for, by its class name. -/
inductive TableDescriptor where
  | featureTable (name : String) (fieldNames : List String) (timestampField : Option String)
      (timestampFormat : String)
  | derivedFeatureView (name : String) (source : TableDescriptor) (features : List Feature)
      (keepSourceFields : Bool) (timestampField : Option String) (timestampFormat : String)
      (unresolved : Bool)
  | slidingFeatureView (name : String) (source : TableDescriptor) (features : List Feature)
      (keepSourceFields : Bool) (timestampField : Option String) (timestampFormat : String)
      (unresolved : Bool)
  | other (name typeName : String) (timestampField : Option String)
  deriving DecidableEq, Repr

namespace TableDescriptor

/-- `features.name`. -/
def name : TableDescriptor → String
  | .featureTable name .. | .derivedFeatureView name .. | .slidingFeatureView name ..
  | .other name .. => name

/-- `features.timestamp_field`. -/
def timestampField : TableDescriptor → Option String
  | .featureTable _ _ ts _ | .derivedFeatureView _ _ _ _ ts _ _
  | .slidingFeatureView _ _ _ _ ts _ _ | .other _ _ ts => ts

/-- `isinstance(features, FeatureView) and features.is_unresolved()`. -/
def isUnresolvedFeatureView : TableDescriptor → Bool
  | .derivedFeatureView _ _ _ _ _ _ unresolved | .slidingFeatureView _ _ _ _ _ _ unresolved =>
    unresolved
  | _ => false

/-- `get_resolved_features()` of a view; no features otherwise. -/
def resolvedFeatures : TableDescriptor → List Feature
  | .derivedFeatureView _ _ features .. | .slidingFeatureView _ _ features .. => features
  | _ => []

/-- `table_descriptor.get_feature(feature_name)`, `none` where it would raise. -/
def getFeature (d : TableDescriptor) (featureName : String) : Option Feature :=
  d.resolvedFeatures.find? (·.name = featureName)

/-- `keep_source_fields` of a view. -/
def keepSourceFields : TableDescriptor → Bool
  | .derivedFeatureView _ _ _ keep _ _ _ | .slidingFeatureView _ _ _ keep _ _ _ => keep
  | _ => false

/-- `timestamp_format`. -/
def timestampFormat : TableDescriptor → String
  | .featureTable _ _ _ format | .derivedFeatureView _ _ _ _ _ format _
  | .slidingFeatureView _ _ _ _ _ format _ => format
  | .other .. => "epoch"

/-- `feature_view.get_output_fields(source_fields)`.

Modelled from the spec: "determined by the view's declared output-field contract plus source
passthrough fields": the source's fields when the view keeps them, then each declared feature
and the timestamp field, each once. -/
def getOutputFields (featureView : TableDescriptor) (sourceFields : List String) :
    List String :=
  (featureView.resolvedFeatures.map Feature.name ++ featureView.timestampField.toList).foldl
    appendIfAbsent (if featureView.keepSourceFields then sourceFields else [])

/-- `type(features).__name__`. -/
def typeName : TableDescriptor → String
  | .featureTable .. => "FeatureTable"
  | .derivedFeatureView .. => "DerivedFeatureView"
  | .slidingFeatureView .. => "SlidingFeatureView"
  | .other _ typeName _ => typeName

end TableDescriptor

/-- `_get_output_fields`: the view's output fields, with the event-time column appended when
they lack it. -/
def getOutputFields (featureView : TableDescriptor) (sourceFields : List String) :
    List String :=
  appendIfAbsent (featureView.getOutputFields sourceFields) eventTimeAttributeName

theorem eventTime_mem_getOutputFields (featureView : TableDescriptor)
    (sourceFields : List String) :
    eventTimeAttributeName ∈ getOutputFields featureView sourceFields :=
  mem_appendIfAbsent.2 (.inr rfl)

/-! ## Window, aggregation and join-field descriptors

The classes of `over_window_utils`, `sliding_window_utils`, `aggregation_utils` and
`join_utils` are not among the sources; the spec describes them at their interface.
-/

/-- `OverWindowDescriptor`: the shape of an over window, the key its features are batched on.

Modelled from the spec: "value-equality key derived from an OverWindow … transform's shape
parameters". -/
structure OverWindowDescriptor where
  groupByKeys : List String
  windowSize : Option Nat
  limit : Option Nat
  filterExpr : Option String
  deriving DecidableEq, Repr

/-- `OverWindowDescriptor.from_over_window_transform`. Modelled from the spec: every shape
parameter of the transform, and neither its expression nor its aggregation function. -/
def OverWindowDescriptor.fromOverWindowTransform (t : OverWindowTransform) :
    OverWindowDescriptor :=
  ⟨t.groupByKeys, t.windowSize, t.limit, t.filterExpr⟩

/-- `SlidingWindowDescriptor`: the shape of a sliding window.

Modelled from the spec: "value-equality key derived from … a SlidingWindow transform's shape
parameters"; the shape fixes the grid of emission times. -/
structure SlidingWindowDescriptor where
  groupByKeys : List String
  windowSize : Nat
  stepSize : Nat
  limit : Option Nat
  filterExpr : Option String
  deriving DecidableEq, Repr

/-- `SlidingWindowDescriptor.from_sliding_window_transform`. Modelled from the spec, as
`OverWindowDescriptor.fromOverWindowTransform`. -/
def SlidingWindowDescriptor.fromSlidingWindowTransform (t : SlidingWindowTransform) :
    SlidingWindowDescriptor :=
  ⟨t.groupByKeys, t.windowSize, t.stepSize, t.limit, t.filterExpr⟩

/-- `AggregationFieldDescriptor`: one output column of a window aggregation. -/
structure AggregationFieldDescriptor where
  fieldName : String
  fieldDataType : DType
  expr : String
  aggFunc : String
  windowSize : Option Nat
  deriving DecidableEq, Repr

/-- `AggregationFieldDescriptor.from_feature`. Modelled from the spec: "`{field_name,
aggregation_function, window_descriptor}` derived from a windowed Feature"; the builder calls
it on window features only. -/
def AggregationFieldDescriptor.fromFeature (feature : Feature) : AggregationFieldDescriptor :=
  match feature.transform with
  | .overWindow t => ⟨feature.name, feature.dtype, t.expr, t.aggFunc, t.windowSize⟩
  | .slidingWindow t => ⟨feature.name, feature.dtype, t.expr, t.aggFunc, some t.windowSize⟩
  | _ => ⟨feature.name, feature.dtype, "", "", none⟩

/-- `_get_feature_valid_time`: the step size of a sliding-window feature of a
`SlidingFeatureView`, the time its value stays valid. -/
def getFeatureValidTime (tableDescriptor : TableDescriptor) (featureName : String) :
    Option Nat :=
  match tableDescriptor with
  | .slidingFeatureView .. =>
    match (tableDescriptor.getFeature featureName).map Feature.transform with
    | some (.slidingWindow t) => some t.stepSize
    | _ => none
  | _ => none

/-- `JoinFieldDescriptor`: a field of a join batch, with the time a pulled value stays valid. -/
structure JoinFieldDescriptor where
  fieldName : String
  validTime : Option Nat
  deriving DecidableEq, Repr

/-- `JoinFieldDescriptor.from_field_name`: a passthrough field. Modelled from the spec:
"passthrough key, passthrough timestamp/event-time", with no valid time. -/
def JoinFieldDescriptor.fromFieldName (fieldName : String) : JoinFieldDescriptor :=
  ⟨fieldName, none⟩

/-- `JoinFieldDescriptor.from_table_descriptor_and_field_name`: a pulled field. Modelled from
the spec: "pulled value carrying an optional valid time", read as `_get_feature_valid_time`
reads it. -/
def JoinFieldDescriptor.fromTableDescriptorAndFieldName (tableDescriptor : TableDescriptor)
    (fieldName : String) : JoinFieldDescriptor :=
  ⟨fieldName, getFeatureValidTime tableDescriptor fieldName⟩

/-! ## Errors -/

/-- The exceptions of the builder. All are `FeathubException`s (`unsupportedTransformation`
is its subclass `FeathubTransformationException`) except `keyError`, the `KeyError` of a
failed dict lookup. -/
inductive BuildError where
  | unresolvedFeatureView
  | missingTimestampField
  | keyNotInTable (fieldName : String) (tableFields : List String)
  | conflictingDescriptor (features cached : TableDescriptor)
  | unsupportedDescriptor (features : TableDescriptor)
  | overWindowWithoutTimestamp
  | joinWithoutKey (feature : Feature)
  | sourceMissingJoinKeys (sourceFields keys : List String)
  | joinWithoutTimestamp (rightTableDescriptor : TableDescriptor)
  | slidingWindowWithoutTimestamp
  | unsupportedTransformation (typeName featureName : String)
  | tableNotFound (name : String)
  | keyError (key : String)
  deriving DecidableEq

namespace BuildError

/-- Whether the error is a `FeathubException` (or one of its subclasses). -/
def isFeathubException : BuildError → Bool
  | .keyError _ => false
  | _ => true

/-- The message text. Python interpolates `str()` of descriptors and features; here they
stand by name. -/
def message : BuildError → String
  | .unresolvedFeatureView =>
    "Trying to convert a unresolved FeatureView to native Flink table."
  | .missingTimestampField =>
    "Feature is missing timestamp_field. It cannot be ranged by start_datetime."
  | .keyNotInTable fieldName tableFields =>
    s!"Given key {fieldName} not in the table fields {tableFields}."
  | .conflictingDescriptor features cached =>
    let a := features.name
    let b := cached.name
    s!"Encounter different TableDescriptor with same name. {a} and {b}."
  | .unsupportedDescriptor features =>
    let t := features.typeName
    let n := features.name
    s!"Unsupported type '{t}' for '{n}'."
  | .overWindowWithoutTimestamp =>
    "FeatureView must have timestamp field for OverWindowTransform."
  | .joinWithoutKey feature =>
    let n := feature.name
    s!"FlinkProcessor cannot join feature {n} without key."
  | .sourceMissingJoinKeys sourceFields keys =>
    s!"Source table {sourceFields} doesn't have the keys of the Feature to join {keys}."
  | .joinWithoutTimestamp right =>
    let n := right.name
    s!"FlinkProcessor cannot join with {n} without timestamp field."
  | .slidingWindowWithoutTimestamp =>
    "FeatureView must have timestamp field for SlidingWindowTransform."
  | .unsupportedTransformation typeName featureName =>
    s!"Unsupported transformation type {typeName} for feature {featureName}."
  | .tableNotFound name =>
    s!"Table '{name}' is not found in the registry."
  | .keyError key => key

end BuildError

/-! ## Registry -/

/-- The Feathub registry, as the builder uses it: a lookup of table descriptors by name.

Modelled from the spec: "`resolve_by_name(name) -> TableDescriptor` — registry lookup for
join targets"; a name the registry does not hold raises a `FeathubException`. -/
structure Registry where
  tables : String → Option TableDescriptor

/-- `registry.get_features(name=name)`. -/
def Registry.getFeatures (registry : Registry) (name : String) :
    Except BuildError TableDescriptor :=
  match registry.tables name with
  | some descriptor => .ok descriptor
  | none => .error (.tableNotFound name)

end Feathub
