import Feathub.Proofs.Filters
import Feathub.Proofs.Dispatch

/-!
# SlidingMerge — the chained full outer join of the sliding-window sub-tables

`_get_table_from_sliding_feature_view` aggregates each batch of sliding-window features into a
sub-table keyed by the group-by keys and the window time, and merges the sub-tables left to
right with `full_outer_join_on_key_with_default_value` on those keys, handing each merge the
defaults of every field merged so far.

* `filter_fullOuterJoinRows` : one merge at one point whose keys are all non-`NULL`;
* `MergeInv` : what a merged table holds: the keys and every field so far as its fields, a
  default for each of those fields in the default map, and at each such point one row when a
  sub-table emitted it and none otherwise, each field its own sub-table's value there or its
  default;
* `mergeInv_step`, `mergeInv_foldl` : one merge keeps it, and so does the loop;
* `mergeSlidingWindowAggs_rows` : the loop over any batch map with one list of group-by keys
  and distinct field names, after every merge;
* `slidingDispatch_merge_conditions`, `slidingView_merge_rows` : the batches the dispatch loop
  of a view leaves are such a map when its sliding-window features share their group-by keys
  and have distinct names;
* `null_key_point_merged_twice` : a point with a `NULL` key matches nothing, so two sub-tables
  that both emit it leave it twice.
-/

namespace Feathub

/-! ## Points and cells -/

/-- The point of a row: its cells on the join keys. -/
def pointOf (keys : List String) (r : Row) : List Value := keys.map r.get

/-- No cell of the point is `NULL`, so SQL equality can match it. -/
def NoNull (p : List Value) : Prop := ∀ v ∈ p, v ≠ .null

/-- No two rows share a point: a table keyed by the join keys. -/
def Keyed (keys : List String) (rows : List Row) : Prop := (rows.map (pointOf keys)).Nodup

instance (keys : List String) (rows : List Row) : Decidable (Keyed keys rows) :=
  inferInstanceAs (Decidable (rows.map (pointOf keys)).Nodup)

/-- The row at point `p`. -/
def rowAt (keys : List String) (p : List Value) (rows : List Row) : Option Row :=
  rows.find? (pointOf keys · = p)

theorem Row.get_cons (r : Row) (k f : String) (v : Value) :
    Row.get ((k, v) :: r) f = if f = k then v else r.get f := by
  by_cases h : f = k
  · subst h
    simp [Row.get, List.lookup_cons]
  · have hb : (f == k) = false := beq_false_of_ne h
    simp [Row.get, List.lookup_cons, h, hb]

theorem get_map_append_of_mem {ks : List String} {g : String → Value} {k : String}
    (hk : k ∈ ks) (rest : Row) : Row.get (ks.map (fun f => (f, g f)) ++ rest) k = g k := by
  induction ks with
  | nil => cases hk
  | cons k' ks ih =>
    rw [List.map_cons, List.cons_append, Row.get_cons]
    by_cases h : k = k'
    · rw [if_pos h, h]
    · rw [if_neg h]
      exact ih (List.mem_of_ne_of_mem h hk)

theorem get_map_append_of_not_mem {ks : List String} {g : String → Value} {k : String}
    (hk : k ∉ ks) (rest : Row) : Row.get (ks.map (fun f => (f, g f)) ++ rest) k = rest.get k := by
  induction ks with
  | nil => rfl
  | cons k' ks ih =>
    rw [List.map_cons, List.cons_append, Row.get_cons,
      if_neg fun h : k = k' => hk (h ▸ List.mem_cons_self _ _)]
    exact ih fun hmem => hk (List.mem_cons_of_mem _ hmem)

/-- The cells of a merged row: a key from the key side, then the left side's own fields, then
the right side's. -/
theorem get_outerJoinRow (keys leftOnly rightOnly : List String)
    (keyCell leftCell rightCell : String → Value) (f : String) :
    (outerJoinRow keys leftOnly rightOnly keyCell leftCell rightCell).get f =
      if f ∈ keys then keyCell f else if f ∈ leftOnly then leftCell f
      else if f ∈ rightOnly then rightCell f else .null := by
  rw [outerJoinRow, List.append_assoc]
  by_cases hk : f ∈ keys
  · rw [if_pos hk, get_map_append_of_mem hk]
  rw [if_neg hk, get_map_append_of_not_mem hk]
  by_cases hl : f ∈ leftOnly
  · rw [if_pos hl, get_map_append_of_mem hl]
  rw [if_neg hl, get_map_append_of_not_mem hl, ← List.append_nil (rightOnly.map _)]
  by_cases hr : f ∈ rightOnly
  · rw [if_pos hr, get_map_append_of_mem hr]
  · rw [if_neg hr, get_map_append_of_not_mem hr]
    rfl

theorem pointOf_outerJoinRow (keys leftOnly rightOnly : List String)
    (keyCell leftCell rightCell : String → Value) :
    pointOf keys (outerJoinRow keys leftOnly rightOnly keyCell leftCell rightCell) =
      keys.map keyCell :=
  List.map_congr_left fun f hf => by rw [get_outerJoinRow, if_pos hf]

/-- SQL equality on every key: the two points are equal and have no `NULL`. -/
theorem keysMatch_eq_true_iff {keys : List String} {l r : Row} :
    keysMatch keys l r = true ↔ NoNull (pointOf keys l) ∧ pointOf keys l = pointOf keys r := by
  simp only [keysMatch, List.all_eq_true, sqlEq, Bool.and_eq_true, bne_iff_ne, ne_eq,
    beq_iff_eq, NoNull, pointOf, List.forall_mem_map, List.map_inj_left]
  exact ⟨fun h => ⟨fun k hk => (h k hk).1, fun k hk => (h k hk).2⟩,
    fun h k hk => ⟨h.1 k hk, h.2 k hk⟩⟩

/-- At a point a row of the left side has, it matches exactly the rows at that point. -/
theorem keysMatch_eq_of_pointOf {keys : List String} {l : Row} {p : List Value} (hp : NoNull p)
    (hl : pointOf keys l = p) (r : Row) : keysMatch keys l r = decide (pointOf keys r = p) := by
  rw [Bool.eq_iff_iff, keysMatch_eq_true_iff, hl, decide_eq_true_iff]
  exact ⟨fun h => h.2.symm, fun h => ⟨hp, h.symm⟩⟩

theorem filter_pointOf_of_keyed {keys : List String} {rows : List Row} (h : Keyed keys rows)
    (p : List Value) : rows.filter (pointOf keys · = p) = (rowAt keys p rows).toList := by
  induction rows with
  | nil => rfl
  | cons r rows ih =>
    rw [Keyed, List.map_cons, List.nodup_cons] at h
    by_cases hr : pointOf keys r = p
    · have hrest : rows.filter (pointOf keys · = p) = [] :=
        List.filter_eq_nil_iff.2 fun s hs hsp =>
          h.1 (hr ▸ (of_decide_eq_true hsp) ▸ List.mem_map_of_mem _ hs)
      simp [rowAt, hr, hrest]
    · simpa [rowAt, hr] using ih h.2

/-- Filtering a `flatMap` by a point, when every row `g l` makes is at the point of `l`. -/
theorem filter_flatMap_pointOf {keys : List String} {ls : List Row} {g : Row → List Row}
    (hg : ∀ l ∈ ls, ∀ r ∈ g l, pointOf keys r = pointOf keys l) (p : List Value) :
    (ls.flatMap g).filter (pointOf keys · = p) = (ls.filter (pointOf keys · = p)).flatMap g := by
  induction ls with
  | nil => rfl
  | cons l ls ih =>
    rw [List.flatMap_cons, List.filter_append, ih fun l' hl' => hg l' (.tail _ hl'),
      List.filter_cons]
    by_cases hl : pointOf keys l = p
    · rw [List.filter_eq_self.2 fun r hr => by simp [hg l (.head _) r hr, hl]]
      simp [hl]
    · rw [List.filter_eq_nil_iff.2 fun r hr => by simp [hg l (.head _) r hr, hl]]
      simp [hl]

/-- One merge at a point `p` whose keys are all non-`NULL`, against a keyed right side: each
left row at `p` merges with the right row at `p`, or takes the defaults for the right side's
fields; the right row at `p` stands alone, with the defaults for the left side's fields, when
no left row is at `p`. -/
theorem filter_fullOuterJoinRows {keys leftFields rightFields : List String}
    {defaults : List (String × (Value × DType))} {left right : List Row} {p : List Value}
    (hp : NoNull p) (hright : Keyed keys right) :
    (fullOuterJoinRows keys leftFields rightFields defaults left right).filter
        (pointOf keys · = p) =
      ((left.filter (pointOf keys · = p)).map fun l =>
        outerJoinRow keys (leftFields.filter (· ∉ keys)) (rightFields.filter (· ∉ keys))
          l.get l.get (((rowAt keys p right).map Row.get).getD (defaultCell defaults))) ++
      if left.any (pointOf keys · = p) then [] else
        (rowAt keys p right).toList.map fun s =>
          outerJoinRow keys (leftFields.filter (· ∉ keys)) (rightFields.filter (· ∉ keys))
            s.get (defaultCell defaults) s.get := by
  have hmatch : ∀ l, pointOf keys l = p → right.filter (keysMatch keys l) =
      (rowAt keys p right).toList := fun l hl =>
    (List.filter_congr fun r _ => keysMatch_eq_of_pointOf hp hl r).trans
      (filter_pointOf_of_keyed hright p)
  have hunmatched : ∀ r, pointOf keys r = p →
      (!left.any fun l => keysMatch keys l r) = !left.any (pointOf keys · = p) := by
    intro r hr
    congr 1
    rw [Bool.eq_iff_iff, List.any_eq_true, List.any_eq_true]
    refine exists_congr fun l => and_congr_right fun _ => ?_
    rw [keysMatch_eq_true_iff, hr, decide_eq_true_iff]
    exact ⟨fun h => h.2, fun h => ⟨h ▸ hp, h⟩⟩
  simp only [fullOuterJoinRows, List.filter_append]
  congr 1
  · rw [filter_flatMap_pointOf, List.map_eq_flatMap]
    · refine List.flatMap_congr fun l hl => ?_
      rw [hmatch l (of_decide_eq_true (List.mem_filter.1 hl).2)]
      cases rowAt keys p right <;> rfl
    · intro l _ r hr
      split at hr
      · rw [List.mem_singleton.1 hr, pointOf_outerJoinRow]
        rfl
      · obtain ⟨_, _, rfl⟩ := List.mem_map.1 hr
        rw [pointOf_outerJoinRow]
        rfl
  · rw [List.filter_map, List.filter_filter, ← filter_pointOf_of_keyed hright p]
    have hpoint : ∀ r, pointOf keys (outerJoinRow keys (leftFields.filter (· ∉ keys))
        (rightFields.filter (· ∉ keys)) r.get (defaultCell defaults) r.get) = pointOf keys r :=
      fun r => pointOf_outerJoinRow _ _ _ _ _ _
    split
    · rename_i hany
      rw [List.map_eq_nil_iff, List.filter_eq_nil_iff]
      intro r _ h
      simp only [Function.comp, hpoint, Bool.and_eq_true, decide_eq_true_iff] at h
      rw [hunmatched r h.1, hany] at h
      exact Bool.false_ne_true h.2
    · rename_i hany
      congr 1
      refine List.filter_congr fun r _ => ?_
      simp only [Function.comp, hpoint]
      by_cases hr : pointOf keys r = p
      · simp [hr, hunmatched r hr, hany]
      · simp [hr]

theorem exists_of_map_eq_singleton {α β : Type} {f : α → β} {xs : List α} {y : β}
    (h : xs.map f = [y]) : ∃ x, xs = [x] ∧ f x = y := by
  match xs, h with
  | [x], h => exact ⟨x, rfl, List.singleton_inj.1 h⟩

/-- The fields of a table with the keys first, once the keys are filtered out. -/
theorem filter_not_mem_keys {keys names : List String} (h : ∀ f ∈ names, f ∉ keys) :
    (keys ++ names).filter (· ∉ keys) = names := by
  rw [List.filter_append, List.filter_eq_nil_iff.2 fun f hf => by simp [hf],
    List.filter_eq_self.2 fun f hf => by simp [h f hf], List.nil_append]

/-! ## Defaults -/

theorem get?_addFieldDefaults_of_not_mem (fieldDefaultValue : Dict String (Value × DType))
    (aggs : List AggregationFieldDescriptor) {f : String} (hf : f ∉ aggs.map (·.fieldName)) :
    (addFieldDefaults fieldDefaultValue aggs).get? f = fieldDefaultValue.get? f := by
  induction aggs generalizing fieldDefaultValue with
  | nil => rfl
  | cons agg aggs ih =>
    rw [List.map_cons, List.mem_cons, not_or] at hf
    show (addFieldDefaults (fieldDefaultValue.insert agg.fieldName _) aggs).get? f = _
    rw [ih _ hf.2, Dict.get?_insert, if_neg hf.1]

theorem get?_addFieldDefaults_of_mem (fieldDefaultValue : Dict String (Value × DType))
    {aggs : List AggregationFieldDescriptor} (hnodup : (aggs.map (·.fieldName)).Nodup)
    {agg : AggregationFieldDescriptor} (hagg : agg ∈ aggs) :
    (addFieldDefaults fieldDefaultValue aggs).get? agg.fieldName =
      some (getDefaultValueAndType agg) := by
  induction aggs generalizing fieldDefaultValue with
  | nil => cases hagg
  | cons a aggs ih =>
    rw [List.map_cons, List.nodup_cons] at hnodup
    show (addFieldDefaults (fieldDefaultValue.insert a.fieldName _) aggs).get? _ = _
    rcases List.mem_cons.1 hagg with rfl | hagg
    · rw [get?_addFieldDefaults_of_not_mem _ _ hnodup.1, Dict.get?_insert, if_pos rfl]
    · exact ih _ hnodup.2 hagg

/-! ## The merge invariant -/

section Merge

variable (engine : Engine) (tmpTable : Plan) (keys : List String)

/-- The sub-table of a batch: `evaluate_sliding_window_transform` on `tmp_table`. -/
def subTable (batch : SlidingWindowDescriptor × List AggregationFieldDescriptor) : List Row :=
  (Plan.slidingWindow tmpTable batch.1 batch.2).eval engine

/-- The aggregation fields of the batches, in order. -/
def aggFieldNames (batches : List (SlidingWindowDescriptor × List AggregationFieldDescriptor)) :
    List String :=
  (batches.flatMap (·.2)).map (·.fieldName)

/-- The cell a field should have at `p`: its own sub-table's value there, or its default when
that sub-table has no row at `p`. -/
def aggCell (p : List Value) (rows : List Row) (agg : AggregationFieldDescriptor) : Value :=
  match rowAt keys p rows with
  | some s => s.get agg.fieldName
  | none => (getDefaultValueAndType agg).1

/-- Whether the sub-table of one of the batches has a row at `p`. -/
def emitted (p : List Value)
    (batches : List (SlidingWindowDescriptor × List AggregationFieldDescriptor)) : Bool :=
  batches.any fun batch => (rowAt keys p (subTable engine tmpTable batch)).isSome

/-- The cells the merged row at `p` should have, field by field. -/
def mergedCells (p : List Value)
    (batches : List (SlidingWindowDescriptor × List AggregationFieldDescriptor)) : List Value :=
  batches.flatMap fun batch => batch.2.map (aggCell keys p (subTable engine tmpTable batch))

/-- What the merge of `batches` holds: the keys and every aggregation field as its fields, a
default for each field in `field_default_value`, and at each point with no `NULL` key one row
when a sub-table emitted it and none otherwise, with the cells `mergedCells`. -/
structure MergeInv (batches : List (SlidingWindowDescriptor × List AggregationFieldDescriptor))
    (plan : Plan) (fieldDefaultValue : Dict String (Value × DType)) : Prop where
  fields : plan.fields = keys ++ aggFieldNames batches
  defaults : ∀ batch ∈ batches, ∀ agg ∈ batch.2,
    fieldDefaultValue.get? agg.fieldName = some (getDefaultValueAndType agg)
  rows : ∀ p, NoNull p →
    ((plan.eval engine).filter (pointOf keys · = p)).map
        (fun r => (aggFieldNames batches).map r.get) =
      if emitted engine tmpTable keys p batches then [mergedCells engine tmpTable keys p batches]
      else []

variable {engine tmpTable keys}

theorem aggFieldNames_append
    (batches batches' : List (SlidingWindowDescriptor × List AggregationFieldDescriptor)) :
    aggFieldNames (batches ++ batches') = aggFieldNames batches ++ aggFieldNames batches' := by
  simp [aggFieldNames]

/-- The merged cells, when a function gives every field the cell it should have. -/
theorem mergedCells_eq_map {p : List Value}
    {batches : List (SlidingWindowDescriptor × List AggregationFieldDescriptor)}
    {cell : String → Value} (h : ∀ batch ∈ batches, ∀ agg ∈ batch.2,
      cell agg.fieldName = aggCell keys p (subTable engine tmpTable batch) agg) :
    mergedCells engine tmpTable keys p batches = (aggFieldNames batches).map cell := by
  rw [aggFieldNames, List.map_map, List.map_flatMap]
  exact List.flatMap_congr fun batch hb =>
    List.map_congr_left fun agg hagg => (h batch hb agg hagg).symm

theorem fields_slidingWindow_batch
    {batch : SlidingWindowDescriptor × List AggregationFieldDescriptor}
    (hkeys : batch.1.groupByKeys ++ [eventTimeAttributeName] = keys) :
    (Plan.slidingWindow tmpTable batch.1 batch.2).fields = keys ++ aggFieldNames [batch] := by
  simp [Plan.fields, ← hkeys, aggFieldNames]

/-- The first batch: its sub-table as it is. -/
theorem mergeInv_first {batch : SlidingWindowDescriptor × List AggregationFieldDescriptor}
    (hkeys : batch.1.groupByKeys ++ [eventTimeAttributeName] = keys)
    (hnodup : (aggFieldNames [batch]).Nodup)
    (hkeyed : Keyed keys (subTable engine tmpTable batch)) :
    MergeInv engine tmpTable keys [batch] (.slidingWindow tmpTable batch.1 batch.2)
      (addFieldDefaults Dict.empty batch.2) := by
  have hnames : (batch.2.map (·.fieldName)).Nodup := by simpa [aggFieldNames] using hnodup
  refine ⟨fields_slidingWindow_batch hkeys, fun b hb agg hagg => ?_, fun p _ => ?_⟩
  · obtain rfl := List.mem_singleton.1 hb
    exact get?_addFieldDefaults_of_mem _ hnames hagg
  · show ((subTable engine tmpTable batch).filter _).map _ = _
    rw [filter_pointOf_of_keyed hkeyed, emitted, mergedCells]
    cases hs : rowAt keys p (subTable engine tmpTable batch) with
    | none => simp [hs]
    | some s => simp [hs, aggCell, aggFieldNames]

theorem emitted_append_singleton (p : List Value)
    (batches : List (SlidingWindowDescriptor × List AggregationFieldDescriptor))
    (batch : SlidingWindowDescriptor × List AggregationFieldDescriptor) :
    emitted engine tmpTable keys p (batches ++ [batch]) =
      (emitted engine tmpTable keys p batches ||
        (rowAt keys p (subTable engine tmpTable batch)).isSome) := by
  simp [emitted, List.any_append]

theorem mergedCells_append_singleton (p : List Value)
    (batches : List (SlidingWindowDescriptor × List AggregationFieldDescriptor))
    (batch : SlidingWindowDescriptor × List AggregationFieldDescriptor) :
    mergedCells engine tmpTable keys p (batches ++ [batch]) =
      mergedCells engine tmpTable keys p batches ++
        batch.2.map (aggCell keys p (subTable engine tmpTable batch)) := by
  simp [mergedCells, List.flatMap_append]

/-- A field the default map holds gets its default. -/
theorem defaultCell_of_get? {fieldDefaultValue : Dict String (Value × DType)} {f : String}
    {v : Value × DType} (h : fieldDefaultValue.get? f = some v) :
    defaultCell fieldDefaultValue.entries f = v.1 := by
  show ((fieldDefaultValue.get? f).map Prod.fst).getD .null = v.1
  rw [h]
  rfl

/-- The fields of a merged row, when the keys, the left side's and the right side's fields are
pairwise disjoint. -/
theorem map_get_outerJoinRow {leftOnly rightOnly : List String}
    (hleft : ∀ f ∈ leftOnly, f ∉ keys)
    (hright : ∀ f ∈ rightOnly, f ∉ keys ∧ f ∉ leftOnly)
    (keyCell leftCell rightCell : String → Value) :
    (leftOnly ++ rightOnly).map
        (outerJoinRow keys leftOnly rightOnly keyCell leftCell rightCell).get =
      leftOnly.map leftCell ++ rightOnly.map rightCell := by
  rw [List.map_append]
  congr 1 <;> refine List.map_congr_left fun f hf => ?_ <;> rw [get_outerJoinRow]
  · simp [hleft f hf, hf]
  · simp [(hright f hf).1, (hright f hf).2, hf]

theorem any_eq_not_isEmpty_filter {α : Type} (l : List α) (q : α → Bool) :
    l.any q = !(l.filter q).isEmpty := by
  induction l with
  | nil => rfl
  | cons a l ih => cases h : q a <;> simp [List.filter_cons, h, ih]

/-- The defaults after a batch's fields join the map, when its fields are new. -/
theorem defaults_addFieldDefaults
    {batches : List (SlidingWindowDescriptor × List AggregationFieldDescriptor)}
    {fieldDefaultValue : Dict String (Value × DType)}
    (hdefaults : ∀ batch ∈ batches, ∀ agg ∈ batch.2,
      fieldDefaultValue.get? agg.fieldName = some (getDefaultValueAndType agg))
    {batch : SlidingWindowDescriptor × List AggregationFieldDescriptor}
    (hnew : (aggFieldNames [batch]).Nodup)
    (hdisj : (aggFieldNames batches).Disjoint (aggFieldNames [batch])) :
    ∀ b ∈ batches ++ [batch], ∀ agg ∈ b.2,
      (addFieldDefaults fieldDefaultValue batch.2).get? agg.fieldName =
        some (getDefaultValueAndType agg) := by
  have hnames : aggFieldNames [batch] = batch.2.map (·.fieldName) := by simp [aggFieldNames]
  intro b hb agg hagg
  rcases List.mem_append.1 hb with hb | hb
  · have hf : agg.fieldName ∉ batch.2.map (·.fieldName) := fun hf =>
      hdisj (List.mem_map_of_mem _ (List.mem_flatMap.2 ⟨b, hb, hagg⟩)) (hnames ▸ hf)
    rw [get?_addFieldDefaults_of_not_mem _ _ hf]
    exact hdefaults b hb agg hagg
  · obtain rfl := List.mem_singleton.1 hb
    exact get?_addFieldDefaults_of_mem _ (hnames ▸ hnew) hagg

/-- The new batch's cells in a merged row: the sub-table's row at `p`, or the defaults. -/
theorem newCells_eq_aggCells {p : List Value}
    {batch : SlidingWindowDescriptor × List AggregationFieldDescriptor}
    {fieldDefaultValue : Dict String (Value × DType)}
    (hdefaults : ∀ agg ∈ batch.2,
      fieldDefaultValue.get? agg.fieldName = some (getDefaultValueAndType agg)) :
    (aggFieldNames [batch]).map
        (((rowAt keys p (subTable engine tmpTable batch)).map Row.get).getD
          (defaultCell fieldDefaultValue.entries)) =
      batch.2.map (aggCell keys p (subTable engine tmpTable batch)) := by
  simp only [aggFieldNames, List.flatMap_cons, List.flatMap_nil, List.append_nil, List.map_map]
  refine List.map_congr_left fun agg hagg => ?_
  simp only [Function.comp, aggCell]
  cases rowAt keys p (subTable engine tmpTable batch) with
  | none => exact defaultCell_of_get? (hdefaults agg hagg)
  | some s => rfl

/-- One merge keeps the invariant: the merged table so far, full-outer-joined on the keys with
the next batch's sub-table and the defaults of every field so far. -/
theorem mergeInv_step
    {batches : List (SlidingWindowDescriptor × List AggregationFieldDescriptor)}
    {plan : Plan} {fieldDefaultValue : Dict String (Value × DType)}
    (hinv : MergeInv engine tmpTable keys batches plan fieldDefaultValue)
    {batch : SlidingWindowDescriptor × List AggregationFieldDescriptor}
    (hkeys : batch.1.groupByKeys ++ [eventTimeAttributeName] = keys)
    (hnodup : (keys ++ aggFieldNames (batches ++ [batch])).Nodup)
    (hkeyed : Keyed keys (subTable engine tmpTable batch)) :
    MergeInv engine tmpTable keys (batches ++ [batch])
      (.fullOuterJoin plan (.slidingWindow tmpTable batch.1 batch.2) keys
        (addFieldDefaults fieldDefaultValue batch.2).entries)
      (addFieldDefaults fieldDefaultValue batch.2) := by
  rw [aggFieldNames_append, List.nodup_append, List.nodup_append] at hnodup
  obtain ⟨-, ⟨-, hnew, hdisj⟩, hkeysDisj⟩ := hnodup
  have hold : ∀ f ∈ aggFieldNames batches, f ∉ keys := fun f hf hk =>
    hkeysDisj hk (List.mem_append_left _ hf)
  have hfresh : ∀ f ∈ aggFieldNames [batch], f ∉ keys ∧ f ∉ aggFieldNames batches :=
    fun f hf => ⟨fun hk => hkeysDisj hk (List.mem_append_right _ hf), fun ho => hdisj ho hf⟩
  have hdefaults := defaults_addFieldDefaults hinv.defaults hnew hdisj
  have hleft : plan.fields.filter (· ∉ keys) = aggFieldNames batches := by
    rw [hinv.fields, filter_not_mem_keys hold]
  have hright : (Plan.slidingWindow tmpTable batch.1 batch.2).fields.filter (· ∉ keys) =
      aggFieldNames [batch] := by
    rw [fields_slidingWindow_batch hkeys, filter_not_mem_keys fun f hf => (hfresh f hf).1]
  refine ⟨?_, hdefaults, fun p hp => ?_⟩
  · show keys ++ plan.fields.filter _ ++
      (Plan.slidingWindow tmpTable batch.1 batch.2).fields.filter _ = _
    rw [hleft, hright, aggFieldNames_append, List.append_assoc]
  have hnewCells := @newCells_eq_aggCells engine tmpTable keys p batch _ fun agg hagg =>
    hdefaults batch (List.mem_append_right _ (.head _)) agg hagg
  show ((fullOuterJoinRows keys plan.fields (Plan.slidingWindow tmpTable batch.1 batch.2).fields
      (addFieldDefaults fieldDefaultValue batch.2).entries (plan.eval engine)
      (subTable engine tmpTable batch)).filter _).map _ = _
  rw [filter_fullOuterJoinRows hp hkeyed, hleft, hright, aggFieldNames_append,
    emitted_append_singleton, mergedCells_append_singleton, any_eq_not_isEmpty_filter]
  have hrows := hinv.rows p hp
  cases he : emitted engine tmpTable keys p batches
  · -- no earlier sub-table emitted `p`: at most the new sub-table's row, with the defaults
    rw [he, if_neg Bool.false_ne_true] at hrows
    rw [List.map_eq_nil_iff.1 hrows]
    have hdefaultCells : mergedCells engine tmpTable keys p batches = (aggFieldNames batches).map
        (defaultCell (addFieldDefaults fieldDefaultValue batch.2).entries) :=
      mergedCells_eq_map fun b hb agg hagg => by
        have hnone : rowAt keys p (subTable engine tmpTable b) = none := by
          simpa using List.any_eq_false.1 he b hb
        rw [defaultCell_of_get? (hdefaults b (List.mem_append_left _ hb) agg hagg), aggCell,
          hnone]
    cases hs : rowAt keys p (subTable engine tmpTable batch) with
    | none => simp
    | some s =>
      simp only [List.map_nil, List.nil_append, List.isEmpty_nil, Bool.not_true,
        Bool.false_eq_true, ite_false, Option.toList_some, List.map_cons, Option.isSome_some,
        Bool.false_or, ite_true]
      rw [map_get_outerJoinRow hold hfresh, hdefaultCells, ← hnewCells, hs]
      rfl
  · -- an earlier sub-table emitted `p`: its one merged row, with the new row or the defaults
    rw [he, if_pos rfl] at hrows
    obtain ⟨l, hL, hl⟩ := exists_of_map_eq_singleton hrows
    simp only [hL, List.map_cons, List.map_nil, List.isEmpty_cons, Bool.not_false,
      Bool.false_eq_true, ite_false, ite_true, List.append_nil, Bool.true_or]
    rw [map_get_outerJoinRow hold hfresh, hl, hnewCells]

/-- The loop from a merged prefix: every later merge keeps the invariant. -/
theorem mergeInv_foldl
    {batches : List (SlidingWindowDescriptor × List AggregationFieldDescriptor)}
    {plan : Plan} {fieldDefaultValue : Dict String (Value × DType)}
    (hinv : MergeInv engine tmpTable keys batches plan fieldDefaultValue)
    (rest : List (SlidingWindowDescriptor × List AggregationFieldDescriptor))
    (hkeys : ∀ batch ∈ rest, batch.1.groupByKeys ++ [eventTimeAttributeName] = keys)
    (hnodup : (keys ++ aggFieldNames (batches ++ rest)).Nodup)
    (hkeyed : ∀ batch ∈ rest, Keyed keys (subTable engine tmpTable batch)) :
    ∃ plan' fieldDefaultValue',
      rest.foldl (mergeStep tmpTable) (some plan, fieldDefaultValue) =
        (some plan', fieldDefaultValue') ∧
      MergeInv engine tmpTable keys (batches ++ rest) plan' fieldDefaultValue' := by
  induction rest generalizing batches plan fieldDefaultValue with
  | nil => exact ⟨plan, fieldDefaultValue, rfl, by simpa using hinv⟩
  | cons batch rest ih =>
    have hstep : mergeStep tmpTable (some plan, fieldDefaultValue) batch =
        (some (.fullOuterJoin plan (.slidingWindow tmpTable batch.1 batch.2) keys
          (addFieldDefaults fieldDefaultValue batch.2).entries),
          addFieldDefaults fieldDefaultValue batch.2) := by
      rw [← hkeys batch (.head _)]
      rfl
    rw [List.foldl_cons, hstep]
    have happ : batches ++ batch :: rest = batches ++ [batch] ++ rest := by simp
    rw [happ] at hnodup ⊢
    have hsub : List.Sublist (keys ++ aggFieldNames (batches ++ [batch]))
        (keys ++ aggFieldNames (batches ++ [batch] ++ rest)) :=
      (aggFieldNames_append (batches ++ [batch]) rest ▸
        List.sublist_append_left _ _).append_left _
    exact ih (mergeInv_step hinv (hkeys batch (.head _)) (hnodup.sublist hsub)
      (hkeyed batch (.head _))) (fun b hb => hkeys b (.tail _ hb)) hnodup
      (fun b hb => hkeyed b (.tail _ hb))

/-- The whole loop over nonempty batches. -/
theorem mergeInv_loop
    {batches : List (SlidingWindowDescriptor × List AggregationFieldDescriptor)}
    (hne : batches ≠ [])
    (hkeys : ∀ batch ∈ batches, batch.1.groupByKeys ++ [eventTimeAttributeName] = keys)
    (hnodup : (keys ++ aggFieldNames batches).Nodup)
    (hkeyed : ∀ batch ∈ batches, Keyed keys (subTable engine tmpTable batch)) :
    ∃ plan fieldDefaultValue,
      batches.foldl (mergeStep tmpTable) (none, Dict.empty) = (some plan, fieldDefaultValue) ∧
      MergeInv engine tmpTable keys batches plan fieldDefaultValue := by
  obtain ⟨batch, rest, rfl⟩ := List.exists_cons_of_ne_nil hne
  have hfirst : (aggFieldNames [batch]).Nodup :=
    hnodup.sublist (((aggFieldNames_append [batch] rest) ▸
      List.sublist_append_left _ _).trans (List.sublist_append_right _ _))
  exact mergeInv_foldl (mergeInv_first (hkeys batch (.head _)) hfirst (hkeyed batch (.head _)))
    rest (fun b hb => hkeys b (.tail _ hb)) hnodup (fun b hb => hkeyed b (.tail _ hb))

end Merge

/-! ## The merge loop of a view -/

/-- The merge loop of `_get_table_from_sliding_feature_view` over any nonempty batch map whose
batches share one list of group-by keys, whose keys, event-time column and aggregation fields
are distinct names, and whose sub-tables have at most one row per point: the loop returns a
merged table with `MergeInv`, and so does every prefix of it. -/
theorem mergeSlidingWindowAggs_rows (engine : Engine) (tmpTable : Plan)
    (slidingWindowAggMap : Dict SlidingWindowDescriptor (List AggregationFieldDescriptor))
    (groupByKeys : List String) (hne : slidingWindowAggMap.entries ≠ [])
    (hgroup : ∀ w ∈ slidingWindowAggMap.keys, w.groupByKeys = groupByKeys)
    (hnodup : (groupByKeys ++ [eventTimeAttributeName] ++
      aggFieldNames slidingWindowAggMap.entries).Nodup)
    (hkeyed : ∀ batch ∈ slidingWindowAggMap.entries,
      Keyed (groupByKeys ++ [eventTimeAttributeName]) (subTable engine tmpTable batch)) :
    (∃ plan fieldDefaultValue,
      mergeSlidingWindowAggs tmpTable slidingWindowAggMap = (some plan, fieldDefaultValue) ∧
      MergeInv engine tmpTable (groupByKeys ++ [eventTimeAttributeName])
        slidingWindowAggMap.entries plan fieldDefaultValue) ∧
    ∀ i, 0 < i → ∃ plan fieldDefaultValue,
      (slidingWindowAggMap.entries.take i).foldl (mergeStep tmpTable) (none, Dict.empty) =
        (some plan, fieldDefaultValue) ∧
      MergeInv engine tmpTable (groupByKeys ++ [eventTimeAttributeName])
        (slidingWindowAggMap.entries.take i) plan fieldDefaultValue := by
  have hkeys : ∀ batch ∈ slidingWindowAggMap.entries,
      batch.1.groupByKeys ++ [eventTimeAttributeName] = groupByKeys ++ [eventTimeAttributeName] :=
    fun batch hb => by rw [hgroup batch.1 (List.mem_map_of_mem _ hb)]
  refine ⟨mergeInv_loop hne hkeys hnodup hkeyed, fun i hi => ?_⟩
  have htake := List.take_sublist i slidingWindowAggMap.entries
  have hsub := List.sublist_append_left (aggFieldNames (slidingWindowAggMap.entries.take i))
    (aggFieldNames (slidingWindowAggMap.entries.drop i))
  rw [← aggFieldNames_append, List.take_append_drop] at hsub
  refine mergeInv_loop ?_ (fun b hb => hkeys b (htake.subset hb))
    (hnodup.sublist (hsub.append_left _)) (fun b hb => hkeyed b (htake.subset hb))
  obtain ⟨batch, rest, he⟩ := List.exists_cons_of_ne_nil hne
  obtain ⟨i, rfl⟩ := Nat.exists_eq_add_of_lt hi
  simp [he]

/-! ## The batches of a sliding view -/

@[simp] theorem fieldName_fromFeature (f : Feature) :
    (AggregationFieldDescriptor.fromFeature f).fieldName = f.name := by
  unfold AggregationFieldDescriptor.fromFeature
  split <;> rfl

theorem aggFieldNames_batches (done : List Feature) :
    aggFieldNames (batches slidingWindowDescriptorOf windowBatch done) =
      ((batchKeys slidingWindowDescriptorOf done).flatMap
        (batchFeatures slidingWindowDescriptorOf done)).map Feature.name := by
  simp [aggFieldNames, batches, windowBatch, List.flatMap_map, List.map_flatMap,
    Function.comp_def]

/-- The batches the dispatch loop of a sliding view leaves meet the conditions of the merge
loop when the view's sliding-window features share one list of group-by keys and have distinct
names, distinct from the keys and the event-time column. -/
theorem slidingDispatch_merge_conditions {featureView : TableDescriptor} {sourceTable : Plan}
    {st : SlidingState} (h : slidingDispatch featureView sourceTable = .ok st)
    {groupByKeys : List String}
    (hgroup : ∀ f ∈ getDependentFeatures featureView, ∀ t,
      f.transform = .slidingWindow t → t.groupByKeys = groupByKeys)
    (hnames : (groupByKeys ++ [eventTimeAttributeName] ++
      ((getDependentFeatures featureView).filter fun f =>
        (slidingWindowDescriptorOf f).isSome).map Feature.name).Nodup) :
    (∀ w ∈ st.slidingWindowAggMap.keys, w.groupByKeys = groupByKeys) ∧
    (groupByKeys ++ [eventTimeAttributeName] ++
      aggFieldNames st.slidingWindowAggMap.entries).Nodup := by
  have hinv := (slidingDispatch_inv h).windows
  have hdone := dispatchedFeatures_sublist sourceTable.fields (getDependentFeatures featureView)
  refine ⟨fun w hw => ?_, ?_⟩
  · obtain ⟨f, hf, hfw⟩ := mem_batchKeys.1 (hinv.1 ▸ hw)
    unfold slidingWindowDescriptorOf at hfw
    split at hfw
    · rename_i t htr
      cases hfw
      exact hgroup f (hdone.subset hf) t htr
    · cases hfw
  rw [List.nodup_append] at hnames ⊢
  obtain ⟨hkeys, hviewNames, hdisj⟩ := hnames
  have hfiltered := hdone.filter fun f => (slidingWindowDescriptorOf f).isSome
  have hmem : ∀ x ∈ aggFieldNames st.slidingWindowAggMap.entries,
      x ∈ ((getDependentFeatures featureView).filter fun f =>
        (slidingWindowDescriptorOf f).isSome).map Feature.name := by
    intro x hx
    rw [entries_of_batchesOf hinv, aggFieldNames_batches] at hx
    obtain ⟨f, hf, rfl⟩ := List.mem_map.1 hx
    obtain ⟨w, -, hfw⟩ := List.mem_flatMap.1 hf
    rw [batchFeatures_eq_filter] at hfw
    exact List.mem_map_of_mem _ (hfiltered.subset (List.mem_filter.1 hfw).1)
  refine ⟨hkeys, ?_, fun x hx hx' => hdisj hx (hmem x hx')⟩
  rw [entries_of_batchesOf hinv, aggFieldNames_batches]
  exact nodup_names_flatMap_batchFeatures (hviewNames.sublist (hfiltered.map _))

/-- The merge loop of a sliding view, on the batches its dispatch loop leaves. Let the view's
sliding-window features share the group-by keys `groupByKeys` and have distinct names, distinct
from the keys and the event-time column, let there be a batch, and let each sub-table have at
most one row per point. Then the loop returns a merged table, and after each of its merges the
table and `field_default_value` keep `MergeInv` over the batches merged so far: the fields are
the keys and every aggregation field; the map holds a default for each; and at each point with
no `NULL` key the table has one row when a sub-table emitted the point and none otherwise, each
aggregation field its own sub-table's value there or else its default. -/
theorem slidingView_merge_rows (engine : Engine) {featureView : TableDescriptor}
    {sourceTable : Plan} {st : SlidingState} (h : slidingDispatch featureView sourceTable = .ok st)
    {groupByKeys : List String}
    (hgroup : ∀ f ∈ getDependentFeatures featureView, ∀ t,
      f.transform = .slidingWindow t → t.groupByKeys = groupByKeys)
    (hnames : (groupByKeys ++ [eventTimeAttributeName] ++
      ((getDependentFeatures featureView).filter fun f =>
        (slidingWindowDescriptorOf f).isSome).map Feature.name).Nodup)
    (hne : st.slidingWindowAggMap.entries ≠ [])
    (hkeyed : ∀ batch ∈ st.slidingWindowAggMap.entries,
      Keyed (groupByKeys ++ [eventTimeAttributeName]) (subTable engine st.tmpTable batch)) :
    (∃ plan fieldDefaultValue,
      mergeSlidingWindowAggs st.tmpTable st.slidingWindowAggMap = (some plan, fieldDefaultValue) ∧
      MergeInv engine st.tmpTable (groupByKeys ++ [eventTimeAttributeName])
        st.slidingWindowAggMap.entries plan fieldDefaultValue) ∧
    ∀ i, 0 < i → ∃ plan fieldDefaultValue,
      (st.slidingWindowAggMap.entries.take i).foldl (mergeStep st.tmpTable) (none, Dict.empty) =
        (some plan, fieldDefaultValue) ∧
      MergeInv engine st.tmpTable (groupByKeys ++ [eventTimeAttributeName])
        (st.slidingWindowAggMap.entries.take i) plan fieldDefaultValue := by
  obtain ⟨hw, hnodup⟩ := slidingDispatch_merge_conditions h hgroup hnames
  exact mergeSlidingWindowAggs_rows engine st.tmpTable st.slidingWindowAggMap groupByKeys hne hw
    hnodup hkeyed

/-! ## Two sliding windows over one key -/

/-- Visits per user. -/
def visits : TableDescriptor := .featureTable "visits" ["user_id", "ts"] (some "ts") "epoch"

/-- The count of a user's visits over a window of `windowSize`, every minute. -/
def visitCount (name : String) (windowSize : Nat) : Feature :=
  ⟨name, ⟨"INT64"⟩,
    .slidingWindow ⟨"1", "COUNT", ["user_id"], windowSize, 60, none, none⟩, none, []⟩

/-- Visit counts over one and two minutes: two batches, so two sub-tables and one merge. -/
def visitStats : TableDescriptor :=
  .slidingFeatureView "visit_stats" visits [visitCount "visits_1m" 60, visitCount "visits_2m" 120]
    false (some "window_time") "epoch" false

/-- Each sub-table emits one row, for the user `user` at 00:00:00.5, every aggregate `1`. -/
def visitEngine (user : Value) : Engine :=
  { idleEngine with
    slidingWindow := fun _ _ aggs =>
      [[("user_id", user), (eventTimeAttributeName, .timestamp halfPastMidnight)] ++
        aggs.map fun agg => (agg.fieldName, .int 1)] }

theorem visitStats_groupByKeys :
    ∀ f ∈ getDependentFeatures visitStats, ∀ t,
      f.transform = .slidingWindow t → t.groupByKeys = ["user_id"] := by
  intro f hf t ht
  have hdeps : getDependentFeatures visitStats =
      [visitCount "visits_1m" 60, visitCount "visits_2m" 120] := rfl
  rw [hdeps, List.mem_cons, List.mem_singleton] at hf
  rcases hf with rfl | rfl <;> cases ht <;> rfl

theorem slidingView_merge_rows_visitStats :
    ∃ st, slidingDispatch visitStats (.source visits) = .ok st ∧
      (∃ plan fieldDefaultValue,
        mergeSlidingWindowAggs st.tmpTable st.slidingWindowAggMap =
          (some plan, fieldDefaultValue) ∧
        MergeInv (visitEngine (.int 7)) st.tmpTable (["user_id"] ++ [eventTimeAttributeName])
          st.slidingWindowAggMap.entries plan fieldDefaultValue) ∧
      ∀ i, 0 < i → ∃ plan fieldDefaultValue,
        (st.slidingWindowAggMap.entries.take i).foldl (mergeStep st.tmpTable)
          (none, Dict.empty) = (some plan, fieldDefaultValue) ∧
        MergeInv (visitEngine (.int 7)) st.tmpTable (["user_id"] ++ [eventTimeAttributeName])
          (st.slidingWindowAggMap.entries.take i) plan fieldDefaultValue :=
  ⟨_, rfl, slidingView_merge_rows (visitEngine (.int 7))
    (show slidingDispatch visitStats (.source visits) = _ from rfl) visitStats_groupByKeys
    (by decide) (by decide) (by decide)⟩

/-- With a `NULL` user the two sub-tables' rows at the same point match nothing: the merged
table has the point twice, once with each side's aggregate and the other's default `0`. -/
theorem null_key_point_merged_twice :
    ∃ st plan fieldDefaultValue, slidingDispatch visitStats (.source visits) = .ok st ∧
      mergeSlidingWindowAggs st.tmpTable st.slidingWindowAggMap =
        (some plan, fieldDefaultValue) ∧
      (∀ batch ∈ st.slidingWindowAggMap.entries,
        subTable (visitEngine .null) st.tmpTable batch =
          [[("user_id", .null), (eventTimeAttributeName, .timestamp halfPastMidnight)] ++
            batch.2.map fun agg => (agg.fieldName, .int 1)]) ∧
      (plan.eval (visitEngine .null)).filter
          (pointOf ["user_id", eventTimeAttributeName] · =
            [.null, .timestamp halfPastMidnight]) =
        [[("user_id", .null), (eventTimeAttributeName, .timestamp halfPastMidnight),
          ("visits_1m", .int 1), ("visits_2m", .int 0)],
         [("user_id", .null), (eventTimeAttributeName, .timestamp halfPastMidnight),
          ("visits_1m", .int 0), ("visits_2m", .int 1)]] :=
  ⟨_, _, _, rfl, rfl, by decide, by decide⟩

end Feathub
