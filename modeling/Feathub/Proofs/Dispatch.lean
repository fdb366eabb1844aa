import Feathub.SlidingView

/-!
# Dispatch — what the two dispatch loops accumulate

Both dispatch loops skip a feature whose name is already a column of the accumulating
table, and only an expression adds a column while they run. `dispatchedFeatures` replays
those skip decisions. Over the features it lists, the accumulators of a loop that completes
are:

* `tmp_table`: a column for each source field and each expression feature met so far
  (`DerivedInv.columns`);
* each window map: one batch per distinct descriptor, in order of first occurrence, with the
  aggregation descriptors of its features in order (`BatchesOf`);
* the join map: one batch per distinct `(table_name, keys)`, whose field-descriptor map holds
  the writes of its features in order (`JoinBatchesOf`).
-/

namespace Feathub

/-- Whether a transform is an `ExpressionTransform`. -/
def Transform.isExpression : Transform → Bool
  | .expression _ => true
  | _ => false

/-- The columns of the accumulating table after the turn of `f`: only an expression that is
not skipped adds one. -/
def fieldsAfter (fields : List String) (f : Feature) : List String :=
  if f.name ∉ fields ∧ f.transform.isExpression then appendIfAbsent fields f.name else fields

section FieldsAfter

variable {fields : List String} {f : Feature}

theorem fieldsAfter_of_mem (h : f.name ∈ fields) : fieldsAfter fields f = fields :=
  if_neg fun hf => hf.1 h

theorem fieldsAfter_of_isExpression_eq_false (h : f.transform.isExpression = false) :
    fieldsAfter fields f = fields :=
  if_neg fun hf => by simp [h] at hf

theorem fieldsAfter_of_expression {expr : String} (hf : f.name ∉ fields)
    (h : f.transform = .expression expr) : fieldsAfter fields f = appendIfAbsent fields f.name :=
  if_pos ⟨hf, by rw [h]; rfl⟩

end FieldsAfter

/-- The features the dispatch loops do not skip, from a table with the columns `fields`. -/
def dispatchedFeatures (fields : List String) : List Feature → List Feature
  | [] => []
  | f :: fs => (if f.name ∈ fields then [] else [f]) ++ dispatchedFeatures (fieldsAfter fields f) fs

theorem dispatchedFeatures_sublist (fields : List String) (fs : List Feature) :
    List.Sublist (dispatchedFeatures fields fs) fs := by
  induction fs generalizing fields with
  | nil => exact List.Sublist.slnil
  | cons f fs ih =>
    by_cases h : f.name ∈ fields
    · simpa [dispatchedFeatures, h] using (ih _).cons f
    · simpa [dispatchedFeatures, h] using (ih _).cons₂ f

/-- The descriptor of an over-window feature. -/
def overWindowDescriptorOf (f : Feature) : Option OverWindowDescriptor :=
  match f.transform with
  | .overWindow t => some (OverWindowDescriptor.fromOverWindowTransform t)
  | _ => none

/-- The descriptor of a sliding-window feature. -/
def slidingWindowDescriptorOf (f : Feature) : Option SlidingWindowDescriptor :=
  match f.transform with
  | .slidingWindow t => some (SlidingWindowDescriptor.fromSlidingWindowTransform t)
  | _ => none

/-! ## Batches -/

section Batches

variable {W V : Type} [DecidableEq W] (descriptorOf : Feature → Option W)
  (value : W → List Feature → V)

/-- The distinct descriptors of the features of `done`, in order of first occurrence. -/
def batchKeys (done : List Feature) : List W := (done.filterMap descriptorOf).foldl appendIfAbsent []

/-- The features of `done` whose descriptor is `w`, in order. -/
def batchFeatures (done : List Feature) (w : W) : List Feature :=
  done.filter (descriptorOf · = some w)

/-- The batches of `done`, in order of first occurrence of their descriptors. -/
def batches (done : List Feature) : List (W × V) :=
  (batchKeys descriptorOf done).map fun w => (w, value w (batchFeatures descriptorOf done w))

/-- A batch map holds the batches of `done`: one per distinct descriptor, in order of first
occurrence, each holding `value` of its features in order. -/
def BatchesOf (done : List Feature) (aggMap : Dict W V) : Prop :=
  aggMap.keys = batchKeys descriptorOf done ∧
  ∀ w ∈ aggMap.keys, aggMap.get? w = some (value w (batchFeatures descriptorOf done w))

variable {descriptorOf value} {done : List Feature} {aggMap : Dict W V} {f : Feature}

theorem batchesOf_nil : BatchesOf descriptorOf value [] Dict.empty := by
  simp [BatchesOf, batchKeys]

theorem batchFeatures_append (done fs : List Feature) (w : W) :
    batchFeatures descriptorOf (done ++ fs) w =
      batchFeatures descriptorOf done w ++ batchFeatures descriptorOf fs w :=
  List.filter_append _ _

/-- A descriptor that no feature of `done` has has no feature in its batch. -/
theorem batchFeatures_eq_nil {w : W} (hw : w ∉ batchKeys descriptorOf done) :
    batchFeatures descriptorOf done w = [] := by
  rw [batchKeys, mem_foldl_appendIfAbsent] at hw
  simp only [List.not_mem_nil, false_or, List.mem_filterMap, not_exists, not_and] at hw
  exact List.filter_eq_nil_iff.2 fun g hg => by simpa using hw g hg

/-- A batch in the map has a feature. -/
theorem batchFeatures_ne_nil {w : W} (hw : w ∈ batchKeys descriptorOf done) :
    batchFeatures descriptorOf done w ≠ [] := by
  rw [batchKeys, mem_foldl_appendIfAbsent] at hw
  obtain ⟨g, hg, hgw⟩ := List.mem_filterMap.1 (hw.resolve_left (List.not_mem_nil w))
  exact List.ne_nil_of_mem (List.mem_filter.2 ⟨hg, by simpa using hgw⟩)

/-- Adding `f` to the batch of its descriptor `w`: `init` is the value of an empty batch and
`g` extends the value of a batch by `f`. -/
theorem batchesOf_append_some (h : BatchesOf descriptorOf value done aggMap) {w : W}
    (hf : descriptorOf f = some w) {init : V} {g : V → V} (hinit : value w [] = init)
    (hg : ∀ fs, g (value w fs) = value w (fs ++ [f])) :
    BatchesOf descriptorOf value (done ++ [f]) (aggMap.upsert w init g) := by
  have hkeys : (aggMap.upsert w init g).keys = appendIfAbsent aggMap.keys w := by
    rw [Dict.keys_upsert, appendIfAbsent]
  refine ⟨?_, fun w' hw' => ?_⟩
  · rw [hkeys, h.1, batchKeys, batchKeys, List.filterMap_append, List.foldl_append]
    simp [hf]
  rw [Dict.get?_upsert, batchFeatures_append]
  by_cases hw : w' = w
  · subst hw
    have hprev : (aggMap.get? w').getD init = value w' (batchFeatures descriptorOf done w') := by
      by_cases hmem : w' ∈ aggMap.keys
      · simp [h.2 w' hmem]
      · rw [(Dict.get?_eq_none_iff aggMap w').2 hmem,
          batchFeatures_eq_nil (h.1 ▸ hmem), Option.getD_none, hinit]
    simp [hprev, hf, hg, batchFeatures]
  · have hmem : w' ∈ aggMap.keys := by
      rw [hkeys, mem_appendIfAbsent] at hw'; exact hw'.resolve_right hw
    simp [hw, h.2 w' hmem, hf, Ne.symm hw, batchFeatures]

/-- The entries of a batch map, in order: what the phase after the loop folds over. -/
theorem entries_of_batchesOf (h : BatchesOf descriptorOf value done aggMap) :
    aggMap.entries = batches descriptorOf value done := by
  rw [Dict.entries_eq_map_keys aggMap _ h.2, h.1]; rfl

theorem mem_batchKeys {w : W} :
    w ∈ batchKeys descriptorOf done ↔ ∃ f ∈ done, descriptorOf f = some w := by
  rw [batchKeys, mem_foldl_appendIfAbsent, List.mem_filterMap]
  simp

/-- A batch takes its features from those that have a descriptor. -/
theorem batchFeatures_eq_filter (w : W) :
    batchFeatures descriptorOf done w =
      (done.filter fun f => (descriptorOf f).isSome).filter (descriptorOf · = some w) := by
  rw [List.filter_filter, batchFeatures]
  refine List.filter_congr fun f _ => ?_
  by_cases hf : descriptorOf f = some w <;> simp [hf]

/-- Distinct names among the features with a descriptor stay distinct across the batches: a
feature is only in the batch of its own descriptor. -/
theorem nodup_names_flatMap_batchFeatures
    (hnames : ((done.filter fun f => (descriptorOf f).isSome).map Feature.name).Nodup) :
    (((batchKeys descriptorOf done).flatMap (batchFeatures descriptorOf done)).map
      Feature.name).Nodup := by
  rw [List.map_flatMap]
  refine List.nodup_flatMap.2 ⟨fun w _ => ?_, ?_⟩
  · rw [batchFeatures_eq_filter]
    exact hnames.sublist ((List.filter_sublist _).map _)
  refine (nodup_foldl_appendIfAbsent _ List.nodup_nil).imp_of_mem
    fun {w w'} _ _ hne x hx hx' => hne ?_
  obtain ⟨g, hg, rfl⟩ := List.mem_map.1 hx
  obtain ⟨g', hg', hname⟩ := List.mem_map.1 hx'
  rw [batchFeatures_eq_filter, List.mem_filter] at hg hg'
  obtain rfl := List.inj_on_of_nodup_map hnames hg'.1 hg.1 hname
  exact Option.some.inj ((of_decide_eq_true hg.2).symm.trans (of_decide_eq_true hg'.2))

theorem batchesOf_append_none (h : BatchesOf descriptorOf value done aggMap)
    (hf : descriptorOf f = none) : BatchesOf descriptorOf value (done ++ [f]) aggMap := by
  refine ⟨by rw [h.1, batchKeys, batchKeys, List.filterMap_append]; simp [hf], fun w hw => ?_⟩
  rw [h.2 w hw, batchFeatures_append]
  simp [hf, batchFeatures]

end Batches

/-- The value of a window batch: `from_feature` of each of its features. -/
def windowBatch {W : Type} (_ : W) (features : List Feature) : List AggregationFieldDescriptor :=
  features.map AggregationFieldDescriptor.fromFeature

theorem batchesOf_appendToBatch {W : Type} [DecidableEq W] {descriptorOf : Feature → Option W}
    {done : List Feature} {aggMap : Dict W (List AggregationFieldDescriptor)} {f : Feature}
    (h : BatchesOf descriptorOf windowBatch done aggMap) {w : W} (hf : descriptorOf f = some w) :
    BatchesOf descriptorOf windowBatch (done ++ [f]) (appendToBatch aggMap w f) :=
  batchesOf_append_some h hf rfl fun fs => by simp [windowBatch]

/-! ## Join batches -/

/-- The batch of a join feature: `(transform.table_name, tuple(feature.keys))`. -/
def joinPairOf (f : Feature) : Option (String × List String) :=
  match f.transform, f.keys with
  | .join tableName _, some keys => some (tableName, keys)
  | _, _ => none

/-- The field a join feature pulls: `transform.feature_name`. -/
def pulledFieldOf (f : Feature) : String :=
  match f.transform with
  | .join _ featureName => featureName
  | _ => ""

/-- The field-descriptor map of the join batch `pair`: the writes of each of its features in
order, against the table registered under `pair.1`. -/
def joinBatch (descriptorsByNames : Dict String TableDescriptor) (pair : String × List String)
    (features : List Feature) : Dict String JoinFieldDescriptor :=
  match descriptorsByNames.get? pair.1 with
  | some right =>
    match right.timestampField with
    | some rightTimestampField =>
      features.foldl (fun d f => mergeJoinFieldDescriptors d pair.2 rightTimestampField right
        (pulledFieldOf f)) Dict.empty
    | none => Dict.empty
  | none => Dict.empty

theorem batchesOf_upsertJoin {descriptorsByNames : Dict String TableDescriptor}
    {done : List Feature}
    {rightTables : Dict (String × List String) (Dict String JoinFieldDescriptor)} {f : Feature}
    (h : BatchesOf joinPairOf (joinBatch descriptorsByNames) done rightTables)
    {tableName featureName : String} {keys : List String} {right : TableDescriptor}
    {ts : String} (htr : f.transform = .join tableName featureName) (hk : f.keys = some keys)
    (hright : descriptorsByNames.get? tableName = some right)
    (hts : right.timestampField = some ts) :
    BatchesOf joinPairOf (joinBatch descriptorsByNames) (done ++ [f])
      (rightTables.upsert (tableName, keys) Dict.empty
        (mergeJoinFieldDescriptors · keys ts right featureName)) :=
  batchesOf_append_some h (by simp [joinPairOf, htr, hk]) (by simp [joinBatch, hright, hts])
    fun fs => by simp [joinBatch, hright, hts, pulledFieldOf, htr]

/-! ## The turns of the loops -/

section Turns

variable {timestampField : Option String} {sourceFields : List String}
  {descriptorsByNames : Dict String TableDescriptor}

/-- What a turn of the derived dispatch loop that does not raise did: skip the feature, or, by
its transform, add an expression column, add it to its window batch, or add it to its join
batch once the checks on its keys and its right table passed. -/
theorem derivedFeatureStep_eq_ok {st st' : DerivedState} {f : Feature}
    (h : derivedFeatureStep timestampField sourceFields descriptorsByNames st f = .ok st') :
    f.name ∈ st.tmpTable.fields ∧ st' = st ∨ f.name ∉ st.tmpTable.fields ∧
      ((∃ expr, f.transform = .expression expr ∧ st' =
          { st with tmpTable := evaluateExpressionTransform st.tmpTable expr f.name f.dtype }) ∨
      (∃ t, f.transform = .overWindow t ∧ timestampField ≠ none ∧ st' = { st with
          windowAggMap := appendToBatch st.windowAggMap (.fromOverWindowTransform t) f }) ∨
      (∃ tableName featureName keys right ts, f.transform = .join tableName featureName ∧
        f.keys = some keys ∧ (∀ k ∈ keys, k ∈ sourceFields) ∧
        descriptorsByNames.get? tableName = some right ∧ right.timestampField = some ts ∧
        st' = { st with
          rightTables := st.rightTables.upsert (tableName, keys) Dict.empty
            (mergeJoinFieldDescriptors · keys ts right featureName) })) := by
  unfold derivedFeatureStep at h
  split at h
  · exact .inl ⟨‹_›, (Except.ok.inj h).symm⟩
  refine .inr ⟨‹_›, ?_⟩
  match htr : f.transform, h with
  | .expression expr, h => exact .inl ⟨expr, rfl, (Except.ok.inj h).symm⟩
  | .overWindow t, h =>
    dsimp only at h
    split at h
    · cases h
    · exact .inr (.inl ⟨t, rfl, ‹_›, (Except.ok.inj h).symm⟩)
  | .join tableName featureName, h =>
    dsimp only at h
    split at h
    · cases h
    rename_i keys hk
    split at h
    · cases h
    rename_i hall
    split at h
    · cases h
    rename_i right hright
    split at h
    · cases h
    rename_i ts hts
    exact .inr (.inr ⟨tableName, featureName, keys, right, ts, rfl, hk, by simpa using hall,
      hright, hts, (Except.ok.inj h).symm⟩)
  | .slidingWindow _, h | .other _, h => cases h

/-- What a turn of the sliding dispatch loop that does not raise did. -/
theorem slidingFeatureStep_eq_ok {st st' : SlidingState} {f : Feature}
    (h : slidingFeatureStep timestampField st f = .ok st') :
    f.name ∈ st.tmpTable.fields ∧ st' = st ∨ f.name ∉ st.tmpTable.fields ∧
      ((∃ expr, f.transform = .expression expr ∧ st' =
          { st with tmpTable := evaluateExpressionTransform st.tmpTable expr f.name f.dtype }) ∨
      (∃ t, f.transform = .slidingWindow t ∧ timestampField ≠ none ∧ st' = { st with
          slidingWindowAggMap :=
            appendToBatch st.slidingWindowAggMap (.fromSlidingWindowTransform t) f })) := by
  unfold slidingFeatureStep at h
  split at h
  · exact .inl ⟨‹_›, (Except.ok.inj h).symm⟩
  refine .inr ⟨‹_›, ?_⟩
  match htr : f.transform, h with
  | .expression expr, h => exact .inl ⟨expr, rfl, (Except.ok.inj h).symm⟩
  | .slidingWindow t, h =>
    dsimp only at h
    split at h
    · cases h
    · exact .inr ⟨t, rfl, ‹_›, (Except.ok.inj h).symm⟩
  | .overWindow _, h | .join .., h | .other _, h => cases h

end Turns

/-! ## The loop invariants -/

/-- The columns of the accumulating table: the source fields and the names of the expressions
among the features whose turns have passed. -/
def ColumnsOf (sourceFields : List String) (processed : List Feature) (fields : List String) :
    Prop :=
  ∀ x, x ∈ fields ↔ x ∈ sourceFields ∨ ∃ e ∈ processed, e.transform.isExpression ∧ e.name = x

theorem columnsOf_init (sourceFields : List String) : ColumnsOf sourceFields [] sourceFields := by
  simp [ColumnsOf]

theorem columnsOf_fieldsAfter {sourceFields fields : List String} {processed : List Feature}
    (h : ColumnsOf sourceFields processed fields) (f : Feature) :
    ColumnsOf sourceFields (processed ++ [f]) (fieldsAfter fields f) := by
  intro x
  simp only [List.mem_append, List.mem_singleton, or_and_right, exists_or, exists_eq_left,
    ← or_assoc, ← h x, fieldsAfter]
  split_ifs with hf
  · simp [mem_appendIfAbsent, hf.2, eq_comm]
  · exact iff_self_or.2 fun ⟨he, hx⟩ => by_contra fun hx' => hf ⟨hx ▸ hx', he⟩

/-- What the derived dispatch loop holds after the turns of `processed`, of which it
dispatched `done`. -/
structure DerivedInv (sourceFields : List String) (descriptorsByNames : Dict String TableDescriptor)
    (processed done : List Feature) (st : DerivedState) : Prop where
  columns : ColumnsOf sourceFields processed st.tmpTable.fields
  windows : BatchesOf overWindowDescriptorOf windowBatch done st.windowAggMap
  joins : BatchesOf joinPairOf (joinBatch descriptorsByNames) done st.rightTables
  /-- Every join batch passed the checks: its keys are source fields and its table is
  registered with a timestamp field. -/
  registered : ∀ pair ∈ st.rightTables.keys, (∀ k ∈ pair.2, k ∈ sourceFields) ∧
    ∃ right ts, descriptorsByNames.get? pair.1 = some right ∧ right.timestampField = some ts

/-- What the sliding dispatch loop holds after the turns of `processed`, of which it
dispatched `done`. -/
structure SlidingInv (sourceFields : List String) (processed done : List Feature)
    (st : SlidingState) : Prop where
  columns : ColumnsOf sourceFields processed st.tmpTable.fields
  windows : BatchesOf slidingWindowDescriptorOf windowBatch done st.slidingWindowAggMap

section Invariants

variable {timestampField : Option String} {sourceFields : List String}
  {descriptorsByNames : Dict String TableDescriptor} {processed done : List Feature}

/-- The features a turn dispatches: none when it skips. -/
def dispatchedAt (fields : List String) (f : Feature) : List Feature :=
  if f.name ∈ fields then [] else [f]

theorem derivedInv_step {st st' : DerivedState} {f : Feature}
    (hinv : DerivedInv sourceFields descriptorsByNames processed done st)
    (h : derivedFeatureStep timestampField sourceFields descriptorsByNames st f = .ok st') :
    DerivedInv sourceFields descriptorsByNames (processed ++ [f])
      (done ++ dispatchedAt st.tmpTable.fields f) st' ∧
    st'.tmpTable.fields = fieldsAfter st.tmpTable.fields f := by
  have hcols := columnsOf_fieldsAfter hinv.columns f
  rcases derivedFeatureStep_eq_ok h with ⟨hskip, hst⟩ | ⟨hskip, hcase⟩
  · have hfields := fieldsAfter_of_mem hskip
    simp only [hst, dispatchedAt, hskip, if_true, List.append_nil]
    exact ⟨⟨hfields ▸ hcols, hinv.windows, hinv.joins, hinv.registered⟩, hfields.symm⟩
  simp only [dispatchedAt, hskip, if_false]
  rcases hcase with ⟨expr, htr, rfl⟩ | ⟨t, htr, -, rfl⟩ |
    ⟨tableName, featureName, keys, right, ts, htr, hk, hkeys, hright, hts, rfl⟩
  · have hfields := fieldsAfter_of_expression hskip htr
    refine ⟨⟨by simpa [hfields] using hcols,
      batchesOf_append_none hinv.windows (by simp [overWindowDescriptorOf, htr]),
      batchesOf_append_none hinv.joins (by simp [joinPairOf, htr]), hinv.registered⟩, ?_⟩
    simp [hfields]
  · have hfields : fieldsAfter st.tmpTable.fields f = _ :=
      fieldsAfter_of_isExpression_eq_false (by rw [htr]; rfl)
    exact ⟨⟨hfields ▸ hcols, batchesOf_appendToBatch hinv.windows
      (by simp [overWindowDescriptorOf, htr]),
      batchesOf_append_none hinv.joins (by simp [joinPairOf, htr]), hinv.registered⟩,
      hfields.symm⟩
  · have hfields : fieldsAfter st.tmpTable.fields f = _ :=
      fieldsAfter_of_isExpression_eq_false (by rw [htr]; rfl)
    refine ⟨⟨hfields ▸ hcols, batchesOf_append_none hinv.windows
      (by simp [overWindowDescriptorOf, htr]), batchesOf_upsertJoin hinv.joins htr hk hright hts,
      fun pair hpair => ?_⟩, hfields.symm⟩
    rw [Dict.keys_upsert] at hpair
    by_cases hp : pair = (tableName, keys)
    · subst hp
      exact ⟨hkeys, right, ts, hright, hts⟩
    · exact hinv.registered pair (by split_ifs at hpair <;> simp_all)

theorem slidingInv_step {st st' : SlidingState} {f : Feature}
    (hinv : SlidingInv sourceFields processed done st)
    (h : slidingFeatureStep timestampField st f = .ok st') :
    SlidingInv sourceFields (processed ++ [f]) (done ++ dispatchedAt st.tmpTable.fields f) st' ∧
    st'.tmpTable.fields = fieldsAfter st.tmpTable.fields f := by
  have hcols := columnsOf_fieldsAfter hinv.columns f
  rcases slidingFeatureStep_eq_ok h with ⟨hskip, hst⟩ | ⟨hskip, hcase⟩
  · have hfields := fieldsAfter_of_mem hskip
    simp only [hst, dispatchedAt, hskip, if_true, List.append_nil]
    exact ⟨⟨hfields ▸ hcols, hinv.windows⟩, hfields.symm⟩
  simp only [dispatchedAt, hskip, if_false]
  rcases hcase with ⟨expr, htr, rfl⟩ | ⟨t, htr, -, rfl⟩
  · have hfields := fieldsAfter_of_expression hskip htr
    refine ⟨⟨by simpa [hfields] using hcols,
      batchesOf_append_none hinv.windows (by simp [slidingWindowDescriptorOf, htr])⟩, ?_⟩
    simp [hfields]
  · have hfields : fieldsAfter st.tmpTable.fields f = _ :=
      fieldsAfter_of_isExpression_eq_false (by rw [htr]; rfl)
    exact ⟨⟨hfields ▸ hcols, batchesOf_appendToBatch hinv.windows
      (by simp [slidingWindowDescriptorOf, htr])⟩, hfields.symm⟩

theorem dispatchedFeatures_cons (fields : List String) (f : Feature) (fs : List Feature) :
    dispatchedFeatures fields (f :: fs) =
      dispatchedAt fields f ++ dispatchedFeatures (fieldsAfter fields f) fs := rfl

/-- The derived loop keeps its invariant over every run. -/
theorem derivedInv_foldlM {fs : List Feature} {st st' : DerivedState}
    (hinv : DerivedInv sourceFields descriptorsByNames processed done st)
    (h : fs.foldlM (derivedFeatureStep timestampField sourceFields descriptorsByNames) st =
      .ok st') :
    DerivedInv sourceFields descriptorsByNames (processed ++ fs)
      (done ++ dispatchedFeatures st.tmpTable.fields fs) st' := by
  induction fs generalizing processed done st with
  | nil =>
    cases h
    simpa [dispatchedFeatures] using hinv
  | cons f fs ih =>
    rw [List.foldlM_cons] at h
    match hstep : derivedFeatureStep timestampField sourceFields descriptorsByNames st f, h with
    | .error _, h => cases h
    | .ok st₁, h =>
      obtain ⟨hinv₁, hfields⟩ := derivedInv_step hinv hstep
      simpa [dispatchedFeatures_cons, hfields] using ih hinv₁ h

/-- The sliding loop keeps its invariant over every run. -/
theorem slidingInv_foldlM {fs : List Feature} {st st' : SlidingState}
    (hinv : SlidingInv sourceFields processed done st)
    (h : fs.foldlM (slidingFeatureStep timestampField) st = .ok st') :
    SlidingInv sourceFields (processed ++ fs)
      (done ++ dispatchedFeatures st.tmpTable.fields fs) st' := by
  induction fs generalizing processed done st with
  | nil =>
    cases h
    simpa [dispatchedFeatures] using hinv
  | cons f fs ih =>
    rw [List.foldlM_cons] at h
    match hstep : slidingFeatureStep timestampField st f, h with
    | .error _, h => cases h
    | .ok st₁, h =>
      obtain ⟨hinv₁, hfields⟩ := slidingInv_step hinv hstep
      simpa [dispatchedFeatures_cons, hfields] using ih hinv₁ h

end Invariants

/-! ## Whole loops -/

section Loops

variable {featureView : TableDescriptor} {sourceTable : Plan}
  {descriptorsByNames : Dict String TableDescriptor}

theorem derivedDispatch_inv {st : DerivedState}
    (h : derivedDispatch featureView sourceTable descriptorsByNames = .ok st) :
    DerivedInv sourceTable.fields descriptorsByNames (getDependentFeatures featureView)
      (dispatchedFeatures sourceTable.fields (getDependentFeatures featureView)) st := by
  have hinit : DerivedInv sourceTable.fields descriptorsByNames [] []
      (DerivedState.init sourceTable) :=
    ⟨columnsOf_init _, batchesOf_nil, batchesOf_nil, by simp [DerivedState.init]⟩
  simpa using derivedInv_foldlM hinit h

theorem slidingDispatch_inv {st : SlidingState}
    (h : slidingDispatch featureView sourceTable = .ok st) :
    SlidingInv sourceTable.fields (getDependentFeatures featureView)
      (dispatchedFeatures sourceTable.fields (getDependentFeatures featureView)) st := by
  have hinit : SlidingInv sourceTable.fields [] [] ⟨sourceTable, Dict.empty⟩ :=
    ⟨columnsOf_init _, batchesOf_nil⟩
  simpa using slidingInv_foldlM hinit h

theorem dispatchedFeatures_nodup (fields : List String) (featureView : TableDescriptor) :
    (dispatchedFeatures fields (getDependentFeatures featureView)).Nodup :=
  (dispatchedFeatures_sublist _ _).nodup (getDependentFeatures_nodup featureView)

end Loops

end Feathub
