import Feathub.Proofs.Pipeline

/-!
# JoinBatches — the field-descriptor map of a join batch

Each join feature of a batch writes, in order, a passthrough descriptor for every key, for the
right table's timestamp field and for the event-time column, and then a pulled descriptor for
its own field. The map is a dict, so the last write to a field wins. This file gives the map a
batch leaves:

* `get?_mergeJoinFieldDescriptors` : the writes of one feature;
* `get?_joinBatch` : the map after all features of a batch, `batchFieldDescriptor`;
* `join_batches_of_dispatch` : the temporal joins a derived view's compile makes, one per
  batch: the right table projected to the batch's fields, and the batch's map.

A pulled field is a passthrough as well when it is a key, the timestamp field or the
event-time column; then the batch's last feature decides which of the two descriptors it
keeps, so the join call depends on the order of the features.
-/

namespace Feathub

/-- The descriptor a batch gives field `x`: pulled when the batch's last feature pulls `x`, a
passthrough for a key, the timestamp field and the event-time column, pulled for a field only
pulled. -/
def batchFieldDescriptor (keys : List String) (rightTimestampField : String)
    (rightTableDescriptor : TableDescriptor) (pulled : List String) (x : String) :
    Option JoinFieldDescriptor :=
  if pulled.getLast? = some x then
    some (.fromTableDescriptorAndFieldName rightTableDescriptor x)
  else if x ∈ keys ∨ x = rightTimestampField ∨ x = eventTimeAttributeName then
    some (.fromFieldName x)
  else if x ∈ pulled then some (.fromTableDescriptorAndFieldName rightTableDescriptor x)
  else none

section Writes

variable (keys : List String) (rightTimestampField : String)
  (rightTableDescriptor : TableDescriptor)

theorem get?_foldl_passthrough (d : Dict String JoinFieldDescriptor) (x : String) :
    (keys.foldl (fun d key => d.insert key (JoinFieldDescriptor.fromFieldName key)) d).get? x =
      if x ∈ keys then some (.fromFieldName x) else d.get? x := by
  induction keys generalizing d with
  | nil => simp
  | cons key rest ih =>
    rw [List.foldl_cons, ih]
    by_cases hx : x = key
    · subst hx; simp
    · simp [hx]

theorem get?_mergeJoinFieldDescriptors (d : Dict String JoinFieldDescriptor)
    (featureName x : String) :
    (mergeJoinFieldDescriptors d keys rightTimestampField rightTableDescriptor featureName).get?
        x =
      if x = featureName then some (.fromTableDescriptorAndFieldName rightTableDescriptor x)
      else if x ∈ keys ∨ x = rightTimestampField ∨ x = eventTimeAttributeName then
        some (.fromFieldName x)
      else d.get? x := by
  simp only [mergeJoinFieldDescriptors, Dict.get?_insert, get?_foldl_passthrough]
  by_cases h₁ : x = featureName
  · simp [h₁]
  by_cases h₂ : x = eventTimeAttributeName
  · subst h₂; simp [h₁]
  by_cases h₃ : x = rightTimestampField
  · subst h₃; simp [h₁, h₂]
  by_cases h₄ : x ∈ keys <;> simp [h₁, h₂, h₃, h₄]

/-- The map the writes of the features `fs` leave, from an empty map. -/
theorem get?_foldl_mergeJoinFieldDescriptors (fs : List Feature) (hfs : fs ≠ []) (x : String) :
    (fs.foldl (fun d f => mergeJoinFieldDescriptors d keys rightTimestampField
        rightTableDescriptor (pulledFieldOf f)) Dict.empty).get? x =
      batchFieldDescriptor keys rightTimestampField rightTableDescriptor
        (fs.map pulledFieldOf) x := by
  induction fs using List.reverseRecOn with
  | nil => exact absurd rfl hfs
  | append_singleton fs f ih =>
    rw [List.foldl_append, List.foldl_cons, List.foldl_nil, get?_mergeJoinFieldDescriptors]
    simp only [batchFieldDescriptor, List.map_append, List.map_cons, List.map_nil,
      List.getLast?_concat, List.mem_append, List.mem_singleton, Option.some.injEq]
    by_cases hx : x = pulledFieldOf f
    · simp [hx]
    simp only [hx, Ne.symm hx, if_false, or_false]
    by_cases hpass : x ∈ keys ∨ x = rightTimestampField ∨ x = eventTimeAttributeName
    · simp [hpass]
    simp only [hpass, if_false]
    by_cases hne : fs = []
    · subst hne; simp
    rw [ih hne, batchFieldDescriptor, if_neg hpass]
    by_cases hlast : (fs.map pulledFieldOf).getLast? = some x
    · rw [if_pos hlast, if_pos (List.mem_of_getLast?_eq_some hlast)]
    · rw [if_neg hlast]

end Writes

theorem isSome_batchFieldDescriptor (keys : List String) (rightTimestampField : String)
    (rightTableDescriptor : TableDescriptor) (pulled : List String) (x : String) :
    (batchFieldDescriptor keys rightTimestampField rightTableDescriptor pulled x).isSome ↔
      x ∈ keys ∨ x = rightTimestampField ∨ x = eventTimeAttributeName ∨ x ∈ pulled := by
  unfold batchFieldDescriptor
  by_cases hlast : pulled.getLast? = some x
  · simp [hlast, List.mem_of_getLast?_eq_some hlast]
  by_cases hpass : x ∈ keys ∨ x = rightTimestampField ∨ x = eventTimeAttributeName
  · simp only [hlast, hpass, if_false, if_true, Option.isSome_some, true_iff]
    rcases hpass with h | h | h <;> simp [h]
  · by_cases hx : x ∈ pulled <;> simp_all

theorem get?_joinBatch {descriptorsByNames : Dict String TableDescriptor}
    {pair : String × List String} {right : TableDescriptor} {ts : String}
    (hright : descriptorsByNames.get? pair.1 = some right) (hts : right.timestampField = some ts)
    {fs : List Feature} (hfs : fs ≠ []) (x : String) :
    (joinBatch descriptorsByNames pair fs).get? x =
      batchFieldDescriptor pair.2 ts right (fs.map pulledFieldOf) x := by
  simpa only [joinBatch, hright, hts] using
    get?_foldl_mergeJoinFieldDescriptors pair.2 ts right fs hfs x

/-! ## A pulled key -/

/-- A sliding view of item statistics whose feature `item` is also an item key elsewhere. -/
def itemStats : TableDescriptor :=
  .slidingFeatureView "item_stats" (.featureTable "sales" ["item", "ts"] (some "ts") "epoch")
    [⟨"item", ⟨"STRING"⟩, .slidingWindow ⟨"item", "LAST_VALUE", ["seller"], 600, 60, none, none⟩,
      none, []⟩,
     ⟨"sold", ⟨"INT64"⟩, .slidingWindow ⟨"1", "COUNT", ["seller"], 600, 60, none, none⟩,
      none, []⟩]
    false (some "window_time") "epoch" false

/-- Orders with an item key. -/
def itemOrders : Plan := .source (.featureTable "orders" ["item", "ts"] (some "ts") "epoch")

/-- A join feature on `item_stats` by the key `item`. -/
def itemJoin (name featureName : String) : Feature :=
  ⟨name, ⟨"INT64"⟩, .join "item_stats" featureName, some ["item"], []⟩

/-- A view pulling `item` and `sold` from `item_stats`, in the order `pulled` names them. -/
def itemView (pulled : List String) : TableDescriptor :=
  .derivedFeatureView "item_view" (.featureTable "orders" ["item", "ts"] (some "ts") "epoch")
    (pulled.map fun featureName => itemJoin ("joined_" ++ featureName) featureName)
    false (some "ts") "epoch" false

/-- The descriptor of `item_stats`, by name. -/
def itemDescriptors : Dict String TableDescriptor := Dict.empty.insert "item_stats" itemStats

/-- A table for `item_stats`, by name. -/
def itemTables : Dict String Plan :=
  Dict.empty.insert "item_stats" (.source (.featureTable "sales" ["item", "ts"] (some "ts") "epoch"))

theorem item_key_descriptor_depends_on_order :
    (∃ table, compileDerivedFeatureView (itemView ["item", "sold"]) itemOrders itemDescriptors
        itemTables = .ok table ∧
      ∃ right descriptors, Call.temporalJoin right ["item"] descriptors ∈ table.calls ∧
        descriptors.lookup "item" = some (.fromFieldName "item")) ∧
    (∃ table, compileDerivedFeatureView (itemView ["sold", "item"]) itemOrders itemDescriptors
        itemTables = .ok table ∧
      ∃ right descriptors, Call.temporalJoin right ["item"] descriptors ∈ table.calls ∧
        descriptors.lookup "item" = some (.fromTableDescriptorAndFieldName itemStats "item")) ∧
    JoinFieldDescriptor.fromFieldName "item" ≠
      .fromTableDescriptorAndFieldName itemStats "item" :=
  ⟨⟨_, rfl, _, _, List.Mem.head _, rfl⟩, ⟨_, rfl, _, _, List.Mem.head _, rfl⟩, by decide⟩

/-- Join batching. A derived view's compile makes, after the source's calls, one
`add_or_replace_columns` per dispatched expression and its over-window calls, one temporal join
per distinct `(table_name, keys)` of the dispatched join features, in order of first occurrence,
then the final `select`. The join of a batch is against the table under its name projected to
the fields of its descriptor map, which the registered descriptor `right` with timestamp field
`ts` determines: a field for each key, for `ts`, for the event-time column and for each pulled
field, and no other, each described as `batchFieldDescriptor` says. -/
theorem join_batches_of_dispatch (featureView : TableDescriptor) (sourceTable : Plan)
    (descriptorsByNames : Dict String TableDescriptor) (tableByNames : Dict String Plan)
    (table : Plan)
    (h : compileDerivedFeatureView featureView sourceTable descriptorsByNames tableByNames =
      .ok table) :
    let done := dispatchedFeatures sourceTable.fields (getDependentFeatures featureView)
    ∃ windows joins, table.calls = sourceTable.calls ++ done.filterMap expressionCall ++ windows ++
        joins ++ [.select (getOutputFields featureView sourceTable.fields)] ∧
      (∀ c ∈ windows, ∃ window aggs, c = .overWindow window aggs) ∧
      List.Forall₂ (fun pair c => ∃ right ts rightTable, ∃ descriptors : Dict String JoinFieldDescriptor,
          descriptorsByNames.get? pair.1 = some right ∧ right.timestampField = some ts ∧
          tableByNames.get? pair.1 = some rightTable ∧
          c = .temporalJoin (.select rightTable descriptors.keys) pair.2 descriptors.entries ∧
          let pulled := (batchFeatures joinPairOf done pair).map pulledFieldOf
          (∀ x, x ∈ descriptors.keys ↔
            x ∈ pair.2 ∨ x = ts ∨ x = eventTimeAttributeName ∨ x ∈ pulled) ∧
          ∀ x, descriptors.get? x = batchFieldDescriptor pair.2 ts right pulled x)
        (batchKeys joinPairOf done) joins := by
  intro done
  obtain ⟨st, hst, windows, joins, joined, hsteps, hwindows, hjoins, -⟩ :=
    steps_compileDerivedFeatureView h
  have hinv := derivedDispatch_inv hst
  refine ⟨windows.map Prod.snd, joins.map Prod.snd, ?_, fun c hc => ?_, ?_⟩
  · rw [← calls_derivedDispatch hst]
    simp [Plan.calls, hsteps]
  · rw [hwindows] at hc
    obtain ⟨_, -, rfl⟩ := List.mem_map.1 hc
    exact ⟨_, _, rfl⟩
  rw [entries_of_batchesOf hinv.joins, batches, List.forall₂_map_left_iff] at hjoins
  rw [List.forall₂_map_right_iff]
  refine ((List.forall₂_and_left _ _).2 ⟨fun pair hpair => hinv.joins.1 ▸ hpair, hjoins⟩).imp
    fun pair _ ⟨hpair, rightTable, hrightTable, hcall⟩ => ?_
  obtain ⟨-, right, ts, hright, hts⟩ := hinv.registered pair hpair
  have hget := get?_joinBatch hright hts (batchFeatures_ne_nil (hinv.joins.1 ▸ hpair))
  exact ⟨right, ts, rightTable, _, hright, hts, hrightTable, hcall,
    fun x => by rw [Dict.mem_keys_iff, hget, isSome_batchFieldDescriptor], hget⟩

theorem join_batches_of_dispatch_itemView :
    ∃ table, compileDerivedFeatureView (itemView ["item", "sold"]) itemOrders itemDescriptors
        itemTables = .ok table ∧
      let done := dispatchedFeatures itemOrders.fields
        (getDependentFeatures (itemView ["item", "sold"]))
      ∃ windows joins, table.calls = itemOrders.calls ++ done.filterMap expressionCall ++
          windows ++ joins ++
          [.select (getOutputFields (itemView ["item", "sold"]) itemOrders.fields)] ∧
        List.Forall₂ (fun pair c => ∃ right ts rightTable, ∃ descriptors : Dict String JoinFieldDescriptor,
            itemDescriptors.get? pair.1 = some right ∧ right.timestampField = some ts ∧
            itemTables.get? pair.1 = some rightTable ∧
            c = .temporalJoin (.select rightTable descriptors.keys) pair.2 descriptors.entries)
          (batchKeys joinPairOf done) joins :=
  let ⟨windows, joins, hcalls, _, hjoins⟩ := join_batches_of_dispatch (itemView ["item", "sold"])
    itemOrders itemDescriptors itemTables _ rfl
  ⟨_, rfl, windows, joins, hcalls, hjoins.imp fun _ _ ⟨right, ts, rightTable, descriptors,
    hright, hts, hrightTable, hcall, _⟩ => ⟨right, ts, rightTable, descriptors, hright, hts,
      hrightTable, hcall⟩⟩

end Feathub
