import Feathub.Proofs.Pipeline

/-!
# Columns — the table each feature of a view is computed from

The dispatch loops evaluate an expression at once, on the accumulating table, while window
and join features are only batched; their calls run after the loop. Over the calls a compile
that returns makes:

* at each turn the accumulating table has exactly the source columns and the names of the
  expressions whose turns have passed (`ColumnsOf`), and an expression not skipped is
  evaluated on it;
* every over-window call and the left table of every temporal join keep every column of the
  accumulating table after the loop, and every sliding-window call is made on that table;
* an expression over a join feature is evaluated on a table without the joined column
  (`expression_over_join_reads_missing_column`), and the view still compiles.
-/

namespace Feathub

/-- The columns each computation of a view reads. At every turn of either dispatch loop of a
compile that returns, the accumulating table has exactly the source columns and the expressions
whose turns have passed, and an expression that is not skipped is evaluated on it by
`add_or_replace_columns`. After a derived loop, each over-window call and the left table of each
temporal join has every column of the accumulating table after the loop; after a sliding loop,
each sliding-window call is made on that table. -/
theorem columns_of_view_compile :
    (∀ featureView sourceTable descriptorsByNames tableByNames table,
      compileDerivedFeatureView featureView sourceTable descriptorsByNames tableByNames =
        .ok table →
      ∃ st, derivedDispatch featureView sourceTable descriptorsByNames = .ok st ∧
        (∀ processed f rest, processed ++ f :: rest = getDependentFeatures featureView →
          ∃ st₁ st₂, processed.foldlM (derivedFeatureStep featureView.timestampField
              sourceTable.fields descriptorsByNames) (DerivedState.init sourceTable) = .ok st₁ ∧
            derivedFeatureStep featureView.timestampField sourceTable.fields descriptorsByNames
              st₁ f = .ok st₂ ∧
            ColumnsOf sourceTable.fields processed st₁.tmpTable.fields ∧
            ∀ expr, f.transform = .expression expr → f.name ∉ st₁.tmpTable.fields →
              st₂.tmpTable = .addOrReplaceColumns st₁.tmpTable expr f.dtype f.name) ∧
        ColumnsOf sourceTable.fields (getDependentFeatures featureView) st.tmpTable.fields ∧
        ∃ windows joins joined, table.steps = st.tmpTable.steps ++ windows ++ joins ++
            [(joined, .select (getOutputFields featureView sourceTable.fields))] ∧
          (∀ s ∈ windows, ∃ window aggs, s.2 = .overWindow window aggs) ∧
          (∀ s ∈ joins, ∃ right keys descriptors, s.2 = .temporalJoin right keys descriptors) ∧
          ∀ s ∈ windows ++ joins, st.tmpTable.fields <+: s.1.fields) ∧
    ∀ featureView sourceTable table, compileSlidingFeatureView featureView sourceTable = .ok table →
      ∃ st, slidingDispatch featureView sourceTable = .ok st ∧
        (∀ processed f rest, processed ++ f :: rest = getDependentFeatures featureView →
          ∃ st₁ st₂, processed.foldlM (slidingFeatureStep featureView.timestampField)
              ⟨sourceTable, Dict.empty⟩ = .ok st₁ ∧
            slidingFeatureStep featureView.timestampField st₁ f = .ok st₂ ∧
            ColumnsOf sourceTable.fields processed st₁.tmpTable.fields ∧
            ∀ expr, f.transform = .expression expr → f.name ∉ st₁.tmpTable.fields →
              st₂.tmpTable = .addOrReplaceColumns st₁.tmpTable expr f.dtype f.name) ∧
        ColumnsOf sourceTable.fields (getDependentFeatures featureView) st.tmpTable.fields ∧
        ∃ merged, table = .select (addTimestampField featureView merged)
            (getOutputFields featureView sourceTable.fields) ∧
          MergedFrom st.tmpTable st.slidingWindowAggMap.entries merged := by
  have hexpr : ∀ {t t' : Plan} {f : Feature}, t' = dispatchExpression t f → ∀ expr,
      f.transform = .expression expr → f.name ∉ t.fields →
        t' = .addOrReplaceColumns t expr f.dtype f.name := by
    rintro t _ f rfl expr htr hmem
    simp only [dispatchExpression, if_neg hmem, htr]
    rfl
  refine ⟨fun featureView sourceTable descriptorsByNames tableByNames table h => ?_,
    fun featureView sourceTable table h => ?_⟩
  · obtain ⟨st, hst, windows, joins, joined, hsteps, hwindows, hjoins, hkeeps⟩ :=
      steps_compileDerivedFeatureView h
    have hinit : DerivedInv sourceTable.fields descriptorsByNames [] []
        (DerivedState.init sourceTable) :=
      ⟨columnsOf_init _, batchesOf_nil, batchesOf_nil, by simp [DerivedState.init]⟩
    refine ⟨st, hst, fun processed f rest hdeps => ?_, (derivedDispatch_inv hst).columns,
      windows, joins, joined, hsteps, fun s hs => ?_, temporalJoin_of_forall₂ hjoins, hkeeps⟩
    · obtain ⟨st₁, st₂, h₁, h₂⟩ := foldlM_turn_ok hdeps hst
      exact ⟨st₁, st₂, h₁, h₂, by simpa using (derivedInv_foldlM hinit h₁).columns,
        hexpr (tmpTable_derivedFeatureStep h₂)⟩
    · obtain ⟨_, -, hcall⟩ := List.mem_map.1 (hwindows ▸ List.mem_map_of_mem Prod.snd hs)
      exact ⟨_, _, hcall.symm⟩
  · obtain ⟨st, merged, hst, hmerged, rfl⟩ := steps_compileSlidingFeatureView h
    have hinit : SlidingInv sourceTable.fields [] [] ⟨sourceTable, Dict.empty⟩ :=
      ⟨columnsOf_init _, batchesOf_nil⟩
    refine ⟨st, hst, fun processed f rest hdeps => ?_, (slidingDispatch_inv hst).columns,
      merged, rfl, hmerged⟩
    obtain ⟨st₁, st₂, h₁, h₂⟩ := foldlM_turn_ok hdeps hst
    exact ⟨st₁, st₂, h₁, h₂, by simpa using (slidingInv_foldlM hinit h₁).columns,
      hexpr (tmpTable_slidingFeatureStep h₂)⟩

/-! ## An expression over a join feature -/

/-- Orders: a quantity per user. -/
def orders : TableDescriptor :=
  .featureTable "orders" ["user_id", "quantity", "ts"] (some "ts") "epoch"

/-- Prices per user. -/
def prices : TableDescriptor :=
  .featureTable "prices" ["user_id", "price", "ts"] (some "ts") "epoch"

/-- The price of the order's user, joined from `prices`. -/
def priceFeature : Feature :=
  ⟨"price", ⟨"FLOAT64"⟩, .join "prices" "price", some ["user_id"], []⟩

/-- The order's total, an expression over the joined price. -/
def totalFeature : Feature :=
  ⟨"total", ⟨"FLOAT64"⟩, .expression "quantity * price", none, [priceFeature]⟩

/-- A view declaring the price and the total over it. -/
def orderTotals : TableDescriptor :=
  .derivedFeatureView "order_totals" orders [priceFeature, totalFeature] true (some "ts") "epoch"
    false

/-- The descriptor of the table the view joins, by name. -/
def priceDescriptors : Dict String TableDescriptor := Dict.empty.insert "prices" prices

/-- The table the view joins, by name. -/
def priceTables : Dict String Plan := Dict.empty.insert "prices" (.source prices)

theorem columns_of_view_compile_orderTotals :
    ∃ table, compileDerivedFeatureView orderTotals (.source orders) priceDescriptors priceTables =
        .ok table ∧
      ∃ st, derivedDispatch orderTotals (.source orders) priceDescriptors = .ok st ∧
        ColumnsOf (Plan.source orders).fields (getDependentFeatures orderTotals)
          st.tmpTable.fields ∧
        ∃ windows joins joined, table.steps = st.tmpTable.steps ++ windows ++ joins ++
            [(joined, .select (getOutputFields orderTotals (Plan.source orders).fields))] ∧
          ∀ s ∈ windows ++ joins, st.tmpTable.fields <+: s.1.fields :=
  let ⟨st, hst, _, hcols, windows, joins, joined, hsteps, _, _, hkeeps⟩ :=
    columns_of_view_compile.1 orderTotals (.source orders) priceDescriptors priceTables _ rfl
  ⟨_, rfl, st, hst, hcols, windows, joins, joined, hsteps, hkeeps⟩

/-- The price is listed before the total, and the loop reaches the total with the price
batched for a join that runs after it: the compile evaluates the total on a table without the
price, yet the view compiles. -/
theorem expression_over_join_reads_missing_column :
    getDependentFeatures orderTotals = [priceFeature, totalFeature] ∧
    priceFeature ∈ totalFeature.inputFeatures ∧
    ∃ plan, compileDerivedFeatureView orderTotals (.source orders) priceDescriptors priceTables =
        .ok plan ∧
      ∃ s ∈ plan.steps, s.2 = .addOrReplaceColumns "quantity * price" totalFeature.dtype
        totalFeature.name ∧ priceFeature.name ∉ s.1.fields :=
  ⟨rfl, by simp [totalFeature], _, rfl, by decide⟩

end Feathub
