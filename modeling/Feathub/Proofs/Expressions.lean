import Feathub.Proofs.Columns
import Feathub.Proofs.Cache
import Feathub.Semantics

/-!
# Expressions — what the derived dispatch computes row by row

The dispatch loop of `_get_table_from_derived_feature_view` evaluates an expression feature at
once, by `add_or_replace_columns` on the accumulating table, and skips a feature whose name is
already a column of that table; window and join features wait for their batches. On rows:

* `expressionRow` : the loop on one row: each expression feature whose name is not yet a column
  sets its column to its expression's value cast to its type, in the order of the dependent
  features;
* `eval_foldlM_derivedFeatureStep` : after the loop, the accumulating table's rows are the
  source rows, each walked so, whatever window and join features the view has;
* `compileDerivedFeatureView_rows` : a view whose dependent features are all expressions is
  row-local: one row per source row, computed from that row alone, then projected to the
  output fields. An expression feature named like a source column is not computed: the source
  cell stays.
-/

namespace Feathub

/-- The dispatch loop on one row, with the columns of the accumulating table: an expression
feature whose name is not yet a column sets its column to its expression's value, cast to its
type; a feature whose name is a column, and a window or join feature, leave the row. -/
def expressionRow (engine : Engine) : List String → Row → List Feature → Row
  | _, r, [] => r
  | columns, r, f :: fs =>
    if f.name ∈ columns then expressionRow engine columns r fs else
    match f.transform with
    | .expression expr => expressionRow engine (appendIfAbsent columns f.name)
        (Dict.insertEntry f.name (engine.cast (engine.sql expr r) f.dtype) r) fs
    | _ => expressionRow engine columns r fs

section Dispatch

variable {timestampField : Option String} {sourceFields : List String}
  {descriptorsByNames : Dict String TableDescriptor}

/-- After the dispatch loop, the accumulating table's rows are its rows before, each walked by
`expressionRow` over the features of the loop. -/
theorem eval_foldlM_derivedFeatureStep (engine : Engine) {fs : List Feature}
    {st st' : DerivedState}
    (h : fs.foldlM (derivedFeatureStep timestampField sourceFields descriptorsByNames) st =
      .ok st') :
    st'.tmpTable.eval engine =
      (st.tmpTable.eval engine).map fun r => expressionRow engine st.tmpTable.fields r fs := by
  induction fs generalizing st with
  | nil =>
    cases h
    exact (List.map_id' _).symm
  | cons f fs ih =>
    rw [List.foldlM_cons] at h
    obtain ⟨st₁, hstep, hrest⟩ := except_bind_eq_ok h
    rw [ih hrest]
    rcases derivedFeatureStep_eq_ok hstep with ⟨hmem, rfl⟩ | ⟨hmem, hcases⟩
    · simp only [expressionRow, if_pos hmem]
    rcases hcases with ⟨expr, htr, rfl⟩ | ⟨_, htr, -, rfl⟩ | ⟨_, _, _, _, _, htr, -, -, -, -, rfl⟩
    · -- an expression sets its column on every row
      simp only [evaluateExpressionTransform, Plan.eval, Plan.fields, List.map_map,
        Function.comp_def, expressionRow, if_neg hmem, htr]
    · simp only [expressionRow, if_neg hmem, htr]
    · simp only [expressionRow, if_neg hmem, htr]

/-- A loop over expression features fills no window or join batch. -/
theorem batches_foldlM_derivedFeatureStep {fs : List Feature} {st st' : DerivedState}
    (hexpr : ∀ f ∈ fs, ∃ expr, f.transform = .expression expr)
    (h : fs.foldlM (derivedFeatureStep timestampField sourceFields descriptorsByNames) st =
      .ok st') :
    st'.windowAggMap = st.windowAggMap ∧ st'.rightTables = st.rightTables := by
  induction fs generalizing st with
  | nil =>
    cases h
    exact ⟨rfl, rfl⟩
  | cons f fs ih =>
    rw [List.foldlM_cons] at h
    obtain ⟨st₁, hstep, hrest⟩ := except_bind_eq_ok h
    have hbatches := ih (fun f hf => hexpr f (.tail _ hf)) hrest
    obtain ⟨expr, hf⟩ := hexpr f (.head _)
    rcases derivedFeatureStep_eq_ok hstep with ⟨-, rfl⟩ | ⟨-, ⟨_, -, rfl⟩ | ⟨_, htr, -⟩ |
        ⟨_, _, _, _, _, htr, -⟩⟩
    · exact hbatches
    · exact hbatches
    · rw [hf] at htr
      cases htr
    · rw [hf] at htr
      cases htr

end Dispatch

/-- A derived view whose dependent features are all expressions compiles to a row-local table:
on every engine, one row per source row, the source row walked by `expressionRow` over the
dependent features in their order and projected to the output fields. -/
theorem compileDerivedFeatureView_rows {featureView : TableDescriptor} {sourceTable table : Plan}
    {descriptorsByNames : Dict String TableDescriptor} {tableByNames : Dict String Plan}
    (hexpr : ∀ f ∈ getDependentFeatures featureView, ∃ expr, f.transform = .expression expr)
    (h : compileDerivedFeatureView featureView sourceTable descriptorsByNames tableByNames =
      .ok table) (engine : Engine) :
    table.eval engine = (sourceTable.eval engine).map fun r =>
      (getOutputFields featureView sourceTable.fields).map fun f =>
        (f, (expressionRow engine sourceTable.fields r
          (getDependentFeatures featureView)).get f) := by
  obtain ⟨st, hst, h⟩ := except_bind_eq_ok h
  obtain ⟨joined, hjoined, h⟩ := except_bind_eq_ok h
  cases h
  obtain ⟨hwindows, hjoins⟩ := batches_foldlM_derivedFeatureStep hexpr hst
  -- no batch: the over-window and join phases leave the accumulating table as it is
  have hj : joined = st.tmpTable := by
    rw [hwindows, hjoins] at hjoined
    exact (Except.ok.inj hjoined).symm
  rw [hj, Plan.eval, eval_foldlM_derivedFeatureStep engine hst, List.map_map]
  rfl

/-- Orders with twice their quantity, and a `quantity` feature the source already has. -/
def doubledOrders : TableDescriptor :=
  .derivedFeatureView "doubled_orders" orders
    [⟨"double_quantity", ⟨"INT64"⟩, .expression "quantity * 2", none, []⟩,
      ⟨"quantity", ⟨"INT64"⟩, .expression "quantity + 1", none, []⟩]
    false (some "ts") "epoch" false

theorem compileDerivedFeatureView_rows_doubledOrders :
    (∀ f ∈ getDependentFeatures doubledOrders, ∃ expr, f.transform = .expression expr) ∧
    ∃ table, compileDerivedFeatureView doubledOrders (.source orders) Dict.empty Dict.empty =
        .ok table ∧
      ∀ engine, table.eval engine = ((Plan.source orders).eval engine).map fun r =>
        (getOutputFields doubledOrders (Plan.source orders).fields).map fun f =>
          (f, (expressionRow engine (Plan.source orders).fields r
            (getDependentFeatures doubledOrders)).get f) :=
  have hexpr : ∀ f ∈ getDependentFeatures doubledOrders, ∃ expr,
      f.transform = .expression expr := by
    intro f hf
    rcases List.mem_pair.1 hf with rfl | rfl
    exacts [⟨_, rfl⟩, ⟨_, rfl⟩]
  ⟨hexpr, _, rfl, @compileDerivedFeatureView_rows doubledOrders (.source orders) _ Dict.empty
    Dict.empty hexpr rfl⟩

end Feathub
