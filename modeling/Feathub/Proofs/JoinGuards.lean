import Feathub.Proofs.Columns
import Feathub.Proofs.Cache

/-!
# JoinGuards — what the checks of a join turn let through

The turn of a join feature in the derived dispatch loop checks that the feature has keys, that
the source table has each of them, and that its table, looked up in `descriptors_by_names`,
has a timestamp field. `descriptors_by_names` is filled before the loop, from the join features
the view declares, while the loop walks the dependent features, inputs included.

* `resolveJoinTables_get?` : the loop before the dispatch resolves exactly the names it is given;
* `foldlM_derivedFeatureStep_eq_keyError` : the dispatch raises `KeyError` only at a join
  feature whose table was not resolved;
* `compile_keyError_of_undeclared_join` : a `KeyError` of the compile names the table of a
  dependent join feature that no declared feature joins;
* `empty_or_unknown_join_keys_reach_temporal_join` : an empty key list, and a key the right
  table lacks, pass the checks and reach `temporal_join`;
* `input_join_feature_raises_keyError` : a join feature that is only an input of a declared
  feature makes the compile raise `KeyError`.
-/

namespace Feathub

open Build

/-! ## Where a `KeyError` comes from -/

/-- The loop before the dispatch resolves exactly the names it is given, in both maps. -/
theorem resolveJoinTables_get? {get : TableDescriptor → Build Plan} {registry : Registry}
    {names : List String} {acc res : Dict String TableDescriptor × Dict String Plan}
    {σ σ' : Cache} (h : resolveJoinTables get registry acc names σ = some (.ok res, σ'))
    (name : String) :
    ((res.1.get? name).isSome ↔ (acc.1.get? name).isSome ∨ name ∈ names) ∧
      ((res.2.get? name).isSome ↔ (acc.2.get? name).isSome ∨ name ∈ names) := by
  induction names generalizing acc σ with
  | nil =>
    obtain rfl : res = acc := by cases h; rfl
    simp
  | cons n names ih =>
    rcases bind_eq_some h with ⟨_, -, he⟩ | ⟨d, σ₀, -, h⟩
    · cases he
    rcases bind_eq_some h with ⟨_, -, he⟩ | ⟨table, σ₁, -, h⟩
    · cases he
    obtain ⟨h₁, h₂⟩ := ih h
    rw [h₁, h₂]
    by_cases hn : name = n <;> simp [hn]

section KeyError

variable {timestampField : Option String} {sourceFields : List String}
  {descriptorsByNames : Dict String TableDescriptor} {t : String}

/-- A turn raises `KeyError` only at a join feature whose table `descriptors_by_names` lacks. -/
theorem derivedFeatureStep_eq_keyError {st : DerivedState} {f : Feature}
    (h : derivedFeatureStep timestampField sourceFields descriptorsByNames st f =
      .error (.keyError t)) :
    (∃ featureName, f.transform = .join t featureName) ∧ descriptorsByNames.get? t = none := by
  unfold derivedFeatureStep at h
  split at h
  · cases h
  match htr : f.transform, h with
  | .join tableName featureName, h =>
    dsimp only at h
    split at h
    · cases h
    split at h
    · cases h
    split at h
    · next hnone => cases h; exact ⟨⟨featureName, rfl⟩, hnone⟩
    · split at h <;> cases h
  | .overWindow _, h => dsimp only at h; split at h <;> cases h
  | .expression _, h | .slidingWindow _, h | .other _, h => cases h

/-- The dispatch raises `KeyError` only at a join feature of its list whose table
`descriptors_by_names` lacks. -/
theorem foldlM_derivedFeatureStep_eq_keyError {fs : List Feature} {st : DerivedState}
    (h : fs.foldlM (derivedFeatureStep timestampField sourceFields descriptorsByNames) st =
      .error (.keyError t)) :
    (∃ f ∈ fs, ∃ featureName, f.transform = .join t featureName) ∧
      descriptorsByNames.get? t = none := by
  induction fs generalizing st with
  | nil => cases h
  | cons f fs ih =>
    rw [List.foldlM_cons] at h
    rcases except_bind_eq_error h with hstep | ⟨st', -, h⟩
    · obtain ⟨hjoin, hnone⟩ := derivedFeatureStep_eq_keyError hstep
      exact ⟨⟨f, .head _, hjoin⟩, hnone⟩
    · obtain ⟨⟨f', hf', hjoin⟩, hnone⟩ := ih h
      exact ⟨⟨f', .tail _ hf', hjoin⟩, hnone⟩

/-- The joins after the loop raise `KeyError` only for a batch whose table `table_by_names`
lacks. -/
theorem foldlM_temporalJoinBatch_eq_keyError {tableByNames : Dict String Plan}
    {batches : List ((String × List String) × Dict String JoinFieldDescriptor)} {table : Plan}
    (h : batches.foldlM (temporalJoinBatch tableByNames) table = .error (.keyError t)) :
    ∃ batch ∈ batches, batch.1.1 = t ∧ tableByNames.get? t = none := by
  induction batches generalizing table with
  | nil => cases h
  | cons batch batches ih =>
    rw [List.foldlM_cons, temporalJoinBatch] at h
    split at h
    · next hnone =>
      obtain rfl : batch.1.1 = t := BuildError.keyError.inj (Except.error.inj h)
      exact ⟨batch, .head _, rfl, hnone⟩
    · obtain ⟨b, hb, hbt⟩ := ih h
      exact ⟨b, .tail _ hb, hbt⟩

/-- A `KeyError` of the compile, when `table_by_names` has every table `descriptors_by_names`
has: a dependent join feature's table is missing from `descriptors_by_names`. -/
theorem compileDerivedFeatureView_eq_keyError {featureView : TableDescriptor}
    {sourceTable : Plan} {tableByNames : Dict String Plan}
    (htables : ∀ name, (descriptorsByNames.get? name).isSome → (tableByNames.get? name).isSome)
    (h : compileDerivedFeatureView featureView sourceTable descriptorsByNames tableByNames =
      .error (.keyError t)) :
    (∃ f ∈ getDependentFeatures featureView, ∃ featureName, f.transform = .join t featureName) ∧
      descriptorsByNames.get? t = none := by
  unfold compileDerivedFeatureView at h
  rcases except_bind_eq_error h with hst | ⟨st, hst, h⟩
  · exact foldlM_derivedFeatureStep_eq_keyError hst
  rcases except_bind_eq_error h with hjoin | ⟨_, -, h⟩
  · exfalso
    obtain ⟨batch, hbatch, rfl, hnone⟩ := foldlM_temporalJoinBatch_eq_keyError hjoin
    obtain ⟨-, right, -, hright, -⟩ :=
      (derivedDispatch_inv hst).registered _ (List.mem_map_of_mem _ hbatch)
    exact absurd (htables _ (by rw [hright]; rfl)) (by rw [hnone]; decide)
  · cases h

end KeyError

section Resolved

variable {get : TableDescriptor → Build Plan} {registry : Registry}
  {featureView : TableDescriptor} {sourceTable : Plan}
  {resolved : Dict String TableDescriptor × Dict String Plan} {σ σ' : Cache}

/-- A `KeyError` of the compile in `_get_table_from_derived_feature_view` names the table of a
dependent join feature that no declared feature joins: the loop before the dispatch resolved
every table a declared feature joins. -/
theorem compile_keyError_of_undeclared_join {t : String}
    (hres : resolveJoinTables get registry (Dict.empty, Dict.empty)
      (joinTableNames featureView) σ = some (.ok resolved, σ'))
    (h : compileDerivedFeatureView featureView sourceTable resolved.1 resolved.2 =
      .error (.keyError t)) :
    t ∉ joinTableNames featureView ∧
      ∃ f ∈ getDependentFeatures featureView, ∃ featureName, f.transform = .join t featureName := by
  have hget := resolveJoinTables_get? hres
  obtain ⟨hjoin, hnone⟩ := compileDerivedFeatureView_eq_keyError
    (fun name hname => (hget name).2.2 (((hget name).1.1 hname).imp_left (by simp))) h
  refine ⟨fun ht => ?_, hjoin⟩
  simpa [hnone] using (hget t).1.2 (.inr ht)

end Resolved

/-! ## Keys the checks let through -/

/-- Rates per region: a table with no user column. -/
def regionRates : TableDescriptor :=
  .featureTable "rates" ["region", "rate", "ts"] (some "ts") "epoch"

/-- A registry resolving `prices` and `rates`. -/
def joinRegistry : Registry :=
  ⟨fun name => if name = "prices" then some prices
    else if name = "rates" then some regionRates else none⟩

/-- The price, joined with no key. -/
def keylessPrice : Feature :=
  ⟨"price", ⟨"FLOAT64"⟩, .join "prices" "price", some [], []⟩

/-- The rate, joined by the order's user, a key `rates` does not have. -/
def userRate : Feature :=
  ⟨"rate", ⟨"FLOAT64"⟩, .join "rates" "rate", some ["user_id"], []⟩

/-- Orders with the price joined by no key. -/
def keylessPrices : TableDescriptor :=
  .derivedFeatureView "keyless_prices" orders [keylessPrice] true (some "ts") "epoch" false

/-- Orders with the rate joined by the user. -/
def userRates : TableDescriptor :=
  .derivedFeatureView "user_rates" orders [userRate] true (some "ts") "epoch" false

/-- The checks pass an empty key list, and a key of the source table that the right table does
not have: both views compile to a `temporal_join`, on no key and on `user_id`, the second with a
projection of `rates` onto a `user_id` column it lacks. -/
theorem empty_or_unknown_join_keys_reach_temporal_join :
    (∃ left right descriptors fields σ, getTable joinRegistry 2 keylessPrices Dict.empty =
      some (.ok (.select (.temporalJoin left right [] descriptors) fields), σ)) ∧
    ∃ left rightFields descriptors fields σ, getTable joinRegistry 2 userRates Dict.empty =
        some (.ok (.select (.temporalJoin left (.select (.source regionRates) rightFields)
          ["user_id"] descriptors) fields), σ) ∧
      "user_id" ∈ rightFields ∧ "user_id" ∉ (Plan.source regionRates).fields :=
  ⟨⟨_, _, _, _, _, rfl⟩, _, _, _, _, _, rfl, by decide, by decide⟩

/-! ## A join feature that is only an input -/

/-- A view declaring only the total: the price join the total reads is its input, not a
declared feature. -/
def totalOverInputJoin : TableDescriptor :=
  .derivedFeatureView "order_totals" orders [totalFeature] true (some "ts") "epoch" false

/-- The view joins no table by its declared features, yet its loop reaches the price join:
the registry has `prices`, but `descriptors_by_names` does not, and the lookup raises a
`KeyError`, which is no `FeathubException`. -/
theorem input_join_feature_raises_keyError :
    joinTableNames totalOverInputJoin = [] ∧
    getDependentFeatures totalOverInputJoin = [priceFeature, totalFeature] ∧
    joinRegistry.getFeatures "prices" = .ok prices ∧
    (∃ σ, getTable joinRegistry 2 totalOverInputJoin Dict.empty =
      some (.error (.keyError "prices"), σ)) ∧
    (BuildError.keyError "prices").isFeathubException = false :=
  ⟨rfl, rfl, rfl, ⟨_, rfl⟩, rfl⟩

end Feathub
