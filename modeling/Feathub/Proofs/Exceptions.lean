import Feathub.Proofs.JoinGuards
import Feathub.Proofs.Sessions

/-!
# Exceptions — what a build raises

Every exception the builder raises is a `FeathubException`, but for the `KeyError` of the
lookup in `descriptors_by_names` or `table_by_names`. This file says where that `KeyError` can
come from, over the whole recursion of `_get_table` and from any cache:

* `UndeclaredJoin` : a view that a descriptor reaches, through sources and join tables, has a
  dependent join feature on a table none of its declared features joins;
* `getTable_keyError` : every `KeyError` of `_get_table` is such a join of its descriptor: the
  cache holds only tables, the registry and the sliding dispatch raise no `KeyError`, and a
  derived compile raises one only at such a join;
* `build_error_classified` : every exception of a build that returns is a `FeathubException`,
  or a `KeyError` of an undeclared join that its descriptor or its key descriptor reaches.
-/

namespace Feathub

open Build

/-- The descriptor `d` reaches a view with a dependent join feature on the table `t`, which none
of the view's declared features joins. -/
def UndeclaredJoin (registry : Registry) (d : TableDescriptor) (t : String) : Prop :=
  ∃ view, Reaches registry d view ∧ t ∉ joinTableNames view ∧
    ∃ f ∈ getDependentFeatures view, ∃ featureName, f.transform = .join t featureName

/-- Every `KeyError` a `_get_table` raises names an undeclared join its descriptor reaches. -/
def KeyErrorsUndeclared (registry : Registry) (get : TableDescriptor → Build Plan) : Prop :=
  ∀ d σ t σ', get d σ = some (.error (.keyError t), σ') → UndeclaredJoin registry d t

section Stages

variable {registry : Registry} {t : String}

theorem UndeclaredJoin.lift {child parent : TableDescriptor} (h : UndeclaredJoin registry child t)
    (hrefers : Refers registry child parent) : UndeclaredJoin registry parent t := by
  obtain ⟨view, hreach, hrest⟩ := h
  exact ⟨view, (Reaches.of_refers hrefers).trans' hreach, hrest⟩

theorem slidingFeatureStep_ne_keyError {timestampField : Option String} {st : SlidingState}
    {f : Feature} : slidingFeatureStep timestampField st f ≠ .error (.keyError t) := by
  intro h
  unfold slidingFeatureStep at h
  split at h
  · cases h
  split at h
  · cases h
  · split at h <;> cases h
  · cases h

theorem foldlM_slidingFeatureStep_ne_keyError {timestampField : Option String} {fs : List Feature}
    {st : SlidingState} :
    fs.foldlM (slidingFeatureStep timestampField) st ≠ .error (.keyError t) := by
  induction fs generalizing st with
  | nil => intro h; cases h
  | cons f fs ih =>
    intro h
    rw [List.foldlM_cons] at h
    rcases except_bind_eq_error h with h | ⟨_, -, h⟩
    · exact slidingFeatureStep_ne_keyError h
    · exact ih h

/-- The compile of a sliding view raises no `KeyError`: it looks nothing up by name. -/
theorem compileSlidingFeatureView_ne_keyError {featureView : TableDescriptor} {sourceTable : Plan} :
    compileSlidingFeatureView featureView sourceTable ≠ .error (.keyError t) := by
  intro h
  rcases except_bind_eq_error h with h | ⟨_, -, h⟩
  · exact foldlM_slidingFeatureStep_ne_keyError h
  · cases h

theorem getFeatures_ne_keyError {name : String} :
    registry.getFeatures name ≠ .error (.keyError t) := by
  unfold Registry.getFeatures
  split <;> nofun

/-- A `KeyError` of the loop that resolves the join tables is one of a join table's
`_get_table`. -/
theorem resolveJoinTables_keyError {get : TableDescriptor → Build Plan}
    (hget : KeyErrorsUndeclared registry get) {names : List String}
    {acc : Dict String TableDescriptor × Dict String Plan} {σ σ' : Cache}
    (h : resolveJoinTables get registry acc names σ = some (.error (.keyError t), σ')) :
    ∃ name ∈ names, ∃ d, registry.tables name = some d ∧ UndeclaredJoin registry d t := by
  induction names generalizing acc σ with
  | nil => cases h
  | cons name rest ih =>
    rcases bind_eq_some h with ⟨_, he, ⟨⟩⟩ | ⟨d, σ₀, hd, h⟩
    · simp only [ofExcept_apply, Option.some.injEq, Prod.mk.injEq] at he
      exact absurd he.1 getFeatures_ne_keyError
    simp only [ofExcept_apply, Option.some.injEq, Prod.mk.injEq] at hd
    rcases bind_eq_some h with ⟨_, he, ⟨⟩⟩ | ⟨_, _, -, h⟩
    · exact ⟨name, .head _, d, getFeatures_eq_ok.1 hd.1, hget _ _ _ _ he⟩
    · obtain ⟨n, hn, hrest⟩ := ih h
      exact ⟨n, .tail _ hn, hrest⟩

/-- One compile raises a `KeyError` only at an undeclared join of its descriptor: in a nested
`_get_table`, on the source or a join table, or in the dispatch of the view itself. -/
theorem compileTableDescriptor_keyError {get : TableDescriptor → Build Plan}
    (hget : KeyErrorsUndeclared registry get) {features : TableDescriptor} {σ σ' : Cache}
    (h : compileTableDescriptor get registry features σ = some (.error (.keyError t), σ')) :
    UndeclaredJoin registry features t := by
  cases features with
  | featureTable | other => cases h
  | slidingFeatureView =>
    simp only [compileTableDescriptor, getTableFromSlidingFeatureView] at h
    rcases bind_eq_some h with ⟨_, he, ⟨⟩⟩ | ⟨_, _, -, h⟩
    · exact (hget _ _ _ _ he).lift refers_source_sliding
    · simp only [ofExcept_apply, Option.some.injEq, Prod.mk.injEq] at h
      exact absurd h.1 compileSlidingFeatureView_ne_keyError
  | derivedFeatureView =>
    simp only [compileTableDescriptor, getTableFromDerivedFeatureView] at h
    rcases bind_eq_some h with ⟨_, he, ⟨⟩⟩ | ⟨_, _, -, h⟩
    · exact (hget _ _ _ _ he).lift refers_source_derived
    rcases bind_eq_some h with ⟨_, he, ⟨⟩⟩ | ⟨_, _, hres, h⟩
    · obtain ⟨name, hname, d, hd, hjoin⟩ := resolveJoinTables_keyError hget he
      exact hjoin.lift (refers_join hname hd)
    · simp only [ofExcept_apply, Option.some.injEq, Prod.mk.injEq] at h
      obtain ⟨ht, hjoin⟩ := compile_keyError_of_undeclared_join hres h.1
      exact ⟨_, .refl, ht, hjoin⟩

/-- Every `KeyError` of `_get_table`, from any cache, names an undeclared join its descriptor
reaches: a hit returns the table or raises the conflict. -/
theorem getTable_keyError (fuel : Nat) : KeyErrorsUndeclared registry (getTable registry fuel) := by
  induction fuel with
  | zero => intro _ _ _ _ h; cases h
  | succ fuel ih =>
    intro d σ t σ' h
    rw [getTable_succ] at h
    split at h
    · split at h <;> cases h
    · split at h
      · cases h
      · cases h
        exact compileTableDescriptor_keyError ih ‹_›
      · cases h

theorem joinByKeys_ne_keyError {table keyTable : Plan} :
    joinByKeys table keyTable ≠ .error (.keyError t) := by
  unfold joinByKeys
  split <;> nofun

theorem rangeByTime_ne_keyError {features : TableDescriptor} {table : Plan}
    {startDatetime endDatetime : Option Datetime} :
    rangeByTime features table startDatetime endDatetime ≠ .error (.keyError t) := by
  unfold rangeByTime
  split
  · split <;> nofun
  · nofun

end Stages

/-- Every exception a build that returns raises, from any cache, is a `FeathubException`, or a
`KeyError` naming a table that a view reached from the build's descriptor, or from its key
descriptor, joins in a dependent feature but in none of its declared features. A build that does
not return, as on a view that joins itself, raises nothing here: Python stops it with a
`RecursionError`, which the model renders as running out of fuel. -/
theorem build_error_classified {registry : Registry} {fuel : Nat} {features : TableDescriptor}
    {keys : Option Keys} {startDatetime endDatetime : Option Datetime} {σ σ' : Cache}
    {e : BuildError}
    (h : build registry fuel features keys startDatetime endDatetime σ = some (.error e, σ')) :
    e.isFeathubException ∨ ∃ t, e = .keyError t ∧
      (UndeclaredJoin registry features t ∨
        ∃ k, keyDescriptor keys = some k ∧ UndeclaredJoin registry k t) := by
  cases e with
  | keyError t =>
    refine .inr ⟨t, rfl, ?_⟩
    unfold build at h
    split at h
    · cases h
    rcases bind_eq_some h with ⟨_, he, ⟨⟩⟩ | ⟨_, _, -, h⟩
    · exact .inl (getTable_keyError fuel _ _ _ _ he)
    rcases bind_eq_some h with ⟨_, he, ⟨⟩⟩ | ⟨_, _, -, h⟩
    · -- the key step: the key table's `_get_table`, or the key check
      cases keys with
      | none => cases he
      | some keys =>
        rcases bind_eq_some he with ⟨_, he, ⟨⟩⟩ | ⟨_, _, -, hj⟩
        · cases keys with
          | dataFrame => cases he
          | descriptor k => exact .inr ⟨k, rfl, getTable_keyError fuel _ _ _ _ he⟩
        · simp only [ofExcept_apply, Option.some.injEq, Prod.mk.injEq] at hj
          exact absurd hj.1 joinByKeys_ne_keyError
    rcases bind_eq_some h with ⟨_, he, ⟨⟩⟩ | ⟨_, _, -, h⟩
    · simp only [ofExcept_apply, Option.some.injEq, Prod.mk.injEq] at he
      exact absurd he.1 rangeByTime_ne_keyError
    · cases h
  | _ => exact .inl rfl

/-- A registry holding `prices`. -/
def priceRegistry : Registry := ⟨fun name => if name = "prices" then some prices else none⟩

/-- Orders with the total over the price, the price join being only the total's input. -/
def inputPriceTotals : TableDescriptor :=
  .derivedFeatureView "input_price_totals" orders [totalFeature] true (some "ts") "epoch" false

/-- A view over `inputPriceTotals`, keeping its fields. -/
def totalsReport : TableDescriptor :=
  .derivedFeatureView "totals_report" inputPriceTotals [] true (some "ts") "epoch" false

theorem build_error_classified_totalsReport :
    ∃ σ', build priceRegistry 3 totalsReport none none none Dict.empty =
        some (.error (.keyError "prices"), σ') ∧
      ((BuildError.keyError "prices").isFeathubException ∨
        ∃ t, BuildError.keyError "prices" = .keyError t ∧
          (UndeclaredJoin priceRegistry totalsReport t ∨
            ∃ k, keyDescriptor none = some k ∧ UndeclaredJoin priceRegistry k t)) :=
  ⟨_, rfl, @build_error_classified priceRegistry 3 totalsReport none none none Dict.empty _ _ rfl⟩

end Feathub
