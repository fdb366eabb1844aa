import Feathub.Proofs.Exceptions
import Feathub.Proofs.Output

/-!
# Reach — what a build looks at

A build calls `_get_table` on its descriptor, on its key descriptor and, through sources and
the join tables the registry resolves, on every descriptor those reach. Nothing else enters
`_built_tables`, and the registry is read only at the join tables of the views reached:

* `Session` : a session with the requests it was made of;
* `build_grows` : a build from a valid cache binds only descriptors its request reaches;
* `session_reaches` : every descriptor a session's cache holds was reached by one of its
  requests;
* `registryNames` : the names the compile of a descriptor resolves in the registry;
* `getTable_congr` : two registries that agree at those names, for every descriptor reached,
  give the same `_get_table`, and so the same build (`build_registry_local`);
* `Plan.scans` and `build_scans` : from a valid cache, the plan a build returns scans only
  feature tables its request reaches, and so its rows read only their data
  (`build_eval_local`).
-/

namespace Feathub

open Build

/-- A session with the requests it was made of, newest first: each build's descriptor and key
set, whatever the build returned. -/
inductive Session (registry : Registry) : List (TableDescriptor × Option Keys) → Cache → Prop
  | fresh : Session registry [] Dict.empty
  | step {requests : List (TableDescriptor × Option Keys)} {σ σ' : Cache} {fuel : Nat}
      {features : TableDescriptor} {keys : Option Keys}
      {startDatetime endDatetime : Option Datetime} {r : Except BuildError Plan} :
      Session registry requests σ →
      build registry fuel features keys startDatetime endDatetime σ = some (r, σ') →
      Session registry ((features, keys) :: requests) σ'

/-- A request reaches `e`: its descriptor does, or its key descriptor. -/
def RequestReaches (registry : Registry) (request : TableDescriptor × Option Keys)
    (e : TableDescriptor) : Prop :=
  Reaches registry request.1 e ∨ ∃ K, keyDescriptor request.2 = some K ∧ Reaches registry K e

section Sessions

variable {registry : Registry}

theorem Session.history {requests : List (TableDescriptor × Option Keys)} {σ : Cache}
    (h : Session registry requests σ) : History registry σ := by
  induction h with
  | fresh => exact .fresh
  | step _ hbuild ih => exact .step ih hbuild

/-- A build from a valid cache binds only descriptors its request reaches. -/
theorem build_grows {fuel : Nat} {features : TableDescriptor} {keys : Option Keys}
    {startDatetime endDatetime : Option Datetime} {σ σ' : Cache} {r : Except BuildError Plan}
    (hσ : CacheValid registry σ)
    (h : build registry fuel features keys startDatetime endDatetime σ = some (r, σ')) :
    ∀ e, Bound σ' e → Bound σ e ∨ RequestReaches registry (features, keys) e := by
  unfold build at h
  split at h
  · cases h
    exact fun _ => .inl
  rcases bind_eq_some h with ⟨_, he, -⟩ | ⟨table, σ₁, ht, h⟩
  · exact fun e hb => ((getTable_sound fuel _ σ _ σ' hσ he).2.1 e hb).imp_right .inl
  obtain ⟨hσ₁, hgrow₁, -⟩ := getTable_sound fuel _ σ _ σ₁ hσ ht
  have hfirst : ∀ e, Bound σ₁ e → Bound σ e ∨ RequestReaches registry (features, keys) e :=
    fun e hb => (hgrow₁ e hb).imp_right .inl
  have htail := build_tail_stateFree features startDatetime endDatetime
  rcases keys with _ | (_ | K)
  · exact (stateFree_bind (stateFree_pure _) htail).cache_eq h ▸ hfirst
  · exact (stateFree_bind (stateFree_bind (stateFree_pure _) fun _ => stateFree_ofExcept _)
      htail).cache_eq h ▸ hfirst
  · -- the key descriptor's call grows the cache by what it reaches
    have hkey : ∀ r' σ₂, getTable registry fuel K σ₁ = some (r', σ₂) →
        ∀ e, Bound σ₂ e → Bound σ e ∨ RequestReaches registry (features, some (.descriptor K)) e :=
      fun _ σ₂ hk e hb => ((getTable_sound fuel _ σ₁ _ σ₂ hσ₁ hk).2.1 e hb).elim (hfirst e)
        fun hreach => .inr (.inr ⟨K, rfl, hreach⟩)
    simp only [filterTableByKeys, getKeyTable, bind_assoc] at h
    rcases bind_eq_some h with ⟨_, he, -⟩ | ⟨keyTable, σ₂, hk, h⟩
    · exact hkey _ _ he
    · exact (stateFree_bind (stateFree_ofExcept _) htail).cache_eq h ▸ hkey _ _ hk

/-- Every descriptor `_built_tables` holds after a session was reached by one of the session's
builds, from its descriptor or its key descriptor, through sources and the join tables the
registry resolves: whatever the builds returned, the cache holds nothing no build asked for. -/
theorem session_reaches {requests : List (TableDescriptor × Option Keys)} {σ : Cache}
    (h : Session registry requests σ) :
    ∀ e, Bound σ e → ∃ request ∈ requests, RequestReaches registry request e := by
  induction h with
  | fresh => exact fun _ ⟨_, he⟩ => by rw [Dict.get?_empty] at he; cases he
  | step hs hbuild ih =>
    intro e hb
    rcases build_grows (CacheValid.of_history hs.history) hbuild e hb with hb | hreach
    · obtain ⟨request, hrequest, hreach⟩ := ih e hb
      exact ⟨request, .tail _ hrequest, hreach⟩
    · exact ⟨_, .head _, hreach⟩

end Sessions

theorem session_reaches_sessionX :
    Session emptyRegistry [(sourceX, none)] sessionX ∧
    ∀ e, Bound sessionX e → ∃ request ∈ [(sourceX, none)],
      RequestReaches emptyRegistry request e :=
  have hs : Session emptyRegistry [(sourceX, none)] sessionX :=
    @Session.step emptyRegistry [] Dict.empty sessionX 1 sourceX none none none _ .fresh rfl
  ⟨hs, session_reaches hs⟩

/-! ## The registry is read only where a reached view joins -/

/-- The names the compile of a descriptor resolves in the registry: the join tables of a derived
view. -/
def registryNames : TableDescriptor → List String
  | features@(.derivedFeatureView ..) => joinTableNames features
  | _ => []

section Congr

variable {registry registry' : Registry}

theorem Build.bind_apply_congr {α β : Type} {x x' : Build α} {f f' : α → Build β} {σ : Cache}
    (hx : x σ = x' σ) (hf : ∀ a σ₁, f a σ₁ = f' a σ₁) : (x >>= f) σ = (x' >>= f') σ := by
  rw [bind_apply, bind_apply, hx]
  rcases x' σ with _ | ⟨_ | a, σ₁⟩
  · rfl
  · rfl
  · exact hf a σ₁

theorem resolveJoinTables_congr {get get' : TableDescriptor → Build Plan} {names : List String}
    (hnames : ∀ name ∈ names, registry.tables name = registry'.tables name ∧
      ∀ d, registry.tables name = some d → ∀ σ, get d σ = get' d σ)
    (acc : Dict String TableDescriptor × Dict String Plan) (σ : Cache) :
    resolveJoinTables get registry acc names σ = resolveJoinTables get' registry' acc names σ := by
  induction names generalizing acc σ with
  | nil => rfl
  | cons name rest ih =>
    obtain ⟨htables, hget⟩ := hnames name (.head _)
    have hfeatures : registry.getFeatures name = registry'.getFeatures name := by
      unfold Registry.getFeatures
      rw [htables]
    simp only [resolveJoinTables]
    rw [← hfeatures]
    rcases hd : registry.getFeatures name with e | d
    · rfl
    · rw [bind_of_ok (ofExcept_apply _ σ), bind_of_ok (ofExcept_apply _ σ)]
      exact bind_apply_congr (hget d (getFeatures_eq_ok.1 hd) σ) fun _ _ =>
        ih (fun n hn => hnames n (.tail _ hn)) _ _

/-- One compile reads the registry only at its descriptor's join tables, and the nested
`_get_table` only on the descriptors it refers to. -/
theorem compileTableDescriptor_congr {get get' : TableDescriptor → Build Plan}
    {features : TableDescriptor}
    (hget : ∀ d, Refers registry d features → ∀ σ, get d σ = get' d σ)
    (hnames : ∀ name ∈ registryNames features, registry.tables name = registry'.tables name)
    (σ : Cache) :
    compileTableDescriptor get registry features σ =
      compileTableDescriptor get' registry' features σ := by
  cases features with
  | featureTable | other => rfl
  | slidingFeatureView => exact bind_apply_congr (hget _ refers_source_sliding σ) fun _ _ => rfl
  | derivedFeatureView =>
    exact bind_apply_congr (hget _ refers_source_derived σ) fun _ _ =>
      bind_apply_congr (resolveJoinTables_congr (fun name hname =>
        ⟨hnames name hname, fun d hd => hget d (refers_join hname hd)⟩) _ _) fun _ _ => rfl

/-- Two registries that agree at the join tables of every view a descriptor reaches give the
same `_get_table` on it, from every cache. -/
theorem getTable_congr (fuel : Nat) :
    ∀ features : TableDescriptor, (∀ v, Reaches registry features v →
      ∀ name ∈ registryNames v, registry.tables name = registry'.tables name) →
    ∀ σ, getTable registry fuel features σ = getTable registry' fuel features σ := by
  induction fuel with
  | zero => intros; rfl
  | succ fuel ih =>
    intro features hagree σ
    rw [getTable_succ, getTable_succ, compileTableDescriptor_congr
      (fun d hd => ih d fun v hv => hagree v ((Reaches.of_refers hd).trans' hv))
      (hagree _ .refl) σ]

end Congr

/-- A build reads the registry only at the join tables of the views its request reaches: two
registries that agree there give the same build, its result and the cache it leaves, from every
cache, whatever they hold elsewhere. -/
theorem build_registry_local {registry registry' : Registry} {fuel : Nat}
    {features : TableDescriptor} {keys : Option Keys}
    {startDatetime endDatetime : Option Datetime}
    (hagree : ∀ v, RequestReaches registry (features, keys) v →
      ∀ name ∈ registryNames v, registry.tables name = registry'.tables name) (σ : Cache) :
    build registry fuel features keys startDatetime endDatetime σ =
      build registry' fuel features keys startDatetime endDatetime σ := by
  unfold build
  split
  · rfl
  refine bind_apply_congr (getTable_congr fuel features (fun v hv => hagree v (.inl hv)) σ)
    fun _ σ₁ => bind_apply_congr ?_ fun _ _ => rfl
  rcases keys with _ | (_ | K)
  · rfl
  · rfl
  · exact bind_apply_congr
      (getTable_congr fuel K (fun v hv => hagree v (.inr ⟨K, rfl, hv⟩)) σ₁) fun _ _ => rfl

/-- Orders with the price of their user. -/
def pricedOrders : TableDescriptor :=
  .derivedFeatureView "priced_orders" orders [priceFeature] true (some "ts") "epoch" false

/-- A registry holding `prices` and `orders`. -/
def catalogRegistry : Registry :=
  ⟨fun name => if name = "prices" then some prices else if name = "orders" then some orders
    else none⟩

/-- `pricedOrders` reaches itself, its source and the table it joins. -/
theorem reaches_pricedOrders {v : TableDescriptor} (h : Reaches priceRegistry pricedOrders v) :
    v = pricedOrders ∨ v = orders ∨ v = prices := by
  rcases Relation.ReflTransGen.cases_head h with h | ⟨child, hchild, hv⟩
  · exact .inl h.symm
  have hrefs : references priceRegistry pricedOrders = [orders, prices] := rfl
  rw [Refers, hrefs] at hchild
  rcases List.mem_pair.1 hchild with rfl | rfl
  · exact .inr (.inl (eq_of_reaches_featureTable hv))
  · exact .inr (.inr (eq_of_reaches_featureTable hv))

theorem build_registry_local_pricedOrders :
    (∀ v, RequestReaches priceRegistry (pricedOrders, none) v →
      ∀ name ∈ registryNames v, priceRegistry.tables name = catalogRegistry.tables name) ∧
    build priceRegistry 2 pricedOrders none none none Dict.empty =
      build catalogRegistry 2 pricedOrders none none none Dict.empty :=
  have hagree : ∀ v, RequestReaches priceRegistry (pricedOrders, none) v →
      ∀ name ∈ registryNames v, priceRegistry.tables name = catalogRegistry.tables name := by
    rintro v (hv | ⟨_, hK, -⟩)
    · rcases reaches_pricedOrders hv with rfl | rfl | rfl <;> decide
    · cases hK
  ⟨hagree, build_registry_local hagree Dict.empty⟩

/-! ## The sources a build scans -/

/-- The descriptors a plan scans by `get_table_from_source`. -/
def Plan.scans : Plan → List TableDescriptor
  | .source table => [table]
  | .fromPandas _ => []
  | .addOrReplaceColumns table .. | .overWindow table .. | .slidingWindow table ..
  | .select table _ | .filterEventTime table .. | .addColumns table .. | .dropColumns table _ =>
    table.scans
  | .temporalJoin left right .. | .fullOuterJoin left right .. | .joinOnKey left right _ =>
    left.scans ++ right.scans

/-- Whether a descriptor is a `FeatureTable`. -/
def TableDescriptor.isFeatureTable : TableDescriptor → Bool
  | .featureTable .. => true
  | _ => false

/-- Every descriptor the plan scans is a feature table that `d` reaches. -/
def ScansWithin (registry : Registry) (d : TableDescriptor) (p : Plan) : Prop :=
  ∀ s ∈ p.scans, s.isFeatureTable ∧ Reaches registry d s

section Stages

theorem scans_foldlM_derivedFeatureStep {timestampField : Option String}
    {sourceFields : List String} {descriptorsByNames : Dict String TableDescriptor}
    {fs : List Feature} {st st' : DerivedState}
    (h : fs.foldlM (derivedFeatureStep timestampField sourceFields descriptorsByNames) st =
      .ok st') : st'.tmpTable.scans = st.tmpTable.scans := by
  induction fs generalizing st with
  | nil => cases h; rfl
  | cons f fs ih =>
    rw [List.foldlM_cons] at h
    obtain ⟨st₁, hstep, hrest⟩ := except_bind_eq_ok h
    rw [ih hrest]
    rcases derivedFeatureStep_eq_ok hstep with ⟨-, rfl⟩ | ⟨-, ⟨_, -, rfl⟩ | ⟨_, -, -, rfl⟩ |
      ⟨_, _, _, _, _, -, -, -, -, -, rfl⟩⟩ <;> rfl

theorem scans_foldlM_slidingFeatureStep {timestampField : Option String} {fs : List Feature}
    {st st' : SlidingState} (h : fs.foldlM (slidingFeatureStep timestampField) st = .ok st') :
    st'.tmpTable.scans = st.tmpTable.scans := by
  induction fs generalizing st with
  | nil => cases h; rfl
  | cons f fs ih =>
    rw [List.foldlM_cons] at h
    obtain ⟨st₁, hstep, hrest⟩ := except_bind_eq_ok h
    rw [ih hrest]
    rcases slidingFeatureStep_eq_ok hstep with ⟨-, rfl⟩ | ⟨-, ⟨_, -, rfl⟩ | ⟨_, -, -, rfl⟩⟩ <;> rfl

theorem scans_applyOverWindows (table : Plan)
    (windowAggMap : Dict OverWindowDescriptor (List AggregationFieldDescriptor)) :
    (applyOverWindows table windowAggMap).scans = table.scans := by
  unfold applyOverWindows
  induction windowAggMap.entries generalizing table with
  | nil => rfl
  | cons _ _ ih => exact ih _

/-- The join phase scans the accumulating table and the right tables of `table_by_names`. -/
theorem scans_applyTemporalJoins {tableByNames : Dict String Plan} {table joined : Plan}
    {rightTables : Dict (String × List String) (Dict String JoinFieldDescriptor)}
    (h : applyTemporalJoins tableByNames table rightTables = .ok joined) :
    ∀ s ∈ joined.scans, s ∈ table.scans ∨
      ∃ name right, tableByNames.get? name = some right ∧ s ∈ right.scans := by
  unfold applyTemporalJoins at h
  generalize rightTables.entries = batches at h
  induction batches generalizing table with
  | nil => cases h; exact fun _ => .inl
  | cons batch rest ih =>
    rw [List.foldlM_cons] at h
    obtain ⟨joined₁, hbatch, hrest⟩ := except_bind_eq_ok h
    unfold temporalJoinBatch at hbatch
    split at hbatch
    · cases hbatch
    next right hright =>
      cases hbatch
      intro s hs
      rcases ih hrest s hs with hs | hs
      · exact (List.mem_append.1 hs).imp_right fun hs => ⟨_, right, hright, hs⟩
      · exact .inr hs

/-- The merge loop scans only the accumulating table. -/
theorem scans_mergeSlidingWindowAggs {tmpTable merged : Plan}
    {slidingWindowAggMap : Dict SlidingWindowDescriptor (List AggregationFieldDescriptor)}
    (h : (mergeSlidingWindowAggs tmpTable slidingWindowAggMap).1 = some merged) :
    ∀ s ∈ merged.scans, s ∈ tmpTable.scans := by
  unfold mergeSlidingWindowAggs at h
  suffices hinv : ∀ (batches : List (SlidingWindowDescriptor × List AggregationFieldDescriptor))
      (acc : Option Plan × Dict String (Value × DType)),
      (∀ p, acc.1 = some p → ∀ s ∈ p.scans, s ∈ tmpTable.scans) →
      ∀ p, (batches.foldl (mergeStep tmpTable) acc).1 = some p → ∀ s ∈ p.scans, s ∈ tmpTable.scans
    from hinv _ _ (fun _ h => by cases h) _ h
  intro batches
  induction batches with
  | nil => exact fun _ hacc => hacc
  | cons batch rest ih =>
    refine fun acc hacc => ih _ fun p hp s hs => ?_
    unfold mergeStep at hp
    split at hp
    · cases hp
      exact hs
    · cases hp
      exact (List.mem_append.1 hs).elim (hacc _ ‹_› s) id

theorem scans_addTimestampField (featureView : TableDescriptor) (table : Plan) :
    (addTimestampField featureView table).scans = table.scans := by
  unfold addTimestampField
  split <;> rfl

theorem scans_compileSlidingFeatureView {featureView : TableDescriptor} {sourceTable table : Plan}
    (h : compileSlidingFeatureView featureView sourceTable = .ok table) :
    ∀ s ∈ table.scans, s ∈ sourceTable.scans := by
  obtain ⟨st, hst, h⟩ := except_bind_eq_ok h
  cases h
  intro s hs
  change s ∈ (addTimestampField featureView _).scans at hs
  rw [scans_addTimestampField] at hs
  rw [← scans_foldlM_slidingFeatureStep hst]
  cases hmerged : (mergeSlidingWindowAggs st.tmpTable st.slidingWindowAggMap).1 with
  | none => rwa [hmerged] at hs
  | some merged =>
    rw [hmerged] at hs
    exact scans_mergeSlidingWindowAggs hmerged s hs

theorem scans_compileDerivedFeatureView {featureView : TableDescriptor} {sourceTable table : Plan}
    {descriptorsByNames : Dict String TableDescriptor} {tableByNames : Dict String Plan}
    (h : compileDerivedFeatureView featureView sourceTable descriptorsByNames tableByNames =
      .ok table) :
    ∀ s ∈ table.scans, s ∈ sourceTable.scans ∨
      ∃ name right, tableByNames.get? name = some right ∧ s ∈ right.scans := by
  obtain ⟨st, hst, h⟩ := except_bind_eq_ok h
  obtain ⟨joined, hjoined, h⟩ := except_bind_eq_ok h
  cases h
  intro s hs
  have hdispatch : st.tmpTable.scans = sourceTable.scans := scans_foldlM_derivedFeatureStep hst
  rw [← hdispatch, ← scans_applyOverWindows st.tmpTable st.windowAggMap]
  exact scans_applyTemporalJoins hjoined s hs

end Stages

section Within

variable {registry : Registry}

theorem ScansWithin.lift {child parent : TableDescriptor} {p : Plan}
    (h : ScansWithin registry child p) (hrefers : Refers registry child parent) :
    ScansWithin registry parent p :=
  fun s hs => ⟨(h s hs).1, (Reaches.of_refers hrefers).trans' (h s hs).2⟩

/-- The join tables the loop before the dispatch resolves: each was returned by the nested
`_get_table` on a descriptor the registry resolves for a name of the loop. -/
theorem resolveJoinTables_tables {get : TableDescriptor → Build Plan}
    {Q : TableDescriptor → Plan → Prop}
    (hget : ∀ d σ p σ', get d σ = some (.ok p, σ') → Q d p) {names : List String}
    {acc res : Dict String TableDescriptor × Dict String Plan} {σ σ' : Cache}
    (h : resolveJoinTables get registry acc names σ = some (.ok res, σ')) :
    ∀ name right, res.2.get? name = some right → acc.2.get? name = some right ∨
      ∃ n ∈ names, ∃ d, registry.tables n = some d ∧ Q d right := by
  induction names generalizing acc σ with
  | nil => cases h; exact fun _ _ => .inl
  | cons n rest ih =>
    rcases bind_eq_some h with ⟨_, -, ⟨⟩⟩ | ⟨d, σ₀, hd, h⟩
    simp only [ofExcept_apply, Option.some.injEq, Prod.mk.injEq] at hd
    rcases bind_eq_some h with ⟨_, -, ⟨⟩⟩ | ⟨table, _, ht, h⟩
    intro name right hright
    rcases ih h name right hright with hacc | ⟨n', hn', hrest⟩
    · rw [Dict.get?_insert] at hacc
      split at hacc
      · cases hacc
        exact .inr ⟨n, .head _, d, getFeatures_eq_ok.1 hd.1, hget _ _ _ _ ht⟩
      · exact .inl hacc
    · exact .inr ⟨n', .tail _ hn', hrest⟩

/-- One compile scans only feature tables its descriptor reaches, when every nested
`_get_table` does. -/
theorem scansWithin_compileTableDescriptor {get : TableDescriptor → Build Plan}
    (hget : ∀ d σ p σ', get d σ = some (.ok p, σ') → ScansWithin registry d p)
    {features : TableDescriptor} {σ σ' : Cache} {table : Plan}
    (h : compileTableDescriptor get registry features σ = some (.ok table, σ')) :
    ScansWithin registry features table := by
  cases features with
  | featureTable =>
    cases h
    intro s hs
    obtain rfl := List.mem_singleton.1 hs
    exact ⟨rfl, .refl⟩
  | other => cases h
  | slidingFeatureView =>
    simp only [compileTableDescriptor, getTableFromSlidingFeatureView] at h
    rcases bind_eq_some h with ⟨_, -, ⟨⟩⟩ | ⟨_, _, hsource, h⟩
    simp only [ofExcept_apply, Option.some.injEq, Prod.mk.injEq] at h
    exact fun s hs =>
      (hget _ _ _ _ hsource).lift refers_source_sliding s (scans_compileSlidingFeatureView h.1 s hs)
  | derivedFeatureView =>
    simp only [compileTableDescriptor, getTableFromDerivedFeatureView] at h
    rcases bind_eq_some h with ⟨_, -, ⟨⟩⟩ | ⟨_, _, hsource, h⟩
    rcases bind_eq_some h with ⟨_, -, ⟨⟩⟩ | ⟨_, _, hres, h⟩
    simp only [ofExcept_apply, Option.some.injEq, Prod.mk.injEq] at h
    intro s hs
    rcases scans_compileDerivedFeatureView h.1 s hs with hs | ⟨name, right, hright, hs⟩
    · exact (hget _ _ _ _ hsource).lift refers_source_derived s hs
    · rcases resolveJoinTables_tables hget hres name right hright with hnone | ⟨n, hn, d, hd, hd'⟩
      · cases hnone
      · exact hd'.lift (refers_join hn hd) s hs

theorem scansWithin_of_compileSpec {fuel : Nat} :
    ∀ {d : TableDescriptor} {table : Plan},
      compileSpec registry fuel d = some (.ok table) → ScansWithin registry d table := by
  induction fuel with
  | zero => intro _ _ h; cases h
  | succ fuel ih =>
    intro d table h
    obtain ⟨⟨_, _⟩, hc, hr⟩ := Option.map_eq_some.1 h
    cases hr
    exact scansWithin_compileTableDescriptor (fun _ _ _ _ hd => ih (specGet_eq_some hd).1) hc

theorem scansWithin_of_specResult {d : TableDescriptor} {table : Plan}
    (h : SpecResult registry d (.ok table)) : ScansWithin registry d table :=
  scansWithin_of_compileSpec h.choose_spec

end Within

theorem scans_dropEventTime (table : Plan) : (dropEventTime table).scans = table.scans := by
  unfold dropEventTime
  split <;> rfl

theorem scans_rangeByTime {features : TableDescriptor} {table ranged : Plan}
    {startDatetime endDatetime : Option Datetime}
    (h : rangeByTime features table startDatetime endDatetime = .ok ranged) :
    ranged.scans = table.scans := by
  unfold rangeByTime at h
  split at h
  · split at h
    · cases h
    · cases h
      cases startDatetime <;> cases endDatetime <;> rfl
  · cases h
    rfl

/-- From every valid cache, the plan a build returns scans only feature tables, and
only ones its descriptor or its key descriptor reaches through sources and the join tables the
registry resolves: a data-frame key set scans nothing. -/
theorem build_scans {registry : Registry} {σ σ' : Cache} (hσ : CacheValid registry σ)
    {fuel : Nat}
    {features : TableDescriptor} {keys : Option Keys} {startDatetime endDatetime : Option Datetime}
    {plan : Plan}
    (h : build registry fuel features keys startDatetime endDatetime σ = some (.ok plan, σ')) :
    ∀ s ∈ plan.scans, s.isFeatureTable ∧ RequestReaches registry (features, keys) s := by
  obtain ⟨table, keyTable, keyed, ranged, htable, hkt, hks, hr, rfl⟩ := build_eq_ok hσ h
  intro s hs
  rw [scans_dropEventTime, scans_rangeByTime hr] at hs
  have hwithin : ∀ s ∈ table.scans, s.isFeatureTable ∧ RequestReaches registry (features, keys) s :=
    fun s hs => (scansWithin_of_specResult htable s hs).imp_right .inl
  match keys, keyTable, hkt, hks with
  | none, _, rfl, hks =>
    cases hks
    exact hwithin s hs
  | some (.dataFrame _), _, rfl, hks =>
    rw [joinByKeys_eq_ok (show joinByKeys _ _ = _ from hks)] at hs
    rcases List.mem_append.1 hs with hs | hs
    · cases hs
    · exact hwithin s hs
  | some (.descriptor K), _, ⟨_, rfl, hspec⟩, hks =>
    rw [joinByKeys_eq_ok (show joinByKeys _ _ = _ from hks)] at hs
    rcases List.mem_append.1 hs with hs | hs
    · exact (scansWithin_of_specResult hspec s hs).imp_right fun hreach => .inr ⟨K, rfl, hreach⟩
    · exact hwithin s hs

/-- A plan's rows read the executor's sources only at the descriptors the plan scans. -/
theorem eval_congr_scans (engine : Engine) (scan : TableDescriptor → List Row) (p : Plan)
    (hagree : ∀ s ∈ p.scans, scan s = engine.scan s) :
    p.eval { engine with scan } = p.eval engine := by
  induction p with
  | source table => exact hagree table (.head _)
  | fromPandas => rfl
  | addOrReplaceColumns _ _ _ _ ih | overWindow _ _ _ ih | slidingWindow _ _ _ ih | select _ _ ih
  | filterEventTime _ _ _ ih | addColumns _ _ _ ih | dropColumns _ _ ih =>
    simp only [Plan.eval, ih hagree]
  | temporalJoin _ _ _ _ ihl ihr | fullOuterJoin _ _ _ _ ihl ihr | joinOnKey _ _ _ ihl ihr =>
    simp only [Plan.eval, ihl fun s hs => hagree s (List.mem_append_left _ hs),
      ihr fun s hs => hagree s (List.mem_append_right _ hs)]

/-- From every valid cache, the rows of a build's plan read the source data only of
feature tables its request reaches: two executors that differ only in what they scan, and agree
on those tables, give the plan the same rows. -/
theorem build_eval_local {registry : Registry} {σ σ' : Cache} (hσ : CacheValid registry σ)
    {fuel : Nat} {features : TableDescriptor} {keys : Option Keys}
    {startDatetime endDatetime : Option Datetime} {plan : Plan}
    (h : build registry fuel features keys startDatetime endDatetime σ = some (.ok plan, σ'))
    (engine : Engine) (scan : TableDescriptor → List Row)
    (hagree : ∀ s, s.isFeatureTable → RequestReaches registry (features, keys) s →
      scan s = engine.scan s) :
    plan.eval { engine with scan } = plan.eval engine :=
  eval_congr_scans engine scan plan fun s hs => hagree s (build_scans hσ h s hs).1
    (build_scans hσ h s hs).2

/-- The one row of `sourceX`. -/
def xRow : Row :=
  [("a", .int 1), ("ts", .timestamp fifthPastMidnight),
    (eventTimeAttributeName, .timestamp fifthPastMidnight)]

/-- An executor whose `sourceX` holds `xRow` and whose other tables are empty. -/
def sourceXEngine : Engine :=
  { idleEngine with scan := fun d => if d = sourceX then [xRow] else [] }

/-- Another scan: the same `sourceX`, and a row in every other table. -/
def otherTablesScan (d : TableDescriptor) : List Row :=
  if d = sourceX then [xRow] else [[("a", .int 2)]]

theorem reaches_viewY {v : TableDescriptor} (h : Reaches emptyRegistry viewY v) :
    v = viewY ∨ v = sourceX := by
  rcases Relation.ReflTransGen.cases_head h with h | ⟨child, hchild, hv⟩
  · exact .inl h.symm
  have hrefs : references emptyRegistry viewY = [sourceX] := rfl
  rw [Refers, hrefs, List.mem_singleton] at hchild
  subst hchild
  exact .inr (eq_of_reaches_featureTable hv)

theorem build_eval_local_viewY :
    CacheValid emptyRegistry sessionX ∧
    ∃ plan σ', build emptyRegistry 2 viewY (some (.descriptor sourceX)) none none sessionX =
        some (.ok plan, σ') ∧
      (∀ s, s.isFeatureTable → RequestReaches emptyRegistry (viewY, some (.descriptor sourceX)) s →
        otherTablesScan s = sourceXEngine.scan s) ∧
      otherTablesScan orders ≠ sourceXEngine.scan orders ∧
      plan.eval sourceXEngine = [[("a", .int 1), ("ts", .timestamp fifthPastMidnight)]] ∧
      plan.eval { sourceXEngine with scan := otherTablesScan } = plan.eval sourceXEngine :=
  have hagree : ∀ s, s.isFeatureTable →
      RequestReaches emptyRegistry (viewY, some (.descriptor sourceX)) s →
      otherTablesScan s = sourceXEngine.scan s := by
    intro s hs hreach
    obtain rfl : s = sourceX := by
      rcases hreach with hv | ⟨K, hK, hv⟩
      · rcases reaches_viewY hv with rfl | rfl
        · cases hs
        · rfl
      · cases hK
        exact eq_of_reaches_featureTable hv
    rfl
  ⟨cacheValid_sessionX, _, _, rfl, hagree, by decide, by decide, @build_eval_local emptyRegistry
    sessionX _ cacheValid_sessionX 2 viewY (some (.descriptor sourceX)) none none _ rfl
    sourceXEngine otherTablesScan hagree⟩

end Feathub
