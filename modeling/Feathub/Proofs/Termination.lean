import Feathub.Proofs.Cache

/-!
# Termination — when `_get_table` returns

A compile calls `_get_table` on the view's source and, for a derived view, on each join table
the registry resolves; nothing records the descriptors in progress, and a descriptor is cached
only once its compile returns. So:

* `getTable_total` : from a descriptor with no infinite chain of references, some fuel makes
  `_get_table` return or raise from every cache;
* `self_join_never_returns` : a view that joins itself is compiled again and again, and no
  fuel suffices.
-/

namespace Feathub

open Build

/-- The descriptors the compile of `features` calls `_get_table` on. -/
def references (registry : Registry) : TableDescriptor → List TableDescriptor
  | features@(.derivedFeatureView _ source ..) =>
    source :: (joinTableNames features).filterMap registry.tables
  | .slidingFeatureView _ source .. => [source]
  | _ => []

/-- `child` is one of the descriptors the compile of `parent` calls `_get_table` on. -/
def Refers (registry : Registry) (child parent : TableDescriptor) : Prop :=
  child ∈ references registry parent

/-- A computation that returns or raises from every cache. -/
def Build.Total {α : Type} (x : Build α) : Prop := ∀ σ, (x σ).isSome

section Total

variable {α β : Type}

theorem Build.total_pure (a : α) : (pure a : Build α).Total := fun _ => rfl

theorem Build.total_ofExcept (x : Except BuildError α) : (ofExcept x).Total := fun _ => rfl

theorem Build.total_throw (e : BuildError) : (throw e : Build α).Total := fun _ => rfl

/-- A raise or a value, from a pure computation, then a computation total for that value. -/
theorem Build.total_ofExcept_bind {x : Except BuildError α} {f : α → Build β}
    (hf : ∀ a, x = .ok a → (f a).Total) : (ofExcept x >>= f).Total := by
  intro σ
  cases x with
  | error e => rfl
  | ok a => exact hf a rfl σ

theorem Build.total_bind {x : Build α} {f : α → Build β} (hx : x.Total)
    (hf : ∀ a, (f a).Total) : (x >>= f).Total := by
  intro σ
  rw [bind_apply]
  match h : x σ, hx σ with
  | some (.error _, _), _ => rfl
  | some (.ok a, σ'), _ => exact hf a σ'

end Total

section Fuel

variable {registry : Registry} {get : TableDescriptor → Build Plan}

theorem getFeatures_eq_ok {name : String} {d : TableDescriptor} :
    registry.getFeatures name = .ok d ↔ registry.tables name = some d := by
  unfold Registry.getFeatures
  split <;> simp_all

theorem resolveJoinTables_total {names : List String}
    (hget : ∀ name ∈ names, ∀ d, registry.tables name = some d → (get d).Total)
    (acc : Dict String TableDescriptor × Dict String Plan) :
    (resolveJoinTables get registry acc names).Total := by
  induction names generalizing acc with
  | nil => exact total_pure _
  | cons name rest ih =>
    exact total_ofExcept_bind fun d hd =>
      total_bind (hget name (.head _) d (getFeatures_eq_ok.1 hd)) fun _ =>
        ih (fun n hn => hget n (.tail _ hn)) _

/-- A compile returns or raises when every `_get_table` call it makes does. -/
theorem compileTableDescriptor_total (features : TableDescriptor)
    (hget : ∀ child, Refers registry child features → (get child).Total) :
    (compileTableDescriptor get registry features).Total := by
  cases features with
  | featureTable => exact total_pure _
  | other => exact total_throw _
  | slidingFeatureView =>
    exact total_bind (hget _ (List.mem_singleton_self _)) fun _ => total_ofExcept _
  | derivedFeatureView name source =>
    refine total_bind (hget _ (List.mem_cons_self _ _)) fun _ =>
      total_bind (resolveJoinTables_total (fun n hn d hd => hget d ?_) _) fun _ =>
        total_ofExcept _
    exact List.mem_cons_of_mem _ (List.mem_filterMap.2 ⟨n, hn, hd⟩)

theorem getTable_total_mono {fuel fuel' : Nat} (hle : fuel ≤ fuel') {child : TableDescriptor}
    (h : (getTable registry fuel child).Total) : (getTable registry fuel' child).Total := by
  intro σ
  obtain ⟨r, hr⟩ := Option.isSome_iff_exists.1 (h σ)
  rw [getTable_mono hle child σ r hr]
  rfl

/-- One fuel for finitely many descriptors. -/
theorem getTable_total_forall {children : List TableDescriptor}
    (h : ∀ child ∈ children, ∃ fuel, (getTable registry fuel child).Total) :
    ∃ fuel, ∀ child ∈ children, (getTable registry fuel child).Total := by
  induction children with
  | nil => exact ⟨0, fun _ h => absurd h (List.not_mem_nil _)⟩
  | cons child rest ih =>
    obtain ⟨fuel₁, h₁⟩ := h child (.head _)
    obtain ⟨fuel₂, h₂⟩ := ih fun c hc => h c (.tail _ hc)
    refine ⟨max fuel₁ fuel₂, fun c hc => ?_⟩
    rcases List.mem_cons.1 hc with rfl | hc
    · exact getTable_total_mono (le_max_left _ _) h₁
    · exact getTable_total_mono (le_max_right _ _) (h₂ c hc)

/-- From a descriptor with no infinite chain of references, enough fuel makes `_get_table`
return or raise, from every cache. -/
theorem getTable_total {features : TableDescriptor} (h : Acc (Refers registry) features) :
    ∃ fuel, (getTable registry fuel features).Total := by
  induction h with
  | intro features _ ih =>
    obtain ⟨fuel, hfuel⟩ := getTable_total_forall ih
    refine ⟨fuel + 1, fun σ => ?_⟩
    rw [getTable_succ]
    split
    · rfl
    · have := compileTableDescriptor_total features hfuel σ
      split <;> simp_all

end Fuel

/-- Events by id. -/
def events : TableDescriptor := .featureTable "events" ["id", "ts"] (some "ts") "epoch"

/-- Rates by id. -/
def rates : TableDescriptor := .featureTable "rates" ["id", "rate", "ts"] (some "ts") "epoch"

/-- The registry that resolves `rates`. -/
def ratesRegistry : Registry := ⟨fun name => if name = "rates" then some rates else none⟩

/-- A view over `events` joining the rate of each event's id from the registry's `rates`. -/
def ratedEvents : TableDescriptor :=
  .derivedFeatureView "rated" events [⟨"rate", ⟨"INT64"⟩, .join "rates" "rate", some ["id"], []⟩]
    true (some "ts") "epoch" false

theorem getTable_total_ratedEvents :
    Refers ratesRegistry rates ratedEvents ∧ Acc (Refers ratesRegistry) ratedEvents ∧
      ∃ fuel, (getTable ratesRegistry fuel ratedEvents).Total :=
  have hrefs : references ratesRegistry ratedEvents = [events, rates] := rfl
  have hleaf : ∀ {name fieldNames timestampField timestampFormat},
      Acc (Refers ratesRegistry) (.featureTable name fieldNames timestampField timestampFormat) :=
    .intro _ fun _ h => absurd h (List.not_mem_nil _)
  have hacc : Acc (Refers ratesRegistry) ratedEvents := .intro _ fun child hchild => by
    rw [Refers, hrefs] at hchild
    rcases List.mem_pair.1 hchild with rfl | rfl <;> exact hleaf
  ⟨show rates ∈ references ratesRegistry ratedEvents by rw [hrefs]; simp, hacc,
    getTable_total hacc⟩

/-! ## A view that joins itself -/

/-- A view over `events` with a join on the view itself. -/
def loopView : TableDescriptor :=
  .derivedFeatureView "loop" events [⟨"again", ⟨"INT64"⟩, .join "loop" "id", some ["id"], []⟩]
    true (some "ts") "epoch" false

/-- The registry that resolves `loop` to `loopView`. -/
def loopRegistry : Registry := ⟨fun name => if name = "loop" then some loopView else none⟩

/-- The cache once `events` is built. -/
def loopSourceBuilt : Cache := Dict.empty.insert "events" (events, .source events)

/-- With the source built, every call on the view compiles it again and calls itself. -/
theorem getTable_loopView_of_source_built (fuel : Nat) :
    getTable loopRegistry fuel loopView loopSourceBuilt = none := by
  induction fuel with
  | zero => rfl
  | succ fuel ih =>
    refine getTable_succ_of_miss_none rfl ?_
    cases fuel with
    | zero => rfl
    | succ fuel =>
      have hsource : getTable loopRegistry (fuel + 1) events loopSourceBuilt =
          some (.ok (.source events), loopSourceBuilt) :=
        getTable_succ_of_hit rfl
      have hjoin : resolveJoinTables (getTable loopRegistry (fuel + 1)) loopRegistry
          (Dict.empty, Dict.empty) ["loop"] loopSourceBuilt = none :=
        (bind_of_ok (show ofExcept (loopRegistry.getFeatures "loop") _ = _ from rfl)).trans
          (bind_of_none ih)
      exact (bind_of_ok hsource).trans (bind_of_none hjoin)

/-- `_get_table` on a view that joins itself never returns: no fuel is enough. -/
theorem self_join_never_returns :
    (fun fuel => getTable loopRegistry fuel loopView Dict.empty) = fun _ => none := by
  funext fuel
  cases fuel with
  | zero => rfl
  | succ fuel =>
    refine getTable_succ_of_miss_none rfl ?_
    cases fuel with
    | zero => rfl
    | succ fuel =>
      have hsource : getTable loopRegistry (fuel + 1) events Dict.empty =
          some (.ok (.source events), loopSourceBuilt) := by
        rw [getTable_succ]; rfl
      have hjoin : resolveJoinTables (getTable loopRegistry (fuel + 1)) loopRegistry
          (Dict.empty, Dict.empty) ["loop"] loopSourceBuilt = none :=
        (bind_of_ok (show ofExcept (loopRegistry.getFeatures "loop") _ = _ from rfl)).trans
          (bind_of_none (getTable_loopView_of_source_built _))
      exact (bind_of_ok hsource).trans (bind_of_none hjoin)

end Feathub
