import Feathub.Proofs.Termination
import Mathlib.Logic.Relation

/-!
# Uncached — the compile of a builder without `_built_tables`

`compileSpec` is `_get_table` with every lookup of the cache a miss and no write: each nested
call compiles its descriptor anew. It is what a build means; the cache should change only how
often a descriptor is compiled.

* `CacheValid` : every entry of the cache is the uncached compile of its descriptor;
* `getTable_sound` : from a valid cache, every call leaves a valid cache, binds only
  descriptors it reaches, and returns the uncached result, unless it raised the conflict on
  two descriptors of one name that it met;
* `getTable_complete` : when the descriptors it can meet have distinct names, a call returns
  the uncached result.
-/

namespace Feathub

open Build

/-- A result that neither reads nor writes the cache. -/
def Build.lift {α : Type} (o : Option (Except BuildError α)) : Build α := fun σ => o.map (·, σ)

/-- The compile of `features` by a builder without a cache. -/
def compileSpec (registry : Registry) : Nat → TableDescriptor → Option (Except BuildError Plan)
  | 0, _ => none
  | fuel + 1, features =>
    (compileTableDescriptor (fun d => lift (compileSpec registry fuel d)) registry features
      Dict.empty).map Prod.fst

/-- The uncached compile as a nested `_get_table`. -/
def specGet (registry : Registry) (fuel : Nat) (features : TableDescriptor) : Build Plan :=
  lift (compileSpec registry fuel features)

/-! ## The uncached compile does not touch the cache -/

/-- A computation whose result does not depend on the cache and which leaves it unchanged. -/
def Build.StateFree {α : Type} (x : Build α) : Prop :=
  ∀ σ, x σ = (x Dict.empty).map fun p => (p.1, σ)

section StateFree

variable {α β : Type}

theorem Build.stateFree_pure (a : α) : (pure a : Build α).StateFree := fun _ => rfl

theorem Build.stateFree_ofExcept (x : Except BuildError α) : (ofExcept x).StateFree :=
  fun _ => rfl

theorem Build.stateFree_throw (e : BuildError) : (throw e : Build α).StateFree := fun _ => rfl

theorem Build.stateFree_lift (o : Option (Except BuildError α)) : (lift o).StateFree := by
  intro σ
  cases o <;> rfl

theorem Build.stateFree_bind {x : Build α} {f : α → Build β} (hx : x.StateFree)
    (hf : ∀ a, (f a).StateFree) : (x >>= f).StateFree := by
  intro σ
  have h0 := hx Dict.empty
  rw [bind_apply, bind_apply, hx σ]
  rcases hxe : x Dict.empty with _ | ⟨_ | a, σ₀⟩
  · rfl
  · rfl
  · rw [hxe] at h0
    obtain rfl : σ₀ = Dict.empty := (Prod.mk.inj (Option.some.inj h0)).2
    exact hf a σ

/-- A state-free computation leaves the cache as it found it. -/
theorem Build.StateFree.cache_eq {x : Build α} (hx : x.StateFree) {σ σ' : Cache}
    {r : Except BuildError α} (h : x σ = some (r, σ')) : σ' = σ := by
  rw [hx σ] at h
  obtain ⟨_, _, hp⟩ := Option.map_eq_some'.1 h
  exact (Prod.mk.inj hp).2.symm

/-- A state-free computation returns from any cache what it returns from one. -/
theorem Build.StateFree.transfer {x : Build α} (hx : x.StateFree) {σ σ' : Cache}
    {r : Except BuildError α} (h : x σ = some (r, σ')) (τ : Cache) : x τ = some (r, τ) := by
  rw [hx σ] at h
  rw [hx τ]
  obtain ⟨p, hp, hpr⟩ := Option.map_eq_some'.1 h
  rw [hp]
  cases hpr
  rfl

end StateFree

section Spec

variable {registry : Registry}

theorem resolveJoinTables_stateFree {get : TableDescriptor → Build Plan}
    (hget : ∀ d, (get d).StateFree) (acc : Dict String TableDescriptor × Dict String Plan)
    (names : List String) : (resolveJoinTables get registry acc names).StateFree := by
  induction names generalizing acc with
  | nil => exact stateFree_pure _
  | cons name rest ih =>
    exact stateFree_bind (stateFree_ofExcept _) fun _ => stateFree_bind (hget _) fun _ => ih _

theorem compileTableDescriptor_specGet (fuel : Nat) (features : TableDescriptor) (σ : Cache) :
    compileTableDescriptor (specGet registry fuel) registry features σ =
      (compileSpec registry (fuel + 1) features).map (·, σ) := by
  have hfree : (compileTableDescriptor (specGet registry fuel) registry features).StateFree := by
    have hget : ∀ d, (specGet registry fuel d).StateFree := fun d => stateFree_lift _
    cases features with
    | featureTable => exact stateFree_pure _
    | other => exact stateFree_throw _
    | slidingFeatureView => exact stateFree_bind (hget _) fun _ => stateFree_ofExcept _
    | derivedFeatureView =>
      exact stateFree_bind (hget _) fun _ =>
        stateFree_bind (resolveJoinTables_stateFree hget _ _) fun _ => stateFree_ofExcept _
  rw [hfree σ, compileSpec, Option.map_map]
  rfl

/-! ## More fuel never changes the uncached compile -/

theorem specGet_succ_approx (fuel : Nat) (d : TableDescriptor) :
    Approx (specGet registry fuel d) (specGet registry (fuel + 1) d) := by
  induction fuel generalizing d with
  | zero => exact fun _ _ h => nomatch h
  | succ fuel ih =>
    intro σ r h
    have hc : Approx (compileTableDescriptor (specGet registry fuel) registry d)
        (compileTableDescriptor (specGet registry (fuel + 1)) registry d) :=
      compileTableDescriptor_mono ih d
    have := hc σ r
    rw [compileTableDescriptor_specGet, compileTableDescriptor_specGet] at this
    exact this h

theorem specGet_mono {fuel fuel' : Nat} (hle : fuel ≤ fuel') (d : TableDescriptor) :
    Approx (specGet registry fuel d) (specGet registry fuel' d) := by
  induction hle with
  | refl => exact Approx.refl _
  | step _ ih => exact ih.trans (specGet_succ_approx _ d)

theorem compileSpec_mono {fuel fuel' : Nat} (hle : fuel ≤ fuel') {d : TableDescriptor}
    {r : Except BuildError Plan} (h : compileSpec registry fuel d = some r) :
    compileSpec registry fuel' d = some r := by
  have happrox : Approx (specGet registry fuel d) (specGet registry fuel' d) := specGet_mono hle d
  simpa [specGet, lift] using happrox Dict.empty (r, Dict.empty) (by simp [specGet, lift, h])

/-- What the uncached compile returns, with enough fuel. -/
def SpecResult (registry : Registry) (d : TableDescriptor) (r : Except BuildError Plan) : Prop :=
  ∃ fuel, compileSpec registry fuel d = some r

theorem SpecResult.unique {d : TableDescriptor} {r r' : Except BuildError Plan}
    (h : SpecResult registry d r) (h' : SpecResult registry d r') : r = r' := by
  obtain ⟨fuel, hf⟩ := h
  obtain ⟨fuel', hf'⟩ := h'
  exact Option.some.inj ((compileSpec_mono (le_max_left fuel fuel') hf).symm.trans
    (compileSpec_mono (le_max_right fuel fuel') hf'))

end Spec

/-! ## Valid caches -/

/-- Every entry of the cache is keyed by its descriptor's name and holds the uncached compile
of that descriptor. -/
def CacheValid (registry : Registry) (σ : Cache) : Prop :=
  ∀ name features table, σ.get? name = some (features, table) →
    features.name = name ∧ SpecResult registry features (.ok table)

/-- `features` is bound in the cache. -/
def Bound (σ : Cache) (features : TableDescriptor) : Prop :=
  ∃ table, σ.get? features.name = some (features, table)

/-- `e` is `d`, or a descriptor that `d`'s compile reaches through sources and join tables. -/
def Reaches (registry : Registry) (d e : TableDescriptor) : Prop :=
  Relation.ReflTransGen (fun parent child => Refers registry child parent) d e

/-- Every descriptor bound in `σ'` was bound in `σ` or is one the call on `d` reaches. -/
def Grows (registry : Registry) (σ σ' : Cache) (d : TableDescriptor) : Prop :=
  ∀ e, Bound σ' e → Bound σ e ∨ Reaches registry d e

/-- The conflict on two descriptors of one name: one the call on `d` reaches, the other bound
before it or reached too. -/
def ConflictIn (registry : Registry) (σ : Cache) (d : TableDescriptor) (e : BuildError) : Prop :=
  ∃ features cached, e = .conflictingDescriptor features cached ∧ features ≠ cached ∧
    features.name = cached.name ∧ Reaches registry d features ∧
    (Bound σ cached ∨ Reaches registry d cached)

/-- What a `_get_table` call keeps from a valid cache: a valid cache, growing only by the
descriptors it reaches, and the uncached result or a conflict it met. -/
def CallSound (registry : Registry) (get : TableDescriptor → Build Plan) : Prop :=
  ∀ d σ r σ', CacheValid registry σ → get d σ = some (r, σ') →
    CacheValid registry σ' ∧ Grows registry σ σ' d ∧
      (SpecResult registry d r ∨ ∃ e, r = .error e ∧ ConflictIn registry σ d e)

section Sound

variable {registry : Registry}

theorem Reaches.of_refers {child parent : TableDescriptor} (h : Refers registry child parent) :
    Reaches registry parent child :=
  Relation.ReflTransGen.single h

theorem Reaches.trans' {d d' e : TableDescriptor} (h : Reaches registry d d')
    (h' : Reaches registry d' e) : Reaches registry d e :=
  Relation.ReflTransGen.trans h h'

theorem Grows.refl (σ : Cache) (d : TableDescriptor) : Grows registry σ σ d :=
  fun _ h => .inl h

theorem Grows.trans {σ σ₁ σ₂ : Cache} {d d' : TableDescriptor}
    (h₁ : Grows registry σ σ₁ d) (h₂ : Grows registry σ₁ σ₂ d')
    (hd : Reaches registry d d') : Grows registry σ σ₂ d :=
  fun e he => (h₂ e he).elim (h₁ e) fun h => .inr (hd.trans' h)

theorem ConflictIn.lift {σ σ₁ : Cache} {d d' : TableDescriptor} {e : BuildError}
    (h : ConflictIn registry σ₁ d' e) (hσ : Grows registry σ σ₁ d)
    (hd : Reaches registry d d') : ConflictIn registry σ d e := by
  obtain ⟨features, cached, hr, hne, hname, hf, hc⟩ := h
  exact ⟨features, cached, hr, hne, hname, hd.trans' hf,
    hc.elim (fun hb => hσ _ hb) fun h => .inr (hd.trans' h)⟩

theorem resolveJoinTables_sound {get : TableDescriptor → Build Plan}
    (hget : CallSound registry get) {parent : TableDescriptor} {names : List String}
    (hnames : ∀ name ∈ names, ∀ d, registry.tables name = some d → Refers registry d parent)
    {acc : Dict String TableDescriptor × Dict String Plan} {σ σ' : Cache}
    {r : Except BuildError (Dict String TableDescriptor × Dict String Plan)}
    (hσ : CacheValid registry σ)
    (h : resolveJoinTables get registry acc names σ = some (r, σ')) :
    CacheValid registry σ' ∧ Grows registry σ σ' parent ∧
      ((∃ fuel, resolveJoinTables (specGet registry fuel) registry acc names Dict.empty =
        some (r, Dict.empty)) ∨ ∃ e, r = .error e ∧ ConflictIn registry σ parent e) := by
  induction names generalizing acc σ with
  | nil =>
    cases h
    exact ⟨hσ, Grows.refl _ _, .inl ⟨0, rfl⟩⟩
  | cons name rest ih =>
    rcases bind_eq_some h with ⟨e, he, rfl⟩ | ⟨d, σ₀, hd, h⟩
    · -- the registry does not resolve `name`
      obtain ⟨hr, rfl⟩ := Prod.mk.inj (Option.some.inj he)
      exact ⟨hσ, Grows.refl _ _, .inl ⟨0, bind_of_error (by rw [ofExcept_apply, hr])⟩⟩
    obtain ⟨hdok, rfl⟩ := Prod.mk.inj (Option.some.inj hd)
    have hrefers := hnames name (.head _) d (getFeatures_eq_ok.1 hdok)
    have hlookup : ∀ fuel, resolveJoinTables (specGet registry fuel) registry acc (name :: rest)
        Dict.empty = (specGet registry fuel d >>= fun table => resolveJoinTables
          (specGet registry fuel) registry (acc.1.insert name d, acc.2.insert name table) rest)
          Dict.empty := fun _ => bind_of_ok (by rw [ofExcept_apply, hdok])
    rcases bind_eq_some h with ⟨e, he, rfl⟩ | ⟨table, σ₁, ht, h⟩
    · -- building the join table raised
      obtain ⟨hσ', hgrow, hres⟩ := hget d σ _ σ' hσ he
      refine ⟨hσ', (Grows.refl σ parent).trans hgrow (.of_refers hrefers), ?_⟩
      rcases hres with ⟨fuel, hfuel⟩ | ⟨e', he', hconflict⟩
      · exact .inl ⟨fuel,
          (hlookup fuel).trans (bind_of_error (by simp [specGet, lift, hfuel]))⟩
      · exact .inr ⟨e', by rw [Except.error.inj he'],
          hconflict.lift (Grows.refl σ parent) (.of_refers hrefers)⟩
    · -- the join table is built; the loop goes on
      obtain ⟨hσ₁, hgrow₁, hres₁⟩ := hget d σ _ σ₁ hσ ht
      have hgrow : Grows registry σ σ₁ parent :=
        (Grows.refl σ parent).trans hgrow₁ (.of_refers hrefers)
      obtain ⟨hσ', hgrow', hrest⟩ := ih (fun n hn => hnames n (.tail _ hn)) hσ₁ h
      refine ⟨hσ', hgrow.trans hgrow' .refl, ?_⟩
      rcases hrest with ⟨fuel₂, hfuel₂⟩ | ⟨e, he, hconflict⟩
      · obtain ⟨fuel₁, hfuel₁⟩ := hres₁.resolve_right fun ⟨_, he, _⟩ => nomatch he
        have hjoin : specGet registry (max fuel₁ fuel₂) d Dict.empty =
            some (.ok table, Dict.empty) := by
          simp [specGet, lift, compileSpec_mono (le_max_left _ _) hfuel₁]
        exact .inl ⟨_, (hlookup _).trans ((bind_of_ok hjoin).trans
          (resolveJoinTables_mono (fun d => specGet_mono (le_max_right _ _) d) _ _ _ _ hfuel₂))⟩
      · exact .inr ⟨e, he, hconflict.lift hgrow .refl⟩

/-- The uncached compile, read off one compile with uncached nested calls. -/
theorem compileSpec_succ_of {fuel : Nat} {features : TableDescriptor} {r : Except BuildError Plan}
    (h : compileTableDescriptor (specGet registry fuel) registry features Dict.empty =
      some (r, Dict.empty)) : compileSpec registry (fuel + 1) features = some r := by
  rw [compileTableDescriptor_specGet] at h
  obtain ⟨r', hr', hr⟩ := Option.map_eq_some'.1 h
  cases hr
  exact hr'

theorem specGet_of_specResult {d : TableDescriptor} {r : Except BuildError Plan} {fuel : Nat}
    (h : compileSpec registry fuel d = some r) {fuel' : Nat} (hle : fuel ≤ fuel') :
    specGet registry fuel' d Dict.empty = some (r, Dict.empty) := by
  simp [specGet, lift, compileSpec_mono hle h]

theorem refers_source_derived {name : String} {source : TableDescriptor} {features : List Feature}
    {keep : Bool} {ts : Option String} {format : String} {unresolved : Bool} :
    Refers registry source
      (.derivedFeatureView name source features keep ts format unresolved) :=
  List.mem_cons_self _ _

theorem refers_source_sliding {name : String} {source : TableDescriptor} {features : List Feature}
    {keep : Bool} {ts : Option String} {format : String} {unresolved : Bool} :
    Refers registry source
      (.slidingFeatureView name source features keep ts format unresolved) :=
  List.mem_singleton_self _

theorem refers_join {name : String} {source : TableDescriptor} {features : List Feature}
    {keep : Bool} {ts : Option String} {format : String} {unresolved : Bool} {tableName : String}
    {d : TableDescriptor} (hname : tableName ∈ joinTableNames
      (.derivedFeatureView name source features keep ts format unresolved))
    (hd : registry.tables tableName = some d) :
    Refers registry d (.derivedFeatureView name source features keep ts format unresolved) :=
  List.mem_cons_of_mem _ (List.mem_filterMap.2 ⟨tableName, hname, hd⟩)

/-- One compile from a valid cache, with sound nested calls. -/
theorem compileTableDescriptor_sound {get : TableDescriptor → Build Plan}
    (hget : CallSound registry get) {features : TableDescriptor} {σ σ' : Cache}
    {r : Except BuildError Plan} (hσ : CacheValid registry σ)
    (h : compileTableDescriptor get registry features σ = some (r, σ')) :
    CacheValid registry σ' ∧ Grows registry σ σ' features ∧
      (SpecResult registry features r ∨
        ∃ e, r = .error e ∧ ConflictIn registry σ features e) := by
  cases features with
  | featureTable =>
    cases h
    exact ⟨hσ, Grows.refl _ _, .inl ⟨1, rfl⟩⟩
  | other =>
    cases h
    exact ⟨hσ, Grows.refl _ _, .inl ⟨1, rfl⟩⟩
  | slidingFeatureView name source =>
    rcases bind_eq_some h with ⟨e, he, rfl⟩ | ⟨table, σ₁, ht, h⟩
    · obtain ⟨hσ', hgrow, hres⟩ := hget _ σ _ σ' hσ he
      refine ⟨hσ', (Grows.refl σ _).trans hgrow (.of_refers refers_source_sliding), ?_⟩
      rcases hres with ⟨fuel, hfuel⟩ | ⟨e', he', hconflict⟩
      · exact .inl ⟨fuel + 1, compileSpec_succ_of (bind_of_error
          (specGet_of_specResult hfuel le_rfl))⟩
      · exact .inr ⟨e', he',
          hconflict.lift (Grows.refl σ _) (.of_refers refers_source_sliding)⟩
    · obtain ⟨hσ₁, hgrow, hres⟩ := hget _ σ _ σ₁ hσ ht
      obtain ⟨rfl, rfl⟩ := Prod.mk.inj (Option.some.inj h)
      obtain ⟨fuel, hfuel⟩ := hres.resolve_right fun ⟨_, he, _⟩ => nomatch he
      exact ⟨hσ₁, (Grows.refl σ _).trans hgrow (.of_refers refers_source_sliding),
        .inl ⟨fuel + 1,
          compileSpec_succ_of (bind_of_ok (specGet_of_specResult hfuel le_rfl))⟩⟩
  | derivedFeatureView name source declared keep ts format unresolved =>
    have hrefers : Refers registry source
        (.derivedFeatureView name source declared keep ts format unresolved) :=
      refers_source_derived
    have hnames : ∀ n ∈ joinTableNames
        (.derivedFeatureView name source declared keep ts format unresolved), ∀ d,
        registry.tables n = some d →
          Refers registry d (.derivedFeatureView name source declared keep ts format unresolved) :=
      fun _ hn _ hd => refers_join hn hd
    rcases bind_eq_some h with ⟨e, he, rfl⟩ | ⟨table, σ₁, ht, h⟩
    · obtain ⟨hσ', hgrow, hres⟩ := hget _ σ _ σ' hσ he
      refine ⟨hσ', (Grows.refl σ _).trans hgrow (.of_refers hrefers), ?_⟩
      rcases hres with ⟨fuel, hfuel⟩ | ⟨e', he', hconflict⟩
      · exact .inl ⟨fuel + 1, compileSpec_succ_of (bind_of_error
          (specGet_of_specResult hfuel le_rfl))⟩
      · exact .inr ⟨e', he', hconflict.lift (Grows.refl σ _) (.of_refers hrefers)⟩
    obtain ⟨hσ₁, hgrow₁, hres₁⟩ := hget _ σ _ σ₁ hσ ht
    obtain ⟨fuel₁, hfuel₁⟩ := hres₁.resolve_right fun ⟨_, he, _⟩ => nomatch he
    have hgrow : Grows registry σ σ₁ _ := (Grows.refl σ _).trans hgrow₁ (.of_refers hrefers)
    have hsource := fun fuel₂ => specGet_of_specResult hfuel₁ (le_max_left fuel₁ fuel₂)
    rcases bind_eq_some h with ⟨e, he, rfl⟩ | ⟨resolved, σ₂, hresolved, h⟩
    · obtain ⟨hσ', hgrow', hspec⟩ := resolveJoinTables_sound hget hnames hσ₁ he
      refine ⟨hσ', hgrow.trans hgrow' .refl, ?_⟩
      rcases hspec with ⟨fuel₂, hfuel₂⟩ | ⟨e', he', hconflict⟩
      · exact .inl ⟨max fuel₁ fuel₂ + 1, compileSpec_succ_of
          ((bind_of_ok (hsource fuel₂)).trans (bind_of_error (resolveJoinTables_mono
            (fun d => specGet_mono (le_max_right _ _) d) _ _ _ _ hfuel₂)))⟩
      · exact .inr ⟨e', by rw [Except.error.inj he'], hconflict.lift hgrow .refl⟩
    · obtain ⟨hσ₂, hgrow₂, hspec⟩ := resolveJoinTables_sound hget hnames hσ₁ hresolved
      obtain ⟨rfl, rfl⟩ := Prod.mk.inj (Option.some.inj h)
      obtain ⟨fuel₂, hfuel₂⟩ := hspec.resolve_right fun ⟨_, he, _⟩ => nomatch he
      exact ⟨hσ₂, hgrow.trans hgrow₂ .refl, .inl ⟨max fuel₁ fuel₂ + 1,
        compileSpec_succ_of ((bind_of_ok (hsource fuel₂)).trans
          (bind_of_ok (resolveJoinTables_mono (fun d => specGet_mono (le_max_right _ _) d)
            _ _ _ _ hfuel₂)))⟩⟩

theorem CacheValid.insert {σ : Cache} (hσ : CacheValid registry σ) {d : TableDescriptor}
    {table : Plan} (hd : SpecResult registry d (.ok table)) :
    CacheValid registry (σ.insert d.name (d, table)) := by
  intro n features t h
  rw [Dict.get?_insert] at h
  split_ifs at h with hn
  · cases h
    exact ⟨hn.symm, hd⟩
  · exact hσ n features t h

theorem Grows.insert {σ σ' : Cache} {d : TableDescriptor} (h : Grows registry σ σ' d)
    (table : Plan) : Grows registry σ (σ'.insert d.name (d, table)) d := by
  intro e ⟨t, he⟩
  rw [Dict.get?_insert] at he
  split_ifs at he with hn
  · cases he
    exact .inr .refl
  · exact h e ⟨t, he⟩

/-- Every `_get_table` call from a valid cache is sound: it keeps the cache valid, binds only
descriptors it reaches, and returns the uncached result unless it raised a conflict it met. -/
theorem getTable_sound (fuel : Nat) : CallSound registry (getTable registry fuel) := by
  induction fuel with
  | zero => exact fun _ _ _ _ _ h => nomatch h
  | succ fuel ih =>
    intro d σ r σ' hσ h
    rw [getTable_succ] at h
    split at h
    · -- a hit
      rename_i cached table hhit
      obtain ⟨hname, hspec⟩ := hσ _ _ _ hhit
      cases h
      refine ⟨hσ, Grows.refl _ _, ?_⟩
      by_cases hd : d = cached
      · subst hd
        simpa using hspec
      · exact .inr ⟨_, by simp [hd], d, cached, rfl, hd, hname.symm, .refl,
          .inl ⟨table, hname ▸ hhit⟩⟩
    · -- a miss: compile, then write
      split at h
      · cases h
      · rename_i hc
        cases h
        exact compileTableDescriptor_sound ih hσ hc
      · rename_i table σ'' hc
        cases h
        obtain ⟨hσ'', hgrow, hres⟩ := compileTableDescriptor_sound ih hσ hc
        have hspec := hres.resolve_right fun ⟨_, he, _⟩ => nomatch he
        exact ⟨hσ''.insert hspec, hgrow.insert table, .inl hspec⟩

end Sound

/-! ## Distinct names: the cache changes nothing -/

/-- The descriptors `U` holds have distinct names. -/
def NamesUnique (U : TableDescriptor → Prop) : Prop :=
  ∀ d d', U d → U d' → d.name = d'.name → d = d'

section Complete

variable {registry : Registry} {U : TableDescriptor → Prop}

theorem specGet_eq_some {fuel : Nat} {d : TableDescriptor} {σ σ' : Cache}
    {r : Except BuildError Plan} (h : specGet registry fuel d σ = some (r, σ')) :
    compileSpec registry fuel d = some r ∧ σ' = σ := by
  obtain ⟨r', hr', hr⟩ := Option.map_eq_some'.1 h
  cases hr
  exact ⟨hr', rfl⟩

/-- After a call on a descriptor in `U`'s reach, the cache is still valid and binds only
descriptors of `U`. -/
theorem getTable_keeps {fuel : Nat} {d : TableDescriptor} {σ σ' : Cache}
    {r : Except BuildError Plan} (hσ : CacheValid registry σ) (hbound : ∀ e, Bound σ e → U e)
    (hreach : ∀ e, Reaches registry d e → U e)
    (h : getTable registry fuel d σ = some (r, σ')) :
    CacheValid registry σ' ∧ ∀ e, Bound σ' e → U e := by
  obtain ⟨hσ', hgrow, -⟩ := getTable_sound fuel d σ r σ' hσ h
  exact ⟨hσ', fun e he => (hgrow e he).elim (hbound e) (hreach e)⟩

/-- The nested calls of an uncached compile at one fuel, made from a cache. -/
def CallsComplete (registry : Registry) (U : TableDescriptor → Prop) (fuel : Nat) : Prop :=
  ∀ d σ r, CacheValid registry σ → (∀ e, Bound σ e → U e) → (∀ e, Reaches registry d e → U e) →
    compileSpec registry fuel d = some r → ∃ fuel' σ', getTable registry fuel' d σ = some (r, σ')

theorem resolveJoinTables_complete {fuel : Nat} (ih : CallsComplete registry U fuel)
    {parent : TableDescriptor} (hreach : ∀ e, Reaches registry parent e → U e)
    {names : List String}
    (hnames : ∀ name ∈ names, ∀ d, registry.tables name = some d → Refers registry d parent)
    {acc : Dict String TableDescriptor × Dict String Plan} {σ : Cache}
    {r : Except BuildError (Dict String TableDescriptor × Dict String Plan)}
    (hσ : CacheValid registry σ) (hbound : ∀ e, Bound σ e → U e)
    (h : resolveJoinTables (specGet registry fuel) registry acc names Dict.empty =
      some (r, Dict.empty)) :
    ∃ fuel' σ', resolveJoinTables (getTable registry fuel') registry acc names σ =
      some (r, σ') := by
  induction names generalizing acc σ with
  | nil =>
    cases h
    exact ⟨0, σ, rfl⟩
  | cons name rest ihn =>
    rcases bind_eq_some h with ⟨e, he, rfl⟩ | ⟨d, σ₀, hd, h⟩
    · exact ⟨0, σ,
        bind_of_error (by rw [ofExcept_apply, (Prod.mk.inj (Option.some.inj he)).1])⟩
    obtain ⟨hdok, rfl⟩ := Prod.mk.inj (Option.some.inj hd)
    have hrefers := hnames name (.head _) d (getFeatures_eq_ok.1 hdok)
    have hdreach : ∀ e, Reaches registry d e → U e := fun e he =>
      hreach e ((Reaches.of_refers hrefers).trans' he)
    have hlookup : ∀ fuel', resolveJoinTables (getTable registry fuel') registry acc
        (name :: rest) σ = (getTable registry fuel' d >>= fun table =>
          resolveJoinTables (getTable registry fuel') registry
            (acc.1.insert name d, acc.2.insert name table) rest) σ :=
      fun _ => bind_of_ok (by rw [ofExcept_apply, hdok])
    rcases bind_eq_some h with ⟨e, he, rfl⟩ | ⟨table, σ₀, ht, h⟩
    · obtain ⟨fuel', σ', hcall⟩ := ih d σ _ hσ hbound hdreach (specGet_eq_some he).1
      exact ⟨fuel', σ', (hlookup _).trans (bind_of_error hcall)⟩
    · obtain ⟨hspec, rfl⟩ := specGet_eq_some ht
      obtain ⟨fuel₁, σ₁, hcall⟩ := ih d σ _ hσ hbound hdreach hspec
      obtain ⟨hσ₁, hbound₁⟩ := getTable_keeps hσ hbound hdreach hcall
      obtain ⟨fuel₂, σ', hrest⟩ := ihn (fun n hn => hnames n (.tail _ hn)) hσ₁ hbound₁ h
      exact ⟨max fuel₁ fuel₂, σ', (hlookup _).trans ((bind_of_ok
        (getTable_mono (le_max_left _ _) d σ _ hcall)).trans
          (resolveJoinTables_mono (fun d => getTable_mono (le_max_right _ _) d) _ _ _ _ hrest))⟩

theorem compileTableDescriptor_complete {fuel : Nat} (ih : CallsComplete registry U fuel)
    {d : TableDescriptor} {σ : Cache} {r : Except BuildError Plan}
    (hσ : CacheValid registry σ) (hbound : ∀ e, Bound σ e → U e)
    (hreach : ∀ e, Reaches registry d e → U e)
    (h : compileTableDescriptor (specGet registry fuel) registry d Dict.empty =
      some (r, Dict.empty)) :
    ∃ fuel' σ', compileTableDescriptor (getTable registry fuel') registry d σ =
      some (r, σ') := by
  cases d with
  | featureTable =>
    cases h
    exact ⟨0, σ, rfl⟩
  | other =>
    cases h
    exact ⟨0, σ, rfl⟩
  | slidingFeatureView name source =>
    have hsreach : ∀ e, Reaches registry source e → U e := fun e he =>
      hreach e ((Reaches.of_refers refers_source_sliding).trans' he)
    rcases bind_eq_some h with ⟨e, he, rfl⟩ | ⟨table, σ₀, ht, h⟩
    · obtain ⟨fuel', σ', hcall⟩ := ih source σ _ hσ hbound hsreach (specGet_eq_some he).1
      exact ⟨fuel', σ', bind_of_error hcall⟩
    · obtain ⟨hspec, rfl⟩ := specGet_eq_some ht
      obtain ⟨fuel', σ', hcall⟩ := ih source σ _ hσ hbound hsreach hspec
      cases h
      exact ⟨fuel', σ', bind_of_ok hcall⟩
  | derivedFeatureView name source declared keep ts format unresolved =>
    have hsreach : ∀ e, Reaches registry source e → U e := fun e he =>
      hreach e ((Reaches.of_refers refers_source_derived).trans' he)
    have hnames : ∀ n ∈ joinTableNames
        (.derivedFeatureView name source declared keep ts format unresolved), ∀ d,
        registry.tables n = some d →
          Refers registry d (.derivedFeatureView name source declared keep ts format unresolved) :=
      fun _ hn _ hd => refers_join hn hd
    rcases bind_eq_some h with ⟨e, he, rfl⟩ | ⟨table, σ₀, ht, h⟩
    · obtain ⟨fuel', σ', hcall⟩ := ih source σ _ hσ hbound hsreach (specGet_eq_some he).1
      exact ⟨fuel', σ', bind_of_error hcall⟩
    obtain ⟨hspec, rfl⟩ := specGet_eq_some ht
    obtain ⟨fuel₁, σ₁, hcall⟩ := ih source σ _ hσ hbound hsreach hspec
    obtain ⟨hσ₁, hbound₁⟩ := getTable_keeps hσ hbound hsreach hcall
    have hsource := fun fuel₂ => getTable_mono (le_max_left fuel₁ fuel₂) source σ _ hcall
    rcases bind_eq_some h with ⟨e, he, rfl⟩ | ⟨resolved, σ₀, hres, h⟩
    · obtain ⟨fuel₂, σ', hjoin⟩ :=
        resolveJoinTables_complete ih hreach hnames hσ₁ hbound₁ he
      exact ⟨max fuel₁ fuel₂, σ', (bind_of_ok (hsource fuel₂)).trans (bind_of_error
        (resolveJoinTables_mono (fun d => getTable_mono (le_max_right _ _) d) _ _ _ _ hjoin))⟩
    · obtain rfl := (resolveJoinTables_stateFree (fun d => stateFree_lift _) _ _).cache_eq hres
      obtain ⟨fuel₂, σ', hjoin⟩ :=
        resolveJoinTables_complete ih hreach hnames hσ₁ hbound₁ hres
      cases h
      exact ⟨max fuel₁ fuel₂, σ', (bind_of_ok (hsource fuel₂)).trans (bind_of_ok
        (resolveJoinTables_mono (fun d => getTable_mono (le_max_right _ _) d) _ _ _ _ hjoin))⟩

/-- When the descriptors bound in a valid cache and those a call reaches have distinct names,
the call returns what the uncached compile returns. -/
theorem getTable_complete (hU : NamesUnique U) (fuel : Nat) : CallsComplete registry U fuel := by
  induction fuel with
  | zero => exact fun _ _ _ _ _ _ h => nomatch h
  | succ fuel ih =>
    intro d σ r hσ hbound hreach h
    cases hhit : σ.get? d.name with
    | some entry =>
      obtain ⟨cached, table⟩ := entry
      obtain ⟨hname, hspec⟩ := hσ _ _ _ hhit
      have hsame : cached = d :=
        hU _ _ (hbound _ ⟨table, hname ▸ hhit⟩) (hreach _ .refl) hname
      subst hsame
      obtain rfl := SpecResult.unique ⟨_, h⟩ hspec
      exact ⟨1, σ, getTable_succ_of_hit hhit⟩
    | none =>
      have hc : compileTableDescriptor (specGet registry fuel) registry d Dict.empty =
          some (r, Dict.empty) := by
        rw [compileTableDescriptor_specGet, h]
        rfl
      obtain ⟨fuel', σ', hcall⟩ := compileTableDescriptor_complete ih hσ hbound hreach hc
      obtain ⟨σ'', hget⟩ := getTable_succ_of_miss hhit hcall
      exact ⟨fuel' + 1, σ'', hget⟩

/-- With distinct names, a call raises no conflict: its result is the uncached one. -/
theorem specResult_of_getTable (hU : NamesUnique U) {fuel : Nat} {d : TableDescriptor}
    {σ σ' : Cache} {r : Except BuildError Plan} (hσ : CacheValid registry σ)
    (hbound : ∀ e, Bound σ e → U e) (hreach : ∀ e, Reaches registry d e → U e)
    (h : getTable registry fuel d σ = some (r, σ')) : SpecResult registry d r := by
  obtain ⟨-, -, hres⟩ := getTable_sound fuel d σ r σ' hσ h
  rcases hres with hspec | ⟨_, -, features, cached, -, hne, hname, hf, hc⟩
  · exact hspec
  · exact absurd (hU _ _ (hreach _ hf) (hc.elim (hbound _) (hreach _)) hname) hne

/-- A call from one cache returns what it returns from any other, when both are valid and bind
only descriptors of `U`, and the call reaches only descriptors of `U`. -/
theorem getTable_transfer (hU : NamesUnique U) {fuel : Nat} {d : TableDescriptor}
    {σ σ' τ : Cache} {r : Except BuildError Plan} (hσ : CacheValid registry σ)
    (hσU : ∀ e, Bound σ e → U e) (hτ : CacheValid registry τ)
    (hτU : ∀ e, Bound τ e → U e) (hreach : ∀ e, Reaches registry d e → U e)
    (h : getTable registry fuel d σ = some (r, σ')) :
    ∃ fuel' τ', getTable registry fuel' d τ = some (r, τ') := by
  obtain ⟨k, hk⟩ := specResult_of_getTable hU hσ hσU hreach h
  exact getTable_complete hU k d τ r hτ hτU hreach hk

end Complete

end Feathub
