import Feathub.Proofs.Cache

/-!
# Frame — what a call leaves of `_built_tables`

`_get_table` writes the cache only on a miss, once the compile of the missed descriptor has
returned, and only at that descriptor's name. A name bound when a call starts is a hit for
every call on a descriptor of that name, so no call writes it again:

* `Extends` : a cache keeps every binding of another;
* `Build.Keeps` : a computation whose final cache extends the one it starts from;
* `keeps_getTable` : every `_get_table` call keeps the bindings it starts from, whatever it
  returns or raises, and so does every `build` (`build_keeps_bindings`): along a session, a
  binding left by one call stays for every later call;
* `Build.Stable` : a computation that returned returns the same again, as a pure hit, from
  every cache extending the one it left;
* `build_repeat` : every build is stable, so a build that returned, made again anywhere later
  in the session, returns the same table and writes nothing;
* `build_conflicts_after_build` : once a build has returned, a later build of another
  descriptor of the same name raises the conflict.

A binding made during a call is not kept in general: a nested call can bind the name of the
descriptor whose compile is in progress, and the write that ends the outer call replaces it
(the reentrant case of `Cache.lean`).
-/

namespace Feathub

open Build

/-- `σ'` keeps every binding of `σ`. -/
def Extends (σ σ' : Cache) : Prop :=
  ∀ name entry, σ.get? name = some entry → σ'.get? name = some entry

theorem Extends.refl (σ : Cache) : Extends σ σ := fun _ _ h => h

theorem Extends.trans {σ₁ σ₂ σ₃ : Cache} (h₁₂ : Extends σ₁ σ₂) (h₂₃ : Extends σ₂ σ₃) :
    Extends σ₁ σ₃ := fun name entry h => h₂₃ name entry (h₁₂ name entry h)

/-- A computation that keeps every binding of the cache it starts from, whatever it returns or
raises. -/
def Build.Keeps {α : Type} (x : Build α) : Prop :=
  ∀ σ r σ', x σ = some (r, σ') → Extends σ σ'

/-- A computation that returned `a` returns `a` again, and leaves the cache as it is, from every
cache that keeps the bindings it left. -/
def Build.Stable {α : Type} (x : Build α) : Prop :=
  ∀ σ a σ', x σ = some (.ok a, σ') → ∀ σ'', Extends σ' σ'' → x σ'' = some (.ok a, σ'')

section Combinators

variable {α β : Type}

theorem Build.keeps_pure (a : α) : (pure a : Build α).Keeps :=
  fun σ _ _ h => by cases h; exact Extends.refl σ

theorem Build.keeps_ofExcept (x : Except BuildError α) : (ofExcept x).Keeps :=
  fun σ _ _ h => by cases h; exact Extends.refl σ

theorem Build.keeps_throw (e : BuildError) : (throw e : Build α).Keeps :=
  fun σ _ _ h => by cases h; exact Extends.refl σ

theorem Build.keeps_bind {x : Build α} {f : α → Build β} (hx : x.Keeps) (hf : ∀ a, (f a).Keeps) :
    (x >>= f).Keeps := by
  intro σ r σ' h
  rcases bind_eq_some h with ⟨_, he, rfl⟩ | ⟨a, σ₁, ha, hfa⟩
  · exact hx σ _ σ' he
  · exact (hx σ _ σ₁ ha).trans (hf a σ₁ r σ' hfa)

theorem Build.stable_pure (a : α) : (pure a : Build α).Stable :=
  fun _ _ _ h _ _ => by cases h; rfl

theorem Build.stable_ofExcept (x : Except BuildError α) : (ofExcept x).Stable :=
  fun _ _ _ h _ _ => by cases h; rfl

/-- A bind is stable when both parts are and its second part keeps the cache: the first part
is a hit again on every later cache, because the second part kept what the first left. -/
theorem Build.stable_bind {x : Build α} {f : α → Build β} (hx : x.Stable)
    (hf : ∀ a, (f a).Stable) (hfk : ∀ a, (f a).Keeps) : (x >>= f).Stable := by
  intro σ b σ' h σ'' hext
  rcases bind_eq_some h with ⟨_, -, ⟨⟩⟩ | ⟨a, σ₁, ha, hfa⟩
  rw [bind_of_ok (hx σ a σ₁ ha σ'' ((hfk a σ₁ _ σ' hfa).trans hext))]
  exact hf a σ₁ b σ' hfa σ'' hext

end Combinators

/-! ## `_get_table` and `build` keep the bindings they start from -/

section Calls

variable {registry : Registry}

theorem resolveJoinTables_keeps {get : TableDescriptor → Build Plan} (hget : ∀ d, (get d).Keeps)
    (acc : Dict String TableDescriptor × Dict String Plan) (names : List String) :
    (resolveJoinTables get registry acc names).Keeps := by
  induction names generalizing acc with
  | nil => exact keeps_pure _
  | cons name rest ih =>
    exact keeps_bind (keeps_ofExcept _) fun _ => keeps_bind (hget _) fun _ => ih _

theorem compileTableDescriptor_keeps {get : TableDescriptor → Build Plan}
    (hget : ∀ d, (get d).Keeps) (features : TableDescriptor) :
    (compileTableDescriptor get registry features).Keeps := by
  cases features with
  | featureTable => exact keeps_pure _
  | other => exact keeps_throw _
  | slidingFeatureView => exact keeps_bind (hget _) fun _ => keeps_ofExcept _
  | derivedFeatureView =>
    exact keeps_bind (hget _) fun _ =>
      keeps_bind (resolveJoinTables_keeps hget _ _) fun _ => keeps_ofExcept _

/-- A `_get_table` call keeps every binding it starts from: it writes only the name it missed,
and the compile in between keeps the bindings by induction. -/
theorem keeps_getTable (fuel : Nat) (features : TableDescriptor) :
    (getTable registry fuel features).Keeps := by
  induction fuel generalizing features with
  | zero => intro σ r σ' h; cases h
  | succ fuel ih =>
    intro σ r σ' hget
    rw [getTable_succ] at hget
    split at hget
    · -- a hit: the cache is left as it is
      cases hget
      exact Extends.refl σ
    · -- a miss: the compile keeps the bindings, and the write is at the missed name
      rename_i hmiss
      have hc := @compileTableDescriptor_keeps registry _ ih features σ
      split at hget
      · cases hget
      · cases hget
        exact hc _ _ ‹_›
      · cases hget
        intro name entry h
        have hne : name ≠ features.name := fun hn => by rw [hn, hmiss] at h; cases h
        rw [Dict.get?_insert, if_neg hne]
        exact hc _ _ ‹_› name entry h

theorem keeps_getKeyTable (fuel : Nat) (keys : Keys) : (getKeyTable registry fuel keys).Keeps := by
  cases keys with
  | dataFrame => exact keeps_pure _
  | descriptor d => exact keeps_getTable fuel d

theorem keeps_filterTableByKeys (fuel : Nat) (table : Plan) (keys : Keys) :
    (filterTableByKeys registry fuel table keys).Keeps :=
  keeps_bind (keeps_getKeyTable _ _) fun _ => keeps_ofExcept _

theorem keeps_build (fuel : Nat) (features : TableDescriptor) (keys : Option Keys)
    (startDatetime endDatetime : Option Datetime) :
    (build registry fuel features keys startDatetime endDatetime).Keeps := by
  unfold build
  split
  · exact keeps_throw _
  refine keeps_bind (keeps_getTable _ _) fun table => keeps_bind ?_ fun _ =>
    keeps_bind (keeps_ofExcept _) fun _ => keeps_pure _
  cases keys with
  | none => exact keeps_pure _
  | some keys => exact keeps_filterTableByKeys _ _ _

/-- Every binding of `_built_tables` when a `build` call starts is still there, unchanged, when
it returns or raises. -/
theorem build_keeps_bindings (registry : Registry) (fuel : Nat) (features : TableDescriptor)
    (keys : Option Keys) (startDatetime endDatetime : Option Datetime) {σ σ' : Cache}
    {r : Except BuildError Plan} {name : String} {entry : TableDescriptor × Plan}
    (hbound : σ.get? name = some entry)
    (h : build registry fuel features keys startDatetime endDatetime σ = some (r, σ')) :
    σ'.get? name = some entry :=
  keeps_build fuel features keys startDatetime endDatetime σ r σ' h name entry hbound

end Calls

/-- A view `y` over the feature table `x`. -/
def viewY : TableDescriptor := .derivedFeatureView "y" sourceX [] true (some "ts") "epoch" false

/-- The cache with `x` bound to its table. -/
def sessionX : Cache := Dict.empty.insert "x" (sourceX, .source sourceX)

theorem build_keeps_bindings_viewY :
    sessionX.get? "x" = some (sourceX, .source sourceX) ∧
    ∃ r σ', build emptyRegistry 2 viewY none none none sessionX = some (r, σ') ∧
      σ'.get? "x" = some (sourceX, .source sourceX) :=
  ⟨rfl, _, _, rfl,
    @build_keeps_bindings emptyRegistry 2 viewY none none none sessionX _ _ "x" _ rfl rfl⟩

/-! ## A build that returned, repeated -/

section Repeat

variable {registry : Registry}

/-- A call that returns leaves its descriptor bound to the table it returned: a hit on the same
descriptor was bound already, and a miss writes it. -/
theorem getTable_bound_of_ok {fuel : Nat} {features : TableDescriptor} {σ σ' : Cache}
    {table : Plan} (h : getTable registry fuel features σ = some (.ok table, σ')) :
    σ'.get? features.name = some (features, table) := by
  cases fuel with
  | zero => cases h
  | succ fuel =>
    rw [getTable_succ] at h
    split at h
    · -- a hit returns only the table bound to an equal descriptor
      rename_i cached _ hhit
      split at h
      · cases h
      · obtain rfl : features = cached := not_not.1 ‹_›
        cases h
        exact hhit
    · split at h
      · cases h
      · cases h
      · cases h
        simp

theorem stable_getTable (fuel : Nat) (features : TableDescriptor) :
    (getTable registry fuel features).Stable := by
  intro σ table σ' h σ'' hext
  cases fuel with
  | zero => cases h
  | succ fuel => exact getTable_succ_of_hit (hext _ _ (getTable_bound_of_ok h))

theorem stable_getKeyTable (fuel : Nat) (keys : Keys) : (getKeyTable registry fuel keys).Stable := by
  cases keys with
  | dataFrame => exact stable_pure _
  | descriptor d => exact stable_getTable fuel d

theorem stable_build (fuel : Nat) (features : TableDescriptor) (keys : Option Keys)
    (startDatetime endDatetime : Option Datetime) :
    (build registry fuel features keys startDatetime endDatetime).Stable := by
  unfold build
  split
  · intro σ a σ' h
    cases h
  -- the time range and the drop neither read nor write the cache
  have htail : ∀ table : Plan,
      (ofExcept (rangeByTime features table startDatetime endDatetime) >>=
        fun table => (pure (dropEventTime table) : Build Plan)).Stable ∧
      (ofExcept (rangeByTime features table startDatetime endDatetime) >>=
        fun table => (pure (dropEventTime table) : Build Plan)).Keeps := fun _ =>
    ⟨stable_bind (stable_ofExcept _) (fun _ => stable_pure _) fun _ => keeps_pure _,
      keeps_bind (keeps_ofExcept _) fun _ => keeps_pure _⟩
  cases keys with
  | none =>
    exact stable_bind (stable_getTable _ _)
      (fun _ => stable_bind (stable_pure _) (fun t => (htail t).1) fun t => (htail t).2)
      fun _ => keeps_bind (keeps_pure _) fun t => (htail t).2
  | some keys =>
    have hkey : ∀ table, (filterTableByKeys registry fuel table keys).Stable := fun _ =>
      stable_bind (stable_getKeyTable _ _) (fun _ => stable_ofExcept _) fun _ => keeps_ofExcept _
    exact stable_bind (stable_getTable _ _)
      (fun _ => stable_bind (hkey _) (fun t => (htail t).1) fun t => (htail t).2)
      fun _ => keeps_bind (keeps_filterTableByKeys _ _ _) fun t => (htail t).2

/-- A build that returned a table, made again with the same arguments at any later point of the
session (on any cache that keeps the bindings it left, as every later call does), is a hit at
its `_get_table` calls: it returns the same table and writes nothing. -/
theorem build_repeat {fuel : Nat} {features : TableDescriptor} {keys : Option Keys}
    {startDatetime endDatetime : Option Datetime} {σ σ' σ'' : Cache} {plan : Plan}
    (h : build registry fuel features keys startDatetime endDatetime σ = some (.ok plan, σ'))
    (hlater : ∀ name entry, σ'.get? name = some entry → σ''.get? name = some entry) :
    build registry fuel features keys startDatetime endDatetime σ'' = some (.ok plan, σ'') :=
  stable_build fuel features keys startDatetime endDatetime σ plan σ' h σ'' hlater

/-- A build that returned leaves its descriptor bound: the call on it bound it, and the key
step after it keeps the binding. -/
theorem build_bound_of_ok {fuel : Nat} {features : TableDescriptor} {keys : Option Keys}
    {startDatetime endDatetime : Option Datetime} {σ σ' : Cache} {plan : Plan}
    (h : build registry fuel features keys startDatetime endDatetime σ = some (.ok plan, σ')) :
    ∃ table, σ'.get? features.name = some (features, table) := by
  unfold build at h
  split at h
  · cases h
  rcases bind_eq_some h with ⟨_, -, ⟨⟩⟩ | ⟨table, σ₁, ht, h⟩
  refine ⟨table, (keeps_bind ?_ fun _ => keeps_bind (keeps_ofExcept _) fun _ => keeps_pure _)
    σ₁ _ σ' h _ _ (getTable_bound_of_ok ht)⟩
  cases keys with
  | none => exact keeps_pure _
  | some keys => exact keeps_filterTableByKeys _ _ _

theorem getTable_succ_of_conflict {fuel : Nat} {features cached : TableDescriptor} {σ : Cache}
    {table : Plan} (h : σ.get? features.name = some (cached, table)) (hne : features ≠ cached) :
    getTable registry (fuel + 1) features σ =
      some (.error (.conflictingDescriptor features cached), σ) := by
  rw [getTable_succ, h]
  simp [hne]

/-- Once a build of `features` has returned, a build of another descriptor of the same name, at
any later point of the session and with any keys and bounds, raises the conflict naming the two
and writes nothing; only an unresolved view is rejected before. -/
theorem build_conflicts_after_build {fuel fuel' : Nat} {features other : TableDescriptor}
    {keys keys' : Option Keys} {startDatetime endDatetime start' end' : Option Datetime}
    {σ σ' σ'' : Cache} {plan : Plan}
    (h : build registry fuel features keys startDatetime endDatetime σ = some (.ok plan, σ'))
    (hlater : ∀ name entry, σ'.get? name = some entry → σ''.get? name = some entry)
    (hname : other.name = features.name) (hne : other ≠ features)
    (hresolved : other.isUnresolvedFeatureView = false) :
    build registry (fuel' + 1) other keys' start' end' σ'' =
      some (.error (.conflictingDescriptor other features), σ'') := by
  obtain ⟨table, hbound⟩ := build_bound_of_ok h
  unfold build
  rw [if_neg (by rw [hresolved]; decide)]
  exact bind_of_error (getTable_succ_of_conflict (by rw [hname]; exact hlater _ _ hbound) hne)

end Repeat

theorem build_repeat_viewY :
    ∃ plan σ', build emptyRegistry 2 viewY none none none Dict.empty = some (.ok plan, σ') ∧
      build emptyRegistry 2 viewY none none none σ' = some (.ok plan, σ') :=
  ⟨_, _, rfl, @build_repeat emptyRegistry 2 viewY none none none Dict.empty _ _ _ rfl
    fun _ _ h => h⟩

theorem build_conflicts_after_build_viewX :
    ∃ plan, build emptyRegistry 1 sourceX none none none Dict.empty = some (.ok plan, sessionX) ∧
      viewX.name = sourceX.name ∧ viewX ≠ sourceX ∧ viewX.isUnresolvedFeatureView = false ∧
      build emptyRegistry 1 viewX none none none sessionX =
        some (.error (.conflictingDescriptor viewX sourceX), sessionX) :=
  ⟨_, rfl, rfl, by decide, rfl, @build_conflicts_after_build emptyRegistry 1 0 sourceX viewX none
    none none none none none Dict.empty sessionX sessionX _ rfl (fun _ _ h => h) rfl (by decide)
    rfl⟩

end Feathub
