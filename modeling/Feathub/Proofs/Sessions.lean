import Feathub.Proofs.Uncached

/-!
# Sessions — builds on one builder

A builder keeps `_built_tables` across `build` calls, so a build runs on whatever the earlier
ones, successful or failed, left there. This module shows that such a cache is always valid,
and that a build returns what a fresh builder returns as long as the descriptors it can meet,
together with those bound in the cache, have distinct names:

* `History` : the caches a session can leave;
* `CacheValid.of_history` : each of them is valid;
* `build_transfer` : one build, from two valid caches;
* `build_independent_of_history` : a build agrees with a fresh builder.

The descriptors a build meets include those reached from its key set when that is a
descriptor: `build(d, keys=K)` compiles `K` through `_get_table` as well.
-/

namespace Feathub

open Build

/-- The descriptor a key set is, when it is one. -/
def keyDescriptor : Option Keys → Option TableDescriptor
  | some (.descriptor d) => some d
  | _ => none

/-- The caches a builder can hold: the empty one, and every one a `build` call leaves from one
of them, whatever it returned. -/
inductive History (registry : Registry) : Cache → Prop
  | fresh : History registry Dict.empty
  | step {σ σ' : Cache} {fuel : Nat} {features : TableDescriptor} {keys : Option Keys}
      {startDatetime endDatetime : Option Datetime} {r : Except BuildError Plan} :
      History registry σ →
      build registry fuel features keys startDatetime endDatetime σ = some (r, σ') →
      History registry σ'

section Sessions

variable {registry : Registry}

theorem cacheValid_empty : CacheValid registry Dict.empty := fun _ _ _ h => nomatch h

/-- What `build` does after its `_get_table` calls does not touch the cache. -/
theorem build_tail_stateFree (features : TableDescriptor)
    (startDatetime endDatetime : Option Datetime) (table : Plan) :
    (ofExcept (rangeByTime features table startDatetime endDatetime) >>= fun table =>
      (pure (dropEventTime table) : Build Plan)).StateFree :=
  stateFree_bind (stateFree_ofExcept _) fun _ => stateFree_pure _

/-- Every build from a valid cache leaves a valid cache. -/
theorem build_keeps_valid {fuel : Nat} {features : TableDescriptor} {keys : Option Keys}
    {startDatetime endDatetime : Option Datetime} {σ σ' : Cache} {r : Except BuildError Plan}
    (hσ : CacheValid registry σ)
    (h : build registry fuel features keys startDatetime endDatetime σ = some (r, σ')) :
    CacheValid registry σ' := by
  unfold build at h
  split at h
  · cases h
    exact hσ
  rcases bind_eq_some h with ⟨_, he, -⟩ | ⟨table, σ₁, ht, h⟩
  · exact (getTable_sound fuel _ σ _ σ' hσ he).1
  have hσ₁ := (getTable_sound fuel _ σ _ σ₁ hσ ht).1
  have htail := build_tail_stateFree features startDatetime endDatetime
  rcases keys with _ | (_ | keys)
  · exact (stateFree_bind (stateFree_pure _) htail).cache_eq h ▸ hσ₁
  · exact (stateFree_bind (stateFree_bind (stateFree_pure _) fun _ => stateFree_ofExcept _)
      htail).cache_eq h ▸ hσ₁
  · simp only [filterTableByKeys, getKeyTable, bind_assoc] at h
    rcases bind_eq_some h with ⟨_, he, -⟩ | ⟨keyTable, σ₂, hk, h⟩
    · exact (getTable_sound fuel _ σ₁ _ σ' hσ₁ he).1
    · exact (stateFree_bind (stateFree_ofExcept _) htail).cache_eq h ▸
        (getTable_sound fuel _ σ₁ _ σ₂ hσ₁ hk).1

/-- Every cache a session leaves is valid. -/
theorem CacheValid.of_history {σ : Cache} (h : History registry σ) : CacheValid registry σ := by
  induction h with
  | fresh => exact cacheValid_empty
  | step _ hbuild ih => exact build_keeps_valid ih hbuild

/-- One build from two valid caches: when the cache binds and the build reaches only
descriptors of `U`, whose names are distinct, the two return the same. -/
theorem build_transfer {U : TableDescriptor → Prop} (hU : NamesUnique U) {fuel : Nat}
    {features : TableDescriptor} {keys : Option Keys}
    {startDatetime endDatetime : Option Datetime} {σ σ' τ : Cache} {r : Except BuildError Plan}
    (hσ : CacheValid registry σ) (hσU : ∀ e, Bound σ e → U e)
    (hτ : CacheValid registry τ) (hτU : ∀ e, Bound τ e → U e)
    (hreach : ∀ e, Reaches registry features e → U e)
    (hkeys : ∀ K, keyDescriptor keys = some K → ∀ e, Reaches registry K e → U e)
    (h : build registry fuel features keys startDatetime endDatetime σ = some (r, σ')) :
    ∃ fuel' τ', build registry fuel' features keys startDatetime endDatetime τ =
      some (r, τ') := by
  unfold build at h ⊢
  split at h
  · cases h
    exact ⟨0, τ, by rw [if_pos ‹_›]; rfl⟩
  rename_i hresolved
  simp only [hresolved, if_false]
  rcases bind_eq_some h with ⟨e, he, rfl⟩ | ⟨table, σ₁, ht, h⟩
  · obtain ⟨fuel', τ', hcall⟩ := getTable_transfer hU hσ hσU hτ hτU hreach he
    exact ⟨fuel', τ', bind_of_error hcall⟩
  obtain ⟨fuel₁, τ₁, hcall⟩ := getTable_transfer hU hσ hσU hτ hτU hreach ht
  have htail := build_tail_stateFree features startDatetime endDatetime
  rcases keys with _ | (_ | keys)
  · exact ⟨fuel₁, τ₁, (bind_of_ok hcall).trans
      ((stateFree_bind (stateFree_pure _) htail).transfer h τ₁)⟩
  · exact ⟨fuel₁, τ₁, (bind_of_ok hcall).trans ((stateFree_bind (stateFree_bind
      (stateFree_pure _) fun _ => stateFree_ofExcept _) htail).transfer h τ₁)⟩
  · simp only [filterTableByKeys, getKeyTable, bind_assoc] at h ⊢
    obtain ⟨hσ₁, hσ₁U⟩ := getTable_keeps hσ hσU hreach ht
    obtain ⟨hτ₁, hτ₁U⟩ := getTable_keeps hτ hτU hreach hcall
    have hkreach := hkeys keys rfl
    have hfirst := fun fuel₂ => getTable_mono (le_max_left fuel₁ fuel₂) features τ _ hcall
    rcases bind_eq_some h with ⟨e, he, rfl⟩ | ⟨keyTable, σ₂, hk, h⟩
    · obtain ⟨fuel₂, τ₂, hkcall⟩ :=
        getTable_transfer hU hσ₁ hσ₁U hτ₁ hτ₁U hkreach he
      exact ⟨max fuel₁ fuel₂, τ₂, (bind_of_ok (hfirst fuel₂)).trans
        (bind_of_error (getTable_mono (le_max_right _ _) keys τ₁ _ hkcall))⟩
    · obtain ⟨fuel₂, τ₂, hkcall⟩ :=
        getTable_transfer hU hσ₁ hσ₁U hτ₁ hτ₁U hkreach hk
      exact ⟨max fuel₁ fuel₂, τ₂, (bind_of_ok (hfirst fuel₂)).trans
        ((bind_of_ok (getTable_mono (le_max_right _ _) keys τ₁ _ hkcall)).trans
          ((stateFree_bind (stateFree_ofExcept _) htail).transfer h τ₂))⟩

end Sessions

/-- The cache changes only how often a descriptor is compiled. After any session, a build whose
descriptors, those its key set reaches included, have names distinct from each other and from
those bound in the cache returns what it returns on a fresh builder, or raises what it raises
there. -/
theorem build_independent_of_history (registry : Registry) {σ : Cache}
    (hσ : History registry σ) (features : TableDescriptor) (keys : Option Keys)
    (startDatetime endDatetime : Option Datetime)
    (hunique : NamesUnique fun e => Bound σ e ∨ Reaches registry features e ∨
      ∃ K, keyDescriptor keys = some K ∧ Reaches registry K e)
    (r : Except BuildError Plan) :
    (∃ fuel σ', build registry fuel features keys startDatetime endDatetime σ = some (r, σ')) ↔
      ∃ fuel σ', build registry fuel features keys startDatetime endDatetime Dict.empty =
        some (r, σ') := by
  have hvalid := CacheValid.of_history hσ
  have hempty : ∀ e, Bound Dict.empty e → False := fun _ ⟨_, he⟩ => nomatch he
  constructor
  · rintro ⟨_, _, h⟩
    exact build_transfer hunique hvalid (fun _ => .inl) cacheValid_empty
      (fun e he => (hempty e he).elim) (fun _ => .inr ∘ .inl)
      (fun K hK _ he => .inr (.inr ⟨K, hK, he⟩)) h
  · rintro ⟨_, _, h⟩
    exact build_transfer hunique cacheValid_empty (fun e he => (hempty e he).elim) hvalid
      (fun _ => .inl) (fun _ => .inr ∘ .inl) (fun K hK _ he => .inr (.inr ⟨K, hK, he⟩)) h


/-! ## A key set named like a bound table -/

/-- VIP users with their tier. -/
def vipUsersTiered : TableDescriptor := .featureTable "vip_users" ["user_id", "tier"] none "epoch"

/-- VIP users by id alone, under the same name. -/
def vipUsers : TableDescriptor := .featureTable "vip_users" ["user_id"] none "epoch"

/-- Orders by user. -/
def userOrders : TableDescriptor := .featureTable "orders" ["user_id", "ts"] (some "ts") "epoch"

/-- The cache `build(vipUsersTiered)` leaves on a fresh builder. -/
def vipSession : Cache := Dict.empty.insert "vip_users" (vipUsersTiered, .source vipUsersTiered)

theorem history_vipSession : History emptyRegistry vipSession :=
  .step .fresh (show build emptyRegistry 1 vipUsersTiered none none none Dict.empty =
    some (_, vipSession) from rfl)

theorem eq_of_bound_vipSession {e : TableDescriptor} (h : Bound vipSession e) :
    e = vipUsersTiered := by
  obtain ⟨table, h⟩ := h
  simp only [vipSession, Dict.get?_insert, Dict.get?_empty] at h
  split_ifs at h
  cases h
  rfl

/-- A feature table reaches nothing but itself. -/
theorem eq_of_reaches_featureTable {registry : Registry} {name : String} {fieldNames : List String}
    {timestampField : Option String} {timestampFormat : String} {e : TableDescriptor}
    (h : Reaches registry (.featureTable name fieldNames timestampField timestampFormat) e) :
    e = .featureTable name fieldNames timestampField timestampFormat := by
  rcases Relation.ReflTransGen.cases_head h with h | ⟨_, hchild, _⟩
  · exact h.symm
  · exact absurd hchild (List.not_mem_nil _)

theorem namesUnique_vipSession :
    NamesUnique fun e => Bound vipSession e ∨ Reaches emptyRegistry userOrders e := by
  have hin : ∀ e, Bound vipSession e ∨ Reaches emptyRegistry userOrders e →
      e = vipUsersTiered ∨ e = userOrders :=
    fun e he => he.imp eq_of_bound_vipSession eq_of_reaches_featureTable
  intro d d' hd hd' hname
  rcases hin d hd with rfl | rfl <;> rcases hin d' hd' with rfl | rfl <;>
    first | rfl | exact absurd hname (by decide)

/-- After `build(vipUsersTiered)`, the names bound in the cache and the names `userOrders`
reaches each stand for one descriptor, yet `build(userOrders, keys=vipUsers)` raises the
conflict on the key set, which a fresh builder compiles. -/
theorem key_set_conflicts_with_history :
    History emptyRegistry vipSession ∧
    NamesUnique (fun e => Bound vipSession e ∨ Reaches emptyRegistry userOrders e) ∧
    build emptyRegistry 1 userOrders (some (.descriptor vipUsers)) none none vipSession =
      some (.error (.conflictingDescriptor vipUsers vipUsersTiered),
        vipSession.insert "orders" (userOrders, .source userOrders)) ∧
    ∃ table σ', build emptyRegistry 1 userOrders (some (.descriptor vipUsers)) none none
      Dict.empty = some (.ok table, σ') :=
  ⟨history_vipSession, namesUnique_vipSession, rfl, _, _, rfl⟩

theorem build_independent_of_history_vipSession :
    (∃ fuel σ', build emptyRegistry fuel userOrders none none none vipSession =
      some (.ok (dropEventTime (.source userOrders)), σ')) ↔
    ∃ fuel σ', build emptyRegistry fuel userOrders none none none Dict.empty =
      some (.ok (dropEventTime (.source userOrders)), σ') :=
  build_independent_of_history emptyRegistry history_vipSession userOrders none none none
    (fun d d' hd hd' => namesUnique_vipSession d d'
      (hd.imp_right fun h => h.resolve_right fun ⟨_, hK, _⟩ => nomatch hK)
      (hd'.imp_right fun h => h.resolve_right fun ⟨_, hK, _⟩ => nomatch hK)) _

end Feathub
