import Feathub.Descriptor

/-!
# DependentFeatures — `_get_dependent_features`

The resolver lists, for each declared feature of a view in order, first those of its input
features that are not listed yet and then the feature itself when it is not listed yet.

It looks one level deep: an input's own inputs are not added, and a declared feature that
was already listed as the input of an earlier one keeps that earlier place, so its inputs can
come after it. What it does guarantee is proved here:

* `getDependentFeatures_nodup` : no feature is listed twice;
* `mem_getDependentFeatures` : the listed features are the declared ones and their direct
  inputs;
* `getDependentFeatures_input_before` : a declared feature not listed before its own turn
  comes after all of its inputs.
-/

namespace Feathub

/-- One turn of the loop of `_get_dependent_features`. -/
def addDependentFeature (dependentFeatures : List Feature) (feature : Feature) :
    List Feature :=
  appendIfAbsent (feature.inputFeatures.foldl appendIfAbsent dependentFeatures) feature

/-- `_get_dependent_features(feature_view)`. -/
def getDependentFeatures (featureView : TableDescriptor) : List Feature :=
  featureView.resolvedFeatures.foldl addDependentFeature []

section Loop

variable {acc : List Feature} {feature g : Feature}

theorem mem_addDependentFeature :
    g ∈ addDependentFeature acc feature ↔
      g ∈ acc ∨ g ∈ feature.inputFeatures ∨ g = feature := by
  simp [addDependentFeature, mem_appendIfAbsent, mem_foldl_appendIfAbsent, or_assoc]

theorem prefix_addDependentFeature (acc : List Feature) (feature : Feature) :
    acc <+: addDependentFeature acc feature :=
  (prefix_foldl_appendIfAbsent _ _).trans (prefix_appendIfAbsent _ _)

theorem nodup_addDependentFeature (h : acc.Nodup) : (addDependentFeature acc feature).Nodup :=
  nodup_appendIfAbsent _ (nodup_foldl_appendIfAbsent _ h)

/-- A feature new to the list is appended after every one of its inputs. -/
theorem input_before_addDependentFeature (hnew : feature ∉ acc)
    (hg : g ∈ feature.inputFeatures) :
    List.Sublist [g, feature] (addDependentFeature acc feature) := by
  set inputs := feature.inputFeatures.foldl appendIfAbsent acc
  have hself : feature ∉ inputs := fun hmem =>
    (mem_foldl_appendIfAbsent.1 hmem).elim hnew fun hin => by
      have := List.sizeOf_lt_of_mem hin
      cases feature
      simp only [Feature.mk.sizeOf_spec] at this
      omega
  have hginputs : g ∈ inputs := mem_foldl_appendIfAbsent.2 (.inr hg)
  simp only [addDependentFeature, appendIfAbsent, hself, if_false]
  exact (List.singleton_sublist.2 hginputs).append (List.Sublist.refl [feature])

end Loop

section Fold

variable {declared : List Feature} {acc : List Feature} {g : Feature}

theorem mem_foldl_addDependentFeature :
    g ∈ declared.foldl addDependentFeature acc ↔
      g ∈ acc ∨ g ∈ declared ∨ ∃ f ∈ declared, g ∈ f.inputFeatures := by
  induction declared generalizing acc with
  | nil => simp
  | cons f fs ih =>
    rw [List.foldl_cons, ih, mem_addDependentFeature, List.exists_mem_cons_iff, List.mem_cons]
    generalize (∃ x ∈ fs, g ∈ x.inputFeatures) = later
    tauto

theorem prefix_foldl_addDependentFeature (declared acc : List Feature) :
    acc <+: declared.foldl addDependentFeature acc := by
  induction declared generalizing acc with
  | nil => exact List.prefix_refl acc
  | cons f fs ih => exact (prefix_addDependentFeature acc f).trans (ih _)

theorem nodup_foldl_addDependentFeature (h : acc.Nodup) :
    (declared.foldl addDependentFeature acc).Nodup := by
  induction declared generalizing acc with
  | nil => exact h
  | cons f fs ih => exact ih (nodup_addDependentFeature h)

end Fold

theorem getDependentFeatures_nodup (featureView : TableDescriptor) :
    (getDependentFeatures featureView).Nodup :=
  nodup_foldl_addDependentFeature List.nodup_nil

theorem mem_getDependentFeatures (featureView : TableDescriptor) (g : Feature) :
    g ∈ getDependentFeatures featureView ↔
      g ∈ featureView.resolvedFeatures ∨
        ∃ f ∈ featureView.resolvedFeatures, g ∈ f.inputFeatures := by
  simp [getDependentFeatures, mem_foldl_addDependentFeature]

/-- A declared feature that is neither an earlier declared feature nor an input of one comes
after each of its inputs. -/
theorem getDependentFeatures_input_before (featureView : TableDescriptor)
    (earlier later : List Feature) (f : Feature)
    (hsplit : featureView.resolvedFeatures = earlier ++ f :: later)
    (hfresh : f ∉ earlier ∧ ∀ h ∈ earlier, f ∉ h.inputFeatures)
    (g : Feature) (hg : g ∈ f.inputFeatures) :
    List.Sublist [g, f] (getDependentFeatures featureView) := by
  have hnew : f ∉ earlier.foldl addDependentFeature [] := by
    simpa [mem_foldl_addDependentFeature] using hfresh
  rw [getDependentFeatures, hsplit, List.foldl_append, List.foldl_cons]
  exact (input_before_addDependentFeature hnew hg).trans
    (prefix_foldl_addDependentFeature _ _).sublist

/-- The resolver's contract: every listed feature once; exactly the declared features and
their direct inputs; and each input of a declared feature that is new at its own turn listed
before it. -/
theorem getDependentFeatures_contract (featureView : TableDescriptor) :
    (getDependentFeatures featureView).Nodup ∧
    (∀ g, g ∈ getDependentFeatures featureView ↔
      g ∈ featureView.resolvedFeatures ∨
        ∃ f ∈ featureView.resolvedFeatures, g ∈ f.inputFeatures) ∧
    (∀ earlier later f, featureView.resolvedFeatures = earlier ++ f :: later →
      f ∉ earlier → (∀ h ∈ earlier, f ∉ h.inputFeatures) →
      ∀ g ∈ f.inputFeatures, List.Sublist [g, f] (getDependentFeatures featureView)) :=
  ⟨getDependentFeatures_nodup featureView, mem_getDependentFeatures featureView,
    fun earlier later f hsplit hnot hnotin g hg =>
      getDependentFeatures_input_before featureView earlier later f hsplit ⟨hnot, hnotin⟩
        g hg⟩

/-! ## A chain of expressions

`a` reads `b`, `b` reads `c` and `c` reads `d`; the view declares `a` and then `b`. -/

/-- An integer expression feature over the given inputs. -/
def chainFeature (name expr : String) (inputs : List Feature) : Feature :=
  ⟨name, ⟨"BIGINT"⟩, .expression expr, none, inputs⟩

/-- The view declaring `a = b + 1` and `b = c + 1`, where `c = d + 1` and `d = 1`. -/
def chainView : TableDescriptor :=
  let d := chainFeature "d" "1" []
  let c := chainFeature "c" "d + 1" [d]
  let b := chainFeature "b" "c + 1" [c]
  .derivedFeatureView "chain" (.featureTable "events" ["id"] (some "ts") "epoch")
    [chainFeature "a" "b + 1" [b], b] false (some "ts") "epoch" false

/-- The first declared feature, `a`, comes after its input `b`. -/
theorem getDependentFeatures_contract_chainView :
    let b := chainFeature "b" "c + 1" [chainFeature "c" "d + 1" [chainFeature "d" "1" []]]
    List.Sublist [b, chainFeature "a" "b + 1" [b]] (getDependentFeatures chainView) :=
  (getDependentFeatures_contract chainView).2.2 [] _ _ rfl (List.not_mem_nil _)
    (fun _ h => absurd h (List.not_mem_nil _)) _ (List.mem_singleton_self _)

/-- The resolver lists `[b, a, c]`: `b` comes before its own input `c`, and `d`, an input of
`c`, is not listed at all. -/
theorem getDependentFeatures_chainView :
    let d := chainFeature "d" "1" []
    let c := chainFeature "c" "d + 1" [d]
    let b := chainFeature "b" "c + 1" [c]
    getDependentFeatures chainView = [b, chainFeature "a" "b + 1" [b], c] ∧
      c ∈ b.inputFeatures ∧ d ∈ c.inputFeatures ∧ d ∉ getDependentFeatures chainView := by
  decide

end Feathub
