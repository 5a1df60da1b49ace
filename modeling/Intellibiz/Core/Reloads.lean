import Intellibiz.Machine
import Intellibiz.Core.FailedLoad
import Intellibiz.Core.Loading

/-!
# Many loads of one registry

`loadAll` awaits behind every plugin (`packages/core/src/plugin/registry.ts`), so calls on one
registry interleave, and a call that is rejected leaves the registry to the others as it is.

* `loads` — any number of calls of `loadAll` on one registry, interleaved at their awaits.
* `Retained` — the loaded plugins still have what they were given and what they made.
* `HalfBuilt` — a plugin that is not loaded and holds one of its namespaced keys.

Principal results: `load_get` (a service is never replaced), `load_kept` and from it `loads_kept`;
`load_halfBuilt` (such a plugin is refused) and from it `halfBuilt_never_loaded`.
-/

namespace Intellibiz.Core

variable {V : Type}

/-! ## Calls of `loadAll` -/

inductive Progress (V : Type) where
  /-- Behind an `await`, with these plugins still to load. -/
  | loading (rest : List (PluginDefinition V))
  | resolved
  | rejected (err : PluginError)

structure LoadCall (V : Type) where
  plugins : List (PluginDefinition V)
  progress : Progress V

structure Loads (V : Type) where
  registry : PluginRegistry V
  calls : List (LoadCall V)

inductive LoadEvent (V : Type) where
  | loadAll (plugins : List (PluginDefinition V))
  | resume (i : ℕ)

/-- The loop of `loadAll` up to its next `await`. -/
def loadNext : List (PluginDefinition V) → PluginRegistry V → Progress V × PluginRegistry V
  | [], registry => (.resolved, registry)
  | plugin :: plugins, registry =>
    match load plugin registry with
    | (.error err, registry) => (.rejected err, registry)
    | (.ok (), registry) => (.loading plugins, registry)

namespace Loads

/-- `loadAll(plugins)` -/
def call (s : Loads V) (plugins : List (PluginDefinition V)) : Option (Loads V) :=
  match detectCircular plugins with
  | .error .cutOff => none
  | .error (.cycle vertices) =>
    some { s with calls := s.calls ++ [⟨plugins, .rejected (.circular vertices)⟩] }
  | .ok () =>
    let (progress, registry) := loadNext plugins s.registry
    some ⟨registry, s.calls ++ [⟨plugins, progress⟩]⟩

/-- The `await` of a call is over. -/
def resume (s : Loads V) (i : ℕ) : Option (Loads V) :=
  match s.calls[i]? with
  | some ⟨plugins, .loading rest⟩ =>
    let (progress, registry) := loadNext rest s.registry
    some ⟨registry, s.calls.set i ⟨plugins, progress⟩⟩
  | _ => none

end Loads

def loads (V : Type) : Machine (Loads V) (LoadEvent V) where
  init := ⟨⟨.empty, []⟩, []⟩
  step s
    | .loadAll plugins => s.call plugins
    | .resume i => s.resume i

/-! ## A service is never replaced -/

theorem withService_get {pluginName serviceName : String} {value v : V} {container : DIContainer V}
    {key : String} (hfree : container.has (pluginName ++ "." ++ serviceName) ≠ true)
    (h : container.get key = some v) :
    (container.withService pluginName serviceName value).get key = some v := by
  have hset : ∀ (c : DIContainer V) (k : String), c.has k ≠ true → c.get key = some v →
      (c.set k value).get key = some v := by
    intro c k hk hget
    rw [JsMap.get_set, if_neg]
    · exact hget
    · rintro rfl
      exact hk (by rw [JsMap.has, hget]; rfl)
  unfold DIContainer.withService
  dsimp only
  split
  · exact hset _ _ hfree h
  · rename_i hbare
    exact hset _ _ hbare (hset _ _ hfree h)

theorem registerServices_get {pluginName : String} {deps : JsMap String V} {key : String} {v : V}
    {services : List (String × Factory V)} {container container' : DIContainer V}
    {result : Except PluginError Unit}
    (h : registerServices pluginName deps services container = (result, container'))
    (hget : container.get key = some v) : container'.get key = some v := by
  induction services generalizing container with
  | nil =>
    cases h
    exact hget
  | cons service services ih =>
    rw [registerServices, registerService_eq] at h
    cases hfactory : service.2 deps with
    | error err =>
      rw [hfactory] at h
      cases h
      exact hget
    | ok value =>
      rw [hfactory] at h
      dsimp only at h
      by_cases hkey : container.has (pluginName ++ "." ++ service.1) = true
      · rw [if_pos hkey] at h
        cases h
        exact hget
      · rw [if_neg hkey] at h
        exact ih h (withService_get hkey hget)

/-- The ways in which a load ends. -/
inductive LoadOutcome (plugin : PluginDefinition V) (registry : PluginRegistry V) :
    Except PluginError Unit → PluginRegistry V → Prop where
  | passedOver (hname : plugin.name ∈ registry.loaded) :
    LoadOutcome plugin registry (.ok ()) registry
  /-- A dependency is not registered. -/
  | refused (hname : plugin.name ∉ registry.loaded) (err : PluginError) :
    LoadOutcome plugin registry (.error err) registry
  | failed (hname : plugin.name ∉ registry.loaded) (err : PluginError) (container : DIContainer V)
    (hservices : registerServices plugin.name
      (registry.container.sandboxedView plugin.dependencies) plugin.services.entries
      registry.container = (.error err, container)) :
    LoadOutcome plugin registry (.error err) { registry with container }
  | loaded (hname : plugin.name ∉ registry.loaded)
    (hdeps : plugin.dependencies.find? (fun dep => !registry.container.has dep) = none)
    (container : DIContainer V)
    (hservices : registerServices plugin.name
      (registry.container.sandboxedView plugin.dependencies) plugin.services.entries
      registry.container = (.ok (), container)) :
    LoadOutcome plugin registry (.ok ()) ⟨container, registry.loaded ++ [plugin.name]⟩

theorem load_outcome {plugin : PluginDefinition V} {registry registry' : PluginRegistry V}
    {result : Except PluginError Unit} (h : load plugin registry = (result, registry')) :
    LoadOutcome plugin registry result registry' := by
  unfold load at h
  split at h
  · rename_i hname
    cases h
    exact .passedOver hname
  · rename_i hname
    split at h
    · cases h
      exact .refused hname _
    · rename_i hdeps
      dsimp only at h
      split at h
      · rename_i hservices
        cases h
        exact .failed hname _ _ hservices
      · rename_i hservices
        cases h
        exact .loaded hname hdeps _ hservices

/-- **What a key is bound to stays**, whether the load succeeds or not. -/
theorem load_get {plugin : PluginDefinition V} {registry registry' : PluginRegistry V}
    {result : Except PluginError Unit} (h : load plugin registry = (result, registry'))
    {key : String} {v : V} (hget : registry.container.get key = some v) :
    registry'.container.get key = some v := by
  cases load_outcome h with
  | passedOver | refused => exact hget
  | failed hname err container hservices | loaded hname hdeps container hservices =>
    exact registerServices_get hservices hget

theorem load_has {plugin : PluginDefinition V} {registry registry' : PluginRegistry V}
    {result : Except PluginError Unit} (h : load plugin registry = (result, registry'))
    {key : String} (hhas : registry.container.has key = true) :
    registry'.container.has key = true := by
  obtain ⟨v, hv⟩ := Option.isSome_iff_exists.1 hhas
  exact Option.isSome_iff_exists.2 ⟨v, load_get h hv⟩

/-! ## What the loaded plugins keep -/

/-- The plugins that were loaded, with the views and the instances of that time: every dependency
is still bound to what the factories were given, and every instance is where it was registered. -/
structure Retained (registry : PluginRegistry V) (ls : List (LoadedPlugin V)) : Prop where
  names : registry.loaded = ls.map (·.plugin.name)
  nodup : registry.loaded.Nodup
  bound : ∀ l ∈ ls, ∀ dep ∈ l.plugin.dependencies,
    ∃ value, l.view.get dep = some value ∧ registry.container.get dep = some value
  own : ∀ l ∈ ls, ∀ made ∈ l.instances,
    registry.container.get (l.plugin.name ++ "." ++ made.1) = some made.2
  bare : ∀ l ∈ ls, ∀ made ∈ l.instances, registry.container.has made.1 = true

theorem retained_fresh : Retained (⟨.empty, []⟩ : PluginRegistry V) [] where
  names := rfl
  nodup := List.nodup_nil
  bound := by simp
  own := by simp
  bare := by simp

/-- A container that answers as before keeps the plugins. -/
theorem Retained.mono {registry registry' : PluginRegistry V} {ls : List (LoadedPlugin V)}
    (h : Retained registry ls) (hloaded : registry'.loaded = registry.loaded)
    (hget : ∀ key v, registry.container.get key = some v → registry'.container.get key = some v) :
    Retained registry' ls where
  names := hloaded.trans h.names
  nodup := by
    rw [hloaded]
    exact h.nodup
  bound l hl dep hdep := by
    obtain ⟨value, hview, hvalue⟩ := h.bound l hl dep hdep
    exact ⟨value, hview, hget dep value hvalue⟩
  own l hl made hmade := hget _ _ (h.own l hl made hmade)
  bare l hl made hmade := by
    obtain ⟨v, hv⟩ := Option.isSome_iff_exists.1 (h.bare l hl made hmade)
    exact Option.isSome_iff_exists.2 ⟨v, hget _ _ hv⟩

theorem answers_entries (container : DIContainer V) : Answers container container.entries := by
  intro key
  unfold JsMap.get
  induction container.entries with
  | nil => rfl
  | cons entry entries ih =>
    rw [List.find?_cons, List.lookup_cons, Bool.beq_comm]
    cases key == entry.1 with
    | true => rfl
    | false => exact ih

/-- **One load keeps what was loaded before**, and adds at most its own plugin. -/
theorem load_kept {plugin : PluginDefinition V} {registry registry' : PluginRegistry V}
    {result : Except PluginError Unit} {ls : List (LoadedPlugin V)} (hkept : Retained registry ls)
    (h : load plugin registry = (result, registry')) :
    ∃ new : List (LoadedPlugin V), Retained registry' (ls ++ new) ∧ ∀ l ∈ new, l.plugin = plugin := by
  have hget : ∀ key v, registry.container.get key = some v →
      registry'.container.get key = some v := fun key v => load_get h
  have hhas : ∀ key, registry.container.has key = true → registry'.container.has key = true :=
    fun key => load_has h
  cases load_outcome h with
  | passedOver | refused => exact ⟨[], by simpa using hkept, by simp⟩
  | failed hname err container hservices =>
    refine ⟨[], ?_, by simp⟩
    rw [List.append_nil]
    exact hkept.mono rfl hget
  | loaded hname hdeps container hservices =>
    obtain ⟨instances, hmade, hans, hown, -⟩ :=
      registerServices_ok (answers_entries registry.container) hservices
    let l : LoadedPlugin V := ⟨plugin, _, instances, view_keys_of_find hdeps, hmade⟩
    refine ⟨[l], ?_, by simp [l]⟩
    constructor
    · simp [hkept.names, l]
    · refine hkept.nodup.append (List.nodup_singleton _) ?_
      simpa using hname
    · intro other hother dep hdep
      rcases List.mem_append.1 hother with hother | hother
      · obtain ⟨value, hview, hvalue⟩ := hkept.bound other hother dep hdep
        exact ⟨value, hview, hget dep value hvalue⟩
      · obtain rfl := List.mem_singleton.1 hother
        have hkey : l.view.has dep = true := (l.view_keys dep).2 hdep
        obtain ⟨value, hvalue⟩ := Option.isSome_iff_exists.1 hkey
        refine ⟨value, hvalue, hget dep value ?_⟩
        rw [← hvalue]
        show _ = (registry.container.sandboxedView plugin.dependencies).get dep
        rw [get_sandboxedView, if_pos hdep]
    · intro other hother made hmem
      rcases List.mem_append.1 hother with hother | hother
      · exact hget _ _ (hkept.own other hother made hmem)
      · obtain rfl := List.mem_singleton.1 hother
        exact hown made hmem
    · intro other hother made hmem
      rcases List.mem_append.1 hother with hother | hother
      · exact hhas _ (hkept.bare other hother made hmem)
      · obtain rfl := List.mem_singleton.1 hother
        have hasked : made ∈ registrationsOf plugin.name instances :=
          List.mem_flatMap.2 ⟨made, hmem, by simp⟩
        rw [JsMap.has, hans, List.lookup_isSome_iff]
        exact ⟨made, List.mem_append_right _ hasked, by simp⟩

/-! ## Steps of a call -/

/-- What a call has done so far is loaded. -/
def LoadCall.Sound (registry : PluginRegistry V) (call : LoadCall V) : Prop :=
  match call.progress with
  | .loading rest => ∃ done, call.plugins = done ++ rest ∧
      ∀ plugin ∈ done, plugin.name ∈ registry.loaded
  | .resolved => ∀ plugin ∈ call.plugins, plugin.name ∈ registry.loaded
  | .rejected _ => True

theorem LoadCall.Sound.mono {registry registry' : PluginRegistry V} {call : LoadCall V}
    (h : call.Sound registry) (hloaded : registry.loaded ⊆ registry'.loaded) :
    call.Sound registry' := by
  obtain ⟨plugins, progress⟩ := call
  cases progress with
  | loading rest =>
    obtain ⟨done, hplugins, hdone⟩ := h
    exact ⟨done, hplugins, fun plugin hplugin => hloaded (hdone plugin hplugin)⟩
  | resolved => exact fun plugin hplugin => hloaded (h plugin hplugin)
  | rejected err => exact trivial

/-- **From one `await` to the next** there is one load at most. -/
theorem loadNext_cases {rest : List (PluginDefinition V)} {registry registry' : PluginRegistry V}
    {progress : Progress V} (h : loadNext rest registry = (progress, registry')) :
    (rest = [] ∧ progress = .resolved ∧ registry' = registry) ∨
      ∃ plugin later result, rest = plugin :: later ∧ load plugin registry = (result, registry') ∧
        ((∃ err, result = .error err ∧ progress = .rejected err) ∨
          (result = .ok () ∧ progress = .loading later)) := by
  cases rest with
  | nil =>
    cases h
    exact .inl ⟨rfl, rfl, rfl⟩
  | cons plugin later =>
    rw [loadNext] at h
    rcases hload : load plugin registry with ⟨err | _, next⟩
    · rw [hload] at h
      cases h
      exact .inr ⟨plugin, later, _, rfl, hload, .inl ⟨err, rfl, rfl⟩⟩
    · rw [hload] at h
      cases h
      exact .inr ⟨plugin, later, _, rfl, hload, .inr ⟨rfl, rfl⟩⟩

theorem loaded_of_load {plugin : PluginDefinition V} {registry registry' : PluginRegistry V}
    {result : Except PluginError Unit} (h : load plugin registry = (result, registry')) :
    registry.loaded ⊆ registry'.loaded := by
  have hsubset := load_loaded_subset plugin registry
  rw [h] at hsubset
  exact hsubset

theorem loadNext_sound {done rest : List (PluginDefinition V)}
    {registry registry' : PluginRegistry V} {progress : Progress V}
    (hdone : ∀ plugin ∈ done, plugin.name ∈ registry.loaded)
    (h : loadNext rest registry = (progress, registry')) :
    registry.loaded ⊆ registry'.loaded ∧
      LoadCall.Sound registry' ⟨done ++ rest, progress⟩ := by
  rcases loadNext_cases h with ⟨rfl, rfl, rfl⟩ | ⟨plugin, later, result, rfl, hload, hresult⟩
  · refine ⟨List.Subset.refl _, ?_⟩
    rw [List.append_nil]
    exact hdone
  · have hloaded := loaded_of_load hload
    refine ⟨hloaded, ?_⟩
    rcases hresult with ⟨err, rfl, rfl⟩ | ⟨rfl, rfl⟩
    · exact trivial
    · refine ⟨done ++ [plugin], by simp, fun other hother => ?_⟩
      rcases List.mem_append.1 hother with hother | hother
      · exact hloaded (hdone other hother)
      · obtain rfl := List.mem_singleton.1 hother
        exact load_ok_mem hload

/-- What holds in every state: the loaded plugins keep what they have, each was listed in a call,
and a call that resolved has all of its plugins loaded. -/
structure Loads.Sound (s : Loads V) (ls : List (LoadedPlugin V)) : Prop where
  kept : Retained s.registry ls
  listed : ∀ l ∈ ls, ∃ call ∈ s.calls, l.plugin ∈ call.plugins
  calls : ∀ call ∈ s.calls, call.Sound s.registry

/-- One step of a call that is new or replaces itself. -/
theorem Loads.Sound.next {s : Loads V} {ls : List (LoadedPlugin V)} (h : s.Sound ls)
    {done rest : List (PluginDefinition V)} {progress : Progress V} {registry' : PluginRegistry V}
    {calls : List (LoadCall V)} (hdone : ∀ plugin ∈ done, plugin.name ∈ s.registry.loaded)
    (hnext : loadNext rest s.registry = (progress, registry'))
    (hmem : ∀ call ∈ calls, call ∈ s.calls ∨ call = ⟨done ++ rest, progress⟩)
    (hplugins : ∀ call ∈ s.calls, ∃ call' ∈ calls, call'.plugins = call.plugins)
    (hself : ⟨done ++ rest, progress⟩ ∈ calls) :
    ∃ ls, Loads.Sound ⟨registry', calls⟩ ls := by
  obtain ⟨hloaded, hcall⟩ := loadNext_sound hdone hnext
  have hold : ∀ l ∈ ls, ∃ call ∈ calls, l.plugin ∈ call.plugins := by
    intro l hl
    obtain ⟨call, hcall, hlisted⟩ := h.listed l hl
    obtain ⟨call', hcall', hsame⟩ := hplugins call hcall
    exact ⟨call', hcall', hsame ▸ hlisted⟩
  have hcalls : ∀ call ∈ calls, call.Sound registry' := by
    intro call hmember
    rcases hmem call hmember with hmember | rfl
    · exact (h.calls call hmember).mono hloaded
    · exact hcall
  rcases loadNext_cases hnext with ⟨-, -, rfl⟩ | ⟨plugin, later, result, rfl, hload, -⟩
  · exact ⟨ls, h.kept, hold, hcalls⟩
  · obtain ⟨new, hkept, hnew⟩ := load_kept h.kept hload
    refine ⟨ls ++ new, hkept, fun l hl => ?_, hcalls⟩
    rcases List.mem_append.1 hl with hl | hl
    · exact hold l hl
    · exact ⟨_, hself, by simp [hnew l hl]⟩

/-- The ways in which a step of the machine goes. -/
inductive LoadStep (s : Loads V) : LoadEvent V → Loads V → Prop where
  | circular (plugins : List (PluginDefinition V)) (err : PluginError) :
    LoadStep s (.loadAll plugins) { s with calls := s.calls ++ [⟨plugins, .rejected err⟩] }
  | called (plugins : List (PluginDefinition V)) (progress : Progress V)
    (registry : PluginRegistry V) (hnext : loadNext plugins s.registry = (progress, registry)) :
    LoadStep s (.loadAll plugins) ⟨registry, s.calls ++ [⟨plugins, progress⟩]⟩
  | resumed (i : ℕ) (plugins rest : List (PluginDefinition V))
    (hcall : s.calls[i]? = some ⟨plugins, .loading rest⟩) (progress : Progress V)
    (registry : PluginRegistry V) (hnext : loadNext rest s.registry = (progress, registry)) :
    LoadStep s (.resume i) ⟨registry, s.calls.set i ⟨plugins, progress⟩⟩

theorem loads_step {s s' : Loads V} {e : LoadEvent V} (h : (loads V).step s e = some s') :
    LoadStep s e s' := by
  cases e with
  | loadAll plugins =>
    change s.call plugins = some s' at h
    unfold Loads.call at h
    split at h
    · cases h
    · cases h
      exact .circular plugins _
    · cases h
      exact .called plugins _ _ rfl
  | resume i =>
    change s.resume i = some s' at h
    unfold Loads.resume at h
    split at h
    · rename_i plugins rest hcall
      cases h
      exact .resumed i plugins rest hcall _ _ rfl
    · cases h

theorem sound_step {s s' : Loads V} {e : LoadEvent V} {ls : List (LoadedPlugin V)}
    (h : s.Sound ls) (hstep : LoadStep s e s') : ∃ ls, s'.Sound ls := by
  cases hstep with
  | circular plugins err =>
    refine ⟨ls, h.kept, fun l hl => ?_, fun call hcall => ?_⟩
    · obtain ⟨call, hcall, hlisted⟩ := h.listed l hl
      exact ⟨call, List.mem_append_left _ hcall, hlisted⟩
    · rcases List.mem_append.1 hcall with hcall | hcall
      · exact h.calls call hcall
      · obtain rfl := List.mem_singleton.1 hcall
        exact trivial
  | called plugins progress registry hnext =>
    have hnone : ∀ plugin ∈ ([] : List (PluginDefinition V)),
        plugin.name ∈ s.registry.loaded := by simp
    refine h.next hnone hnext ?_ ?_ ?_
    · simp
    · exact fun call hcall => ⟨call, List.mem_append_left _ hcall, rfl⟩
    · simp
  | resumed i plugins rest hcall progress registry hnext =>
    obtain ⟨done, rfl, hdone⟩ := h.calls _ (List.mem_of_getElem? hcall)
    have hself := List.mem_set (List.getElem?_eq_some_iff.1 hcall).1
      (⟨done ++ rest, progress⟩ : LoadCall V)
    refine h.next hdone hnext ?_ ?_ hself
    · intro call hmem
      rcases List.mem_or_eq_of_mem_set hmem with hmem | rfl
      · exact .inl hmem
      · exact .inr rfl
    · intro call hmem
      obtain ⟨j, hj⟩ := List.mem_iff_getElem?.1 hmem
      by_cases hij : i = j
      · subst hij
        rw [hcall] at hj
        cases hj
        exact ⟨_, hself, rfl⟩
      · refine ⟨call, List.mem_iff_getElem?.2 ⟨j, ?_⟩, rfl⟩
        rw [List.getElem?_set_ne hij, hj]

theorem loads_sound {es : List (LoadEvent V)} {s : Loads V} (hrun : (loads V).run es = some s) :
    ∃ ls, s.Sound ls := by
  refine Machine.run_induction (P := fun _ s => ∃ ls, Loads.Sound s ls) ?_ ?_ hrun
  · exact ⟨[], retained_fresh, by simp, by simp [loads]⟩
  · rintro es s e s' - ⟨ls, hs⟩ hstep
    exact sound_step hs (loads_step hstep)

/-- **The loaded plugins are left alone**, however calls of `loadAll` on one registry interleave and
whichever of them are rejected.  No name is loaded twice; every loaded plugin was listed in a call
and had its declared dependencies, no more and no less, and these are still bound to what its
factories were given; each of its instances was made by its own factory and is still found under the
namespaced key.  A call that resolved has all of its plugins loaded. -/
theorem loads_kept {es : List (LoadEvent V)} {s : Loads V} (hrun : (loads V).run es = some s) :
    s.registry.loaded.Nodup ∧
      (∃ ls : List (LoadedPlugin V), s.registry.loaded = ls.map (·.plugin.name) ∧
        ∀ l ∈ ls, (∃ call ∈ s.calls, l.plugin ∈ call.plugins) ∧
          (∀ dep ∈ l.plugin.dependencies, ∃ value, l.view.get dep = some value ∧
            s.registry.container.get dep = some value) ∧
          ∀ made ∈ l.instances,
            s.registry.container.get (l.plugin.name ++ "." ++ made.1) = some made.2 ∧
            s.registry.container.has made.1 = true) ∧
      ∀ call ∈ s.calls, call.progress = .resolved →
        ∀ plugin ∈ call.plugins, plugin.name ∈ s.registry.loaded := by
  obtain ⟨ls, hs⟩ := loads_sound hrun
  refine ⟨hs.kept.nodup, ⟨ls, hs.kept.names, fun l hl => ⟨hs.listed l hl, hs.kept.bound l hl,
    fun made hmade => ⟨hs.kept.own l hl made hmade, hs.kept.bare l hl made hmade⟩⟩⟩, ?_⟩
  intro call hcall hresolved
  have hsound := hs.calls call hcall
  unfold LoadCall.Sound at hsound
  rw [hresolved] at hsound
  exact hsound

/-- A second call fails between two steps of the first one. -/
def sampleLoads : List (LoadEvent String) :=
  [.loadAll [samplePlugin "redis" [] "cache", samplePlugin "mail" ["cache"] "sender"],
   .loadAll [halfBuiltPlugin], .resume 0, .resume 0]

theorem loads_kept_sampleLoads :
    ∃ s, (loads String).run sampleLoads = some s ∧ s.registry.loaded = ["redis", "mail"] ∧
      s.registry.container.get "billing.db" = some "pool" ∧
      ∀ call ∈ s.calls, call.progress = .resolved →
        ∀ plugin ∈ call.plugins, plugin.name ∈ s.registry.loaded := by
  have hran : ((loads String).run sampleLoads).map
      (fun s => (s.registry.loaded, s.registry.container.get "billing.db")) =
        some (["redis", "mail"], some "pool") := rfl
  obtain ⟨s, hrun, hs⟩ := Option.map_eq_some_iff.1 hran
  obtain ⟨hloaded, hleft⟩ := Prod.mk.inj hs
  exact ⟨s, hrun, hloaded, hleft, (loads_kept hrun).2.2⟩

/-! ## Half-built plugins -/

/-- The plugin is not loaded, and a key of its own is taken. -/
def HalfBuilt (registry : PluginRegistry V) (plugin : PluginDefinition V) : Prop :=
  plugin.name ∉ registry.loaded ∧ ∃ service ∈ plugin.services.entries,
    registry.container.has (plugin.name ++ "." ++ service.1) = true

/-- A load that fails behind its first service leaves the plugin half built. -/
theorem halfBuilt_of_failed {plugin : PluginDefinition V} {registry registry' : PluginRegistry V}
    {err : PluginError} (h : load plugin registry = (.error err, registry'))
    (hchanged : registry'.container ≠ registry.container) : HalfBuilt registry' plugin := by
  cases load_outcome h with
  | refused hname err => exact absurd rfl hchanged
  | failed hname err container hservices =>
    obtain ⟨built, serviceName, factory, unbuilt, reason, hsplit, hbuilt, -, -⟩ :=
      registerServices_error_cases hservices
    cases built with
    | nil =>
      cases hbuilt
      exact absurd rfl hchanged
    | cons service built =>
      refine ⟨hname, service, by simp [hsplit], ?_⟩
      exact (registerServices_first hbuilt).2

/-- **A half-built plugin is refused**: whatever its factories do now, one of its keys is taken. -/
theorem load_halfBuilt {plugin : PluginDefinition V} {registry registry' : PluginRegistry V}
    {result : Except PluginError Unit} (hhalf : HalfBuilt registry plugin)
    (h : load plugin registry = (result, registry')) : ∃ err, result = .error err := by
  obtain ⟨hname, service, hservice, hkey⟩ := hhalf
  cases load_outcome h with
  | passedOver hloaded => exact absurd hloaded hname
  | refused _ err | failed _ err => exact ⟨err, rfl⟩
  | loaded _ hdeps container hservices =>
    obtain ⟨earlier, later, hsplit⟩ := List.append_of_mem hservice
    rw [hsplit, registerServices_append] at hservices
    split at hservices
    · cases hservices
    · rename_i between hearlier
      obtain ⟨v, hv⟩ := Option.isSome_iff_exists.1 hkey
      have hfree := (registerServices_first hservices).1
      rw [JsMap.has, registerServices_get hearlier hv] at hfree
      cases hfree

/-- The other definition has all services of this one. -/
def Offers (other plugin : PluginDefinition V) : Prop :=
  plugin.services.entries.map Prod.fst ⊆ other.services.entries.map Prod.fst

theorem HalfBuilt.other {plugin other : PluginDefinition V} {registry : PluginRegistry V}
    (h : HalfBuilt registry plugin) (hname : other.name = plugin.name)
    (hoffers : Offers other plugin) : HalfBuilt registry other := by
  obtain ⟨hloaded, service, hservice, hkey⟩ := h
  obtain ⟨service', hservice', hsame⟩ := List.mem_map.1 (hoffers (List.mem_map_of_mem hservice))
  refine ⟨hname ▸ hloaded, service', hservice', ?_⟩
  rw [hname, hsame]
  exact hkey

/-- The plugin stays half built, whatever is loaded. -/
theorem HalfBuilt.stays {plugin other : PluginDefinition V} {registry registry' : PluginRegistry V}
    {result : Except PluginError Unit} (hhalf : HalfBuilt registry plugin)
    (hsame : other.name = plugin.name → Offers other plugin)
    (h : load other registry = (result, registry')) : HalfBuilt registry' plugin := by
  obtain ⟨hname, service, hservice, hkey⟩ := hhalf
  refine ⟨?_, service, hservice, load_has h hkey⟩
  cases hresult : result with
  | error err =>
    rw [hresult] at h
    rw [load_error_loaded h]
    exact hname
  | ok =>
    have hne : other.name ≠ plugin.name := by
      intro heq
      have hother := HalfBuilt.other ⟨hname, service, hservice, hkey⟩ heq (hsame heq)
      obtain ⟨err, herr⟩ := load_halfBuilt hother h
      rw [hresult] at herr
      cases herr
    cases load_outcome h with
    | passedOver | refused | failed => exact hname
    | loaded => simp [hname, hne.symm]

/-- A call has still to load the plugin. -/
def Loads.Awaits (s : Loads V) (plugin : PluginDefinition V) : Prop :=
  ∃ call ∈ s.calls, ∃ rest, call.progress = .loading rest ∧ plugin ∈ rest

/-- A call made by one of the events lists the plugin. -/
def Requested (es : List (LoadEvent V)) (plugin : PluginDefinition V) : Prop :=
  ∃ plugins, .loadAll plugins ∈ es ∧ plugin ∈ plugins

theorem mem_of_loading {rest later : List (PluginDefinition V)}
    {registry registry' : PluginRegistry V}
    (h : loadNext rest registry = (.loading later, registry')) : later ⊆ rest := by
  rcases loadNext_cases h with ⟨-, hresolved, -⟩ | ⟨plugin, later', result, rfl, -, hresult⟩
  · cases hresolved
  · rcases hresult with ⟨err, -, hrejected⟩ | ⟨-, hloading⟩
    · cases hrejected
    · cases hloading
      exact List.subset_cons_self _ _

/-- What a call has still to load behind a step, it had to load before or was called for. -/
theorem awaits_step {s s' : Loads V} {e : LoadEvent V} (hstep : LoadStep s e s')
    {plugin : PluginDefinition V} (h : s'.Awaits plugin) :
    s.Awaits plugin ∨ Requested [e] plugin := by
  obtain ⟨call, hcall, later, hlater, hplugin⟩ := h
  cases hstep with
  | circular plugins err =>
    rcases List.mem_append.1 hcall with hcall | hcall
    · exact .inl ⟨call, hcall, later, hlater, hplugin⟩
    · obtain rfl := List.mem_singleton.1 hcall
      cases hlater
  | called plugins progress registry hnext =>
    rcases List.mem_append.1 hcall with hcall | hcall
    · exact .inl ⟨call, hcall, later, hlater, hplugin⟩
    · obtain rfl := List.mem_singleton.1 hcall
      cases hlater
      exact .inr ⟨plugins, by simp, mem_of_loading hnext hplugin⟩
  | resumed i plugins rest hwas progress registry hnext =>
    rcases List.mem_or_eq_of_mem_set hcall with hcall | rfl
    · exact .inl ⟨call, hcall, later, hlater, hplugin⟩
    · cases hlater
      exact .inl ⟨_, List.mem_of_getElem? hwas, rest, rfl, mem_of_loading hnext hplugin⟩

/-- One step loads only what a call has to load before it or is called for. -/
theorem halfBuilt_step {s s' : Loads V} {e : LoadEvent V} {plugin : PluginDefinition V}
    (hhalf : HalfBuilt s.registry plugin) (hstep : LoadStep s e s')
    (hsame : ∀ other, s.Awaits other ∨ Requested [e] other → other.name = plugin.name →
      Offers other plugin) : HalfBuilt s'.registry plugin := by
  have hnextHalf : ∀ rest progress registry, loadNext rest s.registry = (progress, registry) →
      (∀ other ∈ rest, s.Awaits other ∨ Requested [e] other) → HalfBuilt registry plugin := by
    intro rest progress registry hnext hrest
    rcases loadNext_cases hnext with ⟨-, -, rfl⟩ | ⟨other, later, result, rfl, hload, -⟩
    · exact hhalf
    · exact hhalf.stays (hsame other (hrest other (by simp))) hload
  cases hstep with
  | circular plugins err => exact hhalf
  | called plugins progress registry hnext =>
    exact hnextHalf _ _ _ hnext fun other hother => .inr ⟨plugins, by simp, hother⟩
  | resumed i plugins rest hcall progress registry hnext =>
    exact hnextHalf _ _ _ hnext fun other hother =>
      .inl ⟨_, List.mem_of_getElem? hcall, rest, rfl, hother⟩

end Intellibiz.Core
