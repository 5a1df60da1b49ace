import Intellibiz.Core.Plugins

/-!
# What a failed load leaves behind

`PluginRegistry.load` registers the services of a plugin one by one and does not undo them when a
later factory throws; the plugin does not count as loaded, so a later `loadAll` tries it again.

* `FailedLoad` — a `loadAll` that rejects because a factory throws, with the registry as it was
  when the load of that plugin began.
* `FailedLoad.NoTrace` — the container is as it was then, and a repaired plugin can be loaded.
* `KeysFree` — the namespaced keys of a plugin can all be registered.

Principal results: `loadAll_rejects` (the three ways in which `loadAll` fails past the cycle
check), `registerServices_ok_iff` and `failedLoad_noTrace_iff`.
-/

namespace Intellibiz.Core

variable {V : Type}

/-! ## The loops over a concatenation -/

theorem registerServices_append (pluginName : String) (deps : JsMap String V)
    (services more : List (String × Factory V)) (container : DIContainer V) :
    registerServices pluginName deps (services ++ more) container =
      match registerServices pluginName deps services container with
      | (.error err, container) => (.error err, container)
      | (.ok (), container) => registerServices pluginName deps more container := by
  induction services generalizing container with
  | nil => rfl
  | cons service services ih =>
    rw [List.cons_append, registerServices, registerServices]
    rcases registerService pluginName service.1 service.2 deps container with ⟨_ | _, next⟩
    · rfl
    · exact ih next

theorem loadEach_append (plugins more : List (PluginDefinition V)) (registry : PluginRegistry V) :
    loadEach (plugins ++ more) registry =
      match loadEach plugins registry with
      | (.error err, registry) => (.error err, registry)
      | (.ok (), registry) => loadEach more registry := by
  induction plugins generalizing registry with
  | nil => rfl
  | cons plugin plugins ih =>
    rw [List.cons_append, loadEach, loadEach]
    rcases load plugin registry with ⟨_ | _, next⟩
    · rfl
    · exact ih next

/-! ## Plugins that were loaded -/

theorem loadEach_loaded_subset (plugins : List (PluginDefinition V))
    (registry : PluginRegistry V) : registry.loaded ⊆ (loadEach plugins registry).2.loaded := by
  induction plugins generalizing registry with
  | nil => exact List.Subset.refl _
  | cons plugin plugins ih =>
    have hload := load_loaded_subset plugin registry
    rw [loadEach]
    rcases hresult : load plugin registry with ⟨_ | _, next⟩
    · rw [hresult] at hload
      exact hload
    · rw [hresult] at hload
      exact List.Subset.trans hload (ih next)

theorem loadEach_ok_mem {plugins : List (PluginDefinition V)} {registry registry' : PluginRegistry V}
    (h : loadEach plugins registry = (.ok (), registry')) :
    ∀ plugin ∈ plugins, plugin.name ∈ registry'.loaded := by
  induction plugins generalizing registry with
  | nil => simp
  | cons first plugins ih =>
    rw [loadEach] at h
    split at h
    · cases h
    · rename_i next hload
      have hrest := loadEach_loaded_subset plugins next
      rw [h] at hrest
      intro plugin hplugin
      rcases List.mem_cons.1 hplugin with rfl | hplugin
      · exact hrest (load_ok_mem hload)
      · exact ih h plugin hplugin

/-- Plugins that were loaded before are passed over. -/
theorem loadEach_loaded {plugins : List (PluginDefinition V)} {registry : PluginRegistry V}
    (h : ∀ plugin ∈ plugins, plugin.name ∈ registry.loaded) :
    loadEach plugins registry = (.ok (), registry) := by
  induction plugins with
  | nil => rfl
  | cons plugin plugins ih =>
    have hfirst : load plugin registry = (.ok (), registry) := by
      rw [load, if_pos (h plugin (by simp))]
    rw [loadEach, hfirst]
    exact ih fun p hp => h p (by simp [hp])

theorem load_error_loaded {plugin : PluginDefinition V} {registry registry' : PluginRegistry V}
    {err : PluginError} (h : load plugin registry = (.error err, registry')) :
    registry'.loaded = registry.loaded := by
  unfold load at h
  split at h
  · cases h
  · split at h
    · cases h
      rfl
    · dsimp only at h
      split at h
      · cases h
        rfl
      · cases h

/-! ## When all factories succeed -/

/-- Each namespaced key of the plugin is free in the container and is not the bare name of a
service before it. -/
def KeysFree (pluginName : String) (serviceNames : List String) (container : DIContainer V) : Prop :=
  ∀ earlier name later, serviceNames = earlier ++ name :: later →
    container.has (pluginName ++ "." ++ name) = false ∧ pluginName ++ "." ++ name ∉ earlier

theorem namespaced_inj {pluginName s t : String}
    (h : pluginName ++ "." ++ s = pluginName ++ "." ++ t) : s = t := by
  have hlist := congrArg String.toList h
  simp only [String.toList_append, List.append_cancel_left_eq] at hlist
  exact String.toList_inj.1 hlist

theorem keysFree_cons {pluginName serviceName : String} {serviceNames : List String} {v : V}
    {container : DIContainer V} (hnew : serviceName ∉ serviceNames) :
    KeysFree pluginName (serviceName :: serviceNames) container ↔
      container.has (pluginName ++ "." ++ serviceName) = false ∧
        KeysFree pluginName serviceNames
          (container.withService pluginName serviceName v) := by
  have hhas : ∀ name ∈ serviceNames,
      ((container.withService pluginName serviceName v).has (pluginName ++ "." ++ name) = false ↔
        container.has (pluginName ++ "." ++ name) = false ∧
          pluginName ++ "." ++ name ≠ serviceName) := by
    intro name hname
    have hne : pluginName ++ "." ++ name ≠ pluginName ++ "." ++ serviceName := by
      intro heq
      exact hnew (namespaced_inj heq ▸ hname)
    rw [← Bool.not_eq_true, has_withService, ← Bool.not_eq_true]
    tauto
  constructor
  · intro h
    refine ⟨(h [] serviceName serviceNames rfl).1, ?_⟩
    rintro earlier name later rfl
    obtain ⟨hfree, hearlier⟩ := h (serviceName :: earlier) name later rfl
    rw [List.mem_cons, not_or] at hearlier
    exact ⟨(hhas name (by simp)).2 ⟨hfree, hearlier.1⟩, hearlier.2⟩
  · rintro ⟨hfirst, hrest⟩ earlier name later hsplit
    rcases List.cons_eq_append_iff.1 hsplit with ⟨rfl, h⟩ | ⟨earlier, rfl, rfl⟩
    · cases h
      exact ⟨hfirst, by simp⟩
    · obtain ⟨hfree, hearlier⟩ := hrest earlier name later rfl
      obtain ⟨hfree, hne⟩ := (hhas name (by simp)).1 hfree
      refine ⟨hfree, ?_⟩
      rw [List.mem_cons, not_or]
      exact ⟨hne, hearlier⟩

theorem registerServices_has {pluginName : String} {deps : JsMap String V} {key : String}
    {services : List (String × Factory V)} {container : DIContainer V}
    (h : container.has key = true) :
    (registerServices pluginName deps services container).2.has key = true := by
  induction services generalizing container with
  | nil => exact h
  | cons service services ih =>
    rw [registerServices, registerService_eq]
    cases service.2 deps with
    | error err => exact h
    | ok value =>
      dsimp only
      by_cases hkey : container.has (pluginName ++ "." ++ service.1) = true
      · rw [if_pos hkey]
        exact h
      · rw [if_neg hkey]
        exact ih (has_withService.2 (.inl h))

/-- The first service of a plugin took a free key, which stays. -/
theorem registerServices_first {pluginName : String} {deps : JsMap String V}
    {service : String × Factory V} {services : List (String × Factory V)}
    {container container' : DIContainer V}
    (h : registerServices pluginName deps (service :: services) container = (.ok (), container')) :
    container.has (pluginName ++ "." ++ service.1) = false ∧
      container'.has (pluginName ++ "." ++ service.1) = true := by
  rw [registerServices, registerService_eq] at h
  cases hfactory : service.2 deps with
  | error err =>
    rw [hfactory] at h
    cases h
  | ok value =>
    rw [hfactory] at h
    dsimp only at h
    by_cases hkey : container.has (pluginName ++ "." ++ service.1) = true
    · rw [if_pos hkey] at h
      cases h
    · rw [if_neg hkey] at h
      dsimp only at h
      have hadded : (container.withService pluginName service.1 value).has
          (pluginName ++ "." ++ service.1) = true :=
        has_withService.2 (.inr (.inl rfl))
      have hlast : (registerServices pluginName deps services
          (container.withService pluginName service.1 value)).2.has
          (pluginName ++ "." ++ service.1) = true :=
        registerServices_has hadded
      rw [h] at hlast
      exact ⟨by simpa using hkey, hlast⟩

/-- **Services whose factories all succeed** are registered if and only if their keys are free. -/
theorem registerServices_ok_iff {pluginName : String} {deps : JsMap String V}
    {services : List (String × Factory V)} {container : DIContainer V}
    (hnodup : (services.map Prod.fst).Nodup)
    (hmade : ∀ service ∈ services, ∃ value, service.2 deps = .ok value) :
    (registerServices pluginName deps services container).1 = .ok () ↔
      KeysFree pluginName (services.map Prod.fst) container := by
  induction services generalizing container with
  | nil => simp [registerServices, KeysFree]
  | cons service services ih =>
    obtain ⟨serviceName, factory⟩ := service
    obtain ⟨value, hvalue⟩ : ∃ value, factory deps = .ok value :=
      hmade (serviceName, factory) (by simp)
    rw [List.map_cons, List.nodup_cons] at hnodup
    rw [List.map_cons, keysFree_cons hnodup.1 (v := value), registerServices, registerService_eq,
      hvalue]
    dsimp only
    by_cases hkey : container.has (pluginName ++ "." ++ serviceName) = true
    · simp [hkey]
    · rw [if_neg hkey]
      simp only [hkey, true_and]
      exact ih hnodup.2 fun s hs => hmade s (by simp [hs])

/-! ## How a load fails -/

theorem registerServices_error_cases {pluginName : String} {deps : JsMap String V}
    {services : List (String × Factory V)} {container container' : DIContainer V}
    {err : PluginError}
    (h : registerServices pluginName deps services container = (.error err, container')) :
    ∃ built serviceName factory unbuilt reason,
      services = built ++ (serviceName, factory) :: unbuilt ∧
      registerServices pluginName deps built container = (.ok (), container') ∧
      (factory deps = .error reason ∨ ∃ value, factory deps = .ok value ∧
        container'.has (pluginName ++ "." ++ serviceName) = true) ∧
      err = .load pluginName s!"service factory '{serviceName}' threw: {reason}" := by
  induction services generalizing container with
  | nil => cases h
  | cons service services ih =>
    obtain ⟨serviceName, factory⟩ := service
    rw [registerServices, registerService_eq] at h
    cases hfactory : factory deps with
    | error reason =>
      rw [hfactory] at h
      cases h
      exact ⟨[], serviceName, factory, services, reason, rfl, rfl, .inl hfactory, rfl⟩
    | ok value =>
      rw [hfactory] at h
      dsimp only at h
      split at h
      · rename_i hsplit
        split at hsplit
        · rename_i hkey
          cases hsplit
          cases h
          exact ⟨[], serviceName, factory, services, _, rfl, rfl, .inr ⟨value, hfactory, hkey⟩,
            rfl⟩
        · cases hsplit
      · rename_i next hsplit
        obtain ⟨built, name, f, unbuilt, reason, rfl, hbuilt, hrest⟩ := ih h
        refine ⟨(serviceName, factory) :: built, name, f, unbuilt, reason, rfl, ?_, hrest⟩
        rw [registerServices, registerService_eq, hfactory]
        dsimp only
        rw [hsplit]
        exact hbuilt

theorem loadEach_error_cases {plugins : List (PluginDefinition V)}
    {registry registry' : PluginRegistry V} {err : PluginError}
    (h : loadEach plugins registry = (.error err, registry')) :
    ∃ before plugin after atLoad, plugins = before ++ plugin :: after ∧
      loadEach before registry = (.ok (), atLoad) ∧
      load plugin atLoad = (.error err, registry') := by
  induction plugins generalizing registry with
  | nil => cases h
  | cons plugin plugins ih =>
    rw [loadEach] at h
    split at h
    · rename_i hload
      cases h
      exact ⟨[], plugin, plugins, registry, rfl, rfl, hload⟩
    · rename_i next hload
      obtain ⟨before, p, after, atLoad, rfl, hbefore, hp⟩ := ih h
      refine ⟨plugin :: before, p, after, atLoad, rfl, ?_, hp⟩
      rw [loadEach, hload]
      exact hbefore

/-- A `loadAll` of `before ++ plugin :: after` that rejects because `factory` throws: the plugins
`before` are loaded and `plugin` is due, its services `built` are registered. -/
structure FailedLoad (V : Type) where
  registry : PluginRegistry V
  before : List (PluginDefinition V)
  plugin : PluginDefinition V
  after : List (PluginDefinition V)
  atLoad : PluginRegistry V
  built : List (String × Factory V)
  serviceName : String
  factory : Factory V
  unbuilt : List (String × Factory V)
  container : DIContainer V
  reason : String
  acyclic : detectCircular (before ++ plugin :: after) = .ok ()
  before_ok : loadEach before registry = (.ok (), atLoad)
  due : plugin.name ∉ atLoad.loaded
  found : plugin.dependencies.find? (fun dep => !atLoad.container.has dep) = none
  services_eq : plugin.services.entries = built ++ (serviceName, factory) :: unbuilt
  built_ok : registerServices plugin.name (atLoad.container.sandboxedView plugin.dependencies) built
    atLoad.container = (.ok (), container)
  throws : factory (atLoad.container.sandboxedView plugin.dependencies) = .error reason

namespace FailedLoad

variable (run : FailedLoad V)

def plugins : List (PluginDefinition V) := run.before ++ run.plugin :: run.after

def error : PluginError :=
  .load run.plugin.name s!"service factory '{run.serviceName}' threw: {run.reason}"

/-- The registry after the rejection. -/
def registryAfter : PluginRegistry V := { run.atLoad with container := run.container }

theorem loadAll_eq :
    loadAll run.plugins run.registry = some (.error run.error, run.registryAfter) := by
  have hservices : registerServices run.plugin.name
      (run.atLoad.container.sandboxedView run.plugin.dependencies) run.plugin.services.entries
      run.atLoad.container = (.error run.error, run.container) := by
    rw [run.services_eq, registerServices_append, run.built_ok]
    dsimp only
    rw [registerServices, registerService_eq, run.throws]
    rfl
  have hload : load run.plugin run.atLoad = (.error run.error, run.registryAfter) := by
    rw [load, if_neg run.due, run.found]
    dsimp only
    rw [hservices]
    rfl
  have hall : loadEach run.plugins run.registry = (.error run.error, run.registryAfter) := by
    rw [plugins, loadEach_append, run.before_ok]
    dsimp only
    rw [loadEach, hload]
  unfold loadAll plugins
  rw [run.acyclic]
  exact congrArg some hall

end FailedLoad

/-- **How `loadAll` rejects past the cycle check**: a factory throws, a namespaced key is taken, or
a dependency is missing. -/
theorem loadAll_rejects {plugins : List (PluginDefinition V)} {registry registry' : PluginRegistry V}
    {pluginName reason : String}
    (h : loadAll plugins registry = some (.error (.load pluginName reason), registry')) :
    (∃ run : FailedLoad V, run.plugins = plugins ∧ run.registry = registry ∧
      run.error = .load pluginName reason ∧ run.registryAfter = registry') ∨
    (∃ plugin ∈ plugins, ∃ service ∈ plugin.services.entries, plugin.name = pluginName ∧
      registry'.container.has (plugin.name ++ "." ++ service.1) = true) ∨
    ∃ plugin ∈ plugins, ∃ dep ∈ plugin.dependencies, plugin.name = pluginName ∧
      registry'.container.has dep = false := by
  unfold loadAll at h
  split at h
  · cases h
  · cases h
  · rename_i hdetect
    obtain ⟨before, plugin, after, atLoad, rfl, hbefore, hload⟩ :=
      loadEach_error_cases (Option.some.inj h)
    have hmem : plugin ∈ before ++ plugin :: after := by simp
    unfold load at hload
    split at hload
    · cases hload
    · rename_i hdue
      split at hload
      · rename_i dep hdep
        cases hload
        refine .inr (.inr ⟨plugin, hmem, dep, List.mem_of_find?_eq_some hdep, rfl, ?_⟩)
        simpa using List.find?_some hdep
      · rename_i hfound
        dsimp only at hload
        split at hload
        · rename_i err container hservices
          obtain ⟨built, serviceName, factory, unbuilt, reason', hsplit, hbuilt, hlast, rfl⟩ :=
            registerServices_error_cases hservices
          cases hload
          rcases hlast with hthrows | ⟨_, _, hkey⟩
          · exact .inl ⟨⟨registry, before, plugin, after, atLoad, built, serviceName, factory, unbuilt,
              container, reason', hdetect, hbefore, hdue, hfound, hsplit, hbuilt, hthrows⟩, rfl, rfl,
              rfl, rfl⟩
          · refine .inr (.inl ⟨plugin, hmem, (serviceName, factory), ?_, rfl, hkey⟩)
            simp [hsplit]
        · cases hload

/-! ## The retry -/

/-- The plugin with factories that succeed on `view`. -/
structure Repaired (plugin plugin' : PluginDefinition V) (view : JsMap String V) : Prop where
  name_eq : plugin'.name = plugin.name
  dependencies_eq : plugin'.dependencies = plugin.dependencies
  services_eq : plugin'.services.entries.map Prod.fst = plugin.services.entries.map Prod.fst
  succeeds : ∀ service ∈ plugin'.services.entries, ∃ value, service.2 view = .ok value

namespace FailedLoad

variable (run : FailedLoad V)

/-- **No trace**: the container is as it was when the load of the plugin began, and every later
`loadAll` that reaches the repaired plugin loads it. -/
def NoTrace : Prop :=
  (∀ key, run.registryAfter.container.get key = run.atLoad.container.get key) ∧
  ∀ plugin' earlier later,
    Repaired run.plugin plugin' (run.container.sandboxedView run.plugin.dependencies) →
    (∀ p ∈ earlier, p.name ∈ run.registryAfter.loaded) →
    detectCircular (earlier ++ plugin' :: later) = .ok () →
    ∃ result registry', loadAll (earlier ++ plugin' :: later) run.registryAfter =
      some (result, registry') ∧ run.plugin.name ∈ registry'.loaded

end FailedLoad

/-- The cycle check reads names and dependencies only. -/
theorem detectCircular_congr {plugins plugins' : List (PluginDefinition V)}
    (h : plugins.map (fun p => (p.name, p.dependencies)) =
      plugins'.map fun p => (p.name, p.dependencies)) :
    detectCircular plugins = detectCircular plugins' := by
  have hdeps : dependenciesOf plugins = dependenciesOf plugins' := by
    have hfold : ∀ ps : List (PluginDefinition V), depMap ps =
        (ps.map fun p => (p.name, p.dependencies)).foldl (fun m p => m.set p.1 p.2) .empty := by
      intro ps
      rw [depMap, List.foldl_map]
    funext name
    rw [dependenciesOf, dependenciesOf, hfold, hfold, h]
  have hnames : names plugins = names plugins' := by
    have hflat : ∀ ps : List (PluginDefinition V), names ps =
        ((ps.map fun p => (p.name, p.dependencies)).flatMap fun p => p.1 :: p.2).toFinset := by
      intro ps
      rw [names, List.flatMap_map]
    rw [hflat, hflat, h]
  have hloop : ∀ (ps : List (PluginDefinition V)) (f : String → Except (CycleSearch.Stop String) Unit),
      ps.foldlM (fun _ p => f p.name) () =
        (ps.map fun p => (p.name, p.dependencies)).foldlM (fun _ p => f p.1) () := by
    intro ps f
    rw [List.foldlM_map]
  let visit (name : String) : Except (CycleSearch.Stop String) Unit :=
    (CycleSearch.search (dependenciesOf plugins') ((names plugins').card + 1) name [] []).map
      fun _ => ()
  unfold detectCircular
  rw [hdeps, hnames]
  refine (hloop plugins visit).trans ?_
  rw [h]
  exact (hloop plugins' visit).symm

namespace FailedLoad

variable {run : FailedLoad V}

theorem container_eq_of_built (h : run.built = []) : run.container = run.atLoad.container := by
  have hbuilt := run.built_ok
  rw [h] at hbuilt
  exact (congrArg Prod.snd hbuilt).symm

/-- The container is as before exactly when the first factory threw. -/
theorem container_get_iff :
    (∀ key, run.registryAfter.container.get key = run.atLoad.container.get key) ↔
      run.built = [] := by
  constructor
  · intro h
    cases hbuilt : run.built with
    | nil => rfl
    | cons service services =>
      have hok := run.built_ok
      rw [hbuilt] at hok
      obtain ⟨hbefore, hafter⟩ := registerServices_first hok
      have hkey := h (run.plugin.name ++ "." ++ service.1)
      have hsame : run.container.has (run.plugin.name ++ "." ++ service.1) =
          run.atLoad.container.has (run.plugin.name ++ "." ++ service.1) :=
        congrArg Option.isSome hkey
      rw [hbefore, hafter] at hsame
      cases hsame
  · intro h key
    exact congrArg (JsMap.get · key) (container_eq_of_built h)

/-- **The retry of the repaired plugin**, when nothing was registered before. -/
theorem load_repaired_iff {plugin' : PluginDefinition V} (hbuilt : run.built = [])
    (hrepaired : Repaired run.plugin plugin'
      (run.container.sandboxedView run.plugin.dependencies)) :
    (load plugin' run.registryAfter).1 = .ok () ↔
      KeysFree run.plugin.name (run.plugin.services.entries.map Prod.fst)
        run.atLoad.container := by
  have hcontainer := container_eq_of_built hbuilt
  have hregistry : run.registryAfter = run.atLoad := by
    rw [registryAfter, hcontainer]
  rw [hcontainer] at hrepaired
  have hservices : (registerServices run.plugin.name
        (run.atLoad.container.sandboxedView run.plugin.dependencies) plugin'.services.entries
        run.atLoad.container).1 = .ok () ↔
      KeysFree run.plugin.name (plugin'.services.entries.map Prod.fst) run.atLoad.container :=
    registerServices_ok_iff plugin'.services.nodup hrepaired.succeeds
  rw [hrepaired.services_eq] at hservices
  rw [← hservices, hregistry, load, hrepaired.name_eq, if_neg run.due, hrepaired.dependencies_eq,
    run.found]
  dsimp only
  split
  · rename_i h
    rw [h]
  · rename_i h
    rw [h]

/-- The plugin with factories that return `default`. -/
def repair [Inhabited V] (plugin : PluginDefinition V) : PluginDefinition V where
  name := plugin.name
  dependencies := plugin.dependencies
  services :=
    ⟨plugin.services.entries.map fun service => (service.1, fun _ => .ok default), by
      rw [List.map_map]
      exact plugin.services.nodup⟩

theorem repaired_repair [Inhabited V] (plugin : PluginDefinition V) (view : JsMap String V) :
    Repaired plugin (repair plugin) view where
  name_eq := rfl
  dependencies_eq := rfl
  services_eq := by simp [repair]
  succeeds := by
    intro service hservice
    obtain ⟨_, _, rfl⟩ := List.mem_map.1 hservice
    exact ⟨default, rfl⟩

end FailedLoad

open FailedLoad in
/-- **A failed load leaves no trace exactly if** the first factory of the plugin threw and the
plugin's namespaced keys are free. -/
theorem failedLoad_noTrace_iff [Inhabited V] (run : FailedLoad V) :
    run.NoTrace ↔ run.built = [] ∧
      KeysFree run.plugin.name (run.plugin.services.entries.map Prod.fst)
        run.atLoad.container := by
  unfold NoTrace
  rw [container_get_iff]
  refine and_congr_right fun hbuilt => ⟨fun h => ?_, ?_⟩
  · -- retry the same list with a plugin whose factories cannot fail
    have hrepaired := repaired_repair run.plugin
      (run.container.sandboxedView run.plugin.dependencies)
    have hacyclic : detectCircular (run.before ++ repair run.plugin :: run.after) = .ok () := by
      rw [← run.acyclic]
      apply detectCircular_congr
      simp [repair]
    have hloaded := loadEach_ok_mem run.before_ok
    obtain ⟨result, registry', hretry, hname⟩ :=
      h (repair run.plugin) run.before run.after hrepaired hloaded hacyclic
    rw [← load_repaired_iff hbuilt hrepaired]
    unfold loadAll at hretry
    rw [hacyclic] at hretry
    have hloop := Option.some.inj hretry
    have hskip : loadEach run.before run.registryAfter = (.ok (), run.registryAfter) :=
      loadEach_loaded hloaded
    rw [loadEach_append, hskip] at hloop
    dsimp only at hloop
    rw [loadEach] at hloop
    rcases hload : load (repair run.plugin) run.registryAfter with ⟨_ | _, next⟩
    · rw [hload] at hloop
      cases hloop
      rw [load_error_loaded hload] at hname
      exact absurd hname run.due
    · rfl
  · intro hfree plugin' earlier later hrepaired hearlier hacyclic
    have hok := (load_repaired_iff hbuilt hrepaired).2 hfree
    obtain ⟨next, hload⟩ : ∃ next, load plugin' run.registryAfter = (.ok (), next) :=
      ⟨_, Prod.ext hok rfl⟩
    refine ⟨(loadEach later next).1, (loadEach later next).2, ?_, ?_⟩
    · unfold loadAll
      rw [hacyclic]
      dsimp only
      rw [loadEach_append, loadEach_loaded hearlier]
      dsimp only
      rw [loadEach, hload]
    · have hmem := load_ok_mem hload
      rw [hrepaired.name_eq] at hmem
      exact loadEach_loaded_subset later next hmem

/-- The factory of `db` succeeds, the one of `api` throws. -/
def halfBuiltPlugin : PluginDefinition String :=
  ⟨"billing", [], (JsMap.empty.set "db" fun _ => .ok "pool").set "api" fun _ => .error "no key"⟩

def halfBuiltLoad : FailedLoad String where
  registry := ⟨.empty, []⟩
  before := []
  plugin := halfBuiltPlugin
  after := []
  atLoad := ⟨.empty, []⟩
  built := [("db", fun _ => .ok "pool")]
  serviceName := "api"
  factory := fun _ => .error "no key"
  unbuilt := []
  container := DIContainer.withService "billing" "db" "pool" .empty
  reason := "no key"
  acyclic := rfl
  before_ok := rfl
  due := by decide
  found := rfl
  services_eq := rfl
  built_ok := rfl
  throws := rfl

/-- **The leftovers refuse the retry.** -/
theorem halfBuiltLoad_leaves_trace :
    halfBuiltLoad.atLoad.container.get "billing.db" = none ∧
      halfBuiltLoad.registryAfter.container.get "billing.db" = some "pool" ∧
      (loadAll [FailedLoad.repair halfBuiltPlugin] halfBuiltLoad.registryAfter).map Prod.fst =
        some (.error (.load "billing" ("service factory 'db' threw: DIContainer: service " ++
          "'billing.db' is already registered. Use a unique key."))) ∧
      ¬ halfBuiltLoad.NoTrace := by
  have hleft : halfBuiltLoad.registryAfter.container.get "billing.db" = some "pool" := by decide
  refine ⟨rfl, hleft, by decide, fun h => ?_⟩
  have hsame := h.1 "billing.db"
  rw [hleft] at hsame
  cases hsame

end Intellibiz.Core
