import Intellibiz.Core.Plugins

/-!
# What a successful load leaves in the container

The loop of `PluginRegistry.loadAll`, with the calls of the service factories recorded.

* `loadAllCalls` — the factory calls of `loadAll`, in order.
* `LoadedPlugin` — a plugin with the view its factories were given and the instances they made.
* `Loaded` — the invariant of the loop over the plugins.
* `firstOccurrences` — the first plugin of each name, in list order.

Principal result: `loadAll_resolves`.
-/

namespace Intellibiz.Core

variable {V : Type}

/-! ## The factory calls -/

/-- `factory(deps)` for the service of this name. -/
structure FactoryCall (V : Type) where
  plugin : PluginDefinition V
  serviceName : String
  deps : JsMap String V

def registerServicesCalls (plugin : PluginDefinition V) (deps : JsMap String V) :
    List (String × Factory V) → DIContainer V → List (FactoryCall V)
  | [], _ => []
  | (serviceName, factory) :: services, container =>
    ⟨plugin, serviceName, deps⟩ ::
      match registerService plugin.name serviceName factory deps container with
      | (.error _, _) => []
      | (.ok (), container) => registerServicesCalls plugin deps services container

def loadCalls (plugin : PluginDefinition V) (registry : PluginRegistry V) :
    List (FactoryCall V) :=
  if plugin.name ∈ registry.loaded then []
  else
    match plugin.dependencies.find? (fun dep => !registry.container.has dep) with
    | some _ => []
    | none =>
      registerServicesCalls plugin (registry.container.sandboxedView plugin.dependencies)
        plugin.services.entries registry.container

def loadEachCalls : List (PluginDefinition V) → PluginRegistry V → List (FactoryCall V)
  | [], _ => []
  | plugin :: plugins, registry =>
    loadCalls plugin registry ++
      match load plugin registry with
      | (.error _, _) => []
      | (.ok (), registry) => loadEachCalls plugins registry

def loadAllCalls (plugins : List (PluginDefinition V)) (registry : PluginRegistry V) :
    List (FactoryCall V) :=
  match detectCircular plugins with
  | .error _ => []
  | .ok () => loadEachCalls plugins registry

/-! ## What was loaded -/

/-- The instance that this factory makes from the view. -/
def MadeFrom (view : JsMap String V) (service : String × Factory V) (made : String × V) : Prop :=
  service.1 = made.1 ∧ service.2 view = .ok made.2

/-- The registrations that a plugin of this name asks for, in order: each instance under the
namespaced key, then under the bare one. -/
def registrationsOf (pluginName : String) (instances : List (String × V)) : List (String × V) :=
  instances.flatMap fun made => [(pluginName ++ "." ++ made.1, made.2), made]

/-- A plugin that was loaded. Its view has exactly the declared dependencies as keys, and each of
its services has the instance its factory made from the view. -/
structure LoadedPlugin (V : Type) where
  plugin : PluginDefinition V
  view : JsMap String V
  instances : List (String × V)
  view_keys : ∀ key, view.has key = true ↔ key ∈ plugin.dependencies
  made : plugin.services.entries.Forall₂ (MadeFrom view) instances

namespace LoadedPlugin

def registrations (l : LoadedPlugin V) : List (String × V) :=
  registrationsOf l.plugin.name l.instances

/-- One call for each service, with the view. -/
def calls (l : LoadedPlugin V) : List (FactoryCall V) :=
  l.plugin.services.entries.map fun service => ⟨l.plugin, service.1, l.view⟩

end LoadedPlugin

/-- The first plugin of each name, in list order. -/
def firstOccurrences : List (PluginDefinition V) → List (PluginDefinition V)
  | [] => []
  | plugin :: plugins =>
    plugin :: (firstOccurrences plugins).filter fun other => decide (other.name ≠ plugin.name)

theorem mem_names_firstOccurrences {plugins : List (PluginDefinition V)} {name : String} :
    name ∈ (firstOccurrences plugins).map (·.name) ↔ name ∈ plugins.map (·.name) := by
  induction plugins with
  | nil => rfl
  | cons plugin plugins ih =>
    by_cases hname : name = plugin.name
    · simp [firstOccurrences, hname]
    · have hkept : name ∈ ((firstOccurrences plugins).filter
            fun other => decide (other.name ≠ plugin.name)).map (·.name) ↔
          name ∈ (firstOccurrences plugins).map (·.name) := by
        simp only [List.mem_map, List.mem_filter, decide_eq_true_eq]
        constructor
        · rintro ⟨other, ⟨hmem, _⟩, rfl⟩
          exact ⟨other, hmem, rfl⟩
        · rintro ⟨other, hmem, rfl⟩
          exact ⟨other, ⟨hmem, hname⟩, rfl⟩
      rw [firstOccurrences, List.map_cons, List.map_cons, List.mem_cons, List.mem_cons, hkept, ih]

theorem nodup_names_firstOccurrences (plugins : List (PluginDefinition V)) :
    ((firstOccurrences plugins).map (·.name)).Nodup := by
  induction plugins with
  | nil => apply List.nodup_nil
  | cons plugin plugins ih =>
    rw [firstOccurrences, List.map_cons, List.nodup_cons]
    refine ⟨?_, ih.sublist (List.filter_sublist.map _)⟩
    intro hmem
    obtain ⟨other, hother, hname⟩ := List.mem_map.1 hmem
    have hne : other.name ≠ plugin.name := by simpa using (List.mem_filter.1 hother).2
    exact hne hname

/-! ## The view -/

theorem get_foldl_view (services : DIContainer V) (keys : List String) (view : JsMap String V)
    (key : String) :
    (keys.foldl (fun view key =>
      match services.get key with
      | some value => view.set key value
      | none => view) view).get key =
      if key ∈ keys then (services.get key).or (view.get key) else view.get key := by
  induction keys generalizing view with
  | nil => rfl
  | cons first keys ih =>
    rw [List.foldl_cons, ih]
    cases hget : services.get first with
    | none =>
      by_cases hkey : key = first
      · subst hkey
        simp [hget]
      · simp [hkey]
    | some value =>
      simp only [JsMap.get_set]
      by_cases hkey : key = first
      · subst hkey
        simp [hget]
      · simp [hkey]

theorem get_sandboxedView (services : DIContainer V) (keys : List String) (key : String) :
    (services.sandboxedView keys).get key = if key ∈ keys then services.get key else none := by
  refine (get_foldl_view services keys .empty key).trans ?_
  rw [JsMap.get_empty, Option.or_none]

/-! ## One plugin -/

/-- The container answers every key as the registrations asked for so far do, in which the first one
of a key wins. -/
def Answers (container : DIContainer V) (asked : List (String × V)) : Prop :=
  ∀ key, container.get key = asked.lookup key

theorem lookup_concat (asked : List (String × V)) (key : String) (value : V) (key' : String) :
    (asked ++ [(key, value)]).lookup key' =
      (asked.lookup key').or (if key' = key then some value else none) := by
  rw [List.lookup_append, List.lookup_cons, List.lookup_nil]
  congr 1
  by_cases h : key' = key
  · simp [h]
  · have hbeq : (key' == key) = false := by simpa using h
    simp [h, hbeq]

/-- A registration that succeeds took a free key. -/
theorem register_ok {container container' : DIContainer V} {asked : List (String × V)}
    {key : String} {value : V} (hans : Answers container asked)
    (h : container.register key value = .ok container') :
    asked.lookup key = none ∧ Answers container' (asked ++ [(key, value)]) := by
  unfold DIContainer.register at h
  split at h
  · cases h
  · rename_i hfree
    cases h
    have hnone : container.get key = none := by simpa [JsMap.has] using hfree
    have hask : asked.lookup key = none := by rw [← hans, hnone]
    refine ⟨hask, fun key' => ?_⟩
    show (container.set key value).get key' = _
    rw [JsMap.get_set, lookup_concat]
    split
    · rename_i heq
      simp [heq, hask]
    · rw [hans, Option.or_none]

/-- Asking for a taken key changes nothing. -/
theorem Answers.taken {container : DIContainer V} {asked : List (String × V)} {key : String}
    (hans : Answers container asked) (h : container.has key = true) (value : V) :
    Answers container (asked ++ [(key, value)]) := by
  intro key'
  rw [lookup_concat]
  split
  · rename_i heq
    have hsome : (asked.lookup key).isSome = true := by rw [← hans]; exact h
    obtain ⟨taken, htaken⟩ := Option.isSome_iff_exists.1 hsome
    rw [hans, heq, htaken, Option.some_or]
  · rw [hans, Option.or_none]

theorem registerService_ok {pluginName serviceName : String} {factory : Factory V}
    {deps : JsMap String V} {container container' : DIContainer V} {asked : List (String × V)}
    (hans : Answers container asked)
    (h : registerService pluginName serviceName factory deps container = (.ok (), container')) :
    ∃ value, factory deps = .ok value ∧ asked.lookup (pluginName ++ "." ++ serviceName) = none ∧
      Answers container'
        (asked ++ [(pluginName ++ "." ++ serviceName, value), (serviceName, value)]) := by
  unfold registerService at h
  split at h
  · cases h
  · rename_i value hvalue
    split at h
    · cases h
    · rename_i first hfirst
      obtain ⟨hfree, hans'⟩ := register_ok hans hfirst
      have hsplit : asked ++ [(pluginName ++ "." ++ serviceName, value), (serviceName, value)] =
          (asked ++ [(pluginName ++ "." ++ serviceName, value)]) ++ [(serviceName, value)] := by
        simp
      refine ⟨value, hvalue, hfree, ?_⟩
      rw [hsplit]
      split at h
      · rename_i htaken
        cases h
        exact hans'.taken htaken value
      · split at h
        · cases h
        · rename_i second hsecond
          cases h
          exact (register_ok hans' hsecond).2

/-- **The services of one plugin**: each factory is called once, with the view, and its instance is
found under the namespaced key. -/
theorem registerServices_ok {plugin : PluginDefinition V} {deps : JsMap String V}
    {services : List (String × Factory V)} {container container' : DIContainer V}
    {asked : List (String × V)} (hans : Answers container asked)
    (h : registerServices plugin.name deps services container = (.ok (), container')) :
    ∃ instances, services.Forall₂ (MadeFrom deps) instances ∧
      Answers container' (asked ++ registrationsOf plugin.name instances) ∧
      (∀ made ∈ instances,
        container'.get (plugin.name ++ "." ++ made.1) = some made.2) ∧
      registerServicesCalls plugin deps services container =
        services.map fun service => ⟨plugin, service.1, deps⟩ := by
  induction services generalizing container asked with
  | nil =>
    cases h
    refine ⟨[], .nil, ?_, by simp, rfl⟩
    simpa [registrationsOf] using hans
  | cons service services ih =>
    obtain ⟨serviceName, factory⟩ := service
    rw [registerServices] at h
    split at h
    · cases h
    · rename_i after hservice
      obtain ⟨value, hvalue, hfree, hafter⟩ := registerService_ok hans hservice
      obtain ⟨instances, hmade, hans', hown, hcalls⟩ := ih hafter h
      have hall : asked ++ registrationsOf plugin.name ((serviceName, value) :: instances) =
          asked ++ [(plugin.name ++ "." ++ serviceName, value), (serviceName, value)] ++
            registrationsOf plugin.name instances := by
        simp [registrationsOf]
      refine ⟨(serviceName, value) :: instances, .cons ⟨rfl, hvalue⟩ hmade, ?_, ?_, ?_⟩
      · rw [hall]
        exact hans'
      · intro made hmem
        rcases List.mem_cons.1 hmem with rfl | hmem
        · -- the key was free, so the instance is the first to ask for it
          rw [hans', List.lookup_append, List.lookup_append, hfree]
          simp
        · exact hown made hmem
      · rw [registerServicesCalls, hservice, List.map_cons]
        exact congrArg _ hcalls

/-! ## The loop over the plugins -/

/-- What holds of the registry after the plugins of `ls` were loaded in this order. -/
structure Loaded (registry : PluginRegistry V) (ls : List (LoadedPlugin V)) : Prop where
  names : registry.loaded = ls.map (·.plugin.name)
  answers : Answers registry.container (ls.flatMap LoadedPlugin.registrations)
  /-- Under the namespaced key there is the plugin's own instance. -/
  own : ∀ l ∈ ls, ∀ made ∈ l.instances,
    registry.container.get (l.plugin.name ++ "." ++ made.1) = some made.2
  /-- Each dependency was bound to what the plugins before had registered for it. -/
  earlier : ∀ before l after, ls = before ++ l :: after → ∀ dep ∈ l.plugin.dependencies,
    l.view.get dep = (before.flatMap LoadedPlugin.registrations).lookup dep

theorem loaded_fresh : Loaded (⟨.empty, []⟩ : PluginRegistry V) [] where
  names := rfl
  answers := fun _ => rfl
  own := by simp
  earlier := by simp

/-- A binding in the container stays. -/
theorem Answers.get_append {container container' : DIContainer V} {asked more : List (String × V)}
    (hans : Answers container asked) (hans' : Answers container' (asked ++ more)) {key : String}
    {value : V} (h : container.get key = some value) : container'.get key = some value := by
  rw [hans] at h
  rw [hans', List.lookup_append, h, Option.some_or]

theorem view_keys_of_find {container : DIContainer V} {dependencies : List String}
    (h : dependencies.find? (fun dep => !container.has dep) = none) (key : String) :
    (container.sandboxedView dependencies).has key = true ↔ key ∈ dependencies := by
  have hall : ∀ dep ∈ dependencies, container.has dep = true := by
    intro dep hdep
    simpa using List.find?_eq_none.1 h dep hdep
  rw [JsMap.has, get_sandboxedView]
  constructor
  · intro hsome
    by_contra hkey
    rw [if_neg hkey] at hsome
    cases hsome
  · intro hkey
    rw [if_pos hkey]
    exact hall key hkey

/-- **One round of the loop.** A plugin whose name was loaded is passed over, any other is loaded. -/
theorem load_ok {plugin : PluginDefinition V} {registry registry' : PluginRegistry V}
    {ls : List (LoadedPlugin V)} (hinv : Loaded registry ls)
    (h : load plugin registry = (.ok (), registry')) :
    (plugin.name ∈ registry.loaded ∧ registry' = registry ∧ loadCalls plugin registry = []) ∨
      (plugin.name ∉ registry.loaded ∧ ∃ l : LoadedPlugin V, l.plugin = plugin ∧
        Loaded registry' (ls ++ [l]) ∧ loadCalls plugin registry = l.calls) := by
  unfold load at h
  split at h
  · rename_i hname
    cases h
    exact .inl ⟨hname, rfl, by simp [loadCalls, hname]⟩
  · rename_i hname
    split at h
    · cases h
    · rename_i hfind
      simp only at h
      split at h
      · cases h
      · rename_i container hservices
        cases h
        obtain ⟨instances, hmade, hans, hown, hcalls⟩ :=
          registerServices_ok hinv.answers hservices
        let l : LoadedPlugin V :=
          ⟨plugin, _, instances, view_keys_of_find hfind, hmade⟩
        refine .inr ⟨hname, l, rfl, ?_, ?_⟩
        · have hall : (ls ++ [l]).flatMap LoadedPlugin.registrations =
              ls.flatMap LoadedPlugin.registrations ++ registrationsOf plugin.name instances := by
            simp [l, LoadedPlugin.registrations]
          refine ⟨?_, ?_, ?_, ?_⟩
          · simp [hinv.names, l]
          · rw [hall]
            exact hans
          · intro other hother made hmem
            rcases List.mem_append.1 hother with hother | hother
            · exact hinv.answers.get_append hans (hinv.own other hother made hmem)
            · obtain rfl := List.mem_singleton.1 hother
              exact hown made hmem
          · intro before other after hsplit dep hdep
            rcases List.eq_nil_or_concat after with rfl | ⟨rest, last, rfl⟩
            · obtain ⟨rfl, hlast⟩ := List.append_inj' hsplit rfl
              obtain rfl := (List.cons.inj hlast).1
              show (registry.container.sandboxedView plugin.dependencies).get dep = _
              rw [get_sandboxedView, if_pos hdep]
              exact hinv.answers dep
            · have hsplit' : ls ++ [l] = (before ++ other :: rest) ++ [last] := by
                simpa using hsplit
              obtain ⟨hls, _⟩ := List.append_inj' hsplit' rfl
              exact hinv.earlier before other rest hls dep hdep
        · rw [loadCalls, if_neg hname, hfind]
          exact hcalls

/-- The plugins that the loop loads, when these names were loaded before. -/
theorem filter_firstOccurrences (plugin : PluginDefinition V) (plugins : List (PluginDefinition V))
    (loaded : List String) :
    (firstOccurrences (plugin :: plugins)).filter (fun other => decide (other.name ∉ loaded)) =
      if plugin.name ∈ loaded then
        (firstOccurrences plugins).filter fun other => decide (other.name ∉ loaded)
      else
        plugin :: (firstOccurrences plugins).filter fun other =>
          decide (other.name ∉ loaded ++ [plugin.name]) := by
  rw [firstOccurrences, List.filter_cons, List.filter_filter]
  split
  · rename_i hname
    have hname : plugin.name ∉ loaded := by simpa using hname
    rw [if_neg hname]
    congr 1
    apply List.filter_congr
    intro other _
    simp
  · rename_i hname
    have hname : plugin.name ∈ loaded := by simpa using hname
    rw [if_pos hname]
    apply List.filter_congr
    intro other _
    by_cases hother : other.name ∈ loaded
    · simp [hother]
    · have hne : other.name ≠ plugin.name := fun h => hother (h ▸ hname)
      simp [hother, hne]

theorem loadEach_ok {plugins : List (PluginDefinition V)} {registry registry' : PluginRegistry V}
    {ls : List (LoadedPlugin V)} (hinv : Loaded registry ls)
    (h : loadEach plugins registry = (.ok (), registry')) :
    ∃ new : List (LoadedPlugin V), Loaded registry' (ls ++ new) ∧
      new.map (·.plugin) = (firstOccurrences plugins).filter
        (fun plugin => decide (plugin.name ∉ registry.loaded)) ∧
      loadEachCalls plugins registry = new.flatMap LoadedPlugin.calls := by
  induction plugins generalizing registry ls with
  | nil =>
    cases h
    exact ⟨[], by simpa using hinv, rfl, rfl⟩
  | cons plugin plugins ih =>
    rw [loadEach] at h
    split at h
    · cases h
    · rename_i next hload
      rw [filter_firstOccurrences, loadEachCalls, hload]
      rcases load_ok hinv hload with ⟨hname, rfl, hcalls⟩ | ⟨hname, l, rfl, hnext, hcalls⟩
      · obtain ⟨new, hnew, hplugins, hrest⟩ := ih hinv h
        refine ⟨new, hnew, ?_, ?_⟩
        · rw [if_pos hname, hplugins]
        · rw [hcalls]
          exact hrest
      · obtain ⟨new, hnew, hplugins, hrest⟩ := ih hnext h
        have hloaded : next.loaded = registry.loaded ++ [l.plugin.name] := by
          rw [hnext.names, hinv.names]
          simp
        refine ⟨l :: new, by simpa using hnew, ?_, ?_⟩
        · rw [if_neg hname, List.map_cons, hplugins, hloaded]
        · rw [hcalls, List.flatMap_cons]
          exact congrArg _ hrest

theorem Loaded.has_bare {registry : PluginRegistry V} {ls : List (LoadedPlugin V)}
    (hinv : Loaded registry ls) {l : LoadedPlugin V} (hl : l ∈ ls) {made : String × V}
    (hmade : made ∈ l.instances) : registry.container.has made.1 = true := by
  have hreg : made ∈ l.registrations := by
    apply List.mem_flatMap.2
    exact ⟨made, hmade, by simp⟩
  rw [JsMap.has, hinv.answers, List.lookup_isSome_iff]
  exact ⟨made, List.mem_flatMap.2 ⟨l, hl, hreg⟩, by simp⟩

/-! ## The whole load -/

/-- **What a load that resolves has done.** The first plugin of every name was loaded, in list
order; every factory of a loaded plugin was called once, with the plugin's view, whose keys are the
declared dependencies, each bound to what a plugin loaded before had registered; the container has
every instance under its namespaced key and something under the bare one, and answers every key with
the first registration that asked for it. -/
theorem loadAll_resolves {plugins : List (PluginDefinition V)} {registry : PluginRegistry V}
    (h : loadAll plugins ⟨.empty, []⟩ = some (.ok (), registry)) :
    ∃ ls : List (LoadedPlugin V),
      ls.map (·.plugin) = firstOccurrences plugins ∧
      registry.loaded = (firstOccurrences plugins).map (·.name) ∧
      (registry.loaded.Nodup ∧ ∀ name, name ∈ registry.loaded ↔ name ∈ plugins.map (·.name)) ∧
      loadAllCalls plugins ⟨.empty, []⟩ = ls.flatMap LoadedPlugin.calls ∧
      (∀ before l after, ls = before ++ l :: after → ∀ dep ∈ l.plugin.dependencies,
        ∃ value, l.view.get dep = some value ∧
          (before.flatMap LoadedPlugin.registrations).lookup dep = some value) ∧
      (∀ l ∈ ls, ∀ made ∈ l.instances,
        registry.container.get (l.plugin.name ++ "." ++ made.1) = some made.2 ∧
        registry.container.has made.1 = true) ∧
      ∀ key, registry.container.get key =
        (ls.flatMap LoadedPlugin.registrations).lookup key := by
  unfold loadAll at h
  split at h
  · cases h
  · cases h
  · rename_i hdetect
    obtain ⟨ls, hinv, hplugins, hcalls⟩ := loadEach_ok loaded_fresh (Option.some.inj h)
    rw [List.nil_append] at hinv
    have hfirst : ls.map (·.plugin) = firstOccurrences plugins := by
      simpa using hplugins
    have hloaded : registry.loaded = (firstOccurrences plugins).map (·.name) := by
      rw [hinv.names, ← hfirst, List.map_map]
      rfl
    refine ⟨ls, hfirst, hloaded, ⟨?_, fun name => ?_⟩, ?_, ?_, ?_, hinv.answers⟩
    · rw [hloaded]
      apply nodup_names_firstOccurrences
    · rw [hloaded, mem_names_firstOccurrences]
    · rw [loadAllCalls, hdetect]
      exact hcalls
    · intro before l after hsplit dep hdep
      have hhas : (l.view.get dep).isSome = true := (l.view_keys dep).2 hdep
      obtain ⟨value, hvalue⟩ := Option.isSome_iff_exists.1 hhas
      refine ⟨value, hvalue, ?_⟩
      rw [← hinv.earlier before l after hsplit dep hdep, hvalue]
    · intro l hl made hmade
      exact ⟨hinv.own l hl made hmade, hinv.has_bare hl hmade⟩

/-- The second `provider` is passed over, and `consumer` finds the bare key taken. -/
def repeatedPlugins : List (PluginDefinition String) :=
  [samplePlugin "provider" [] "db", samplePlugin "provider" [] "cache",
    samplePlugin "consumer" ["provider.db"] "db"]

theorem loadAll_resolves_repeatedPlugins :
    ∃ registry, loadAll repeatedPlugins ⟨.empty, []⟩ = some (.ok (), registry) ∧
      registry.loaded = ["provider", "consumer"] ∧
      ∃ ls : List (LoadedPlugin String), ls.map (·.plugin) = firstOccurrences repeatedPlugins ∧
        ∀ key, registry.container.get key =
          (ls.flatMap LoadedPlugin.registrations).lookup key := by
  have hok : (loadAll repeatedPlugins ⟨.empty, []⟩).map Prod.fst = some (.ok ()) := by decide
  obtain ⟨⟨_, registry⟩, hload, rfl⟩ := Option.map_eq_some_iff.1 hok
  obtain ⟨ls, hplugins, hloaded, _, _, _, _, hanswers⟩ := loadAll_resolves hload
  exact ⟨registry, hload, hloaded, ls, hplugins, hanswers⟩

end Intellibiz.Core
