import Intellibiz.CycleSearch
import Intellibiz.JsMap

/-!
# The plugin registry

Model of `packages/core/src/plugin/registry.ts`.

* `DIContainer` — the container with its namespaced service keys.
* `detectCircular` — the depth-first search over the dependency strings, read as plugin names.
* `load` / `loadAll` — a plugin's dependencies are looked up in the container, as service keys.
* `NameCycle` / `ServiceCycle` — the cycles of the two readings of `dependencies`.

Principal results: `detectCircular_exact`, `loadAll_circular_iff` (what the search finds) and
`circular_reported_iff`.
-/

namespace Intellibiz.Core

open Relation

/-! ## The container -/

inductive PluginError where
  | load (pluginName reason : String)
  | circular (cycle : List String)
  deriving DecidableEq

variable {V : Type}

/-- A service instance by key. -/
abbrev DIContainer (V : Type) := JsMap String V

/-- A service factory returns an instance or throws an error with this text. -/
abbrev Factory (V : Type) := JsMap String V → Except String V

structure PluginDefinition (V : Type) where
  name : String
  dependencies : List String
  services : JsMap String (Factory V)

def DIContainer.register (key : String) (value : V) (services : DIContainer V) :
    Except String (DIContainer V) :=
  if services.has key then
    .error s!"DIContainer: service '{key}' is already registered. Use a unique key."
  else .ok (services.set key value)

/-- The view of the container restricted to declared dependencies. -/
def DIContainer.sandboxedView (allowedKeys : List String) (services : DIContainer V) :
    JsMap String V :=
  allowedKeys.foldl (fun view key =>
    match services.get key with
    | some value => view.set key value
    | none => view) .empty

/-! ## Loading -/

structure PluginRegistry (V : Type) where
  container : DIContainer V
  loaded : List String

/-- The body of the `try` block for one service. -/
def registerService (pluginName serviceName : String) (factory : Factory V)
    (deps : JsMap String V) (container : DIContainer V) : Except String Unit × DIContainer V :=
  match factory deps with
  | .error err => (.error err, container)
  | .ok value =>
    match container.register (pluginName ++ "." ++ serviceName) value with
    | .error err => (.error err, container)
    | .ok container =>
      if container.has serviceName then (.ok (), container)
      else
        match container.register serviceName value with
        | .error err => (.error err, container)
        | .ok container => (.ok (), container)

def registerServices (pluginName : String) (deps : JsMap String V) :
    List (String × Factory V) → DIContainer V → Except PluginError Unit × DIContainer V
  | [], container => (.ok (), container)
  | (serviceName, factory) :: services, container =>
    match registerService pluginName serviceName factory deps container with
    | (.error err, container) =>
      (.error (.load pluginName s!"service factory '{serviceName}' threw: {err}"), container)
    | (.ok (), container) => registerServices pluginName deps services container

/-- `registry.load(plugin)`; what was registered before an error stays. -/
def load (plugin : PluginDefinition V) (registry : PluginRegistry V) :
    Except PluginError Unit × PluginRegistry V :=
  if plugin.name ∈ registry.loaded then (.ok (), registry)
  else
    match plugin.dependencies.find? (fun dep => !registry.container.has dep) with
    | some dep =>
      (.error (.load plugin.name (s!"required dependency '{dep}' is not registered. " ++
        s!"Check that the plugin providing '{dep}' is loaded first.")), registry)
    | none =>
      let deps := registry.container.sandboxedView plugin.dependencies
      match registerServices plugin.name deps plugin.services.entries registry.container with
      | (.error err, container) => (.error err, { registry with container })
      | (.ok (), container) => (.ok (), ⟨container, registry.loaded ++ [plugin.name]⟩)

def loadEach : List (PluginDefinition V) → PluginRegistry V →
    Except PluginError Unit × PluginRegistry V
  | [], registry => (.ok (), registry)
  | plugin :: plugins, registry =>
    match load plugin registry with
    | (.error err, registry) => (.error err, registry)
    | (.ok (), registry) => loadEach plugins registry

/-! ## Circular dependencies -/

/-- The dependencies of the last plugin of each name. -/
def depMap (plugins : List (PluginDefinition V)) : JsMap String (List String) :=
  plugins.foldl (fun m plugin => m.set plugin.name plugin.dependencies) .empty

def dependenciesOf (plugins : List (PluginDefinition V)) (name : String) : List String :=
  ((depMap plugins).get name).getD []

/-- Every name that the search can meet. -/
def names (plugins : List (PluginDefinition V)) : Finset String :=
  (plugins.flatMap fun plugin => plugin.name :: plugin.dependencies).toFinset

/-- `dfs(plugin.name, [], new Set())` for every plugin; the depth is bounded by the number of
names. -/
def detectCircular (plugins : List (PluginDefinition V)) :
    Except (CycleSearch.Stop String) Unit :=
  plugins.foldlM (fun _ plugin =>
    (CycleSearch.search (dependenciesOf plugins) ((names plugins).card + 1) plugin.name [] []).map
      fun _ => ()) ()

/-- `loadAll`; `none` if the search was cut off. -/
def loadAll (plugins : List (PluginDefinition V)) (registry : PluginRegistry V) :
    Option (Except PluginError Unit × PluginRegistry V) :=
  match detectCircular plugins with
  | .error (.cycle vertices) => some (.error (.circular vertices), registry)
  | .error .cutOff => none
  | .ok () => some (loadEach plugins registry)

/-! ## One service -/

/-- The container once a service is registered under its two keys. -/
def DIContainer.withService (pluginName serviceName : String) (value : V)
    (container : DIContainer V) : DIContainer V :=
  let container := container.set (pluginName ++ "." ++ serviceName) value
  if container.has serviceName then container else container.set serviceName value

/-- Only the namespaced key can be refused: the bare one is asked for when it is free. -/
theorem registerService_eq (pluginName serviceName : String) (factory : Factory V)
    (deps : JsMap String V) (container : DIContainer V) :
    registerService pluginName serviceName factory deps container =
      match factory deps with
      | .error err => (.error err, container)
      | .ok value =>
        let key := pluginName ++ "." ++ serviceName
        if container.has key then
          (.error s!"DIContainer: service '{key}' is already registered. Use a unique key.",
            container)
        else (.ok (), container.withService pluginName serviceName value) := by
  unfold registerService
  cases factory deps with
  | error err => rfl
  | ok value =>
    by_cases hkey : container.has (pluginName ++ "." ++ serviceName) = true
    · simp only [DIContainer.register, if_pos hkey]
    · simp only [DIContainer.register, if_neg hkey, DIContainer.withService]
      split <;> simp_all

theorem has_withService {pluginName serviceName : String} {value : V} {container : DIContainer V}
    {key : String} : (container.withService pluginName serviceName value).has key = true ↔
      container.has key = true ∨ key = pluginName ++ "." ++ serviceName ∨ key = serviceName := by
  have hset : ∀ (c : DIContainer V) k v, (c.set k v).has key = true ↔ c.has key = true ∨ key = k := by
    intro c k v
    rw [JsMap.has, JsMap.get_set]
    by_cases h : key = k <;> simp [h, JsMap.has]
  unfold DIContainer.withService
  dsimp only
  split
  · rename_i htaken
    rw [hset, ← or_assoc]
    refine (or_iff_left_of_imp ?_).symm
    rintro rfl
    rwa [hset] at htaken
  · rw [hset, hset, or_assoc]

/-! ## The names of the loaded plugins -/

theorem load_loaded_subset (plugin : PluginDefinition V) (registry : PluginRegistry V) :
    registry.loaded ⊆ (load plugin registry).2.loaded := by
  unfold load
  split
  · exact List.Subset.refl _
  · split
    · exact List.Subset.refl _
    · dsimp only
      split
      · exact List.Subset.refl _
      · exact List.subset_append_left _ _

theorem load_ok_mem {plugin : PluginDefinition V} {registry registry' : PluginRegistry V}
    (h : load plugin registry = (.ok (), registry')) : plugin.name ∈ registry'.loaded := by
  unfold load at h
  split at h
  · rename_i hname
    cases h
    exact hname
  · split at h
    · cases h
    · dsimp only at h
      split at h
      · cases h
      · cases h
        simp

/-! ## Two readings of the dependencies -/

/-- A cycle of dependency strings read as plugin names. -/
def NameCycle (plugins : List (PluginDefinition V)) : Prop :=
  ∃ name, TransGen (CycleSearch.Edge (dependenciesOf plugins)) name name

/-- `p` depends on a service key that loading `q` registers. -/
def DependsOn (p q : PluginDefinition V) : Prop :=
  ∃ dep ∈ p.dependencies, ∃ service ∈ q.services.entries.map Prod.fst,
    dep = q.name ++ "." ++ service ∨ dep = service

/-- A cycle of dependency strings read as service keys. -/
def ServiceCycle (plugins : List (PluginDefinition V)) : Prop :=
  ∃ p ∈ plugins, TransGen (fun p q => q ∈ plugins ∧ DependsOn p q) p p

/-! ## What the search finds -/

theorem depMap_snoc (plugins : List (PluginDefinition V)) (plugin : PluginDefinition V) :
    depMap (plugins ++ [plugin]) = (depMap plugins).set plugin.name plugin.dependencies := by
  simp [depMap, List.foldl_append]

theorem mem_of_depMap {plugins : List (PluginDefinition V)} {name : String} {deps : List String}
    (h : (depMap plugins).get name = some deps) :
    ∃ plugin ∈ plugins, plugin.name = name ∧ plugin.dependencies = deps := by
  induction plugins using List.reverseRecOn with
  | nil => cases h
  | append_singleton plugins plugin ih =>
    rw [depMap_snoc, JsMap.get_set] at h
    split at h
    · rename_i hname
      cases h
      exact ⟨plugin, by simp, hname.symm, rfl⟩
    · obtain ⟨q, hq, hqname, hqdeps⟩ := ih h
      exact ⟨q, by simp [hq], hqname, hqdeps⟩

/-- A name with a dependency is the name of a plugin that lists it. -/
theorem plugin_of_edge {plugins : List (PluginDefinition V)} {a b : String}
    (h : CycleSearch.Edge (dependenciesOf plugins) a b) :
    ∃ plugin ∈ plugins, plugin.name = a ∧ b ∈ plugin.dependencies := by
  unfold CycleSearch.Edge dependenciesOf at h
  cases hget : (depMap plugins).get a with
  | none => simp [hget] at h
  | some deps =>
    obtain ⟨plugin, hplugin, hname, rfl⟩ := mem_of_depMap hget
    exact ⟨plugin, hplugin, hname, by simpa [hget] using h⟩

theorem names_closed {plugins : List (PluginDefinition V)} :
    ∀ a ∈ names plugins, ∀ b ∈ dependenciesOf plugins a, b ∈ names plugins := by
  intro a _ b hb
  obtain ⟨plugin, hplugin, _, hmem⟩ := plugin_of_edge hb
  rw [names, List.mem_toFinset, List.mem_flatMap]
  exact ⟨plugin, hplugin, by simp [hmem]⟩

theorem name_mem_names {plugins : List (PluginDefinition V)} {plugin : PluginDefinition V}
    (h : plugin ∈ plugins) : plugin.name ∈ names plugins := by
  rw [names, List.mem_toFinset, List.mem_flatMap]
  exact ⟨plugin, h, by simp⟩

theorem map_unit_error {ε α : Type} {x : Except ε α} {err : ε}
    (h : (x.map fun _ => ()) = .error err) : x = .error err := by
  cases x with
  | error e => cases h; rfl
  | ok a => cases h

theorem detectCircular_not_cutOff (plugins : List (PluginDefinition V)) :
    detectCircular plugins ≠ .error .cutOff := by
  intro h
  obtain ⟨plugin, hplugin, _, hsearch⟩ := CycleSearch.foldlM_error h
  exact CycleSearch.search_depth names_closed (name_mem_names hplugin) .nil (by simp) (by simp)
    (map_unit_error hsearch)

theorem detectCircular_closedWalk {plugins : List (PluginDefinition V)} {vertices : List String}
    (h : detectCircular plugins = .error (.cycle vertices)) :
    CycleSearch.ClosedWalk (CycleSearch.Edge (dependenciesOf plugins)) vertices := by
  obtain ⟨plugin, _, _, hsearch⟩ := CycleSearch.foldlM_error h
  exact CycleSearch.search_closedWalk (.singleton _) (map_unit_error hsearch)

theorem detectCircular_cycle {plugins : List (PluginDefinition V)} {vertices : List String}
    (h : detectCircular plugins = .error (.cycle vertices)) : NameCycle plugins :=
  (detectCircular_closedWalk h).exists_cycle

theorem detectCircular_ok {plugins : List (PluginDefinition V)}
    (h : detectCircular plugins = .ok ()) : ¬ NameCycle plugins := by
  have hround : ∀ (_ : Unit) (plugin : PluginDefinition V) (_ : Unit), True →
      (CycleSearch.search (dependenciesOf plugins) ((names plugins).card + 1) plugin.name []
        []).map (fun _ => ()) = .ok () →
      CycleSearch.Safe (dependenciesOf plugins) plugin.name ∧ True := by
    intro _ plugin _ _ hsearch
    cases hrun : CycleSearch.search (dependenciesOf plugins) ((names plugins).card + 1)
        plugin.name [] [] with
    | error e => rw [hrun] at hsearch; cases hsearch
    | ok visited => exact ⟨(CycleSearch.search_safe (by simp) hrun).1, trivial⟩
  obtain ⟨hsafe, _⟩ := CycleSearch.foldlM_ok (I := fun _ => True) hround trivial h
  rintro ⟨name, hcycle⟩
  -- the vertex has a successor, so it is the name of a plugin
  obtain ⟨b, hb, _⟩ := TransGen.head'_iff.1 hcycle
  obtain ⟨plugin, hplugin, rfl, _⟩ := plugin_of_edge hb
  exact hsafe plugin hplugin plugin.name .refl hcycle

/-! ### The graph of the definitions -/

/-- `b` is a dependency of the last definition named `a`. -/
def DependencyEdge (plugins : List (PluginDefinition V)) (a b : String) : Prop :=
  ∃ before plugin after, plugins = before ++ plugin :: after ∧ plugin.name = a ∧
    (∀ p ∈ after, p.name ≠ a) ∧ b ∈ plugin.dependencies

theorem dependencyEdge_snoc {plugins : List (PluginDefinition V)} {plugin : PluginDefinition V}
    {a b : String} : DependencyEdge (plugins ++ [plugin]) a b ↔
      if plugin.name = a then b ∈ plugin.dependencies else DependencyEdge plugins a b := by
  constructor
  · rintro ⟨before, p, after, heq, hname, hafter, hb⟩
    rcases after.eq_nil_or_concat with rfl | ⟨after, q, rfl⟩
    · obtain ⟨rfl, hp⟩ := List.append_inj' heq rfl
      cases hp
      rwa [if_pos hname]
    · rw [List.concat_eq_append, ← List.cons_append, ← List.append_assoc] at heq
      obtain ⟨rfl, hq⟩ := List.append_inj' heq rfl
      cases hq
      rw [if_neg (hafter plugin (by simp))]
      exact ⟨before, p, after, rfl, hname, fun x hx => hafter x (by simp [hx]), hb⟩
  · intro h
    split at h
    · rename_i hname
      exact ⟨plugins, plugin, [], rfl, hname, by simp, h⟩
    · rename_i hname
      obtain ⟨before, p, after, rfl, hp, hafter, hb⟩ := h
      refine ⟨before, p, after ++ [plugin], by simp, hp, fun x hx => ?_, hb⟩
      rcases List.mem_append.1 hx with hx | hx
      · exact hafter x hx
      · rw [List.mem_singleton.1 hx]
        exact hname

theorem edge_iff {plugins : List (PluginDefinition V)} {a b : String} :
    CycleSearch.Edge (dependenciesOf plugins) a b ↔ DependencyEdge plugins a b := by
  unfold CycleSearch.Edge dependenciesOf
  induction plugins using List.reverseRecOn with
  | nil => simp [depMap, DependencyEdge]
  | append_singleton plugins plugin ih =>
    rw [depMap_snoc, JsMap.get_set, dependencyEdge_snoc]
    by_cases hname : plugin.name = a
    · rw [if_pos hname.symm, if_pos hname]
      rfl
    · rw [if_neg (Ne.symm hname), if_neg hname]
      exact ih

/-- **The search is exact**: it ends, it reports a cycle if and only if there is one, and its
report is a closed walk. -/
theorem detectCircular_exact (plugins : List (PluginDefinition V)) :
    detectCircular plugins ≠ .error .cutOff ∧
      ((∃ cycle, detectCircular plugins = .error (.cycle cycle)) ↔
        ∃ name, TransGen (DependencyEdge plugins) name name) ∧
      ∀ cycle, detectCircular plugins = .error (.cycle cycle) →
        CycleSearch.ClosedWalk (DependencyEdge plugins) cycle := by
  have hgraph : CycleSearch.Edge (dependenciesOf plugins) = DependencyEdge plugins := by
    funext a b
    exact propext edge_iff
  rw [← hgraph]
  refine ⟨detectCircular_not_cutOff plugins, ⟨?_, fun hcycle => ?_⟩, ?_⟩
  · rintro ⟨cycle, h⟩
    exact detectCircular_cycle h
  · match hdetect : detectCircular plugins with
    | .error (.cycle cycle) => exact ⟨cycle, rfl⟩
    | .error .cutOff => exact absurd hdetect (detectCircular_not_cutOff plugins)
    | .ok () => exact absurd hcycle (detectCircular_ok hdetect)
  · intro cycle h
    exact detectCircular_closedWalk h

/-! ## What `loadAll` reports -/

theorem registerServices_error {pluginName : String} {deps : JsMap String V}
    {services : List (String × Factory V)} {container container' : DIContainer V}
    {err : PluginError}
    (h : registerServices pluginName deps services container = (.error err, container')) :
    ∃ reason, err = .load pluginName reason := by
  induction services generalizing container with
  | nil => cases h
  | cons service services ih =>
    rw [registerServices] at h
    split at h
    · cases h
      exact ⟨_, rfl⟩
    · exact ih h

theorem load_error {plugin : PluginDefinition V} {registry registry' : PluginRegistry V}
    {err : PluginError} (h : load plugin registry = (.error err, registry')) :
    ∃ reason, err = .load plugin.name reason := by
  unfold load at h
  split at h
  · cases h
  · split at h
    · cases h
      exact ⟨_, rfl⟩
    · simp only at h
      split at h
      · rename_i hservices
        cases h
        exact registerServices_error hservices
      · cases h

theorem loadEach_error {plugins : List (PluginDefinition V)} {registry registry' : PluginRegistry V}
    {err : PluginError} (h : loadEach plugins registry = (.error err, registry')) :
    ∃ pluginName reason, err = .load pluginName reason := by
  induction plugins generalizing registry with
  | nil => cases h
  | cons plugin plugins ih =>
    rw [loadEach] at h
    split at h
    · rename_i hload
      cases h
      exact ⟨_, load_error hload⟩
    · exact ih h

/-- **`loadAll` reports exactly the cycles of dependency strings read as plugin names.** -/
theorem loadAll_circular_iff (plugins : List (PluginDefinition V)) (registry : PluginRegistry V) :
    (∃ cycle registry', loadAll plugins registry = some (.error (.circular cycle), registry')) ↔
      NameCycle plugins := by
  unfold loadAll
  split
  · rename_i vertices hdetect
    exact ⟨fun _ => detectCircular_cycle hdetect, fun _ => ⟨vertices, registry, rfl⟩⟩
  · rename_i hdetect
    exact absurd hdetect (detectCircular_not_cutOff plugins)
  · rename_i hdetect
    refine ⟨fun ⟨cycle, registry', h⟩ => ?_, fun h => absurd h (detectCircular_ok hdetect)⟩
    obtain ⟨_, _, herr⟩ := loadEach_error (Option.some.inj h)
    cases herr

/-- **`loadAll` reports the cycles of service keys exactly on the lists on which both readings
agree about being cyclic**; the search always ends, and what it reports are the cycles of names. -/
theorem circular_reported_iff (plugins : List (PluginDefinition V)) (registry : PluginRegistry V) :
    (loadAll plugins registry).isSome ∧
      ((∃ cycle registry', loadAll plugins registry = some (.error (.circular cycle), registry')) ↔
        NameCycle plugins) ∧
      (((∃ cycle registry',
          loadAll plugins registry = some (.error (.circular cycle), registry')) ↔
        ServiceCycle plugins) ↔ (NameCycle plugins ↔ ServiceCycle plugins)) := by
  refine ⟨?_, loadAll_circular_iff plugins registry, by rw [loadAll_circular_iff]⟩
  unfold loadAll
  split
  · rfl
  · rename_i hdetect
    exact absurd hdetect (detectCircular_not_cutOff plugins)
  · rfl

/-! ### Two plugin lists -/

def samplePlugin (name : String) (dependencies : List String) (service : String) :
    PluginDefinition String :=
  ⟨name, dependencies, JsMap.empty.set service fun _ => .ok name⟩

/-- Each needs a service of the other. -/
def mutualPlugins : List (PluginDefinition String) :=
  [samplePlugin "a" ["b.svc"] "svc", samplePlugin "b" ["a.svc"] "svc"]

/-- The plugin `cache` needs the service `cache` of the plugin `redis`. -/
def layeredPlugins : List (PluginDefinition String) :=
  [samplePlugin "redis" [] "cache", samplePlugin "cache" ["cache"] "store"]

theorem serviceCycle_mutualPlugins : ServiceCycle mutualPlugins := by
  refine ⟨samplePlugin "a" ["b.svc"] "svc", by simp [mutualPlugins], ?_⟩
  refine .tail (.single (b := samplePlugin "b" ["a.svc"] "svc") ⟨by simp [mutualPlugins], ?_⟩)
    ⟨by simp [mutualPlugins], ?_⟩
  · exact ⟨"b.svc", by simp [samplePlugin], "svc", by decide, .inl (by decide)⟩
  · exact ⟨"a.svc", by simp [samplePlugin], "svc", by decide, .inl (by decide)⟩

theorem not_serviceCycle_layeredPlugins : ¬ ServiceCycle layeredPlugins := by
  -- `redis` needs nothing, and nobody needs what `cache` provides
  have hredis : ∀ p ∈ layeredPlugins, ∀ q ∈ layeredPlugins, DependsOn p q →
      p = samplePlugin "cache" ["cache"] "store" ∧ q = samplePlugin "redis" [] "cache" := by
    rintro p hp q hq ⟨dep, hdep, service, hservice, hkey⟩
    simp only [layeredPlugins, List.mem_cons, List.not_mem_nil, or_false] at hp hq
    rcases hp with rfl | rfl
    · cases hdep
    · rcases hq with rfl | rfl
      · exact ⟨rfl, rfl⟩
      · obtain rfl := List.mem_singleton.1 hdep
        obtain rfl := List.mem_singleton.1 hservice
        have hkeys : ¬ ("cache" = "cache" ++ "." ++ "store" ∨ "cache" = "store") := by decide
        exact absurd hkey hkeys
  rintro ⟨p, hp, hcycle⟩
  obtain ⟨q, ⟨hq, hpq⟩, hback⟩ := TransGen.head'_iff.1 hcycle
  obtain ⟨rfl, rfl⟩ := hredis p hp q hq hpq
  have hname : "redis" ≠ "cache" := by decide
  rcases ReflTransGen.cases_head hback with heq | ⟨x, ⟨hx, hqx⟩, _⟩
  · exact hname (congrArg PluginDefinition.name heq)
  · exact hname (congrArg PluginDefinition.name (hredis _ hq x hx hqx).1)

/-- **A missed cycle and a false alarm.** -/
theorem cycle_missed_and_false_alarm :
    (ServiceCycle mutualPlugins ∧ ¬ ∃ cycle registry',
      loadAll mutualPlugins ⟨.empty, []⟩ = some (.error (.circular cycle), registry')) ∧
    ¬ ServiceCycle layeredPlugins ∧ ∃ cycle registry',
      loadAll layeredPlugins ⟨.empty, []⟩ = some (.error (.circular cycle), registry') := by
  refine ⟨⟨serviceCycle_mutualPlugins, ?_⟩, not_serviceCycle_layeredPlugins, ?_⟩
  · rintro ⟨cycle, registry', h⟩
    have hload : (loadAll mutualPlugins ⟨.empty, []⟩).map Prod.fst =
        some (.error (.load "a" ("required dependency 'b.svc' is not registered. " ++
          "Check that the plugin providing 'b.svc' is loaded first."))) := by
      decide
    rw [h] at hload
    cases hload
  · exact ⟨["cache", "cache"], ⟨.empty, []⟩, rfl⟩

end Intellibiz.Core
