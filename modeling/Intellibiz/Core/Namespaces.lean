import Intellibiz.Core.Plugins
import Intellibiz.Delimited

/-!
# Who writes a namespaced key

`PluginRegistry.load` puts each service into one map under two keys: `{pluginName}.{serviceName}`
and, if that is free, the bare `serviceName`.  A service name may contain dots, so that a bare name
can be the namespaced key of another plugin's service.

* `Registration` — a factory has returned, and its value is about to be registered.
* `loadAllRegistrations` — the registrations of `loadAll` on a new registry, in order.
* `Write` / `writesOf` — the calls of `services.set` that the registrations make, with their owner.
* `Unimpersonated` — at a moment, a listed namespaced key has no value but its owner's.
* `Apart` — what keeps a registration away from the keys of other services.

Principal results: `loadAll_container` (the writes are those of the container) and
`unimpersonated_iff`.
-/

namespace Intellibiz.Core

variable {V : Type}

/-! ## Registrations and writes -/

structure Registration (V : Type) where
  pluginName : String
  serviceName : String
  value : V

/-- The plugin and the service, by name. -/
def Registration.owner (r : Registration V) : String × String := (r.pluginName, r.serviceName)

/-- `{pluginName}.{serviceName}` -/
def keyOf (owner : String × String) : String := owner.1 ++ "." ++ owner.2

def Registration.key (r : Registration V) : String := keyOf r.owner

/-- `services.set(key, value)` on behalf of a service. -/
structure Write (V : Type) where
  owner : String × String
  key : String
  value : V

/-- The container after these writes. -/
def containerOf (ws : List (Write V)) : DIContainer V :=
  ws.foldl (fun container w => container.set w.key w.value) .empty

/-- The write that put the value under a key. -/
def holder (ws : List (Write V)) (key : String) : Option (Write V) :=
  ws.reverse.find? (fun w => w.key == key)

/-- The writes of a registration: none if it is refused. -/
def Registration.writes (container : DIContainer V) (r : Registration V) : List (Write V) :=
  if container.has r.key then []
  else if (container.set r.key r.value).has r.serviceName then [⟨r.owner, r.key, r.value⟩]
  else [⟨r.owner, r.key, r.value⟩, ⟨r.owner, r.serviceName, r.value⟩]

def writesOf (rs : List (Registration V)) : List (Write V) :=
  rs.foldl (fun ws r => ws ++ r.writes (containerOf ws)) []

theorem containerOf_snoc (ws : List (Write V)) (w : Write V) :
    containerOf (ws ++ [w]) = (containerOf ws).set w.key w.value := by
  simp [containerOf, List.foldl_append]

theorem holder_snoc (ws : List (Write V)) (w : Write V) (key : String) :
    holder (ws ++ [w]) key = if w.key = key then some w else holder ws key := by
  simp [holder, List.find?_cons]
  split <;> simp_all

theorem writesOf_snoc (rs : List (Registration V)) (r : Registration V) :
    writesOf (rs ++ [r]) = writesOf rs ++ r.writes (containerOf (writesOf rs)) := by
  simp [writesOf, List.foldl_append]

theorem mem_of_holder {ws : List (Write V)} {key : String} {w : Write V}
    (h : holder ws key = some w) : w ∈ ws ∧ w.key = key :=
  ⟨List.mem_reverse.1 (List.mem_of_find?_eq_some h), by simpa using List.find?_some h⟩

theorem get_containerOf (ws : List (Write V)) (key : String) :
    (containerOf ws).get key = (holder ws key).map (·.value) := by
  induction ws using List.reverseRecOn with
  | nil => rfl
  | append_singleton ws w ih =>
    rw [containerOf_snoc, JsMap.get_set, holder_snoc]
    by_cases hkey : w.key = key
    · rw [if_pos hkey.symm, if_pos hkey]
      rfl
    · rw [if_neg (Ne.symm hkey), if_neg hkey]
      exact ih

theorem has_containerOf (ws : List (Write V)) (key : String) :
    (containerOf ws).has key = (holder ws key).isSome := by
  rw [JsMap.has, get_containerOf, Option.isSome_map]

theorem containerOf_writes (ws : List (Write V)) (r : Registration V) :
    containerOf (ws ++ r.writes (containerOf ws)) =
      if (containerOf ws).has r.key then containerOf ws
      else (containerOf ws).withService r.pluginName r.serviceName r.value := by
  unfold Registration.writes
  split
  · rw [List.append_nil]
  · unfold DIContainer.withService
    dsimp only
    split
    · rename_i htaken
      rw [containerOf_snoc]
      exact (if_pos htaken).symm
    · rename_i hfree
      rw [show ∀ (a b : Write V), ws ++ [a, b] = ws ++ [a] ++ [b] by simp, containerOf_snoc,
        containerOf_snoc]
      exact (if_neg hfree).symm

/-! ## The registrations of a load -/

def registerServicesRegistrations (pluginName : String) (deps : JsMap String V) :
    List (String × Factory V) → DIContainer V → List (Registration V)
  | [], _ => []
  | (serviceName, factory) :: services, container =>
    match factory deps with
    | .error _ => []
    | .ok value =>
      ⟨pluginName, serviceName, value⟩ ::
        match registerService pluginName serviceName factory deps container with
        | (.error _, _) => []
        | (.ok (), container) =>
          registerServicesRegistrations pluginName deps services container

def loadRegistrations (plugin : PluginDefinition V) (registry : PluginRegistry V) :
    List (Registration V) :=
  if plugin.name ∈ registry.loaded then []
  else
    match plugin.dependencies.find? (fun dep => !registry.container.has dep) with
    | some _ => []
    | none =>
      registerServicesRegistrations plugin.name
        (registry.container.sandboxedView plugin.dependencies) plugin.services.entries
        registry.container

def loadEachRegistrations :
    List (PluginDefinition V) → PluginRegistry V → List (Registration V)
  | [], _ => []
  | plugin :: plugins, registry =>
    loadRegistrations plugin registry ++
      match load plugin registry with
      | (.error _, _) => []
      | (.ok (), registry) => loadEachRegistrations plugins registry

/-- The registrations of `new PluginRegistry().loadAll(plugins)`. -/
def loadAllRegistrations (plugins : List (PluginDefinition V)) : List (Registration V) :=
  match detectCircular plugins with
  | .error _ => []
  | .ok () => loadEachRegistrations plugins ⟨.empty, []⟩

theorem registerServices_container (pluginName : String) (deps : JsMap String V)
    (services : List (String × Factory V)) (done : List (Registration V)) :
    (registerServices pluginName deps services (containerOf (writesOf done))).2 =
      containerOf (writesOf (done ++
        registerServicesRegistrations pluginName deps services (containerOf (writesOf done)))) := by
  induction services generalizing done with
  | nil => rw [registerServicesRegistrations, List.append_nil, registerServices]
  | cons service services ih =>
    obtain ⟨serviceName, factory⟩ := service
    rw [registerServices, registerServicesRegistrations, registerService_eq]
    cases hfactory : factory deps with
    | error err => rw [List.append_nil]
    | ok value =>
      have hstep := containerOf_writes (writesOf done) ⟨pluginName, serviceName, value⟩
      rw [← writesOf_snoc] at hstep
      dsimp only
      by_cases hkey : (containerOf (writesOf done)).has (pluginName ++ "." ++ serviceName) = true
      · rw [if_pos hkey]
        exact (hstep.trans (if_pos hkey)).symm
      · rw [if_neg hkey]
        dsimp only
        have hnext : (containerOf (writesOf done)).withService pluginName serviceName value =
            containerOf (writesOf (done ++ [⟨pluginName, serviceName, value⟩])) :=
          (hstep.trans (if_neg hkey)).symm
        rw [hnext, ih, List.append_assoc]
        rfl

theorem load_container (plugin : PluginDefinition V) {registry : PluginRegistry V}
    {done : List (Registration V)} (h : registry.container = containerOf (writesOf done)) :
    (load plugin registry).2.container =
      containerOf (writesOf (done ++ loadRegistrations plugin registry)) := by
  unfold load loadRegistrations
  split
  · rw [List.append_nil, h]
  · cases hfound : plugin.dependencies.find? (fun dep => !registry.container.has dep) with
    | some dep =>
      dsimp only
      rw [List.append_nil, h]
    | none =>
      have hservices := registerServices_container plugin.name
        (registry.container.sandboxedView plugin.dependencies) plugin.services.entries done
      rw [← h] at hservices
      dsimp only
      split
      · rename_i hresult
        rw [hresult] at hservices
        exact hservices
      · rename_i hresult
        rw [hresult] at hservices
        exact hservices

theorem loadEach_container {plugins : List (PluginDefinition V)} {registry : PluginRegistry V}
    {done : List (Registration V)} (h : registry.container = containerOf (writesOf done)) :
    (loadEach plugins registry).2.container =
      containerOf (writesOf (done ++ loadEachRegistrations plugins registry)) := by
  induction plugins generalizing registry done with
  | nil => rw [loadEachRegistrations, List.append_nil, loadEach, h]
  | cons plugin plugins ih =>
    have hload := load_container plugin h
    rw [loadEach, loadEachRegistrations]
    rcases hresult : load plugin registry with ⟨_ | _, next⟩
    · rw [hresult] at hload
      dsimp only
      rw [List.append_nil]
      exact hload
    · rw [hresult] at hload
      dsimp only
      rw [ih hload, List.append_assoc]

/-- **The writes are those of the container**: after `loadAll` it holds what they wrote. -/
theorem loadAll_container {plugins : List (PluginDefinition V)} {result : Except PluginError Unit}
    {registry : PluginRegistry V}
    (h : loadAll plugins ⟨.empty, []⟩ = some (result, registry)) :
    registry.container = containerOf (writesOf (loadAllRegistrations plugins)) := by
  unfold loadAll at h
  unfold loadAllRegistrations
  split at h
  · rename_i hdetect
    rw [hdetect]
    cases h
    rfl
  · cases h
  · rename_i hdetect
    rw [hdetect]
    have hloop : (loadEach plugins ⟨.empty, []⟩).2.container =
        containerOf (writesOf ([] ++ loadEachRegistrations plugins ⟨.empty, []⟩)) :=
      loadEach_container rfl
    rw [Option.some.inj h] at hloop
    exact hloop

/-! ## Refusals -/

/-- The error of a load whose registration finds its key taken. -/
def Registration.refusal (r : Registration V) : PluginError :=
  let err := s!"DIContainer: service '{r.key}' is already registered. Use a unique key."
  .load r.pluginName s!"service factory '{r.serviceName}' threw: {err}"

theorem registerServices_refused {pluginName : String} {deps : JsMap String V}
    {services : List (String × Factory V)} {done pre rest : List (Registration V)}
    {r : Registration V}
    (h : registerServicesRegistrations pluginName deps services (containerOf (writesOf done)) =
      pre ++ r :: rest)
    (hheld : (containerOf (writesOf (done ++ pre))).has r.key = true) :
    rest = [] ∧ (registerServices pluginName deps services (containerOf (writesOf done))).1 =
      .error r.refusal := by
  induction services generalizing done pre with
  | nil => simp [registerServicesRegistrations] at h
  | cons service services ih =>
    obtain ⟨serviceName, factory⟩ := service
    rw [registerServicesRegistrations, registerService_eq] at h
    rw [registerServices, registerService_eq]
    cases hfactory : factory deps with
    | error err => simp [hfactory] at h
    | ok value =>
      rw [hfactory] at h
      dsimp only at h ⊢
      have hstep := containerOf_writes (writesOf done) ⟨pluginName, serviceName, value⟩
      rw [← writesOf_snoc] at hstep
      rcases List.cons_eq_append_iff.1 h with ⟨rfl, hr⟩ | ⟨pre, rfl, htail⟩
      · -- this is the registration
        obtain ⟨rfl, hrest⟩ := List.cons.inj hr
        rw [List.append_nil] at hheld
        have hkey : (containerOf (writesOf done)).has (pluginName ++ "." ++ serviceName) = true :=
          hheld
        rw [if_pos hkey] at hrest ⊢
        exact ⟨hrest, rfl⟩
      · by_cases hkey : (containerOf (writesOf done)).has (pluginName ++ "." ++ serviceName) = true
        · rw [if_pos hkey] at htail
          simp at htail
        · rw [if_neg hkey] at htail ⊢
          dsimp only at htail ⊢
          have hnext : (containerOf (writesOf done)).withService pluginName serviceName value =
              containerOf (writesOf (done ++ [⟨pluginName, serviceName, value⟩])) :=
            (hstep.trans (if_neg hkey)).symm
          rw [hnext] at htail ⊢
          exact ih htail (by simpa using hheld)

theorem load_refused {plugin : PluginDefinition V} {registry : PluginRegistry V}
    {done pre rest : List (Registration V)} {r : Registration V}
    (hcontainer : registry.container = containerOf (writesOf done))
    (h : loadRegistrations plugin registry = pre ++ r :: rest)
    (hheld : (containerOf (writesOf (done ++ pre))).has r.key = true) :
    rest = [] ∧ (load plugin registry).1 = .error r.refusal := by
  unfold loadRegistrations at h
  unfold load
  rw [hcontainer] at h ⊢
  split at h
  · simp at h
  · rename_i hdue
    rw [if_neg hdue]
    cases hfound : plugin.dependencies.find?
        (fun dep => !(containerOf (writesOf done)).has dep) with
    | some dep =>
      rw [hfound] at h
      simp at h
    | none =>
      rw [hfound] at h
      obtain ⟨hrest, hresult⟩ := registerServices_refused h hheld
      refine ⟨hrest, ?_⟩
      dsimp only
      split
      · rename_i herr
        rw [herr] at hresult
        exact hresult
      · rename_i hok
        rw [hok] at hresult
        cases hresult

theorem loadEach_refused {plugins : List (PluginDefinition V)} {registry : PluginRegistry V}
    {done pre rest : List (Registration V)} {r : Registration V}
    (hcontainer : registry.container = containerOf (writesOf done))
    (h : loadEachRegistrations plugins registry = pre ++ r :: rest)
    (hheld : (containerOf (writesOf (done ++ pre))).has r.key = true) :
    (loadEach plugins registry).1 = .error r.refusal := by
  induction plugins generalizing registry done pre with
  | nil => simp [loadEachRegistrations] at h
  | cons plugin plugins ih =>
    rw [loadEachRegistrations] at h
    rw [loadEach]
    rcases List.append_eq_append_iff.1 h with ⟨pre, rfl, hlater⟩ | ⟨tail, hfirst, htail⟩
    · -- a later plugin
      have hnext := load_container plugin hcontainer
      rcases hload : load plugin registry with ⟨_ | _, next⟩
      · rw [hload] at hlater
        simp at hlater
      · rw [hload] at hlater hnext
        exact ih hnext hlater (by simpa using hheld)
    · cases tail with
      | nil =>
        -- the last registration of this plugin was the one before
        rw [List.append_nil] at hfirst
        have hnext := load_container plugin hcontainer
        rcases hload : load plugin registry with ⟨_ | _, next⟩
        · rw [hload] at htail
          simp at htail
        · rw [hload] at htail hnext
          exact @ih next _ [] hnext htail.symm (by simpa [hfirst] using hheld)
      | cons r' tail =>
        obtain ⟨rfl, _⟩ := List.cons.inj htail
        obtain ⟨-, hresult⟩ := load_refused hcontainer hfirst hheld
        rcases hload : load plugin registry with ⟨_ | _, next⟩
        · rw [hload] at hresult
          exact hresult
        · rw [hload] at hresult
          cases hresult

/-- **A registration that finds its key taken fails the load.** -/
theorem loadAll_refused {plugins : List (PluginDefinition V)}
    {done rest : List (Registration V)} {r : Registration V}
    (h : loadAllRegistrations plugins = done ++ r :: rest)
    (hheld : (containerOf (writesOf done)).has r.key = true) :
    (loadAll plugins ⟨.empty, []⟩).map Prod.fst = some (.error r.refusal) := by
  unfold loadAllRegistrations at h
  unfold loadAll
  split at h
  · simp at h
  · rename_i hdetect
    rw [hdetect]
    have hloop : (loadEach plugins ⟨.empty, []⟩).1 = .error r.refusal :=
      @loadEach_refused V plugins ⟨.empty, []⟩ [] done rest r rfl h hheld
    exact congrArg some hloop

/-! ## Whose registrations they are -/

/-- A plugin of the list with this name has a service with this name. -/
def Listed (plugins : List (PluginDefinition V)) (owner : String × String) : Prop :=
  ∃ plugin ∈ plugins, plugin.name = owner.1 ∧ owner.2 ∈ plugin.services.entries.map Prod.fst

theorem registrations_initial (pluginName : String) (deps : JsMap String V)
    (services : List (String × Factory V)) (container : DIContainer V) :
    (registerServicesRegistrations pluginName deps services container).map Registration.owner <+:
      services.map fun service => (pluginName, service.1) := by
  induction services generalizing container with
  | nil => exact List.prefix_refl _
  | cons service services ih =>
    obtain ⟨serviceName, factory⟩ := service
    rw [registerServicesRegistrations]
    cases factory deps with
    | error err => exact List.nil_prefix
    | ok value =>
      rw [List.map_cons, List.map_cons]
      refine List.cons_prefix_cons.2 ⟨rfl, ?_⟩
      split
      · exact List.nil_prefix
      · exact ih _

/-- A registered value was returned by a factory of that name. -/
theorem registrations_made {pluginName : String} {deps : JsMap String V}
    {services : List (String × Factory V)} {container : DIContainer V} {r : Registration V}
    (h : r ∈ registerServicesRegistrations pluginName deps services container) :
    ∃ factory, (r.serviceName, factory) ∈ services ∧ factory deps = .ok r.value := by
  induction services generalizing container with
  | nil => cases h
  | cons service services ih =>
    obtain ⟨serviceName, factory⟩ := service
    rw [registerServicesRegistrations] at h
    cases hfactory : factory deps with
    | error err =>
      rw [hfactory] at h
      cases h
    | ok value =>
      rw [hfactory] at h
      rcases List.mem_cons.1 h with rfl | h
      · exact ⟨factory, by simp, hfactory⟩
      · split at h
        · cases h
        · obtain ⟨f, hf, hmade⟩ := ih h
          exact ⟨f, by simp [hf], hmade⟩

theorem loadRegistrations_owner {plugin : PluginDefinition V} {registry : PluginRegistry V} :
    (loadRegistrations plugin registry).map Registration.owner <+:
        plugin.services.entries.map (fun service => (plugin.name, service.1)) ∧
      (plugin.name ∈ registry.loaded → loadRegistrations plugin registry = []) := by
  unfold loadRegistrations
  split
  · exact ⟨List.nil_prefix, fun _ => rfl⟩
  · rename_i hdue
    refine ⟨?_, fun h => absurd h hdue⟩
    split
    · exact List.nil_prefix
    · apply registrations_initial

theorem loadRegistrations_made {plugin : PluginDefinition V} {registry : PluginRegistry V}
    {r : Registration V} (h : r ∈ loadRegistrations plugin registry) :
    plugin.name = r.pluginName ∧ ∃ factory view, (r.serviceName, factory) ∈ plugin.services.entries ∧
      factory view = .ok r.value := by
  have howner : r.owner ∈ plugin.services.entries.map (fun service => (plugin.name, service.1)) :=
    loadRegistrations_owner.1.subset (List.mem_map_of_mem h)
  obtain ⟨service, _, hservice⟩ := List.mem_map.1 howner
  refine ⟨congrArg Prod.fst hservice, ?_⟩
  unfold loadRegistrations at h
  split at h
  · cases h
  · split at h
    · cases h
    · obtain ⟨factory, hfactory, hmade⟩ := registrations_made h
      exact ⟨factory, _, hfactory, hmade⟩

/-- **Each value comes from its own factory.** -/
theorem loadEachRegistrations_made {plugins : List (PluginDefinition V)}
    {registry : PluginRegistry V} {r : Registration V}
    (h : r ∈ loadEachRegistrations plugins registry) :
    ∃ plugin ∈ plugins, plugin.name = r.pluginName ∧ ∃ factory view,
      (r.serviceName, factory) ∈ plugin.services.entries ∧ factory view = .ok r.value := by
  induction plugins generalizing registry with
  | nil => cases h
  | cons plugin plugins ih =>
    rw [loadEachRegistrations] at h
    rcases List.mem_append.1 h with h | h
    · exact ⟨plugin, by simp, loadRegistrations_made h⟩
    · split at h
      · cases h
      · obtain ⟨p, hp, hmade⟩ := ih h
        exact ⟨p, by simp [hp], hmade⟩

theorem loadEachRegistrations_due {plugins : List (PluginDefinition V)}
    {registry : PluginRegistry V} {r : Registration V}
    (h : r ∈ loadEachRegistrations plugins registry) : r.pluginName ∉ registry.loaded := by
  induction plugins generalizing registry with
  | nil => cases h
  | cons plugin plugins ih =>
    rw [loadEachRegistrations] at h
    rcases List.mem_append.1 h with h | h
    · rw [← (loadRegistrations_made h).1]
      intro hloaded
      rw [loadRegistrations_owner.2 hloaded] at h
      cases h
    · split at h
      · cases h
      · rename_i next hload
        have hsubset := load_loaded_subset plugin registry
        rw [hload] at hsubset
        exact fun hloaded => ih h (hsubset hloaded)

/-- No service is registered twice. -/
theorem loadEachRegistrations_nodup (plugins : List (PluginDefinition V))
    (registry : PluginRegistry V) :
    ((loadEachRegistrations plugins registry).map Registration.owner).Nodup := by
  induction plugins generalizing registry with
  | nil => exact List.nodup_nil
  | cons plugin plugins ih =>
    have hown : ((loadRegistrations plugin registry).map Registration.owner).Nodup := by
      refine List.Nodup.sublist loadRegistrations_owner.1.sublist ?_
      have hpairs : plugin.services.entries.map (fun service => (plugin.name, service.1)) =
          (plugin.services.entries.map Prod.fst).map (Prod.mk plugin.name) := by
        rw [List.map_map]
        rfl
      rw [hpairs]
      exact plugin.services.nodup.map (Prod.mk_right_injective _)
    rw [loadEachRegistrations, List.map_append]
    split
    · simpa using hown
    · rename_i next hload
      refine hown.append (ih next) ?_
      intro owner hfirst hlater
      obtain ⟨r, hr, rfl⟩ := List.mem_map.1 hfirst
      obtain ⟨r', hr', howner⟩ := List.mem_map.1 hlater
      have hname : r'.pluginName = plugin.name := by
        rw [(loadRegistrations_made hr).1]
        exact congrArg Prod.fst howner
      apply loadEachRegistrations_due hr'
      rw [hname]
      exact load_ok_mem hload

theorem loadAllRegistrations_spec (plugins : List (PluginDefinition V)) :
    ((loadAllRegistrations plugins).map Registration.owner).Nodup ∧
      ∀ r ∈ loadAllRegistrations plugins, Listed plugins r.owner := by
  unfold loadAllRegistrations
  split
  · exact ⟨List.nodup_nil, by simp⟩
  · refine ⟨loadEachRegistrations_nodup plugins _, fun r hr => ?_⟩
    obtain ⟨plugin, hplugin, hname, factory, _, hfactory, _⟩ := loadEachRegistrations_made hr
    exact ⟨plugin, hplugin, hname, List.mem_map_of_mem hfactory⟩

theorem mem_writes {container : DIContainer V} {r : Registration V} {w : Write V}
    (h : w ∈ r.writes container) : w.owner = r.owner ∧ w.value = r.value := by
  unfold Registration.writes at h
  split at h
  · cases h
  · split at h
    · obtain rfl := List.mem_singleton.1 h
      exact ⟨rfl, rfl⟩
    · rcases List.mem_cons.1 h with rfl | h
      · exact ⟨rfl, rfl⟩
      · obtain rfl := List.mem_singleton.1 h
        exact ⟨rfl, rfl⟩

theorem mem_writesOf {rs : List (Registration V)} {w : Write V} (h : w ∈ writesOf rs) :
    ∃ r ∈ rs, w.owner = r.owner ∧ w.value = r.value := by
  induction rs using List.reverseRecOn with
  | nil => cases h
  | append_singleton rs r ih =>
    rw [writesOf_snoc] at h
    rcases List.mem_append.1 h with h | h
    · obtain ⟨r', hr', hw⟩ := ih h
      exact ⟨r', by simp [hr'], hw⟩
    · exact ⟨r, by simp, mem_writes h⟩

theorem writesOf_mono {done rs : List (Registration V)} (h : done <+: rs) :
    writesOf done <+: writesOf rs := by
  obtain ⟨rest, rfl⟩ := h
  induction rest using List.reverseRecOn with
  | nil => rw [List.append_nil]
  | append_singleton rest r ih =>
    rw [← List.append_assoc, writesOf_snoc]
    exact ih.trans (List.prefix_append _ _)

/-! ## Impersonation -/

/-- Under the key of a listed service there is no value but the one it wrote itself. -/
def Unimpersonated (plugins : List (PluginDefinition V)) (ws : List (Write V)) : Prop :=
  ∀ owner, Listed plugins owner → ∀ value, (containerOf ws).get (keyOf owner) = some value →
    ∃ w, holder ws (keyOf owner) = some w ∧ w.value = value ∧ w.owner = owner

/-- No registration is refused because a plugin of another name holds its key. -/
def NoClash (plugins : List (PluginDefinition V)) : Prop :=
  ∀ done r rest, loadAllRegistrations plugins = done ++ r :: rest →
    ∀ w, holder (writesOf done) r.key = some w → w.owner.1 = r.pluginName

/-- A registration stays away from the keys of other services: its namespaced key is no other
service's, and its bare name is not the free key of a listed service. -/
structure Apart (plugins : List (PluginDefinition V)) (container : DIContainer V)
    (r : Registration V) : Prop where
  own : ∀ owner, Listed plugins owner → r.key = keyOf owner → r.owner = owner
  bare : ∀ owner, Listed plugins owner → r.serviceName = keyOf owner →
    container.has r.serviceName = true

theorem keyOf_ne_service (owner : String × String) : owner.2 ≠ keyOf owner := by
  intro h
  have hlength := congrArg String.length h
  simp only [keyOf, String.length_append] at hlength
  have hdot : ".".length = 1 := rfl
  omega

/-- **One registration** that stays away from the keys of others leaves every listed key to its
owner. -/
theorem writes_owned {plugins : List (PluginDefinition V)} {container : DIContainer V}
    {r : Registration V} (hapart : Apart plugins container r) :
    ∀ w ∈ r.writes container, ∀ owner, Listed plugins owner → w.key = keyOf owner →
      w.owner = owner := by
  intro w hw owner hlisted hkey
  unfold Registration.writes at hw
  split at hw
  · cases hw
  · split at hw
    · obtain rfl := List.mem_singleton.1 hw
      exact hapart.own owner hlisted hkey
    · rename_i hfree
      rcases List.mem_cons.1 hw with rfl | hw
      · exact hapart.own owner hlisted hkey
      · obtain rfl := List.mem_singleton.1 hw
        have htaken := hapart.bare owner hlisted hkey
        refine absurd ?_ hfree
        rw [JsMap.has, JsMap.get_set]
        split
        · rfl
        · exact htaken

/-- **A whole load** whose registrations stay apart. -/
theorem writesOf_owned {plugins : List (PluginDefinition V)} {rs : List (Registration V)}
    (h : ∀ done r rest, rs = done ++ r :: rest →
      Apart plugins (containerOf (writesOf done)) r) :
    ∀ w ∈ writesOf rs, ∀ owner, Listed plugins owner → w.key = keyOf owner →
      w.owner = owner := by
  induction rs using List.reverseRecOn with
  | nil => exact fun w hw => absurd hw List.not_mem_nil
  | append_singleton rs r ih =>
    intro w hw
    rw [writesOf_snoc] at hw
    rcases List.mem_append.1 hw with hw | hw
    · refine ih (fun done r' rest hsplit => ?_) w hw
      exact h done r' (rest ++ [r]) (by simp [hsplit])
    · exact writes_owned (h rs r [] rfl) w hw

theorem unimpersonated_of_apart {plugins : List (PluginDefinition V)}
    (h : ∀ done r rest, loadAllRegistrations plugins = done ++ r :: rest →
      Apart plugins (containerOf (writesOf done)) r) :
    (∀ ws, ws <+: writesOf (loadAllRegistrations plugins) → Unimpersonated plugins ws) ∧
      NoClash plugins := by
  have howned := writesOf_owned h
  refine ⟨fun ws hws owner howner value hvalue => ?_, fun done r rest hsplit w hw => ?_⟩
  · rw [get_containerOf, Option.map_eq_some_iff] at hvalue
    obtain ⟨w, hw, rfl⟩ := hvalue
    obtain ⟨hmem, hkey⟩ := mem_of_holder hw
    exact ⟨w, hw, rfl, howned w (hws.subset hmem) owner howner hkey⟩
  · obtain ⟨hmem, hkey⟩ := mem_of_holder hw
    have hstart : writesOf done <+: writesOf (loadAllRegistrations plugins) :=
      writesOf_mono (hsplit ▸ List.prefix_append _ _)
    have hr : r ∈ loadAllRegistrations plugins := by simp [hsplit]
    exact congrArg Prod.fst (howned w (hstart.subset hmem) r.owner
      ((loadAllRegistrations_spec plugins).2 r hr) hkey)

theorem Unimpersonated.owner_eq {plugins : List (PluginDefinition V)} {ws : List (Write V)}
    (h : Unimpersonated plugins ws) {owner : String × String} (howner : Listed plugins owner)
    {w : Write V} (hw : holder ws (keyOf owner) = some w) : w.owner = owner := by
  have hvalue : (containerOf ws).get (keyOf owner) = some w.value := by
    rw [get_containerOf, hw]
    rfl
  obtain ⟨w', hw', _, howned⟩ := h owner howner w.value hvalue
  rw [hw] at hw'
  cases hw'
  exact howned

/-- The first write that a registration makes, and the second if the bare name is free. -/
theorem writes_eq {container : DIContainer V} {r : Registration V}
    (hfree : container.has r.key = false) :
    [⟨r.owner, r.key, r.value⟩] <+: r.writes container ∧
      (container.has r.serviceName = false →
        r.writes container = [⟨r.owner, r.key, r.value⟩, ⟨r.owner, r.serviceName, r.value⟩]) := by
  unfold Registration.writes
  rw [hfree, if_neg Bool.false_ne_true]
  constructor
  · split
    · exact List.prefix_refl _
    · exact ⟨_, rfl⟩
  · intro hbare
    have hne : r.serviceName ≠ r.key := keyOf_ne_service r.owner
    rw [if_neg]
    rw [JsMap.has, JsMap.get_set, if_neg hne, ← JsMap.has, hbare]
    exact Bool.false_ne_true

/-- Where no moment shows an impersonation, the next registration is of a new owner, so its key is
free. -/
theorem key_free {plugins : List (PluginDefinition V)} {done rest : List (Registration V)}
    {r : Registration V} (hsplit : loadAllRegistrations plugins = done ++ r :: rest)
    (h : Unimpersonated plugins (writesOf done)) :
    (containerOf (writesOf done)).has r.key = false := by
  obtain ⟨hnodup, hlisted⟩ := loadAllRegistrations_spec plugins
  rw [has_containerOf, Option.isSome_eq_false_iff, Option.isNone_iff_eq_none]
  by_contra hsome
  obtain ⟨w, hw⟩ := Option.ne_none_iff_exists'.1 hsome
  obtain ⟨r', hr', howner, _⟩ := mem_writesOf (mem_of_holder hw).1
  rw [hsplit, List.map_append, List.map_cons, List.nodup_append] at hnodup
  refine hnodup.2.2 r'.owner (List.mem_map_of_mem hr') r.owner (by simp) ?_
  rw [← howner]
  exact h.owner_eq (hlisted r (by simp [hsplit])) hw

theorem apart_of_unimpersonated {plugins : List (PluginDefinition V)}
    (h : ∀ ws, ws <+: writesOf (loadAllRegistrations plugins) → Unimpersonated plugins ws)
    {done rest : List (Registration V)} {r : Registration V}
    (hsplit : loadAllRegistrations plugins = done ++ r :: rest) :
    Apart plugins (containerOf (writesOf done)) r := by
  have hfree := key_free hsplit (h _ (writesOf_mono (hsplit ▸ List.prefix_append _ _)))
  obtain ⟨hfirst, hsecond⟩ := writes_eq hfree
  -- the moment at which the registration has just made its write `w`
  have hlast : ∀ ws w, ws ++ [w] <+: r.writes (containerOf (writesOf done)) →
      ∀ owner, Listed plugins owner → w.key = keyOf owner → w.owner = owner := by
    intro ws w hws owner howner hkey
    have hnext : writesOf (done ++ [r]) <+: writesOf (loadAllRegistrations plugins) :=
      writesOf_mono ⟨rest, by simp [hsplit]⟩
    rw [writesOf_snoc] at hnext
    have hmoment := h _ (((List.prefix_append_right_inj _).2 hws).trans hnext)
    refine hmoment.owner_eq howner ?_
    rw [← List.append_assoc, holder_snoc, if_pos hkey]
  refine ⟨fun owner howner hkey => hlast [] _ hfirst owner howner hkey,
    fun owner howner hkey => ?_⟩
  by_contra hbare
  rw [Bool.not_eq_true] at hbare
  have howner' := hlast [⟨r.owner, r.key, r.value⟩] ⟨r.owner, r.serviceName, r.value⟩
    (hsecond hbare ▸ List.prefix_refl _) owner howner hkey
  exact keyOf_ne_service r.owner (hkey.trans (congrArg keyOf howner'.symm))

/-- **Namespaced services cannot be impersonated exactly if** every registration stays away from
the keys of other services. -/
theorem unimpersonated_iff (plugins : List (PluginDefinition V)) :
    ((∀ ws, ws <+: writesOf (loadAllRegistrations plugins) → Unimpersonated plugins ws) ∧
      NoClash plugins) ↔
    ∀ done r rest, loadAllRegistrations plugins = done ++ r :: rest →
      Apart plugins (containerOf (writesOf done)) r :=
  ⟨fun h _ _ _ hsplit => apart_of_unimpersonated h.1 hsplit, unimpersonated_of_apart⟩

/-! ## Names without dots -/

theorem keyOf_inj_of_no_dot {owner other : String × String} (h : '.' ∉ owner.2.toList)
    (h' : '.' ∉ other.2.toList) (heq : keyOf owner = keyOf other) : owner = other := by
  -- read backwards, the service name ends at the first dot
  have hcut : owner.2.toList.reverse ++ '.' :: owner.1.toList.reverse =
      other.2.toList.reverse ++ '.' :: other.1.toList.reverse := by
    have hlist := congrArg (fun s : String => s.toList.reverse) heq
    simpa [keyOf] using hlist
  have hcount : owner.2.toList.reverse.count '.' = other.2.toList.reverse.count '.' := by
    rw [List.count_reverse, List.count_reverse, List.count_eq_zero.2 h, List.count_eq_zero.2 h']
  obtain ⟨hservice, hplugin⟩ := Delimited.append_cons_inj hcount hcut
  exact Prod.ext (String.toList_inj.1 (List.reverse_injective hplugin))
    (String.toList_inj.1 (List.reverse_injective hservice))

/-- **Service names without dots**, as in the one-level names of most plugins, are safe whatever
the plugins are called. -/
theorem unimpersonated_of_no_dot {plugins : List (PluginDefinition V)}
    (h : ∀ owner, Listed plugins owner → '.' ∉ owner.2.toList) :
    (∀ ws, ws <+: writesOf (loadAllRegistrations plugins) → Unimpersonated plugins ws) ∧
      NoClash plugins := by
  refine unimpersonated_of_apart fun done r rest hsplit => ?_
  have hr : Listed plugins r.owner :=
    (loadAllRegistrations_spec plugins).2 r (by simp [hsplit])
  refine ⟨fun owner howner hkey => keyOf_inj_of_no_dot (h _ hr) (h _ howner) hkey,
    fun owner _ hkey => absurd ?_ (h _ hr)⟩
  have hname : r.owner.2 = keyOf owner := hkey
  rw [hname]
  simp [keyOf]

/-- `x` offers a service whose bare name is the key of the service of `stripe`. -/
def shadowingPlugins : List (PluginDefinition String) :=
  [samplePlugin "x" [] "stripe.provider", samplePlugin "stripe" [] "provider"]

/-- **The bare name takes the place of the namespaced key.** -/
theorem shadowingPlugins_impersonated :
    Listed shadowingPlugins ("stripe", "provider") ∧
      (containerOf (writesOf (loadAllRegistrations shadowingPlugins))).get "stripe.provider" =
        some "x" ∧
      (loadAll shadowingPlugins ⟨.empty, []⟩).map Prod.fst = some (.error (.load "stripe"
        ("service factory 'provider' threw: DIContainer: service 'stripe.provider' " ++
          "is already registered. Use a unique key."))) ∧
      ¬ Unimpersonated shadowingPlugins (writesOf (loadAllRegistrations shadowingPlugins)) ∧
      ¬ NoClash shadowingPlugins := by
  have hlisted : Listed shadowingPlugins ("stripe", "provider") :=
    ⟨samplePlugin "stripe" [] "provider", by simp [shadowingPlugins], rfl, by decide⟩
  have howner : (holder (writesOf (loadAllRegistrations shadowingPlugins)) "stripe.provider").map
      (·.owner) = some ("x", "stripe.provider") := by decide
  refine ⟨hlisted, by decide, by decide, fun h => ?_, fun h => ?_⟩
  · obtain ⟨w, hw, hwriter⟩ := Option.map_eq_some_iff.1 howner
    rw [h.owner_eq hlisted hw] at hwriter
    exact absurd hwriter (by decide)
  · obtain ⟨w, hw, hwriter⟩ := Option.map_eq_some_iff.1 howner
    have hclash := h [⟨"x", "stripe.provider", "x"⟩] ⟨"stripe", "provider", "stripe"⟩ [] rfl w hw
    rw [hwriter] at hclash
    exact absurd hclash (by decide)

end Intellibiz.Core
