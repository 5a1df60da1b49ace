import Intellibiz.Identity.Permissions

/-!
# Three permission engines

Model of `PermissionRegistry` (`crates/permissions/src/lib.rs`), of `permission_check`
(`crates/bindings/src/lib.rs`) and of the `permissionCheck` of the fallback
(`packages/core/src/native/bridge.ts`).  With the checks of `packages/identity/src/rbac/index.ts`
there are three engines, each with its own table of roles.

* `PermissionRegistry` — the roles of the crate, compiled once.
* `Native`, `Fallback` — what the bridge calls.
* `roleDefinitions` — the roles as lists of permissions, of which all three tables are made.

Principal results: `checkByName_compiled` (a registry of any roles answers as their lists do) and
`engines_agree`.
-/

namespace Intellibiz.Identity

open Db (Text)

def PermissionError.message : PermissionError → Text
  | .unknownRole name => "unknown role: '".toList ++ (name ++ "'".toList)
  | .unknownPermission name => "unknown permission: '".toList ++ (name ++ "'".toList)

/-! ## The registry -/

structure PermissionRegistry where
  roles : List CompiledRole

namespace PermissionRegistry

def withDefaults : PermissionRegistry := ⟨defaultRoles⟩

def getRole (self : PermissionRegistry) (name : Text) : Except PermissionError CompiledRole :=
  match self.roles.find? fun r => r.name = name with
  | some role => .ok role
  | none => .error (.unknownRole name)

def check (self : PermissionRegistry) (roleName : Text) (permission : Permission) :
    Except PermissionError Bool := do
  let role ← self.getRole roleName
  return role.can permission

def checkByName (self : PermissionRegistry) (roleName permissionName : Text) :
    Except PermissionError Bool := do
  let permission ← Permission.fromStr permissionName
  self.check roleName permission

end PermissionRegistry

namespace Native

/-- `permission_check`; a rejection carries the message. -/
def permissionCheck (role permission : Text) : Except Text Bool :=
  (PermissionRegistry.withDefaults.checkByName role permission).mapError PermissionError.message

end Native

namespace Fallback

def map : List (Text × List Text) :=
  [("owner".toList, ["read".toList, "write".toList, "delete".toList, "export".toList,
      "admin".toList, "billing".toList, "impersonate".toList, "sudo".toList]),
   ("admin".toList, ["read".toList, "write".toList, "delete".toList, "export".toList,
      "admin".toList, "billing".toList]),
   ("billing".toList, ["read".toList, "billing".toList, "export".toList]),
   ("member".toList, ["read".toList, "write".toList]),
   ("viewer".toList, ["read".toList])]

/-- The names that every object inherits; none of their values has a method `includes`. -/
def inherited : List Text :=
  ["constructor".toList, "__defineGetter__".toList, "__defineSetter__".toList,
   "hasOwnProperty".toList, "__lookupGetter__".toList, "__lookupSetter__".toList,
   "isPrototypeOf".toList, "propertyIsEnumerable".toList, "toString".toList, "valueOf".toList,
   "__proto__".toList, "toLocaleString".toList]

/-- `(map[role] ?? []).includes(permission)`; `none` is a rejection with a `TypeError`. -/
def permissionCheck (role permission : Text) : Option Bool :=
  match map.lookup role with
  | some permissions => some (permissions.contains permission)
  | none => if role ∈ inherited then none else some false

end Fallback

/-! ## Roles as lists of permissions -/

abbrev RoleDefinitions : Type := List (Text × List Permission)

open Permission in
def roleDefinitions : RoleDefinitions :=
  [("owner".toList, [Read, Write, Delete, Export, Admin, Billing, Impersonate, Sudo]),
   ("admin".toList, [Read, Write, Delete, Export, Admin, Billing]),
   ("billing".toList, [Read, Billing, Export]),
   ("member".toList, [Read, Write]),
   ("viewer".toList, [Read])]

namespace RoleDefinitions

/-- The table of the crate. -/
def compiled (defs : RoleDefinitions) : PermissionRegistry :=
  ⟨defs.map fun d => .new d.1 d.2⟩

/-- A table of names, as the fallback has it. -/
def named (defs : RoleDefinitions) : List (Text × List Text) :=
  defs.map fun d => (d.1, d.2.map fun p => p.name.toList)

/-- A table of masks, as the TypeScript checks have it. -/
def masks (defs : RoleDefinitions) : Table :=
  defs.map fun d => (d.1, (bits.mask d.2).toNat)

end RoleDefinitions

theorem compiled_roleDefinitions :
    PermissionRegistry.withDefaults = RoleDefinitions.compiled roleDefinitions := rfl

theorem named_roleDefinitions : Fallback.map = RoleDefinitions.named roleDefinitions := rfl

/-- The TypeScript table has one more role, without permissions. -/
theorem masks_roleDefinitions :
    ROLES = RoleDefinitions.masks roleDefinitions ++ [("anonymous".toList, 0)] := rfl

section Tables

variable {defs : RoleDefinitions} {role permission : Text}

theorem fromStr_eq_ok_iff {p : Permission} :
    Permission.fromStr permission = .ok p ↔ p.name.toList = permission := by
  constructor
  · intro h
    unfold Permission.fromStr at h
    split at h
    · rename_i q hq
      cases h
      simpa using List.find?_some hq
    · cases h
  · rintro rfl
    exact Permission.fromStr_name p

theorem name_injective {p q : Permission} (h : p.name.toList = q.name.toList) : p = q := by
  have hp := fromStr_eq_ok_iff.2 h
  rw [Permission.fromStr_name] at hp
  cases hp
  rfl

/-- A table with a value for each list has that of the list. -/
theorem lookup_table {β : Type} (f : List Permission → β) :
    (defs.map fun d => (d.1, f d.2)).lookup role = (defs.lookup role).map f := by
  induction defs with
  | nil => rfl
  | cons d defs ih =>
    obtain ⟨name, ps⟩ := d
    rw [List.map_cons, List.lookup_cons, List.lookup_cons, ih]
    cases role == name <;> rfl

theorem lookup_named : defs.named.lookup role =
    (defs.lookup role).map fun ps => ps.map fun p => p.name.toList :=
  lookup_table _

theorem lookup_masks :
    defs.masks.lookup role = (defs.lookup role).map fun ps => (bits.mask ps).toNat :=
  lookup_table fun ps => (bits.mask ps).toNat

theorem mask_new (name : Text) (ps : List Permission) :
    (CompiledRole.new name ps).mask = bits.mask ps :=
  foldl_asU32 ps

theorem getRole_compiled : defs.compiled.getRole role =
    match defs.lookup role with
    | some ps => .ok (.new role ps)
    | none => .error (.unknownRole role) := by
  unfold PermissionRegistry.getRole RoleDefinitions.compiled
  induction defs with
  | nil => rfl
  | cons d defs ih =>
    rw [List.map_cons, List.find?_cons, List.lookup_cons]
    by_cases h : d.1 = role
    · subst h
      simp [CompiledRole.new]
    · have hname : (CompiledRole.new d.1 d.2).name ≠ role := h
      have hkey : (role == d.1) = false := beq_eq_false_iff_ne.2 (Ne.symm h)
      simp only [hname, decide_false, hkey]
      exact ih

/-- **A registry answers for known names only, and as the list of the role does.** -/
theorem checkByName_compiled {b : Bool} : defs.compiled.checkByName role permission = .ok b ↔
    ∃ p ps, p.name.toList = permission ∧ defs.lookup role = some ps ∧ b = decide (p ∈ ps) := by
  unfold PermissionRegistry.checkByName PermissionRegistry.check
  rw [getRole_compiled]
  cases hp : Permission.fromStr permission with
  | error e =>
    refine iff_of_false nofun ?_
    rintro ⟨p, -, hname, -⟩
    rw [fromStr_eq_ok_iff.2 hname] at hp
    cases hp
  | ok p =>
    have hname := fromStr_eq_ok_iff.1 hp
    cases hrole : defs.lookup role with
    | none => simp [bind, Except.bind]
    | some ps =>
      have hcan : (CompiledRole.new role ps).can p = decide (p ∈ ps) := by
        rw [Bool.eq_iff_iff, CompiledRole.new_can, decide_eq_true_iff]
      simp only [bind, Except.bind, pure, Except.pure, hcan, Except.ok.injEq, Option.some.injEq]
      constructor
      · rintro rfl
        exact ⟨p, ps, hname, rfl, rfl⟩
      · rintro ⟨q, _, hq, rfl, rfl⟩
        rw [name_injective (hname.trans hq.symm)]

/-- A table of names grants the same. -/
theorem granted_named : defs.compiled.checkByName role permission = .ok true ↔
    ∃ names, defs.named.lookup role = some names ∧ permission ∈ names := by
  rw [checkByName_compiled, lookup_named]
  constructor
  · rintro ⟨p, ps, rfl, hrole, hmem⟩
    refine ⟨_, by rw [hrole]; rfl, List.mem_map.2 ⟨p, of_decide_eq_true hmem.symm, rfl⟩⟩
  · rintro ⟨names, hnames, hmem⟩
    obtain ⟨ps, hrole, rfl⟩ := Option.map_eq_some_iff.1 hnames
    obtain ⟨p, hp, rfl⟩ := List.mem_map.1 hmem
    exact ⟨p, ps, rfl, hrole, (decide_eq_true hp).symm⟩

/-- A table of masks grants the same, whatever roles without permissions it has besides. -/
theorem granted_masks {rest : Table} (hrest : ∀ e ∈ rest, e.2 = 0) :
    defs.compiled.checkByName role permission = .ok true ↔
      can (defs.masks ++ rest) role permission = true := by
  rw [checkByName_compiled]
  cases hrole : defs.lookup role with
  | some ps =>
    have hmask : roleMask (defs.masks ++ rest) role = (CompiledRole.new role ps).mask.toNat := by
      unfold roleMask
      rw [List.lookup_append, lookup_masks, hrole, mask_new]
      rfl
    rw [can_eq hmask]
    cases hp : Permission.fromStr permission with
    | error e =>
      refine iff_of_false ?_ nofun
      rintro ⟨p, -, hname, -⟩
      rw [fromStr_eq_ok_iff.2 hname] at hp
      cases hp
    | ok p =>
      have hname := fromStr_eq_ok_iff.1 hp
      rw [CompiledRole.new_can]
      constructor
      · rintro ⟨q, _, hq, hps, hmem⟩
        cases hps
        rw [name_injective (hname.trans hq.symm)]
        exact of_decide_eq_true hmem.symm
      · exact fun hmem => ⟨p, ps, hname, rfl, (decide_eq_true hmem).symm⟩
  | none =>
    have hmask : roleMask (defs.masks ++ rest) role = (⟨role, 0⟩ : CompiledRole).mask.toNat := by
      unfold roleMask
      rw [List.lookup_append, lookup_masks, hrole]
      cases hlookup : rest.lookup role with
      | none => rfl
      | some mask =>
        obtain ⟨before, after, hsplit, -⟩ := List.lookup_eq_some_iff.1 hlookup
        exact hrest (role, mask) (by simp [hsplit])
    rw [can_eq hmask]
    refine iff_of_false (by simp) ?_
    cases Permission.fromStr permission with
    | error e => nofun
    | ok p => simp [CompiledRole.can]

end Tables

/-- The roles of the crate are the defined ones. -/
theorem named_role_iff {role : Text} :
    (∃ ps, roleDefinitions.lookup role = some ps) ↔ ∃ r ∈ defaultRoles, r.name = role := by
  have hroles : defaultRoles = roleDefinitions.map fun d => .new d.1 d.2 := rfl
  simp only [← Option.isSome_iff_exists, List.lookup_isSome_iff, hroles, List.mem_map,
    exists_exists_and_eq_and, beq_iff_eq]
  exact exists_congr fun d => and_congr_right fun _ => eq_comm

theorem native_ok_iff {role permission : Text} {b : Bool} :
    Native.permissionCheck role permission = .ok b ↔
      (RoleDefinitions.compiled roleDefinitions).checkByName role permission = .ok b := by
  unfold Native.permissionCheck
  rw [compiled_roleDefinitions]
  cases (RoleDefinitions.compiled roleDefinitions).checkByName role permission <;>
    simp [Except.mapError]

theorem fallback_granted_iff {role permission : Text} :
    Fallback.permissionCheck role permission = some true ↔
      ∃ names, Fallback.map.lookup role = some names ∧ permission ∈ names := by
  unfold Fallback.permissionCheck
  cases Fallback.map.lookup role with
  | some names => simp
  | none =>
    refine iff_of_false ?_ (by simp)
    simp only
    split <;> simp

/-- No role is called like a name that every object inherits. -/
theorem fallback_rejects_iff {role permission : Text} :
    Fallback.permissionCheck role permission = none ↔ role ∈ Fallback.inherited := by
  unfold Fallback.permissionCheck
  cases hrole : Fallback.map.lookup role with
  | none =>
    simp only
    split <;> simp [*]
  | some names =>
    refine iff_of_false nofun fun hmem => ?_
    have hnone : ∀ name ∈ Fallback.inherited, Fallback.map.lookup name = none := by decide
    rw [hnone role hmem] at hrole
    cases hrole

/-- **The engines grant alike**: for all texts, what the crate grants is what the fallback grants
and what `can` grants in a context of this role.  The crate answers exactly for the names that it
knows, and the fallback for all but those that every object inherits. -/
theorem engines_agree (role permission : Text) :
    (Native.permissionCheck role permission = .ok true ↔
        Fallback.permissionCheck role permission = some true) ∧
      (Native.permissionCheck role permission = .ok true ↔
        can ROLES role permission = true) ∧
      ((∃ b, Native.permissionCheck role permission = .ok b) ↔
        (∃ r ∈ defaultRoles, r.name = role) ∧ ∃ p : Permission, p.name.toList = permission) ∧
      (Fallback.permissionCheck role permission = none ↔ role ∈ Fallback.inherited) := by
  refine ⟨?_, ?_, ?_, fallback_rejects_iff⟩
  · rw [native_ok_iff, granted_named, fallback_granted_iff, named_roleDefinitions]
  · rw [native_ok_iff, masks_roleDefinitions]
    exact granted_masks (by simp)
  · simp only [native_ok_iff, checkByName_compiled, ← named_role_iff]
    constructor
    · rintro ⟨b, p, ps, hname, hrole, -⟩
      exact ⟨⟨ps, hrole⟩, p, hname⟩
    · rintro ⟨⟨ps, hrole⟩, p, hname⟩
      exact ⟨_, p, ps, hname, hrole, rfl⟩

/-- The role without permissions, which the crate does not know. -/
example : (Native.permissionCheck "anonymous".toList "read".toList).toOption = none ∧
    Fallback.permissionCheck "anonymous".toList "read".toList = some false := by decide +kernel

end Intellibiz.Identity
