import Intellibiz.Bitmask
import Intellibiz.Identity.Tenancy

/-!
# Permissions as bits of a role

Model of the Rust permissions crate (`crates/permissions/src/lib.rs`) and of the TypeScript checks
(`packages/identity/src/rbac/index.ts`).

* `Permission`, `CompiledRole` — the crate; a mask is a word of 32 bits.
* `bits` — the same permissions as the flags of such a word.
* `roleMask`, `can`, `canAll`, `canAny` — the TypeScript checks, over any table of role masks;
  `ROLES` is the table of the source.

Principal results: `bitmask_checks_agree` (one comparison of masks is a check of each permission, on
both sides), `defaultRoles_roles` (the two tables of roles).
-/

namespace Intellibiz.Identity

open Db (Text)
open Bitmask (Flags)

/-! ## The crate -/

inductive Permission where
  | Read
  | Write
  | Delete
  | Export
  | Admin
  | Billing
  | Impersonate
  | Sudo
  deriving DecidableEq

inductive PermissionError where
  | unknownRole (name : Text)
  | unknownPermission (name : Text)
  deriving DecidableEq

namespace Permission

/-- The name that `from_str` reads. -/
def name : Permission → String
  | Read => "read"
  | Write => "write"
  | Delete => "delete"
  | Export => "export"
  | Admin => "admin"
  | Billing => "billing"
  | Impersonate => "impersonate"
  | Sudo => "sudo"

def all : List Permission := [Read, Write, Delete, Export, Admin, Billing, Impersonate, Sudo]

def fromStr (s : Text) : Except PermissionError Permission :=
  match all.find? fun p => p.name.toList = s with
  | some p => .ok p
  | none => .error (.unknownPermission s)

/-- The discriminant of the `#[repr(u32)]` enum. -/
def asU32 : Permission → BitVec 32
  | Read => 0b00000001
  | Write => 0b00000010
  | Delete => 0b00000100
  | Export => 0b00001000
  | Admin => 0b00010000
  | Billing => 0b00100000
  | Impersonate => 0b01000000
  | Sudo => 0b10000000

end Permission

structure CompiledRole where
  name : Text
  mask : BitVec 32
  deriving DecidableEq

namespace CompiledRole

def new (name : Text) (permissions : List Permission) : CompiledRole where
  name := name
  mask := permissions.foldl (fun acc p => acc ||| p.asU32) 0

def can (self : CompiledRole) (permission : Permission) : Bool :=
  self.mask &&& permission.asU32 != 0

def canAll (self : CompiledRole) (permissions : List Permission) : Bool :=
  let requiredMask := permissions.foldl (fun acc p => acc ||| p.asU32) 0
  self.mask &&& requiredMask == requiredMask

def canAny (self : CompiledRole) (permissions : List Permission) : Bool :=
  let anyMask := permissions.foldl (fun acc p => acc ||| p.asU32) 0
  self.mask &&& anyMask != 0

end CompiledRole

open Permission in
/-- The built-in roles. -/
def defaultRoles : List CompiledRole :=
  [.new "owner".toList [Read, Write, Delete, Export, Admin, Billing, Impersonate, Sudo],
   .new "admin".toList [Read, Write, Delete, Export, Admin, Billing],
   .new "billing".toList [Read, Billing, Export],
   .new "member".toList [Read, Write],
   .new "viewer".toList [Read]]

/-! ## The TypeScript checks -/

/-- A table from names to numbers below `2 ^ 32`. A name that an object inherits is `NaN` to `&`,
and so the `0` of a name that it lacks. -/
abbrev Table : Type := List (Text × ℕ)

def PERMISSIONS : Table :=
  [("read".toList, 0b00000001), ("write".toList, 0b00000010), ("delete".toList, 0b00000100),
   ("export".toList, 0b00001000), ("admin".toList, 0b00010000), ("billing".toList, 0b00100000),
   ("impersonate".toList, 0b01000000), ("sudo".toList, 0b10000000)]

def ROLES : Table :=
  [("owner".toList, 0b11111111), ("admin".toList, 0b00111111), ("billing".toList, 0b00101001),
   ("member".toList, 0b00000011), ("viewer".toList, 0b00000001), ("anonymous".toList, 0b00000000)]

/-- `a & b`: both to 32 bits, and the result a signed number. -/
def bitAnd (a b : ℕ) : ℤ := (BitVec.ofNat 32 a &&& BitVec.ofNat 32 b).toInt

section Checks

-- `ROLES`
variable (roles : Table)

def roleMask (role : Text) : ℕ := (roles.lookup role).getD 0

/-- `can`, in a context whose role is `role`. -/
def can (role permission : Text) : Bool :=
  match PERMISSIONS.lookup permission with
  | none => false
  | some bit => bitAnd (roleMask roles role) bit != 0

def canAll (role : Text) (permissions : List Text) : Bool :=
  permissions.all fun p => can roles role p

def canAny (role : Text) (permissions : List Text) : Bool :=
  permissions.any fun p => can roles role p

end Checks

/-! ## Permissions are flags -/

namespace Permission

/-- The bit of a permission. -/
def index : Permission → Fin 32
  | Read => 0
  | Write => 1
  | Delete => 2
  | Export => 3
  | Admin => 4
  | Billing => 5
  | Impersonate => 6
  | Sudo => 7

theorem index_injective : Function.Injective index := by
  intro p q h
  cases p <;> cases q <;> first | rfl | cases h

theorem fromStr_name (p : Permission) : fromStr p.name.toList = .ok p := by
  cases p <;> rfl

end Permission

/-- The permissions as the flags of a mask. -/
def bits : Flags 32 Permission where
  index := Permission.index
  injective := Permission.index_injective

theorem asU32_eq_bit (p : Permission) : p.asU32 = bits.bit p := by
  cases p <;> rfl

theorem foldl_asU32 (ps : List Permission) :
    ps.foldl (fun acc p => acc ||| p.asU32) 0 = bits.mask ps := by
  simp only [asU32_eq_bit]
  rfl

theorem CompiledRole.can_iff (r : CompiledRole) (p : Permission) :
    r.can p = true ↔ bits.Has r.mask p := by
  unfold CompiledRole.can Flags.Has
  rw [asU32_eq_bit, bne_iff_ne]

theorem CompiledRole.new_can (name : Text) (ps : List Permission) (p : Permission) :
    (CompiledRole.new name ps).can p = true ↔ p ∈ ps := by
  rw [CompiledRole.can_iff]
  unfold CompiledRole.new
  rw [foldl_asU32]
  exact Flags.has_mask ps p

theorem CompiledRole.canAll_iff (r : CompiledRole) (ps : List Permission) :
    r.canAll ps = true ↔ ∀ p ∈ ps, r.can p = true := by
  unfold CompiledRole.canAll
  simp only [foldl_asU32, beq_iff_eq, CompiledRole.can_iff]
  exact Flags.and_mask_eq_mask_iff r.mask ps

theorem CompiledRole.canAny_iff (r : CompiledRole) (ps : List Permission) :
    r.canAny ps = true ↔ ∃ p ∈ ps, r.can p = true := by
  unfold CompiledRole.canAny
  simp only [foldl_asU32, bne_iff_ne, CompiledRole.can_iff]
  exact Flags.and_mask_ne_zero_iff r.mask ps

/-! ## The two sides -/

theorem permissions_lookup (p : Permission) :
    PERMISSIONS.lookup p.name.toList = some p.asU32.toNat := by
  cases p <;> rfl

theorem permissions_lookup_unknown {s : Text} (h : ∀ p : Permission, p.name.toList ≠ s) :
    PERMISSIONS.lookup s = none := by
  rw [List.lookup_eq_none_iff]
  intro entry hentry
  obtain ⟨p, hp⟩ : ∃ p : Permission, p.name.toList = entry.1 := by
    revert hentry
    unfold PERMISSIONS
    simp only [List.mem_cons, List.not_mem_nil, or_false]
    rintro (h | h | h | h | h | h | h | h) <;> subst h
    exacts [⟨.Read, rfl⟩, ⟨.Write, rfl⟩, ⟨.Delete, rfl⟩, ⟨.Export, rfl⟩, ⟨.Admin, rfl⟩,
      ⟨.Billing, rfl⟩, ⟨.Impersonate, rfl⟩, ⟨.Sudo, rfl⟩]
  rw [← hp, bne_iff_ne]
  exact (h p).symm

theorem bitAnd_ne_zero (m b : BitVec 32) : (bitAnd m.toNat b.toNat != 0) = (m &&& b != 0) := by
  unfold bitAnd
  rw [BitVec.ofNat_toNat, BitVec.ofNat_toNat, BitVec.setWidth_eq, BitVec.setWidth_eq]
  rw [Bool.eq_iff_iff, bne_iff_ne, bne_iff_ne]
  refine not_congr ⟨fun h => ?_, fun h => ?_⟩
  · exact BitVec.toInt_inj.1 h
  · rw [h]
    rfl

/-- **Of any name, both sides say the same, or the crate does not know the name.** -/
theorem can_eq {roles : Table} {role : Text} {r : CompiledRole}
    (hmask : roleMask roles role = r.mask.toNat) (permission : Text) :
    can roles role permission =
      (match Permission.fromStr permission with
        | .ok p => r.can p
        | .error _ => false) := by
  by_cases h : ∃ p : Permission, p.name.toList = permission
  · obtain ⟨p, rfl⟩ := h
    unfold can
    rw [permissions_lookup, Permission.fromStr_name, hmask]
    exact bitAnd_ne_zero r.mask p.asU32
  · push Not at h
    have hfind : Permission.all.find? (fun p => p.name.toList = permission) = none := by
      rw [List.find?_eq_none]
      intro p _
      simpa using h p
    unfold can Permission.fromStr
    rw [permissions_lookup_unknown h, hfind]

theorem can_name {roles : Table} {role : Text} {r : CompiledRole}
    (hmask : roleMask roles role = r.mask.toNat) (p : Permission) :
    can roles role p.name.toList = r.can p := by
  rw [can_eq hmask, Permission.fromStr_name]

theorem canAll_names {roles : Table} {role : Text} {r : CompiledRole}
    (hmask : roleMask roles role = r.mask.toNat) (ps : List Permission) :
    canAll roles role (ps.map fun p => p.name.toList) = r.canAll ps := by
  unfold canAll
  rw [Bool.eq_iff_iff, CompiledRole.canAll_iff, List.all_map, List.all_eq_true]
  simp only [Function.comp_apply, can_name hmask]

theorem canAny_names {roles : Table} {role : Text} {r : CompiledRole}
    (hmask : roleMask roles role = r.mask.toNat) (ps : List Permission) :
    canAny roles role (ps.map fun p => p.name.toList) = r.canAny ps := by
  unfold canAny
  rw [Bool.eq_iff_iff, CompiledRole.canAny_iff, List.any_map, List.any_eq_true]
  simp only [Function.comp_apply, can_name hmask]

/-- **The built-in roles have the same masks on both sides.** -/
theorem defaultRoles_roles :
    ∀ r ∈ defaultRoles, ROLES.lookup r.name = some r.mask.toNat := by
  intro r hr
  simp only [defaultRoles, List.mem_cons, List.not_mem_nil, or_false] at hr
  rcases hr with h | h | h | h | h <;> subst h <;> rfl

/-- **Bitmask checks are checks of each permission**: of a role made of a list, of any mask and
list, and in the TypeScript checks for the same mask. -/
theorem bitmask_checks_agree (r : CompiledRole) (ps : List Permission) :
    (∀ (name : Text) (p : Permission), (CompiledRole.new name ps).can p = true ↔ p ∈ ps) ∧
      (r.canAll ps = true ↔ ∀ p ∈ ps, r.can p = true) ∧
      (r.canAny ps = true ↔ ∃ p ∈ ps, r.can p = true) ∧
      ∀ (roles : Table) (role : Text), roleMask roles role = r.mask.toNat →
        canAll roles role (ps.map fun p => p.name.toList) = r.canAll ps ∧
          canAny roles role (ps.map fun p => p.name.toList) = r.canAny ps :=
  ⟨fun name p => CompiledRole.new_can name ps p, r.canAll_iff ps, r.canAny_iff ps,
    fun _ _ hmask => ⟨canAll_names hmask ps, canAny_names hmask ps⟩⟩

/-- The admin of both sides lacks `Sudo`. -/
theorem admin_lacks_sudo :
    let admin := CompiledRole.new "admin".toList [.Read, .Write, .Delete, .Export, .Admin, .Billing]
    canAll ROLES "admin".toList ["read".toList, "sudo".toList] = admin.canAll [.Read, .Sudo] ∧
      canAny ROLES "admin".toList ["read".toList, "sudo".toList] = admin.canAny [.Read, .Sudo] :=
  (bitmask_checks_agree _ [.Read, .Sudo]).2.2.2 ROLES "admin".toList rfl

end Intellibiz.Identity
