import AiFw.Auth.Permission
import AiFw.Lib.Table
import AiFw.Pf.Types

namespace AiFw.Auth
open AiFw.Lib
set_option autoImplicit true

/-- The columns of a row of `users` that its role, its name and its password are in. -/
structure User where
  id : List Char
  username : List Char
  passwordHash : List Char
  role : List Char
  roleId : Option (List Char)
  enabled : Bool
deriving DecidableEq

/-- A row of `roles`; the mask is stored as a signed number of as many bits. -/
structure RoleRow where
  id : List Char
  name : List Char
  permissions : BitVec 64
  builtin : Bool
  description : Option (List Char)
deriving DecidableEq

structure Rbac where
  roles : List RoleRow
  users : List User

inductive AccountError where
  | badRequest
  | forbidden
  | notFound
  | conflict
  | internalServerError
deriving DecidableEq, Repr

/-- The classes of Unicode letters, and the hash that is made of a password, if it can be made. -/
structure PasswordLibs where
  isUppercase : Char → Bool
  isLowercase : Char → Bool
  hashPassword : List Char → Option (List Char)

/-- An order in which the database comes upon the rows of a table. -/
structure ScanOrder (α : Type) where
  order : List α → List α
  perm : ∀ rows, (order rows).Perm rows

def ScanOrder.asStored : ScanOrder α := ⟨fun rows => rows, fun rows => .refl rows⟩

structure BuiltinRole where
  id : List Char
  name : List Char
  description : List Char

def builtinRoles : List BuiltinRole :=
  [⟨"builtin-admin".toList, "admin".toList, "Full system access".toList⟩,
    ⟨"builtin-operator".toList, "operator".toList,
      "Operational access without system administration".toList⟩,
    ⟨"builtin-viewer".toList, "viewer".toList, "Read-only access".toList⟩]

def BuiltinRole.bits (b : BuiltinRole) : BitVec 64 :=
  (PermissionSet.fromPermissions (builtinRolePermissions b.name)).bits

/-- The id of the built-in role of a name. -/
def builtinRoleId (role : List Char) : Option (List Char) :=
  if role = "admin".toList then some "builtin-admin".toList
  else if role = "operator".toList then some "builtin-operator".toList
  else if role = "viewer".toList then some "builtin-viewer".toList
  else none

/-- `INSERT OR IGNORE`: neither the id nor the name may be taken. -/
def seedRole (rows : List RoleRow) (b : BuiltinRole) : List RoleRow :=
  if hasKey RoleRow.id b.id rows || hasKey RoleRow.name b.name rows then rows
  else rows ++ [⟨b.id, b.name, b.bits, true, some b.description⟩]

def refreshRole (rows : List RoleRow) (b : BuiltinRole) : List RoleRow :=
  amend RoleRow.id b.id (fun r => { r with permissions := b.bits }) rows

def backfillRole (users : List User) (b : BuiltinRole) : List User :=
  users.map fun u =>
    if u.role = b.name ∧ u.roleId = none then { u with roleId := some b.id } else u

def validatePassword (libs : PasswordLibs) (password : List Char) (minLength : Nat) : Bool :=
  decide (max minLength 8 ≤ Pf.byteLen password) && password.any libs.isUppercase &&
    password.any libs.isLowercase && password.any Char.isDigit

structure CreateUserRequest where
  username : List Char
  password : List Char
  role : Option (List Char)

structure UpdateUserRequest where
  username : Option (List Char)
  password : Option (List Char)
  role : Option (List Char)
  enabled : Option Bool

structure CreateRoleRequest where
  name : List Char
  permissions : List String
  description : Option (List Char)

structure UpdateRoleRequest where
  name : Option (List Char)
  permissions : Option (List String)
  description : Option (List Char)

namespace Rbac

variable (libs : PasswordLibs) (minLength : Nat)

/-- The part of `migrate` that fills the tables. -/
def migrate (s : Rbac) : Rbac where
  roles := builtinRoles.foldl refreshRole (builtinRoles.foldl seedRole s.roles)
  users := builtinRoles.foldl backfillRole s.users

/-- An `INSERT INTO users`, which the primary key or the unique name may refuse. -/
def insertUser (s : Rbac) (user : User) : Option Rbac :=
  if hasKey User.id user.id s.users || hasKey User.username user.username s.users then none
  else some { s with users := s.users ++ [user] }

def createUser (s : Rbac) (id : List Char) (req : CreateUserRequest) :
    Rbac × Except AccountError User :=
  if validatePassword libs req.password minLength then
    match libs.hashPassword req.password with
    | none => (s, .error .internalServerError)
    | some hash =>
      let role := req.role.getD "viewer".toList
      let user : User := ⟨id, req.username, hash, role, builtinRoleId role, true⟩
      match s.insertUser user with
      | none => (s, .error .conflict)
      | some s' => (s', .ok user)
  else (s, .error .badRequest)

/-- The first user becomes an administrator, whatever role is asked for. -/
def register (s : Rbac) (id : List Char) (req : CreateUserRequest) :
    Rbac × Except AccountError User :=
  if validatePassword libs req.password minLength then
    match libs.hashPassword req.password with
    | none => (s, .error .internalServerError)
    | some hash =>
      if s.users = [] then
        let user : User :=
          ⟨id, req.username, hash, "admin".toList, some "builtin-admin".toList, true⟩
        ({ s with users := s.users ++ [user] }, .ok user)
      else (s, .error .forbidden)
  else (s, .error .badRequest)

/-- The id of a role that has the text as its id or as its name. -/
def findRole (s : Rbac) (scan : ScanOrder RoleRow) (role : List Char) : Option (List Char) :=
  ((scan.order s.roles).find? fun r => r.id = role ∨ r.name = role).map RoleRow.id

/-- The new hash of a user, if a new password is asked for. -/
def newHash (user : User) : Option (List Char) → Except AccountError (List Char)
  | none => .ok user.passwordHash
  | some password =>
    if validatePassword libs password minLength then
      match libs.hashPassword password with
      | none => .error .internalServerError
      | some hash => .ok hash
    else .error .badRequest

def newRole (s : Rbac) (scan : ScanOrder RoleRow) (user : User) :
    Option (List Char) → List Char × Option (List Char)
  | none => (user.role, user.roleId)
  | some role =>
    (role, match builtinRoleId role with
      | some roleId => some roleId
      | none => s.findRole scan role)

def updateUser (s : Rbac) (scan : ScanOrder RoleRow) (userId : List Char)
    (req : UpdateUserRequest) : Rbac × Except AccountError User :=
  match s.users.find? fun u => u.id = userId with
  | none => (s, .error .notFound)
  | some user =>
    match newHash libs minLength user req.password with
    | .error e => (s, .error e)
    | .ok hash =>
      let user' : User :=
        { user with
          username := req.username.getD user.username
          passwordHash := hash
          role := (s.newRole scan user req.role).1
          roleId := (s.newRole scan user req.role).2
          enabled := req.enabled.getD user.enabled }
      if s.users.any fun u => u.id ≠ userId ∧ u.username = user'.username then
        (s, .error .internalServerError)
      else ({ s with users := setRow User.id user' s.users }, .ok user')

/-- The statement fails where other rows refer to the user. -/
def deleteUser (s : Rbac) (userId : List Char) (referenced : Bool) :
    Rbac × Except AccountError Unit :=
  if referenced then (s, .error .internalServerError)
  else if hasKey User.id userId s.users then
    ({ s with users := dropKey User.id userId s.users }, .ok ())
  else (s, .error .notFound)

def deleteUserHandler (s : Rbac) (actorId userId : List Char) (referenced : Bool) :
    Rbac × Except AccountError Unit :=
  if actorId = userId then (s, .error .badRequest)
  else if hasKey User.id userId s.users then s.deleteUser userId referenced
  else (s, .error .notFound)

def createRole (s : Rbac) (id : List Char) (req : CreateRoleRequest) :
    Rbac × Except AccountError Unit :=
  if trim req.name = [] then (s, .error .badRequest)
  else if hasKey RoleRow.id id s.roles || hasKey RoleRow.name (trim req.name) s.roles then
    (s, .error .conflict)
  else
    let row : RoleRow :=
      ⟨id, trim req.name, (PermissionSet.fromStrings req.permissions).bits, false, req.description⟩
    ({ s with roles := s.roles ++ [row] }, .ok ())

def describeRole (s : Rbac) (id : List Char) : Option (List Char) → Rbac
  | none => s
  | some text =>
    { s with roles := amend RoleRow.id id (fun r => { r with description := some text }) s.roles }

def grantRole (s : Rbac) (id : List Char) : Option (List String) → Rbac
  | none => s
  | some names =>
    { s with
      roles := amend RoleRow.id id
        (fun r => { r with permissions := (PermissionSet.fromStrings names).bits }) s.roles }

/-- Another role may have the name. -/
def renameRole (s : Rbac) (id : List Char) : Option (List Char) → Option Rbac
  | none => some s
  | some name =>
    if s.roles.any fun r => r.id ≠ id ∧ r.name = trim name then none
    else some { s with
      roles := amend RoleRow.id id (fun r => { r with name := trim name }) s.roles }

def updateRole (s : Rbac) (id : List Char) (req : UpdateRoleRequest) :
    Rbac × Except AccountError Unit :=
  match s.roles.find? fun r => r.id = id with
  | none => (s, .error .notFound)
  | some row =>
    if row.builtin then
      if req.permissions.isSome || req.name.isSome then (s, .error .forbidden)
      else (s.describeRole id req.description, .ok ())
    else
      match s.renameRole id req.name with
      | none => (s, .error .internalServerError)
      | some s' => ((s'.grantRole id req.permissions).describeRole id req.description, .ok ())

def deleteRole (s : Rbac) (id : List Char) : Rbac × Except AccountError Unit :=
  match s.roles.find? fun r => r.id = id with
  | none => (s, .error .notFound)
  | some row =>
    if row.builtin then (s, .error .forbidden)
    else if s.users.any fun u => u.roleId = some id then (s, .error .conflict)
    else ({ s with roles := dropKey RoleRow.id id s.roles }, .ok ())

/-- The mask and the name of a role: of the stored one, or of the built-in one of the name. -/
def resolveTokenPermissions (s : Rbac) (legacyRole : List Char) (roleId : Option (List Char)) :
    BitVec 64 × List Char :=
  match roleId.bind fun rid => s.roles.find? fun r => r.id = rid with
  | some row => (row.permissions, row.name)
  | none => ((PermissionSet.fromPermissions (builtinRolePermissions legacyRole)).bits, legacyRole)

/-- What a user may do whose token is issued now. -/
def permissionsOf (s : Rbac) (u : User) : PermissionSet :=
  ⟨(s.resolveTokenPermissions u.role u.roleId).1⟩

end Rbac

/-- A request to the API, a start of it, or a command of the command line. -/
inductive RbacOp where
  | migrate
  | createRole (id : List Char) (req : CreateRoleRequest)
  | updateRole (id : List Char) (req : UpdateRoleRequest)
  | deleteRole (id : List Char)
  | register (id : List Char) (req : CreateUserRequest)
  | createUser (id : List Char) (req : CreateUserRequest)
  | updateUser (scan : ScanOrder RoleRow) (id : List Char) (req : UpdateUserRequest)
  | deleteUser (actorId id : List Char) (referenced : Bool)
  | usersAdd (id username passwordHash role : List Char)
  | usersRemove (id : List Char) (referenced : Bool)
  | usersSetEnabled (id : List Char) (enabled : Bool)

def RbacOp.exec (libs : PasswordLibs) (minLength : Nat) (s : Rbac) : RbacOp → Rbac
  | migrate => s.migrate
  | createRole id req => (s.createRole id req).1
  | updateRole id req => (s.updateRole id req).1
  | deleteRole id => (s.deleteRole id).1
  | register id req => (s.register libs minLength id req).1
  | createUser id req => (s.createUser libs minLength id req).1
  | updateUser scan id req => (s.updateUser libs minLength scan id req).1
  | deleteUser actorId id referenced => (s.deleteUserHandler actorId id referenced).1
  | usersAdd id username hash role => (s.insertUser ⟨id, username, hash, role, none, true⟩).getD s
  | usersRemove id referenced => (s.deleteUser id referenced).1
  | usersSetEnabled id enabled =>
    { s with users := amend User.id id (fun u => { u with enabled := enabled }) s.users }

theorem mem_builtinRoles_of_id {role : List Char} (h : builtinRoleId role = some rid) :
    ∃ b ∈ builtinRoles, b.name = role ∧ b.id = rid := by
  rw [builtinRoleId] at h
  by_cases hadmin : role = "admin".toList
  · rw [if_pos hadmin] at h
    exact ⟨_, List.mem_cons_self, hadmin.symm, Option.some.inj h⟩
  rw [if_neg hadmin] at h
  by_cases hoperator : role = "operator".toList
  · rw [if_pos hoperator] at h
    exact ⟨_, List.mem_cons_of_mem _ List.mem_cons_self, hoperator.symm, Option.some.inj h⟩
  rw [if_neg hoperator] at h
  by_cases hviewer : role = "viewer".toList
  · rw [if_pos hviewer] at h
    exact ⟨_, List.mem_cons_of_mem _ (List.mem_cons_of_mem _ List.mem_cons_self), hviewer.symm,
      Option.some.inj h⟩
  · rw [if_neg hviewer] at h
    cases h

/-- The row is that of the built-in role, with its permissions. -/
structure RoleRow.Is (r : RoleRow) (b : BuiltinRole) : Prop where
  id : r.id = b.id
  name : r.name = b.name
  builtin : r.builtin = true
  permissions : r.permissions = b.bits

theorem RoleRow.Is.not_custom {r : RoleRow} (h : r.Is b) (hcustom : r.builtin = false) : False := by
  rw [h.builtin] at hcustom
  cases hcustom

theorem known_bits (b : BuiltinRole) : (PermissionSet.mk b.bits).Known :=
  PermissionSet.known_fromPermissions _

namespace Rbac

/-- The built-in roles are there with their own permissions, no stored mask has an unknown bit, and
every user's role is there. -/
structure Sound (s : Rbac) : Prop where
  roleIds : (s.roles.map RoleRow.id).Nodup
  userIds : (s.users.map User.id).Nodup
  builtins : ∀ b ∈ builtinRoles, ∃ row ∈ s.roles, row.Is b
  known : ∀ row ∈ s.roles, (PermissionSet.mk row.permissions).Known
  referred : ∀ u ∈ s.users, ∀ rid, u.roleId = some rid → hasKey RoleRow.id rid s.roles = true

variable {s s' : Rbac} {id : List Char}

theorem Sound.hasKey_builtin (h : s.Sound) (hb : b ∈ builtinRoles) :
    hasKey RoleRow.id b.id s.roles = true := by
  obtain ⟨row, hrow, his⟩ := h.builtins b hb
  exact hasKey_iff.mpr ⟨row, hrow, his.id⟩

theorem Sound.withUsers (h : s.Sound) {rows : List User} (hids : (rows.map User.id).Nodup)
    (hreferred : ∀ u ∈ rows, ∀ rid, u.roleId = some rid → hasKey RoleRow.id rid s.roles = true) :
    Sound { s with users := rows } :=
  ⟨h.roleIds, hids, h.builtins, h.known, hreferred⟩

/-- A change of the rows of an id that keeps ids, and keeps what a built-in role is. -/
theorem Sound.amendRoles (h : s.Sound) {change : RoleRow → RoleRow}
    (hid : ∀ r, (change r).id = r.id)
    (hknown : ∀ r, (PermissionSet.mk r.permissions).Known →
      (PermissionSet.mk (change r).permissions).Known)
    (hbuiltin : ∀ r ∈ s.roles, r.id = id → ∀ b, r.Is b → (change r).Is b) :
    Sound { s with roles := amend RoleRow.id id change s.roles } := by
  have hmap : (amend RoleRow.id id change s.roles).map RoleRow.id = s.roles.map RoleRow.id :=
    map_amend fun r _ => hid r
  constructor
  case roleIds => exact hmap ▸ h.roleIds
  case userIds => exact h.userIds
  case builtins =>
    intro b hb
    obtain ⟨row, hrow, his⟩ := h.builtins b hb
    by_cases hk : row.id = id
    · exact ⟨change row, mem_amend.mpr (.inr ⟨row, hrow, hk, rfl⟩), hbuiltin row hrow hk b his⟩
    · exact ⟨row, mem_amend.mpr (.inl ⟨hrow, hk⟩), his⟩
  case known =>
    intro row hrow
    obtain ⟨hold, -⟩ | ⟨old, hold, -, rfl⟩ := mem_amend.mp hrow
    · exact h.known row hold
    · exact hknown old (h.known old hold)
  case referred =>
    intro u hu rid hrid
    rw [hasKey_iff_mem_map, hmap, ← hasKey_iff_mem_map]
    exact h.referred u hu rid hrid

theorem Sound.describeRole (h : s.Sound) (id : List Char) (text : Option (List Char)) :
    (s.describeRole id text).Sound := by
  cases text with
  | none => exact h
  | some text =>
    apply Sound.amendRoles h
    · exact fun _ => rfl
    · exact fun _ hknown => hknown
    · intro r _ _ b his
      exact ⟨his.id, his.name, his.builtin, his.permissions⟩

/-- None of the rows of the id is a built-in one. -/
def Custom (s : Rbac) (id : List Char) : Prop := ∀ r ∈ s.roles, r.id = id → r.builtin = false

theorem Sound.grantRole (h : s.Sound) (hcustom : s.Custom id) (names : Option (List String)) :
    (s.grantRole id names).Sound := by
  cases names with
  | none => exact h
  | some names =>
    apply Sound.amendRoles h
    · exact fun _ => rfl
    · exact fun _ _ => PermissionSet.known_fromStrings names
    · intro r hr hid b his
      exact (his.not_custom (hcustom r hr hid)).elim

theorem renameRole_cases (h : s.renameRole id name = some s') :
    s' = s ∨ ∃ text, s' = { s with
      roles := amend RoleRow.id id (fun r => { r with name := text }) s.roles } := by
  cases name with
  | none => exact .inl (Option.some.inj h).symm
  | some name =>
    rw [renameRole] at h
    by_cases hclash : (s.roles.any fun r => r.id ≠ id ∧ r.name = trim name) = true
    · rw [if_pos hclash] at h
      cases h
    · rw [if_neg hclash] at h
      exact .inr ⟨trim name, (Option.some.inj h).symm⟩

theorem Sound.renameRole (h : s.Sound) (hcustom : s.Custom id)
    (hrename : s.renameRole id name = some s') : s'.Sound ∧ s'.Custom id := by
  obtain rfl | ⟨text, rfl⟩ := renameRole_cases hrename
  · exact ⟨h, hcustom⟩
  · constructor
    · apply Sound.amendRoles h
      · exact fun _ => rfl
      · exact fun _ hknown => hknown
      · intro r hr hid b his
        exact (his.not_custom (hcustom r hr hid)).elim
    · intro r hr hid
      obtain ⟨hold, -⟩ | ⟨old, hold, hoid, rfl⟩ := mem_amend.mp hr
      · exact hcustom r hold hid
      · exact hcustom old hold hoid

theorem Sound.custom (h : s.Sound) (hfind : (s.roles.find? fun r => r.id = id) = some row)
    (hbuiltin : ¬row.builtin = true) : s.Custom id := by
  intro r hr hid
  rw [((Keyed.of_nodup h.roleIds).find_iff.mpr ⟨hr, hid⟩).symm.trans hfind |> Option.some.inj]
  exact Bool.not_eq_true _ |>.mp hbuiltin

theorem Sound.updateRole (h : s.Sound) (id : List Char) (req : UpdateRoleRequest) :
    (s.updateRole id req).1.Sound := by
  rw [Rbac.updateRole]
  cases hfind : s.roles.find? fun r => r.id = id with
  | none => exact h
  | some row =>
    by_cases hbuiltin : row.builtin = true
    · simp only [if_pos hbuiltin]
      by_cases hmore : (req.permissions.isSome || req.name.isSome) = true
      · rw [if_pos hmore]
        exact h
      · rw [if_neg hmore]
        exact h.describeRole id req.description
    · simp only [if_neg hbuiltin]
      cases hrename : s.renameRole id req.name with
      | none => exact h
      | some s' =>
        obtain ⟨h', hcustom'⟩ := h.renameRole (h.custom hfind hbuiltin) hrename
        exact (h'.grantRole hcustom' req.permissions).describeRole id req.description

theorem Sound.createRole (h : s.Sound) (id : List Char) (req : CreateRoleRequest) :
    (s.createRole id req).1.Sound := by
  rw [Rbac.createRole]
  by_cases hblank : trim req.name = []
  · rw [if_pos hblank]
    exact h
  rw [if_neg hblank]
  by_cases htaken : (hasKey RoleRow.id id s.roles ||
      hasKey RoleRow.name (trim req.name) s.roles) = true
  · rw [if_pos htaken]
    exact h
  rw [if_neg htaken]
  have hfree : hasKey RoleRow.id id s.roles = false :=
    (Bool.or_eq_false_iff.mp (Bool.not_eq_true _ |>.mp htaken)).1
  constructor
  case roleIds => exact nodup_append_row h.roleIds hfree
  case userIds => exact h.userIds
  case builtins =>
    intro b hb
    obtain ⟨row, hrow, his⟩ := h.builtins b hb
    exact ⟨row, List.mem_append_left _ hrow, his⟩
  case known =>
    intro row hrow
    rw [List.mem_append, List.mem_singleton] at hrow
    cases hrow with
    | inl hold => exact h.known row hold
    | inr hnew =>
      rw [hnew]
      exact PermissionSet.known_fromStrings req.permissions
  case referred =>
    intro u hu rid hrid
    obtain ⟨row, hrow, hid⟩ := hasKey_iff.mp (h.referred u hu rid hrid)
    exact hasKey_iff.mpr ⟨row, List.mem_append_left _ hrow, hid⟩

theorem Sound.deleteRole (h : s.Sound) (id : List Char) : (s.deleteRole id).1.Sound := by
  rw [Rbac.deleteRole]
  cases hfind : s.roles.find? fun r => r.id = id with
  | none => exact h
  | some row =>
    by_cases hbuiltin : row.builtin = true
    · simp only [if_pos hbuiltin]
      exact h
    simp only [if_neg hbuiltin]
    by_cases hused : (s.users.any fun u => u.roleId = some id) = true
    · rw [if_pos hused]
      exact h
    rw [if_neg hused]
    have hcustom := h.custom hfind hbuiltin
    constructor
    case roleIds => exact h.roleIds.sublist (List.filter_sublist.map _)
    case userIds => exact h.userIds
    case builtins =>
      intro b hb
      obtain ⟨row, hrow, his⟩ := h.builtins b hb
      refine ⟨row, mem_dropKey.mpr ⟨hrow, ?_⟩, his⟩
      intro heq
      exact his.not_custom (hcustom row hrow heq)
    case known =>
      intro row hrow
      exact h.known row (mem_dropKey.mp hrow).1
    case referred =>
      intro u hu rid hrid
      obtain ⟨row, hrow, hid⟩ := hasKey_iff.mp (h.referred u hu rid hrid)
      refine hasKey_iff.mpr ⟨row, mem_dropKey.mpr ⟨hrow, ?_⟩, hid⟩
      intro heq
      apply hused
      rw [List.any_eq_true]
      exact ⟨u, hu, decide_eq_true (hrid.trans (congrArg some (hid.symm.trans heq)))⟩

theorem Sound.insertUser (h : s.Sound) {user : User}
    (hreferred : ∀ rid, user.roleId = some rid → hasKey RoleRow.id rid s.roles = true)
    (hinsert : s.insertUser user = some s') : s'.Sound := by
  rw [Rbac.insertUser] at hinsert
  by_cases htaken : (hasKey User.id user.id s.users ||
      hasKey User.username user.username s.users) = true
  · rw [if_pos htaken] at hinsert
    cases hinsert
  rw [if_neg htaken] at hinsert
  rw [← Option.some.inj hinsert]
  apply Sound.withUsers h
  · exact nodup_append_row h.userIds (Bool.or_eq_false_iff.mp (Bool.not_eq_true _ |>.mp htaken)).1
  · intro u hu rid hrid
    rw [List.mem_append, List.mem_singleton] at hu
    cases hu with
    | inl hold => exact h.referred u hold rid hrid
    | inr hnew => exact hreferred rid (hnew ▸ hrid)

theorem Sound.hasKey_builtinRoleId (h : s.Sound) (hrid : builtinRoleId role = some rid) :
    hasKey RoleRow.id rid s.roles = true := by
  obtain ⟨b, hb, -, rfl⟩ := mem_builtinRoles_of_id hrid
  exact h.hasKey_builtin hb

variable {libs : PasswordLibs} {minLength : Nat}

theorem Sound.createUser (h : s.Sound) (id : List Char) (req : CreateUserRequest) :
    (s.createUser libs minLength id req).1.Sound := by
  rw [Rbac.createUser]
  by_cases hvalid : validatePassword libs req.password minLength = true
  · rw [if_pos hvalid]
    cases libs.hashPassword req.password with
    | none => exact h
    | some hash =>
      dsimp only
      cases hinsert : s.insertUser ⟨id, req.username, hash, req.role.getD "viewer".toList,
          builtinRoleId (req.role.getD "viewer".toList), true⟩ with
      | none => exact h
      | some s' => exact h.insertUser (fun _ hrid => h.hasKey_builtinRoleId hrid) hinsert
  · rw [if_neg hvalid]
    exact h

theorem Sound.register (h : s.Sound) (id : List Char) (req : CreateUserRequest) :
    (s.register libs minLength id req).1.Sound := by
  rw [Rbac.register]
  by_cases hvalid : validatePassword libs req.password minLength = true
  · rw [if_pos hvalid]
    cases libs.hashPassword req.password with
    | none => exact h
    | some hash =>
      by_cases hempty : s.users = []
      · simp only [if_pos hempty]
        apply Sound.withUsers h
        · rw [hempty]
          exact List.nodup_singleton _
        · intro u hu rid hrid
          rw [hempty, List.nil_append, List.mem_singleton] at hu
          rw [hu] at hrid
          have hadmin : builtinRoleId "admin".toList = some rid := hrid
          exact h.hasKey_builtinRoleId hadmin
      · simp only [if_neg hempty]
        exact h
  · rw [if_neg hvalid]
    exact h

theorem hasKey_findRole (scan : ScanOrder RoleRow) (hfind : s.findRole scan role = some rid) :
    hasKey RoleRow.id rid s.roles = true := by
  rw [findRole, Option.map_eq_some_iff] at hfind
  obtain ⟨row, hrow, hid⟩ := hfind
  exact hasKey_iff.mpr ⟨row, (scan.perm _).subset (List.mem_of_find?_eq_some hrow), hid⟩

theorem Sound.newRole (h : s.Sound) (scan : ScanOrder RoleRow) (hu : u ∈ s.users)
    (role : Option (List Char)) (hrid : (s.newRole scan u role).2 = some rid) :
    hasKey RoleRow.id rid s.roles = true := by
  cases role with
  | none => exact h.referred u hu rid hrid
  | some role =>
    rw [Rbac.newRole] at hrid
    cases hbuiltin : builtinRoleId role with
    | none =>
      rw [hbuiltin] at hrid
      exact hasKey_findRole scan hrid
    | some rid' =>
      rw [hbuiltin] at hrid
      exact h.hasKey_builtinRoleId (hbuiltin.trans hrid)

/-- An accepted update writes one row in the place of the user's own. -/
theorem updateUser_cases (s : Rbac) (scan : ScanOrder RoleRow) (userId : List Char)
    (req : UpdateUserRequest) :
    (s.updateUser libs minLength scan userId req).1 = s ∨
      ∃ user user', user ∈ s.users ∧ user.id = userId ∧ user'.id = user.id ∧
        user'.role = (s.newRole scan user req.role).1 ∧
        user'.roleId = (s.newRole scan user req.role).2 ∧
        (s.updateUser libs minLength scan userId req).1 =
          { s with users := setRow User.id user' s.users } := by
  rw [updateUser]
  cases hfind : s.users.find? fun u => u.id = userId with
  | none => exact .inl rfl
  | some user =>
    have hid : user.id = userId := by
      simpa only [decide_eq_true_eq] using List.find?_some hfind
    dsimp only
    cases newHash libs minLength user req.password with
    | error e => exact .inl rfl
    | ok hash =>
      dsimp only
      split
      · exact .inl rfl
      · refine .inr ⟨user, { user with
            username := req.username.getD user.username
            passwordHash := hash
            role := (s.newRole scan user req.role).1
            roleId := (s.newRole scan user req.role).2
            enabled := req.enabled.getD user.enabled }, List.mem_of_find?_eq_some hfind, hid,
          rfl, rfl, rfl, rfl⟩

theorem Sound.updateUser (h : s.Sound) (scan : ScanOrder RoleRow) (userId : List Char)
    (req : UpdateUserRequest) : (s.updateUser libs minLength scan userId req).1.Sound := by
  obtain heq | ⟨user, user', hu, -, -, -, hroleId, heq⟩ :=
    @updateUser_cases libs minLength s scan userId req
  · rw [heq]
    exact h
  · rw [heq]
    apply Sound.withUsers h
    · rw [map_setRow]
      exact h.userIds
    · intro u hset rid hrid
      obtain ⟨hold, -⟩ | ⟨rfl, -⟩ := mem_setRow.mp hset
      · exact h.referred u hold rid hrid
      · exact h.newRole scan hu req.role (hroleId.symm.trans hrid)

theorem Sound.deleteUser (h : s.Sound) (userId : List Char) (referenced : Bool) :
    (s.deleteUser userId referenced).1.Sound := by
  rw [Rbac.deleteUser]
  cases referenced with
  | true => exact h
  | false =>
    simp only [Bool.false_eq_true, if_false]
    by_cases hstored : hasKey User.id userId s.users = true
    · rw [if_pos hstored]
      apply Sound.withUsers h
      · exact h.userIds.sublist (List.filter_sublist.map _)
      · intro u hu
        exact h.referred u (mem_dropKey.mp hu).1
    · rw [if_neg hstored]
      exact h

theorem Sound.deleteUserHandler (h : s.Sound) (actorId userId : List Char) (referenced : Bool) :
    (s.deleteUserHandler actorId userId referenced).1.Sound := by
  rw [Rbac.deleteUserHandler]
  by_cases hself : actorId = userId
  · rw [if_pos hself]
    exact h
  rw [if_neg hself]
  by_cases hstored : hasKey User.id userId s.users = true
  · rw [if_pos hstored]
    exact h.deleteUser userId referenced
  · rw [if_neg hstored]
    exact h

theorem seedRole_of_hasKey (h : hasKey RoleRow.id b.id rows = true) : seedRole rows b = rows := by
  rw [seedRole, h, Bool.true_or, if_pos rfl]

theorem Sound.seeded (h : s.Sound) : builtinRoles.foldl seedRole s.roles = s.roles := by
  have hall {l : List BuiltinRole} (hl : ∀ b ∈ l, b ∈ builtinRoles) :
      l.foldl seedRole s.roles = s.roles := by
    induction l with
    | nil => rfl
    | cons b l ih =>
      rw [List.foldl_cons, seedRole_of_hasKey (h.hasKey_builtin (hl b List.mem_cons_self))]
      exact ih fun b' hb' => hl b' (List.mem_cons_of_mem b hb')
  exact hall fun _ hb => hb

/-- The masks of the built-in roles are written again, and are what they were. -/
theorem Sound.refreshed (h : s.Sound) : builtinRoles.foldl refreshRole s.roles = s.roles := by
  have hall {l : List BuiltinRole} (hl : ∀ b ∈ l, b ∈ builtinRoles) :
      l.foldl refreshRole s.roles = s.roles := by
    induction l with
    | nil => rfl
    | cons b l ih =>
      have hsame : refreshRole s.roles b = s.roles := by
        apply amend_eq_self
        intro r hr hid
        obtain ⟨row, hrow, his⟩ := h.builtins b (hl b List.mem_cons_self)
        rw [Keyed.of_nodup h.roleIds r hr row hrow (hid.trans his.id.symm), ← his.permissions]
      rw [List.foldl_cons, hsame]
      exact ih fun b' hb' => hl b' (List.mem_cons_of_mem b hb')
  exact hall fun _ hb => hb

theorem backfillRole_ids (rows : List User) (b : BuiltinRole) :
    (backfillRole rows b).map User.id = rows.map User.id := by
  rw [backfillRole, List.map_map]
  apply List.map_congr_left
  intro u _
  rw [Function.comp_apply]
  by_cases hfill : u.role = b.name ∧ u.roleId = none
  · rw [if_pos hfill]
  · rw [if_neg hfill]

theorem Sound.backfillRole (h : s.Sound) (hb : b ∈ builtinRoles) :
    Sound { s with users := Auth.backfillRole s.users b } := by
  apply Sound.withUsers h
  · rw [backfillRole_ids]
    exact h.userIds
  · intro u hu rid hrid
    obtain ⟨old, hold, rfl⟩ := List.mem_map.mp hu
    by_cases hfill : old.role = b.name ∧ old.roleId = none
    · rw [if_pos hfill] at hrid
      rw [← Option.some.inj hrid]
      exact h.hasKey_builtin hb
    · rw [if_neg hfill] at hrid
      exact h.referred old hold rid hrid

theorem Sound.backfilled (h : s.Sound) {l : List BuiltinRole} (hl : ∀ b ∈ l, b ∈ builtinRoles) :
    Sound { s with users := l.foldl Auth.backfillRole s.users } := by
  induction l generalizing s with
  | nil => exact h
  | cons b l ih =>
    exact ih (h.backfillRole (hl b List.mem_cons_self))
      fun b' hb' => hl b' (List.mem_cons_of_mem b hb')

theorem Sound.migrate_eq (h : s.Sound) :
    s.migrate = { s with users := builtinRoles.foldl Auth.backfillRole s.users } := by
  rw [Rbac.migrate, h.seeded, h.refreshed]

theorem Sound.migrate (h : s.Sound) : s.migrate.Sound := by
  rw [h.migrate_eq]
  exact h.backfilled fun _ hb => hb

theorem Sound.exec (h : s.Sound) (op : RbacOp) : (op.exec libs minLength s).Sound := by
  cases op with
  | migrate => exact h.migrate
  | createRole id req => exact h.createRole id req
  | updateRole id req => exact h.updateRole id req
  | deleteRole id => exact h.deleteRole id
  | register id req => exact h.register id req
  | createUser id req => exact h.createUser id req
  | updateUser scan id req => exact h.updateUser scan id req
  | deleteUser actorId id referenced => exact h.deleteUserHandler actorId id referenced
  | usersAdd id username hash role =>
    rw [RbacOp.exec]
    cases hinsert : s.insertUser ⟨id, username, hash, role, none, true⟩ with
    | none => exact h
    | some s' =>
      apply h.insertUser ?_ hinsert
      intro rid hrid
      cases hrid
  | usersRemove id referenced => exact h.deleteUser id referenced
  | usersSetEnabled id enabled =>
    apply Sound.withUsers h
    · have hids : (amend User.id id (fun u => { u with enabled := enabled }) s.users).map User.id =
          s.users.map User.id := map_amend fun _ _ => rfl
      rw [hids]
      exact h.userIds
    · intro u hu rid hrid
      obtain ⟨hold, -⟩ | ⟨old, hold, -, rfl⟩ := mem_amend.mp hu
      · exact h.referred u hold rid hrid
      · exact h.referred old hold rid hrid

theorem Sound.run (h : s.Sound) (ops : List RbacOp) :
    (ops.foldl (RbacOp.exec libs minLength) s).Sound := by
  induction ops generalizing s with
  | nil => exact h
  | cons op ops ih => exact ih (h.exec op)

/-- The tables before the first start: no roles yet, and the users of the setup, without one. -/
structure Installed (s : Rbac) : Prop where
  noRoles : s.roles = []
  userIds : (s.users.map User.id).Nodup
  noRoleIds : ∀ u ∈ s.users, u.roleId = none

def builtinRows : List RoleRow :=
  builtinRoles.map fun b => ⟨b.id, b.name, b.bits, true, some b.description⟩

theorem seed_empty :
    builtinRoles.foldl refreshRole (builtinRoles.foldl seedRole []) = builtinRows := by
  rfl

theorem Installed.migrate (h : s.Installed) : s.migrate.Sound := by
  have hrows : Sound { s with roles := builtinRows } := by
    constructor
    case roleIds =>
      rw [builtinRows, List.map_map]
      decide
    case userIds => exact h.userIds
    case builtins =>
      intro b hb
      exact ⟨_, List.mem_map_of_mem hb, rfl, rfl, rfl, rfl⟩
    case known =>
      intro row hrow
      obtain ⟨b, -, rfl⟩ := List.mem_map.mp hrow
      exact known_bits b
    case referred =>
      intro u hu rid hrid
      rw [h.noRoleIds u hu] at hrid
      cases hrid
  have hmigrate : s.migrate =
      { s with roles := builtinRows, users := builtinRoles.foldl Auth.backfillRole s.users } := by
    rw [Rbac.migrate, h.noRoles, seed_empty]
  rw [hmigrate]
  exact hrows.backfilled fun _ hb => hb

theorem Sound.permissionsOf_row (h : s.Sound) (hrow : row ∈ s.roles) (hid : row.id = rid)
    (hu : u.roleId = some rid) : s.permissionsOf u = ⟨row.permissions⟩ := by
  have hfind := (Keyed.of_nodup h.roleIds).find_iff.mpr ⟨hrow, hid⟩
  rw [permissionsOf, resolveTokenPermissions, hu, Option.bind_some, hfind]

theorem permissionsOf_none (s : Rbac) (hu : u.roleId = none) :
    s.permissionsOf u = .fromPermissions (builtinRolePermissions u.role) := by
  rw [permissionsOf, resolveTokenPermissions, hu, Option.bind_none]

theorem Sound.permissionsOf_builtin (h : s.Sound) (hb : b ∈ builtinRoles)
    (hu : u.roleId = some b.id) :
    s.permissionsOf u = .fromPermissions (builtinRolePermissions b.name) := by
  obtain ⟨row, hrow, his⟩ := h.builtins b hb
  rw [h.permissionsOf_row hrow his.id hu, his.permissions]
  rfl

theorem Sound.exists_row (h : s.Sound) (hu : u ∈ s.users) (hrid : u.roleId = some rid) :
    ∃ row ∈ s.roles, row.id = rid ∧ s.permissionsOf u = ⟨row.permissions⟩ := by
  obtain ⟨row, hrow, hid⟩ := hasKey_iff.mp (h.referred u hu rid hrid)
  exact ⟨row, hrow, hid, h.permissionsOf_row hrow hid hrid⟩

/-- After any run the built-in roles have their own permissions, no user's role is missing, and a
user may do what the mask of his role names, or without one what the built-in role of his old role
name may, and nothing else. -/
theorem permissions_along_runs (hs : s.Installed) (ops : List RbacOp) :
    let t := ops.foldl (RbacOp.exec libs minLength) s.migrate
    (∀ b ∈ builtinRoles, ∃ row ∈ t.roles, row.Is b) ∧
      ∀ u ∈ t.users, (t.permissionsOf u).Known ∧
        match u.roleId with
        | none => t.permissionsOf u = .fromPermissions (builtinRolePermissions u.role)
        | some rid => ∃ row ∈ t.roles, row.id = rid ∧ t.permissionsOf u = ⟨row.permissions⟩ ∧
            ∀ b ∈ builtinRoles, rid = b.id →
              t.permissionsOf u = .fromPermissions (builtinRolePermissions b.name) := by
  intro t
  have h : t.Sound := hs.migrate.run ops
  constructor
  · exact h.builtins
  · intro u hu
    cases hrid : u.roleId with
    | none =>
      have hperms := t.permissionsOf_none hrid
      refine ⟨?_, hperms⟩
      rw [hperms]
      exact PermissionSet.known_fromPermissions _
    | some rid =>
      obtain ⟨row, hrow, hid, hperms⟩ := h.exists_row hu hrid
      refine ⟨?_, row, hrow, hid, hperms, ?_⟩
      · rw [hperms]
        exact h.known row hrow
      · intro b hb heq
        exact h.permissionsOf_builtin hb (heq ▸ hrid)

/-- The tables as the setup leaves them. -/
def freshInstall : Rbac :=
  ⟨[], [⟨"u1".toList, "root".toList, "hash".toList, "admin".toList, none, true⟩]⟩

theorem freshInstall_installed : freshInstall.Installed := by
  constructor
  case noRoles => rfl
  case userIds => exact List.nodup_singleton _
  case noRoleIds =>
    intro u hu
    rw [List.mem_singleton.mp hu]

/-- Letters of ASCII, and passwords that are stored as they are. -/
def plainLibs : PasswordLibs := ⟨Char.isUpper, Char.isLower, some⟩

def auditRole : RbacOp :=
  .createRole "r1".toList ⟨"audit".toList, ["logs:view", "logs:burn"], none⟩

theorem permissions_along_runs_audit :
    let t := [auditRole].foldl (RbacOp.exec plainLibs 8) freshInstall.migrate
    (∀ b ∈ builtinRoles, ∃ row ∈ t.roles, row.Is b) ∧
      ∀ u ∈ t.users, (t.permissionsOf u).Known ∧
        match u.roleId with
        | none => t.permissionsOf u = .fromPermissions (builtinRolePermissions u.role)
        | some rid => ∃ row ∈ t.roles, row.id = rid ∧ t.permissionsOf u = ⟨row.permissions⟩ ∧
            ∀ b ∈ builtinRoles, rid = b.id →
              t.permissionsOf u = .fromPermissions (builtinRolePermissions b.name) :=
  permissions_along_runs freshInstall_installed [auditRole]

/-- The same account, whose role may have been given its id in the meantime. -/
structure Filled (u u' : User) : Prop where
  id : u'.id = u.id
  role : u'.role = u.role
  roleId : u'.roleId = u.roleId ∨
    u.roleId = none ∧ ∃ b ∈ builtinRoles, b.name = u.role ∧ u'.roleId = some b.id

theorem Filled.refl (u : User) : Filled u u := ⟨rfl, rfl, .inl rfl⟩

theorem Filled.trans (h : Filled u u') (h' : Filled u' u'') : Filled u u'' := by
  refine ⟨h'.id.trans h.id, h'.role.trans h.role, ?_⟩
  cases h'.roleId with
  | inl hsame =>
    rw [hsame]
    exact h.roleId
  | inr hfill =>
    obtain ⟨hnone, b, hb, hname, hrid⟩ := hfill
    cases h.roleId with
    | inl hsame => exact .inr ⟨hsame.symm.trans hnone, b, hb, hname.trans h.role, hrid⟩
    | inr hfilled =>
      obtain ⟨-, b', -, -, hrid'⟩ := hfilled
      rw [hrid'] at hnone
      cases hnone

theorem Sound.permissionsOf_filled (h : s.Sound) (hfill : Filled u u') :
    s.permissionsOf u' = s.permissionsOf u := by
  cases hfill.roleId with
  | inl hsame => rw [permissionsOf, permissionsOf, hfill.role, hsame]
  | inr hfilled =>
    obtain ⟨hnone, b, hb, hname, hrid⟩ := hfilled
    rw [h.permissionsOf_builtin hb hrid, s.permissionsOf_none hnone, hname]

theorem exists_backfilled {l : List BuiltinRole} (hl : ∀ b ∈ l, b ∈ builtinRoles)
    (hu : u ∈ rows) : ∃ u' ∈ l.foldl backfillRole rows, Filled u u' := by
  induction l generalizing rows u with
  | nil => exact ⟨u, hu, .refl u⟩
  | cons b l ih =>
    have hb := hl b List.mem_cons_self
    have hstep : ∃ u' ∈ backfillRole rows b, Filled u u' := by
      refine ⟨_, List.mem_map_of_mem hu, ?_⟩
      by_cases hfill : u.role = b.name ∧ u.roleId = none
      · rw [if_pos hfill]
        exact ⟨rfl, rfl, .inr ⟨hfill.2, b, hb, hfill.1.symm, rfl⟩⟩
      · rw [if_neg hfill]
        exact .refl u
    obtain ⟨u', hu', hfill⟩ := hstep
    obtain ⟨u'', hu'', hfill'⟩ := ih (fun b' hb' => hl b' (List.mem_cons_of_mem b hb')) hu'
    exact ⟨u'', hu'', hfill.trans hfill'⟩

/-- Every row is there again, with the mask it had. -/
def MasksKept (rid : List Char) (roles roles' : List RoleRow) : Prop :=
  ∀ r ∈ roles, r.id = rid → ∃ r' ∈ roles', r'.id = rid ∧ r'.permissions = r.permissions

theorem MasksKept.trans (h : MasksKept rid roles₁ roles₂) (h' : MasksKept rid roles₂ roles₃) :
    MasksKept rid roles₁ roles₃ := by
  intro r hr hid
  obtain ⟨r', hr', hid', hbits⟩ := h r hr hid
  obtain ⟨r'', hr'', hid'', hbits'⟩ := h' r' hr' hid'
  exact ⟨r'', hr'', hid'', hbits'.trans hbits⟩

theorem MasksKept.of_subset (h : ∀ r ∈ rows, r.id = rid → r ∈ rows') :
    MasksKept rid rows rows' := by
  intro r hr hid
  exact ⟨r, h r hr hid, hid, rfl⟩

theorem MasksKept.amend {change : RoleRow → RoleRow} (hid : ∀ r, (change r).id = r.id)
    (hbits : rid = id → ∀ r, (change r).permissions = r.permissions) :
    MasksKept rid rows (amend RoleRow.id id change rows) := by
  intro r hr hrid
  by_cases hk : r.id = id
  · exact ⟨change r, mem_amend.mpr (.inr ⟨r, hr, hk, rfl⟩), (hid r).trans hrid,
      hbits (hrid.symm.trans hk) r⟩
  · exact ⟨r, mem_amend.mpr (.inl ⟨hr, hk⟩), hrid, rfl⟩

theorem masksKept_describeRole (s : Rbac) (rid id : List Char) (text : Option (List Char)) :
    MasksKept rid s.roles (s.describeRole id text).roles := by
  cases text with
  | none => exact .of_subset fun _ hr _ => hr
  | some text =>
    apply MasksKept.amend
    · exact fun _ => rfl
    · exact fun _ _ => rfl

theorem masksKept_grantRole (s : Rbac) (names : Option (List String))
    (hnot : ¬(rid = id ∧ names ≠ none)) : MasksKept rid s.roles (s.grantRole id names).roles := by
  cases names with
  | none => exact .of_subset fun _ hr _ => hr
  | some names =>
    apply MasksKept.amend
    · exact fun _ => rfl
    · intro heq
      exact absurd ⟨heq, Option.some_ne_none names⟩ hnot

theorem masksKept_renameRole (rid : List Char) (hrename : s.renameRole id name = some s') :
    MasksKept rid s.roles s'.roles := by
  obtain rfl | ⟨text, rfl⟩ := renameRole_cases hrename
  · exact .of_subset fun _ hr _ => hr
  · apply MasksKept.amend
    · exact fun _ => rfl
    · exact fun _ _ => rfl

theorem masksKept_updateRole (s : Rbac) (req : UpdateRoleRequest)
    (hnot : ¬(rid = id ∧ req.permissions ≠ none ∧ s.Custom id)) (h : s.Sound) :
    MasksKept rid s.roles (s.updateRole id req).1.roles := by
  rw [updateRole]
  cases hfind : s.roles.find? fun r => r.id = id with
  | none => exact .of_subset fun _ hr _ => hr
  | some row =>
    by_cases hbuiltin : row.builtin = true
    · simp only [if_pos hbuiltin]
      by_cases hmore : (req.permissions.isSome || req.name.isSome) = true
      · rw [if_pos hmore]
        exact .of_subset fun _ hr _ => hr
      · rw [if_neg hmore]
        exact s.masksKept_describeRole rid id req.description
    · simp only [if_neg hbuiltin]
      cases hrename : s.renameRole id req.name with
      | none => exact .of_subset fun _ hr _ => hr
      | some s' =>
        apply (masksKept_renameRole rid hrename).trans
        apply MasksKept.trans ?_ (masksKept_describeRole _ rid id req.description)
        apply masksKept_grantRole
        intro hgrant
        exact hnot ⟨hgrant.1, hgrant.2, h.custom hfind hbuiltin⟩

theorem Sound.permissionsOf_kept (h : s.Sound) (h' : s'.Sound) (hu : u ∈ s.users)
    (hkept : ∀ rid, u.roleId = some rid → MasksKept rid s.roles s'.roles) :
    s'.permissionsOf u = s.permissionsOf u := by
  cases hrid : u.roleId with
  | none => rw [s'.permissionsOf_none hrid, s.permissionsOf_none hrid]
  | some rid =>
    obtain ⟨row, hrow, hid, hperms⟩ := h.exists_row hu hrid
    obtain ⟨row', hrow', hid', hbits⟩ := hkept rid hrid row hrow hid
    rw [hperms, h'.permissionsOf_row hrow' hid' hrid, hbits]

end Rbac

/-- The operation gives the user another role, changes the permissions of his own role, or removes
him. -/
def RbacOp.Touches (u : User) : RbacOp → Prop
  | updateUser _ id req => id = u.id ∧ req.role ≠ none
  | updateRole id req => u.roleId = some id ∧ req.permissions ≠ none ∧ ∀ b ∈ builtinRoles, id ≠ b.id
  | deleteUser _ id _ | usersRemove id _ => id = u.id
  | migrate | createRole _ _ | deleteRole _ | register _ _ | createUser _ _ | usersAdd _ _ _ _
  | usersSetEnabled _ _ => False

namespace Rbac

variable {s s' : Rbac} {id : List Char} {libs : PasswordLibs} {minLength : Nat}

theorem Custom.ne_builtin (h : s.Sound) (hcustom : s.Custom id) :
    ∀ b ∈ builtinRoles, id ≠ b.id := by
  intro b hb heq
  obtain ⟨row, hrow, his⟩ := h.builtins b hb
  exact his.not_custom (hcustom row hrow (his.id.trans heq.symm))

/-- The account is there again, and may do the same. -/
def Kept (s : Rbac) (u : User) (s' : Rbac) : Prop :=
  ∃ u' ∈ s'.users, Filled u u' ∧ s'.permissionsOf u' = s.permissionsOf u

theorem Kept.of_users (hroles : s'.roles = s.roles) (hmem : u' ∈ s'.users) (hid : u'.id = u.id)
    (hrole : u'.role = u.role) (hroleId : u'.roleId = u.roleId) : s.Kept u s' := by
  refine ⟨u', hmem, ⟨hid, hrole, .inl hroleId⟩, ?_⟩
  rw [permissionsOf, permissionsOf, resolveTokenPermissions, resolveTokenPermissions, hroles, hrole,
    hroleId]

theorem Kept.refl (hu : u ∈ s.users) : s.Kept u s := .of_users rfl hu rfl rfl rfl

theorem Kept.of_roles (h : s.Sound) (h' : s'.Sound) (hu : u ∈ s.users)
    (husers : s'.users = s.users)
    (hkept : ∀ rid, u.roleId = some rid → MasksKept rid s.roles s'.roles) : s.Kept u s' :=
  ⟨u, husers ▸ hu, .refl u, h.permissionsOf_kept h' hu hkept⟩

theorem kept_insertUser (hu : u ∈ s.users) (hinsert : s.insertUser user = some s') :
    s.Kept u s' := by
  rw [insertUser] at hinsert
  by_cases htaken : (hasKey User.id user.id s.users ||
      hasKey User.username user.username s.users) = true
  · rw [if_pos htaken] at hinsert
    cases hinsert
  · rw [if_neg htaken] at hinsert
    rw [← Option.some.inj hinsert]
    exact .of_users rfl (List.mem_append_left _ hu) rfl rfl rfl

theorem kept_deleteUser (hu : u ∈ s.users) (hne : id ≠ u.id) (referenced : Bool) :
    s.Kept u (s.deleteUser id referenced).1 := by
  rw [deleteUser]
  cases referenced with
  | true => exact .refl hu
  | false =>
    simp only [Bool.false_eq_true, if_false]
    by_cases hstored : hasKey User.id id s.users = true
    · rw [if_pos hstored]
      exact .of_users rfl (mem_dropKey.mpr ⟨hu, hne.symm⟩) rfl rfl rfl
    · rw [if_neg hstored]
      exact .refl hu

theorem Sound.kept_createRole (h : s.Sound) (hu : u ∈ s.users) (id : List Char)
    (req : CreateRoleRequest) : s.Kept u (s.createRole id req).1 := by
  have h' := h.createRole id req
  rw [Rbac.createRole] at h' ⊢
  by_cases hblank : trim req.name = []
  · rw [if_pos hblank]
    exact .refl hu
  rw [if_neg hblank] at h' ⊢
  by_cases htaken : (hasKey RoleRow.id id s.roles ||
      hasKey RoleRow.name (trim req.name) s.roles) = true
  · rw [if_pos htaken]
    exact .refl hu
  rw [if_neg htaken] at h' ⊢
  exact .of_roles h h' hu rfl fun _ _ => .of_subset fun r hr _ => List.mem_append_left _ hr

theorem users_updateRole (s : Rbac) (id : List Char) (req : UpdateRoleRequest) :
    (s.updateRole id req).1.users = s.users := by
  have hdescribe (t : Rbac) (text : Option (List Char)) :
      (t.describeRole id text).users = t.users := by
    cases text <;> rfl
  have hgrant (t : Rbac) (names : Option (List String)) :
      (t.grantRole id names).users = t.users := by
    cases names <;> rfl
  rw [updateRole]
  cases s.roles.find? fun r => r.id = id with
  | none => rfl
  | some row =>
    by_cases hbuiltin : row.builtin = true
    · simp only [if_pos hbuiltin]
      by_cases hmore : (req.permissions.isSome || req.name.isSome) = true
      · rw [if_pos hmore]
      · rw [if_neg hmore]
        exact hdescribe s req.description
    · simp only [if_neg hbuiltin]
      cases hrename : s.renameRole id req.name with
      | none => rfl
      | some s' =>
        dsimp only
        rw [hdescribe, hgrant]
        obtain rfl | ⟨text, rfl⟩ := renameRole_cases hrename
        · rfl
        · rfl

/-- A role that is deleted is nobody's. -/
theorem Sound.kept_deleteRole (h : s.Sound) (hu : u ∈ s.users) (id : List Char) :
    s.Kept u (s.deleteRole id).1 := by
  have h' := h.deleteRole id
  rw [Rbac.deleteRole] at h' ⊢
  cases hfind : s.roles.find? fun r => r.id = id with
  | none => exact .refl hu
  | some row =>
    rw [hfind] at h'
    by_cases hbuiltin : row.builtin = true
    · simp only [if_pos hbuiltin]
      exact .refl hu
    simp only [if_neg hbuiltin] at h' ⊢
    by_cases hused : (s.users.any fun u => u.roleId = some id) = true
    · rw [if_pos hused]
      exact .refl hu
    rw [if_neg hused] at h' ⊢
    apply Kept.of_roles h h' hu rfl
    intro rid hrid
    apply MasksKept.of_subset
    intro r hr hid
    refine mem_dropKey.mpr ⟨hr, ?_⟩
    intro heq
    apply hused
    rw [List.any_eq_true]
    exact ⟨u, hu, decide_eq_true (hrid.trans (congrArg some (hid.symm.trans heq)))⟩

theorem kept_register (hu : u ∈ s.users) (id : List Char) (req : CreateUserRequest) :
    s.Kept u (s.register libs minLength id req).1 := by
  rw [register]
  by_cases hvalid : validatePassword libs req.password minLength = true
  · rw [if_pos hvalid]
    cases libs.hashPassword req.password with
    | none => exact .refl hu
    | some hash =>
      simp only [if_neg (List.ne_nil_of_mem hu)]
      exact .refl hu
  · rw [if_neg hvalid]
    exact .refl hu

theorem kept_createUser (hu : u ∈ s.users) (id : List Char) (req : CreateUserRequest) :
    s.Kept u (s.createUser libs minLength id req).1 := by
  rw [createUser]
  by_cases hvalid : validatePassword libs req.password minLength = true
  · rw [if_pos hvalid]
    cases libs.hashPassword req.password with
    | none => exact .refl hu
    | some hash =>
      dsimp only
      cases hinsert : s.insertUser ⟨id, req.username, hash, req.role.getD "viewer".toList,
          builtinRoleId (req.role.getD "viewer".toList), true⟩ with
      | none => exact .refl hu
      | some s' => exact kept_insertUser hu hinsert
  · rw [if_neg hvalid]
    exact .refl hu

theorem Sound.kept_updateUser (h : s.Sound) (hu : u ∈ s.users) (scan : ScanOrder RoleRow)
    (req : UpdateUserRequest) (hrole : id = u.id → req.role = none) :
    s.Kept u (s.updateUser libs minLength scan id req).1 := by
  obtain heq | ⟨user, user', huser, hid, hid', hrole', hroleId', heq⟩ :=
    @updateUser_cases libs minLength s scan id req
  · rw [heq]
    exact .refl hu
  rw [heq]
  by_cases hsame : id = u.id
  · rw [hrole hsame] at hrole' hroleId'
    cases Keyed.of_nodup h.userIds user huser u hu (hid.trans hsame)
    have hmem : user' ∈ setRow User.id user' s.users :=
      mem_setRow.mpr (.inr ⟨rfl, hasKey_iff.mpr ⟨u, hu, hid'.symm⟩⟩)
    exact .of_users rfl hmem hid' hrole' hroleId'
  · have hne : u.id ≠ user'.id := fun heq => hsame (hid.symm.trans (hid'.symm.trans heq.symm))
    have hmem : u ∈ setRow User.id user' s.users := mem_setRow.mpr (.inl ⟨hu, hne⟩)
    exact .of_users rfl hmem rfl rfl rfl

theorem kept_usersSetEnabled (hu : u ∈ s.users) (id : List Char) (enabled : Bool) :
    s.Kept u ((RbacOp.usersSetEnabled id enabled).exec libs minLength s) := by
  by_cases hid : u.id = id
  · exact .of_users rfl (mem_amend.mpr (.inr ⟨u, hu, hid, rfl⟩)) rfl rfl rfl
  · exact .of_users rfl (mem_amend.mpr (.inl ⟨hu, hid⟩)) rfl rfl rfl

theorem Sound.kept_step (h : s.Sound) (hu : u ∈ s.users) (op : RbacOp) (hop : ¬op.Touches u) :
    s.Kept u (op.exec libs minLength s) := by
  cases op with
  | migrate =>
    rw [RbacOp.exec, h.migrate_eq]
    obtain ⟨u', hu', hfill⟩ := exists_backfilled (fun _ hb => hb) hu
    exact ⟨u', hu', hfill, h.permissionsOf_filled hfill⟩
  | createRole id req => exact h.kept_createRole hu id req
  | updateRole id req =>
    apply Kept.of_roles h (h.updateRole id req) hu (s.users_updateRole id req)
    intro rid hrid
    apply masksKept_updateRole s req ?_ h
    intro htouch
    exact hop ⟨htouch.1 ▸ hrid, htouch.2.1, Custom.ne_builtin h htouch.2.2⟩
  | deleteRole id => exact h.kept_deleteRole hu id
  | register id req => exact kept_register hu id req
  | createUser id req => exact kept_createUser hu id req
  | updateUser scan id req =>
    apply h.kept_updateUser hu scan req
    intro hid
    by_contra hrole
    exact hop ⟨hid, hrole⟩
  | deleteUser actorId id referenced =>
    rw [RbacOp.exec, Rbac.deleteUserHandler]
    split
    · exact .refl hu
    · split
      · exact kept_deleteUser hu hop referenced
      · exact .refl hu
  | usersAdd id username hash role =>
    rw [RbacOp.exec]
    cases hinsert : s.insertUser ⟨id, username, hash, role, none, true⟩ with
    | none => exact .refl hu
    | some s' => exact kept_insertUser hu hinsert
  | usersRemove id referenced => exact kept_deleteUser hu hop referenced
  | usersSetEnabled id enabled => exact kept_usersSetEnabled hu id enabled

theorem touches_of_filled (hfill : Filled u u') {op : RbacOp} (h : op.Touches u') :
    op.Touches u := by
  cases op with
  | updateUser scan id req => exact ⟨h.1.trans hfill.id, h.2⟩
  | updateRole id req =>
    obtain ⟨hrid, hnames, hne⟩ := h
    cases hfill.roleId with
    | inl hsame => exact ⟨hsame.symm.trans hrid, hnames, hne⟩
    | inr hfilled =>
      obtain ⟨-, b, hb, -, hb'⟩ := hfilled
      exact absurd (Option.some.inj (hrid.symm.trans hb')) (hne b hb)
  | deleteUser actorId id referenced => exact Eq.trans h hfill.id
  | usersRemove id referenced => exact Eq.trans h hfill.id
  | migrate | createRole | deleteRole | register | createUser | usersAdd | usersSetEnabled =>
    exact h

theorem Sound.kept_run (h : s.Sound) (hu : u ∈ s.users) {ops : List RbacOp}
    (hops : ∀ op ∈ ops, ¬op.Touches u) : s.Kept u (ops.foldl (RbacOp.exec libs minLength) s) := by
  induction ops generalizing s u with
  | nil => exact .refl hu
  | cons op ops ih =>
    have hstep : s.Kept u (op.exec libs minLength s) := h.kept_step hu op (hops op List.mem_cons_self)
    obtain ⟨u', hu', hfill, hperms⟩ := hstep
    have hrest : ∀ op' ∈ ops, ¬op'.Touches u' := fun op' hop' htouch =>
      hops op' (List.mem_cons_of_mem op hop') (touches_of_filled hfill htouch)
    obtain ⟨u'', hu'', hfill', hperms'⟩ := ih (h.exec op) hu' hrest
    exact ⟨u'', hu'', hfill.trans hfill', hperms'.trans hperms⟩

/-- What a user may do stays the same over every run that does not remove him, give him another
role, or set the permissions of his custom role. -/
theorem permissions_kept (hs : s.Installed) (past later : List RbacOp) (u : User)
    (hu : u ∈ (past.foldl (RbacOp.exec libs minLength) s.migrate).users)
    (hlater : ∀ op ∈ later, ¬op.Touches u) :
    ∃ u' ∈ ((past ++ later).foldl (RbacOp.exec libs minLength) s.migrate).users, u'.id = u.id ∧
      ((past ++ later).foldl (RbacOp.exec libs minLength) s.migrate).permissionsOf u' =
        (past.foldl (RbacOp.exec libs minLength) s.migrate).permissionsOf u := by
  rw [List.foldl_append]
  have h : Sound (past.foldl (RbacOp.exec libs minLength) s.migrate) := hs.migrate.run past
  have hkept : Kept (past.foldl (RbacOp.exec libs minLength) s.migrate) u
      (later.foldl (RbacOp.exec libs minLength)
        (past.foldl (RbacOp.exec libs minLength) s.migrate)) := h.kept_run hu hlater
  obtain ⟨u', hu', hfill, hperms⟩ := hkept
  exact ⟨u', hu', hfill.id, hperms⟩

/-- The first user after the first start. -/
def rootUser : User :=
  ⟨"u1".toList, "root".toList, "hash".toList, "admin".toList, some "builtin-admin".toList, true⟩

def dropAdmin : RbacOp := .deleteRole "builtin-admin".toList

theorem permissions_kept_root :
    ∃ u' ∈ (([auditRole] ++ [dropAdmin]).foldl (RbacOp.exec plainLibs 8) freshInstall.migrate).users,
      u'.id = rootUser.id ∧
      (([auditRole] ++ [dropAdmin]).foldl (RbacOp.exec plainLibs 8)
          freshInstall.migrate).permissionsOf u' =
        ([auditRole].foldl (RbacOp.exec plainLibs 8) freshInstall.migrate).permissionsOf rootUser :=
  permissions_kept freshInstall_installed [auditRole]
    [dropAdmin] rootUser (by decide +kernel)
    (by
      intro op hop
      rw [List.mem_singleton.mp hop]
      exact fun htouch => htouch)

end Rbac

end AiFw.Auth
