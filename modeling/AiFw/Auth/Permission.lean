import AiFw.Lib.Runs
import Mathlib.Data.List.Nodup
import Mathlib.Data.Nat.Bitwise

namespace AiFw.Auth
open AiFw.Lib
set_option autoImplicit true

inductive Permission where
  | dashboardView
  | rulesRead
  | rulesWrite
  | natRead
  | natWrite
  | vpnRead
  | vpnWrite
  | geoipRead
  | geoipWrite
  | idsRead
  | idsWrite
  | dnsRead
  | dnsWrite
  | dhcpRead
  | dhcpWrite
  | aliasesRead
  | aliasesWrite
  | interfacesRead
  | interfacesWrite
  | connectionsView
  | logsView
  | usersRead
  | usersWrite
  | settingsRead
  | settingsWrite
  | pluginsRead
  | pluginsWrite
  | updatesRead
  | updatesInstall
  | backupRead
  | backupWrite
  | systemReboot
  | proxyRead
  | proxyWrite
  | multiWanRead
  | multiWanWrite
  | haManage
deriving DecidableEq

namespace Permission

def bitIndex (p : Permission) : Nat := p.ctorIdx

def asStr : Permission → String
  | dashboardView => "dashboard:view"
  | rulesRead => "rules:read"
  | rulesWrite => "rules:write"
  | natRead => "nat:read"
  | natWrite => "nat:write"
  | vpnRead => "vpn:read"
  | vpnWrite => "vpn:write"
  | geoipRead => "geoip:read"
  | geoipWrite => "geoip:write"
  | idsRead => "ids:read"
  | idsWrite => "ids:write"
  | dnsRead => "dns:read"
  | dnsWrite => "dns:write"
  | dhcpRead => "dhcp:read"
  | dhcpWrite => "dhcp:write"
  | aliasesRead => "aliases:read"
  | aliasesWrite => "aliases:write"
  | interfacesRead => "interfaces:read"
  | interfacesWrite => "interfaces:write"
  | connectionsView => "connections:view"
  | logsView => "logs:view"
  | usersRead => "users:read"
  | usersWrite => "users:write"
  | settingsRead => "settings:read"
  | settingsWrite => "settings:write"
  | pluginsRead => "plugins:read"
  | pluginsWrite => "plugins:write"
  | updatesRead => "updates:read"
  | updatesInstall => "updates:install"
  | backupRead => "backup:read"
  | backupWrite => "backup:write"
  | systemReboot => "system:reboot"
  | proxyRead => "proxy:read"
  | proxyWrite => "proxy:write"
  | multiWanRead => "multiwan:read"
  | multiWanWrite => "multiwan:write"
  | haManage => "ha:manage"

def fromStr : String → Option Permission
  | "dashboard:view" => some dashboardView
  | "rules:read" => some rulesRead
  | "rules:write" => some rulesWrite
  | "nat:read" => some natRead
  | "nat:write" => some natWrite
  | "vpn:read" => some vpnRead
  | "vpn:write" => some vpnWrite
  | "geoip:read" => some geoipRead
  | "geoip:write" => some geoipWrite
  | "ids:read" => some idsRead
  | "ids:write" => some idsWrite
  | "dns:read" => some dnsRead
  | "dns:write" => some dnsWrite
  | "dhcp:read" => some dhcpRead
  | "dhcp:write" => some dhcpWrite
  | "aliases:read" => some aliasesRead
  | "aliases:write" => some aliasesWrite
  | "interfaces:read" => some interfacesRead
  | "interfaces:write" => some interfacesWrite
  | "connections:view" => some connectionsView
  | "logs:view" => some logsView
  | "users:read" => some usersRead
  | "users:write" => some usersWrite
  | "settings:read" => some settingsRead
  | "settings:write" => some settingsWrite
  | "plugins:read" => some pluginsRead
  | "plugins:write" => some pluginsWrite
  | "updates:read" => some updatesRead
  | "updates:install" => some updatesInstall
  | "backup:read" => some backupRead
  | "backup:write" => some backupWrite
  | "system:reboot" => some systemReboot
  | "proxy:read" => some proxyRead
  | "proxy:write" => some proxyWrite
  | "multiwan:read" => some multiWanRead
  | "multiwan:write" => some multiWanWrite
  | "ha:manage" => some haManage
  | _ => none

end Permission

/-- All permissions in bit-index order. -/
def allPermissions : List Permission :=
  [.dashboardView, .rulesRead, .rulesWrite, .natRead, .natWrite, .vpnRead, .vpnWrite,
   .geoipRead, .geoipWrite, .idsRead, .idsWrite, .dnsRead, .dnsWrite, .dhcpRead, .dhcpWrite,
   .aliasesRead, .aliasesWrite, .interfacesRead, .interfacesWrite, .connectionsView,
   .logsView, .usersRead, .usersWrite, .settingsRead, .settingsWrite, .pluginsRead,
   .pluginsWrite, .updatesRead, .updatesInstall, .backupRead, .backupWrite, .systemReboot,
   .proxyRead, .proxyWrite, .multiWanRead, .multiWanWrite, .haManage]

theorem fromStr_asStr (p : Permission) : Permission.fromStr p.asStr = some p := by
  cases p <;> rfl

theorem asStr_of_fromStr {s : String} (h : Permission.fromStr s = some p) : p.asStr = s := by
  unfold Permission.fromStr at h
  split at h <;> cases h <;> rfl

theorem asStr_inj {p q : Permission} (h : p.asStr = q.asStr) : p = q :=
  Option.some.inj ((fromStr_asStr p).symm.trans (h ▸ fromStr_asStr q))

/-- The list is in the order of the bits, without a gap. -/
theorem allPermissions_bits : allPermissions.map Permission.bitIndex = List.range 37 := by decide

theorem mem_allPermissions (p : Permission) : p ∈ allPermissions := by
  cases p <;> decide

theorem bitIndex_lt (p : Permission) : p.bitIndex < 37 := by
  have hmem := List.mem_map_of_mem (f := Permission.bitIndex) (mem_allPermissions p)
  rw [allPermissions_bits] at hmem
  exact List.mem_range.mp hmem

theorem bitIndex_inj {p q : Permission} (h : p.bitIndex = q.bitIndex) : p = q := by
  have hnodup : (allPermissions.map Permission.bitIndex).Nodup := by
    rw [allPermissions_bits]
    exact List.nodup_range
  exact List.inj_on_of_nodup_map hnodup (mem_allPermissions p) (mem_allPermissions q) h

theorem exists_bitIndex (h : i < 37) : ∃ p : Permission, p.bitIndex = i := by
  have hmem : i ∈ allPermissions.map Permission.bitIndex := by
    rw [allPermissions_bits]
    exact List.mem_range.mpr h
  obtain ⟨p, -, hp⟩ := List.mem_map.mp hmem
  exact ⟨p, hp⟩

/-- A set of permissions, as the mask that tokens and rows carry. -/
structure PermissionSet where
  bits : BitVec 64
deriving DecidableEq

namespace PermissionSet

def new : PermissionSet := ⟨0⟩

def mask (p : Permission) : BitVec 64 := 1#64 <<< p.bitIndex

def has (s : PermissionSet) (p : Permission) : Bool := s.bits &&& mask p != 0

def grant (s : PermissionSet) (p : Permission) : PermissionSet := ⟨s.bits ||| mask p⟩

def revoke (s : PermissionSet) (p : Permission) : PermissionSet := ⟨s.bits &&& ~~~mask p⟩

def fromPermissions (perms : List Permission) : PermissionSet := perms.foldl grant new

def toStrings (s : PermissionSet) : List String :=
  (allPermissions.filter fun p => s.has p).map Permission.asStr

def grantNamed (s : PermissionSet) (name : String) : PermissionSet :=
  match Permission.fromStr name with
  | some p => s.grant p
  | none => s

def fromStrings (strings : List String) : PermissionSet := strings.foldl grantNamed new

def all : PermissionSet := fromPermissions allPermissions

/-- No bit is set that stands for no permission. -/
def Known (s : PermissionSet) : Prop := ∀ i, s.bits.getLsbD i = true → i < 37

theorem mask_getLsbD (p : Permission) (i : Nat) : (mask p).getLsbD i = decide (i = p.bitIndex) := by
  have hlt := bitIndex_lt p
  rw [mask, ← BitVec.twoPow_eq, BitVec.getLsbD_twoPow,
    decide_eq_true (by omega : p.bitIndex < 64), Bool.true_and]
  exact decide_eq_decide.mpr eq_comm

theorem has_eq (s : PermissionSet) (p : Permission) : s.has p = s.bits.getLsbD p.bitIndex := by
  have hlt := bitIndex_lt p
  rw [has, mask, ← BitVec.twoPow_eq, BitVec.and_twoPow]
  cases s.bits.getLsbD p.bitIndex with
  | false => rfl
  | true =>
    apply bne_iff_ne.mpr
    intro hzero
    have hbit := congrArg (fun b => b.getLsbD p.bitIndex) hzero
    rw [if_pos rfl] at hbit
    simp only [BitVec.getLsbD_twoPow, BitVec.ofNat_eq_ofNat, BitVec.getLsbD_zero, decide_true,
      Bool.and_true, decide_eq_false_iff_not] at hbit
    omega

@[simp] theorem has_new (p : Permission) : new.has p = false := by
  rw [has_eq]
  exact BitVec.getLsbD_zero

@[simp] theorem has_grant (s : PermissionSet) (p q : Permission) :
    (s.grant p).has q = (s.has q || decide (q = p)) := by
  rw [has_eq, has_eq, grant, BitVec.getLsbD_or, mask_getLsbD]
  congr 1
  exact decide_eq_decide.mpr ⟨bitIndex_inj, congrArg Permission.bitIndex⟩

@[simp] theorem has_revoke (s : PermissionSet) (p q : Permission) :
    (s.revoke p).has q = (s.has q && !decide (q = p)) := by
  have hlt := bitIndex_lt q
  rw [has_eq, has_eq, revoke, BitVec.getLsbD_and, BitVec.getLsbD_not, mask_getLsbD,
    decide_eq_true (by omega : q.bitIndex < 64), Bool.true_and]
  congr 2
  exact decide_eq_decide.mpr ⟨bitIndex_inj, congrArg Permission.bitIndex⟩

theorem has_fromPermissions {perms : List Permission} {q : Permission} :
    (fromPermissions perms).has q = true ↔ q ∈ perms := by
  have hgrant (s : PermissionSet) (p : Permission) :
      (s.grant p).has q = true ↔ s.has q = true ∨ q = p := by
    rw [has_grant, Bool.or_eq_true, decide_eq_true_eq]
  have hgathers := foldl_gathers (P := fun s : PermissionSet => s.has q = true) hgrant new perms
  rw [fromPermissions, hgathers, has_new]
  simp only [Bool.false_eq_true, exists_eq_right', false_or]

theorem has_grantNamed (s : PermissionSet) (name : String) (q : Permission) :
    (s.grantNamed name).has q = true ↔ s.has q = true ∨ q.asStr = name := by
  rw [grantNamed]
  cases h : Permission.fromStr name with
  | none =>
    simp only [iff_self_or]
    intro hq
    rw [← hq, fromStr_asStr] at h
    cases h
  | some p =>
    rw [has_grant, Bool.or_eq_true, decide_eq_true_eq, ← asStr_of_fromStr h]
    exact or_congr_right ⟨congrArg Permission.asStr, asStr_inj⟩

theorem has_fromStrings {strings : List String} {q : Permission} :
    (fromStrings strings).has q = true ↔ q.asStr ∈ strings := by
  have hnamed (s : PermissionSet) (name : String) := has_grantNamed s name q
  have hgathers := foldl_gathers (P := fun s : PermissionSet => s.has q = true) hnamed new strings
  rw [fromStrings, hgathers, has_new]
  simp only [Bool.false_eq_true, exists_eq_right', false_or]

theorem known_new : new.Known := by
  intro i hi
  rw [new, BitVec.ofNat_eq_ofNat, BitVec.getLsbD_zero] at hi
  cases hi

theorem Known.grant {s : PermissionSet} (h : s.Known) (p : Permission) : (s.grant p).Known := by
  intro i hi
  rw [PermissionSet.grant, BitVec.getLsbD_or, mask_getLsbD, Bool.or_eq_true,
    decide_eq_true_eq] at hi
  cases hi with
  | inl hold => exact h i hold
  | inr hnew => exact hnew ▸ bitIndex_lt p

theorem Known.grantNamed {s : PermissionSet} (h : s.Known) (name : String) :
    (s.grantNamed name).Known := by
  rw [PermissionSet.grantNamed]
  cases Permission.fromStr name with
  | none => exact h
  | some p => exact h.grant p

theorem Known.foldl {step : PermissionSet → α → PermissionSet}
    (hstep : ∀ s a, s.Known → (step s a).Known) (l : List α) {s : PermissionSet} (h : s.Known) :
    (l.foldl step s).Known := by
  induction l generalizing s with
  | nil => exact h
  | cons a l ih => exact ih (hstep s a h)

theorem known_fromPermissions (perms : List Permission) : (fromPermissions perms).Known :=
  Known.foldl (fun _ p h => h.grant p) perms known_new

theorem known_fromStrings (strings : List String) : (fromStrings strings).Known :=
  Known.foldl (fun _ name h => h.grantNamed name) strings known_new

/-- Sets of known permissions that have the same ones are the same mask. -/
theorem Known.ext {s t : PermissionSet} (hs : s.Known) (ht : t.Known)
    (h : ∀ p, s.has p = true ↔ t.has p = true) : s = t := by
  have hbits : s.bits = t.bits := by
    apply BitVec.eq_of_getLsbD_eq
    intro i _
    rw [Bool.eq_iff_iff]
    by_cases hi : i < 37
    · obtain ⟨p, rfl⟩ := exists_bitIndex hi
      rw [← has_eq, ← has_eq]
      exact h p
    · exact iff_of_false (fun hbit => hi (hs i hbit)) fun hbit => hi (ht i hbit)
  exact congrArg PermissionSet.mk hbits

theorem has_all (p : Permission) : all.has p = true :=
  has_fromPermissions.mpr (mem_allPermissions p)

theorem mem_toStrings {s : PermissionSet} {name : String} :
    name ∈ s.toStrings ↔ ∃ p, s.has p = true ∧ p.asStr = name := by
  rw [toStrings, List.mem_map]
  simp only [List.mem_filter, mem_allPermissions, true_and]

theorem has_and_all (s : PermissionSet) (p : Permission) :
    (PermissionSet.mk (s.bits &&& all.bits)).has p = s.has p := by
  have hall := has_all p
  rw [has_eq] at hall
  rw [has_eq, has_eq, BitVec.getLsbD_and, hall, Bool.and_true]

/-- The names of a mask give back the mask without its unknown bits, and the mask of any list of
names gives back the known ones of them, each once and in the order of their bits. -/
theorem names_round_trip (s : PermissionSet) (names : List String) :
    fromStrings s.toStrings = ⟨s.bits &&& all.bits⟩ ∧
      (fromStrings names).toStrings =
        (allPermissions.filter fun p => decide (p.asStr ∈ names)).map Permission.asStr := by
  have hknown : (PermissionSet.mk (s.bits &&& all.bits)).Known := by
    intro i hi
    rw [BitVec.getLsbD_and, Bool.and_eq_true] at hi
    exact known_fromPermissions _ i hi.2
  constructor
  · apply (known_fromStrings _).ext hknown
    intro p
    rw [has_fromStrings, mem_toStrings, has_and_all]
    constructor
    · intro h
      obtain ⟨q, hq, heq⟩ := h
      exact asStr_inj heq ▸ hq
    · intro h
      exact ⟨p, h, rfl⟩
  · rw [toStrings]
    congr 1
    apply List.filter_congr
    intro p _
    rw [Bool.eq_iff_iff, has_fromStrings, decide_eq_true_eq]

end PermissionSet

/-- The default permissions of a built-in role; other roles have none. -/
def builtinRolePermissions (role : List Char) : List Permission :=
  if role = "admin".toList then allPermissions
  else if role = "operator".toList then
    allPermissions.filter fun p =>
      !decide (p ∈ [.usersWrite, .settingsWrite, .updatesInstall, .systemReboot, .haManage])
  else if role = "viewer".toList then
    allPermissions.filter fun p =>
      (":read".toList.isSuffixOf p.asStr.toList || ":view".toList.isSuffixOf p.asStr.toList) &&
        !decide (p ∈ [.usersRead, .settingsRead, .backupRead])
  else []

end AiFw.Auth
