import AiFw.Lib.Settings
import AiFw.Vpn.TunnelRows

namespace AiFw.Vpn
open AiFw.Lib AiFw.Net AiFw.Pf
open AiFw.Wan (displayUuid u32Text)
set_option autoImplicit true

structure ChildConf where
  name : List Char
  localTs : List (List Char)
  remoteTs : List (List Char)
  espProposals : List (List Char)
  rekeyTime : Nat
  startAction : List Char
  dpdAction : Option (List Char)
deriving DecidableEq

structure AuthConf where
  auth : List Char
  certs : Option (List Char)
  id : Option (List Char)
deriving DecidableEq

structure ConnConf where
  name : List Char
  version : List Char
  localAddrs : Option (List (List Char))
  remoteAddrs : List (List Char)
  proposals : List (List Char)
  rekeyTime : Nat
  dpdDelay : Option Nat
  localAuth : AuthConf
  remoteAuth : AuthConf
  children : List ChildConf
deriving DecidableEq

structure SecretConf where
  name : List Char
  secret : List Char
  id1 : Option (List Char)
  id2 : List Char
deriving DecidableEq

structure SwanctlConf where
  connections : List ConnConf
  secrets : List SecretConf
deriving DecidableEq

/-- The settings of a section with no others among them than the known ones. -/
def sectionOf (keys : List String) : Setting → Option Settings
  | .value _ => none
  | .part settings => if Settings.known settings keys then some settings else none

def ChildConf.read (e : List Char × Setting) : Option ChildConf := do
  let s ← sectionOf ["local_ts", "remote_ts", "esp_proposals", "rekey_time", "start_action",
    "dpd_action"] e.2
  let localTs ← s.text "local_ts"
  let remoteTs ← s.text "remote_ts"
  let espProposals ← s.text "esp_proposals"
  let rekeyTime ← (← s.text "rekey_time") |> seconds
  let startAction ← s.text "start_action"
  let dpdAction ← s.textIfAny "dpd_action"
  return ⟨e.1, listed localTs, listed remoteTs, listed espProposals, rekeyTime, startAction,
    dpdAction⟩

def AuthConf.read (settings : Settings) : Option AuthConf := do
  let s ← sectionOf ["auth", "certs", "id"] (.part settings)
  let auth ← s.text "auth"
  let certs ← s.textIfAny "certs"
  let id ← s.textIfAny "id"
  return ⟨auth, certs, id⟩

def ConnConf.read (e : List Char × Setting) : Option ConnConf := do
  let s ← sectionOf ["version", "local_addrs", "remote_addrs", "proposals", "rekey_time",
    "dpd_delay", "local", "remote", "children"] e.2
  let version ← s.text "version"
  let localAddrs ← s.textIfAny "local_addrs"
  let remoteAddrs ← s.text "remote_addrs"
  let proposals ← s.text "proposals"
  let rekeyTime ← (← s.text "rekey_time") |> seconds
  let dpdDelay ← s.textIfAny "dpd_delay"
  let dpdDelay ← dpdDelay.mapM seconds
  let localAuth ← (← s.inner "local") |> AuthConf.read
  let remoteAuth ← (← s.inner "remote") |> AuthConf.read
  let children ← (← s.inner "children").mapM ChildConf.read
  return ⟨e.1, version, localAddrs.map listed, listed remoteAddrs, listed proposals, rekeyTime,
    dpdDelay, localAuth, remoteAuth, children⟩

def SecretConf.read (e : List Char × Setting) : Option SecretConf := do
  let s ← sectionOf ["secret", "id-1", "id-2"] e.2
  let secret ← s.text "secret"
  let id1 ← s.textIfAny "id-1"
  let id2 ← s.text "id-2"
  return ⟨e.1, secret, id1, id2⟩

/-- A section of the file that need not be there. -/
def sections (settings : Settings) (key : String) : Settings := (settings.inner key).getD []

def SwanctlConf.ofSettings (settings : Settings) : Option SwanctlConf := do
  let s ← sectionOf ["connections", "secrets"] (.part settings)
  let connections ← (sections s "connections").mapM ConnConf.read
  let secrets ← (sections s "secrets").mapM SecretConf.read
  return ⟨connections, secrets⟩

def SwanctlConf.read (text : List Char) : Option SwanctlConf :=
  (readSettings text).bind SwanctlConf.ofSettings

namespace IpsecTunnel
variable {DateTime : Type} (t : IpsecTunnel DateTime)

def authText : List Char :=
  match t.authMethod with
  | .psk => "psk".toList
  | .cert => "pubkey".toList

def dpdActionText : List Char :=
  match t.startAction with
  | .start => "restart".toList
  | .trap => "trap".toList
  | .none => "clear".toList

def nonempty (text : List Char) : Option (List Char) := if text = [] then none else some text

def childConf : ChildConf where
  name := t.childName
  localTs := t.localTs
  remoteTs := t.remoteTs
  espProposals := [t.espProposal]
  rekeyTime := t.espLifetimeSecs.toNat
  startAction := t.startAction.display
  dpdAction := if t.dpdDelaySecs > 0 then some t.dpdActionText else none

def connConf : ConnConf where
  name := t.connName
  version := ['2']
  localAddrs := (nonempty t.localAddr).map fun addr => [addr]
  remoteAddrs := [t.remoteAddr]
  proposals := [t.ikeProposal]
  rekeyTime := t.ikeLifetimeSecs.toNat
  dpdDelay := if t.dpdDelaySecs > 0 then some t.dpdDelaySecs.toNat else none
  localAuth :=
    { auth := t.authText
      certs := if t.authMethod = .cert then some (t.connName ++ ".pem".toList) else none
      id := nonempty t.localId }
  remoteAuth := { auth := t.authText, certs := none, id := nonempty t.remoteId }
  children := [t.childConf]

def localIdent : List Char := if t.localId = [] then t.localAddr else t.localId

def remoteIdent : List Char := if t.remoteId = [] then t.remoteAddr else t.remoteId

def secretConf (secret : List Char) : SecretConf where
  name := "ike-".toList ++ t.connName
  secret := secret
  id1 := nonempty t.localIdent
  id2 := t.remoteIdent

/-- What the file of a tunnel asks for, with a secret in it. -/
def confWith (secret : List Char) : SwanctlConf where
  connections := [t.connConf]
  secrets := if t.authMethod = .psk then [t.secretConf secret] else []

/-- What was configured. -/
def conf : SwanctlConf := t.confWith t.psk

def childSettings : Settings :=
  [("local_ts".toList, .value (joinComma t.localTs)),
    ("remote_ts".toList, .value (joinComma t.remoteTs)),
    ("esp_proposals".toList, .value t.espProposal),
    ("rekey_time".toList, .value (u32Text t.espLifetimeSecs ++ ['s'])),
    ("start_action".toList, .value t.startAction.display)] ++
  if t.dpdDelaySecs > 0 then [("dpd_action".toList, .value t.dpdActionText)] else []

def localSettings : Settings :=
  [("auth".toList, .value t.authText)] ++
  (if t.authMethod = .cert then [("certs".toList, .value (t.connName ++ ".pem".toList))] else []) ++
  if t.localId ≠ [] then [("id".toList, .value t.localId)] else []

def remoteSettings : Settings :=
  [("auth".toList, .value t.authText)] ++
  if t.remoteId ≠ [] then [("id".toList, .value t.remoteId)] else []

def connSettings : Settings :=
  [("version".toList, .value ['2'])] ++
  (if t.localAddr ≠ [] then [("local_addrs".toList, .value t.localAddr)] else []) ++
  [("remote_addrs".toList, .value t.remoteAddr), ("proposals".toList, .value t.ikeProposal),
    ("rekey_time".toList, .value (u32Text t.ikeLifetimeSecs ++ ['s']))] ++
  (if t.dpdDelaySecs > 0 then
    [("dpd_delay".toList, .value (u32Text t.dpdDelaySecs ++ ['s']))] else []) ++
  [("local".toList, .part t.localSettings), ("remote".toList, .part t.remoteSettings),
    ("children".toList, .part [(t.childName, .part t.childSettings)])]

def secretSettings (secret : List Char) : Settings :=
  [("secret".toList, .value secret)] ++
  (if t.localIdent ≠ [] then [("id-1".toList, .value t.localIdent)] else []) ++
  [("id-2".toList, .value t.remoteIdent)]

def settings (secret : List Char) : Settings :=
  [("connections".toList, .part [(t.connName, .part t.connSettings)])] ++
  if t.authMethod = .psk then
    [("secrets".toList, .part [("ike-".toList ++ t.connName, .part (t.secretSettings secret))])]
  else []

/-- The values that stand bare in the file are words of the grammar, and what stands in quotes
beside the key has nothing in it that would end or change them. -/
structure Clean : Prop where
  localAddr : t.localAddr ≠ [] → isEntry t.localAddr = true
  remoteAddr : isEntry t.remoteAddr = true
  ikeProposal : isEntry t.ikeProposal = true
  espProposal : isEntry t.espProposal = true
  localTs : t.localTs ≠ [] ∧ ∀ ts ∈ t.localTs, isEntry ts = true
  remoteTs : t.remoteTs ≠ [] ∧ ∀ ts ∈ t.remoteTs, isEntry ts = true
  localId : ∀ c ∈ t.localId, c ≠ '"' ∧ c ≠ '\\' ∧ c ≠ '\n'
  remoteId : ∀ c ∈ t.remoteId, c ≠ '"' ∧ c ≠ '\\' ∧ c ≠ '\n'
  localIdent : ∀ c ∈ t.localIdent, c ≠ '"' ∧ c ≠ '\\' ∧ c ≠ '\n'
  remoteIdent : ∀ c ∈ t.remoteIdent, c ≠ '"' ∧ c ≠ '\\' ∧ c ≠ '\n'

end IpsecTunnel

variable {DateTime : Type} {t : IpsecTunnel DateTime}

theorem seconds_u32Text (n : UInt32) : seconds (u32Text n ++ ['s']) = some n.toNat :=
  seconds_toDigits n.toNat_lt

theorem read_localSettings (t : IpsecTunnel DateTime) :
    AuthConf.read t.localSettings = some t.connConf.localAuth := by
  unfold IpsecTunnel.localSettings IpsecTunnel.connConf IpsecTunnel.nonempty
  by_cases hcert : t.authMethod = .cert
  · rw [if_pos hcert, if_pos hcert]
    by_cases hid : t.localId = []
    · rw [if_neg (not_not_intro hid), if_pos hid]
      rfl
    · rw [if_pos hid, if_neg hid]
      rfl
  · rw [if_neg hcert, if_neg hcert]
    by_cases hid : t.localId = []
    · rw [if_neg (not_not_intro hid), if_pos hid]
      rfl
    · rw [if_pos hid, if_neg hid]
      rfl

theorem read_remoteSettings (t : IpsecTunnel DateTime) :
    AuthConf.read t.remoteSettings = some t.connConf.remoteAuth := by
  unfold IpsecTunnel.remoteSettings IpsecTunnel.connConf IpsecTunnel.nonempty
  by_cases hid : t.remoteId = []
  · rw [if_neg (not_not_intro hid), if_pos hid]
    rfl
  · rw [if_pos hid, if_neg hid]
    rfl

theorem read_childSettings (h : t.Clean) :
    ChildConf.read (t.childName, .part t.childSettings) = some t.childConf := by
  have hread : ChildConf.read (t.childName, .part t.childSettings) =
      (seconds (u32Text t.espLifetimeSecs ++ ['s'])).bind fun rekeyTime => some
        { t.childConf with
          localTs := listed (joinComma t.localTs)
          remoteTs := listed (joinComma t.remoteTs)
          espProposals := listed t.espProposal
          rekeyTime } := by
    unfold IpsecTunnel.childSettings IpsecTunnel.childConf
    by_cases hdpd : t.dpdDelaySecs > 0
    · rw [if_pos hdpd, if_pos hdpd]
      rfl
    · rw [if_neg hdpd, if_neg hdpd]
      rfl
  rw [hread, seconds_u32Text, joinComma, joinComma, listed_entries h.localTs.1 h.localTs.2,
    listed_entries h.remoteTs.1 h.remoteTs.2, listed_entry h.espProposal]
  rfl

theorem read_localAddr (h : t.Clean) :
    (IpsecTunnel.nonempty t.localAddr).map listed =
      (IpsecTunnel.nonempty t.localAddr).map fun addr => [addr] := by
  unfold IpsecTunnel.nonempty
  by_cases hne : t.localAddr = []
  · rw [if_pos hne]
    rfl
  · rw [if_neg hne, Option.map_some, Option.map_some, listed_entry (h.localAddr hne)]

theorem read_connSettings (h : t.Clean) :
    ConnConf.read (t.connName, .part t.connSettings) = some t.connConf := by
  have hread : ConnConf.read (t.connName, .part t.connSettings) =
      (seconds (u32Text t.ikeLifetimeSecs ++ ['s'])).bind fun rekeyTime =>
        ((if t.dpdDelaySecs > 0 then some (u32Text t.dpdDelaySecs ++ ['s']) else none).mapM
          seconds).bind fun dpdDelay =>
          (AuthConf.read t.localSettings).bind fun localAuth =>
            (AuthConf.read t.remoteSettings).bind fun remoteAuth =>
              ([(t.childName, Setting.part t.childSettings)].mapM ChildConf.read).bind
                fun children => some
                  { t.connConf with
                    localAddrs := (IpsecTunnel.nonempty t.localAddr).map listed
                    remoteAddrs := listed t.remoteAddr
                    proposals := listed t.ikeProposal
                    rekeyTime
                    dpdDelay
                    localAuth
                    remoteAuth
                    children } := by
    unfold IpsecTunnel.connSettings IpsecTunnel.nonempty
    by_cases hdpd : t.dpdDelaySecs > 0
    · rw [if_pos hdpd, if_pos hdpd]
      by_cases hlocal : t.localAddr = []
      · rw [if_neg (not_not_intro hlocal), if_pos hlocal]
        rfl
      · rw [if_pos hlocal, if_neg hlocal]
        rfl
    · rw [if_neg hdpd, if_neg hdpd]
      by_cases hlocal : t.localAddr = []
      · rw [if_neg (not_not_intro hlocal), if_pos hlocal]
        rfl
      · rw [if_pos hlocal, if_neg hlocal]
        rfl
  have hdpd : (if t.dpdDelaySecs > 0 then some (u32Text t.dpdDelaySecs ++ ['s']) else none).mapM
      seconds = some t.connConf.dpdDelay := by
    unfold IpsecTunnel.connConf
    by_cases hdpd : t.dpdDelaySecs > 0
    · rw [if_pos hdpd, if_pos hdpd, Option.mapM_some, seconds_u32Text]
      rfl
    · rw [if_neg hdpd, if_neg hdpd]
      rfl
  rw [hread, seconds_u32Text, hdpd, read_localSettings, read_remoteSettings, List.mapM_cons,
    read_childSettings h, read_localAddr h, listed_entry h.remoteAddr, listed_entry h.ikeProposal]
  rfl

theorem read_secretSettings (t : IpsecTunnel DateTime) (secret : List Char) :
    SecretConf.read ("ike-".toList ++ t.connName, .part (t.secretSettings secret)) =
      some (t.secretConf secret) := by
  unfold IpsecTunnel.secretSettings IpsecTunnel.secretConf IpsecTunnel.nonempty
  by_cases hid : t.localIdent = []
  · rw [if_neg (not_not_intro hid), if_pos hid]
    rfl
  · rw [if_pos hid, if_neg hid]
    rfl

/-- The settings of a file, with the secret in them, are read as they are meant. -/
theorem ofSettings_settings (h : t.Clean) (secret : List Char) :
    SwanctlConf.ofSettings (t.settings secret) = some (t.confWith secret) := by
  have hread : SwanctlConf.ofSettings (t.settings secret) =
      ([(t.connName, Setting.part t.connSettings)].mapM ConnConf.read).bind fun connections =>
        ((if t.authMethod = .psk then
          [("ike-".toList ++ t.connName, Setting.part (t.secretSettings secret))]
          else []).mapM SecretConf.read).bind fun secrets => some ⟨connections, secrets⟩ := by
    unfold IpsecTunnel.settings
    by_cases hpsk : t.authMethod = .psk
    · rw [if_pos hpsk, if_pos hpsk]
      rfl
    · rw [if_neg hpsk, if_neg hpsk]
      rfl
  rw [hread, List.mapM_cons, read_connSettings h]
  unfold IpsecTunnel.confWith
  by_cases hpsk : t.authMethod = .psk
  · rw [if_pos hpsk, if_pos hpsk, List.mapM_cons, read_secretSettings]
    rfl
  · rw [if_neg hpsk, if_neg hpsk]
    rfl

end AiFw.Vpn
