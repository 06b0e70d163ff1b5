import AiFw.Pf.NatColumns
import AiFw.Wan.Policy
import Mathlib.Data.List.Infix

namespace AiFw.Vpn
open AiFw.Lib AiFw.Net AiFw.Pf
open AiFw.Wan (Uuid displayUuid u32Text)
set_option autoImplicit true

/-- The quoted value at the end of a text is left out, and so is what the database says. -/
inductive AifwError where
  | validation (text : List Char)
  | notFound (text : List Char)
  | config (text : List Char)
  | database
deriving DecidableEq, Repr

def fail (text : String) : Except AifwError Unit := .error (.validation text.toList)

inductive IpsecAuthMethod where
  | psk
  | cert
deriving DecidableEq, Repr

inductive IpsecCertSource where
  | acme
  | manual
deriving DecidableEq, Repr

inductive IpsecStartAction where
  | start
  | trap
  | none
deriving DecidableEq, Repr

def IpsecAuthMethod.display : IpsecAuthMethod → List Char
  | .psk => "psk".toList
  | .cert => "cert".toList

def IpsecCertSource.display : IpsecCertSource → List Char
  | .acme => "acme".toList
  | .manual => "manual".toList

def IpsecStartAction.display : IpsecStartAction → List Char
  | .start => "start".toList
  | .trap => "trap".toList
  | .none => "none".toList

/-- The value of a stored keyword, or the error naming its kind. -/
def parseColumn (table : List (String × α)) (kind : String) (s : List Char) : Except AifwError α :=
  match parseKeyword table s with
  | some value => .ok value
  | none => .error (.validation ("unknown IPsec ".toList ++ kind.toList ++ ": ".toList ++ s))

def IpsecAuthMethod.parse : List Char → Except AifwError IpsecAuthMethod :=
  parseColumn [("psk", .psk), ("cert", .cert), ("pubkey", .cert)] "auth method"

def IpsecCertSource.parse : List Char → Except AifwError IpsecCertSource :=
  parseColumn [("acme", .acme), ("manual", .manual)] "cert source"

def IpsecStartAction.parse : List Char → Except AifwError IpsecStartAction :=
  parseColumn [("start", .start), ("trap", .trap), ("none", .none)] "start action"

theorem IpsecAuthMethod.parse_display (m : IpsecAuthMethod) : parse m.display = .ok m := by
  cases m with
  | psk => rfl
  | cert => rfl

theorem IpsecCertSource.parse_display (s : IpsecCertSource) : parse s.display = .ok s := by
  cases s with
  | acme => rfl
  | manual => rfl

theorem IpsecStartAction.parse_display (a : IpsecStartAction) : parse a.display = .ok a := by
  cases a with
  | start => rfl
  | trap => rfl
  | none => rfl

def proposalTokens : List String :=
  ["aes128gcm16", "aes256gcm16", "chacha20poly1305", "aes128", "aes256", "sha256", "sha384",
    "sha512", "prfsha256", "prfsha384", "prfsha512", "ecp256", "ecp384", "ecp521", "curve25519",
    "modp2048", "modp3072", "modp4096"]

def validateProposal (kind : String) (proposal : List Char) : Except AifwError Unit :=
  if proposal = [] then fail (kind ++ " proposal must not be empty")
  else if (splitOn '-' proposal).all fun token => proposalTokens.any fun w => w.toList = token then
    .ok ()
  else fail (kind ++ " proposal token not supported")

/-- A desired tunnel. -/
structure IpsecTunnel (DateTime : Type) where
  id : Uuid
  name : List Char
  enabled : Bool
  localAddr : List Char
  remoteAddr : List Char
  localId : List Char
  remoteId : List Char
  authMethod : IpsecAuthMethod
  psk : List Char
  certSource : Option IpsecCertSource
  acmeCertId : Option Int
  localCertPem : List Char
  localKeyPem : List Char
  caCertPem : List Char
  ikeProposal : List Char
  espProposal : List Char
  localTs : List (List Char)
  remoteTs : List (List Char)
  ikeLifetimeSecs : UInt32
  espLifetimeSecs : UInt32
  dpdDelaySecs : UInt32
  startAction : IpsecStartAction
  createdAt : DateTime
  updatedAt : DateTime

def defaultIkeProposal : List Char := "aes256gcm16-prfsha256-ecp256".toList

def defaultEspProposal : List Char := "aes256gcm16-ecp256".toList

/-- A tunnel with a key and the defaults, from a fresh id and the clock. -/
def IpsecTunnel.new (id : Uuid) (now : DateTime) (name remoteAddr psk : List Char)
    (localTs remoteTs : List (List Char)) : IpsecTunnel DateTime where
  id := id
  name := name
  enabled := true
  localAddr := []
  remoteAddr := remoteAddr
  localId := []
  remoteId := []
  authMethod := .psk
  psk := psk
  certSource := none
  acmeCertId := none
  localCertPem := []
  localKeyPem := []
  caCertPem := []
  ikeProposal := defaultIkeProposal
  espProposal := defaultEspProposal
  localTs := localTs
  remoteTs := remoteTs
  ikeLifetimeSecs := 14400
  espLifetimeSecs := 3600
  dpdDelaySecs := 30
  startAction := .start
  createdAt := now
  updatedAt := now

def validateName (name : List Char) : Except AifwError Unit :=
  if name = [] ∨ byteLen name > 64 then fail "tunnel name must be 1-64 characters"
  else if name.all fun c => c.isAlphanum || " _-.".toList.contains c then .ok ()
  else fail
    "tunnel name contains invalid characters (allowed: alphanumeric, space, _, -, .): "

def validateEndpoint (field : String) (value : List Char) : Except AifwError Unit :=
  if value = [] then .ok ()
  else if (IpAddr.parse value).isSome then .ok ()
  else if byteLen value ≤ 253 ∧ value.head? ≠ some '-' ∧
      value.all fun c => c.isAlphanum || c == '.' || c == '-' then .ok ()
  else fail (field ++ " must be an IP address or DNS name: ")

def requireRemoteAddr (remoteAddr : List Char) : Except AifwError Unit :=
  if remoteAddr = [] then fail "remote_addr is required" else .ok ()

def validateLocalAddr (localAddr : List Char) : Except AifwError Unit :=
  if localAddr = [] ∨ (IpAddr.parse localAddr).isSome then .ok ()
  else fail "local_addr must be an IP address or empty: "

def isAsciiGraphic (c : Char) : Bool := 0x21 ≤ c.toNat && c.toNat ≤ 0x7E

def validateIkeId (field : String) (value : List Char) : Except AifwError Unit :=
  if value = [] then .ok ()
  else if byteLen value > 128 then fail (field ++ " must be at most 128 characters")
  else if value.all fun c => (isAsciiGraphic c || c == ' ') && c != '"' && c != '\\' then .ok ()
  else fail (field ++ " contains invalid characters (printable ASCII, no quotes/backslash): ")

def pemChars (value : List Char) : Bool :=
  value.all fun c => isAsciiGraphic c || c == '\n' || c == '\r' || c == ' '

def validatePem (field : String) (value : List Char) (tag : String) : Except AifwError Unit :=
  if ("-----BEGIN " ++ tag ++ "-----").toList <:+: value then
    if pemChars value then .ok () else fail (field ++ " contains non-PEM characters")
  else fail (field ++ " does not look like a " ++ tag ++ " PEM block")

def validatePemKey (field : String) (value : List Char) : Except AifwError Unit :=
  if "PRIVATE KEY-----".toList <:+: value ∧ "-----BEGIN".toList <:+: value then
    if pemChars value then .ok () else fail (field ++ " contains non-PEM characters")
  else fail (field ++ " does not look like a private key PEM block")

def validateSelectors (field : String) (list : List (List Char)) : Except AifwError Unit :=
  if list = [] then fail (field ++ " requires at least one subnet")
  else
    list.forM fun ts =>
      match Address.parse ts with
      | .ok (.single _) | .ok (.network _ _) => .ok ()
      | _ => fail (field ++ " entry must be an IP or CIDR subnet: ")

def validateLifetimes (ike esp dpd : UInt32) : Except AifwError Unit :=
  if ¬(600 ≤ ike ∧ ike ≤ 604800) then fail "ike_lifetime_secs must be between 600 and 604800"
  else if ¬(300 ≤ esp ∧ esp ≤ 86400) then fail "esp_lifetime_secs must be between 300 and 86400"
  else if dpd > 3600 then fail "dpd_delay_secs must be at most 3600"
  else .ok ()

namespace IpsecTunnel

variable {DateTime : Type} (t : IpsecTunnel DateTime)

def connName : List Char := "aifw-".toList ++ displayUuid t.id

def childName : List Char := "aifw-".toList ++ displayUuid t.id ++ "-1".toList

def validateAuth : Except AifwError Unit :=
  match t.authMethod with
  | .psk =>
    if byteLen t.psk < 16 then fail "PSK must be at least 16 characters"
    else if t.psk.all fun c => isAsciiGraphic c && c != '"' then .ok ()
    else fail "PSK must be printable ASCII without spaces or double quotes"
  | .cert =>
    match t.certSource with
    | some .acme =>
      if t.acmeCertId.isNone then fail "cert_source acme requires acme_cert_id" else .ok ()
    | some .manual => do
      validatePem "local_cert_pem" t.localCertPem "CERTIFICATE"
      validatePemKey "local_key_pem" t.localKeyPem
      if t.caCertPem = [] then .ok () else validatePem "ca_cert_pem" t.caCertPem "CERTIFICATE"
    | none => fail "auth_method cert requires cert_source"

def validate : Except AifwError Unit := do
  validateName t.name
  validateEndpoint "remote_addr" t.remoteAddr
  requireRemoteAddr t.remoteAddr
  validateLocalAddr t.localAddr
  validateIkeId "local_id" t.localId
  validateIkeId "remote_id" t.remoteId
  t.validateAuth
  validateProposal "ike" t.ikeProposal
  validateProposal "esp" t.espProposal
  validateSelectors "local_ts" t.localTs
  validateSelectors "remote_ts" t.remoteTs
  validateLifetimes t.ikeLifetimeSecs t.espLifetimeSecs t.dpdDelaySecs

end IpsecTunnel

def joinComma (list : List (List Char)) : List Char := [','].intercalate list

/-- A line of the file, if there is one to be written. -/
def setting (present : Bool) (text : List Char) : List (List Char) := if present then [text] else []

/-- The file of a tunnel, line by line. -/
def swanctlLines (t : IpsecTunnel DateTime) : List (List Char) :=
  let conn := t.connName
  let auth := match t.authMethod with
    | .psk => "psk".toList
    | .cert => "pubkey".toList
  let dpdAction := match t.startAction with
    | .start => "restart".toList
    | .trap => "trap".toList
    | .none => "clear".toList
  let localIdent := if t.localId = [] then t.localAddr else t.localId
  let remoteIdent := if t.remoteId = [] then t.remoteAddr else t.remoteId
  ["# Managed by AiFw (#530 IPsec). Do not edit —".toList,
    "# regenerated from the AiFw database on every apply.".toList,
    "connections \x7b".toList,
    "    ".toList ++ conn ++ " \x7b".toList,
    "        version = 2".toList] ++
  setting (t.localAddr ≠ []) ("        local_addrs = ".toList ++ t.localAddr) ++
  ["        remote_addrs = ".toList ++ t.remoteAddr,
    "        proposals = ".toList ++ t.ikeProposal,
    "        rekey_time = ".toList ++ u32Text t.ikeLifetimeSecs ++ ['s']] ++
  setting (t.dpdDelaySecs > 0) ("        dpd_delay = ".toList ++ u32Text t.dpdDelaySecs ++ ['s']) ++
  ["        local \x7b".toList, "            auth = ".toList ++ auth] ++
  setting (t.authMethod = .cert) ("            certs = ".toList ++ conn ++ ".pem".toList) ++
  setting (t.localId ≠ []) ("            id = \"".toList ++ t.localId ++ ['"']) ++
  ["        \x7d".toList, "        remote \x7b".toList, "            auth = ".toList ++ auth] ++
  setting (t.remoteId ≠ []) ("            id = \"".toList ++ t.remoteId ++ ['"']) ++
  ["        \x7d".toList, "        children \x7b".toList,
    "            ".toList ++ t.childName ++ " \x7b".toList,
    "                local_ts = ".toList ++ joinComma t.localTs,
    "                remote_ts = ".toList ++ joinComma t.remoteTs,
    "                esp_proposals = ".toList ++ t.espProposal,
    "                rekey_time = ".toList ++ u32Text t.espLifetimeSecs ++ ['s'],
    "                start_action = ".toList ++ t.startAction.display] ++
  setting (t.dpdDelaySecs > 0) ("                dpd_action = ".toList ++ dpdAction) ++
  ["            \x7d".toList, "        \x7d".toList, "    \x7d".toList, "\x7d".toList] ++
  if t.authMethod = .psk then
    ["secrets \x7b".toList,
      "    ike-".toList ++ conn ++ " \x7b".toList,
      "        secret = \"".toList ++ t.psk ++ ['"']] ++
    setting (localIdent ≠ []) ("        id-1 = \"".toList ++ localIdent ++ ['"']) ++
    ["        id-2 = \"".toList ++ remoteIdent ++ ['"'], "    \x7d".toList, "\x7d".toList]
  else []

def renderSwanctlConf (t : IpsecTunnel DateTime) : List Char :=
  (swanctlLines t).flatMap fun line => line ++ ['\n']

end AiFw.Vpn
