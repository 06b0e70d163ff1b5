import AiFw.Host.TextLines
import AiFw.Ids.QuotedMatchers
import AiFw.Lib.Checked
import AiFw.Lib.LineEdits

namespace AiFw.Host
open AiFw.Lib
open AiFw.Geo (lines notMem_lines)
open AiFw.Ids (utf8Bytes utf8EncodeChar_of_ascii castByte)

set_option autoImplicit true

structure GeneralInput where
  hostname : List Char
  domain : List Char
  timezone : List Char

structure SshInput where
  enabled : Bool
  port : UInt16
  passwordAuth : Bool
  permitRootLogin : Bool

inductive ConsoleKind
  | video
  | serial
  | dual

structure ConsoleInput where
  kind : ConsoleKind
  baud : UInt32

def isAsciiAlphanumeric (b : UInt8) : Bool :=
  (48 ≤ b && b ≤ 57) || (65 ≤ b && b ≤ 90) || (97 ≤ b && b ≤ 122)

/-- The text that `{:?}` makes of a byte taken as a sign. -/
def charDebug (b : UInt8) : List Char :=
  let sign :=
    if b = 0 then ['\\', '0']
    else if b = 9 then ['\\', 't']
    else if b = 10 then ['\\', 'n']
    else if b = 13 then ['\\', 'r']
    else if b = 39 then ['\\', '\'']
    else if b = 92 then ['\\', '\\']
    else if (32 ≤ b && b < 127) || (160 < b && b ≠ 173) then [Char.ofNat b.toNat]
    else "\\u\x7b".toList ++ Nat.toDigits 16 b.toNat ++ ['\x7d']
  '\'' :: (sign ++ ['\''])

def validateHostname (s : List Char) : Except (List Char) Unit :=
  let bytes := utf8Bytes s
  if s.isEmpty then .error "hostname must not be empty".toList
  else if bytes.length > 63 then .error "hostname must be ≤ 63 characters (RFC 1123)".toList
  else if !isAsciiAlphanumeric (bytes.headD 0) then
    .error "hostname must start with a letter or digit".toList
  else
    match bytes.find? fun b => !(isAsciiAlphanumeric b || b == 45) with
    | some b => .error ("hostname contains invalid character: ".toList ++ charDebug b)
    | none => .ok ()

def validateDomain (s : List Char) : Except (List Char) Unit :=
  if s.isEmpty then .ok ()
  else if s.head? = some '.' || s.getLast? = some '.' then
    .error "domain must not start or end with a dot".toList
  else
    match (utf8Bytes s).find? fun b => !(isAsciiAlphanumeric b || b == 45 || b == 46) with
    | some b => .error ("domain contains invalid character: ".toList ++ charDebug b)
    | none => .ok ()

def validateSshPort (port : UInt16) : Except (List Char) Unit :=
  if port = 0 then .error "ssh port must be 1–65535".toList else .ok ()

def validateBaud (baud : UInt32) : Except (List Char) Unit :=
  if baud ∈ [9600, 19200, 38400, 57600, 115200] then .ok ()
  else .error "baud must be one of 9600, 19200, 38400, 57600, 115200".toList

/-- The bytes of each file that there is. -/
structure SystemFiles where
  hosts : Option (List UInt8)
  resolvConf : Option (List UInt8)
  sshdConfig : Option (List UInt8)
  loaderConf : Option (List UInt8)

/-- A file that is not there, that is no text or that could not be read counts as empty. -/
def readBestEffort (file : Option (List UInt8)) (read : Except (List Char) Unit) : List Char :=
  match read with
  | .ok () => (file.bind fromUtf8).getD []
  | .error _ => []

/-- The file stays as it is if the installation fails. -/
def sudoInstallContent (file : Option (List UInt8)) (data : List UInt8)
    (outcome : Except (List Char) Unit) : Option (List UInt8) :=
  match outcome with
  | .ok () => some data
  | .error _ => file

def isLoopback (line : List Char) : Bool :=
  (splitWhitespace line).head? = some "127.0.1.1".toList

def hostsLine (hostname domain : List Char) : List Char :=
  let fqdnLine :=
    if domain.isEmpty then hostname else hostname ++ ['.'] ++ domain ++ [' '] ++ hostname
  "127.0.1.1\t".toList ++ fqdnLine

def rewriteHostsLoopback (existing hostname domain : List Char) : List Char :=
  let want := hostsLine hostname domain
  let s := (lines existing).foldl (fun s line =>
    if isLoopback line then (s.1 ++ want ++ ['\n'], true) else (s.1 ++ line ++ ['\n'], s.2))
    ([], false)
  if s.2 then s.1 else s.1 ++ want ++ ['\n']

def isSearch (line : List Char) : Bool :=
  startsAt "search ".toList line || startsAt "domain ".toList line

def searchLine (domain : List Char) : List Char := "search ".toList ++ domain

def wantedSearch (domain : List Char) : Option (List Char) :=
  if domain.isEmpty then none else some (searchLine domain)

def rewriteResolvConfSearch (existing domain : List Char) : List Char :=
  let s := (lines existing).foldl (fun s line =>
    if isSearch line then
      if !domain.isEmpty && !s.2 then (s.1 ++ searchLine domain ++ ['\n'], true) else s
    else (s.1 ++ line ++ ['\n'], s.2)) ([], false)
  if !domain.isEmpty && !s.2 then searchLine domain ++ ['\n'] ++ s.1 else s.1

def beginLine (marker : List Char) : List Char := "# BEGIN ".toList ++ marker
def endLine (marker : List Char) : List Char := "# END ".toList ++ marker

/-- What a block is written with: its markers around lines of which the last one ends. -/
def blockText (marker newBlock : List Char) : List Char :=
  beginLine marker ++ ['\n'] ++ closed newBlock ++ endLine marker ++ ['\n']

/-- The first line that begins a block, and the first one behind it that ends one. -/
def markerIdx (ls : List (List Char)) (marker : List Char) : Option Nat × Option Nat :=
  let beginIdx := ls.findIdx? fun l => trimEnd l = beginLine marker
  let endIdx := beginIdx.bind fun b =>
    ((ls.drop (b + 1)).findIdx? fun l => trimEnd l = endLine marker).map fun rel => b + 1 + rel
  (beginIdx, endIdx)

def replaceManagedBlock (content marker newBlock : List Char) : List Char :=
  let ls := lines content
  match markerIdx ls marker with
  | (some b, some e) =>
    unlines (ls.take b) ++ blockText marker newBlock ++ unlines (ls.drop (e + 1))
  | _ => ended content ++ blockText marker newBlock

/-- A part of a line. -/
def InLine (s : List Char) : Prop := '\n' ∉ s ∧ '\r' ∉ s

theorem InLine.append (h : InLine a) (h' : InLine b) : InLine (a ++ b) := by
  constructor
  · rw [List.mem_append]
    exact not_or.mpr ⟨h.1, h'.1⟩
  · rw [List.mem_append]
    exact not_or.mpr ⟨h.2, h'.2⟩

theorem InLine.trimCrs (h : InLine s) : trimCrs s = s :=
  trimCrs_of_last fun hlast => h.2 (List.mem_of_getLast? hlast)

theorem inLine_of_bytes {p : UInt8 → Bool} (h : (utf8Bytes s).find? (fun b => !p b) = none)
    (hfeed : p 10 = false) (hreturn : p 13 = false) : InLine s := by
  have hnot (c : Char) (hc : c.toNat < 128) (hp : p (castByte c) = false) : c ∉ s := by
    intro hmem
    have hbyte : castByte c ∈ utf8Bytes s := by
      apply List.mem_flatMap.mpr ⟨c, hmem, ?_⟩
      rw [utf8EncodeChar_of_ascii hc]
      exact List.mem_singleton_self _
    have hfound := List.find?_eq_none.mp h _ hbyte
    rw [hp] at hfound
    exact hfound rfl
  exact ⟨hnot '\n' (by decide) hfeed, hnot '\r' (by decide) hreturn⟩

theorem inLine_toDigits (n : Nat) : InLine (Nat.toDigits 10 n) := by
  have hnot (c : Char) (hc : c.isDigit = false) : c ∉ Nat.toDigits 10 n := by
    intro hmem
    rw [Nat.isDigit_of_mem_toDigits (by decide) (by decide) hmem] at hc
    cases hc
  exact ⟨hnot _ (by decide), hnot _ (by decide)⟩

structure ApplyReport where
  ok : Bool
  requiresReboot : Bool
  requiresServiceRestart : Option (List Char)
  warning : Option (List Char)

def warn (text : String) : Except (List Char) Unit → List (List Char)
  | .ok () => []
  | .error e => [text.toList ++ e]

def joinWarnings (warnings : List (List Char)) : Option (List Char) :=
  if warnings.isEmpty then none else some ("; ".toList.intercalate warnings)

/-- How the steps of a call end on the host, its reads among them. -/
structure GeneralHost where
  sysrc : Except (List Char) Unit
  hostname : Except (List Char) Unit
  hostsRead : Except (List Char) Unit
  hosts : Except (List Char) Unit
  resolvConfRead : Except (List Char) Unit
  resolvConf : Except (List Char) Unit
  zoneinfoFile : Bool
  localtime : Except (List Char) Unit
  zoneinfo : Except (List Char) Unit

def applyGeneral (s : SystemFiles) (i : GeneralInput) (host : GeneralHost) :
    SystemFiles × ApplyReport :=
  let newHosts :=
    rewriteHostsLoopback (readBestEffort s.hosts host.hostsRead) i.hostname i.domain
  let newResolv :=
    rewriteResolvConfSearch (readBestEffort s.resolvConf host.resolvConfRead) i.domain
  let warnings := warn "sysrc hostname failed: " host.sysrc ++
    warn "live hostname failed: " host.hostname ++
    warn "/etc/hosts write failed: " host.hosts ++
    warn "resolv.conf write failed: " host.resolvConf ++
    (if !host.zoneinfoFile then
      ["timezone ".toList ++ i.timezone ++ " not found in /usr/share/zoneinfo".toList]
    else warn "/etc/localtime install failed: " host.localtime ++
      warn "/var/db/zoneinfo write failed: " host.zoneinfo)
  ({ s with
      hosts := sudoInstallContent s.hosts (utf8Bytes newHosts) host.hosts
      resolvConf := sudoInstallContent s.resolvConf (utf8Bytes newResolv) host.resolvConf },
    ⟨true, false, none, joinWarnings warnings⟩)

structure SshHost where
  sysrc : Except (List Char) Unit
  sshdConfigRead : Except (List Char) Unit
  sshdConfig : Except (List Char) Unit
  service : Except (List Char) Unit

/-- The lines of settings that a managed block holds. -/
structure SettingLines where
  lines : List (List Char)
  inLine : ∀ l ∈ lines, InLine l
  setting : ∀ l ∈ lines, l.head? ≠ some '#'
  ne : lines ≠ []

def yesNo (b : Bool) : List Char := if b then "yes".toList else "no".toList

theorem inLine_yesNo (b : Bool) : InLine (yesNo b) := by
  cases b <;> constructor <;> decide

def sshBlock (i : SshInput) : SettingLines where
  lines :=
    ["Port ".toList ++ Nat.toDigits 10 i.port.toNat,
      "PasswordAuthentication ".toList ++ yesNo i.passwordAuth,
      "PermitRootLogin ".toList ++ yesNo i.permitRootLogin]
  inLine := by
    simp only [List.forall_mem_cons, List.not_mem_nil, false_implies, implies_true, and_true]
    exact ⟨.append (by constructor <;> decide) (inLine_toDigits _),
      .append (by constructor <;> decide) (inLine_yesNo _),
      .append (by constructor <;> decide) (inLine_yesNo _)⟩
  setting := by
    simp only [List.forall_mem_cons, List.not_mem_nil, false_implies, implies_true, and_true]
    exact ⟨by simp, by simp, by simp⟩
  ne := List.cons_ne_nil _ _

def applySsh (s : SystemFiles) (i : SshInput) (host : SshHost) : SystemFiles × ApplyReport :=
  let updated := replaceManagedBlock (readBestEffort s.sshdConfig host.sshdConfigRead)
    "AiFw".toList (unlines (sshBlock i).lines)
  let warnings := warn "sysrc sshd_enable failed: " host.sysrc ++
    warn "sshd_config write failed: " host.sshdConfig ++
    warn (if i.enabled then "service sshd start failed: " else "service sshd stop failed: ")
      host.service
  ({ s with sshdConfig := sudoInstallContent s.sshdConfig (utf8Bytes updated) host.sshdConfig },
    ⟨true, false, some "sshd".toList, joinWarnings warnings⟩)

def ConsoleKind.value : ConsoleKind → List Char
  | serial => "comconsole".toList
  | dual => "comconsole vidconsole".toList
  | video => "vidconsole".toList

def consoleBlock (i : ConsoleInput) : SettingLines where
  lines :=
    ["console=\"".toList ++ i.kind.value ++ ['"'],
      "comconsole_speed=\"".toList ++ Nat.toDigits 10 i.baud.toNat ++ ['"']]
  inLine := by
    have hkind : InLine i.kind.value := by
      cases i.kind <;> constructor <;> decide
    simp only [List.forall_mem_cons, List.not_mem_nil, false_implies, implies_true, and_true]
    exact ⟨.append (.append (by constructor <;> decide) hkind) (by constructor <;> decide),
      .append (.append (by constructor <;> decide) (inLine_toDigits _)) (by constructor <;> decide)⟩
  setting := by
    simp only [List.forall_mem_cons, List.not_mem_nil, false_implies, implies_true, and_true]
    exact ⟨by simp, by simp⟩
  ne := List.cons_ne_nil _ _

def applyConsole (s : SystemFiles) (i : ConsoleInput) (read installed : Except (List Char) Unit) :
    SystemFiles × ApplyReport :=
  let updated := replaceManagedBlock (readBestEffort s.loaderConf read) "AiFw console".toList
    (unlines (consoleBlock i).lines)
  ({ s with loaderConf := sudoInstallContent s.loaderConf (utf8Bytes updated) installed },
    ⟨true, true, none, (warn "/boot/loader.conf write failed: " installed).head?⟩)

/-- The calls of the System page. -/
inductive SystemOp
  | putGeneral (req : GeneralInput) (host : GeneralHost)
  | putSsh (req : SshInput) (host : SshHost)
  | putConsole (req : ConsoleInput) (read installed : Except (List Char) Unit)

namespace SystemOp

/-- What a call is refused for before anything is applied. -/
def check : SystemOp → Except (List Char) Unit
  | putGeneral req _ => do
    validateHostname req.hostname
    validateDomain req.domain
    if (trim req.timezone).isEmpty then .error "timezone must not be empty".toList else .ok ()
  | putSsh req _ => validateSshPort req.port
  | putConsole req _ _ => validateBaud req.baud

def apply (s : SystemFiles) : SystemOp → SystemFiles × ApplyReport
  | putGeneral req host => applyGeneral s req host
  | putSsh req host => applySsh s req host
  | putConsole req read installed => applyConsole s req read installed

def exec (s : SystemFiles) (op : SystemOp) : SystemFiles × Except (List Char) ApplyReport :=
  match op.check with
  | .error e => (s, .error e)
  | .ok () => ((op.apply s).1, .ok (op.apply s).2)

end SystemOp

def SystemFiles.run (s : SystemFiles) (ops : List SystemOp) : SystemFiles :=
  ops.foldl (fun s op => (op.exec s).1) s

theorem inLine_of_validateHostname (h : validateHostname s = .ok ()) : InLine s := by
  rw [validateHostname] at h
  split at h
  · cases h
  · split at h
    · cases h
    · split at h
      · cases h
      · split at h
        · cases h
        · next hnone => exact inLine_of_bytes hnone (by decide) (by decide)

theorem inLine_of_validateDomain (h : validateDomain s = .ok ()) : InLine s := by
  rw [validateDomain] at h
  split at h
  · next hempty =>
    rw [List.isEmpty_iff.mp hempty]
    exact ⟨List.not_mem_nil, List.not_mem_nil⟩
  · split at h
    · cases h
    · split at h
      · cases h
      · next hnone => exact inLine_of_bytes hnone (by decide) (by decide)

theorem isLoopback_trimCrs (l : List Char) : isLoopback (trimCrs l) = isLoopback l := by
  rw [isLoopback, isLoopback, splitWhitespace_trimCrs]

theorem isSearch_trimCrs (l : List Char) : isSearch (trimCrs l) = isSearch l := by
  rw [isSearch, isSearch, startsAt_trimCrs (by simp), startsAt_trimCrs (by simp)]

theorem isLoopback_hostsLine (hostname domain : List Char) :
    isLoopback (hostsLine hostname domain) = true := by
  have hword : "127.0.1.1\t".toList = "127.0.1.1".toList ++ ['\t'] := by simp
  have hplain : ∀ c ∈ "127.0.1.1".toList, isWhitespace c = false := by simp [isWhitespace]
  unfold isLoopback hostsLine
  rw [hword, List.append_assoc, List.singleton_append,
    splitWhitespace_append hplain (by simp) (by decide)]
  exact decide_eq_true rfl

theorem isSearch_searchLine (domain : List Char) : isSearch (searchLine domain) = true := by
  have hstart : startsAt "search ".toList (searchLine domain) = true := by
    unfold startsAt searchLine
    simp [trimStart, isWhitespace]
  rw [isSearch, hstart, Bool.true_or]

theorem inLine_hostsLine (hhost : InLine hostname) (hdomain : InLine domain) :
    InLine (hostsLine hostname domain) := by
  unfold hostsLine
  refine .append (by constructor <;> decide) ?_
  split
  · exact hhost
  · exact .append (.append (.append (.append hhost (by constructor <;> decide)) hdomain)
      (by constructor <;> decide)) hhost

theorem rewriteHostsLoopback_eq (existing hostname domain : List Char) :
    rewriteHostsLoopback existing hostname domain =
      unlines (setOwned isLoopback List.length (hostsLine hostname domain) (lines existing)) := by
  have hfold (ls : List (List Char)) (acc : List Char) (replaced : Bool) :
      ls.foldl (fun s line =>
          if isLoopback line then (s.1 ++ hostsLine hostname domain ++ ['\n'], true)
          else (s.1 ++ line ++ ['\n'], s.2)) (acc, replaced) =
        (acc ++ unlines (ls.map fun l => if isLoopback l then hostsLine hostname domain else l),
          replaced || ls.any isLoopback) := by
    induction ls generalizing acc replaced with
    | nil => simp [unlines]
    | cons l ls ih =>
      rw [List.foldl_cons]
      cases hl : isLoopback l with
      | true =>
        rw [if_pos rfl, ih]
        simp [hl, unlines]
      | false =>
        rw [if_neg Bool.false_ne_true, ih]
        simp [hl, unlines]
  rw [rewriteHostsLoopback, hfold, setOwned]
  cases hany : (lines existing).any isLoopback with
  | true => simp
  | false =>
    have hkeep : ((lines existing).map fun l =>
        if isLoopback l then hostsLine hostname domain else l) = lines existing := by
      apply (List.map_congr_left ?_).trans (List.map_id _)
      intro l hl
      rw [if_neg (List.any_eq_false.mp hany l hl)]
      rfl
    rw [hkeep]
    simp [unlines]

theorem rewriteResolvConfSearch_eq (existing domain : List Char) :
    rewriteResolvConfSearch existing domain =
      unlines (setFirstOwned isSearch (wantedSearch domain) (lines existing)) := by
  let step (s : List Char × Bool) (line : List Char) : List Char × Bool :=
    if isSearch line then
      if !domain.isEmpty && !s.2 then (s.1 ++ searchLine domain ++ ['\n'], true) else s
    else (s.1 ++ line ++ ['\n'], s.2)
  have hdrop (ls : List (List Char)) (acc : List Char) (wrote : Bool)
      (h : (!domain.isEmpty && !wrote) = false) :
      ls.foldl step (acc, wrote) = (acc ++ unlines (unowned isSearch ls), wrote) := by
    induction ls generalizing acc with
    | nil => exact Prod.ext (List.append_nil acc).symm rfl
    | cons l ls ih =>
      rw [List.foldl_cons]
      cases hl : isSearch l with
      | true =>
        have hstep : step (acc, wrote) l = (acc, wrote) := by simp only [step, hl, h]; rfl
        rw [hstep, ih]
        simp [unowned, hl]
      | false =>
        have hstep : step (acc, wrote) l = (acc ++ l ++ ['\n'], wrote) := by
          simp only [step, hl]; rfl
        rw [hstep, ih]
        simp [unowned, hl, unlines]
  have hfirst (ls : List (List Char)) (acc : List Char) (h : domain.isEmpty = false) :
      ls.foldl step (acc, false) =
        if ls.any isSearch then
          (acc ++ unlines (setFirstOwned isSearch (some (searchLine domain)) ls), true)
        else (acc ++ unlines ls, false) := by
    induction ls generalizing acc with
    | nil => exact Prod.ext (List.append_nil acc).symm rfl
    | cons l ls ih =>
      rw [List.foldl_cons]
      cases hl : isSearch l with
      | true =>
        have hstep : step (acc, false) l = (acc ++ searchLine domain ++ ['\n'], true) := by
          simp only [step, hl, h]; rfl
        rw [hstep, hdrop _ _ true (Bool.and_false _)]
        simp [setFirstOwned, unowned, hl, unlines]
      | false =>
        have hstep : step (acc, false) l = (acc ++ l ++ ['\n'], false) := by
          simp only [step, hl]; rfl
        rw [hstep, ih]
        cases hany : ls.any isSearch with
        | true => simp [setFirstOwned, unowned, hl, hany, unlines]
        | false => simp [hl, hany, unlines]
  rw [rewriteResolvConfSearch, wantedSearch]
  change (if !domain.isEmpty && !((lines existing).foldl step ([], false)).2 then
    searchLine domain ++ ['\n'] ++ ((lines existing).foldl step ([], false)).1
    else ((lines existing).foldl step ([], false)).1) = _
  cases hempty : domain.isEmpty with
  | true =>
    rw [hdrop _ _ false (by rw [hempty]; rfl), if_pos rfl, setFirstOwned_none]
    rfl
  | false =>
    rw [hfirst _ _ hempty, if_neg Bool.false_ne_true]
    cases hany : (lines existing).any isSearch with
    | true => rfl
    | false => simp [setFirstOwned, hany, unlines]

/-- The lines of a file that is a text, or of none. -/
def fileLines : Option (List UInt8) → Option (List (List Char))
  | none => some []
  | some bytes => (fromUtf8 bytes).map plainLines

theorem fileLines_written (t : List Char) : fileLines (some (utf8Bytes t)) = some (plainLines t) :=
  congrArg (Option.map plainLines) (fromUtf8_encoded t)

theorem plainLines_read (h : fileLines file = some ls) :
    plainLines (readBestEffort file (.ok ())) = ls := by
  cases file with
  | none => exact Option.some.inj h
  | some bytes =>
    obtain ⟨t, ht, rfl⟩ := Option.map_eq_some_iff.mp h
    exact congrArg plainLines (congrArg (Option.getD · []) ht)

theorem partedBy_rewriteHosts (hhost : InLine hostname) (hdomain : InLine domain)
    (existing : List Char) :
    partedBy isLoopback (plainLines (rewriteHostsLoopback existing hostname domain)) =
      ((partedBy isLoopback (plainLines existing)).1,
        List.replicate (max 1 (partedBy isLoopback (plainLines existing)).2.length)
          (hostsLine hostname domain)) := by
  have hline := inLine_hostsLine hhost hdomain
  have hwhole : ∀ l ∈ setOwned isLoopback List.length (hostsLine hostname domain)
      (lines existing), '\n' ∉ l := by
    intro l hl
    obtain rfl | hold := mem_setOwned hl
    · exact hline.1
    · exact notMem_lines hold
  rw [rewriteHostsLoopback_eq, plainLines_unlines_all hwhole, partedBy_map isLoopback_trimCrs,
    partedBy_setOwned (isLoopback_hostsLine hostname domain), plainLines,
    partedBy_map isLoopback_trimCrs, List.map_replicate, hline.trimCrs, List.length_map]

theorem partedBy_rewriteResolv (hdomain : InLine domain) (existing : List Char) :
    partedBy isSearch (plainLines (rewriteResolvConfSearch existing domain)) =
      ((partedBy isSearch (plainLines existing)).1, (wantedSearch domain).toList) := by
  have hown : ∀ l ∈ wantedSearch domain, isSearch l = true := by
    intro l hl
    rw [wantedSearch] at hl
    split at hl
    · cases hl
    · cases hl
      exact isSearch_searchLine domain
  have hline : ∀ l ∈ wantedSearch domain, InLine l := by
    intro l hl
    rw [wantedSearch] at hl
    split at hl
    · cases hl
    · cases hl
      exact .append (by constructor <;> decide) hdomain
  have hwhole : ∀ l ∈ setFirstOwned isSearch (wantedSearch domain) (lines existing), '\n' ∉ l := by
    intro l hl
    obtain hnew | hold := mem_setFirstOwned hl
    · exact (hline l hnew).1
    · exact notMem_lines hold
  have hkept : (wantedSearch domain).toList.map trimCrs = (wantedSearch domain).toList := by
    apply (List.map_congr_left ?_).trans (List.map_id _)
    intro l hl
    exact (hline l (Option.mem_toList.mp hl)).trimCrs
  rw [rewriteResolvConfSearch_eq, plainLines_unlines_all hwhole, partedBy_map isSearch_trimCrs,
    partedBy_setFirstOwned hown, plainLines, partedBy_map isSearch_trimCrs, hkept]

/-- A name that a marker can end with. -/
structure ManagedMarker where
  name : List Char
  whole : '\n' ∉ name
  ne : name ≠ []
  last : ∀ c ∈ name.getLast?, isWhitespace c = false

namespace ManagedMarker
variable (m : ManagedMarker)

theorem trimEnd_append (front : List Char) : trimEnd (front ++ m.name) = front ++ m.name := by
  apply trimEnd_of_last
  intro c hc
  exact m.last c (getLast?_of_mem_append front m.ne hc)

theorem trimCrs_append (front : List Char) : trimCrs (front ++ m.name) = front ++ m.name := by
  apply trimCrs_of_last
  intro hlast
  have hblank := m.last _ (getLast?_of_mem_append front m.ne hlast)
  revert hblank
  decide

/-- The lines that are taken for the markers, and those that are written. -/
def markers : BlockMarkers (List Char) where
  isBegin l := trimEnd l = beginLine m.name
  isEnd l := trimEnd l = endLine m.name
  beginLine := beginLine m.name
  endLine := endLine m.name
  begin_isBegin := decide_eq_true (m.trimEnd_append _)
  end_isEnd := decide_eq_true (m.trimEnd_append _)

theorem plainLines_blockText (newBlock rest : List Char) :
    plainLines (blockText m.name newBlock ++ rest) =
      m.markers.written (plainLines (closed newBlock)) ++ plainLines rest := by
  have hbegin : '\n' ∉ beginLine m.name := by
    unfold beginLine
    rw [List.mem_append]
    exact not_or.mpr ⟨by simp, m.whole⟩
  have hend : '\n' ∉ endLine m.name := by
    unfold endLine
    rw [List.mem_append]
    exact not_or.mpr ⟨by simp, m.whole⟩
  have htext : blockText m.name newBlock ++ rest = beginLine m.name ++ ['\n'] ++
      (closed newBlock ++ (endLine m.name ++ ['\n'] ++ rest)) := by
    simp only [blockText, List.append_assoc]
  rw [htext, plainLines_line hbegin, plainLines_append (getLast?_closed newBlock),
    plainLines_line hend]
  unfold beginLine endLine
  rw [m.trimCrs_append, m.trimCrs_append, BlockMarkers.written, List.cons_append,
    List.append_assoc]
  rfl

theorem drop_behind (front : List α) (x : α) (back : List α) :
    (front ++ x :: back).drop (front.length + 1) = back := by
  rw [← List.singleton_append, ← List.append_assoc]
  exact List.drop_left' (by rw [List.length_append, List.length_singleton])

theorem markerIdx_some (h : m.markers.parts ls = some (before, mid, after)) :
    markerIdx ls m.name = (some before.length, some (before.length + 1 + mid.length)) ∧
      ls.take before.length = before ∧ ls.drop (before.length + 1 + mid.length + 1) = after := by
  obtain ⟨hbefore, hmid, b, e, hb, he, rfl⟩ := BlockMarkers.parts_eq_some h
  have hbegin : (before ++ b :: (mid ++ e :: after)).findIdx?
      (fun l => trimEnd l = beginLine m.name) = some before.length :=
    findIdx?_append_cons hbefore hb
  have hend : (mid ++ e :: after).findIdx? (fun l => trimEnd l = endLine m.name) =
      some mid.length := findIdx?_append_cons hmid he
  refine ⟨?_, List.take_left' rfl, ?_⟩
  · rw [markerIdx, hbegin, Option.bind_some, drop_behind, hend]
    rfl
  · have hsum : before.length + 1 + mid.length + 1 = before.length + 1 + (mid.length + 1) :=
      Nat.add_assoc _ _ _
    rw [hsum, ← List.drop_drop, drop_behind, drop_behind]

theorem markerIdx_none (h : m.markers.parts ls = none) : (markerIdx ls m.name).2 = none := by
  have hnone {marker : List Char} {ls : List (List Char)}
      (hls : ∀ l ∈ ls, decide (trimEnd l = marker) = false) :
      ls.findIdx? (fun l => trimEnd l = marker) = none := List.findIdx?_eq_none_iff.mpr hls
  rw [markerIdx]
  cases hbegin : splitFirst m.markers.isBegin ls with
  | none => rw [hnone (splitFirst_eq_none.mp hbegin), Option.bind_none]
  | some p =>
    obtain ⟨front, b, back⟩ := p
    obtain ⟨rfl, hfront, hb⟩ := splitFirst_eq_some hbegin
    rw [BlockMarkers.parts, hbegin, Option.bind_some, Option.map_eq_none_iff] at h
    have hidx : (front ++ b :: back).findIdx? (fun l => trimEnd l = beginLine m.name) =
        some front.length := findIdx?_append_cons hfront hb
    rw [hidx, Option.bind_some, drop_behind, hnone (splitFirst_eq_none.mp h), Option.map_none]

/-- The edit of the text is the edit of its lines. -/
theorem plainLines_replace (content newBlock : List Char) :
    plainLines (replaceManagedBlock content m.name newBlock) =
      m.markers.put (plainLines content) (plainLines (closed newBlock)) := by
  have hparts : m.markers.parts (plainLines content) =
      (m.markers.parts (lines content)).map fun p =>
        (p.1.map trimCrs, p.2.1.map trimCrs, p.2.2.map trimCrs) :=
    BlockMarkers.parts_map (fun l => by simp only [markers, trimEnd_trimCrs])
      (fun l => by simp only [markers, trimEnd_trimCrs]) (lines content)
  have hwhole : ∀ l ∈ lines content, '\n' ∉ l := fun l hl => notMem_lines hl
  rw [BlockMarkers.put, hparts, replaceManagedBlock]
  cases hfound : m.markers.parts (lines content) with
  | some p =>
    obtain ⟨before, mid, after⟩ := p
    obtain ⟨hidx, hfront, hrest⟩ := m.markerIdx_some hfound
    have hbefore : ∀ l ∈ before, '\n' ∉ l := by
      intro l hl
      rw [← hfront] at hl
      exact hwhole l (List.mem_of_mem_take hl)
    have hafter : ∀ l ∈ after, '\n' ∉ l := by
      intro l hl
      rw [← hrest] at hl
      exact hwhole l (List.mem_of_mem_drop hl)
    have hlast : plainLines (unlines after) = after.map trimCrs := plainLines_unlines_all hafter
    simp only [hidx, hfront, hrest, Option.map_some]
    rw [List.append_assoc, plainLines_unlines hbefore, m.plainLines_blockText, hlast,
      List.append_assoc]
  | none =>
    have hidx := m.markerIdx_none hfound
    have hblock := m.plainLines_blockText newBlock []
    rw [List.append_nil] at hblock
    have hend : plainLines (ended content ++ blockText m.name newBlock) =
        plainLines content ++ m.markers.written (plainLines (closed newBlock)) := by
      rw [plainLines_ended_append, hblock]
      exact congrArg (_ ++ ·) (List.append_nil _)
    rw [← hend]
    generalize markerIdx (lines content) m.name = idx at hidx ⊢
    obtain ⟨b, e⟩ := idx
    dsimp only at hidx
    subst hidx
    cases b <;> rfl

end ManagedMarker

def sshdMarker : ManagedMarker :=
  ⟨"AiFw".toList, by simp, by simp, by simp [isWhitespace]⟩

def loaderMarker : ManagedMarker :=
  ⟨"AiFw console".toList, by simp, by simp, by simp [isWhitespace]⟩

namespace SystemOp

def accepted (op : SystemOp) : Bool := op.check.isOk

/-- The line that a call puts in the place of those of the host itself. -/
def hostsWritten (op : SystemOp) : Option (List Char) :=
  match op with
  | putGeneral req host =>
    if op.accepted && host.hosts.isOk then some (hostsLine req.hostname req.domain) else none
  | _ => none

/-- The line, or none, that a call puts in the place of those with the domain to search. -/
def resolvWritten (op : SystemOp) : Option (Option (List Char)) :=
  match op with
  | putGeneral req host =>
    if op.accepted && host.resolvConf.isOk then some (wantedSearch req.domain) else none
  | _ => none

theorem exec_eq (s : SystemFiles) (op : SystemOp) :
    (op.exec s).1 = if op.accepted then (op.apply s).1 else s := by
  rw [exec, accepted]
  cases op.check <;> rfl

theorem checked (h : (putGeneral req host).accepted = true) :
    InLine req.hostname ∧ InLine req.domain := by
  rw [accepted, check] at h
  cases hhost : validateHostname req.hostname with
  | error e =>
    rw [hhost] at h
    cases h
  | ok =>
    cases hdomain : validateDomain req.domain with
    | error e =>
      rw [hhost, hdomain] at h
      cases h
    | ok => exact ⟨inLine_of_validateHostname hhost, inLine_of_validateDomain hdomain⟩

end SystemOp

/-- No read of the call fails. That there is no file is no failure. -/
def SystemOp.ReadsFiles : SystemOp → Prop
  | putGeneral _ host => host.hostsRead = .ok () ∧ host.resolvConfRead = .ok ()
  | putSsh _ host => host.sshdConfigRead = .ok ()
  | putConsole _ read _ => read = .ok ()

/-- The lines that are not owned, and those that are, of a file that is a text. -/
def partsOf (own : List Char → Bool) (file : Option (List UInt8)) :
    Option (List (List Char) × List (List Char)) := (fileLines file).map (partedBy own)

theorem partsOf_eq (h : fileLines file = some ls) (own : List Char → Bool) :
    partsOf own file = some (partedBy own ls) := congrArg (Option.map (partedBy own)) h

def putHosts (parts : List (List Char) × List (List Char)) (line : List Char) :
    List (List Char) × List (List Char) :=
  (parts.1, List.replicate (max 1 parts.2.length) line)

def putSearch (parts : List (List Char) × List (List Char)) (line : Option (List Char)) :
    List (List Char) × List (List Char) := (parts.1, line.toList)

theorem partsOf_hosts_exec {s : SystemFiles} {op : SystemOp}
    (htext : (partsOf isLoopback s.hosts).isSome) (hread : op.ReadsFiles) :
    partsOf isLoopback (op.exec s).1.hosts =
      op.hostsWritten.elim (partsOf isLoopback s.hosts) fun line =>
        (partsOf isLoopback s.hosts).map (putHosts · line) := by
  rw [SystemOp.exec_eq]
  cases op with
  | putGeneral req host =>
    cases haccepted : (SystemOp.putGeneral req host).accepted with
    | false => simp only [SystemOp.hostsWritten, haccepted]; rfl
    | true =>
      obtain ⟨hhost, hdomain⟩ := SystemOp.checked haccepted
      simp only [SystemOp.hostsWritten, haccepted, SystemOp.apply, applyGeneral, if_true]
      cases houtcome : host.hosts with
      | error e => rfl
      | ok =>
        rw [partsOf, Option.isSome_map] at htext
        obtain ⟨ls, hls⟩ := Option.isSome_iff_exists.mp htext
        have hparts := partedBy_rewriteHosts hhost hdomain (readBestEffort s.hosts (.ok ()))
        rw [plainLines_read hls] at hparts
        rw [partsOf_eq hls, hread.1]
        exact (partsOf_eq (fileLines_written _) _).trans (congrArg some hparts)
  | putSsh req host =>
    cases (SystemOp.putSsh req host).accepted <;> rfl
  | putConsole req read installed =>
    cases (SystemOp.putConsole req read installed).accepted <;> rfl

theorem partsOf_resolv_exec {s : SystemFiles} {op : SystemOp}
    (htext : (partsOf isSearch s.resolvConf).isSome) (hread : op.ReadsFiles) :
    partsOf isSearch (op.exec s).1.resolvConf =
      op.resolvWritten.elim (partsOf isSearch s.resolvConf) fun line =>
        (partsOf isSearch s.resolvConf).map (putSearch · line) := by
  rw [SystemOp.exec_eq]
  cases op with
  | putGeneral req host =>
    cases haccepted : (SystemOp.putGeneral req host).accepted with
    | false => simp only [SystemOp.resolvWritten, haccepted]; rfl
    | true =>
      obtain ⟨hhost, hdomain⟩ := SystemOp.checked haccepted
      simp only [SystemOp.resolvWritten, haccepted, SystemOp.apply, applyGeneral, if_true]
      cases houtcome : host.resolvConf with
      | error e => rfl
      | ok =>
        rw [partsOf, Option.isSome_map] at htext
        obtain ⟨ls, hls⟩ := Option.isSome_iff_exists.mp htext
        have hparts := partedBy_rewriteResolv hdomain (readBestEffort s.resolvConf (.ok ()))
        rw [plainLines_read hls] at hparts
        rw [partsOf_eq hls, hread.2]
        exact (partsOf_eq (fileLines_written _) _).trans (congrArg some hparts)
  | putSsh req host =>
    cases (SystemOp.putSsh req host).accepted <;> rfl
  | putConsole req read installed =>
    cases (SystemOp.putConsole req read installed).accepted <;> rfl

/-- Edits of a file that is a text. -/
theorem overwrites_text {put : σ → β → σ} (h : ∀ s a b, put (put s a) b = put s b) :
    Overwrites (fun s : Option σ => s.isSome) fun s b => s.map (put · b) where
  fit := by
    intro s b hs
    rwa [Option.isSome_map]
  put_put := by
    intro s a b _
    rw [Option.map_map]
    exact congrArg (Option.map · s) (funext fun parts => h parts a b)

theorem putHosts_overwrites : Overwrites (fun parts => Option.isSome parts)
    fun parts line => Option.map (putHosts · line) parts := by
  apply overwrites_text
  intro parts a b
  rw [putHosts, putHosts, putHosts, List.length_replicate, ← Nat.max_assoc, Nat.max_self]

theorem putSearch_overwrites : Overwrites (fun parts => Option.isSome parts)
    fun parts line => Option.map (putSearch · line) parts :=
  overwrites_text fun _ _ _ => rfl

/-- However the calls of the page follow on one another and are refused or cannot write, the lines of
other hosts and of other settings stay as they are, and the lines of this host are those of the last
call that could write them. -/
theorem general_along_runs {s : SystemFiles} (hhosts : fileLines s.hosts = some hosts)
    (hresolv : fileLines s.resolvConf = some resolv) (ops : List SystemOp)
    (hread : ∀ op ∈ ops, op.ReadsFiles) :
    partsOf isLoopback (s.run ops).hosts =
        some ((ops.filterMap SystemOp.hostsWritten).getLast?.elim (partedBy isLoopback hosts)
          (putHosts (partedBy isLoopback hosts))) ∧
      partsOf isSearch (s.run ops).resolvConf =
        some ((ops.filterMap SystemOp.resolvWritten).getLast?.elim (partedBy isSearch resolv)
          (putSearch (partedBy isSearch resolv))) := by
  have hhostsParts := partsOf_eq hhosts isLoopback
  have hresolvParts := partsOf_eq hresolv isSearch
  have hhostsRun := putHosts_overwrites.run
    (v := fun s : SystemFiles => partsOf isLoopback s.hosts) (s := s)
    (fun _ _ => partsOf_hosts_exec) (by rw [hhostsParts]; rfl) ops hread
  have hresolvRun := putSearch_overwrites.run
    (v := fun s : SystemFiles => partsOf isSearch s.resolvConf) (s := s)
    (fun _ _ => partsOf_resolv_exec) (by rw [hresolvParts]; rfl) ops hread
  constructor
  · refine hhostsRun.trans ?_
    rw [hhostsParts]
    cases (ops.filterMap SystemOp.hostsWritten).getLast? <;> rfl
  · refine hresolvRun.trans ?_
    rw [hresolvParts]
    cases (ops.filterMap SystemOp.resolvWritten).getLast? <;> rfl

def sampleFiles : SystemFiles where
  hosts := some (utf8Bytes "::1 localhost\n127.0.1.1 old\n".toList)
  resolvConf := some (utf8Bytes "nameserver 9.9.9.9\nsearch old.lan\n".toList)
  sshdConfig := none
  loaderConf := none

def renameOp (domain : String) (hosts : Except (List Char) Unit) : SystemOp :=
  .putGeneral ⟨"fw".toList, domain.toList, "UTC".toList⟩
    ⟨.ok (), .ok (), .ok (), hosts, .ok (), .ok (), true, .ok (), .ok ()⟩

/-- The second call cannot write the names of hosts, but the domain. -/
theorem general_along_runs_renamed :
    let s := sampleFiles.run [renameOp "lan" (.ok ()), renameOp "home" (.error [])]
    partsOf isLoopback s.hosts =
        some (["::1 localhost".toList], ["127.0.1.1\tfw.lan fw".toList]) ∧
      partsOf isSearch s.resolvConf =
        some (["nameserver 9.9.9.9".toList], ["search home".toList]) := by
  obtain ⟨hhosts, hresolv⟩ := general_along_runs (s := sampleFiles) (fileLines_written _)
    (fileLines_written _) [renameOp "lan" (.ok ()), renameOp "home" (.error [])]
    (by simp [SystemOp.ReadsFiles, renameOp])
  refine ⟨hhosts.trans ?_, hresolv.trans ?_⟩
  · decide +kernel
  · decide +kernel

inductive ManagedFile
  | sshdConfig
  | loaderConf

namespace ManagedFile

def bytes (s : SystemFiles) : ManagedFile → Option (List UInt8)
  | sshdConfig => s.sshdConfig
  | loaderConf => s.loaderConf

def marker : ManagedFile → ManagedMarker
  | sshdConfig => sshdMarker
  | loaderConf => loaderMarker

/-- The lines of the file as a call finds them. -/
def linesIn (file : ManagedFile) (s : SystemFiles) : Option (List (List Char)) :=
  fileLines (file.bytes s)

/-- The block that a call writes into the file. -/
def written (file : ManagedFile) (op : SystemOp) : Option SettingLines :=
  match file, op with
  | sshdConfig, .putSsh req host =>
    if op.accepted && host.sshdConfig.isOk then some (sshBlock req) else none
  | loaderConf, .putConsole req _ installed =>
    if op.accepted && installed.isOk then some (consoleBlock req) else none
  | _, _ => none

theorem bytes_exec (file : ManagedFile) (s : SystemFiles) {op : SystemOp} (hread : op.ReadsFiles) :
    file.bytes (op.exec s).1 = (file.written op).elim (file.bytes s) fun block =>
      some (utf8Bytes (replaceManagedBlock (readBestEffort (file.bytes s) (.ok ()))
        file.marker.name (unlines block.lines))) := by
  rw [SystemOp.exec_eq]
  cases op with
  | putGeneral req host =>
    cases file <;> cases (SystemOp.putGeneral req host).accepted <;> rfl
  | putSsh req host =>
    cases file with
    | loaderConf => cases (SystemOp.putSsh req host).accepted <;> rfl
    | sshdConfig =>
      have hsshd : host.sshdConfigRead = .ok () := hread
      simp only [written]
      cases (SystemOp.putSsh req host).accepted with
      | false => rfl
      | true =>
        simp only [SystemOp.apply, applySsh, if_true, hsshd]
        cases host.sshdConfig <;> rfl
  | putConsole req read installed =>
    cases file with
    | sshdConfig => cases (SystemOp.putConsole req read installed).accepted <;> rfl
    | loaderConf =>
      have hloader : read = .ok () := hread
      simp only [written]
      cases (SystemOp.putConsole req read installed).accepted with
      | false => rfl
      | true =>
        simp only [SystemOp.apply, applyConsole, if_true, hloader]
        cases installed <;> rfl

theorem isEnd_setting (file : ManagedFile) (block : SettingLines) :
    ∀ l ∈ block.lines, file.marker.markers.isEnd l = false := by
  intro l hl
  apply decide_eq_false
  intro hend
  apply block.setting l hl
  obtain ⟨rest, hrest⟩ := trimEnd_prefix l
  rw [← hrest, hend]
  rfl

theorem plainLines_block (block : SettingLines) :
    plainLines (closed (unlines block.lines)) = block.lines := by
  have hclosed : closed (unlines block.lines) = unlines block.lines := by
    have hlast : (unlines block.lines).getLast? = some '\n' := by
      cases hlines : block.lines using List.reverseRecOn with
      | nil => exact absurd hlines block.ne
      | append_singleton front l =>
        rw [unlines_append, unlines_cons, ← List.append_assoc]
        simp [unlines]
    rw [closed, if_pos hlast]
  rw [hclosed, plainLines_unlines_all fun l hl => (block.inLine l hl).1]
  exact (List.map_congr_left fun l hl => (block.inLine l hl).trimCrs).trans (List.map_id _)

theorem lines_exec (file : ManagedFile) {s : SystemFiles} (op : SystemOp)
    (htext : (file.linesIn s).isSome) (hread : op.ReadsFiles) :
    file.linesIn (op.exec s).1 = (file.written op).elim (file.linesIn s) fun block =>
      (file.linesIn s).map (file.marker.markers.put · block.lines) := by
  rw [linesIn, bytes_exec file s hread]
  cases file.written op with
  | none => rfl
  | some block =>
    obtain ⟨ls, hls⟩ := Option.isSome_iff_exists.mp htext
    have hreplace := file.marker.plainLines_replace (readBestEffort (file.bytes s) (.ok ()))
      (unlines block.lines)
    rw [plainLines_block, plainLines_read hls] at hreplace
    rw [hls]
    exact (fileLines_written _).trans (congrArg some hreplace)

theorem isEnd_beginLine (file : ManagedFile) :
    file.marker.markers.isEnd file.marker.markers.beginLine = false := by
  cases file <;> decide

theorem blocks_overwrite (file : ManagedFile) :
    Overwrites (fun ls => ∃ t, ls = some t ∧ ¬file.marker.markers.Orphan t)
      fun ls (block : SettingLines) => ls.map (file.marker.markers.put · block.lines) := by
  have hputs : Overwrites (fun ls => ¬file.marker.markers.Orphan ls)
      fun ls (block : SettingLines) => file.marker.markers.put ls block.lines :=
    BlockMarkers.put_overwrites file.isEnd_setting
  constructor
  · rintro _ block ⟨t, rfl, ht⟩
    exact ⟨_, rfl, hputs.fit t block ht⟩
  · rintro _ a b ⟨t, rfl, ht⟩
    exact congrArg some (hputs.put_put t a b ht)

/-- However the calls of the page follow on one another and are refused or cannot write, the lines
outside the block stay and its own are those of the last call that could write them, but only where
no block is left open: then a second call takes whatever stands behind its beginning for the
block. -/
theorem block_along_runs {file : ManagedFile} {s : SystemFiles} (h : file.linesIn s = some ls) :
    ((∀ ops, (∀ op ∈ ops, op.ReadsFiles) → ∃ after, file.linesIn (s.run ops) = some after ∧
          file.marker.markers.outside after = file.marker.markers.outside ls ∧
          file.marker.markers.inside after =
            (ops.filterMap file.written).getLast?.elim (file.marker.markers.inside ls)
              fun block => some block.lines) ↔
      ¬file.marker.markers.Orphan ls) ∧
    (file.marker.markers.Orphan ls → ∀ op op' block block', op.ReadsFiles → op'.ReadsFiles →
      file.written op = some block → file.written op' = some block' →
        file.linesIn (s.run [op, op']) =
          some (ls.takeWhile (fun l => !file.marker.markers.isBegin l) ++
            file.marker.markers.written block'.lines)) := by
  have htext : (file.linesIn s).isSome := by rw [h]; rfl
  refine ⟨⟨?_, ?_⟩, ?_⟩
  · intro hruns
    obtain ⟨op, block, hread, hop⟩ : ∃ op block, op.ReadsFiles ∧ file.written op = some block := by
      cases file with
      | sshdConfig =>
        exact ⟨.putSsh ⟨true, 22, false, false⟩ ⟨.ok (), .ok (), .ok (), .ok ()⟩, _, rfl, rfl⟩
      | loaderConf => exact ⟨.putConsole ⟨.video, 115200⟩ (.ok ()) (.ok ()), _, rfl, rfl⟩
    obtain ⟨after, hafter, houtside, -⟩ := hruns [op] (List.forall_mem_singleton.mpr hread)
    have hlines : file.linesIn (s.run [op]) = _ := file.lines_exec op htext hread
    rw [hafter, hop, h] at hlines
    cases hlines
    exact (BlockMarkers.outside_put_iff (file.isEnd_setting block)).mp houtside
  · intro horphan ops hread
    have hrun := (blocks_overwrite file).run (v := file.linesIn) (s := s)
      (P := SystemOp.ReadsFiles)
      (fun _ op hs hop => file.lines_exec op (by obtain ⟨t, ht, -⟩ := hs; rw [ht]; rfl) hop)
      ⟨ls, h, horphan⟩ ops hread
    change file.linesIn (s.run ops) = _ at hrun
    rw [hrun, h]
    cases (ops.filterMap file.written).getLast? with
    | none => exact ⟨ls, rfl, rfl, rfl⟩
    | some block =>
      have hparts := BlockMarkers.parts_put horphan (file.isEnd_setting block)
      refine ⟨_, rfl, (BlockMarkers.outside_put_iff (file.isEnd_setting block)).mpr horphan, ?_⟩
      rw [BlockMarkers.inside, hparts]
      rfl
  · intro horphan op op' block block' hread hread' hop hop'
    have hfirst : file.linesIn (op.exec s).1 = _ := file.lines_exec op htext hread
    rw [hop, h] at hfirst
    have hsecond : file.linesIn (s.run [op, op']) = _ :=
      file.lines_exec (s := (op.exec s).1) op' (by rw [hfirst]; rfl) hread'
    rw [hsecond, hop', hfirst]
    exact congrArg some (BlockMarkers.put_put_orphan horphan file.isEnd_beginLine
      (file.isEnd_setting block) block'.lines)

def loaderFiles (text : String) : SystemFiles :=
  { sampleFiles with loaderConf := some (utf8Bytes text.toList) }

def consoleOp (baud : UInt32) (installed : Except (List Char) Unit) : SystemOp :=
  .putConsole ⟨.serial, baud⟩ (.ok ()) installed

/-- A second call that cannot write, and one that finds the block of a file left open. -/
theorem block_along_runs_loader :
    (∃ after, loaderConf.linesIn ((loaderFiles "zfs_load=YES\n").run
        [consoleOp 9600 (.ok ()), consoleOp 19200 (.error [])]) = some after ∧
      loaderMarker.markers.outside after = (["zfs_load=YES".toList], []) ∧
      loaderMarker.markers.inside after =
        some ["console=\"comconsole\"".toList, "comconsole_speed=\"9600\"".toList]) ∧
    loaderConf.linesIn ((loaderFiles "# BEGIN AiFw console\nzfs_load=YES\n").run
        [consoleOp 9600 (.ok ()), consoleOp 19200 (.ok ())]) =
      some ["# BEGIN AiFw console".toList, "console=\"comconsole\"".toList,
        "comconsole_speed=\"19200\"".toList, "# END AiFw console".toList] := by
  constructor
  · have hlines : loaderConf.linesIn (loaderFiles "zfs_load=YES\n") =
        some ["zfs_load=YES".toList] := (fileLines_written _).trans (by decide +kernel)
    have hclosed : ¬loaderConf.marker.markers.Orphan ["zfs_load=YES".toList] := by
      rintro ⟨hbegin, -⟩
      revert hbegin
      decide +kernel
    obtain ⟨after, hafter, houtside, hinside⟩ := (block_along_runs hlines).1.mpr hclosed
      [consoleOp 9600 (.ok ()), consoleOp 19200 (.error [])]
      (by simp [SystemOp.ReadsFiles, consoleOp])
    refine ⟨after, hafter, houtside.trans ?_, hinside.trans ?_⟩
    · decide +kernel
    · decide +kernel
  · have hlines : loaderConf.linesIn (loaderFiles "# BEGIN AiFw console\nzfs_load=YES\n") =
        some ["# BEGIN AiFw console".toList, "zfs_load=YES".toList] :=
      (fileLines_written _).trans (by decide +kernel)
    have hopen : loaderConf.marker.markers.Orphan
        ["# BEGIN AiFw console".toList, "zfs_load=YES".toList] := by
      constructor
      · decide +kernel
      · decide +kernel
    refine ((block_along_runs hlines).2 hopen (consoleOp 9600 (.ok ())) (consoleOp 19200 (.ok ()))
      _ _ rfl rfl rfl rfl).trans ?_
    decide +kernel

end ManagedFile

end AiFw.Host
