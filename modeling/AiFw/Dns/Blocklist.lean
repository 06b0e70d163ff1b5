import AiFw.Geo.Index
import AiFw.Lib.Numerals
import AiFw.Lib.Table
import Mathlib.Data.List.Sort

namespace AiFw.Dns
open AiFw.Lib AiFw.Net
open AiFw.Geo (lines utf8Len)

set_option autoImplicit true

structure BlocklistSource where
  id : Nat
  name : List Char
  category : List Char
  url : List Char
  format : List Char
  enabled : Bool
  action : List Char
  redirectIp : Option (List Char)
  lastUpdated : Option Int
  lastSha256 : Option (List Char)
  ruleCount : Nat
  lastError : Option (List Char)
  builtIn : Bool
deriving DecidableEq, Repr

/-- The fields that are not given keep their values. -/
structure UpdateBlocklistSource where
  name : Option (List Char) := none
  category : Option (List Char) := none
  url : Option (List Char) := none
  format : Option (List Char) := none
  enabled : Option Bool := none
  action : Option (List Char) := none
  redirectIp : Option (List Char) := none

structure PatternEntry where
  id : Nat
  pattern : List Char
  note : Option (List Char)
deriving DecidableEq, Repr

/-- `str::contains` for a text. -/
def containsText (pat s : List Char) : Bool := s.tails.any fun t => pat.isPrefixOf t

/-- `trim_end_matches('.')`. -/
def trimEndDots (s : List Char) : List Char := (s.reverse.dropWhile fun c => c == '.').reverse

/-- `trim_start_matches("*.")`. -/
def trimWildcards : List Char → List Char
  | '*' :: '.' :: rest => trimWildcards rest
  | s => s

/-- `str::strip_prefix`. -/
def stripPrefix (pre s : List Char) : Option (List Char) :=
  if pre.isPrefixOf s then some (s.drop pre.length) else none

/-- The first of the pieces of `split_whitespace`, or nothing. -/
def firstWord (s : List Char) : List Char := (trimStart s).takeWhile fun c => !isWhitespace c

def afterFirstWord (s : List Char) : List Char := (trimStart s).dropWhile fun c => !isWhitespace c

/-- The beginnings of private and loopback addresses in a URL. -/
def privateTargets : List (List Char) := [
  "://127.", "://localhost", "://0.0.0.0", "://169.254.", "://[::1]", "://10.", "://192.168.",
  "://172.16.", "://172.17.", "://172.18.", "://172.19.", "://172.20.", "://172.21.", "://172.22.",
  "://172.23.", "://172.24.", "://172.25.", "://172.26.", "://172.27.", "://172.28.", "://172.29.",
  "://172.30.", "://172.31."].map String.toList

def validateUrl (url : List Char) : Except (List Char) Unit :=
  let url := trim url
  if !("https://".toList.isPrefixOf url || "http://".toList.isPrefixOf url) then
    .error "URL must use http or https".toList
  else
    match privateTargets.find? fun bad => containsText bad (url.map Char.toLower) with
    | some bad => .error ("URL targets a private or loopback address: ".toList ++ bad)
    | none => .ok ()

/-- The value is one of those that are accepted. -/
def validateOneOf (accepted : List String) (message : List Char) (value : List Char) :
    Except (List Char) Unit :=
  if (accepted.map String.toList).contains value then .ok () else .error message

def validateFormat : List Char → Except (List Char) Unit :=
  validateOneOf ["hosts", "domains", "adblock", "rpz"]
    "format must be one of: hosts, domains, adblock, rpz".toList

def validateAction : List Char → Except (List Char) Unit :=
  validateOneOf ["nxdomain", "nodata", "drop", "redirect"]
    "action must be one of: nxdomain, nodata, drop, redirect".toList

def validateRedirectIp (action : List Char) (ip : Option (List Char)) : Except (List Char) Unit :=
  if action ≠ "redirect".toList then .ok ()
  else
    match ip with
    | none => .error "redirect_ip required when action=redirect".toList
    | some ip =>
      if (IpAddr.parse ip).isNone then
        .error "redirect_ip must be a valid IPv4 or IPv6 address".toList
      else .ok ()

def labelError (label : List Char) : Option (List Char) :=
  if label.isEmpty || utf8Len label > 63 then some "invalid label length".toList
  else if !label.all fun c => c.isAlphanum || c == '-' then
    some "labels must be alphanumeric or hyphen".toList
  else if label.head? == some '-' || label.getLast? == some '-' then
    some "labels must not start or end with hyphen".toList
  else none

def validatePattern (p : List Char) : Except (List Char) Unit :=
  let p := trimEndDots (trim p)
  let body := (stripPrefix "*.".toList p).getD p
  if body.isEmpty || utf8Len body > 253 then .error "pattern length out of range".toList
  else
    match (splitOn '.' body).findSome? labelError with
    | some e => .error e
    | none =>
      if !p.contains '.' then .error "pattern must contain at least one dot".toList else .ok ()

/-- The names a line offers, by the format of the list. -/
def candidates (format line : List Char) : List (List Char) :=
  if format = "hosts".toList then
    let first := firstWord line
    if ["0.0.0.0".toList, "127.0.0.1".toList, "::".toList].contains first then
      [firstWord (afterFirstWord line)]
    else [first]
  else if format = "adblock".toList then
    match stripPrefix "||".toList line with
    | some rest => [rest.takeWhile fun c => !(c == '^' || c == '/' || c == '*')]
    | none => []
  else if format = "domains".toList then [firstWord line]
  else if format = "rpz".toList then []
  else [line]

/-- The domain that is blocked for a name, if it is one. -/
def candidateDomain (c : List Char) : Option (List Char) :=
  let d := trimWildcards (trimEndDots (trim c))
  if d.isEmpty || ["localhost".toList, "local".toList, "broadcasthost".toList].contains d then none
  else if !d.contains '.' || d.any isWhitespace then none
  else some (d.map Char.toLower)

/-- `HashSet::insert`. -/
def insertDomain (domains : List (List Char)) (d : List Char) : List (List Char) :=
  if domains.contains d then domains else domains ++ [d]

def parseBody (body : List UInt8) (format : List Char) : List (List Char) :=
  let found := (lines (fromUtf8Lossy body)).flatMap fun rawLine =>
    let line := trim (rawLine.takeWhile fun c => c ≠ '#')
    if line.isEmpty then [] else (candidates format line).filterMap candidateDomain
  found.foldl insertDomain []

/-- The order of strings: that of their code points. -/
def textLe : List Char → List Char → Bool
  | [], _ => true
  | _ :: _, [] => false
  | a :: as, b :: bs => if a = b then textLe as bs else decide (a.toNat < b.toNat)

def actionLine (action : List Char) (redirectIp : Option (List Char)) (d : List Char) : List Char :=
  if action = "redirect".toList then
    let ip := redirectIp.getD "0.0.0.0".toList
    if ip.contains ':' then d ++ " AAAA ".toList ++ ip ++ ['\n'] else d ++ " A ".toList ++ ip ++ ['\n']
  else if action = "nodata".toList then d ++ " CNAME *.\n".toList
  else if action = "drop".toList then d ++ " CNAME rpz-drop.\n".toList
  else d ++ " CNAME .\n".toList

/-- The records of a zone, one for each domain. -/
def zoneRecords (domains : List (List Char)) (action : List Char) (redirectIp : Option (List Char)) :
    List Char :=
  ((domains.insertionSort fun a b => textLe a b = true).map (actionLine action redirectIp)).flatten

def zoneHeader (zone : List Char) (serial : Nat) : List Char :=
  "$TTL 300\n@ IN SOA ".toList ++ zone ++ ". admin.".toList ++ zone ++ ". ".toList ++
    Nat.toDigits 10 serial ++ " 3600 900 604800 300\n  IN NS  localhost.\n".toList

def buildRpz (domains : List (List Char)) (action : List Char) (redirectIp : Option (List Char))
    (zone : List Char) (serial : Nat) : List Char :=
  zoneHeader zone serial ++ zoneRecords domains action redirectIp

example : parseBody "0.0.0.0 Ads.Example.com # ads\n127.0.0.1 localhost\n".toUTF8.toList
    "hosts".toList = ["ads.example.com".toList] := by decide +kernel

theorem space_notMem_digits (n : Nat) : ' ' ∉ Nat.toDigits 10 n := by
  intro h
  have hdigit := isSome_toDigit_of_mem (by decide) (by decide) n h
  revert hdigit
  decide

/-- The records of a zone can be read off its file, whatever its serial. -/
theorem buildRpz_inj
    (h : buildRpz domains action redirectIp zone serial =
      buildRpz domains' action' redirectIp' zone serial') :
    zoneRecords domains action redirectIp = zoneRecords domains' action' redirectIp' := by
  unfold buildRpz zoneHeader at h
  rw [List.append_assoc (_ ++ Nat.toDigits 10 serial), List.append_assoc _ (Nat.toDigits 10 serial),
    List.append_assoc (_ ++ Nat.toDigits 10 serial'),
    List.append_assoc _ (Nat.toDigits 10 serial')] at h
  have hrest := congrArg (splitOnce ' ') (List.append_cancel_left h)
  have hsplit : ∀ (n : Nat) (records : List Char), splitOnce ' ' (Nat.toDigits 10 n ++
      (" 3600 900 604800 300\n  IN NS  localhost.\n".toList ++ records)) =
      some (Nat.toDigits 10 n, "3600 900 604800 300\n  IN NS  localhost.\n".toList ++ records) :=
    fun n records => splitOnce_append (space_notMem_digits n)
  rw [hsplit, hsplit] at hrest
  exact List.append_cancel_left (Prod.mk.inj (Option.some.inj hrest)).2

open AiFw.Geo (lines)

structure RefreshOutcome where
  sourceId : Nat
  ok : Bool
  ruleCount : Nat
  bytes : Nat
  sha256 : List Char
  error : Option (List Char)
deriving DecidableEq, Repr

/-- A text of its own, or that of the database. -/
inductive CallError where
  | message (text : List Char)
  | database
deriving DecidableEq, Repr

/-- The tables of the blocklists, and the zone files by the ids of their sources. -/
structure BlocklistStore where
  scheduleEnabled : Bool
  sources : List BlocklistSource
  whitelist : List PatternEntry
  lastPatternId : Nat
  files : Nat → Option (List Char)

/-- What a refresh finds outside: the answers to downloads, the clock, and whether the file can be
installed. -/
structure RefreshInput where
  fetch : List Char → Except (List Char) (List UInt8)
  now : Int
  serial : Nat
  install : Except (List Char) Unit

/-- The lines of a zone file that are counted as rules. -/
def countRules (zoneBody : List Char) : Nat :=
  (lines zoneBody).countP fun l =>
    let l := trim l
    !l.isEmpty && l.head? != some ';' && l.head? != some '$' && l.head? != some '@'

namespace BlocklistStore

def loadSource (s : BlocklistStore) (id : Nat) : Option BlocklistSource :=
  s.sources.find? fun src => src.id = id

/-- `UPDATE dns_blocklist_source ... WHERE id = ?`. -/
def updateRow (s : BlocklistStore) (id : Nat) (set : BlocklistSource → BlocklistSource) :
    BlocklistStore :=
  { s with sources := s.sources.map fun src => if src.id = id then set src else src }

def setFile (s : BlocklistStore) (id : Nat) (file : Option (List Char)) : BlocklistStore :=
  { s with files := Function.update s.files id file }

theorem setFile_files (s : BlocklistStore) (id id' : Nat) (file : Option (List Char)) :
    (s.setFile id file).files id' = if id' = id then file else s.files id' :=
  Function.update_apply ..

def removeBlocklistFile (s : BlocklistStore) (id : Nat) : BlocklistStore := s.setFile id none

def atomicWrite (s : BlocklistStore) (id : Nat) (body : List Char) : BlocklistStore :=
  s.setFile id (some body)

def recordSuccess (s : BlocklistStore) (now : Int) (id rules : Nat) (sha : List Char) :
    BlocklistStore :=
  s.updateRow id fun src =>
    { src with lastUpdated := some now, lastSha256 := some sha, ruleCount := rules, lastError := none }

def recordUnchanged (s : BlocklistStore) (now : Int) (id : Nat) : BlocklistStore :=
  s.updateRow id fun src => { src with lastUpdated := some now, lastError := none }

def recordError (s : BlocklistStore) (id : Nat) (err : List Char) : BlocklistStore :=
  s.updateRow id fun src => { src with lastError := some err }

/-- The domains of a list that are not on the whitelist. -/
def blockedDomains (whitelist : List PatternEntry) (body : List UInt8) (format : List Char) :
    List (List Char) :=
  whitelist.foldl
    (fun domains w => domains.filter (· ≠ (trimEndDots (trim w.pattern)).map Char.toLower))
    (parseBody body format)

/-- The zone file for a body, under the settings of its source and a whitelist. -/
def zoneBody (src : BlocklistSource) (whitelist : List PatternEntry) (body : List UInt8)
    (serial : Nat) : List Char :=
  if src.format = "rpz".toList then fromUtf8Lossy body
  else
    buildRpz (blockedDomains whitelist body src.format) src.action src.redirectIp
      ("rpz.blocklist-".toList ++ Nat.toDigits 10 src.id) serial

/-- The body is that of the last success, and its file is there. -/
def unchanged (s : BlocklistStore) (src : BlocklistSource) (sha : List Char) : Bool :=
  src.lastSha256 == some sha && (s.files src.id).isSome

variable (sha256Hex : List UInt8 → List Char)

def refreshSource (s : BlocklistStore) (id : Nat) (w : RefreshInput) :
    BlocklistStore × RefreshOutcome :=
  let failed : RefreshOutcome := ⟨id, false, 0, 0, [], none⟩
  if !s.scheduleEnabled then
    (s, { failed with
      error := some "blocklisting globally disabled — turn it on first".toList })
  else
    match s.loadSource id with
    | none => (s, { failed with error := some "source not found".toList })
    | some src =>
      if !src.enabled then (s.removeBlocklistFile id, { failed with ok := true })
      else
        match w.fetch src.url with
        | .error e => (s.recordError id e, { failed with error := some e })
        | .ok body =>
          let sha := sha256Hex body
          let fetched := { failed with bytes := body.length, sha256 := sha }
          if s.unchanged src sha then
            (s.recordUnchanged w.now id, { fetched with ok := true, ruleCount := src.ruleCount })
          else
            let zone := zoneBody src s.whitelist body w.serial
            match w.install with
            | .error e =>
              let message := "write rpz: ".toList ++ e
              (s.recordError id message, { fetched with error := some message })
            | .ok () =>
              ((s.atomicWrite id zone).recordSuccess w.now id (countRules zone) sha,
                { fetched with ok := true, ruleCount := countRules zone })

/-- The settings after an update, as they are validated and stored. -/
def merge (existing : BlocklistSource) (req : UpdateBlocklistSource) : BlocklistSource :=
  { existing with
      name := req.name.getD existing.name
      category := req.category.getD existing.category
      url := req.url.getD existing.url
      format := req.format.getD existing.format
      enabled := req.enabled.getD existing.enabled
      action := req.action.getD existing.action
      redirectIp :=
        match req.redirectIp with
        | some v => if v.isEmpty then none else some v
        | none => existing.redirectIp }

def validateSettings (src : BlocklistSource) : Except (List Char) Unit := do
  validateUrl src.url
  validateFormat src.format
  validateAction src.action
  validateRedirectIp src.action src.redirectIp

def updateSource (s : BlocklistStore) (id : Nat) (req : UpdateBlocklistSource) :
    BlocklistStore × Except CallError BlocklistSource :=
  match s.loadSource id with
  | none => (s, .error (.message "not found".toList))
  | some existing =>
    let src := merge existing req
    match validateSettings src with
    | .error e => (s, .error (.message e))
    | .ok () =>
      -- another row has the name
      if s.sources.any fun r => r.id ≠ id && r.name = src.name then (s, .error .database)
      else
        let stored := s.updateRow id fun r =>
          { r with
              name := src.name
              category := src.category
              url := src.url
              format := src.format
              enabled := src.enabled
              action := src.action
              redirectIp := src.redirectIp }
        let after := if src.enabled then stored else stored.removeBlocklistFile id
        (after, match after.loadSource id with
          | some r => .ok r
          | none => .error (.message "post-update read failed".toList))

/-- `insert_pattern` for the whitelist. -/
def insertPattern (s : BlocklistStore) (pattern : List Char) (note : Option (List Char)) :
    BlocklistStore × Except CallError PatternEntry :=
  match validatePattern pattern with
  | .error e => (s, .error (.message e))
  | .ok () =>
    if s.whitelist.any fun w => w.pattern = pattern then (s, .error .database)
    else
      let entry : PatternEntry := ⟨s.lastPatternId + 1, pattern, note⟩
      ({ s with whitelist := s.whitelist ++ [entry], lastPatternId := entry.id }, .ok entry)

def deletePattern (s : BlocklistStore) (id : Nat) : BlocklistStore :=
  { s with whitelist := s.whitelist.filter fun w => w.id ≠ id }

end BlocklistStore

/-- A call that changes the lists or refreshes one. -/
inductive BlocklistOp where
  | updateSource (id : Nat) (req : UpdateBlocklistSource)
  | insertPattern (pattern : List Char) (note : Option (List Char))
  | deletePattern (id : Nat)
  | refreshSource (id : Nat) (w : RefreshInput)

namespace BlocklistStore

def step (sha256Hex : List UInt8 → List Char) (s : BlocklistStore) : BlocklistOp → BlocklistStore
  | .updateSource id req => (s.updateSource id req).1
  | .insertPattern pattern note => (s.insertPattern pattern note).1
  | .deletePattern id => s.deletePattern id
  | .refreshSource id w => (s.refreshSource sha256Hex id w).1

def run (sha256Hex : List UInt8 → List Char) (s : BlocklistStore) (ops : List BlocklistOp) :
    BlocklistStore :=
  ops.foldl (step sha256Hex) s

end BlocklistStore

end AiFw.Dns
