import AiFw.Ids.Engine
import AiFw.Ids.Md5
import AiFw.Ids.QuotedMatchers
import AiFw.Lib.Checked
import AiFw.Pf.Rule

namespace AiFw.Ids
open AiFw.Lib
open AiFw.Pf (decimal)
set_option autoImplicit true

inductive ParseResult where
  | ok
  | incomplete
  | error (message : List Char)
deriving DecidableEq

/-- A byte in two lower-case digits, `02x`. -/
def hexLower (b : UInt8) : List Char := (Nat.toDigits 16 b.toNat).leftpad 2 '0'

def md5Hex (input : List Char) : List Char := (md5Compute (utf8Bytes input)).flatMap hexLower

theorem safe_sliceChecked {data : List α} (h : start ≤ stop) (hstop : stop ≤ data.length) :
    Safe (sliceChecked start stop data) fun _ => True := by
  rw [sliceChecked, if_pos ⟨h, hstop⟩]
  exact .pure trivial

namespace TlsParser

def tlsHandshake : UInt8 := 0x16
def tlsClientHello : UInt8 := 0x01
def tlsServerHello : UInt8 := 0x02

def extServerName : UInt16 := 0x0000
def extSupportedVersions : UInt16 := 0x002b
def extAlpn : UInt16 := 0x0010

def defaultPorts : List UInt16 := [443, 8443, 993, 995, 465, 636]

def probe (payload : Bytes) : Option ProbeResult :=
  if payload.length < 5 then some .needMore
  else do
    let recordType ← payload[0]?
    let major ← payload[1]?
    let minor ← payload[2]?
    return if recordType = tlsHandshake ∧ major = 0x03 ∧ minor ≤ 0x03 then .isMatch else .noMatch

def notGrease (v : UInt16) : Bool := v &&& 0x0f0f != 0x0a0a

def joinDash (values : List (List Char)) : List Char := ['-'].intercalate values

def joinNumbers (values : List UInt16) : List Char :=
  joinDash (values.map fun v => decimal v.toNat)

def ja3Str (clientVersion : UInt16) (ciphers extensions ellipticCurves : List UInt16)
    (ecPointFormats : List UInt8) : List Char :=
  [','].intercalate [decimal clientVersion.toNat, joinNumbers ciphers, joinNumbers extensions,
    joinNumbers ellipticCurves, joinDash (ecPointFormats.map fun f => decimal f.toNat)]

def versionStr (clientVersion : UInt16) : List Char :=
  if clientVersion = 0x0301 then "1.0".toList
  else if clientVersion = 0x0302 then "1.1".toList
  else if clientVersion = 0x0303 then "1.2".toList
  else "unknown".toList

def parseSni (data : Bytes) : Option (Option (List Char)) :=
  if data.length < 5 then some none
  else do
    let nameType ← data[2]?
    if nameType ≠ 0 then return none
    let nameLen ← readBe16 data 3
    if data.length < 5 + nameLen.toNat then return none
    let name ← sliceChecked 5 (5 + nameLen.toNat) data
    return fromUtf8 name

/-- The loop over the list of names; one that is not UTF-8 or too long is left out. -/
def alpnProtocols (data : Bytes) (stop pos : Nat) : Option (List (List Char)) :=
  if pos < stop ∧ pos < data.length then do
    let protoLen ← data[pos]?
    let next := pos + 1 + protoLen.toNat
    let protocol ← (if next ≤ data.length then (sliceChecked (pos + 1) next data).map fromUtf8
      else some none)
    let rest ← alpnProtocols data stop next
    return protocol.toList ++ rest
  else some []
termination_by data.length - pos

def parseAlpn (data : Bytes) : Option (Option (List Char)) :=
  if data.length < 2 then some none
  else do
    let listLen ← readBe16 data 0
    let protocols ← alpnProtocols data (2 + listLen.toNat) 2
    return if protocols = [] then none else some ([','].intercalate protocols)

/-- What the loop over the extensions collects. -/
structure HelloState where
  extensions : List UInt16
  ellipticCurves : List UInt16
  ecPointFormats : List UInt8
  buffers : StickyBuffers

def HelloState.insert (s : HelloState) (name : String) (value : Option (List Char)) : HelloState :=
  match value with
  | some text => { s with buffers := s.buffers.insert name (utf8Bytes text) }
  | none => s

/-- The highest version that is listed, or 0. -/
def highestVersion (versions : List UInt16) : UInt16 :=
  versions.foldl (fun highest v => if v > highest ∧ notGrease v then v else highest) 0

/-- The list of an extension ends with its own length or with the end of the whole block. -/
def parseExtension (data : Bytes) (extEnd pos : Nat) (extType : UInt16) (extLen : Nat)
    (s : HelloState) : Option HelloState :=
  if extType = extServerName then do
    let body ← sliceChecked pos (pos + extLen) data
    let sni ← parseSni body
    return s.insert "tls.sni" sni
  else if extType = 0x000a ∧ 2 ≤ extLen then do
    let listLen ← readBe16 data pos
    let curves ← readPairs data (min (pos + 2 + listLen.toNat) extEnd) (pos + 2)
    return { s with ellipticCurves := s.ellipticCurves ++ curves.filter notGrease }
  else if extType = 0x000b ∧ 1 ≤ extLen then do
    let listLen ← data[pos]?
    let formats ← ((List.range listLen.toNat).filter fun i => pos + 1 + i < extEnd).mapM
      fun i => data[pos + 1 + i]?
    return { s with ecPointFormats := s.ecPointFormats ++ formats }
  else if extType = extSupportedVersions ∧ 3 ≤ extLen then do
    let listLen ← data[pos]?
    let versions ← readPairs data (min (pos + 1 + listLen.toNat) extEnd) (pos + 1)
    return s.insert "tls.version"
      (if highestVersion versions = 0x0304 then some "1.3".toList else none)
  else if extType = extAlpn ∧ 2 ≤ extLen then do
    let body ← sliceChecked pos (pos + extLen) data
    let alpn ← parseAlpn body
    return s.insert "tls.alpn" alpn
  else some s

/-- The loop over the extensions. -/
def parseExtensions (data : Bytes) (extEnd pos : Nat) (s : HelloState) : Option HelloState :=
  if pos + 4 ≤ extEnd then do
    let extType ← readBe16 data pos
    let extLen ← readBe16 data (pos + 2)
    let s := { s with extensions := s.extensions ++ [extType].filter notGrease }
    if pos + 4 + extLen.toNat > extEnd then return s
    let s ← parseExtension data extEnd (pos + 4) extType extLen.toNat s
    parseExtensions data extEnd (pos + 4 + extLen.toNat) s
  else some s
termination_by extEnd - pos

/-- The part of `parse_client_hello` after the compression methods. -/
def parseExtensionBlock (data : Bytes) (clientVersion : UInt16) (ciphers : List UInt16) (pos : Nat)
    (buffers : StickyBuffers) : Option (ParseResult × StickyBuffers) :=
  if data.length < pos + 2 then
    let ja3Hash := md5Hex (ja3Str clientVersion ciphers [] [] [])
    some (.ok, buffers.insert "tls.ja3" (utf8Bytes ja3Hash))
  else do
    let extensionsLen ← readBe16 data pos
    let pos := pos + 2
    let s ← parseExtensions data (min (pos + extensionsLen.toNat) data.length) pos
      ⟨[], [], [], buffers⟩
    let ja3 := ja3Str clientVersion ciphers s.extensions s.ellipticCurves s.ecPointFormats
    let buffers := s.buffers.insert "tls.ja3" (utf8Bytes (md5Hex ja3))
    return (.ok, buffers.insert "tls.ja3_string" (utf8Bytes ja3))

/-- The part of `parse_client_hello` after the session id. -/
def parseCiphers (data : Bytes) (clientVersion : UInt16) (pos : Nat) (buffers : StickyBuffers) :
    Option (ParseResult × StickyBuffers) :=
  if data.length < pos + 2 then some (.incomplete, buffers)
  else do
    let cipherSuitesLen ← readBe16 data pos
    let pos := pos + 2
    let suites ← (if pos + cipherSuitesLen.toNat ≤ data.length
      then readPairs data (pos + cipherSuitesLen.toNat) pos else some [])
    let pos := pos + cipherSuitesLen.toNat
    if data.length ≤ pos then return (.incomplete, buffers)
    let compLen ← data[pos]?
    parseExtensionBlock data clientVersion (suites.filter notGrease) (pos + 1 + compLen.toNat)
      buffers

def parseClientHello (data : Bytes) (buffers : StickyBuffers) :
    Option (ParseResult × StickyBuffers) :=
  if data.length < 38 then some (.incomplete, buffers)
  else do
    let clientVersion ← readBe16 data 4
    let buffers := buffers.insert "tls.version" (utf8Bytes (versionStr clientVersion))
    if data.length ≤ 38 then return (.incomplete, buffers)
    let sessionIdLen ← data[38]?
    parseCiphers data clientVersion (39 + sessionIdLen.toNat) buffers

/-- The loop over the extensions of a server. -/
def serverExtensions (data : Bytes) (extEnd pos : Nat) : Option (List UInt16) :=
  if pos + 4 ≤ extEnd then do
    let extType ← readBe16 data pos
    let extDataLen ← readBe16 data (pos + 2)
    let rest ← serverExtensions data extEnd (pos + 4 + extDataLen.toNat)
    return [extType].filter notGrease ++ rest
  else some []
termination_by extEnd - pos

def ja3sStr (serverVersion cipherSuite : UInt16) (extensions : List UInt16) : List Char :=
  [','].intercalate [decimal serverVersion.toNat, decimal cipherSuite.toNat, joinNumbers extensions]

def parseServerHello (data : Bytes) (buffers : StickyBuffers) :
    Option (ParseResult × StickyBuffers) :=
  if data.length < 39 then some (.incomplete, buffers)
  else do
    let serverVersion ← readBe16 data 4
    let sessionIdLen ← data[38]?
    let pos := 39 + sessionIdLen.toNat
    if data.length < pos + 3 then return (.incomplete, buffers)
    let cipherSuite ← readBe16 data pos
    let _compression ← data[pos + 2]?
    let pos := pos + 3
    let extensions ← (if pos + 2 ≤ data.length then do
        let extLen ← readBe16 data pos
        serverExtensions data (min (pos + 2 + extLen.toNat) data.length) (pos + 2)
      else some [])
    let ja3s := ja3sStr serverVersion cipherSuite extensions
    let buffers := buffers.insert "tls.ja3s" (utf8Bytes (md5Hex ja3s))
    return (.ok, buffers.insert "tls.ja3s_string" (utf8Bytes ja3s))

def parse (payload : Bytes) (direction : FlowDirection) (buffers : StickyBuffers) :
    Option (ParseResult × StickyBuffers) :=
  if payload.length < 6 then some (.incomplete, buffers)
  else do
    let handshakeType ← payload[5]?
    if direction = .toServer ∧ handshakeType = tlsClientHello then do
      let data ← sliceChecked 5 payload.length payload
      parseClientHello data buffers
    else if direction = .toClient ∧ handshakeType = tlsServerHello then do
      let data ← sliceChecked 5 payload.length payload
      parseServerHello data buffers
    else some (.ok, buffers)

theorem safe_readPairs (h : stop ≤ data.length) : Safe (readPairs data stop pos) fun _ => True :=
  ⟨_, readPairs_eq h, trivial⟩

theorem safe_parseSni (data : Bytes) : Safe (parseSni data) fun _ => True := by
  apply Safe.ite
  · intro _
    exact .pure trivial
  intro hlength
  apply (safe_getElem (by omega)).bind
  intro nameType _
  apply Safe.ite
  · intro _
    exact .pure trivial
  intro _
  apply (safe_readBe16 (by omega)).bind
  intro nameLen _
  apply Safe.ite
  · intro _
    exact .pure trivial
  intro hname
  apply (safe_sliceChecked (Nat.le_add_right _ _) (Nat.not_lt.mp hname)).bind
  intro name _
  exact .pure trivial

theorem safe_alpnProtocols (data : Bytes) (stop pos : Nat) :
    Safe (alpnProtocols data stop pos) fun _ => True := by
  fun_induction alpnProtocols data stop pos with
  | case1 pos hpos ih =>
    apply (safe_getElem hpos.2).bind
    intro protoLen _
    have hprotocol : Safe (if pos + 1 + protoLen.toNat ≤ data.length
        then (sliceChecked (pos + 1) (pos + 1 + protoLen.toNat) data).map fromUtf8
        else some none) fun _ => True := by
      apply Safe.ite
      · intro hnext
        obtain ⟨name, hname, _⟩ := safe_sliceChecked (Nat.le_add_right _ _) hnext
        rw [hname]
        exact .pure trivial
      · intro _
        exact .pure trivial
    apply hprotocol.bind
    intro protocol _
    apply (ih protoLen).bind
    intro rest _
    exact .pure trivial
  | case2 pos hpos => exact .pure trivial

theorem safe_parseAlpn (data : Bytes) : Safe (parseAlpn data) fun _ => True := by
  apply Safe.ite
  · intro _
    exact .pure trivial
  intro hlength
  apply (safe_readBe16 (by omega)).bind
  intro listLen _
  apply (safe_alpnProtocols data _ _).bind
  intro protocols _
  exact .pure trivial

theorem safe_parseExtension {data : Bytes} (hend : extEnd ≤ data.length)
    (hlen : pos + extLen ≤ extEnd) (extType : UInt16) (s : HelloState) :
    Safe (parseExtension data extEnd pos extType extLen s) fun _ => True := by
  have hbody : Safe (sliceChecked pos (pos + extLen) data) fun _ => True :=
    safe_sliceChecked (Nat.le_add_right _ _) (hlen.trans hend)
  apply Safe.ite
  · intro _
    apply hbody.bind
    intro body _
    apply (safe_parseSni body).bind
    intro sni _
    exact .pure trivial
  intro _
  apply Safe.ite
  · intro hgroups
    apply (safe_readBe16 (by omega)).bind
    intro listLen _
    apply (safe_readPairs (by omega)).bind
    intro curves _
    exact .pure trivial
  intro _
  apply Safe.ite
  · intro hformats
    apply (safe_getElem (by omega)).bind
    intro listLen _
    have hread : ∀ i ∈ (List.range listLen.toNat).filter fun i => pos + 1 + i < extEnd,
        Safe data[pos + 1 + i]? fun _ => True := by
      intro i hi
      have hbound := of_decide_eq_true (List.mem_filter.mp hi).2
      exact safe_getElem (by omega)
    apply (safe_mapM hread).bind
    intro formats _
    exact .pure trivial
  intro _
  apply Safe.ite
  · intro hversions
    apply (safe_getElem (by omega)).bind
    intro listLen _
    apply (safe_readPairs (by omega)).bind
    intro versions _
    exact .pure trivial
  intro _
  apply Safe.ite
  · intro halpn
    apply hbody.bind
    intro body _
    apply (safe_parseAlpn body).bind
    intro alpn _
    exact .pure trivial
  · intro _
    exact .pure trivial

theorem safe_parseExtensions {data : Bytes} (hend : extEnd ≤ data.length) (pos : Nat)
    (s : HelloState) : Safe (parseExtensions data extEnd pos s) fun _ => True := by
  fun_induction parseExtensions data extEnd pos s with
  | case1 pos s hpos ih =>
    apply (safe_readBe16 (by omega)).bind
    intro extType _
    apply (safe_readBe16 (by omega)).bind
    intro extLen _
    apply Safe.ite
    · intro _
      exact .pure trivial
    intro hlen
    apply (safe_parseExtension hend (by omega) extType _).bind
    intro s _
    exact ih extLen hlen s
  | case2 pos s hpos => exact .pure trivial

theorem safe_parseExtensionBlock (data : Bytes) (clientVersion : UInt16) (ciphers : List UInt16)
    (pos : Nat) (buffers : StickyBuffers) :
    Safe (parseExtensionBlock data clientVersion ciphers pos buffers) fun _ => True := by
  apply Safe.ite
  · intro _
    exact .pure trivial
  intro hpos
  apply (safe_readBe16 (Nat.not_lt.mp hpos)).bind
  intro extensionsLen _
  apply (safe_parseExtensions (Nat.min_le_right _ _) _ _).bind
  intro s _
  exact .pure trivial

theorem safe_parseCiphers (data : Bytes) (clientVersion : UInt16) (pos : Nat)
    (buffers : StickyBuffers) :
    Safe (parseCiphers data clientVersion pos buffers) fun _ => True := by
  apply Safe.ite
  · intro _
    exact .pure trivial
  intro hpos
  apply (safe_readBe16 (Nat.not_lt.mp hpos)).bind
  intro cipherSuitesLen _
  have hsuites : Safe (if pos + 2 + cipherSuitesLen.toNat ≤ data.length
      then readPairs data (pos + 2 + cipherSuitesLen.toNat) (pos + 2) else some [])
      fun _ => True := by
    apply Safe.ite
    · intro h
      exact safe_readPairs h
    · intro _
      exact .pure trivial
  apply hsuites.bind
  intro suites _
  apply Safe.ite
  · intro _
    exact .pure trivial
  intro hcomp
  apply (safe_getElem (Nat.not_le.mp hcomp)).bind
  intro compLen _
  exact safe_parseExtensionBlock data _ _ _ _

theorem safe_parseClientHello (data : Bytes) (buffers : StickyBuffers) :
    Safe (parseClientHello data buffers) fun _ => True := by
  apply Safe.ite
  · intro _
    exact .pure trivial
  intro hlength
  apply (safe_readBe16 (by omega)).bind
  intro clientVersion _
  apply Safe.ite
  · intro _
    exact .pure trivial
  intro hsession
  apply (safe_getElem (Nat.not_le.mp hsession)).bind
  intro sessionIdLen _
  exact safe_parseCiphers data _ _ _

theorem safe_serverExtensions {data : Bytes} (hend : extEnd ≤ data.length) (pos : Nat) :
    Safe (serverExtensions data extEnd pos) fun _ => True := by
  fun_induction serverExtensions data extEnd pos with
  | case1 pos hpos ih =>
    apply (safe_readBe16 (by omega)).bind
    intro extType _
    apply (safe_readBe16 (by omega)).bind
    intro extDataLen _
    apply (ih extDataLen).bind
    intro rest _
    exact .pure trivial
  | case2 pos hpos => exact .pure trivial

theorem safe_parseServerHello (data : Bytes) (buffers : StickyBuffers) :
    Safe (parseServerHello data buffers) fun _ => True := by
  apply Safe.ite
  · intro _
    exact .pure trivial
  intro hlength
  apply (safe_readBe16 (by omega)).bind
  intro serverVersion _
  apply (safe_getElem (Nat.not_lt.mp hlength)).bind
  intro sessionIdLen _
  apply Safe.ite
  · intro _
    exact .pure trivial
  intro hpos
  apply (safe_readBe16 (by omega)).bind
  intro cipherSuite _
  apply (safe_getElem (by omega)).bind
  intro _compression _
  have hextensions : Safe (if 39 + sessionIdLen.toNat + 3 + 2 ≤ data.length then do
        let extLen ← readBe16 data (39 + sessionIdLen.toNat + 3)
        serverExtensions data (min (39 + sessionIdLen.toNat + 3 + 2 + extLen.toNat) data.length)
          (39 + sessionIdLen.toNat + 3 + 2)
      else some []) fun _ => True := by
    apply Safe.ite
    · intro hblock
      apply (safe_readBe16 hblock).bind
      intro extLen _
      exact safe_serverExtensions (Nat.min_le_right _ _) _
    · intro _
      exact .pure trivial
  apply hextensions.bind
  intro extensions _
  exact .pure trivial

theorem safe_parse (payload : Bytes) (direction : FlowDirection) (buffers : StickyBuffers) :
    Safe (parse payload direction buffers) fun _ => True := by
  apply Safe.ite
  · intro _
    exact .pure trivial
  intro hlength
  have hdata : Safe (sliceChecked 5 payload.length payload) fun _ => True :=
    safe_sliceChecked (by omega) (Nat.le_refl _)
  apply (safe_getElem (Nat.not_lt.mp hlength)).bind
  intro handshakeType _
  apply Safe.ite
  · intro _
    apply hdata.bind
    intro data _
    exact safe_parseClientHello data buffers
  intro _
  apply Safe.ite
  · intro _
    apply hdata.bind
    intro data _
    exact safe_parseServerHello data buffers
  · intro _
    exact .pure trivial

theorem safe_probe (payload : Bytes) : Safe (probe payload) fun _ => True := by
  apply Safe.ite
  · intro _
    exact .pure trivial
  intro hlength
  apply (safe_getElem (by omega)).bind
  intro recordType _
  apply (safe_getElem (by omega)).bind
  intro major _
  apply (safe_getElem (by omega)).bind
  intro minor _
  exact .pure trivial

/-- No payload makes the parser read beyond it. -/
theorem parse_in_bounds (payload : Bytes) (direction : FlowDirection) (buffers : StickyBuffers) :
    (parse payload direction buffers).isSome = true :=
  (safe_parse payload direction buffers).isSome

end TlsParser

/-- The parser as the registry has it. It does not change the flow. -/
def tlsParser : ProtocolParser where
  appProto := .tls
  defaultPorts := TlsParser.defaultPorts
  probe payload _ := (TlsParser.probe payload).get (TlsParser.safe_probe payload).isSome
  parse flow payload direction buffers := (flow,
    ((TlsParser.parse payload direction buffers).get
      (TlsParser.safe_parse payload direction buffers).isSome).2)

end AiFw.Ids
