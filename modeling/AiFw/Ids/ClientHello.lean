import AiFw.Ids.TlsParser

namespace AiFw.Ids
open AiFw.Lib
open AiFw.Pf (decimal)
set_option autoImplicit true

structure WireExtension where
  extType : UInt16
  body : Bytes

def WireExtension.encode (e : WireExtension) : Bytes :=
  be16 e.extType ++ be16 (UInt16.ofNat e.body.length) ++ e.body

def extensionBlock (es : List WireExtension) : Bytes := es.flatMap WireExtension.encode

structure HelloFields where
  version : UInt16
  random : Bytes
  sessionId : Bytes
  ciphers : List UInt16
  compression : Bytes
  extensions : List WireExtension

namespace HelloFields

def cipherBytes (h : HelloFields) : Bytes := h.ciphers.flatMap be16

/-- The message after its type and its length. -/
def body (h : HelloFields) : Bytes :=
  be16 h.version ++ (h.random ++ (UInt8.ofNat h.sessionId.length :: (h.sessionId ++
    (be16 (UInt16.ofNat h.cipherBytes.length) ++ (h.cipherBytes ++
      (UInt8.ofNat h.compression.length :: (h.compression ++
        (be16 (UInt16.ofNat (extensionBlock h.extensions).length) ++
          extensionBlock h.extensions))))))))

def handshake (h : HelloFields) : Bytes :=
  TlsParser.tlsClientHello :: UInt8.ofNat (h.body.length / 65536) ::
    (be16 (UInt16.ofNat h.body.length) ++ h.body)

def record (h : HelloFields) (recordVersion : UInt16) : Bytes :=
  TlsParser.tlsHandshake :: (be16 recordVersion ++
    (be16 (UInt16.ofNat h.handshake.length) ++ h.handshake))

end HelloFields

/-- A hello whose lengths fit their fields. -/
structure ClientHello extends HelloFields where
  random_length : random.length = 32
  sessionId_fits : sessionId.length < 2 ^ 8
  compression_fits : compression.length < 2 ^ 8
  record_fits : toHelloFields.handshake.length < 2 ^ 16

namespace WireExtension

/-- The groups that are read: as many bytes as the list says, from the bytes after this body too. -/
def curves (e : WireExtension) (after : Bytes) : List UInt16 :=
  match e.body with
  | a :: b :: list =>
    if e.extType = 0x000a then pairs ((list ++ after).take (fromBe16 a b).toNat) else []
  | _ => []

def formats (e : WireExtension) (after : Bytes) : Bytes :=
  match e.body with
  | n :: list => if e.extType = 0x000b then (list ++ after).take n.toNat else []
  | [] => []

def sni (e : WireExtension) : Option Bytes :=
  if e.extType = TlsParser.extServerName then
    ((TlsParser.parseSni e.body).bind id).map utf8Bytes
  else none

end WireExtension

def blockCurves : List WireExtension → List UInt16
  | [] => []
  | e :: es => e.curves (extensionBlock es) ++ blockCurves es

def blockFormats : List WireExtension → Bytes
  | [] => []
  | e :: es => e.formats (extensionBlock es) ++ blockFormats es

theorem fromBe16_length (h : n < 2 ^ 16) :
    (fromBe16 (UInt16.ofNat n >>> 8).toUInt8 (UInt16.ofNat n).toUInt8).toNat = n := by
  rw [fromBe16_be16]
  exact UInt16.toNat_ofNat_of_lt' h

theorem sliceChecked_of_rest {data : List α} (h : Rest data stop pos (front ++ rest)) :
    sliceChecked pos (pos + front.length) data = some front := by
  rw [sliceChecked, if_pos ⟨Nat.le_add_right _ _, h.narrow.inside⟩, slice, h.narrow.same]

namespace WireExtension
variable {e : WireExtension}

theorem curves_eq_nil (h : ¬(e.extType = 0x000a ∧ 2 ≤ e.body.length)) (after : Bytes) :
    e.curves after = [] := by
  unfold curves
  split
  · next a b list hbody =>
    have hlength : 2 ≤ e.body.length := by
      rw [hbody]
      exact Nat.le_add_left _ _
    rw [if_neg fun htype => h ⟨htype, hlength⟩]
  · rfl

theorem formats_eq_nil (h : ¬(e.extType = 0x000b ∧ 1 ≤ e.body.length)) (after : Bytes) :
    e.formats after = [] := by
  unfold formats
  split
  · next n list hbody =>
    have hlength : 1 ≤ e.body.length := by
      rw [hbody]
      exact Nat.le_add_left _ _
    rw [if_neg fun htype => h ⟨htype, hlength⟩]
  · rfl

theorem sni_of_ne (h : e.extType ≠ TlsParser.extServerName) : e.sni = none := by
  rw [sni, if_neg h]

end WireExtension

namespace TlsParser

/-- The bytes that the loop over the point formats reads. -/
theorem mapM_getElem (h : Rest data stop pos rest) (n : Nat) :
    (((List.range n).filter fun i => pos + i < stop).mapM fun i => data[pos + i]?) =
      some (rest.take n) := by
  have hstop := h.length
  induction rest generalizing pos n with
  | nil =>
    have hnone : ((List.range n).filter fun i => pos + i < stop) = [] := by
      apply List.filter_eq_nil_iff.mpr
      intro i _
      rw [← hstop, decide_eq_true_iff, List.length_nil]
      omega
    rw [hnone, List.take_nil]
    rfl
  | cons a rest ih =>
    cases n with
    | zero => rfl
    | succ n =>
      have hrange : ((List.range (n + 1)).filter fun i => pos + i < stop) =
          0 :: ((List.range n).filter fun i => pos + 1 + i < stop).map Nat.succ := by
        have hfirst : decide (pos + 0 < stop) = true := by
          apply decide_eq_true
          rw [← hstop, List.length_cons]
          omega
        rw [List.range_succ_eq_map, List.filter_cons, if_pos hfirst, List.filter_map]
        have hnext : ((fun i => decide (pos + i < stop)) ∘ Nat.succ) =
            fun i => decide (pos + 1 + i < stop) := by
          funext i
          rw [Function.comp_apply, Nat.succ_eq_one_add, Nat.add_assoc]
        rw [hnext]
      have hplaces : ((fun i => data[pos + i]?) ∘ Nat.succ) = fun i => data[pos + 1 + i]? := by
        funext i
        rw [Function.comp_apply, Nat.succ_eq_one_add, Nat.add_assoc]
      have hread : data[pos + 0]? = some a := h.getElem
      rw [hrange, List.mapM_cons, hread, List.mapM_map, hplaces, ih h.next n h.next.length]
      rfl

/-- What the loop does with one extension. -/
structure ExtensionRead (e : WireExtension) (after : Bytes) (s s' : HelloState) : Prop where
  extensions : s'.extensions = s.extensions
  curves : s'.ellipticCurves = s.ellipticCurves ++ (e.curves after).filter notGrease
  formats : s'.ecPointFormats = s.ecPointFormats ++ e.formats after
  sni : s'.buffers.lookup "tls.sni" = e.sni.or (s.buffers.lookup "tls.sni")

/-- Of an extension without lists nothing but its text is kept. -/
theorem ExtensionRead.insert {e : WireExtension}
    (hgroups : ¬(e.extType = 0x000a ∧ 2 ≤ e.body.length))
    (hformats : ¬(e.extType = 0x000b ∧ 1 ≤ e.body.length))
    (h : (s.insert name value).buffers.lookup "tls.sni" = e.sni.or (s.buffers.lookup "tls.sni")) :
    ExtensionRead e after s (s.insert name value) where
  extensions := by cases value <;> rfl
  curves := by
    rw [e.curves_eq_nil hgroups, List.filter_nil, List.append_nil]
    cases value <;> rfl
  formats := by
    rw [e.formats_eq_nil hformats, List.append_nil]
    cases value <;> rfl
  sni := h

theorem lookup_insert_ne (s : HelloState) (value : Option (List Char)) (h : name ≠ "tls.sni") :
    (s.insert name value).buffers.lookup "tls.sni" = s.buffers.lookup "tls.sni" := by
  cases value with
  | none => rfl
  | some text => exact AList.lookup_insert_ne h.symm

theorem parseExtension_reads {data : Bytes} {e : WireExtension}
    (h : Rest data extEnd pos (e.body ++ after)) (s : HelloState) :
    Safe (parseExtension data extEnd pos e.extType e.body.length s) (ExtensionRead e after s) := by
  have hslice := sliceChecked_of_rest h
  have hlength := h.skip.reached
  have hinside := h.inside
  apply Safe.ite
  · intro hname
    obtain ⟨sni, hsni, _⟩ := safe_parseSni e.body
    have hgroups : ¬(e.extType = 0x000a ∧ 2 ≤ e.body.length) := by
      rw [hname]
      exact fun h => absurd h.1 (by decide)
    have hformats : ¬(e.extType = 0x000b ∧ 1 ≤ e.body.length) := by
      rw [hname]
      exact fun h => absurd h.1 (by decide)
    rw [hslice, Option.bind_eq_bind, Option.bind_some, hsni]
    refine .pure (.insert hgroups hformats ?_)
    rw [WireExtension.sni, if_pos hname, hsni]
    cases sni with
    | none => rfl
    | some name => exact AList.lookup_insert _
  intro hname
  have hsni : s.buffers.lookup "tls.sni" = e.sni.or (s.buffers.lookup "tls.sni") := by
    rw [e.sni_of_ne hname]
    rfl
  apply Safe.ite
  · intro hgroups
    obtain ⟨a, b, list, hbody⟩ : ∃ a b list, e.body = a :: b :: list := by
      match e.body, hgroups.2 with
      | a :: b :: list, _ => exact ⟨a, b, list, rfl⟩
    have hformats : ¬(e.extType = 0x000b ∧ 1 ≤ e.body.length) := by
      rw [hgroups.1]
      exact fun h => absurd h.1 (by decide)
    rw [hbody, List.cons_append, List.cons_append] at h
    have hlist := h.next.next.readPairs (fromBe16 a b).toNat
    rw [h.readBe16, Option.bind_eq_bind, Option.bind_some, hlist]
    refine .pure ⟨rfl, ?_, ?_, hsni⟩
    · rw [WireExtension.curves, hbody]
      simp only [if_pos hgroups.1]
    · rw [e.formats_eq_nil hformats, List.append_nil]
  intro hgroups
  apply Safe.ite
  · intro hformats
    obtain ⟨n, list, hbody⟩ : ∃ n list, e.body = n :: list := by
      match e.body, hformats.2 with
      | n :: list, _ => exact ⟨n, list, rfl⟩
    rw [hbody, List.cons_append] at h
    have hlist := mapM_getElem h.next n.toNat
    rw [h.getElem, Option.bind_eq_bind, Option.bind_some, hlist]
    refine .pure ⟨rfl, ?_, ?_, hsni⟩
    · rw [e.curves_eq_nil hgroups, List.filter_nil, List.append_nil]
    · rw [WireExtension.formats, hbody]
      simp only [if_pos hformats.1]
  intro hformats
  apply Safe.ite
  · intro hversions
    apply (safe_getElem (by omega)).bind
    intro listLen _
    apply (safe_readPairs (by omega)).bind
    intro versions _
    refine .pure (.insert hgroups hformats ?_)
    rw [lookup_insert_ne s _ (by decide)]
    exact hsni
  intro _
  apply Safe.ite
  · intro _
    rw [hslice, Option.bind_eq_bind, Option.bind_some]
    apply (safe_parseAlpn e.body).bind
    intro alpn _
    refine .pure (.insert hgroups hformats ?_)
    rw [lookup_insert_ne s _ (by decide)]
    exact hsni
  intro _
  refine .pure ⟨rfl, ?_, ?_, hsni⟩
  · rw [e.curves_eq_nil hgroups, List.filter_nil, List.append_nil]
  · rw [e.formats_eq_nil hformats, List.append_nil]

/-- What the loop has collected after the extensions of a block. -/
structure BlockRead (es : List WireExtension) (s s' : HelloState) : Prop where
  extensions : s'.extensions =
    s.extensions ++ (es.map WireExtension.extType).filter notGrease
  curves : s'.ellipticCurves = s.ellipticCurves ++ (blockCurves es).filter notGrease
  formats : s'.ecPointFormats = s.ecPointFormats ++ blockFormats es
  sni : s'.buffers.lookup "tls.sni" =
    es.foldl (fun found e => e.sni.or found) (s.buffers.lookup "tls.sni")

theorem length_le_extensionBlock {e : WireExtension} {es : List WireExtension} (h : e ∈ es) :
    e.body.length < (extensionBlock es).length := by
  induction es with
  | nil => cases h
  | cons e' es ih =>
    rw [extensionBlock, List.flatMap_cons, List.length_append]
    cases h with
    | head =>
      rw [WireExtension.encode, List.length_append, List.length_append]
      have htype : (be16 e.extType).length = 2 := rfl
      omega
    | tail _ h =>
      have hrest := ih h
      rw [extensionBlock] at hrest
      omega

theorem BlockRead.nil (s : HelloState) : BlockRead [] s s where
  extensions := (List.append_nil _).symm
  curves := (List.append_nil _).symm
  formats := (List.append_nil _).symm
  sni := rfl

/-- One extension more in front of a block. -/
theorem BlockRead.cons {e : WireExtension} {es : List WireExtension}
    (he : ExtensionRead e (extensionBlock es)
      { s with extensions := s.extensions ++ [e.extType].filter notGrease } s₁)
    (hes : BlockRead es s₁ s₂) : BlockRead (e :: es) s s₂ where
  extensions := by
    rw [hes.extensions, he.extensions, List.append_assoc, ← List.filter_append]
    rfl
  curves := by
    rw [hes.curves, he.curves, List.append_assoc, ← List.filter_append]
    rfl
  formats := by
    rw [hes.formats, he.formats, List.append_assoc]
    rfl
  sni := by
    rw [hes.sni, he.sni, List.foldl_cons]

theorem parseExtensions_reads {data : Bytes} {es : List WireExtension}
    (h : Rest data extEnd pos (extensionBlock es)) (hfits : ∀ e ∈ es, e.body.length < 2 ^ 16)
    (s : HelloState) : Safe (parseExtensions data extEnd pos s) (BlockRead es s) := by
  induction es generalizing pos s with
  | nil =>
    have hend := h.length
    have hdone : ¬pos + 4 ≤ extEnd := by
      rw [← hend]
      exact Nat.not_le.mpr (Nat.lt_add_of_pos_right (by decide))
    rw [parseExtensions, if_neg hdone]
    exact .pure (.nil s)
  | cons e es ih =>
    obtain ⟨he, hes⟩ := List.forall_mem_cons.mp hfits
    have hlen : (UInt16.ofNat e.body.length).toNat = e.body.length := UInt16.toNat_ofNat_of_lt' he
    rw [extensionBlock, List.flatMap_cons, WireExtension.encode, List.append_assoc,
      List.append_assoc] at h
    obtain ⟨htype, hrest⟩ := h.word
    obtain ⟨hlength, hbody⟩ := hrest.word
    have hpos := hbody.reached
    have hnext := hbody.skip
    have hmore : ¬pos + 4 + e.body.length > extEnd := Nat.not_lt.mpr hnext.reached
    rw [parseExtensions, if_pos hpos, htype, Option.bind_eq_bind, Option.bind_some, hlength,
      Option.bind_some]
    simp only [hlen, if_neg hmore]
    obtain ⟨s₁, hs₁, hread⟩ := parseExtension_reads hbody
      { s with extensions := s.extensions ++ [e.extType].filter notGrease }
    rw [hs₁, Option.bind_eq_bind, Option.bind_some]
    exact (ih hnext hes s₁).mono fun _ hblock => .cons hread hblock

end TlsParser

namespace ClientHello
variable (h : ClientHello)

theorem cipherBytes_fit : h.cipherBytes.length < 2 ^ 16 := by
  apply Nat.lt_of_le_of_lt _ h.record_fits
  simp only [HelloFields.handshake, HelloFields.body, List.length_cons, List.length_append]
  omega

theorem extensionBlock_fits : (extensionBlock h.extensions).length < 2 ^ 16 := by
  apply Nat.lt_of_le_of_lt _ h.record_fits
  simp only [HelloFields.handshake, HelloFields.body, List.length_cons, List.length_append]
  omega

end ClientHello

namespace TlsParser

/-- What the parser gives for a hello whose loop ends in some state. -/
structure HelloRead (h : HelloFields) (buffers : StickyBuffers)
    (out : ParseResult × StickyBuffers) : Prop where
  ok : out.1 = .ok
  buffers : ∃ s, BlockRead h.extensions ⟨[], [], [], buffers⟩ s ∧
    out.2 = (s.buffers.insert "tls.ja3" (utf8Bytes (md5Hex (ja3Str h.version
      (h.ciphers.filter notGrease) s.extensions s.ellipticCurves s.ecPointFormats)))).insert
      "tls.ja3_string" (utf8Bytes (ja3Str h.version (h.ciphers.filter notGrease) s.extensions
        s.ellipticCurves s.ecPointFormats))

theorem parseExtensionBlock_reads {data : Bytes} (h : ClientHello)
    (hrest : Rest data data.length pos (be16 (UInt16.ofNat (extensionBlock h.extensions).length) ++
      (extensionBlock h.extensions ++ trailing))) (buffers : StickyBuffers) :
    Safe (parseExtensionBlock data h.version (h.ciphers.filter notGrease) pos buffers)
      (HelloRead h.toHelloFields buffers) := by
  obtain ⟨hlen, hblock⟩ := hrest.word
  have hfits := h.extensionBlock_fits
  have hmore : ¬data.length < pos + 2 := Nat.not_lt.mpr hblock.reached
  rw [parseExtensionBlock, if_neg hmore, hlen, Option.bind_eq_bind, Option.bind_some,
    UInt16.toNat_ofNat_of_lt' hfits]
  have hend : min (pos + 2 + (extensionBlock h.extensions).length) data.length =
      pos + 2 + (extensionBlock h.extensions).length := Nat.min_eq_left hblock.skip.reached
  simp only [hend]
  obtain ⟨s, hs, hread⟩ := parseExtensions_reads hblock.narrow
    (fun e he => (length_le_extensionBlock he).trans hfits) ⟨[], [], [], buffers⟩
  rw [hs]
  exact .pure ⟨rfl, s, hread, rfl⟩

theorem parseCiphers_reads {data : Bytes} (h : ClientHello)
    (hrest : Rest data data.length pos (be16 (UInt16.ofNat h.cipherBytes.length) ++
      (h.cipherBytes ++ (UInt8.ofNat h.compression.length :: (h.compression ++
        (be16 (UInt16.ofNat (extensionBlock h.extensions).length) ++
          (extensionBlock h.extensions ++ trailing))))))) (buffers : StickyBuffers) :
    Safe (parseCiphers data h.version pos buffers) (HelloRead h.toHelloFields buffers) := by
  obtain ⟨hlen, hciphers⟩ := hrest.word
  have hmore : ¬data.length < pos + 2 := Nat.not_lt.mpr hciphers.reached
  have hcomp := hciphers.skip
  have hend : ¬data.length ≤ pos + 2 + h.cipherBytes.length := by
    rw [← hcomp.length, List.length_cons]
    omega
  have hpairs : readPairs data (pos + 2 + h.cipherBytes.length) (pos + 2) = _ :=
    readPairs_eq hciphers.narrow.inside
  rw [hciphers.narrow.same, HelloFields.cipherBytes, pairs_be16, ← HelloFields.cipherBytes]
    at hpairs
  rw [parseCiphers, if_neg hmore, hlen, Option.bind_eq_bind, Option.bind_some,
    UInt16.toNat_ofNat_of_lt' h.cipherBytes_fit]
  simp only [if_pos hcomp.reached, hpairs, if_neg hend, hcomp.getElem, Option.bind_eq_bind,
    Option.bind_some, UInt8.toNat_ofNat_of_lt' h.compression_fits]
  exact parseExtensionBlock_reads h hcomp.next.skip buffers

theorem parseClientHello_reads (h : ClientHello) (trailing : Bytes) (buffers : StickyBuffers) :
    Safe (parseClientHello (h.handshake ++ trailing) buffers) (HelloRead h.toHelloFields
      (buffers.insert "tls.version" (utf8Bytes (versionStr h.version)))) := by
  have hdata : h.handshake ++ trailing = tlsClientHello :: UInt8.ofNat (h.body.length / 65536) ::
      (be16 (UInt16.ofNat h.body.length) ++ (be16 h.version ++ (h.random ++
        (UInt8.ofNat h.sessionId.length :: (h.sessionId ++
          (be16 (UInt16.ofNat h.cipherBytes.length) ++ (h.cipherBytes ++
            (UInt8.ofNat h.compression.length :: (h.compression ++
              (be16 (UInt16.ofNat (extensionBlock h.extensions).length) ++
                (extensionBlock h.extensions ++ trailing))))))))))) := by
    simp only [HelloFields.handshake, HelloFields.body, List.cons_append, List.append_assoc]
  have hstart := Rest.start (h.handshake ++ trailing)
  generalize h.handshake ++ trailing = data at hdata hstart ⊢
  rw [hdata] at hstart
  have hversion := hstart.next.next.word.2
  rw [← hdata] at hversion
  have hsession := hversion.word.2.skip
  rw [h.random_length] at hsession
  have hlength : ¬data.length < 38 := Nat.not_lt.mpr hsession.reached
  have hmore : ¬data.length ≤ 38 := by
    rw [← hsession.length, List.length_cons]
    omega
  have hread : readBe16 data 4 = some h.version := hversion.word.1
  have hsid : data[38]? = some (UInt8.ofNat h.sessionId.length) := hsession.getElem
  rw [parseClientHello, if_neg hlength, hread, Option.bind_eq_bind, Option.bind_some, if_neg hmore,
    hsid, Option.bind_eq_bind, Option.bind_some, UInt8.toNat_ofNat_of_lt' h.sessionId_fits]
  exact parseCiphers_reads h hsession.next.skip _

/-- A record is read as the hello that it carries. -/
theorem parse_reads (h : ClientHello) (recordVersion : UInt16) (trailing : Bytes)
    (buffers : StickyBuffers) :
    Safe (parse (h.record recordVersion ++ trailing) .toServer buffers) (HelloRead h.toHelloFields
      (buffers.insert "tls.version" (utf8Bytes (versionStr h.version)))) := by
  have hrecord : h.record recordVersion ++ trailing = tlsHandshake :: (be16 recordVersion ++
      (be16 (UInt16.ofNat h.handshake.length) ++ (h.handshake ++ trailing))) := by
    simp only [HelloFields.record, List.cons_append, List.append_assoc]
  have htype : (h.record recordVersion ++ trailing)[5]? = some tlsClientHello := by
    rw [hrecord]
    rfl
  have hlength : ¬(h.record recordVersion ++ trailing).length < 6 := by
    have hlt := (List.getElem?_eq_some_iff.mp htype).1
    omega
  have hslice : sliceChecked 5 (h.record recordVersion ++ trailing).length
      (h.record recordVersion ++ trailing) = some (h.handshake ++ trailing) := by
    rw [sliceChecked, if_pos ⟨by omega, Nat.le_refl _⟩, slice, List.take_length, hrecord]
    rfl
  rw [parse, if_neg hlength, htype, Option.bind_eq_bind, Option.bind_some, if_pos ⟨rfl, rfl⟩,
    hslice, Option.bind_eq_bind, Option.bind_some]
  exact parseClientHello_reads h trailing buffers

end TlsParser

/-- An extension with its standard body; those without one keep their bytes. -/
inductive HelloExtension where
  | serverName (host : List Char)
  | supportedGroups (groups : List UInt16)
  | ecPointFormats (formats : Bytes) (fits : formats.length < 2 ^ 8)
  | other (extType : UInt16) (body : Bytes) (plain : !([0x0000, 0x000a, 0x000b].contains extType))

namespace HelloExtension

def wire : HelloExtension → WireExtension
  | serverName host => ⟨0x0000, be16 (UInt16.ofNat ((utf8Bytes host).length + 3)) ++
      (0 :: (be16 (UInt16.ofNat (utf8Bytes host).length) ++ utf8Bytes host))⟩
  | supportedGroups groups =>
    ⟨0x000a, be16 (UInt16.ofNat (groups.flatMap be16).length) ++ groups.flatMap be16⟩
  | ecPointFormats formats _ => ⟨0x000b, UInt8.ofNat formats.length :: formats⟩
  | other extType body _ => ⟨extType, body⟩

def host : HelloExtension → Option (List Char)
  | serverName host => some host
  | _ => none

def groups : HelloExtension → List UInt16
  | supportedGroups groups => groups
  | _ => []

def formats : HelloExtension → Bytes
  | ecPointFormats formats _ => formats
  | _ => []

end HelloExtension

/-- A well-formed hello: each of the three extensions is there at most once. -/
structure StandardHello extends ClientHello where
  standard : List HelloExtension
  extensions_eq : extensions = standard.map HelloExtension.wire
  once : ∀ extType ∈ [0x0000, 0x000a, 0x000b],
    (extensions.map WireExtension.extType).count extType ≤ 1

namespace StandardHello
variable (h : StandardHello)

/-- The values of two bytes that stand for nothing. -/
def IsGrease (v : UInt16) : Prop := v &&& 0x0f0f = 0x0a0a

instance : DecidablePred IsGrease := fun v => inferInstanceAs (Decidable (v &&& 0x0f0f = 0x0a0a))

def dashed (values : List Nat) : List Char := ['-'].intercalate (values.map decimal)

def withoutGrease (values : List UInt16) : List Nat :=
  (values.filter fun v => ¬IsGrease v).map UInt16.toNat

/-- Version, ciphers, extensions, groups and point formats of the hello. -/
def ja3String : List Char :=
  [','].intercalate [decimal h.version.toNat, dashed (withoutGrease h.ciphers),
    dashed (withoutGrease (h.extensions.map WireExtension.extType)),
    dashed (withoutGrease (h.standard.flatMap HelloExtension.groups)),
    dashed ((h.standard.flatMap HelloExtension.formats).map UInt8.toNat)]

end StandardHello

theorem parseSni_serverName (host : List Char)
    (hfits : (HelloExtension.serverName host).wire.body.length < 2 ^ 16) :
    TlsParser.parseSni (HelloExtension.serverName host).wire.body = some (some host) := by
  have hstart := Rest.start (HelloExtension.serverName host).wire.body
  generalize hdata : (HelloExtension.serverName host).wire.body = data at hfits hstart ⊢
  have hbody : data = be16 (UInt16.ofNat ((utf8Bytes host).length + 3)) ++
      (0 :: (be16 (UInt16.ofNat (utf8Bytes host).length) ++ (utf8Bytes host ++ []))) := by
    rw [List.append_nil, ← hdata]
    rfl
  have hname : (utf8Bytes host).length < 2 ^ 16 := by
    rw [hbody, List.append_nil] at hfits
    simp only [List.length_append, List.length_cons] at hfits
    omega
  have htype : Rest data data.length 2 (0 :: (be16 (UInt16.ofNat (utf8Bytes host).length) ++
      (utf8Bytes host ++ []))) := by
    rw [hbody] at hstart ⊢
    exact hstart.word.2
  obtain ⟨hlen, hrest⟩ := htype.next.word
  have hshort : ¬data.length < 5 := Nat.not_lt.mpr hrest.reached
  have hend : ¬data.length < 5 + (utf8Bytes host).length := Nat.not_lt.mpr hrest.skip.reached
  have hslice := sliceChecked_of_rest hrest
  rw [TlsParser.parseSni, if_neg hshort, htype.getElem, Option.bind_eq_bind, Option.bind_some,
    if_neg (not_not.mpr rfl), hlen, Option.bind_eq_bind, Option.bind_some,
    UInt16.toNat_ofNat_of_lt' hname, if_neg hend, hslice, Option.bind_eq_bind, Option.bind_some,
    utf8Bytes, fromUtf8_encoded]
  rfl

theorem ne_of_plain {extType : UInt16}
    (plain : !([0x0000, 0x000a, 0x000b].contains extType)) :
    extType ≠ 0x0000 ∧ extType ≠ 0x000a ∧ extType ≠ 0x000b := by
  simpa using plain

theorem sni_wire (e : HelloExtension) (hfits : e.wire.body.length < 2 ^ 16) :
    e.wire.sni = e.host.map utf8Bytes := by
  cases e with
  | serverName host =>
    have htype : (HelloExtension.serverName host).wire.extType = TlsParser.extServerName := rfl
    rw [WireExtension.sni, if_pos htype, parseSni_serverName host hfits]
    rfl
  | supportedGroups groups => rfl
  | ecPointFormats formats fits => rfl
  | other extType body plain => exact WireExtension.sni_of_ne (ne_of_plain plain).1

theorem curves_wire (e : HelloExtension) (hfits : e.wire.body.length < 2 ^ 16) (after : Bytes) :
    e.wire.curves after = e.groups := by
  cases e with
  | serverName host => rfl
  | supportedGroups groups =>
    have hlength : (groups.flatMap be16).length < 2 ^ 16 := by
      apply Nat.lt_of_le_of_lt _ hfits
      rw [HelloExtension.wire, List.length_append]
      exact Nat.le_add_left _ _
    have hlist : (HelloExtension.supportedGroups groups).wire.curves after =
        pairs ((groups.flatMap be16 ++ after).take (fromBe16
          (UInt16.ofNat (groups.flatMap be16).length >>> 8).toUInt8
            (UInt16.ofNat (groups.flatMap be16).length).toUInt8).toNat) := rfl
    rw [hlist, fromBe16_length hlength, List.take_left, pairs_be16]
    rfl
  | ecPointFormats formats fits =>
    have htype : (HelloExtension.ecPointFormats formats fits).wire.extType = 0x000b := rfl
    apply WireExtension.curves_eq_nil
    rw [htype]
    exact fun h => absurd h.1 (by decide)
  | other extType body plain =>
    exact WireExtension.curves_eq_nil (fun h => (ne_of_plain plain).2.1 h.1) after

theorem formats_wire (e : HelloExtension) (after : Bytes) : e.wire.formats after = e.formats := by
  cases e with
  | serverName host => rfl
  | supportedGroups groups => rfl
  | ecPointFormats formats fits =>
    have hlist : (HelloExtension.ecPointFormats formats fits).wire.formats after =
        (formats ++ after).take (UInt8.ofNat formats.length).toNat := rfl
    rw [hlist, UInt8.toNat_ofNat_of_lt' fits, List.take_left]
    rfl
  | other extType body plain =>
    exact WireExtension.formats_eq_nil (fun h => (ne_of_plain plain).2.2 h.1) after

theorem blockCurves_wire {es : List HelloExtension}
    (hfits : ∀ e ∈ es, e.wire.body.length < 2 ^ 16) :
    blockCurves (es.map HelloExtension.wire) = es.flatMap HelloExtension.groups := by
  induction es with
  | nil => rfl
  | cons e es ih =>
    obtain ⟨he, hes⟩ := List.forall_mem_cons.mp hfits
    rw [List.map_cons, blockCurves, curves_wire e he, ih hes, List.flatMap_cons]

theorem blockFormats_wire (es : List HelloExtension) :
    blockFormats (es.map HelloExtension.wire) = es.flatMap HelloExtension.formats := by
  induction es with
  | nil => rfl
  | cons e es ih => rw [List.map_cons, blockFormats, formats_wire, ih, List.flatMap_cons]

/-- The only value that is found is the one that is kept. -/
theorem foldl_or_of_only {f : α → Option β} {l : List α} (h : ∀ a ∈ l, ∀ c, f a = some c → c = b)
    (hfound : found = some b ∨ ∃ a ∈ l, f a = some b) :
    l.foldl (fun found a => (f a).or found) found = some b := by
  induction l generalizing found with
  | nil =>
    obtain hfound | ⟨a, ha, _⟩ := hfound
    · exact hfound
    · cases ha
  | cons a l ih =>
    obtain ⟨ha, hl⟩ := List.forall_mem_cons.mp h
    rw [List.foldl_cons]
    apply ih hl
    cases hfa : f a with
    | none =>
      obtain hfound | ⟨a', ha', hb⟩ := hfound
      · exact .inl hfound
      · rcases List.mem_cons.mp ha' with rfl | hmem
        · rw [hfa] at hb
          cases hb
        · exact .inr ⟨a', hmem, hb⟩
    | some c =>
      obtain rfl := ha c hfa
      exact .inl rfl

theorem eq_of_countP_le_one {p : α → Bool} {l : List α} (h : l.countP p ≤ 1) (ha : a ∈ l)
    (hpa : p a = true) (hb : b ∈ l) (hpb : p b = true) : a = b := by
  rw [List.countP_eq_length_filter] at h
  have hamem := List.mem_filter.mpr ⟨ha, hpa⟩
  have hbmem := List.mem_filter.mpr ⟨hb, hpb⟩
  obtain ⟨c, hc⟩ := List.length_eq_one_iff.mp
    (Nat.le_antisymm h (List.length_pos_of_mem hamem))
  rw [hc, List.mem_singleton] at hamem hbmem
  rw [hamem, hbmem]

namespace StandardHello
variable (h : StandardHello)

theorem wire_fits : ∀ e ∈ h.standard, e.wire.body.length < 2 ^ 16 := by
  intro e he
  have hmem : e.wire ∈ h.extensions := by
    rw [h.extensions_eq]
    exact List.mem_map_of_mem he
  exact (TlsParser.length_le_extensionBlock hmem).trans h.extensionBlock_fits

theorem serverName_only (hhost : .serverName host ∈ h.standard) (he : e ∈ h.standard)
    (hother : e.host = some other) : other = host := by
  have honce := h.once 0x0000 List.mem_cons_self
  rw [h.extensions_eq, List.map_map, List.count_eq_countP, List.countP_map] at honce
  cases e with
  | serverName name =>
    have heq := eq_of_countP_le_one honce hhost rfl he rfl
    cases heq
    cases hother
    rfl
  | supportedGroups groups => cases hother
  | ecPointFormats formats fits => cases hother
  | other extType body plain => cases hother

theorem joinNumbers_filter (values : List UInt16) :
    TlsParser.joinNumbers (values.filter TlsParser.notGrease) = dashed (withoutGrease values) := by
  have hfilter : values.filter TlsParser.notGrease = values.filter fun v => ¬IsGrease v := by
    apply List.filter_congr
    intro v _
    exact (decide_not (p := v &&& 0x0f0f = 0x0a0a)).symm
  rw [hfilter, TlsParser.joinNumbers, dashed, withoutGrease, List.map_map]
  rfl

/-- Parsing inverts serialising. -/
theorem parse_record (recordVersion : UInt16) (buffers : StickyBuffers) :
    ∃ buffers', TlsParser.parse (h.record recordVersion) .toServer buffers = some (.ok, buffers') ∧
      (∀ host, .serverName host ∈ h.standard →
        buffers'.lookup "tls.sni" = some (utf8Bytes host)) ∧
      buffers'.lookup "tls.ja3_string" = some (utf8Bytes h.ja3String) := by
  have hparse := TlsParser.parse_reads h.toClientHello recordVersion [] buffers
  rw [List.append_nil] at hparse
  obtain ⟨⟨result, buffers'⟩, hparse, rfl, s, hblock, rfl⟩ := hparse
  refine ⟨_, hparse, ?_, ?_⟩
  · intro host hhost
    rw [AList.lookup_insert_ne (by decide), AList.lookup_insert_ne (by decide), hblock.sni,
      h.extensions_eq, List.foldl_map]
    apply foldl_or_of_only
    · intro e he c hc
      rw [sni_wire e (h.wire_fits e he), Option.map_eq_some_iff] at hc
      obtain ⟨other, hother, rfl⟩ := hc
      rw [h.serverName_only hhost he hother]
    · right
      refine ⟨_, hhost, ?_⟩
      rw [sni_wire _ (h.wire_fits _ hhost)]
      rfl
  · rw [AList.lookup_insert, hblock.extensions, hblock.curves, hblock.formats]
    have hja3 : TlsParser.ja3Str h.version (h.ciphers.filter TlsParser.notGrease)
        ([] ++ (h.extensions.map WireExtension.extType).filter TlsParser.notGrease)
        ([] ++ (blockCurves h.extensions).filter TlsParser.notGrease)
        ([] ++ blockFormats h.extensions) = h.ja3String := by
      have hcurves : blockCurves h.extensions = h.standard.flatMap HelloExtension.groups := by
        rw [h.extensions_eq, blockCurves_wire h.wire_fits]
      have hformats : blockFormats h.extensions = h.standard.flatMap HelloExtension.formats := by
        rw [h.extensions_eq, blockFormats_wire]
      rw [TlsParser.ja3Str, ja3String, joinNumbers_filter, List.nil_append, joinNumbers_filter,
        List.nil_append, joinNumbers_filter, List.nil_append, hcurves, hformats]
      simp only [dashed, TlsParser.joinDash, List.map_map]
      rfl
    rw [hja3]

def browserExtensions : List HelloExtension :=
  [.other 0x1a1a [] rfl, .serverName "example.com".toList,
    .supportedGroups [0x2a2a, 0x001d, 0x0017], .ecPointFormats [0, 1, 2] (by decide),
    .other 0x002b [0x02, 0x03, 0x04] rfl]

/-- A hello with the three extensions, and with values that stand for nothing among its ciphers,
extensions and groups. -/
def browserHello : StandardHello where
  version := 0x0303
  random := List.replicate 32 7
  sessionId := [1, 2, 3]
  ciphers := [0x0a0a, 0x1301, 0x1302]
  compression := [1, 0]
  extensions := browserExtensions.map HelloExtension.wire
  random_length := List.length_replicate
  sessionId_fits := by decide
  compression_fits := by decide
  record_fits := by decide +kernel
  standard := browserExtensions
  extensions_eq := rfl
  once := forall_mem_of_all (by decide +kernel)

theorem parse_record_browser : ∃ buffers',
    TlsParser.parse (browserHello.record 0x0301) .toServer ∅ = some (.ok, buffers') ∧
      buffers'.lookup "tls.sni" = some (utf8Bytes "example.com".toList) ∧
      buffers'.lookup "tls.ja3_string" =
        some (utf8Bytes "771,4865-4866,0-10-11-43,29-23,0-1-2".toList) := by
  obtain ⟨buffers', hparse, hsni, hja3⟩ := parse_record browserHello 0x0301 ∅
  have hstring : browserHello.ja3String = "771,4865-4866,0-10-11-43,29-23,0-1-2".toList := by
    decide +kernel
  rw [hstring] at hja3
  exact ⟨buffers', hparse, hsni _ (List.mem_cons_of_mem _ List.mem_cons_self), hja3⟩

end StandardHello

end AiFw.Ids
