import AiFw.Ids.TlsParser

namespace AiFw.Ids
open AiFw.Lib
open AiFw.Pf (decimal)
set_option autoImplicit true

namespace DnsParser

def defaultPorts : List UInt16 := [53, 5353]

def probe (payload : Bytes) : Option ProbeResult :=
  if payload.length < 12 then some (if payload.length ≥ 4 then .needMore else .noMatch)
  else do
    let flags ← readBe16 payload 2
    let qdcount ← readBe16 payload 4
    let opcode := (flags >>> 11) &&& 0x0f
    return if opcode ≤ 2 ∧ (qdcount > 0 ∨ flags &&& 0x8000 ≠ 0) ∧ qdcount ≤ 100 then .isMatch
      else .noMatch

/-- The variables of the loop over the labels. -/
structure NameState where
  pos : Nat
  labels : List (List Char)
  endPos : Option Nat
  jumps : Nat

/-- One round of the loop. -/
def nameRound (data : Bytes) (s : NameState) :
    Option (Round NameState (Option (List Char × Nat))) :=
  if s.pos ≥ data.length ∨ s.jumps > 10 then some (.done none)
  else do
    let len ← data[s.pos]?
    if len = 0 then
      return .done (some (['.'].intercalate s.labels, s.endPos.getD (s.pos + 1)))
    if len &&& 0xc0 = 0xc0 then
      if s.pos + 1 ≥ data.length then return .done none
      let low ← data[s.pos + 1]?
      let offset := (fromBe16 (len &&& 0x3f) low).toNat
      return .next ⟨offset, s.labels, some (s.endPos.getD (s.pos + 2)), s.jumps + 1⟩
    let next := s.pos + 1 + len.toNat
    if next > data.length then return .done none
    let bytes ← sliceChecked (s.pos + 1) next data
    match fromUtf8 bytes with
    | some label => return .next ⟨next, s.labels ++ [label], s.endPos, s.jumps⟩
    | none => return .done none

/-- Jumps count more than all the places between. -/
def nameRank (data : Bytes) (s : NameState) : Nat :=
  (11 - s.jumps) * (data.length + 1) + (data.length - s.pos)

/-- What a round does: it ends with a name or without one, follows a pointer or passes a label. -/
inductive NameStep (data : Bytes) (s : NameState) :
    Round NameState (Option (List Char × Nat)) → Prop
  | invalid : NameStep data s (.done none)
  | root (name : List Char) (h : s.pos < data.length) :
      NameStep data s (.done (some (name, s.endPos.getD (s.pos + 1))))
  | pointer (offset : Nat) (h : s.pos + 2 ≤ data.length) (hjumps : s.jumps ≤ 10) :
      NameStep data s (.next ⟨offset, s.labels, some (s.endPos.getD (s.pos + 2)), s.jumps + 1⟩)
  | label (next : Nat) (labels : List (List Char)) (h : s.pos < next) (hnext : next ≤ data.length) :
      NameStep data s (.next ⟨next, labels, s.endPos, s.jumps⟩)

theorem safe_nameRound (data : Bytes) (s : NameState) :
    Safe (nameRound data s) (NameStep data s) := by
  apply Safe.ite
  · intro _
    exact .pure .invalid
  intro hinside
  obtain ⟨hpos, hjumps⟩ : s.pos < data.length ∧ s.jumps ≤ 10 := by omega
  apply (safe_getElem hpos).bind
  intro len _
  apply Safe.ite
  · intro _
    exact .pure (.root _ hpos)
  intro _
  apply Safe.ite
  · intro _
    apply Safe.ite
    · intro _
      exact .pure .invalid
    intro hlow
    apply (safe_getElem (Nat.not_le.mp hlow)).bind
    intro low _
    exact .pure (.pointer _ (Nat.not_le.mp hlow) hjumps)
  intro _
  apply Safe.ite
  · intro _
    exact .pure .invalid
  intro hnext
  apply (safe_sliceChecked (by omega) (Nat.not_lt.mp hnext)).bind
  intro bytes _
  cases fromUtf8 bytes with
  | some label => exact .pure (.label _ _ (by omega) (Nat.not_lt.mp hnext))
  | none => exact .pure .invalid

theorem nameRank_lt (h : NameStep data s (.next s')) : nameRank data s' < nameRank data s := by
  cases h with
  | pointer offset h hjumps =>
    have hcount : 11 - s.jumps = 11 - (s.jumps + 1) + 1 := by omega
    simp only [nameRank, hcount, Nat.succ_mul]
    omega
  | label next labels h hnext =>
    simp only [nameRank]
    omega

/-- `parse_name` -/
def parseName (data : Bytes) (pos : Nat) : Option (Option (List Char × Nat)) :=
  runLoop (nameRound data) (nameRank data) (by
    intro s s' h
    obtain ⟨round, hround, hstep⟩ := safe_nameRound data s
    rw [h] at hround
    cases hround
    exact nameRank_lt hstep) ⟨pos, [], none, 0⟩

/-- The name that is found ends after its start and inside of the data. -/
def NameInside (data : Bytes) (start : Nat) (result : Option (List Char × Nat)) : Prop :=
  ∀ name next, result = some (name, next) → start < next ∧ next ≤ data.length

/-- Before the first jump the loop is not before the start; afterwards the end is known. -/
structure NameInv (data : Bytes) (start : Nat) (s : NameState) : Prop where
  before : s.endPos = none → start ≤ s.pos
  after : ∀ e, s.endPos = some e → start < e ∧ e ≤ data.length

theorem NameInv.endPos_getD (h : NameInv data start s) (hn : s.pos < n) (hend : n ≤ data.length) :
    start < s.endPos.getD n ∧ s.endPos.getD n ≤ data.length := by
  cases hs : s.endPos with
  | none => exact ⟨Nat.lt_of_le_of_lt (h.before hs) hn, hend⟩
  | some e => exact h.after e hs

theorem NameStep.keeps (hinv : NameInv data start s) (h : NameStep data s outcome) :
    outcome.Lowers (NameInv data start) (nameRank data) (NameInside data start) s := by
  cases h with
  | invalid =>
    intro name next h
    cases h
  | root name hpos =>
    intro name' next h
    cases h
    exact hinv.endPos_getD (Nat.lt_succ_self _) hpos
  | pointer offset hpos hjumps =>
    refine ⟨⟨?_, ?_⟩, nameRank_lt (.pointer offset hpos hjumps)⟩
    · intro h
      cases h
    · intro e he
      cases he
      exact hinv.endPos_getD (by omega) hpos
  | label next labels hpos hnext =>
    refine ⟨⟨fun h => ?_, hinv.after⟩, nameRank_lt (.label next labels hpos hnext)⟩
    exact Nat.le_of_lt (Nat.lt_of_le_of_lt (hinv.before h) hpos)

/-- The loop comes to its end, whatever the labels and pointers are. -/
theorem name_ends (data : Bytes) (pos : Nat) :
    ∃ r, Ends (nameRound data) ⟨pos, [], none, 0⟩ r ∧ NameInside data pos r := by
  have hround (s : NameState) (hs : NameInv data pos s) : Safe (nameRound data s)
      (Round.Lowers (NameInv data pos) (nameRank data) (NameInside data pos) s) :=
    (safe_nameRound data s).mono fun _ => NameStep.keeps hs
  apply exists_ends hround
  refine ⟨fun _ => Nat.le_refl pos, ?_⟩
  intro e h
  cases h

theorem safe_parseName (data : Bytes) (pos : Nat) :
    Safe (parseName data pos) (NameInside data pos) := by
  obtain ⟨r, hends, hr⟩ := name_ends data pos
  exact ⟨r, runLoop_of_ends hends, hr⟩

def rdataText (data : Bytes) (pos : Nat) (rtype rdlen : UInt16) : Option (List Char) :=
  if rtype = 1 ∧ rdlen = 4 then do
    let a ← data[pos]?
    let b ← data[pos + 1]?
    let c ← data[pos + 2]?
    let d ← data[pos + 3]?
    return ['.'].intercalate ([a, b, c, d].map fun byte => decimal byte.toNat)
  else if rtype = 28 ∧ rdlen = 16 then do
    let parts ← (List.range 8).mapM fun i => readBe16 data (pos + 2 * i)
    return [':'].intercalate (parts.map fun part => Nat.toDigits 16 part.toNat)
  else if rtype = 5 ∨ rtype = 2 ∨ rtype = 12 then do
    let name ← parseName data pos
    return (name.map Prod.fst).getD []
  else
    some ("type=".toList ++ decimal rtype.toNat ++ " len=".toList ++ decimal rdlen.toNat)

def parseRr (data : Bytes) (pos : Nat) : Option (Option (List Char × Nat)) := do
  let name ← parseName data pos
  match name with
  | none => return none
  | some (_, pos) =>
    if pos + 10 > data.length then return none
    let rtype ← readBe16 data pos
    let _rclass ← readBe16 data (pos + 2)
    let _ttlHigh ← readBe16 data (pos + 4)
    let _ttlLow ← readBe16 data (pos + 6)
    let rdlen ← readBe16 data (pos + 8)
    let pos := pos + 10
    if pos + rdlen.toNat > data.length then return none
    let rdata ← rdataText data pos rtype rdlen
    return some (rdata, pos + rdlen.toNat)

theorem safe_rdataText {data : Bytes} (h : pos + rdlen.toNat ≤ data.length) (rtype : UInt16) :
    Safe (rdataText data pos rtype rdlen) fun _ => True := by
  apply Safe.ite
  · rintro ⟨_, rfl⟩
    have hlength : pos + 4 ≤ data.length := h
    apply (safe_getElem (by omega)).bind
    intro a _
    apply (safe_getElem (by omega)).bind
    intro b _
    apply (safe_getElem (by omega)).bind
    intro c _
    apply (safe_getElem (by omega)).bind
    intro d _
    exact .pure trivial
  intro _
  apply Safe.ite
  · rintro ⟨_, rfl⟩
    have hlength : pos + 16 ≤ data.length := h
    have hparts : ∀ i ∈ List.range 8, Safe (readBe16 data (pos + 2 * i)) fun _ => True := by
      intro i hi
      have hlt := List.mem_range.mp hi
      exact safe_readBe16 (by omega)
    apply (safe_mapM hparts).bind
    intro parts _
    exact .pure trivial
  intro _
  apply Safe.ite
  · intro _
    apply (safe_parseName data pos).bind
    intro name _
    exact .pure trivial
  · intro _
    exact .pure trivial

theorem safe_parseRr (data : Bytes) (pos : Nat) :
    Safe (parseRr data pos) (NameInside data pos) := by
  have hnone : NameInside data pos none := by
    intro name next h
    cases h
  apply (safe_parseName data pos).bind
  intro name hname
  cases name with
  | none => exact .pure hnone
  | some found =>
    obtain ⟨_, next⟩ := found
    obtain ⟨hnext, _⟩ := hname _ next rfl
    apply Safe.ite
    · intro _
      exact .pure hnone
    intro hfixed
    apply (safe_readBe16 (by omega)).bind
    intro rtype _
    apply (safe_readBe16 (by omega)).bind
    intro _rclass _
    apply (safe_readBe16 (by omega)).bind
    intro _ttlHigh _
    apply (safe_readBe16 (by omega)).bind
    intro _ttlLow _
    apply (safe_readBe16 (by omega)).bind
    intro rdlen _
    apply Safe.ite
    · intro _
      exact .pure hnone
    intro hdata
    apply (safe_rdataText (Nat.not_lt.mp hdata) rtype).bind
    intro rdata _
    apply Safe.pure
    intro name' next' h
    cases h
    omega

def rcodeStr (rcode : UInt16) : List Char :=
  if rcode = 0 then "NOERROR".toList
  else if rcode = 1 then "FORMERR".toList
  else if rcode = 2 then "SERVFAIL".toList
  else if rcode = 3 then "NXDOMAIN".toList
  else if rcode = 4 then "NOTIMP".toList
  else if rcode = 5 then "REFUSED".toList
  else "UNKNOWN".toList

def qtypeStr (qtype : UInt16) : List Char :=
  if qtype = 1 then "A".toList
  else if qtype = 2 then "NS".toList
  else if qtype = 5 then "CNAME".toList
  else if qtype = 6 then "SOA".toList
  else if qtype = 12 then "PTR".toList
  else if qtype = 15 then "MX".toList
  else if qtype = 16 then "TXT".toList
  else if qtype = 28 then "AAAA".toList
  else if qtype = 33 then "SRV".toList
  else if qtype = 255 then "ANY".toList
  else "UNKNOWN".toList

/-- A round of the loop over the questions: the position after the question, or what the parser
returns at once. -/
def parseQuestion (payload : Bytes) (pos : Nat) (buffers : StickyBuffers) :
    Option (Except ParseResult Nat × StickyBuffers) :=
  if pos ≥ payload.length then some (.error .incomplete, buffers)
  else do
    let found ← parseName payload pos
    match found with
    | none => return (.error (.error "invalid DNS name".toList), buffers)
    | some (name, newPos) =>
      let buffers := buffers.insert "dns.query" (utf8Bytes name)
      if newPos + 4 > payload.length then return (.error .incomplete, buffers)
      let qtype ← readBe16 payload newPos
      return (.ok (newPos + 4), buffers.insert "dns.query.type" (utf8Bytes (qtypeStr qtype)))

def parseQuestions (payload : Bytes) : Nat → Nat → StickyBuffers →
    Option (Except ParseResult Nat × StickyBuffers)
  | 0, pos, buffers => some (.ok pos, buffers)
  | qdcount + 1, pos, buffers => do
    let question ← parseQuestion payload pos buffers
    match question with
    | (.ok next, buffers) => parseQuestions payload qdcount next buffers
    | (.error result, buffers) => return (.error result, buffers)

/-- The loop over the answers. -/
def parseAnswers (payload : Bytes) : Nat → Nat → Option (List (List Char))
  | 0, _ => some []
  | ancount + 1, pos =>
    if pos ≥ payload.length then some []
    else do
      let record ← parseRr payload pos
      match record with
      | none => return []
      | some (rdata, newPos) =>
        let rest ← parseAnswers payload ancount newPos
        return rdata :: rest

def parse (payload : Bytes) (buffers : StickyBuffers) : Option (ParseResult × StickyBuffers) :=
  if payload.length < 12 then some (.incomplete, buffers)
  else do
    let _id ← readBe16 payload 0
    let flags ← readBe16 payload 2
    let qdcount ← readBe16 payload 4
    let ancount ← readBe16 payload 6
    let isResponse := flags &&& 0x8000 ≠ 0
    let opcode := (flags >>> 11) &&& 0x0f
    let buffers := buffers.insert "dns.opcode" (utf8Bytes (decimal opcode.toNat))
    let buffers := if isResponse
      then buffers.insert "dns.rcode" (utf8Bytes (rcodeStr (flags &&& 0x000f))) else buffers
    let questions ← parseQuestions payload qdcount.toNat 12 buffers
    match questions with
    | (.error result, buffers) => return (result, buffers)
    | (.ok pos, buffers) =>
      let answers ← (if isResponse ∧ ancount > 0 then parseAnswers payload ancount.toNat pos
        else some [])
      return (.ok, if answers = [] then buffers
        else buffers.insert "dns.answer" (utf8Bytes ([','].intercalate answers)))

/-- The next question starts after this one. -/
def QuestionInside (payload : Bytes) (pos : Nat)
    (question : Except ParseResult Nat × StickyBuffers) : Prop :=
  ∀ next, question.1 = .ok next → pos < next ∧ next ≤ payload.length

theorem safe_parseQuestion (payload : Bytes) (pos : Nat) (buffers : StickyBuffers) :
    Safe (parseQuestion payload pos buffers) (QuestionInside payload pos) := by
  have herror (result : ParseResult) (buffers : StickyBuffers) :
      QuestionInside payload pos (.error result, buffers) := by
    intro next h
    cases h
  apply Safe.ite
  · intro _
    exact .pure (herror _ _)
  intro _
  apply (safe_parseName payload pos).bind
  intro found hfound
  cases found with
  | none => exact .pure (herror _ _)
  | some found =>
    obtain ⟨name, newPos⟩ := found
    obtain ⟨hpos, _⟩ := hfound name newPos rfl
    apply Safe.ite
    · intro _
      exact .pure (herror _ _)
    intro hfixed
    apply (safe_readBe16 (by omega)).bind
    intro qtype _
    apply Safe.pure
    intro next h
    cases h
    omega

theorem safe_parseQuestions (payload : Bytes) (qdcount pos : Nat) (buffers : StickyBuffers) :
    Safe (parseQuestions payload qdcount pos buffers) fun _ => True := by
  induction qdcount generalizing pos buffers with
  | zero => exact .pure trivial
  | succ qdcount ih =>
    apply (safe_parseQuestion payload pos buffers).bind
    intro question _
    obtain ⟨result, buffers⟩ := question
    cases result with
    | ok next => exact ih next buffers
    | error result => exact .pure trivial

theorem safe_parseAnswers (payload : Bytes) (ancount pos : Nat) :
    Safe (parseAnswers payload ancount pos) fun _ => True := by
  induction ancount generalizing pos with
  | zero => exact .pure trivial
  | succ ancount ih =>
    apply Safe.ite
    · intro _
      exact .pure trivial
    intro _
    apply (safe_parseRr payload pos).bind
    intro record _
    cases record with
    | none => exact .pure trivial
    | some record =>
      obtain ⟨rdata, newPos⟩ := record
      apply (ih newPos).bind
      intro rest _
      exact .pure trivial

theorem safe_parse (payload : Bytes) (buffers : StickyBuffers) :
    Safe (parse payload buffers) fun _ => True := by
  apply Safe.ite
  · intro _
    exact .pure trivial
  intro hlength
  apply (safe_readBe16 (by omega)).bind
  intro _id _
  apply (safe_readBe16 (by omega)).bind
  intro flags _
  apply (safe_readBe16 (by omega)).bind
  intro qdcount _
  apply (safe_readBe16 (by omega)).bind
  intro ancount _
  apply (safe_parseQuestions payload _ _ _).bind
  intro questions _
  obtain ⟨result, buffers⟩ := questions
  cases result with
  | error result => exact .pure trivial
  | ok pos =>
    have hanswers : Safe (if flags &&& 0x8000 ≠ 0 ∧ ancount > 0
        then parseAnswers payload ancount.toNat pos else some []) fun _ => True := by
      apply Safe.ite
      · intro _
        exact safe_parseAnswers payload _ _
      · intro _
        exact .pure trivial
    apply hanswers.bind
    intro answers _
    exact .pure trivial

theorem safe_probe (payload : Bytes) : Safe (probe payload) fun _ => True := by
  apply Safe.ite
  · intro _
    exact .pure trivial
  intro hlength
  apply (safe_readBe16 (by omega)).bind
  intro flags _
  apply (safe_readBe16 (by omega)).bind
  intro qdcount _
  exact .pure trivial

/-- The loop over the labels ends on all data, reads nothing beyond them and gives an end after the
start; records and messages are read without a panic, and from each part to a later one. -/
theorem names_safe (data : Bytes) (pos : Nat) (buffers : StickyBuffers) :
    (∃ found, Ends (nameRound data) ⟨pos, [], none, 0⟩ found ∧ parseName data pos = some found ∧
      NameInside data pos found) ∧
    Safe (parseRr data pos) (NameInside data pos) ∧
    Safe (parseQuestion data pos buffers) (QuestionInside data pos) ∧
    (parse data buffers).isSome = true := by
  obtain ⟨found, hends, hinside⟩ := name_ends data pos
  exact ⟨⟨found, hends, runLoop_of_ends hends, hinside⟩, safe_parseRr data pos,
    safe_parseQuestion data pos buffers, (safe_parse data buffers).isSome⟩

end DnsParser

/-- The parser as the registry has it. It does not change the flow. -/
def dnsParser : ProtocolParser where
  appProto := .dns
  defaultPorts := DnsParser.defaultPorts
  probe payload _ := (DnsParser.probe payload).get (DnsParser.safe_probe payload).isSome
  parse flow payload _ buffers := (flow,
    ((DnsParser.parse payload buffers).get (DnsParser.safe_parse payload buffers).isSome).2)

end AiFw.Ids
