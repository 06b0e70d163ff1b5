import AiFw.Ids.RuleSlices
import AiFw.Ids.TlsParser
import AiFw.Lib.TextSearch

namespace AiFw.Ids
open AiFw.Lib
open AiFw.Pf (byteLen)
open AiFw.Geo (lines)
set_option autoImplicit true

namespace SmtpParser

def defaultPorts : List UInt16 := [25, 587, 2525]

def startsWith (payload : Bytes) (word : String) : Bool :=
  (utf8Bytes word.toList).isPrefixOf payload

def probe (payload : Bytes) (direction : FlowDirection) : ProbeResult :=
  if payload.length < 4 then .needMore
  else
    match direction with
    | .toClient =>
      if startsWith payload "220 " || startsWith payload "220-" then .isMatch else .noMatch
    | .toServer =>
      let upper := (payload.take 8).map fun b => if 0x61 ≤ b ∧ b ≤ 0x7a then b - 0x20 else b
      if startsWith upper "EHLO " || startsWith upper "HELO " || startsWith upper "MAIL " then
        .isMatch
      else .noMatch

def extractAngleBracket (s : List Char) : Option (List Char) :=
  let trimmed := trim s
  match findByte '<' trimmed, findByte '>' trimmed with
  | some start, some stop =>
    if stop > start then sliceBytes trimmed (start + 1) stop else some trimmed
  | _, _ => some trimmed

/-- The line begins with the word, in capitals or not. -/
def isCommand (word : String) (line : List Char) : Bool :=
  word.toList.isPrefixOf (line.map Char.toUpper)

def parseCommandLine (buffers : StickyBuffers) (line : List Char) : Option StickyBuffers :=
  if isCommand "EHLO " line || isCommand "HELO " line then do
    let domain ← dropBytes 5 line
    return buffers.insert "smtp.helo" (utf8Bytes (trim domain))
  else if isCommand "MAIL FROM:" line then do
    let rest ← dropBytes 10 line
    let sender ← extractAngleBracket rest
    return buffers.insert "smtp.mail_from" (utf8Bytes sender)
  else if isCommand "RCPT TO:" line then do
    let rest ← dropBytes 8 line
    let recipient ← extractAngleBracket rest
    return buffers.insert "smtp.rcpt_to" (utf8Bytes recipient)
  else if isCommand "DATA" line then
    some (buffers.insert "smtp.command" (utf8Bytes "DATA".toList))
  else if isCommand "AUTH " line then do
    let rest ← dropBytes 5 line
    return buffers.insert "smtp.auth_method"
      (utf8Bytes ((splitWhitespace rest).head?.getD "UNKNOWN".toList))
  else some buffers

def parseCommand (text : List Char) (buffers : StickyBuffers) :
    Option (ParseResult × StickyBuffers) := do
  let buffers ← (lines text).foldlM parseCommandLine buffers
  return (.ok, buffers)

/-- What is read of the first line of a response that has three bytes at least. -/
def parseReply (line : List Char) (buffers : StickyBuffers) : Option StickyBuffers := do
  let code ← takeBytes 3 line
  if code.all Char.isDigit then
    let buffers := buffers.insert "smtp.reply_code" (utf8Bytes code)
    let buffers := if byteLen line > 4
      then buffers.insert "smtp.reply_msg" ((utf8Bytes line).drop 4) else buffers
    if code = "220".toList then
      let banner ← dropBytes 4 line
      return buffers.insert "smtp.banner" (utf8Bytes (trim banner))
    else return buffers
  else return buffers

def parseResponse (text : List Char) (buffers : StickyBuffers) :
    Option (ParseResult × StickyBuffers) :=
  match (lines text).head? with
  | none => some (.ok, buffers)
  | some line =>
    if byteLen line ≥ 3 then do
      let buffers ← parseReply line buffers
      return (.ok, buffers)
    else some (.ok, buffers)

def parse (payload : Bytes) (direction : FlowDirection) (buffers : StickyBuffers) :
    Option (ParseResult × StickyBuffers) :=
  match fromUtf8 payload with
  | none => some (.error "invalid UTF-8 in SMTP".toList, buffers)
  | some text =>
    match direction with
    | .toServer => parseCommand text buffers
    | .toClient => parseResponse text buffers

theorem ascii_of_toUpper {c : Char} (h : c.toUpper.toNat < 128) : c.toNat < 128 := by
  by_cases hsmall : c.val ≥ 'a'.val ∧ c.val ≤ 'z'.val
  · have hle : c.val.toNat ≤ 122 := UInt32.le_iff_toNat_le.mp hsmall.2
    exact Nat.lt_of_le_of_lt hle (by decide)
  · have hupper : c.toUpper = c := dif_neg hsmall
    rwa [hupper] at h

theorem byteLen_of_ascii {t : List Char} (h : ∀ c ∈ t, c.toNat < 128) : byteLen t = t.length :=
  (byteLen_eq_length_iff t).mpr h

/-- After the bytes of a command a sign begins, or the line ends. -/
theorem safe_drop_command {word : String} (hword : ∀ c ∈ word.toList, c.toNat < 128)
    (h : isCommand word line = true) : Safe (dropBytes word.toList.length line) fun _ => True := by
  have hfront := List.prefix_iff_eq_take.mp (List.isPrefixOf_iff_prefix.mp h)
  rw [← List.map_take] at hfront
  have hascii : ∀ c ∈ line.take word.toList.length, c.toNat < 128 := by
    intro c hc
    apply ascii_of_toUpper
    apply hword
    rw [hfront]
    exact List.mem_map_of_mem hc
  have hlength : byteLen (line.take word.toList.length) = word.toList.length := by
    rw [byteLen_of_ascii hascii]
    have hmap := congrArg List.length hfront
    rw [List.length_map] at hmap
    exact hmap.symm
  have hdrop := dropBytes_append (line.take word.toList.length) (line.drop word.toList.length)
  rw [List.take_append_drop, hlength] at hdrop
  exact ⟨_, hdrop, trivial⟩

theorem byteLen_mono {a b : List Char} (h : a <+: b) : byteLen a ≤ byteLen b := by
  obtain ⟨rest, rfl⟩ := h
  rw [byteLen_append]
  exact Nat.le_add_right _ _

/-- A sign that is found later in the text has the first one before it. -/
theorem between_finds {t : List Char} (hopen : t = a ++ c :: b) (hclose : t = a' ++ c' :: b')
    (hlt : byteLen a < byteLen a') : ∃ m, a' = a ++ c :: m := by
  have ha : a <+: t := ⟨_, hopen.symm⟩
  have ha' : a' <+: t := ⟨_, hclose.symm⟩
  obtain ⟨rest, rfl⟩ | hback := List.prefix_or_prefix_of_prefix ha ha'
  · cases rest with
    | nil =>
      rw [List.append_nil] at hlt
      exact absurd hlt (Nat.lt_irrefl _)
    | cons d m =>
      rw [hopen, List.append_assoc] at hclose
      have hrest := List.append_cancel_left hclose
      rw [List.cons_append] at hrest
      obtain rfl := (List.cons.inj hrest).1
      exact ⟨m, rfl⟩
  · exact absurd (byteLen_mono hback) (Nat.not_le.mpr hlt)

theorem safe_extractAngleBracket (s : List Char) : Safe (extractAngleBracket s) fun _ => True := by
  cases hstart : findByte '<' (trim s) with
  | none =>
    simp only [extractAngleBracket, hstart]
    exact .pure trivial
  | some start =>
    cases hstop : findByte '>' (trim s) with
    | none =>
      simp only [extractAngleBracket, hstart, hstop]
      exact .pure trivial
    | some stop =>
      simp only [extractAngleBracket, hstart, hstop]
      apply Safe.ite
      · intro hlt
        obtain ⟨⟨a, b⟩, hsplit, rfl⟩ := Option.map_eq_some_iff.mp hstart
        obtain ⟨⟨a', b'⟩, hsplit', rfl⟩ := Option.map_eq_some_iff.mp hstop
        have hclose := splitOnce_eq hsplit'
        obtain ⟨m, rfl⟩ := between_finds (splitOnce_eq hsplit) hclose hlt
        have hparts := sliceBytes_parts (a ++ ['<']) m ('>' :: b')
        have htext : trim s = a ++ ['<'] ++ (m ++ '>' :: b') := by
          rw [hclose]
          simp
        rw [← htext, byteLen_append, List.append_assoc] at hparts
        exact ⟨m, hparts, trivial⟩
      · intro _
        exact .pure trivial

theorem safe_parseCommandLine (buffers : StickyBuffers) (line : List Char) :
    Safe (parseCommandLine buffers line) fun _ => True := by
  apply Safe.ite
  · intro h
    have hdrop : Safe (dropBytes 5 line) fun _ => True := by
      rcases Bool.or_eq_true_iff.mp h with h | h
      · exact safe_drop_command (forall_mem_of_all (by decide)) h
      · exact safe_drop_command (forall_mem_of_all (by decide)) h
    apply hdrop.bind
    intro domain _
    exact .pure trivial
  intro _
  apply Safe.ite
  · intro h
    apply (safe_drop_command (forall_mem_of_all (by decide)) h).bind
    intro rest _
    apply (safe_extractAngleBracket rest).bind
    intro sender _
    exact .pure trivial
  intro _
  apply Safe.ite
  · intro h
    apply (safe_drop_command (forall_mem_of_all (by decide)) h).bind
    intro rest _
    apply (safe_extractAngleBracket rest).bind
    intro recipient _
    exact .pure trivial
  intro _
  apply Safe.ite
  · intro _
    exact .pure trivial
  intro _
  apply Safe.ite
  · intro h
    apply (safe_drop_command (forall_mem_of_all (by decide)) h).bind
    intro rest _
    exact .pure trivial
  · intro _
    exact .pure trivial

theorem safe_parseCommand (text : List Char) (buffers : StickyBuffers) :
    Safe (parseCommand text buffers) fun _ => True := by
  have hfold (ls : List (List Char)) (buffers : StickyBuffers) :
      Safe (ls.foldlM parseCommandLine buffers) fun _ => True := by
    induction ls generalizing buffers with
    | nil => exact .pure trivial
    | cons line ls ih =>
      rw [List.foldlM_cons]
      apply (safe_parseCommandLine buffers line).bind
      intro buffers _
      exact ih buffers
  apply (hfold (lines text) buffers).bind
  intro buffers _
  exact .pure trivial

/-- The bytes up to a place of the text are whole signs. -/
def IsBoundary (n : Nat) (s : List Char) : Prop :=
  ∃ front rest, s = front ++ rest ∧ byteLen front = n

/-- The first line of a response has a sign's end after its code, and after the byte that follows if
the code is that of a greeting. -/
def ReplySliceable (line : List Char) : Prop :=
  IsBoundary 3 line ∧ ("220".toList <+: line → IsBoundary 4 line)

theorem isSome_takeBytes (n : Nat) (s : List Char) :
    (takeBytes n s).isSome = true ↔ IsBoundary n s := takeBytes_isSome_iff n s

theorem isSome_dropBytes (n : Nat) (s : List Char) :
    (dropBytes n s).isSome = true ↔ IsBoundary n s := by
  constructor
  · intro h
    induction s generalizing n with
    | nil =>
      cases n with
      | zero => exact ⟨[], [], rfl, rfl⟩
      | succ n => cases h
    | cons c s ih =>
      cases n with
      | zero => exact ⟨[], c :: s, rfl, rfl⟩
      | succ n =>
        rw [dropBytes] at h
        by_cases hle : c.utf8Size ≤ n + 1
        · rw [if_pos hle] at h
          obtain ⟨front, rest, rfl, hlength⟩ := ih _ h
          refine ⟨c :: front, rest, rfl, ?_⟩
          rw [byteLen_cons, hlength]
          omega
        · rw [if_neg hle] at h
          cases h
  · rintro ⟨front, rest, rfl, rfl⟩
    rw [dropBytes_append]
    rfl

theorem eq_of_byteLen {a b : List Char} (h : a <+: b) (hlength : byteLen a = byteLen b) : a = b := by
  obtain ⟨rest, rfl⟩ := h
  cases rest with
  | nil => exact (List.append_nil a).symm
  | cons c rest =>
    have hpos := c.utf8Size_pos
    rw [byteLen_append, byteLen_cons] at hlength
    omega

/-- A line begins with the code of a greeting if that is what its first bytes are. -/
theorem greeting_iff (hlength : byteLen code = 3) :
    "220".toList <+: code ++ rest ↔ code = "220".toList := by
  constructor
  · intro h
    obtain hfront | hfront := List.prefix_or_prefix_of_prefix h (List.prefix_append code rest)
    · exact (eq_of_byteLen hfront hlength.symm).symm
    · exact eq_of_byteLen hfront hlength
  · rintro rfl
    exact List.prefix_append _ _

theorem parseReply_isSome_iff (line : List Char) (buffers : StickyBuffers) :
    (parseReply line buffers).isSome = true ↔ ReplySliceable line := by
  rw [ReplySliceable, ← isSome_takeBytes, ← isSome_dropBytes, parseReply]
  cases hcode : takeBytes 3 line with
  | none => exact iff_of_false Bool.false_ne_true fun h => Bool.false_ne_true h.1
  | some code =>
    obtain ⟨hthree, rest, rfl⟩ := takeBytes_some hcode
    rw [greeting_iff hthree, Option.bind_eq_bind, Option.bind_some]
    by_cases hgreeting : code = "220".toList
    · have hdigits : code.all Char.isDigit = true := by
        rw [hgreeting]
        decide
      simp only [if_pos hdigits, if_pos hgreeting]
      cases dropBytes 4 (code ++ rest) with
      | none => exact iff_of_false Bool.false_ne_true fun h => Bool.false_ne_true (h.2 hgreeting)
      | some banner => exact iff_of_true rfl ⟨rfl, fun _ => rfl⟩
    · have hrest : ((some code).isSome = true ∧
          (code = "220".toList → (dropBytes 4 (code ++ rest)).isSome = true)) :=
        ⟨rfl, fun h => absurd h hgreeting⟩
      by_cases hdigits : code.all Char.isDigit = true
      · simp only [if_pos hdigits, if_neg hgreeting]
        exact iff_of_true rfl hrest
      · simp only [if_neg hdigits]
        exact iff_of_true rfl hrest

theorem parseResponse_isSome_iff (text : List Char) (buffers : StickyBuffers) :
    (parseResponse text buffers).isSome = true ↔
      ∀ line ∈ (lines text).head?, 3 ≤ byteLen line → ReplySliceable line := by
  rw [parseResponse]
  cases (lines text).head? with
  | none =>
    apply iff_of_true rfl
    intro line h
    cases h
  | some line =>
    have honly : (∀ l ∈ some line, 3 ≤ byteLen l → ReplySliceable l) ↔
        (3 ≤ byteLen line → ReplySliceable line) := by
      constructor
      · intro h
        exact h line rfl
      · intro h l hl
        cases hl
        exact h
    rw [honly, ← parseReply_isSome_iff line buffers]
    dsimp only
    by_cases hlength : byteLen line ≥ 3
    · rw [if_pos hlength]
      cases parseReply line buffers with
      | none => exact iff_of_false Bool.false_ne_true fun h => Bool.false_ne_true (h hlength)
      | some buffers => exact iff_of_true rfl fun _ => rfl
    · rw [if_neg hlength]
      exact iff_of_true rfl fun h => absurd h hlength

/-- The parser does not panic exactly if the first line of a response can be cut where it is. -/
theorem parse_isSome_iff (payload : Bytes) (direction : FlowDirection) (buffers : StickyBuffers) :
    (parse payload direction buffers).isSome = true ↔
      (direction = .toClient → ∀ text, fromUtf8 payload = some text →
        ∀ line ∈ (lines text).head?, 3 ≤ byteLen line → ReplySliceable line) := by
  rw [parse]
  cases fromUtf8 payload with
  | none =>
    apply iff_of_true rfl
    intro _ text h
    cases h
  | some text =>
    cases direction with
    | toServer =>
      apply iff_of_true (safe_parseCommand text buffers).isSome
      intro h
      cases h
    | toClient =>
      dsimp only
      rw [parseResponse_isSome_iff]
      constructor
      · intro h _ text' htext
        cases htext
        exact h
      · intro h
        exact h rfl text rfl

/-- A greeting of the code alone. -/
theorem bare_greeting_panics :
    parse (utf8Bytes "220\r\n".toList) .toClient ∅ = none := by
  rw [parse, utf8Bytes, fromUtf8_encoded]
  rfl

end SmtpParser

end AiFw.Ids
