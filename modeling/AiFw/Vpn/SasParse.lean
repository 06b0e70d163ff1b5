import AiFw.Lib.KeyedMap
import AiFw.Lib.Lexing
import AiFw.Vpn.Tunnel

namespace AiFw.Vpn
open AiFw.Lib
open AiFw.Wan (Uuid)

set_option autoImplicit true

/-- A nested section, a scalar, or a list. -/
inductive Node where
  | value (v : List Char)
  | list (items : List (List Char))
  | nested (entries : List (List Char × Node))

abbrev Entries := List (List Char × Node)

abbrev SasToken := List Char

def isStructural (c : Char) : Bool := c == '{' || c == '}' || c == '[' || c == ']'

/-- A fragment splits at its first `=`; later ones stay in the value. -/
def pushFragment (frag : List Char) : List SasToken :=
  if frag = [] then []
  else if frag = ['='] then [['=']]
  else
    match splitOnce '=' frag with
    | some (key, value) =>
      if key = [] then [frag] else key :: ['='] :: (if value = [] then [] else [value])
    | none => [frag]

/-- The tokens of a word: the structural signs, and what is between them. -/
def wordTokens : List Char → List SasToken :=
  fragments (fun _ => false) isStructural pushFragment (fun c => [c]) []

def tokenize (input : List Char) : List SasToken := (splitWhitespace input).flatMap wordTokens

/-- The entries up to the matching `}`, or to the end, and the tokens after it. Each call takes a
token at least, so that their number is fuel enough. -/
def parseEntriesFrom : Nat → Option SasToken → List SasToken → Entries × List SasToken
  | 0, _, tokens => ([], tokens)
  | _ + 1, _, [] => ([], [])
  | fuel + 1, pending, tok :: tokens =>
    if tok = ['{'] then
      let inner := parseEntriesFrom fuel none tokens
      let after := parseEntriesFrom fuel none inner.2
      ((pending.getD [], .nested inner.1) :: after.1, after.2)
    else if tok = ['}'] then ([], tokens)
    else if tok = ['='] then
      match pending, tokens with
      | none, _ => parseEntriesFrom fuel none tokens
      | some _, [] => parseEntriesFrom fuel none []
      | some key, tok' :: tokens' =>
        if tok' = ['['] then
          let after := parseEntriesFrom fuel none ((tokens'.dropWhile (· ≠ [']'])).drop 1)
          ((key, .list (tokens'.takeWhile (· ≠ [']']))) :: after.1, after.2)
        else if tok' ≠ ['{'] ∧ tok' ≠ ['}'] then
          let after := parseEntriesFrom fuel none tokens'
          ((key, .value tok') :: after.1, after.2)
        else parseEntriesFrom fuel none tokens
    else parseEntriesFrom fuel (some tok) tokens

def parseEntries (pending : Option SasToken) (tokens : List SasToken) :
    Entries × List SasToken :=
  parseEntriesFrom tokens.length pending tokens

def get (entries : Entries) (key : List Char) : Option Node :=
  (entries.find? fun e => e.1 = key).map Prod.snd

def getValue (entries : Entries) (key : List Char) : Option (List Char) :=
  match get entries key with
  | some (.value v) => some v
  | _ => none

def getU64 (entries : Entries) (key : List Char) : Option Nat :=
  (getValue entries key).bind (parseUnsigned (2 ^ 64))

/-- A list of one element can be printed as a plain value. -/
def getList (entries : Entries) (key : List Char) : List (List Char) :=
  match get entries key with
  | some (.list items) => items
  | some (.value v) => [v]
  | _ => []

def aifwPrefix : List Char := "aifw-".toList

mutual

/-- A section whose name starts with `aifw-`, or else those in it. -/
def collectNode (name : List Char) : Node → List (List Char × Entries)
  | .value _ => []
  | .list _ => []
  | .nested inner =>
    if aifwPrefix.isPrefixOf name then [(name, inner)] else collectAifwSections inner

def collectEntry : List Char × Node → List (List Char × Entries)
  | (name, node) => collectNode name node

/-- The sections whose name starts with `aifw-`, outermost first. -/
def collectAifwSections : List (List Char × Node) → List (List Char × Entries)
  | [] => []
  | e :: entries => collectEntry e ++ collectAifwSections entries

end

/-- Live state of one child SA. -/
structure ChildSaStatus where
  name : List Char
  state : List Char
  localTs : List (List Char)
  remoteTs : List (List Char)
  bytesIn : Nat
  bytesOut : Nat
  rekeyInSecs : Option Nat
  encAlg : Option (List Char)
deriving DecidableEq

/-- Live state of the SA of a tunnel. -/
structure IpsecLiveStatus where
  tunnelId : Uuid
  connName : List Char
  ikeState : List Char
  establishedSecs : Option Nat
  remoteHost : Option (List Char)
  ikeVersion : Option Nat
  childSas : List ChildSaStatus
deriving DecidableEq

def unknown : List Char := "UNKNOWN".toList

def parseChild (sectionKey : List Char) (entries : Entries) : ChildSaStatus where
  name := (getValue entries "name".toList).getD sectionKey
  state := (getValue entries "state".toList).getD unknown
  localTs := getList entries "local-ts".toList
  remoteTs := getList entries "remote-ts".toList
  bytesIn := (getU64 entries "bytes-in".toList).getD 0
  bytesOut := (getU64 entries "bytes-out".toList).getD 0
  rekeyInSecs := getU64 entries "rekey-time".toList
  encAlg := (getValue entries "enc-alg".toList).map fun alg =>
    match getValue entries "enc-keysize".toList with
    | some bits => alg ++ '-' :: bits
    | none => alg

def childSas (entries : Entries) : List ChildSaStatus :=
  match get entries "child-sas".toList with
  | some (.nested children) =>
    children.filterMap fun e =>
      match e.2 with
      | .nested childEntries => some (parseChild e.1 childEntries)
      | _ => none
  | _ => []

def liveStatus (tunnelId : Uuid) (connName : List Char) (entries : Entries) : IpsecLiveStatus where
  tunnelId := tunnelId
  connName := connName
  ikeState := (getValue entries "state".toList).getD unknown
  establishedSecs := getU64 entries "established".toList
  remoteHost := getValue entries "remote-host".toList
  ikeVersion := (getValue entries "version".toList).bind (parseUnsigned (2 ^ 8))
  childSas := childSas entries

/-- The status of a section whose name has a tunnel id after `aifw-`. -/
def sectionStatus (parseUuid : List Char → Option Uuid) (conn : List Char × Entries) :
    Option IpsecLiveStatus :=
  if aifwPrefix.isPrefixOf conn.1 then
    (parseUuid (conn.1.drop aifwPrefix.length)).map fun id => liveStatus id conn.1 conn.2
  else none

/-- A later section of the same name takes the place of an earlier one. -/
def keepStatus (parseUuid : List Char → Option Uuid) (result : KeyedMap (List Char) IpsecLiveStatus)
    (conn : List Char × Entries) : KeyedMap (List Char) IpsecLiveStatus :=
  match sectionStatus parseUuid conn with
  | some status => result.insert conn.1 status
  | none => result

/-- The statuses by the names of their connections. -/
def parseListSas (parseUuid : List Char → Option Uuid) (raw : List Char) :
    KeyedMap (List Char) IpsecLiveStatus :=
  (collectAifwSections (parseEntries none (tokenize raw)).1).foldl (keepStatus parseUuid) ∅

/-- Entries in front of what is read on. -/
def ahead (es : Entries) (r : Entries × List SasToken) : Entries × List SasToken := (es ++ r.1, r.2)

@[simp] theorem ahead_nil (r : Entries × List SasToken) : ahead [] r = r := rfl

@[simp] theorem ahead_ahead (es es' : Entries) (r : Entries × List SasToken) :
    ahead es (ahead es' r) = ahead (es ++ es') r :=
  Prod.ext (List.append_assoc ..).symm rfl

theorem length_after_list (tokens : List SasToken) :
    ((tokens.dropWhile (· ≠ [']'])).drop 1).length ≤ tokens.length := by
  rw [List.length_drop]
  exact (Nat.sub_le _ _).trans (List.dropWhile_sublist _).length_le

theorem length_parseEntriesFrom (fuel : Nat) (pending : Option SasToken)
    (tokens : List SasToken) : (parseEntriesFrom fuel pending tokens).2.length ≤ tokens.length := by
  induction fuel generalizing pending tokens with
  | zero => exact Nat.le_refl _
  | succ fuel ih =>
    cases tokens with
    | nil => exact Nat.le_refl _
    | cons tok tokens =>
      have hskip (pending) := (ih pending tokens).trans (Nat.le_succ _)
      rw [parseEntriesFrom.eq_def]
      dsimp only
      split
      · exact ((ih none _).trans (ih none tokens)).trans (Nat.le_succ _)
      · split
        · exact Nat.le_succ _
        · split
          · cases pending with
            | none => exact hskip none
            | some key =>
              cases tokens with
              | nil => exact hskip none
              | cons tok' tokens =>
                have hlist := length_after_list tokens
                dsimp only
                split
                · have hrest := ih none ((tokens.dropWhile (· ≠ [']'])).drop 1)
                  simp only [List.length_cons]
                  omega
                · split
                  · have hrest := ih none tokens
                    simp only [List.length_cons]
                    omega
                  · exact hskip none
          · exact hskip _

theorem parseEntriesFrom_succ {fuel : Nat} {tokens : List SasToken} (h : tokens.length ≤ fuel)
    (pending : Option SasToken) :
    parseEntriesFrom (fuel + 1) pending tokens = parseEntriesFrom fuel pending tokens := by
  induction fuel generalizing pending tokens with
  | zero =>
    cases List.eq_nil_of_length_eq_zero (Nat.le_zero.mp h)
    rfl
  | succ fuel ih =>
    cases tokens with
    | nil => rfl
    | cons tok tokens =>
      have hlength : tokens.length ≤ fuel := Nat.le_of_succ_le_succ h
      have hskip := ih hlength
      have hinner := ih ((length_parseEntriesFrom fuel none tokens).trans hlength)
      rw [parseEntriesFrom.eq_def, parseEntriesFrom.eq_def (fuel + 1)]
      dsimp only
      rw [hskip, hskip, hinner]
      cases pending with
      | none => rfl
      | some key =>
        cases tokens with
        | nil => rw [ih (Nat.zero_le _)]
        | cons tok' tokens =>
          have htail : tokens.length ≤ fuel := (Nat.le_succ _).trans hlength
          have hvalue := ih htail none
          have hlist := ih ((length_after_list tokens).trans htail) none
          dsimp only
          rw [hvalue, hlist]

/-- More fuel changes nothing. -/
theorem parseEntriesFrom_eq {fuel : Nat} {tokens : List SasToken} (h : tokens.length ≤ fuel)
    (pending : Option SasToken) :
    parseEntriesFrom fuel pending tokens = parseEntries pending tokens := by
  induction fuel, h using Nat.le_induction with
  | base => rfl
  | succ fuel h ih => rw [parseEntriesFrom_succ h, ih]

section Equations
variable (pending : Option SasToken) (rest : List SasToken)

theorem parseEntries_open : parseEntries pending (['{'] :: rest) =
    ahead [(pending.getD [], .nested (parseEntries none rest).1)]
      (parseEntries none (parseEntries none rest).2) := by
  have hinner := length_parseEntriesFrom rest.length none rest
  rw [parseEntries, List.length_cons, parseEntriesFrom.eq_def]
  dsimp only
  rw [if_pos rfl, parseEntriesFrom_eq hinner]
  rfl

theorem parseEntries_close : parseEntries pending (['}'] :: rest) = ([], rest) := rfl

theorem parseEntries_atom {tok : SasToken} (hopen : tok ≠ ['{']) (hclose : tok ≠ ['}'])
    (hequals : tok ≠ ['=']) : parseEntries pending (tok :: rest) = parseEntries (some tok) rest := by
  rw [parseEntries, List.length_cons, parseEntriesFrom.eq_def]
  dsimp only
  rw [if_neg hopen, if_neg hclose, if_neg hequals]
  rfl

theorem parseEntries_stray : parseEntries none (['='] :: rest) = parseEntries none rest := rfl

theorem parseEntries_equals (key tok : SasToken) :
    parseEntries (some key) (['='] :: tok :: rest) =
      if tok = ['['] then
        ahead [(key, .list (rest.takeWhile (· ≠ [']'])))]
          (parseEntries none ((rest.dropWhile (· ≠ [']'])).drop 1))
      else if tok ≠ ['{'] ∧ tok ≠ ['}'] then
        ahead [(key, .value tok)] (parseEntries none rest)
      else parseEntries none (tok :: rest) := by
  have hlist := (length_after_list rest).trans (Nat.le_succ _)
  rw [parseEntries, List.length_cons, parseEntriesFrom.eq_def]
  dsimp only
  rw [if_neg (by decide), if_neg (by decide), if_pos rfl, List.length_cons,
    parseEntriesFrom_eq hlist, parseEntriesFrom_eq (Nat.le_succ _)]
  rfl

theorem parseEntries_list (key : SasToken) {items : List SasToken} (h : [']'] ∉ items) :
    parseEntries (some key) (['='] :: ['['] :: (items ++ [']'] :: rest)) =
      ahead [(key, .list items)] (parseEntries none rest) := by
  have hitems : ∀ t ∈ items, decide (t ≠ [']']) = true := by
    intro t ht
    exact decide_eq_true fun he => h (he ▸ ht)
  rw [parseEntries_equals, if_pos rfl, List.takeWhile_append_of_pos hitems,
    List.dropWhile_append_of_pos hitems, List.takeWhile_cons_of_neg (by decide),
    List.dropWhile_cons_of_neg (by decide), List.append_nil]
  rfl

theorem parseEntries_value (key : SasToken) {tok : SasToken} (hlist : tok ≠ ['['])
    (hopen : tok ≠ ['{']) (hclose : tok ≠ ['}']) :
    parseEntries (some key) (['='] :: tok :: rest) =
      ahead [(key, .value tok)] (parseEntries none rest) := by
  rw [parseEntries_equals, if_neg hlist, if_pos ⟨hopen, hclose⟩]

def isBrace (tok : SasToken) : Bool := tok == ['{'] || tok == ['}']

/-- Nothing is read for a key before a brace. -/
theorem parseEntries_brace (key : SasToken) {tok : SasToken} (h : isBrace tok = true) :
    parseEntries (some key) (['='] :: tok :: rest) = parseEntries none (tok :: rest) := by
  simp only [isBrace, Bool.or_eq_true, beq_iff_eq] at h
  obtain rfl | rfl := h
  · exact parseEntries_equals rest key _
  · exact parseEntries_equals rest key _

end Equations

/-- Between braces, wherever the reading starts: no brace, and a bracket that opens is closed. -/
structure Run (tokens : List SasToken) : Prop where
  braces : ∀ tok ∈ tokens, isBrace tok = false
  brackets : ∀ front back, tokens = front ++ ['['] :: back → [']'] ∈ back

namespace Run

theorem of_suffix (h : Run tokens) (hsuffix : rest <:+ tokens) : Run rest where
  braces := fun tok htok => h.braces tok (hsuffix.mem htok)
  brackets := by
    obtain ⟨before, rfl⟩ := hsuffix
    intro front back he
    exact h.brackets (before ++ front) back (by rw [he, List.append_assoc])

theorem of_plain (hbraces : ∀ tok ∈ tokens, isBrace tok = false) (h : ['['] ∉ tokens) :
    Run tokens where
  braces := hbraces
  brackets := by
    rintro front back rfl
    exact absurd (List.mem_append_right _ List.mem_cons_self) h

/-- A closing bracket comes last. -/
theorem of_closed (hbraces : ∀ tok ∈ tokens, isBrace tok = false)
    (h : tokens.getLast? = some [']']) : Run tokens where
  braces := hbraces
  brackets := by
    rintro front back rfl
    rw [List.getLast?_append_cons] at h
    cases back with
    | nil => cases h
    | cons tok back =>
      rw [List.getLast?_cons_cons] at h
      exact List.mem_of_getLast? h

theorem append (ha : Run a) (hb : Run b) : Run (a ++ b) where
  braces := List.forall_mem_append.mpr ⟨ha.braces, hb.braces⟩
  brackets := by
    intro front back he
    obtain ⟨mid, rfl, he'⟩ | ⟨mid, rfl, he'⟩ := List.append_eq_append_iff.mp he
    · exact hb.brackets mid back he'
    · cases mid with
      | nil => exact hb.brackets [] back he'.symm
      | cons tok mid =>
        cases he'
        exact List.mem_append_left _ (ha.brackets front mid rfl)

theorem flatMap {f : α → List SasToken} {xs : List α} (h : ∀ x ∈ xs, Run (f x)) :
    Run (xs.flatMap f) := by
  induction xs with
  | nil => exact of_plain (List.forall_mem_nil _) List.not_mem_nil
  | cons x xs ih =>
    obtain ⟨hx, hrest⟩ := List.forall_mem_cons.mp h
    exact hx.append (ih hrest)

end Run

/-- Entries without sections. -/
def Flat (es : Entries) : Prop := ∀ key inner, (key, Node.nested inner) ∉ es

theorem Flat.nil : Flat [] := fun _ _ => List.not_mem_nil

theorem Flat.append (ha : Flat a) (hb : Flat b) : Flat (a ++ b) := by
  intro key inner h
  obtain h | h := List.mem_append.mp h
  · exact ha key inner h
  · exact hb key inner h

theorem Flat.list (key : SasToken) (items : List (List Char)) : Flat [(key, .list items)] := by
  intro key inner h
  cases List.mem_singleton.mp h

theorem Flat.value (key : SasToken) (v : List Char) : Flat [(key, .value v)] := by
  intro key inner h
  cases List.mem_singleton.mp h

/-- Up to the next brace, values and lists are read; the last token may be left over as a name. -/
theorem parseEntries_run {tok : SasToken} (htok : isBrace tok = true) {tokens : List SasToken}
    (h : Run tokens) (pending : Option SasToken) :
    ∃ es pending', Flat es ∧ (∀ name ∈ pending', name ∈ tokens.getLast?.or pending) ∧
      ∀ rest, parseEntries pending (tokens ++ tok :: rest) =
        ahead es (parseEntries pending' (tok :: rest)) := by
  induction hn : tokens.length using Nat.strong_induction_on generalizing tokens pending with
  | _ n ih =>
    -- Some entries are read, and the reading goes on with a later part of the run.
    have hgo {es : Entries} (hes : Flat es) (p : Option SasToken) (front : List SasToken)
        {after : List SasToken} (hsplit : tokens = front ++ after) (hfront : front ≠ [])
        (hname : ∀ name ∈ p, name ∈ front.getLast?)
        (hread : ∀ rest, parseEntries pending (tokens ++ tok :: rest) =
          ahead es (parseEntries p (after ++ tok :: rest))) :
        ∃ es pending', Flat es ∧ (∀ name ∈ pending', name ∈ tokens.getLast?.or pending) ∧
          ∀ rest, parseEntries pending (tokens ++ tok :: rest) =
            ahead es (parseEntries pending' (tok :: rest)) := by
      have hlength : after.length < n := by
        have hpos := List.length_pos_iff.mpr hfront
        rw [← hn, hsplit, List.length_append]
        omega
      obtain ⟨es', p', hflat, hleft, hrest⟩ :=
        ih after.length hlength (h.of_suffix ⟨front, hsplit.symm⟩) p rfl
      refine ⟨es ++ es', p', hes.append hflat, ?_, fun rest => by rw [hread, hrest, ahead_ahead]⟩
      intro name hp'
      have hlast := hleft name hp'
      rw [hsplit, List.getLast?_append]
      cases hafter : after.getLast? with
      | some last => rwa [hafter] at hlast
      | none =>
        rw [hafter] at hlast
        rw [Option.none_or, hname name hlast]
        rfl
    cases tokens with
    | nil => exact ⟨[], pending, .nil, fun name hname => hname, fun _ => rfl⟩
    | cons t tokens =>
      have hbrace := h.braces t List.mem_cons_self
      simp only [isBrace, Bool.or_eq_false_iff, beq_eq_false_iff_ne, ne_eq] at hbrace
      by_cases hequals : t = ['=']
      · subst hequals
        cases pending with
        | none =>
          exact hgo .nil none [['=']] rfl (by decide) (fun _ hp => by cases hp)
            fun _ => parseEntries_stray _
        | some key =>
          cases tokens with
          | nil =>
            exact hgo .nil none [['=']] rfl (by decide) (fun _ hp => by cases hp)
              fun _ => parseEntries_brace _ key htok
          | cons t tokens =>
            by_cases hlist : t = ['[']
            · subst hlist
              obtain ⟨items, after, rfl, hitems⟩ :=
                List.eq_append_cons_of_mem (h.brackets [['=']] tokens rfl)
              have hsplit : ['='] :: ['['] :: (items ++ [']'] :: after) =
                  (['='] :: ['['] :: (items ++ [[']']])) ++ after := by
                simp only [List.cons_append, List.append_assoc, List.nil_append]
              refine hgo (.list key items) none _ hsplit (by simp) (fun _ hp => by cases hp) ?_
              intro rest
              rw [← parseEntries_list (after ++ tok :: rest) key hitems]
              simp only [List.cons_append, List.append_assoc]
            · have ht := h.braces t (List.mem_cons_of_mem _ List.mem_cons_self)
              simp only [isBrace, Bool.or_eq_false_iff, beq_eq_false_iff_ne, ne_eq] at ht
              exact hgo (.value key t) none [['='], t] rfl (by simp) (fun _ hp => by cases hp)
                fun _ => parseEntries_value _ key hlist ht.1 ht.2
      · exact hgo .nil (some t) [t] rfl (by simp) (fun _ hp => hp)
          fun _ => parseEntries_atom pending _ hbrace.1 hbrace.2 hequals

/-- Wherever they stand, the tokens are read as the entries. -/
def Reads (tokens : List SasToken) (es : Entries) : Prop :=
  ∀ rest, parseEntries none (tokens ++ rest) = ahead es (parseEntries none rest)

namespace Reads

theorem nil : Reads [] [] := fun _ => rfl

theorem append (ha : Reads a es) (hb : Reads b es') : Reads (a ++ b) (es ++ es') := by
  intro rest
  rw [List.append_assoc, ha, hb, ahead_ahead]

theorem flatMap {f : α → List SasToken} {g : α → Entries} (h : ∀ x, Reads (f x) (g x))
    (xs : List α) : Reads (xs.flatMap f) (xs.flatMap g) := by
  induction xs with
  | nil => exact .nil
  | cons x xs ih => exact (h x).append ih

/-- Up to the end of a section. -/
theorem body (h : Reads tokens es) (rest : List SasToken) :
    parseEntries none (tokens ++ ['}'] :: rest) = (es, rest) := by
  rw [h, parseEntries_close, ahead, List.append_nil]

/-- The section with a name. -/
theorem of_section {name : SasToken} (hopen : name ≠ ['{']) (hclose : name ≠ ['}'])
    (hequals : name ≠ ['=']) {body : List SasToken}
    (h : ∀ rest, parseEntries none (body ++ ['}'] :: rest) = (es, rest)) :
    Reads (name :: ['{'] :: (body ++ [['}']])) [(name, .nested es)] := by
  intro rest
  rw [List.cons_append, List.cons_append, List.append_assoc, List.singleton_append,
    parseEntries_atom _ _ hopen hclose hequals, parseEntries_open, h]
  rfl

end Reads

end AiFw.Vpn
