import AiFw.Lib.Separated
import AiFw.Pf.NatColumns

namespace AiFw.Pf
open AiFw.Lib AiFw.Net
set_option autoImplicit true

/-- A number as `serde_json` keeps it; of a float the bits. -/
inductive JsonNumber where
  | posInt (n : UInt64)
  | negInt (n : Int64)
  | float (bits : UInt64)

inductive JsonValue where
  | null
  | bool (b : Bool)
  | number (n : JsonNumber)
  | string (s : List Char)
  | array (items : List JsonValue)
  | object (entries : List (List Char × JsonValue))

namespace JsonValue

def get (key : String) (entries : List (List Char × JsonValue)) : Option JsonValue :=
  (entries.find? fun e => e.1 = key.toList).map Prod.snd

def asArray : JsonValue → Option (List JsonValue)
  | .array items => some items
  | _ => none

def asStr : JsonValue → Option (List Char)
  | .string s => some s
  | _ => none

def asU64 : JsonValue → Option UInt64
  | .number (.posInt n) => some n
  | _ => none

end JsonValue

namespace Address

def parseAddr (s : List Char) : Except String IpAddr :=
  match IpAddr.parse s with
  | some ip => .ok ip
  | none => .error "invalid IP address syntax"

def serialize (a : Address) : JsonValue := .string a.display

def deserializeTable (map : List (List Char × JsonValue)) : Except String Address :=
  match (JsonValue.get "Table" map).bind JsonValue.asStr with
  | some name => do
    validateTableName name
    return .table name
  | none => .ok .any

def deserializeSingle (map : List (List Char × JsonValue)) : Except String Address :=
  match (JsonValue.get "Single" map).bind JsonValue.asStr with
  | some s => do
    let ip ← parseAddr s
    return .single ip
  | none => deserializeTable map

/-- The older form, `{"Network":["10.0.0.0",8]}`, `{"Single":"1.2.3.4"}` or `{"Table":"name"}`. -/
def deserializeMap (map : List (List Char × JsonValue)) : Except String Address :=
  match (JsonValue.get "Network" map).bind JsonValue.asArray with
  | some [first, second] => do
    let ip ← parseAddr (first.asStr.getD "0.0.0.0".toList)
    return .network ip (second.asU64.getD 32).toUInt8
  | _ => deserializeSingle map

def deserialize : JsonValue → Except String Address
  | .string s => Address.parse s
  | .object map => deserializeMap map
  | _ => .ok .any

/-- What a text writes, blanks around it aside. -/
inductive TextWrites (s : List Char) : Address → Prop where
  | any (h : isAnyWord (lower s) = true) : TextWrites s .any
  | table (h : s = '<' :: name ++ ['>']) (hname : validateTableName name = .ok ()) :
      TextWrites s (.table name)
  | network (h : splitOnce '/' s = some (base, len)) (hbase : IpAddr.parse base = some ip)
      (hlen : parseUnsigned 256 len = some n) (hwidth : n ≤ ip.width) :
      TextWrites s (.network ip (UInt8.ofNat n))
  | single (h : IpAddr.parse s = some ip) : TextWrites s (.single ip)

/-- What a value writes: a text, or an object of the older form with one of its three keys. -/
inductive Writes : JsonValue → Address → Prop where
  | text (h : TextWrites (trim s) a) : Writes (.string s) a
  | network (h : JsonValue.get "Network" map = some (.array [.string base, .number (.posInt n)]))
      (hsingle : JsonValue.get "Single" map = none) (htable : JsonValue.get "Table" map = none)
      (hbase : IpAddr.parse base = some ip) (hwidth : n.toNat ≤ ip.width) :
      Writes (.object map) (.network ip n.toUInt8)
  | single (hnetwork : JsonValue.get "Network" map = none)
      (h : JsonValue.get "Single" map = some (.string s))
      (htable : JsonValue.get "Table" map = none)
      (hs : IpAddr.parse s = some ip) : Writes (.object map) (.single ip)
  | table (hnetwork : JsonValue.get "Network" map = none)
      (hsingle : JsonValue.get "Single" map = none)
      (h : JsonValue.get "Table" map = some (.string name))
      (hname : validateTableName name = .ok ()) :
      Writes (.object map) (.table name)

/-- The object has no pair under `Network`, so that the decoder goes on to the other keys. -/
def NoPair (map : List (List Char × JsonValue)) : Prop :=
  ∀ first second, JsonValue.get "Network" map ≠ some (.array [first, second])

/-- The values that the decoder either refuses or reads as they are written. -/
inductive Faithful : JsonValue → Prop where
  | text (h : ∀ base len ip n, splitOnce '/' (trim s) = some (base, len) →
      IpAddr.parse base = some ip → parseUnsigned 256 len = some n → n ≤ ip.width) :
      Faithful (.string s)
  | network (h : JsonValue.get "Network" map = some (.array [.string base, .number (.posInt n)]))
      (hsingle : JsonValue.get "Single" map = none) (htable : JsonValue.get "Table" map = none)
      (hwidth : ∀ ip, IpAddr.parse base = some ip → n.toNat ≤ ip.width) : Faithful (.object map)
  | badNetwork (h : JsonValue.get "Network" map = some (.array [.string base, second]))
      (hbase : IpAddr.parse base = none) : Faithful (.object map)
  | single (hnetwork : JsonValue.get "Network" map = none)
      (h : JsonValue.get "Single" map = some (.string s))
      (htable : JsonValue.get "Table" map = none) :
      Faithful (.object map)
  | badSingle (hpair : NoPair map) (h : JsonValue.get "Single" map = some (.string s))
      (hs : IpAddr.parse s = none) : Faithful (.object map)
  | table (hnetwork : JsonValue.get "Network" map = none)
      (hsingle : JsonValue.get "Single" map = none)
      (h : JsonValue.get "Table" map = some (.string name)) : Faithful (.object map)
  | badTable (hpair : NoPair map) (hsingle : ∀ s, JsonValue.get "Single" map ≠ some (.string s))
      (h : JsonValue.get "Table" map = some (.string name))
      (hname : validateTableName name ≠ .ok ()) :
      Faithful (.object map)

theorem parse_table_text (h : s.head? = some '<' ∧ s.getLast? = some '>') :
    s = '<' :: s.tail.dropLast ++ ['>'] := by
  obtain ⟨hhead, hlast⟩ := h
  cases s with
  | nil => cases hhead
  | cons c s =>
    cases hhead
    have hne : s ≠ [] := by
      rintro rfl
      cases hlast
    rw [List.getLast?_cons, List.getLast?_eq_some_getLast hne] at hlast
    have hget : s.getLast hne = '>' := Option.some.inj hlast
    rw [List.tail_cons, List.cons_append, ← hget, List.dropLast_append_getLast hne]

/-- A text that splits as a network does is neither a keyword nor a table. -/
theorem parse_of_split (h : splitOnce '/' (trim s) = some (base, len))
    (hbase : IpAddr.parse base = some ip) : Address.parse s = parseIp (trim s) := by
  have htext := splitOnce_eq h
  have hword : isAnyWord (lower (trim s)) = false := by
    rw [Bool.eq_false_iff]
    intro hw
    have hslash : '/' ∈ lower (trim s) := by
      rw [htext, lower, List.map_append]
      exact List.mem_append_right _ List.mem_cons_self
    have hnone : ∀ w ∈ anyWords.map String.toList, '/' ∉ w := by decide
    exact hnone _ (mem_anyWords hw) hslash
  have hhead : (trim s).head? ≠ some '<' := by
    intro hh
    rw [htext] at hh
    cases base with
    | nil => exact IpAddr.parse_ne_nil hbase rfl
    | cons c base =>
      cases hh
      have hc := IpAddr.parse_chars hbase '<' List.mem_cons_self
      revert hc
      decide
  unfold Address.parse
  dsimp only
  rw [if_neg (by rw [hword]; decide), if_neg (fun hh => hhead hh.1)]

theorem faithful_text (s : List Char) :
    (∀ a, Address.parse s = .ok a → TextWrites (trim s) a) ↔
      ∀ base len ip n, splitOnce '/' (trim s) = some (base, len) →
        IpAddr.parse base = some ip → parseUnsigned 256 len = some n → n ≤ ip.width := by
  constructor
  · intro h base len ip n hsplit hbase hlen
    have hparse : Address.parse s = .ok (.network ip (UInt8.ofNat n)) := by
      rw [parse_of_split hsplit hbase, parseIp, hsplit]
      simp only [hbase, hlen]
    have hwrites := h _ hparse
    generalize ha : Address.network ip (UInt8.ofNat n) = a at hwrites
    cases hwrites with
    | any => cases ha
    | table => cases ha
    | single => cases ha
    | network hsplit' hbase' hlen' hwidth =>
      rw [hsplit] at hsplit'
      cases hsplit'
      rw [hbase] at hbase'
      cases hbase'
      rw [hlen] at hlen'
      cases hlen'
      exact hwidth
  · intro h a hparse
    unfold Address.parse at hparse
    dsimp only at hparse
    split at hparse
    next hword =>
      cases hparse
      exact .any hword
    next =>
      split at hparse
      next htable =>
        obtain ⟨_, hname, hparse⟩ := except_bind_ok hparse
        cases hparse
        exact .table (parse_table_text htable) hname
      next =>
        unfold parseIp at hparse
        split at hparse
        next base len hsplit =>
          split at hparse
          · cases hparse
          next ip hbase =>
            split at hparse
            · cases hparse
            next n hlen =>
              cases hparse
              exact .network hsplit hbase hlen (h base len ip n hsplit hbase hlen)
        next =>
          split at hparse
          · cases hparse
          next ip hip =>
            cases hparse
            exact .single hip

theorem parseAddr_ok : parseAddr s = .ok ip ↔ IpAddr.parse s = some ip := by
  unfold parseAddr
  cases IpAddr.parse s with
  | none =>
    constructor
    · intro h
      cases h
    · intro h
      cases h
  | some ip' => simp

theorem asStr_eq_some {v : Option JsonValue} :
    v.bind JsonValue.asStr = some s ↔ v = some (.string s) := by
  cases v with
  | none => simp
  | some v => cases v <;> simp [JsonValue.asStr]

theorem asStr_eq_none {v : Option JsonValue} :
    v.bind JsonValue.asStr = none ↔ ∀ s, v ≠ some (.string s) := by
  rw [← not_iff_not, ← Ne, Option.ne_none_iff_exists']
  simp [asStr_eq_some]

theorem faithful_table (map : List (List Char × JsonValue)) (hpair : NoPair map)
    (hsingle : ∀ s, JsonValue.get "Single" map ≠ some (.string s)) :
    (∀ a, deserializeTable map = .ok a → Writes (.object map) a) ↔ Faithful (.object map) := by
  unfold deserializeTable
  cases htable : (JsonValue.get "Table" map).bind JsonValue.asStr with
  | none =>
    rw [asStr_eq_none] at htable
    constructor
    · intro h
      cases h .any rfl
    · intro h
      cases h with
      | network h => exact absurd h (hpair _ _)
      | badNetwork h => exact absurd h (hpair _ _)
      | single _ h => exact absurd h (hsingle _)
      | badSingle _ h => exact absurd h (hsingle _)
      | table _ _ h => exact absurd h (htable _)
      | badTable _ _ h => exact absurd h (htable _)
  | some name =>
    rw [asStr_eq_some] at htable
    cases hname : validateTableName name with
    | error e =>
      constructor
      · intro _
        refine .badTable hpair hsingle htable ?_
        rw [hname]
        intro h
        cases h
      · intro _ a ha
        simp only [hname] at ha
        cases ha
    | ok _ =>
      constructor
      · intro h
        have hwrites := h (.table name) (by simp only [hname]; rfl)
        cases hwrites with
        | table hnetwork hsingle h _ => exact .table hnetwork hsingle h
      · intro h a ha
        simp only [hname] at ha
        cases ha
        cases h with
        | network h => exact absurd h (hpair _ _)
        | badNetwork h => exact absurd h (hpair _ _)
        | single _ h => exact absurd h (hsingle _)
        | badSingle _ h => exact absurd h (hsingle _)
        | table hnetwork hsingle h => exact .table hnetwork hsingle htable hname
        | badTable _ _ h hbad =>
          rw [htable] at h
          cases h
          exact absurd hname hbad

theorem faithful_single (map : List (List Char × JsonValue)) (hpair : NoPair map) :
    (∀ a, deserializeSingle map = .ok a → Writes (.object map) a) ↔ Faithful (.object map) := by
  unfold deserializeSingle
  cases hsingle : (JsonValue.get "Single" map).bind JsonValue.asStr with
  | none =>
    rw [asStr_eq_none] at hsingle
    exact faithful_table map hpair hsingle
  | some s =>
    rw [asStr_eq_some] at hsingle
    constructor
    · intro h
      cases hs : IpAddr.parse s with
      | none => exact .badSingle hpair hsingle hs
      | some ip =>
        have hwrites := h (.single ip) (by simp only [parseAddr_ok.mpr hs]; rfl)
        cases hwrites with
        | single hnetwork h htable _ => exact .single hnetwork h htable
    · intro h a ha
      obtain ⟨ip, hip, ha⟩ := except_bind_ok ha
      cases ha
      rw [parseAddr_ok] at hip
      cases h with
      | network h => exact absurd h (hpair _ _)
      | badNetwork h => exact absurd h (hpair _ _)
      | single hnetwork h htable => exact .single hnetwork hsingle htable hip
      | badSingle _ h hs =>
        rw [hsingle] at h
        cases h
        rw [hip] at hs
        cases hs
      | table _ hnone _ =>
        rw [hsingle] at hnone
        cases hnone
      | badTable _ hnone _ _ => exact absurd hsingle (hnone s)

theorem asArray_eq_some {v : Option JsonValue} :
    v.bind JsonValue.asArray = some items ↔ v = some (.array items) := by
  cases v with
  | none => simp
  | some v => cases v <;> simp [JsonValue.asArray]

/-- What a pair is read as, where the text before it is an address. -/
theorem deserialize_pair (h : JsonValue.get "Network" map = some (.array [first, second])) :
    deserializeMap map = do
      let ip ← parseAddr (first.asStr.getD "0.0.0.0".toList)
      return .network ip (second.asU64.getD 32).toUInt8 := by
  unfold deserializeMap
  rw [asArray_eq_some.mpr h]

theorem faithful_pair (h : JsonValue.get "Network" map = some (.array [first, second])) :
    (∀ a, deserializeMap map = .ok a → Writes (.object map) a) ↔ Faithful (.object map) := by
  rw [deserialize_pair h]
  have hzero : IpAddr.parse "0.0.0.0".toList = some IpAddr.unspecifiedV4 := by decide +kernel
  constructor
  · intro hall
    cases hbase : IpAddr.parse (first.asStr.getD "0.0.0.0".toList) with
    | none =>
      cases first with
      | string base => exact .badNetwork h hbase
      | _ =>
        change IpAddr.parse "0.0.0.0".toList = none at hbase
        rw [hzero] at hbase
        cases hbase
    | some ip =>
      have hwrites := hall (.network ip (second.asU64.getD 32).toUInt8)
        (by simp only [parseAddr_ok.mpr hbase]; rfl)
      generalize ha : Address.network ip (second.asU64.getD 32).toUInt8 = a at hwrites
      cases hwrites with
      | network h' hsingle htable hbase' hwidth =>
        rw [h] at h'
        cases h'
        refine .network h hsingle htable ?_
        intro ip' hip'
        rw [hbase'] at hip'
        cases hip'
        exact hwidth
      | single hnetwork => cases ha
      | table hnetwork => cases ha
  · intro hf a ha
    obtain ⟨ip, hip, ha⟩ := except_bind_ok ha
    cases ha
    rw [parseAddr_ok] at hip
    cases hf with
    | network h' hsingle htable hwidth =>
      rw [h] at h'
      cases h'
      exact .network h hsingle htable hip (hwidth ip hip)
    | badNetwork h' hbase =>
      rw [h] at h'
      cases h'
      have hsame := hbase.symm.trans hip
      cases hsame
    | single hnetwork _ _ =>
      rw [h] at hnetwork
      cases hnetwork
    | badSingle hpair _ _ => exact absurd h (hpair _ _)
    | table hnetwork _ _ =>
      rw [h] at hnetwork
      cases hnetwork
    | badTable hpair _ _ _ => exact absurd h (hpair _ _)

theorem faithful_map (map : List (List Char × JsonValue)) :
    (∀ a, deserializeMap map = .ok a → Writes (.object map) a) ↔ Faithful (.object map) := by
  by_cases hpair : NoPair map
  · have hsingle : deserializeMap map = deserializeSingle map := by
      unfold deserializeMap
      split
      next first second h => exact absurd (asArray_eq_some.mp h) (hpair first second)
      next => rfl
    rw [hsingle]
    exact faithful_single map hpair
  · unfold NoPair at hpair
    push Not at hpair
    obtain ⟨first, second, h⟩ := hpair
    exact faithful_pair h

theorem faithful_string (s : List Char) :
    (∀ a, deserialize (.string s) = .ok a → Writes (.string s) a) ↔ Faithful (.string s) := by
  have htext := faithful_text s
  constructor
  · intro h
    apply Faithful.text
    apply htext.mp
    intro a ha
    cases h a ha with
    | text hwrites => exact hwrites
  · intro h a ha
    cases h with
    | text h => exact .text (htext.mpr h a ha)

/-- What is neither a text nor an object is read as `any`, which it does not write. -/
theorem faithful_other {v : JsonValue} (h : deserialize v = .ok .any) (hwrites : ¬ Writes v .any)
    (hf : ¬ Faithful v) : (∀ a, deserialize v = .ok a → Writes v a) ↔ Faithful v := by
  constructor
  · intro hall
    exact absurd (hall .any h) hwrites
  · intro hfaithful
    exact absurd hfaithful hf

/-- An address comes back from its text and from its serialization; and a value is refused or read
as the address it writes exactly if it is faithful. -/
theorem keeps_meaning_iff (v : JsonValue) :
    (∀ a : Address, (∀ name, a = .table name → validateTableName name = .ok ()) →
        Address.parse a.display = .ok a ∧ deserialize (serialize a) = .ok a) ∧
      ((∀ a, deserialize v = .ok a → Writes v a) ↔ Faithful v) := by
  constructor
  · intro a hname
    exact ⟨parse_display a hname, parse_display a hname⟩
  · cases v with
    | string s => exact faithful_string s
    | object map => exact faithful_map map
    | null => exact faithful_other rfl (by rintro ⟨⟩) (by rintro ⟨⟩)
    | bool b => exact faithful_other rfl (by rintro ⟨⟩) (by rintro ⟨⟩)
    | number n => exact faithful_other rfl (by rintro ⟨⟩) (by rintro ⟨⟩)
    | array items => exact faithful_other rfl (by rintro ⟨⟩) (by rintro ⟨⟩)

/-- `{"network":["10.0.0.0",8]}`, where a letter is small. -/
def misspelt : JsonValue :=
  .object [("network".toList, .array [.string "10.0.0.0".toList, .number (.posInt 8)])]

/-- A misspelt network becomes every host there is. -/
theorem misspelt_any :
    deserialize misspelt = .ok .any ∧ ¬ ∀ a, deserialize misspelt = .ok a → Writes misspelt a := by
  have hany : deserialize misspelt = .ok .any := by rfl
  refine ⟨hany, ?_⟩
  intro h
  cases h .any hany

end Address
end AiFw.Pf
