import AiFw.Ids.ClientHello
import AiFw.Pf.StateListing

namespace AiFw.Ids
open AiFw.Lib
open AiFw.Pf (decimal decimal_notMem)
set_option autoImplicit true

/-- A field of the fingerprint that the parser stores, counted from the version on. -/
def ja3Field (k : Nat) (payload : Bytes) (buffers : StickyBuffers) : Option (List Char) := do
  let out ← TlsParser.parse payload .toServer buffers
  let stored ← out.2.lookup "tls.ja3_string"
  let text ← fromUtf8 stored
  (splitOn ',' text)[k]?

theorem decimal_inj (h : decimal m = decimal n) : m = n := by
  have hm : m < m + n + 1 := by omega
  have hn : n < m + n + 1 := by omega
  have hparse := parseUnsigned_toDigits hm
  change parseUnsigned (m + n + 1) (decimal m) = some m at hparse
  rw [h, decimal, parseUnsigned_toDigits hn] at hparse
  exact (Option.some.inj hparse).symm

/-- Between two commas there are digits and dashes only. -/
theorem notMem_joinDash (ns : List Nat) : ',' ∉ ['-'].intercalate (ns.map decimal) := by
  induction ns with
  | nil => exact List.not_mem_nil
  | cons n ns ih =>
    have hn : ',' ∉ decimal n := decimal_notMem (by decide) n
    cases ns with
    | nil => simpa using hn
    | cons m ns =>
      rw [List.map_cons, List.map_cons, List.intercalate_cons_cons]
      simp only [List.mem_append, not_or]
      refine ⟨⟨hn, by decide⟩, ih⟩

theorem splitOn_joinDash {ns : List Nat} (hne : ns ≠ []) :
    splitOn '-' (['-'].intercalate (ns.map decimal)) = ns.map decimal := by
  apply splitOn_intercalate
  · intro p hp
    obtain ⟨n, _, rfl⟩ := List.mem_map.mp hp
    exact decimal_notMem (by decide) n
  · rwa [Ne, List.map_eq_nil_iff]

theorem joinDash_ne_nil (n : Nat) (ns : List Nat) :
    ['-'].intercalate ((n :: ns).map decimal) ≠ [] := by
  intro h
  have hsplit := splitOn_joinDash (List.cons_ne_nil n ns)
  rw [h, List.map_cons] at hsplit
  have hdigits : decimal n = [] := (List.cons.inj hsplit).1.symm
  exact Nat.toDigits_ne_nil hdigits

theorem joinDash_inj {ms ns : List Nat}
    (h : ['-'].intercalate (ms.map decimal) = ['-'].intercalate (ns.map decimal)) : ms = ns := by
  cases ms with
  | nil =>
    cases ns with
    | nil => rfl
    | cons n ns => exact absurd h.symm (joinDash_ne_nil n ns)
  | cons m ms =>
    cases ns with
    | nil => exact absurd h (joinDash_ne_nil m ms)
    | cons n ns =>
      have hsplit := splitOn_joinDash (List.cons_ne_nil m ms)
      rw [h, splitOn_joinDash (List.cons_ne_nil n ns)] at hsplit
      exact (List.map_injective_iff.mpr (fun _ _ => decimal_inj) hsplit).symm

theorem joinNumbers_eq (values : List UInt16) :
    TlsParser.joinNumbers values = ['-'].intercalate ((values.map UInt16.toNat).map decimal) := by
  rw [List.map_map]
  rfl

theorem joinFormats_eq (formats : Bytes) :
    TlsParser.joinDash (formats.map fun f => decimal f.toNat) =
      ['-'].intercalate ((formats.map UInt8.toNat).map decimal) := by
  rw [List.map_map]
  rfl

theorem joinNumbers_inj (h : TlsParser.joinNumbers values = TlsParser.joinNumbers values') :
    values = values' := by
  rw [joinNumbers_eq, joinNumbers_eq] at h
  exact List.map_injective_iff.mpr (fun _ _ => UInt16.toNat_inj.mp) (joinDash_inj h)

theorem joinFormats_inj {formats formats' : Bytes}
    (h : TlsParser.joinDash (formats.map fun f => decimal f.toNat) =
      TlsParser.joinDash (formats'.map fun f => decimal f.toNat)) : formats = formats' := by
  rw [joinFormats_eq, joinFormats_eq] at h
  exact List.map_injective_iff.mpr (fun _ _ => UInt8.toNat_inj.mp) (joinDash_inj h)

/-- The five fields of a hello. -/
def ja3Fields (h : HelloFields) : List (List Char) :=
  [decimal h.version.toNat, TlsParser.joinNumbers (h.ciphers.filter TlsParser.notGrease),
    TlsParser.joinNumbers ((h.extensions.map WireExtension.extType).filter TlsParser.notGrease),
    TlsParser.joinNumbers ((blockCurves h.extensions).filter TlsParser.notGrease),
    TlsParser.joinDash ((blockFormats h.extensions).map fun f => decimal f.toNat)]

theorem notMem_ja3Fields (h : HelloFields) : ∀ p ∈ ja3Fields h, ',' ∉ p := by
  have hnumbers (values : List UInt16) : ',' ∉ TlsParser.joinNumbers values := by
    rw [joinNumbers_eq]
    exact notMem_joinDash _
  intro p hp
  simp only [ja3Fields, List.mem_cons, List.not_mem_nil, or_false] at hp
  rcases hp with rfl | rfl | rfl | rfl | rfl
  · exact decimal_notMem (by decide) _
  · exact hnumbers _
  · exact hnumbers _
  · exact hnumbers _
  · rw [joinFormats_eq]
    exact notMem_joinDash _

theorem ja3Field_record (h : ClientHello) (recordVersion : UInt16) (trailing : Bytes)
    (buffers : StickyBuffers) (k : Nat) :
    ja3Field k (h.record recordVersion ++ trailing) buffers = (ja3Fields h.toHelloFields)[k]? := by
  obtain ⟨⟨result, buffers'⟩, hparse, -, s, hblock, rfl⟩ :=
    TlsParser.parse_reads h recordVersion trailing buffers
  have htext : TlsParser.ja3Str h.version (h.ciphers.filter TlsParser.notGrease) s.extensions
      s.ellipticCurves s.ecPointFormats = [','].intercalate (ja3Fields h.toHelloFields) := by
    rw [hblock.extensions, hblock.curves, hblock.formats]
    rfl
  have hsplit : splitOn ',' ([','].intercalate (ja3Fields h.toHelloFields)) =
      ja3Fields h.toHelloFields :=
    splitOn_intercalate (notMem_ja3Fields _) (List.cons_ne_nil _ _)
  rw [ja3Field, hparse, Option.bind_eq_bind, Option.bind_some, AList.lookup_insert,
    Option.bind_eq_bind, Option.bind_some, utf8Bytes, fromUtf8_encoded, Option.bind_eq_bind,
    Option.bind_some, htext, hsplit]

namespace WireExtension

/-- Its list goes into the fingerprint. -/
def isListed (e : WireExtension) : Bool := e.extType == 0x000a || e.extType == 0x000b

/-- How many bytes the list takes of those after its body, if that many are there. -/
def reach (e : WireExtension) (after : Nat) : Nat :=
  match e.body with
  | [] => 0
  | n :: list =>
    if e.extType = 0x000b then min n.toNat (list.length + after) - list.length
    else
      match list with
      | [] => 0
      | b :: list =>
        if e.extType = 0x000a then
          2 * (min (fromBe16 n b).toNat (list.length + after) / 2) - list.length
        else 0

end WireExtension

/-- Blocks of the same types, with other bodies at most where an extension that is not listed comes
after one that is. -/
inductive DifferLater : Bool → List WireExtension → List WireExtension → Prop
  | nil : DifferLater later [] []
  | same (e : WireExtension) {es es' : List WireExtension} :
      DifferLater (later || e.isListed) es es' → DifferLater later (e :: es) (e :: es')
  | body (e e' : WireExtension) {es es' : List WireExtension} : e.isListed = false →
      e'.extType = e.extType → DifferLater true es es' → DifferLater true (e :: es) (e' :: es')

/-- Hellos that are the same apart from the bodies of later extensions. -/
structure HellosDifferLater (h h' : HelloFields) : Prop where
  fields : { h with extensions := h'.extensions } = h'
  later : DifferLater false h.extensions h'.extensions

/-- The bodies are as long as those of the other block. -/
def SameLengths (es es' : List WireExtension) : Prop :=
  es'.map (fun e => e.body.length) = es.map fun e => e.body.length

/-- The bytes of a block that are inside the body of an extension that is not listed. -/
def otherBytes : List WireExtension → List Bool
  | [] => []
  | e :: es => List.replicate 4 false ++ List.replicate e.body.length (!e.isListed) ++ otherBytes es

/-- No list takes a byte of the body of an extension that is not listed. -/
def listsKeepOut : List WireExtension → Bool
  | [] => true
  | e :: es =>
    !((otherBytes es).take (e.reach (extensionBlock es).length)).contains true && listsKeepOut es

/-- The length of the list is not more than what its body has. -/
def WireExtension.listInside (e : WireExtension) : Bool :=
  match e.body with
  | [] => true
  | n :: list =>
    if e.extType = 0x000b then n.toNat ≤ list.length
    else
      match list with
      | [] => true
      | b :: list => e.extType != 0x000a || (fromBe16 n b).toNat ≤ list.length

/-- Curves and point formats of the fingerprint are the same. -/
def SameLists (h h' : ClientHello) : Prop :=
  ∀ recordVersion trailing buffers, ∀ k ∈ [3, 4],
    ja3Field k (h'.record recordVersion ++ trailing) buffers =
      ja3Field k (h.record recordVersion ++ trailing) buffers

/-- A last byte on its own does not count. -/
theorem pairs_even (l : Bytes) : pairs (l.take (2 * (l.length / 2))) = pairs l := by
  induction l using pairs.induct with
  | case1 a b rest ih =>
    have hcount : 2 * ((a :: b :: rest).length / 2) = 2 * (rest.length / 2) + 2 := by
      simp only [List.length_cons]
      omega
    rw [hcount]
    exact congrArg (fromBe16 a b :: ·) ih
  | case2 l hl =>
    match l, hl with
    | [], _ => rfl
    | [a], _ => simp [pairs]
    | a :: b :: rest, hl => exact absurd rfl (hl a b rest)

theorem pairs_take (l : Bytes) (n : Nat) :
    pairs (l.take n) = pairs (l.take (2 * (min n l.length / 2))) := by
  have hle : 2 * (min n l.length / 2) ≤ n := by omega
  rw [← pairs_even (l.take n), List.length_take, List.take_take, Nat.min_eq_left hle]

theorem pairs_inj {l l' : Bytes} (hlength : l.length = l'.length) (heven : l.length % 2 = 0)
    (h : pairs l = pairs l') : l = l' := by
  induction l using pairs.induct generalizing l' with
  | case1 a b rest ih =>
    match l', hlength with
    | a' :: b' :: rest', hlength =>
      have hcons : fromBe16 a b :: pairs rest = fromBe16 a' b' :: pairs rest' := h
      obtain ⟨hfirst, hrest⟩ := List.cons.inj hcons
      obtain ⟨rfl, rfl⟩ := fromBe16_inj hfirst
      simp only [List.length_cons] at hlength heven
      rw [ih (by omega) (by omega) hrest]
  | case2 l hl =>
    match l, hl, heven with
    | [], _, _ => exact (List.length_eq_zero_iff.mp hlength.symm).symm
    | a :: b :: rest, hl, _ => exact absurd rfl (hl a b rest)

namespace WireExtension
variable (e : WireExtension)

/-- The bytes that the list takes, of its own body and of those after it. -/
def taken (after : Bytes) : Bytes :=
  match e.body with
  | [] => []
  | n :: list =>
    if e.extType = 0x000b then (list ++ after).take (min n.toNat (list.length + after.length))
    else
      match list with
      | [] => []
      | b :: list =>
        if e.extType = 0x000a then
          (list ++ after).take (2 * (min (fromBe16 n b).toNat (list.length + after.length) / 2))
        else []

theorem curves_eq (after : Bytes) :
    e.curves after = if e.extType = 0x000a then pairs (e.taken after) else [] := by
  by_cases htype : e.extType = 0x000a
  · have hne : e.extType ≠ 0x000b := by
      rw [htype]
      decide
    rw [curves, taken, if_pos htype]
    cases e.body with
    | nil => rfl
    | cons a body =>
      cases body with
      | nil =>
        simp only [if_neg hne]
        rfl
      | cons b list =>
        simp only [if_neg hne, if_pos htype]
        rw [pairs_take, List.length_append]
  · rw [if_neg htype]
    exact e.curves_eq_nil (fun h => htype h.1) after

theorem formats_eq (after : Bytes) :
    e.formats after = if e.extType = 0x000b then e.taken after else [] := by
  by_cases htype : e.extType = 0x000b
  · rw [formats, taken, if_pos htype]
    cases e.body with
    | nil => rfl
    | cons n list =>
      simp only [if_pos htype]
      rw [← List.length_append, ← List.take_take, List.take_length]
  · rw [if_neg htype]
    exact e.formats_eq_nil (fun h => htype h.1) after

theorem ne_of_not_listed {e : WireExtension} (h : e.isListed = false) :
    e.extType ≠ 0x000a ∧ e.extType ≠ 0x000b := by
  rw [isListed, Bool.or_eq_false_iff, beq_eq_false_iff_ne, beq_eq_false_iff_ne] at h
  exact h

theorem taken_of_not_listed (h : e.isListed = false) (after : Bytes) : e.taken after = [] := by
  obtain ⟨hgroups, hformats⟩ := ne_of_not_listed h
  rw [taken]
  cases e.body with
  | nil => rfl
  | cons n body =>
    cases body with
    | nil => simp only [if_neg hformats]
    | cons b list => simp only [if_neg hformats, if_neg hgroups]

/-- What is taken is so much of the list's own bytes and of those after the body. -/
theorem taken_front : ∃ (own : Bytes) (count : Nat → Nat), ∀ after : Bytes,
    e.taken after = (own ++ after).take (count after.length) ∧
      e.reach after.length = count after.length - own.length := by
  unfold taken reach
  match e.body with
  | [] => exact ⟨[], fun _ => 0, fun _ => ⟨rfl, rfl⟩⟩
  | [n] =>
    by_cases hformats : e.extType = 0x000b
    · simp only [if_pos hformats]
      exact ⟨[], fun after => min n.toNat (([] : Bytes).length + after), fun _ => ⟨rfl, rfl⟩⟩
    · simp only [if_neg hformats]
      exact ⟨[], fun _ => 0, fun _ => ⟨rfl, rfl⟩⟩
  | n :: b :: list =>
    by_cases hformats : e.extType = 0x000b
    · simp only [if_pos hformats]
      exact ⟨b :: list, fun after => min n.toNat ((b :: list).length + after),
        fun _ => ⟨rfl, rfl⟩⟩
    · by_cases hgroups : e.extType = 0x000a
      · simp only [if_neg hformats, if_pos hgroups]
        exact ⟨list, fun after => 2 * (min (fromBe16 n b).toNat (list.length + after) / 2),
          fun _ => ⟨rfl, rfl⟩⟩
      · simp only [if_neg hformats, if_neg hgroups]
        exact ⟨[], fun _ => 0, fun _ => ⟨rfl, rfl⟩⟩

/-- What is taken of the bytes after the body decides what is taken. -/
theorem taken_eq_iff {after after' : Bytes} (hlength : after'.length = after.length) :
    e.taken after' = e.taken after ↔
      after'.take (e.reach after.length) = after.take (e.reach after.length) := by
  obtain ⟨own, count, hfront⟩ := e.taken_front
  rw [(hfront after').1, (hfront after).1, (hfront after).2, hlength, List.take_append,
    List.take_append, List.append_right_inj]

/-- The groups are read in whole pairs. -/
theorem even_length_taken (hgroups : e.extType = 0x000a) (after : Bytes) :
    (e.taken after).length % 2 = 0 := by
  have hformats : e.extType ≠ 0x000b := by
    rw [hgroups]
    decide
  rw [taken]
  match e.body with
  | [] => rfl
  | [n] => simp [hformats]
  | n :: b :: list =>
    simp only [if_neg hformats, if_pos hgroups, List.length_take, List.length_append]
    omega

theorem length_taken {after after' : Bytes} (hlength : after'.length = after.length) :
    (e.taken after').length = (e.taken after).length := by
  obtain ⟨own, count, hfront⟩ := e.taken_front
  rw [(hfront after').1, (hfront after).1, List.length_take, List.length_take, List.length_append,
    List.length_append, hlength]

/-- The lists in the fingerprint are the same exactly if the same bytes are taken. -/
theorem lists_eq_iff {after after' : Bytes} (hlength : after'.length = after.length) :
    (e.curves after' = e.curves after ∧ e.formats after' = e.formats after) ↔
      e.taken after' = e.taken after := by
  rw [curves_eq, curves_eq, formats_eq, formats_eq]
  by_cases hgroups : e.extType = 0x000a
  · have hformats : e.extType ≠ 0x000b := by
      rw [hgroups]
      decide
    rw [if_pos hgroups, if_pos hgroups, if_neg hformats, if_neg hformats]
    constructor
    · intro h
      exact pairs_inj (e.length_taken hlength) (e.even_length_taken hgroups after') h.1
    · intro h
      exact ⟨congrArg pairs h, rfl⟩
  · rw [if_neg hgroups, if_neg hgroups]
    by_cases hformats : e.extType = 0x000b
    · rw [if_pos hformats, if_pos hformats]
      exact and_iff_right rfl
    · have hother : e.isListed = false := by
        rw [isListed, beq_false_of_ne hgroups, beq_false_of_ne hformats]
        rfl
      rw [if_neg hformats, if_neg hformats, e.taken_of_not_listed hother,
        e.taken_of_not_listed hother]
      exact iff_of_true ⟨rfl, rfl⟩ rfl

theorem lists_of_not_listed (h : e.isListed = false) (after : Bytes) :
    e.curves after = [] ∧ e.formats after = [] := by
  rw [curves_eq, formats_eq, e.taken_of_not_listed h]
  exact ⟨ite_self _, ite_self _⟩

end WireExtension

theorem isListed_of_type {e e' : WireExtension} (h : e'.extType = e.extType) :
    e'.isListed = e.isListed := by
  rw [WireExtension.isListed, WireExtension.isListed, h]

/-- An extension that is not listed adds nothing to the lists. -/
theorem lists_cons_of_not_listed {e : WireExtension} (h : e.isListed = false)
    (es : List WireExtension) :
    blockCurves (e :: es) = blockCurves es ∧ blockFormats (e :: es) = blockFormats es := by
  obtain ⟨hcurves, hformats⟩ := e.lists_of_not_listed h (extensionBlock es)
  rw [blockCurves, blockFormats, hcurves, hformats]
  exact ⟨rfl, rfl⟩

/-- Bytes that are the same where they are not marked. -/
inductive AgreeOutside : List Bool → Bytes → Bytes → Prop
  | nil : AgreeOutside [] [] []
  | same : AgreeOutside marks a b → AgreeOutside (false :: marks) (x :: a) (x :: b)
  | marked : AgreeOutside marks a b → AgreeOutside (true :: marks) (x :: a) (y :: b)

namespace AgreeOutside

theorem append (h : AgreeOutside marks a b) (h' : AgreeOutside marks' a' b') :
    AgreeOutside (marks ++ marks') (a ++ a') (b ++ b') := by
  induction h with
  | nil => exact h'
  | same _ ih => exact .same ih
  | marked _ ih => exact .marked ih

theorem refl (marks : List Bool) (a : Bytes) (h : marks.length = a.length) :
    AgreeOutside marks a a := by
  induction marks generalizing a with
  | nil =>
    obtain rfl := List.length_eq_zero_iff.mp h.symm
    exact .nil
  | cons mark marks ih =>
    match a, h with
    | x :: a, h =>
      cases mark with
      | false => exact .same (ih a (Nat.succ.inj h))
      | true => exact .marked (ih a (Nat.succ.inj h))

theorem all_marked {a b : Bytes} (h : b.length = a.length) :
    AgreeOutside (List.replicate a.length true) a b := by
  induction a generalizing b with
  | nil =>
    obtain rfl := List.length_eq_zero_iff.mp h
    exact .nil
  | cons x a ih =>
    match b, h with
    | y :: b, h => exact .marked (ih (Nat.succ.inj h))

theorem take_eq (h : AgreeOutside marks a b) (hn : (marks.take n).contains true = false) :
    b.take n = a.take n := by
  induction h generalizing n with
  | nil => rfl
  | same _ ih =>
    cases n with
    | zero => rfl
    | succ n =>
      rw [List.take_succ_cons, List.contains_cons] at hn
      rw [List.take_succ_cons, List.take_succ_cons, ih hn]
  | marked _ ih =>
    cases n with
    | zero => rfl
    | succ n => cases hn

end AgreeOutside

theorem length_encode (e : WireExtension) : e.encode.length = 4 + e.body.length := by
  rw [WireExtension.encode, List.length_append]
  rfl

theorem SameLengths.of_cons (h : SameLengths (e :: es) (e' :: es')) :
    e'.body.length = e.body.length ∧ SameLengths es es' := by
  rw [SameLengths, List.map_cons, List.map_cons] at h
  exact List.cons.inj h

theorem DifferLater.agree (h : DifferLater later es es') (hlengths : SameLengths es es') :
    AgreeOutside (otherBytes es) (extensionBlock es) (extensionBlock es') := by
  induction h with
  | nil => exact .nil
  | @same later e es es' _ ih =>
    obtain ⟨-, hrest⟩ := hlengths.of_cons
    apply AgreeOutside.append _ (ih hrest)
    apply AgreeOutside.refl
    rw [length_encode, List.length_append, List.length_replicate, List.length_replicate]
  | @body e e' es es' hother htype _ ih =>
    obtain ⟨hlength, hrest⟩ := hlengths.of_cons
    apply AgreeOutside.append _ (ih hrest)
    rw [hother, WireExtension.encode, WireExtension.encode, htype, hlength]
    apply AgreeOutside.append _ (.all_marked hlength)
    exact .refl _ _ rfl

theorem SameLengths.block (h : SameLengths es es') :
    (extensionBlock es').length = (extensionBlock es).length := by
  have hlength (es : List WireExtension) : (extensionBlock es).length =
      ((es.map fun e => e.body.length).map (4 + ·)).sum := by
    rw [extensionBlock, List.length_flatMap, List.map_map]
    congr 1
    exact List.map_congr_left fun e _ => length_encode e
  rw [hlength, hlength, h]

/-- Lists that take no byte of another body do not depend on it. -/
theorem DifferLater.lists_eq (h : DifferLater later es es') (hlengths : SameLengths es es')
    (hkeep : listsKeepOut es = true) :
    blockCurves es' = blockCurves es ∧ blockFormats es' = blockFormats es := by
  induction h with
  | nil => exact ⟨rfl, rfl⟩
  | @same later e es es' hrest ih =>
    obtain ⟨-, hes⟩ := hlengths.of_cons
    rw [listsKeepOut, Bool.and_eq_true, Bool.not_eq_true'] at hkeep
    obtain ⟨hcurves, hformats⟩ := ih hes hkeep.2
    have htake := (hrest.agree hes).take_eq hkeep.1
    obtain ⟨hc, hf⟩ := (e.lists_eq_iff hes.block).mpr ((e.taken_eq_iff hes.block).mpr htake)
    simp only [blockCurves, blockFormats, hc, hf, hcurves, hformats]
    exact ⟨trivial, trivial⟩
  | @body e e' es es' hother htype hrest ih =>
    obtain ⟨-, hes⟩ := hlengths.of_cons
    rw [listsKeepOut, Bool.and_eq_true] at hkeep
    have hother' : e'.isListed = false := (isListed_of_type htype).trans hother
    obtain ⟨hc, hf⟩ := lists_cons_of_not_listed hother es
    obtain ⟨hc', hf'⟩ := lists_cons_of_not_listed hother' es'
    rw [hc, hf, hc', hf']
    exact ih hes hkeep.2

/-- A byte that was changed is none of those that a value without meaning consists of. -/
def Changed (x y : UInt8) : Prop := x = y ∨ x ≠ y ∧ y.toNat % 16 ≠ 10

def ChangedPair (v w : UInt16) : Prop := v = w ∨ v ≠ w ∧ TlsParser.notGrease w = true

theorem grease_bytes (h : TlsParser.notGrease v = false) :
    v.toNat % 16 = 10 ∧ v.toNat / 256 % 16 = 10 := by
  have hmask : v.toNat &&& 0x0f0f = 0x0a0a := by
    rw [TlsParser.notGrease, bne_eq_false_iff_eq] at h
    exact congrArg UInt16.toNat h
  constructor
  · have hlow := congrArg (· &&& 15) hmask
    rw [Nat.and_assoc] at hlow
    rw [← Nat.and_two_pow_sub_one_eq_mod v.toNat 4]
    exact hlow
  · have hhigh := congrArg (· >>> 8) hmask
    rw [Nat.shiftRight_and_distrib, Nat.shiftRight_eq_div_pow] at hhigh
    rw [← Nat.and_two_pow_sub_one_eq_mod (v.toNat / 256) 4]
    exact hhigh

theorem changedPair_of_changed (ha : Changed a a') (hb : Changed b b') :
    ChangedPair (fromBe16 a b) (fromBe16 a' b') := by
  by_cases hsame : a = a' ∧ b = b'
  · obtain ⟨rfl, rfl⟩ := hsame
    exact .inl rfl
  · right
    refine ⟨fun h => hsame (fromBe16_inj h), ?_⟩
    by_contra hgrease
    obtain ⟨hlow, hhigh⟩ := grease_bytes (Bool.eq_false_iff.mpr hgrease)
    rw [fromBe16_toNat] at hlow hhigh
    have hb256 := b'.toNat_lt
    obtain rfl | ⟨_, ha⟩ := ha
    · obtain rfl | ⟨_, hb⟩ := hb
      · exact hsame ⟨rfl, rfl⟩
      · omega
    · omega

theorem pairs_changed {a b : Bytes} (h : List.Forall₂ Changed a b) :
    List.Forall₂ ChangedPair (pairs a) (pairs b) := by
  induction a using pairs.induct generalizing b with
  | case1 x y rest ih =>
    obtain ⟨x', b', hx, hb', rfl⟩ := List.forall₂_cons_left_iff.mp h
    obtain ⟨y', rest', hy, hrest, rfl⟩ := List.forall₂_cons_left_iff.mp hb'
    exact .cons (changedPair_of_changed hx hy) (ih hrest)
  | case2 a ha =>
    match a, ha with
    | [], _ =>
      obtain rfl := List.forall₂_nil_left_iff.mp h
      exact .nil
    | [x], _ =>
      obtain ⟨y, b', _, hb', rfl⟩ := List.forall₂_cons_left_iff.mp h
      obtain rfl := List.forall₂_nil_left_iff.mp hb'
      exact .nil
    | x :: y :: rest, ha => exact absurd rfl (ha x y rest)

/-- A change that makes values count shows in those that count. -/
theorem filter_changed (h : List.Forall₂ ChangedPair vs ws) :
    (vs.filter TlsParser.notGrease).length ≤ (ws.filter TlsParser.notGrease).length ∧
      (vs.filter TlsParser.notGrease = ws.filter TlsParser.notGrease → vs = ws) := by
  induction h with
  | nil => exact ⟨Nat.le_refl _, fun _ => rfl⟩
  | @cons v w vs ws hvw _ ih =>
    obtain ⟨hle, hinj⟩ := ih
    obtain rfl | ⟨hne, hw⟩ := hvw
    · by_cases hv : TlsParser.notGrease v = true
      · rw [List.filter_cons_of_pos hv, List.filter_cons_of_pos hv]
        refine ⟨Nat.succ_le_succ hle, fun h => ?_⟩
        rw [hinj (List.cons.inj h).2]
      · rw [List.filter_cons_of_neg hv, List.filter_cons_of_neg hv]
        refine ⟨hle, fun h => ?_⟩
        rw [hinj h]
    · rw [List.filter_cons_of_pos hw]
      by_cases hv : TlsParser.notGrease v = true
      · rw [List.filter_cons_of_pos hv]
        exact ⟨Nat.succ_le_succ hle, fun h => absurd (List.cons.inj h).1 hne⟩
      · rw [List.filter_cons_of_neg hv]
        refine ⟨Nat.le_succ_of_le hle, fun h => ?_⟩
        rw [h, List.length_cons] at hle
        omega

theorem taken_changed (e : WireExtension) (h : List.Forall₂ Changed after after') :
    List.Forall₂ Changed (e.taken after) (e.taken after') := by
  obtain ⟨own, count, hfront⟩ := e.taken_front
  rw [(hfront after).1, (hfront after').1, ← h.length_eq]
  apply List.forall₂_take
  exact List.rel_append (List.forall₂_same.mpr fun _ _ => .inl rfl) h

theorem curves_changed (e : WireExtension) (h : List.Forall₂ Changed after after') :
    List.Forall₂ ChangedPair (e.curves after) (e.curves after') := by
  rw [e.curves_eq, e.curves_eq]
  by_cases hgroups : e.extType = 0x000a
  · rw [if_pos hgroups, if_pos hgroups]
    exact pairs_changed (taken_changed e h)
  · rw [if_neg hgroups, if_neg hgroups]
    exact .nil

/-- The byte at a place of a block, set where it is inside of a body. -/
def setByte : List WireExtension → Nat → UInt8 → List WireExtension
  | [], _, _ => []
  | e :: es, p, v =>
    if p < 4 + e.body.length then { e with body := e.body.set (p - 4) v } :: es
    else e :: setByte es (p - (4 + e.body.length)) v

theorem DifferLater.refl (later : Bool) (es : List WireExtension) : DifferLater later es es := by
  induction es generalizing later with
  | nil => exact .nil
  | cons e es ih => exact .same e (ih _)

theorem extensionBlock_cons (e : WireExtension) (es : List WireExtension) :
    extensionBlock (e :: es) = e.encode ++ extensionBlock es := rfl

/-- A marked byte is inside of the body of an extension that is not listed. -/
theorem inside_of_marked {n : Nat} {listed : Bool}
    (h : (List.replicate 4 false ++ List.replicate n (!listed))[p]? = some true) :
    4 ≤ p ∧ listed = false := by
  by_cases hp : p < 4
  · rw [List.getElem?_append_left (by rwa [List.length_replicate]), List.getElem?_replicate,
      if_pos hp] at h
    cases h
  · have hle : (List.replicate 4 false).length ≤ p := by
      rw [List.length_replicate]
      exact Nat.not_lt.mp hp
    rw [List.getElem?_append_right hle] at h
    have hmark := List.eq_of_mem_replicate (List.mem_of_getElem? h)
    cases listed with
    | false => exact ⟨Nat.not_lt.mp hp, rfl⟩
    | true => cases hmark

theorem encode_set (e : WireExtension) (hp : 4 ≤ p) (v : UInt8) :
    { e with body := e.body.set (p - 4) v }.encode = e.encode.set p v := by
  have hheader : (be16 e.extType ++ be16 (UInt16.ofNat e.body.length)).length = 4 := rfl
  have hset : e.encode.set p v = be16 e.extType ++ be16 (UInt16.ofNat e.body.length) ++
      e.body.set (p - 4) v := by
    rw [WireExtension.encode, List.set_append_right _ _ (by rwa [hheader]), hheader]
  rw [hset, WireExtension.encode, List.length_set]

theorem setByte_spec {es : List WireExtension} (h : (otherBytes es)[p]? = some true) (v : UInt8) :
    DifferLater true es (setByte es p v) ∧ SameLengths es (setByte es p v) ∧
      extensionBlock (setByte es p v) = (extensionBlock es).set p v := by
  induction es generalizing p with
  | nil => cases h
  | cons e es ih =>
    have hmarks : (List.replicate 4 false ++ List.replicate e.body.length (!e.isListed)).length =
        4 + e.body.length := by
      rw [List.length_append, List.length_replicate, List.length_replicate]
    rw [otherBytes] at h
    by_cases hp : p < 4 + e.body.length
    · rw [List.getElem?_append_left (by rwa [hmarks])] at h
      obtain ⟨hinside, hother⟩ := inside_of_marked h
      rw [setByte, if_pos hp]
      refine ⟨.body e _ hother rfl (.refl _ _), ?_, ?_⟩
      · rw [SameLengths, List.map_cons, List.map_cons, List.length_set]
      · rw [extensionBlock_cons, extensionBlock_cons, encode_set e hinside,
          List.set_append_left _ _ (by rwa [length_encode])]
    · have hle := Nat.not_lt.mp hp
      rw [List.getElem?_append_right (by rwa [hmarks]), hmarks] at h
      obtain ⟨hdiffer, hlengths, hblock⟩ := ih h
      rw [setByte, if_neg hp]
      refine ⟨.same e (by rwa [Bool.true_or]), ?_, ?_⟩
      · rw [SameLengths, List.map_cons, List.map_cons, hlengths]
      · rw [extensionBlock_cons, extensionBlock_cons, hblock,
          List.set_append_right _ _ (by rwa [length_encode]), length_encode]

theorem set_changed {a : Bytes} (hp : p < a.length) (hv : v.toNat % 16 ≠ 10) :
    List.Forall₂ Changed a (a.set p v) := by
  have hrefl (a : Bytes) : List.Forall₂ Changed a a := List.forall₂_same.mpr fun _ _ => .inl rfl
  induction a generalizing p with
  | nil => cases hp
  | cons x a ih =>
    cases p with
    | zero =>
      have hx : Changed x v := by
        by_cases h : x = v
        · exact .inl h
        · exact .inr ⟨h, hv⟩
      exact .cons hx (hrefl a)
    | succ p => exact .cons (.inl rfl) (ih (Nat.lt_of_succ_lt_succ hp))

theorem formats_changed (e : WireExtension) (h : List.Forall₂ Changed after after') :
    List.Forall₂ Changed (e.formats after) (e.formats after') := by
  rw [e.formats_eq, e.formats_eq]
  by_cases hformats : e.extType = 0x000b
  · rw [if_pos hformats, if_pos hformats]
    exact taken_changed e h
  · rw [if_neg hformats, if_neg hformats]
    exact .nil

theorem length_otherBytes (es : List WireExtension) :
    (otherBytes es).length = (extensionBlock es).length := by
  induction es with
  | nil => rfl
  | cons e es ih =>
    rw [otherBytes, extensionBlock_cons, List.length_append, List.length_append, ih,
      List.length_append, List.length_replicate, List.length_replicate, length_encode]

theorem reach_of_not_listed {e : WireExtension} (h : e.isListed = false) (after : Nat) :
    e.reach after = 0 := by
  obtain ⟨hgroups, hformats⟩ := WireExtension.ne_of_not_listed h
  rw [WireExtension.reach]
  match e.body with
  | [] => rfl
  | [n] => simp only [if_neg hformats]
  | n :: b :: list => simp only [if_neg hformats, if_neg hgroups]

/-- The first extension of a block decides what it adds to the lists. -/
theorem lists_cons_eq {e : WireExtension} {es es' : List WireExtension}
    (hblock : List.Forall₂ Changed (extensionBlock es) (extensionBlock es'))
    (h : blockCurves (e :: es') = blockCurves (e :: es) ∧
      blockFormats (e :: es') = blockFormats (e :: es)) :
    e.taken (extensionBlock es') = e.taken (extensionBlock es) ∧
      blockCurves es' = blockCurves es ∧ blockFormats es' = blockFormats es := by
  obtain ⟨hc, hcurves⟩ := List.append_inj h.1 (curves_changed e hblock).length_eq.symm
  obtain ⟨hf, hformats⟩ := List.append_inj h.2 (formats_changed e hblock).length_eq.symm
  exact ⟨(e.lists_eq_iff hblock.length_eq.symm).mp ⟨hc, hf⟩, hcurves, hformats⟩

/-- Where a list takes a byte of another body, some other byte there gives other lists. -/
theorem exists_other_lists {es : List WireExtension} (h : listsKeepOut es = false) (later : Bool) :
    ∃ es', DifferLater later es es' ∧ SameLengths es es' ∧
      List.Forall₂ Changed (extensionBlock es) (extensionBlock es') ∧
        ¬(blockCurves es' = blockCurves es ∧ blockFormats es' = blockFormats es) := by
  induction es generalizing later with
  | nil => cases h
  | cons e es ih =>
    rw [listsKeepOut, Bool.and_eq_false_iff, Bool.not_eq_false'] at h
    obtain htaken | hrest := h
    · obtain ⟨p, hp⟩ := List.mem_iff_getElem?.mp (List.contains_iff_mem.mp htaken)
      have hreach : p < e.reach (extensionBlock es).length := by
        have hlt := (List.getElem?_eq_some_iff.mp hp).1
        rw [List.length_take] at hlt
        exact Nat.lt_of_lt_of_le hlt (Nat.min_le_left _ _)
      rw [List.getElem?_take_of_lt hreach] at hp
      have hlt : p < (extensionBlock es).length := by
        rw [← length_otherBytes]
        exact (List.getElem?_eq_some_iff.mp hp).1
      have hlisted : e.isListed = true := by
        by_contra hother
        rw [reach_of_not_listed (Bool.eq_false_iff.mpr hother)] at hreach
        cases hreach
      -- one of the two bytes is not the one that is there
      obtain ⟨v, hv, hne⟩ : ∃ v : UInt8, v.toNat % 16 ≠ 10 ∧ v ≠ (extensionBlock es)[p] := by
        by_cases hzero : (extensionBlock es)[p] = 0
        · exact ⟨1, by decide, by rw [hzero]; decide⟩
        · exact ⟨0, by decide, Ne.symm hzero⟩
      obtain ⟨hdiffer, hlengths, hblock⟩ := setByte_spec hp v
      have hchanged := set_changed hlt hv
      rw [← hblock] at hchanged
      refine ⟨e :: setByte es p v, .same e (by rwa [hlisted, Bool.or_true]), ?_, ?_, ?_⟩
      · rw [SameLengths, List.map_cons, List.map_cons, hlengths]
      · exact List.rel_append (List.forall₂_same.mpr fun _ _ => .inl rfl) hchanged
      · intro hsame
        have htaken := (lists_cons_eq hchanged hsame).1
        have htake := (e.taken_eq_iff hlengths.block).mp htaken
        have hat := congrArg (fun l : Bytes => l[p]?) htake
        simp only [List.getElem?_take_of_lt hreach, hblock] at hat
        rw [List.getElem?_set_self hlt, List.getElem?_eq_getElem hlt] at hat
        exact hne (Option.some.inj hat)
    · obtain ⟨es', hdiffer, hlengths, hblock, hother⟩ := ih hrest (later || e.isListed)
      refine ⟨e :: es', .same e hdiffer, ?_, ?_, ?_⟩
      · rw [SameLengths, List.map_cons, List.map_cons, hlengths]
      · exact List.rel_append (List.forall₂_same.mpr fun _ _ => .inl rfl) hblock
      · intro hsame
        exact hother (lists_cons_eq hblock hsame).2

theorem blockCurves_changed (h : DifferLater later es es') (hlengths : SameLengths es es')
    (hblock : List.Forall₂ Changed (extensionBlock es) (extensionBlock es')) :
    List.Forall₂ ChangedPair (blockCurves es) (blockCurves es') := by
  induction h with
  | nil => exact .nil
  | @same later e es es' _ ih =>
    have hrest := List.forall₂_drop e.encode.length hblock
    rw [extensionBlock_cons, extensionBlock_cons, List.drop_left, List.drop_left] at hrest
    exact List.rel_append (curves_changed e hrest) (ih hlengths.of_cons.2 hrest)
  | @body e e' es es' hother htype _ ih =>
    obtain ⟨hlength, hes⟩ := hlengths.of_cons
    have hrest := List.forall₂_drop e.encode.length hblock
    have hencode : e.encode.length = e'.encode.length := by
      rw [length_encode, length_encode, hlength]
    rw [extensionBlock_cons, extensionBlock_cons, List.drop_left, hencode, List.drop_left] at hrest
    have hother' : e'.isListed = false := (isListed_of_type htype).trans hother
    rw [(lists_cons_of_not_listed hother es).1, (lists_cons_of_not_listed hother' es').1]
    exact ih hes hrest

/-- A list that ends inside of its own body does not depend on the bytes after it. -/
theorem WireExtension.lists_of_inside {e : WireExtension} (h : e.listInside = true)
    (after after' : Bytes) :
    e.curves after' = e.curves after ∧ e.formats after' = e.formats after := by
  have htake {list : Bytes} {n : Nat} (hn : n ≤ list.length) :
      (list ++ after').take n = (list ++ after).take n := by
    rw [List.take_append_of_le_length hn, List.take_append_of_le_length hn]
  rw [listInside] at h
  rw [curves, curves, formats, formats]
  revert h
  cases e.body with
  | nil =>
    intro h
    exact ⟨rfl, rfl⟩
  | cons n body =>
    cases body with
    | nil =>
      intro h
      by_cases hformats : e.extType = 0x000b
      · simp only [if_pos hformats, decide_eq_true_eq] at h ⊢
        exact ⟨trivial, htake h⟩
      · simp only [if_neg hformats]
        exact ⟨trivial, trivial⟩
    | cons b list =>
      intro h
      by_cases hformats : e.extType = 0x000b
      · have hgroups : e.extType ≠ 0x000a := by
          rw [hformats]
          decide
        simp only [if_pos hformats, if_neg hgroups, decide_eq_true_eq] at h ⊢
        exact ⟨trivial, htake h⟩
      · by_cases hgroups : e.extType = 0x000a
        · have hbne : (e.extType != 0x000a) = false := by
            rw [hgroups]
            rfl
          simp only [if_neg hformats, if_pos hgroups, hbne, Bool.false_or, decide_eq_true_eq] at h ⊢
          exact ⟨congrArg pairs (htake h), trivial⟩
        · simp only [if_neg hformats, if_neg hgroups]
          exact ⟨trivial, trivial⟩

theorem DifferLater.lists_eq_of_inside (h : DifferLater later es es')
    (hinside : ∀ e ∈ es, e.listInside = true) :
    blockCurves es' = blockCurves es ∧ blockFormats es' = blockFormats es := by
  induction h with
  | nil => exact ⟨rfl, rfl⟩
  | @same later e es es' _ ih =>
    obtain ⟨he, hes⟩ := List.forall_mem_cons.mp hinside
    obtain ⟨hcurves, hformats⟩ := ih hes
    obtain ⟨hc, hf⟩ := WireExtension.lists_of_inside he (extensionBlock es) (extensionBlock es')
    rw [blockCurves, blockFormats, hc, hf, hcurves, hformats]
    exact ⟨rfl, rfl⟩
  | @body e e' es es' hother htype _ ih =>
    obtain ⟨_, hes⟩ := List.forall_mem_cons.mp hinside
    have hother' : e'.isListed = false := (isListed_of_type htype).trans hother
    obtain ⟨hc, hf⟩ := lists_cons_of_not_listed hother es
    obtain ⟨hc', hf'⟩ := lists_cons_of_not_listed hother' es'
    rw [hc, hf, hc', hf']
    exact ih hes

/-- The hello with other extensions of the same length. -/
def ClientHello.withExtensions (h : ClientHello) (es : List WireExtension)
    (hlength : (extensionBlock es).length = (extensionBlock h.extensions).length) :
    ClientHello where
  toHelloFields := { h.toHelloFields with extensions := es }
  random_length := h.random_length
  sessionId_fits := h.sessionId_fits
  compression_fits := h.compression_fits
  record_fits := by
    have hfits := h.record_fits
    simp only [HelloFields.handshake, HelloFields.body, HelloFields.cipherBytes, List.length_cons,
      List.length_append] at hfits ⊢
    rw [hlength]
    exact hfits

theorem sameLists_iff (h h' : ClientHello) : SameLists h h' ↔
    (blockCurves h'.extensions).filter TlsParser.notGrease =
      (blockCurves h.extensions).filter TlsParser.notGrease ∧
    blockFormats h'.extensions = blockFormats h.extensions := by
  constructor
  · intro hsame
    have hcurves := hsame 0 [] ∅ 3 List.mem_cons_self
    have hformats := hsame 0 [] ∅ 4 (List.mem_cons_of_mem _ List.mem_cons_self)
    rw [ja3Field_record, ja3Field_record] at hcurves hformats
    exact ⟨joinNumbers_inj (Option.some.inj hcurves), joinFormats_inj (Option.some.inj hformats)⟩
  · intro ⟨hcurves, hformats⟩ recordVersion trailing buffers k hk
    rw [ja3Field_record, ja3Field_record]
    simp only [List.mem_cons, List.not_mem_nil, or_false] at hk
    rcases hk with rfl | rfl
    · exact congrArg (fun l => some (TlsParser.joinNumbers l)) hcurves
    · exact congrArg (fun l : Bytes =>
        some (TlsParser.joinDash (l.map fun f => decimal f.toNat))) hformats

/-- The lists stay the same whatever the later bodies are if each ends inside of its own body. With
the lengths of the later bodies kept, they do exactly if no list takes a byte of such a body. -/
theorem lists_isolated_iff (h : ClientHello) :
    ((∀ h' : ClientHello, HellosDifferLater h.toHelloFields h'.toHelloFields →
        SameLengths h.extensions h'.extensions → SameLists h h') ↔
      listsKeepOut h.extensions = true) ∧
    ((∀ e ∈ h.extensions, e.listInside = true) →
      ∀ h' : ClientHello, HellosDifferLater h.toHelloFields h'.toHelloFields → SameLists h h') := by
  refine ⟨⟨?_, ?_⟩, ?_⟩
  · intro hisolated
    by_contra hkeep
    obtain ⟨es', hdiffer, hlengths, hblock, hother⟩ :=
      exists_other_lists (Bool.eq_false_iff.mpr hkeep) false
    have hsame := (sameLists_iff h (h.withExtensions es' hlengths.block)).mp
      (hisolated _ ⟨rfl, hdiffer⟩ hlengths)
    have hcurves := (filter_changed (blockCurves_changed hdiffer hlengths hblock)).2 hsame.1.symm
    exact hother ⟨hcurves.symm, hsame.2⟩
  · intro hkeep h' hdiffer hlengths
    obtain ⟨hcurves, hformats⟩ := hdiffer.later.lists_eq hlengths hkeep
    exact (sameLists_iff h h').mpr ⟨by rw [hcurves], hformats⟩
  · intro hinside h' hdiffer
    obtain ⟨hcurves, hformats⟩ := hdiffer.later.lists_eq_of_inside hinside
    exact (sameLists_iff h h').mpr ⟨by rw [hcurves], hformats⟩

/-- One group, in a list that says it has four, and a session ticket. -/
def shortGroups (ticket : UInt8) : ClientHello where
  version := 0x0303
  random := List.replicate 32 0
  sessionId := []
  ciphers := [0x1301]
  compression := [0]
  extensions := [⟨0x000a, [0, 8, 0, 23]⟩, ⟨0x0023, [0, ticket]⟩]
  random_length := rfl
  sessionId_fits := by decide
  compression_fits := by decide
  record_fits := (by decide : 61 < 2 ^ 16)

theorem ticket_in_curves :
    HellosDifferLater (shortGroups 1).toHelloFields (shortGroups 2).toHelloFields ∧
      SameLengths (shortGroups 1).extensions (shortGroups 2).extensions ∧
      ja3Field 3 ((shortGroups 1).record 0x0301) ∅ = some "23-35-2-1".toList ∧
      ja3Field 3 ((shortGroups 2).record 0x0301) ∅ = some "23-35-2-2".toList := by
  have hfield (ticket : UInt8) := ja3Field_record (shortGroups ticket) 0x0301 [] ∅ 3
  simp only [List.append_nil] at hfield
  refine ⟨⟨rfl, .same _ (.body _ _ rfl rfl .nil)⟩, rfl, ?_, ?_⟩
  · rw [hfield]
    decide
  · rw [hfield]
    decide

end AiFw.Ids
