import AiFw.Host.TextLines
import AiFw.Lib.LineEdits
import AiFw.Lib.Numerals

namespace AiFw.Pf
open AiFw.Lib
open AiFw.Geo (lines notMem_lines)
open AiFw.Host (plainLines trimCrs unlines startsAt startsAt_trimCrs trim_trimCrs trimCrs_of_last
  notMem_plainLines plainLines_unlines_all unlines_cons)

set_option autoImplicit true

def defaultMaxStates : Nat := 100000
def minStates : Nat := 1000
def maxStates : Nat := 4000000

def limitLine (value : Nat) : List Char := "set limit states ".toList ++ Nat.toDigits 10 value

def isLimit (l : List Char) : Bool := startsAt "set limit states".toList l

def isOption (l : List Char) : Bool := startsAt "set ".toList l

/-- Neither blank nor a comment. -/
def isStatement (l : List Char) : Bool :=
  let t := trim l
  !t.isEmpty && t.head? != some '#'

def rposition (p : α → Bool) (l : List α) : Option Nat :=
  (l.reverse.findIdx? p).map fun i => l.length - 1 - i

def insertAt (ls : List (List Char)) : Nat :=
  match rposition isOption ls with
  | some i => i + 1
  | none => (ls.findIdx? isStatement).getD ls.length

/-- `join("\n") + "\n"`. -/
def joinLines (out : List (List Char)) : List Char := ['\n'].intercalate out ++ ['\n']

def patchLimitLine (conf : List Char) (value : Nat) : List Char :=
  let ls := lines conf
  if ls.any isLimit then joinLines (ls.map fun l => if isLimit l then limitLine value else l)
  else
    let place := insertAt ls
    let out := ls.zipIdx.foldl (fun out e =>
      (if e.2 = place then out ++ [limitLine value] else out) ++ [e.1]) []
    joinLines (if ls.length ≤ place then out ++ [limitLine value] else out)

def natAnchor : List Char := "nat-anchor \"aifw-nat\"".toList
def rdrAnchor : List Char := "rdr-anchor \"aifw-nat\"".toList
def filterAnchor : List Char := "anchor \"aifw\"".toList

def mwanAnchors : List (List Char) :=
  ["anchor \"aifw-pbr\"".toList, "anchor \"aifw-mwan-leak\"".toList,
    "anchor \"aifw-mwan-reply\"".toList]

def hasLine (ls : List (List Char)) (wanted : List Char) : Bool := ls.any fun l => trim l = wanted

structure AnchorPass where
  out : List (List Char)
  changed : Bool
  mwanInserted : Bool

def missingRdr (ls : List (List Char)) : List (List Char) :=
  if hasLine ls rdrAnchor then [] else [rdrAnchor]

def missingMwan (ls : List (List Char)) : List (List Char) :=
  mwanAnchors.filter fun a => !hasLine ls a

def AnchorPass.line (rdr mwan : List (List Char)) (s : AnchorPass) (l : List Char) : AnchorPass :=
  let t := trim l
  if t = natAnchor then ⟨s.out ++ l :: rdr, s.changed || !rdr.isEmpty, s.mwanInserted⟩
  else if !s.mwanInserted && t = filterAnchor then
    ⟨s.out ++ mwan ++ [l], s.changed || !mwan.isEmpty, true⟩
  else ⟨s.out ++ [l], s.changed, s.mwanInserted⟩

/-- The file with the anchors that it lacks, if it lacks any. -/
def withAnchors (content : List Char) : Option (List Char) :=
  let ls := lines content
  let s := ls.foldl (AnchorPass.line (missingRdr ls) (missingMwan ls)) ⟨[], false, false⟩
  if s.changed then some (joinLines s.out) else none

structure MainConf where
  stored : Option (List Char)
  conf : Option (List Char)
  running : Option (List Char)

/-- How the steps end: a command may not start, or fail with a text. -/
structure CommitSteps where
  stage : Except (List Char) Unit
  validate : Except (List Char) (Except (List Char) Unit)
  commit : Except (List Char) Unit
  reload : Except (List Char) (Except (List Char) Unit)

namespace MainConf

/-- The file can be written and then fail to load. -/
def applyToPf (h : MainConf) (value : Nat) (readError : List Char) (steps : CommitSteps) :
    MainConf × Except (List Char) Unit :=
  match h.conf with
  | none =>
    (h, .error ("/usr/local/etc/aifw/pf.conf.aifw not readable (".toList ++ readError ++
      "); limit stored in DB only".toList))
  | some current =>
    let patched := patchLimitLine current value
    if patched = current then (h, .ok ())
    else
      match steps.stage with
      | .error e => (h, .error ("stage patched pf.conf: ".toList ++ e))
      | .ok () =>
        match steps.validate with
        | .error e => (h, .error ("spawn pfctl -nf: ".toList ++ e))
        | .ok (.error stderr) =>
          (h, .error ("patched pf.conf did not validate: ".toList ++ trim stderr))
        | .ok (.ok ()) =>
          match steps.commit with
          | .error e => (h, .error ("commit patched pf.conf: ".toList ++ e))
          | .ok () =>
            let h := { h with conf := some patched }
            match steps.reload with
            | .error e => (h, .error ("spawn pfctl -f: ".toList ++ e))
            | .ok (.error stderr) =>
              (h, .error ("pfctl -f /usr/local/etc/aifw/pf.conf.aifw: ".toList ++ trim stderr))
            | .ok (.ok ()) => ({ h with running := some patched }, .ok ())

def configuredMaxStates (h : MainConf) (read : Bool) : Nat :=
  let row := if read then h.stored else none
  ((row.bind (parseUnsigned (2 ^ 64))).filter fun n => minStates ≤ n ∧ n ≤ maxStates).getD
    defaultMaxStates

def setMaxStates (h : MainConf) (requested : UInt64) (db : Except (List Char) Unit)
    (readError : List Char) (steps : CommitSteps) : MainConf × Except (List Char) UInt64 :=
  if ¬(minStates ≤ requested.toNat ∧ requested.toNat ≤ maxStates) then
    (h, .error ("max_states must be between 1000 and 4000000 (got ".toList ++
      Nat.toDigits 10 requested.toNat ++ [')']))
  else
    match db with
    | .error e => (h, .error ("db error: ".toList ++ e))
    | .ok () =>
      let h := { h with stored := some (Nat.toDigits 10 requested.toNat) }
      let r := h.applyToPf requested.toNat readError steps
      (r.1, r.2.map fun _ => requested)

def applyOnBoot (h : MainConf) (read : Bool) (readError : List Char) (steps : CommitSteps) :
    MainConf :=
  (h.applyToPf (h.configuredMaxStates read) readError steps).1

/-- Every failure is only logged. -/
def ensureRdrAnchor (h : MainConf) (steps : CommitSteps) : MainConf :=
  match h.conf.bind withAnchors with
  | none => h
  | some patched =>
    match steps.stage, steps.validate, steps.commit with
    | .ok (), .ok (.ok ()), .ok () =>
      let h := { h with conf := some patched }
      match steps.reload with
      | .ok (.ok ()) => { h with running := some patched }
      | _ => h
    | _, _, _ => h

end MainConf

/-- What writes into the main file: a save of the limit, the start of the daemon, and the start of
the API. -/
inductive MainConfOp
  | save (requested : UInt64) (db : Except (List Char) Unit) (readError : List Char)
      (steps : CommitSteps)
  | daemonStart (read : Bool) (readError : List Char) (steps : CommitSteps)
  | apiStart (steps : CommitSteps)

def MainConfOp.exec (h : MainConf) : MainConfOp → MainConf
  | save requested db readError steps => (h.setMaxStates requested db readError steps).1
  | daemonStart read readError steps => h.applyOnBoot read readError steps
  | apiStart steps => h.ensureRdrAnchor steps

/-- The value that a save stores. -/
def MainConfOp.savedValue : MainConfOp → Option Nat
  | save requested db _ _ =>
    if (minStates ≤ requested.toNat ∧ requested.toNat ≤ maxStates) ∧ db.isOk then
      some requested.toNat
    else none
  | _ => none

theorem MainConfOp.savedValue_range {op : MainConfOp} (h : op.savedValue = some value) :
    minStates ≤ value ∧ value ≤ maxStates := by
  cases op with
  | save requested db readError steps =>
    rw [savedValue] at h
    split at h
    · next hrange =>
      cases h
      exact hrange.1
    · cases h
  | daemonStart read readError steps => cases h
  | apiStart steps => cases h

/-- All of the steps succeed. -/
def CommitSteps.Succeed (steps : CommitSteps) : Prop :=
  steps.stage = .ok () ∧ steps.validate = .ok (.ok ()) ∧ steps.commit = .ok () ∧
    steps.reload = .ok (.ok ())

def MainConf.run (h : MainConf) (ops : List MainConfOp) : MainConf := ops.foldl MainConfOp.exec h

theorem joinLines_eq (h : out ≠ []) : joinLines out = unlines out := by
  induction out with
  | nil => exact absurd rfl h
  | cons l out ih =>
    cases out with
    | nil => simp [joinLines, unlines]
    | cons l' out =>
      have hrest := ih (List.cons_ne_nil l' out)
      rw [unlines_cons, ← hrest, joinLines, joinLines]
      simp [List.intercalate]

theorem insertAt_le (ls : List (List Char)) : insertAt ls ≤ ls.length := by
  rw [insertAt, rposition]
  cases hidx : ls.reverse.findIdx? isOption with
  | some i =>
    have hlt := (List.findIdx?_eq_some_iff_findIdx_eq.mp hidx).1
    rw [List.length_reverse] at hlt
    dsimp only [Option.map_some]
    omega
  | none =>
    dsimp only [Option.map_none]
    cases hstmt : ls.findIdx? isStatement with
    | some i => exact Nat.le_of_lt (List.findIdx?_eq_some_iff_findIdx_eq.mp hstmt).1
    | none => exact Nat.le_refl _

/-- The loop with a counter puts the line in its place, if it comes there. -/
theorem foldl_insert (place start : Nat) (want : α) (ls acc : List α) :
    (ls.zipIdx start).foldl (fun out e => (if e.2 = place then out ++ [want] else out) ++ [e.1]) acc =
      if start ≤ place ∧ place < start + ls.length then
        acc ++ (ls.take (place - start) ++ want :: ls.drop (place - start))
      else acc ++ ls := by
  induction ls generalizing start acc with
  | nil =>
    rw [if_neg (by rw [List.length_nil]; omega), List.append_nil]
    rfl
  | cons l ls ih =>
    rw [List.zipIdx_cons, List.foldl_cons, ih, List.length_cons]
    dsimp only
    by_cases hhere : start = place
    · rw [if_pos hhere, if_neg (by omega), if_pos (by omega), hhere, Nat.sub_self]
      simp
    · rw [if_neg hhere]
      by_cases hlater : start + 1 ≤ place ∧ place < start + 1 + ls.length
      · obtain ⟨n, rfl⟩ := Nat.exists_eq_add_of_le hlater.1
        have hshift : start + 1 + n - start = n + 1 := by omega
        rw [if_pos hlater, if_pos (by omega), Nat.add_sub_cancel_left, hshift, List.take_succ_cons,
          List.drop_succ_cons]
        simp
      · rw [if_neg hlater, if_neg (by omega)]
        simp

theorem patchLimitLine_eq (conf : List Char) (value : Nat) :
    patchLimitLine conf value =
      unlines (setOwned isLimit insertAt (limitLine value) (lines conf)) := by
  have hle := insertAt_le (lines conf)
  rw [patchLimitLine, setOwned]
  dsimp only
  split
  · next hany =>
    apply joinLines_eq
    intro hnil
    rw [List.map_eq_nil_iff.mp hnil] at hany
    cases hany
  · rw [foldl_insert, Nat.zero_add, List.nil_append, List.nil_append, Nat.sub_zero]
    by_cases hin : insertAt (lines conf) < (lines conf).length
    · rw [if_neg (Nat.not_le.mpr hin), if_pos ⟨Nat.zero_le _, hin⟩, joinLines_eq (by simp)]
    · have heq : insertAt (lines conf) = (lines conf).length := by omega
      rw [if_pos (Nat.not_lt.mp hin), if_neg fun h => hin h.2, joinLines_eq (by simp), heq,
        List.take_length, List.drop_length]

def isNatAnchor (l : List Char) : Bool := trim l = natAnchor
def isFilterAnchor (l : List Char) : Bool := trim l = filterAnchor

/-- The lines of the main file with those of the anchors that it lacks. -/
def addAnchors (ls : List (List Char)) : List (List Char) :=
  putBefore isFilterAnchor (missingMwan ls) (putBehind isNatAnchor (missingRdr ls) ls)

theorem filter_of_nat (h : isNatAnchor l = true) : isFilterAnchor l = false := by
  rw [isFilterAnchor, of_decide_eq_true h]
  decide +kernel

theorem anchorPass_eq {rdr mwan : List (List Char)} (hrdr : ∀ l ∈ rdr, isFilterAnchor l = false)
    (ls : List (List Char)) (s : AnchorPass) :
    ls.foldl (AnchorPass.line rdr mwan) s =
      ⟨s.out ++ (if s.mwanInserted then putBehind isNatAnchor rdr ls
          else putBefore isFilterAnchor mwan (putBehind isNatAnchor rdr ls)),
        s.changed || (!rdr.isEmpty && ls.any isNatAnchor) ||
          (!mwan.isEmpty && !s.mwanInserted && ls.any isFilterAnchor),
        s.mwanInserted || ls.any isFilterAnchor⟩ := by
  induction ls generalizing s with
  | nil => simp [putBehind, putBefore, splitFirst]
  | cons l ls ih =>
    obtain ⟨out, changed, inserted⟩ := s
    have hbehind : putBehind isNatAnchor rdr (l :: ls) =
        (if isNatAnchor l then l :: rdr else [l]) ++ putBehind isNatAnchor rdr ls :=
      List.flatMap_cons
    rw [List.foldl_cons, ih, hbehind, List.any_cons, List.any_cons]
    cases hnat : isNatAnchor l with
    | true =>
      have hline : AnchorPass.line rdr mwan ⟨out, changed, inserted⟩ l =
          ⟨out ++ l :: rdr, changed || !rdr.isEmpty, inserted⟩ := if_pos (of_decide_eq_true hnat)
      have hfilter := filter_of_nat hnat
      rw [hline, if_pos rfl, putBefore_skip (List.forall_mem_cons.mpr ⟨hfilter, hrdr⟩), hfilter]
      cases inserted <;> cases rdr.isEmpty <;> cases changed <;> simp
    | false =>
      have hskip : ¬trim l = natAnchor := of_decide_eq_false hnat
      have hone : (if false = true then l :: rdr else [l]) ++ putBehind isNatAnchor rdr ls =
          l :: putBehind isNatAnchor rdr ls := rfl
      rw [hone, putBefore_cons]
      cases hfilter : isFilterAnchor l with
      | true =>
        have hfound : trim l = filterAnchor := of_decide_eq_true hfilter
        cases inserted with
        | true =>
          have hline : AnchorPass.line rdr mwan ⟨out, changed, true⟩ l =
              ⟨out ++ [l], changed, true⟩ := by
            rw [AnchorPass.line, if_neg hskip]
            rfl
          rw [hline]
          simp
        | false =>
          have hline : AnchorPass.line rdr mwan ⟨out, changed, false⟩ l =
              ⟨out ++ mwan ++ [l], changed || !mwan.isEmpty, true⟩ := by
            rw [AnchorPass.line, if_neg hskip, hfound]
            rfl
          rw [hline]
          cases mwan.isEmpty <;> cases changed <;> simp
      | false =>
        have hother : ¬trim l = filterAnchor := of_decide_eq_false hfilter
        have hline : AnchorPass.line rdr mwan ⟨out, changed, inserted⟩ l =
            ⟨out ++ [l], changed, inserted⟩ := by
          rw [AnchorPass.line, if_neg hskip]
          simp [hother]
        rw [hline]
        cases inserted <;> simp

/-- Some anchor is missing, and the line that it goes to is there. -/
def lacksAnchors (ls : List (List Char)) : Bool :=
  !(missingRdr ls).isEmpty && ls.any isNatAnchor || !(missingMwan ls).isEmpty && ls.any isFilterAnchor

def anchorLines : List (List Char) := rdrAnchor :: mwanAnchors

theorem missingRdr_subset (ls : List (List Char)) : missingRdr ls ⊆ anchorLines := by
  rw [missingRdr]
  split
  · exact List.nil_subset _
  · intro l hl
    rw [List.mem_singleton.mp hl]
    exact List.mem_cons_self

theorem missingMwan_subset (ls : List (List Char)) : missingMwan ls ⊆ anchorLines := fun _ hl =>
  List.mem_cons_of_mem _ (List.mem_filter.mp hl).1

theorem anchorLines_plain : ∀ a ∈ anchorLines, isLimit a = false ∧ isFilterAnchor a = false ∧
    trimCrs a = a ∧ trim a = a ∧ '\n' ∉ a ∧ a.head? ≠ some 's' := by
  decide +kernel

theorem withAnchors_eq (content : List Char) :
    withAnchors content =
      if lacksAnchors (lines content) then some (unlines (addAnchors (lines content))) else none := by
  have hrdr : ∀ l ∈ missingRdr (lines content), isFilterAnchor l = false := fun l hl =>
    (anchorLines_plain l (missingRdr_subset _ hl)).2.1
  rw [withAnchors, anchorPass_eq hrdr]
  simp only [Bool.false_or, Bool.not_false, Bool.and_true, List.nil_append]
  change (if lacksAnchors (lines content) = true then _ else none) = _
  cases hlacks : lacksAnchors (lines content) with
  | false => rfl
  | true =>
    rw [if_pos rfl, if_pos rfl, if_neg Bool.false_ne_true, joinLines_eq]
    · rfl
    · intro hnil
      have hsub := (sublist_putBehind isNatAnchor (missingRdr (lines content)) (lines content)).trans
        (sublist_putBefore isFilterAnchor (missingMwan (lines content)) _)
      rw [hnil, List.sublist_nil] at hsub
      rw [hsub] at hlacks
      revert hlacks
      simp [lacksAnchors]

theorem isLimit_trimCrs (l : List Char) : isLimit (trimCrs l) = isLimit l :=
  startsAt_trimCrs (by simp) l

theorem isLimit_limitLine (value : Nat) : isLimit (limitLine value) = true := by
  unfold isLimit startsAt limitLine
  simp [trimStart, isWhitespace]

theorem limitLine_signs (value : Nat) : '\n' ∉ limitLine value ∧ trimCrs (limitLine value) = limitLine value := by
  have hdigit (c : Char) (hc : c.isDigit = false) (hword : c ∉ "set limit states ".toList) :
      c ∉ limitLine value := by
    unfold limitLine
    intro hmem
    cases List.mem_append.mp hmem with
    | inl hfront => exact hword hfront
    | inr hback =>
      rw [Nat.isDigit_of_mem_toDigits (by decide) (by decide) hback] at hc
      cases hc
  refine ⟨hdigit _ (by decide) (by simp), trimCrs_of_last fun hlast => ?_⟩
  exact hdigit '\r' (by decide) (by simp) (List.mem_of_getLast? hlast)

theorem partedBy_patch (conf : List Char) (value : Nat) :
    partedBy isLimit (plainLines (patchLimitLine conf value)) =
      ((partedBy isLimit (plainLines conf)).1,
        List.replicate (max 1 (partedBy isLimit (plainLines conf)).2.length) (limitLine value)) := by
  obtain ⟨hwhole, htrim⟩ := limitLine_signs value
  have hlines : ∀ l ∈ setOwned isLimit insertAt (limitLine value) (lines conf), '\n' ∉ l := by
    intro l hl
    obtain rfl | hold := mem_setOwned hl
    · exact hwhole
    · exact notMem_lines hold
  rw [patchLimitLine_eq, plainLines_unlines_all hlines, partedBy_map isLimit_trimCrs,
    partedBy_setOwned (isLimit_limitLine value), plainLines, partedBy_map isLimit_trimCrs,
    List.map_replicate, htrim, List.length_map]

/-- What a step leaves of the lines, and what it may add to them. -/
structure Keeps (before after : List (List Char)) : Prop where
  kept : (unowned isLimit before).Sublist (unowned isLimit after)
  added : ∀ l ∈ unowned isLimit after, l ∈ unowned isLimit before ∨ l ∈ anchorLines
  limits : after.filter isLimit = before.filter isLimit ∨
    ∃ value, after.filter isLimit =
      List.replicate (max 1 (before.filter isLimit).length) (limitLine value)

theorem Keeps.refl (ls : List (List Char)) : Keeps ls ls :=
  ⟨List.Sublist.refl _, fun _ => .inl, .inl rfl⟩

theorem Keeps.trans (h : Keeps a b) (h' : Keeps b c) : Keeps a c where
  kept := h.kept.trans h'.kept
  added := by
    intro l hl
    cases h'.added l hl with
    | inl hb => exact h.added l hb
    | inr hnew => exact .inr hnew
  limits := by
    cases h'.limits with
    | inl hsame =>
      rw [hsame]
      exact h.limits
    | inr hset =>
      obtain ⟨value, hset⟩ := hset
      refine .inr ⟨value, hset.trans ?_⟩
      cases h.limits with
      | inl hsame => rw [hsame]
      | inr hold =>
        obtain ⟨old, hold⟩ := hold
        rw [hold, List.length_replicate, ← Nat.max_assoc, Nat.max_self]

theorem keeps_patch (conf : List Char) (value : Nat) :
    Keeps (plainLines conf) (plainLines (patchLimitLine conf value)) := by
  have hparts := partedBy_patch conf value
  have hothers : unowned isLimit (plainLines (patchLimitLine conf value)) =
      unowned isLimit (plainLines conf) := congrArg Prod.fst hparts
  constructor
  case kept => rw [hothers]
  case added =>
    intro l hl
    rw [hothers] at hl
    exact .inl hl
  case limits => exact .inr ⟨value, congrArg Prod.snd hparts⟩

theorem plainLines_addAnchors (conf : List Char) :
    plainLines (unlines (addAnchors (lines conf))) = (addAnchors (lines conf)).map trimCrs := by
  apply plainLines_unlines_all
  intro l hl
  cases mem_putBefore hl with
  | inl hbehind =>
    cases mem_putBehind hbehind with
    | inl hold => exact notMem_lines hold
    | inr hrdr => exact (anchorLines_plain l (missingRdr_subset _ hrdr)).2.2.2.2.1
  | inr hmwan => exact (anchorLines_plain l (missingMwan_subset _ hmwan)).2.2.2.2.1

theorem keeps_addAnchors (conf : List Char) :
    Keeps (plainLines conf) (plainLines (unlines (addAnchors (lines conf)))) := by
  have hrdr : ∀ l ∈ missingRdr (lines conf), isLimit l = false := fun l hl =>
    (anchorLines_plain l (missingRdr_subset _ hl)).1
  have hmwan : ∀ l ∈ missingMwan (lines conf), isLimit l = false := fun l hl =>
    (anchorLines_plain l (missingMwan_subset _ hl)).1
  have hsub : (lines conf).Sublist (addAnchors (lines conf)) :=
    (sublist_putBehind _ _ _).trans (sublist_putBefore _ _ _)
  have hlimits : (addAnchors (lines conf)).filter isLimit = (lines conf).filter isLimit :=
    (filter_putBefore hmwan _ _).trans (filter_putBehind hrdr _ _)
  have hmap (ls : List (List Char)) : (ls.map trimCrs).filter isLimit =
      (ls.filter isLimit).map trimCrs := congrArg Prod.snd (partedBy_map isLimit_trimCrs ls)
  rw [plainLines_addAnchors, plainLines]
  refine ⟨(hsub.map trimCrs).filter _, fun l hl => ?_, .inl ?_⟩
  · obtain ⟨hmem, hown⟩ := List.mem_filter.mp hl
    obtain ⟨l', hl', rfl⟩ := List.mem_map.mp hmem
    have hanchor (ha : l' ∈ anchorLines) : trimCrs l' ∈ anchorLines := by
      rwa [(anchorLines_plain l' ha).2.2.1]
    cases mem_putBefore hl' with
    | inl hbehind =>
      cases mem_putBehind hbehind with
      | inl hold => exact .inl (List.mem_filter.mpr ⟨List.mem_map_of_mem hold, hown⟩)
      | inr hnew => exact .inr (hanchor (missingRdr_subset _ hnew))
    | inr hnew => exact .inr (hanchor (missingMwan_subset _ hnew))
  · rw [hmap, hmap, hlimits]

namespace MainConf

/-- A save that is refused or not stored does nothing more. -/
theorem exec_save (h : MainConf) (requested : UInt64) (db : Except (List Char) Unit)
    (readError : List Char) (steps : CommitSteps) :
    (MainConfOp.save requested db readError steps).exec h =
      (MainConfOp.save requested db readError steps).savedValue.elim h fun value =>
        (MainConf.applyToPf { h with stored := some (Nat.toDigits 10 value) } value readError
          steps).1 := by
  change (h.setMaxStates requested db readError steps).1 = _
  unfold setMaxStates
  rw [MainConfOp.savedValue]
  by_cases hrange : minStates ≤ requested.toNat ∧ requested.toNat ≤ maxStates
  · rw [if_neg (not_not_intro hrange)]
    cases db with
    | error e =>
      rw [if_neg fun hboth => Bool.false_ne_true hboth.2]
      rfl
    | ok =>
      rw [if_pos ⟨hrange, rfl⟩]
      rfl
  · rw [if_pos hrange, if_neg fun hboth => hrange hboth.1]
    rfl

variable {h : MainConf} {steps : CommitSteps}

/-- The lines of the file, none without a file. -/
def lines (h : MainConf) : List (List Char) := plainLines (h.conf.getD [])

theorem conf_applyToPf (h : MainConf) (value : Nat) (readError : List Char) (steps : CommitSteps) :
    (h.applyToPf value readError steps).1.conf = h.conf ∨ ∃ current, h.conf = some current ∧
      (h.applyToPf value readError steps).1.conf = some (patchLimitLine current value) := by
  rw [applyToPf]
  cases hconf : h.conf with
  | none => exact .inl hconf
  | some current =>
    dsimp only
    split
    · exact .inl hconf
    · split
      · exact .inl hconf
      · split
        · exact .inl hconf
        · exact .inl hconf
        · split
          · exact .inl hconf
          · refine .inr ⟨current, rfl, ?_⟩
            split <;> rfl

theorem keeps_applyToPf (h : MainConf) (value : Nat) (readError : List Char) (steps : CommitSteps) :
    Keeps h.lines (h.applyToPf value readError steps).1.lines := by
  rw [lines, lines]
  cases h.conf_applyToPf value readError steps with
  | inl hsame =>
    rw [hsame]
    exact .refl _
  | inr hpatch =>
    obtain ⟨current, hconf, hpatch⟩ := hpatch
    rw [hpatch, hconf]
    exact keeps_patch current value

theorem conf_ensureRdrAnchor (h : MainConf) (steps : CommitSteps) :
    (h.ensureRdrAnchor steps).conf = h.conf ∨ ∃ current, h.conf = some current ∧
      (h.ensureRdrAnchor steps).conf = some (unlines (addAnchors (Geo.lines current))) := by
  rw [ensureRdrAnchor]
  cases hconf : h.conf with
  | none => exact .inl hconf
  | some current =>
    rw [Option.bind_some, withAnchors_eq]
    split
    · exact .inl hconf
    · next hpatched =>
      split at hpatched
      · cases hpatched
        split
        · refine .inr ⟨current, rfl, ?_⟩
          split <;> rfl
        · exact .inl hconf
      · cases hpatched

theorem keeps_exec (h : MainConf) (op : MainConfOp) : Keeps h.lines (op.exec h).lines := by
  cases op with
  | save requested db readError steps =>
    rw [exec_save]
    cases (MainConfOp.save requested db readError steps).savedValue with
    | none => exact .refl _
    | some value =>
      exact keeps_applyToPf { h with stored := some (Nat.toDigits 10 value) } value readError steps
  | daemonStart read readError steps => exact h.keeps_applyToPf _ _ _
  | apiStart steps =>
    rw [MainConfOp.exec, lines, lines]
    cases h.conf_ensureRdrAnchor steps with
    | inl hsame =>
      rw [hsame]
      exact .refl _
    | inr hpatch =>
      obtain ⟨current, hconf, hpatch⟩ := hpatch
      rw [hpatch, hconf]
      exact keeps_addAnchors current

theorem keeps_run (h : MainConf) (ops : List MainConfOp) : Keeps h.lines (h.run ops).lines := by
  induction ops generalizing h with
  | nil => exact .refl _
  | cons op ops ih => exact (h.keeps_exec op).trans (ih (op.exec h))

theorem conf_applyToPf_ok (hsteps : steps.Succeed) (hconf : h.conf = some current) (value : Nat)
    (readError : List Char) :
    (h.applyToPf value readError steps).1.conf = some (patchLimitLine current value) := by
  obtain ⟨hstage, hvalidate, hcommit, hreload⟩ := hsteps
  rw [applyToPf, hconf]
  dsimp only
  split
  · next hsame => rw [hsame, hconf]
  · rw [hstage, hvalidate, hcommit, hreload]

theorem conf_ensureRdrAnchor_ok (hsteps : steps.Succeed) (hconf : h.conf = some current) :
    (h.ensureRdrAnchor steps).conf =
      some (if lacksAnchors (Geo.lines current) then unlines (addAnchors (Geo.lines current))
        else current) := by
  obtain ⟨hstage, hvalidate, hcommit, hreload⟩ := hsteps
  rw [ensureRdrAnchor, hconf, Option.bind_some, withAnchors_eq]
  cases lacksAnchors (Geo.lines current) with
  | false => exact hconf
  | true => simp only [if_true, hstage, hvalidate, hcommit, hreload]

theorem conf_isSome_exec (h : MainConf) (op : MainConfOp) :
    (op.exec h).conf.isSome = h.conf.isSome := by
  have hpatched {before after : MainConf} {text : List Char → List Char}
      (heq : after.conf = before.conf ∨
        ∃ current, before.conf = some current ∧ after.conf = some (text current)) :
      after.conf.isSome = before.conf.isSome := by
    cases heq with
    | inl hsame => rw [hsame]
    | inr hnew =>
      obtain ⟨current, hconf, hnew⟩ := hnew
      rw [hconf, hnew]
      rfl
  cases op with
  | save requested db readError steps =>
    rw [exec_save]
    cases (MainConfOp.save requested db readError steps).savedValue with
    | none => rfl
    | some value => exact hpatched (conf_applyToPf { h with stored := _ } value readError steps)
  | daemonStart read readError steps => exact hpatched (h.conf_applyToPf _ _ _)
  | apiStart steps => exact hpatched (h.conf_ensureRdrAnchor steps)

theorem conf_isSome_run (h : MainConf) (ops : List MainConfOp) :
    (h.run ops).conf.isSome = h.conf.isSome := by
  induction ops generalizing h with
  | nil => rfl
  | cons op ops ih => exact (ih (op.exec h)).trans (h.conf_isSome_exec op)

theorem stored_applyToPf (h : MainConf) (value : Nat) (readError : List Char) (steps : CommitSteps) :
    (h.applyToPf value readError steps).1.stored = h.stored := by
  rw [applyToPf]
  cases h.conf with
  | none => rfl
  | some current =>
    dsimp only
    split
    · rfl
    · split
      · rfl
      · split
        · rfl
        · rfl
        · split
          · rfl
          · split <;> rfl

theorem stored_exec (h : MainConf) (op : MainConfOp) :
    (op.exec h).stored =
      op.savedValue.elim h.stored fun value => some (Nat.toDigits 10 value) := by
  cases op with
  | save requested db readError steps =>
    rw [exec_save]
    cases (MainConfOp.save requested db readError steps).savedValue with
    | none => rfl
    | some value => exact stored_applyToPf { h with stored := _ } _ _ _
  | daemonStart read readError steps => exact h.stored_applyToPf _ _ _
  | apiStart steps =>
    change (h.ensureRdrAnchor steps).stored = h.stored
    rw [ensureRdrAnchor]
    split
    · rfl
    · split
      · split <;> rfl
      · rfl

theorem stored_run (h : MainConf) (ops : List MainConfOp) :
    (h.run ops).stored = (ops.filterMap MainConfOp.savedValue).getLast?.elim h.stored
      fun value => some (Nat.toDigits 10 value) := by
  have hputs : Overwrites (fun _ : Option (List Char) => True)
      fun _ value => some (Nat.toDigits 10 value) := ⟨fun _ _ _ => trivial, fun _ _ _ _ => rfl⟩
  exact hputs.run (P := fun _ => True) (fun s op _ _ => stored_exec s op) trivial ops
    fun _ _ => trivial

theorem configured_run (h : MainConf) (ops : List MainConfOp) :
    (h.run ops).configuredMaxStates true =
      (ops.filterMap MainConfOp.savedValue).getLast?.getD (h.configuredMaxStates true) := by
  rw [configuredMaxStates, if_pos rfl, stored_run]
  cases hlast : (ops.filterMap MainConfOp.savedValue).getLast? with
  | none => rfl
  | some value =>
    obtain ⟨op, -, hop⟩ := List.mem_filterMap.mp (List.mem_of_getLast? hlast)
    have hrange := op.savedValue_range hop
    have hlt : value < 2 ^ 64 := lt_of_le_of_lt hrange.2 (by decide)
    dsimp only [Option.elim]
    rw [Option.bind_some, parseUnsigned_toDigits hlt, Option.filter_some,
      if_pos (decide_eq_true hrange)]
    rfl

/-- Whatever saves, starts and failed steps came before, a start of the daemon that succeeds leaves
the file with the limit of the last save and with all other lines that it had, and nothing else is
added to it than the anchors. -/
theorem daemonStart_settles (h : MainConf) (hconf : h.conf ≠ none) (ops : List MainConfOp)
    (readError : List Char) (steps : CommitSteps) (hsteps : steps.Succeed) :
    let t := (h.run ops).applyOnBoot true readError steps
    (unowned isLimit h.lines).Sublist (unowned isLimit t.lines) ∧
      (∀ l ∈ unowned isLimit t.lines, l ∈ unowned isLimit h.lines ∨ l ∈ anchorLines) ∧
      t.lines.filter isLimit = List.replicate (max 1 (h.lines.filter isLimit).length)
        (limitLine ((ops.filterMap MainConfOp.savedValue).getLast?.getD
          (h.configuredMaxStates true))) := by
  have hsome : (h.run ops).conf.isSome = true :=
    (h.conf_isSome_run ops).trans (Option.isSome_iff_ne_none.mpr hconf)
  obtain ⟨current, hcurrent⟩ := Option.isSome_iff_exists.mp hsome
  have hrun := h.keeps_run ops
  have hstart := hrun.trans ((h.run ops).keeps_applyToPf
    ((h.run ops).configuredMaxStates true) readError steps)
  refine ⟨hstart.kept, hstart.added, ?_⟩
  have hpatched := conf_applyToPf_ok hsteps hcurrent ((h.run ops).configuredMaxStates true) readError
  have hlines : ((h.run ops).applyOnBoot true readError steps).lines =
      plainLines (patchLimitLine current ((h.run ops).configuredMaxStates true)) := by
    rw [lines, applyOnBoot, hpatched]
    rfl
  have hcount : max 1 ((h.run ops).lines.filter isLimit).length =
      max 1 (h.lines.filter isLimit).length := by
    cases hrun.limits with
    | inl hsame => rw [hsame]
    | inr hset =>
      obtain ⟨value, hset⟩ := hset
      rw [hset, List.length_replicate, ← Nat.max_assoc, Nat.max_self]
  have hbefore : (h.run ops).lines = plainLines current := by
    rw [lines, hcurrent]
    rfl
  rw [hlines, ← hcount, hbefore, ← h.configured_run ops]
  exact congrArg Prod.snd (partedBy_patch current _)

theorem hasLine_plainLines (conf : List Char) (a : List Char) :
    hasLine (plainLines conf) a = hasLine (Geo.lines conf) a := by
  rw [hasLine, hasLine, plainLines, List.any_map]
  congr 1
  funext l
  rw [Function.comp_apply, trim_trimCrs]

theorem head_of_isLimit (h : isLimit l = true) : (trim l).head? = some 's' := by
  have hprefix : "set limit states".toList <+: trimStart l := List.isPrefixOf_iff_prefix.mp h
  obtain ⟨rest, hrest⟩ := hprefix
  have hstart : trimStart l = 's' :: ("et limit states".toList ++ rest) := by
    rw [← hrest]
    simp
  have htrim : trim l <+: trimStart l := Host.trimEnd_prefix (trimStart l)
  obtain ⟨back, hback⟩ := htrim
  cases hl : trim l with
  | nil =>
    have hblank : (trimStart l).reverse.dropWhile isWhitespace = [] :=
      List.reverse_eq_nil_iff.mp hl
    have hs := List.dropWhile_eq_nil_iff.mp hblank 's' (by simp [hstart])
    revert hs
    decide
  | cons c cs =>
    rw [hl, hstart] at hback
    exact congrArg some (List.head_eq_of_cons_eq hback)

theorem hasLine_kept (h : Keeps before after) (ha : a.head? ≠ some 's')
    (hline : hasLine before a = true) : hasLine after a = true := by
  obtain ⟨l, hl, htrim⟩ := List.any_eq_true.mp hline
  have hown : isLimit l = false := by
    by_contra hlimit
    have hhead := head_of_isLimit (Bool.eq_true_of_not_eq_false hlimit)
    rw [of_decide_eq_true htrim] at hhead
    exact ha hhead
  have hmem : l ∈ unowned isLimit before := List.mem_filter.mpr ⟨hl, by rw [hown]; rfl⟩
  exact List.any_eq_true.mpr ⟨l, (List.mem_filter.mp (h.kept.subset hmem)).1, htrim⟩

theorem hasLine_of_mem (ha : a ∈ anchorLines) (h : a ∈ ls) : hasLine ls a = true :=
  List.any_eq_true.mpr ⟨a, h, decide_eq_true (anchorLines_plain a ha).2.2.2.1⟩

/-- Where the lines are that the anchors go to, none is missing afterwards. -/
theorem hasLine_addAnchors (hnat : hasLine ls natAnchor = true)
    (hfilter : hasLine ls filterAnchor = true) (ha : a ∈ anchorLines) :
    hasLine (addAnchors ls) a = true := by
  have hbehind := sublist_putBehind isNatAnchor (missingRdr ls) ls
  have hsub : ls.Sublist (addAnchors ls) := hbehind.trans (sublist_putBefore _ _ _)
  cases hline : hasLine ls a with
  | true =>
    obtain ⟨l, hl, htrim⟩ := List.any_eq_true.mp hline
    exact List.any_eq_true.mpr ⟨l, hsub.subset hl, htrim⟩
  | false =>
    apply hasLine_of_mem ha
    cases List.mem_cons.mp ha with
    | inl hrdr =>
      have hmissing : a ∈ missingRdr ls := by
        rw [missingRdr, ← hrdr, hline, if_neg Bool.false_ne_true]
        exact List.mem_singleton_self a
      exact (sublist_putBefore _ _ _).subset (subset_putBehind hnat _ hmissing)
    | inr hmwan =>
      have hmissing : a ∈ missingMwan ls := List.mem_filter.mpr ⟨hmwan, by rw [hline]; rfl⟩
      have hany : (putBehind isNatAnchor (missingRdr ls) ls).any isFilterAnchor = true := by
        obtain ⟨l, hl, htrim⟩ := List.any_eq_true.mp hfilter
        exact List.any_eq_true.mpr ⟨l, hbehind.subset hl, htrim⟩
      exact subset_putBefore hany _ hmissing

theorem lacksAnchors_false (h : ∀ a ∈ anchorLines, hasLine ls a = true) : lacksAnchors ls = false := by
  have hrdr : missingRdr ls = [] := if_pos (h rdrAnchor List.mem_cons_self)
  have hmwan : missingMwan ls = [] := by
    apply List.filter_eq_nil_iff.mpr
    intro a ha
    rw [h a (List.mem_cons_of_mem _ ha)]
    decide
  rw [lacksAnchors, hrdr, hmwan]
  rfl

theorem hasLine_of_lacks (hnat : hasLine ls natAnchor = true)
    (hfilter : hasLine ls filterAnchor = true) (hlacks : lacksAnchors ls = false)
    (ha : a ∈ anchorLines) : hasLine ls a = true := by
  obtain ⟨hrdr, hmwan⟩ := Bool.or_eq_false_iff.mp hlacks
  have hnat' : ls.any isNatAnchor = true := hnat
  have hfilter' : ls.any isFilterAnchor = true := hfilter
  rw [hnat', Bool.and_true, Bool.not_eq_false', List.isEmpty_iff] at hrdr
  rw [hfilter', Bool.and_true, Bool.not_eq_false', List.isEmpty_iff] at hmwan
  cases List.mem_cons.mp ha with
  | inl hfirst =>
    by_contra hline
    rw [missingRdr, ← hfirst, if_neg hline] at hrdr
    cases hrdr
  | inr hmem =>
    have hkept := List.filter_eq_nil_iff.mp hmwan a hmem
    rwa [Bool.not_eq_true', Bool.not_eq_false] at hkept

/-- In a file with the lines that the anchors go to, all of them are there from the first start of
the API on that succeeds, whatever else is done and fails, and no later start changes the file. -/
theorem anchors_stay (h : MainConf) (hnat : hasLine h.lines natAnchor = true)
    (hfilter : hasLine h.lines filterAnchor = true) (before after : List MainConfOp)
    (steps : CommitSteps) (hsteps : steps.Succeed) :
    let t := h.run (before ++ .apiStart steps :: after)
    (∀ a ∈ anchorLines, hasLine t.lines a = true) ∧ t.conf.bind withAnchors = none := by
  have hbefore := h.keeps_run before
  have hnat' := hasLine_kept hbefore (by decide +kernel) hnat
  have hfilter' := hasLine_kept hbefore (by decide +kernel) hfilter
  have hrun : h.run (before ++ .apiStart steps :: after) =
      ((h.run before).ensureRdrAnchor steps).run after := by
    rw [run, List.foldl_append]
    rfl
  rw [hrun]
  have hstart : ∀ a ∈ anchorLines, hasLine ((h.run before).ensureRdrAnchor steps).lines a = true := by
    intro a ha
    cases hconf : (h.run before).conf with
    | none =>
      rw [lines, hconf] at hnat'
      cases hnat'
    | some current =>
      rw [lines, hconf, Option.getD_some, hasLine_plainLines] at hnat' hfilter'
      rw [lines, conf_ensureRdrAnchor_ok hsteps hconf, Option.getD_some, hasLine_plainLines]
      cases hlacks : lacksAnchors (Geo.lines current) with
      | false =>
        rw [if_neg Bool.false_ne_true]
        exact hasLine_of_lacks hnat' hfilter' hlacks ha
      | true =>
        rw [if_pos rfl, ← hasLine_plainLines, plainLines_addAnchors, hasLine, List.any_map]
        have hadded := hasLine_addAnchors hnat' hfilter' ha
        rw [hasLine] at hadded
        rw [← hadded]
        congr 1
        funext l
        rw [Function.comp_apply, trim_trimCrs]
  have hend : ∀ a ∈ anchorLines,
      hasLine (((h.run before).ensureRdrAnchor steps).run after).lines a = true := fun a ha =>
    hasLine_kept (keeps_run _ after) (anchorLines_plain a ha).2.2.2.2.2 (hstart a ha)
  refine ⟨hend, ?_⟩
  cases hconf : (((h.run before).ensureRdrAnchor steps).run after).conf with
  | none => rfl
  | some current =>
    have hall : ∀ a ∈ anchorLines, hasLine (Geo.lines current) a = true := by
      intro a ha
      have hline := hend a ha
      rwa [lines, hconf, Option.getD_some, hasLine_plainLines] at hline
    rw [Option.bind_some, withAnchors_eq, lacksAnchors_false hall, if_neg Bool.false_ne_true]

/-- A file of an installation before the multi-WAN anchors. -/
def olderConf : MainConf where
  stored := none
  conf := some "set skip on lo0\nnat-anchor \"aifw-nat\"\nanchor \"aifw\"\n".toList
  running := none

def goodSteps : CommitSteps := ⟨.ok (), .ok (.ok ()), .ok (), .ok (.ok ())⟩

/-- A save whose file does not validate is made good by the next start. -/
theorem daemonStart_settles_older :
    ((olderConf.run [.save 200000 (.ok ()) [] { goodSteps with validate := .ok (.error []) },
        .apiStart goodSteps]).applyOnBoot true [] goodSteps).lines.filter isLimit =
      [limitLine 200000] :=
  (daemonStart_settles olderConf (by decide)
    [.save 200000 (.ok ()) [] { goodSteps with validate := .ok (.error []) }, .apiStart goodSteps] []
    goodSteps ⟨rfl, rfl, rfl, rfl⟩).2.2.trans (by decide +kernel)

theorem anchors_stay_older :
    (olderConf.run ([.save 200000 (.ok ()) [] goodSteps] ++ .apiStart goodSteps ::
      [.save 300000 (.ok ()) [] goodSteps])).conf.bind withAnchors = none :=
  (anchors_stay olderConf (by decide +kernel) (by decide +kernel)
    [.save 200000 (.ok ()) [] goodSteps] [.save 300000 (.ok ()) [] goodSteps] goodSteps
    ⟨rfl, rfl, rfl, rfl⟩).2

end MainConf

end AiFw.Pf
