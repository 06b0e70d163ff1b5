import AiFw.Dns.Blocklist
import AiFw.Lib.ByteSearch
import AiFw.Lib.FromBack

namespace AiFw.Host
open AiFw.Lib
open AiFw.Geo (stripCr)
open AiFw.Dns (containsText)
set_option autoImplicit true

abbrev Bytes := List UInt8

def chunkSize : Nat := 64 * 1024

def lineFeed : UInt8 := 0x0A

/-- What a request looks for. The text is in lower case, and `None` where every line will do. -/
structure TailQuery where
  toLowercase : List Char → List Char
  needle : Option (List Char)
  tailLines : Nat
  take : Nat

structure Found where
  out : List (List Char)
  examined : Nat

/-- What was found so far, and whether nothing but the end of the file came before. -/
structure TailState where
  found : Found
  atEof : Bool

namespace TailQuery
variable (q : TailQuery)

/-- A line as it is shown, if it is one that the request looks for. -/
def matched (raw : Bytes) : Option (List Char) :=
  let line := stripCr (fromUtf8Lossy raw)
  let found := match q.needle with
    | some n => containsText n (q.toLowercase line)
    | none => true
  if found then some line else none

/-- The second part says that no more lines are needed. -/
def pushLine (f : Found) (raw : Bytes) : Found × Bool :=
  let f : Found := ⟨f.out ++ (q.matched raw).toList, f.examined + 1⟩
  (f, decide (f.out.length ≥ q.take ∨ f.examined ≥ q.tailLines))

/-- A line of a chunk; the empty one after the final line feed is passed over. -/
def examine (s : TailState) (raw : Bytes) : TailState × Bool :=
  if s.atEof && raw.isEmpty then (⟨s.found, false⟩, false)
  else
    let (found, done) := q.pushLine s.found raw
    (⟨found, false⟩, done)

/-- How the walk through a chunk ends: with the last line that is needed, or with the bytes of one
that begins in an earlier chunk. -/
inductive Walk where
  | done (s : TailState)
  | carry (s : TailState) (carry : Bytes)

def walk (s : TailState) (front : Bytes) : Walk :=
  match _h : splitLast lineFeed front with
  | none => .carry s front
  | some (rest, raw) =>
    if (q.examine s raw).2 then .done (q.examine s raw).1 else walk (q.examine s raw).1 rest
termination_by front.length
decreasing_by
  rw [(splitLast_eq _h).1, List.length_append, List.length_cons]
  omega

/-- The first line of the file. -/
def finish (f : Found) (carry : Bytes) : List (List Char) :=
  if carry.isEmpty then f.out else (q.pushLine f carry).1.out

/-- The chunks from a position back to the beginning of the file. -/
def scan (chunk : Nat) (hchunk : 0 < chunk) (content : Bytes) (s : TailState) (carry : Bytes)
    (pos : Nat) : List (List Char) :=
  if _hpos : 0 < pos then
    let readSize := min chunk pos
    let buf := slice (pos - readSize) pos content ++ carry
    match q.walk s buf with
    | .done s => s.found.out
    | .carry s carry => scan chunk hchunk content s carry (pos - readSize)
  else q.finish s.found carry
termination_by pos
decreasing_by omega

def reverseTail (chunk : Nat) (hchunk : 0 < chunk) (content : Bytes) : List (List Char) :=
  q.scan chunk hchunk content ⟨⟨[], 0⟩, true⟩ [] content.length

end TailQuery

/-- The files that exist have their bytes. -/
def tailFiltered (toLowercase : List Char → List Char) (readFile : List Char → Option Bytes)
    (paths : List (List Char)) (needle : Option (List Char)) (tailLines take : Nat) :
    List (List Char) :=
  let needleLc := (needle.map toLowercase).filter fun n => trim n ≠ []
  let q : TailQuery := ⟨toLowercase, needleLc, tailLines, take⟩
  ((paths.filterMap readFile).map (q.reverseTail chunkSize (by decide))).find? (· ≠ []) |>.getD []

def dropEmptyHead : List Bytes → List Bytes
  | [] :: rest => rest
  | rest => rest

/-- The newest line comes first. Empty ones at either end of the file are no lines. -/
def newestFirst (content : Bytes) : List Bytes :=
  dropEmptyHead (dropEmptyHead (content.splitOn lineFeed)).reverse

namespace TailQuery
variable {q : TailQuery}

theorem walk_none (h : splitLast lineFeed front = none) (s : TailState) :
    q.walk s front = .carry s front := by
  rw [walk]
  split
  · rfl
  · next heq =>
    rw [h] at heq
    cases heq

theorem walk_some (h : splitLast lineFeed front = some (rest, raw)) (s : TailState) :
    q.walk s front =
      if (q.examine s raw).2 then .done (q.examine s raw).1
      else q.walk (q.examine s raw).1 rest := by
  rw [walk]
  split
  · next heq =>
    rw [h] at heq
    cases heq
  · next heq =>
    rw [h] at heq
    cases heq
    rfl

/-- The walk gives the complete lines of the chunk to the search, the last one first. -/
theorem walk_eq (s : TailState) (front : Bytes) :
    q.walk s front =
      if (feed q.examine s (piecesBack lineFeed front)).2 then
        .done (feed q.examine s (piecesBack lineFeed front)).1
      else .carry (feed q.examine s (piecesBack lineFeed front)).1 (firstPiece lineFeed front) := by
  induction hn : front.length using Nat.strongRecOn generalizing s front with
  | ind n ih =>
    cases hsplit : splitLast lineFeed front with
    | none =>
      have hmem := splitLast_none hsplit
      rw [walk_none hsplit, piecesBack_of_notMem hmem, firstPiece_of_notMem hmem]
      rfl
    | some p =>
      obtain ⟨rest, raw⟩ := p
      obtain ⟨hfirst, hback⟩ := pieces_splitLast hsplit
      have hlt : rest.length < n := by
        rw [← hn, (splitLast_eq hsplit).1, List.length_append, List.length_cons]
        omega
      rw [walk_some hsplit, hfirst, hback, feed]
      by_cases hdone : (q.examine s raw).2 = true
      · rw [if_pos hdone, if_pos hdone]
        rfl
      · rw [if_neg hdone, if_neg hdone]
        exact ih rest.length hlt _ rest rfl

/-- What the search comes to when it is given all the complete lines, and then the first one. -/
def outcome (q : TailQuery) (s : TailState) (text : Bytes) : List (List Char) :=
  if (feed q.examine s (piecesBack lineFeed text)).2 then
    (feed q.examine s (piecesBack lineFeed text)).1.found.out
  else q.finish (feed q.examine s (piecesBack lineFeed text)).1.found (firstPiece lineFeed text)

/-- Where the chunks begin makes no difference. -/
theorem scan_eq (chunk : Nat) (hchunk : 0 < chunk) (content : Bytes) (s : TailState)
    (carry : Bytes) (hcarry : lineFeed ∉ carry) (pos : Nat) :
    q.scan chunk hchunk content s carry pos = q.outcome s (content.take pos ++ carry) := by
  induction hn : pos using Nat.strongRecOn generalizing s carry pos with
  | ind n ih =>
    subst hn
    rw [scan]
    by_cases hpos : 0 < pos
    · rw [dif_pos hpos]
      dsimp only
      have htext : content.take pos ++ carry = content.take (pos - min chunk pos) ++
          (slice (pos - min chunk pos) pos content ++ carry) := by
        have hle : pos - min chunk pos ≤ pos := Nat.sub_le _ _
        rw [slice, ← List.append_assoc]
        have htake : content.take (pos - min chunk pos) =
            (content.take pos).take (pos - min chunk pos) := by
          rw [List.take_take, Nat.min_eq_left hle]
        rw [htake, List.take_append_drop]
      generalize slice (pos - min chunk pos) pos content ++ carry = buf at htext ⊢
      obtain ⟨hfirst, hback⟩ := pieces_append lineFeed (content.take (pos - min chunk pos)) buf
      rw [walk_eq, htext, outcome, hfirst, hback, feed_append]
      by_cases hdone : (feed q.examine s (piecesBack lineFeed buf)).2 = true
      · rw [if_pos hdone, if_pos hdone, if_pos rfl]
      · rw [if_neg hdone, if_neg hdone]
        exact ih (pos - min chunk pos) (by omega) _ _ (notMem_firstPiece buf) _ rfl
    · obtain rfl : pos = 0 := Nat.eq_zero_of_not_pos hpos
      rw [dif_neg hpos, List.take_zero, List.nil_append, outcome, piecesBack_of_notMem hcarry,
        firstPiece_of_notMem hcarry]
      rfl

theorem reverseTail_eq (chunk : Nat) (hchunk : 0 < chunk) (content : Bytes) :
    q.reverseTail chunk hchunk content = q.outcome ⟨⟨[], 0⟩, true⟩ content := by
  rw [reverseTail, scan_eq _ _ _ _ _ List.not_mem_nil, List.take_length, List.append_nil]

/-- Away from the end of the file each line is examined. -/
theorem feed_examine (f : Found) (lines : List Bytes) :
    (feed q.examine ⟨f, false⟩ lines).1.found = (feed q.pushLine f lines).1 ∧
      (feed q.examine ⟨f, false⟩ lines).2 = (feed q.pushLine f lines).2 := by
  induction lines generalizing f with
  | nil => exact ⟨rfl, rfl⟩
  | cons raw lines ih =>
    have hexamine : q.examine ⟨f, false⟩ raw = (⟨(q.pushLine f raw).1, false⟩, (q.pushLine f raw).2) :=
      rfl
    rw [feed, feed, hexamine]
    dsimp only
    by_cases hdone : (q.pushLine f raw).2 = true
    · rw [if_pos hdone, if_pos hdone]
      exact ⟨rfl, rfl⟩
    · rw [if_neg hdone, if_neg hdone]
      exact ih _

/-- The complete lines and then the first one, unless it is empty. -/
theorem outcome_later (f : Found) (text : Bytes) :
    q.outcome ⟨f, false⟩ text =
      (feed q.pushLine f (dropEmptyHead (text.splitOn lineFeed)).reverse).1.out := by
  obtain ⟨hfound, hdone⟩ := feed_examine (q := q) f (piecesBack lineFeed text)
  rw [outcome, hfound, hdone, splitOn_pieces]
  cases hfirst : firstPiece lineFeed text with
  | nil =>
    rw [dropEmptyHead, List.reverse_reverse]
    split <;> rfl
  | cons b first =>
    rw [dropEmptyHead, List.reverse_cons, List.reverse_reverse, feed_append]
    · split
      · rfl
      · rw [finish, if_neg (by simp), feed]
        split <;> rfl
    · intro rest h
      cases h

theorem dropEmptyHead_append (hne : pieces ≠ []) (last : Bytes) :
    dropEmptyHead (pieces ++ [last]) = dropEmptyHead pieces ++ [last] := by
  cases pieces with
  | nil => exact absurd rfl hne
  | cons first rest => cases first <;> rfl

theorem newestFirst_append (rest : Bytes) (h : lineFeed ∉ raw) :
    newestFirst (rest ++ lineFeed :: raw) =
      dropEmptyHead (raw :: (dropEmptyHead (rest.splitOn lineFeed)).reverse) := by
  rw [newestFirst, List.splitOn_append_cons_self, List.splitOn_eq_singleton h,
    dropEmptyHead_append (List.splitOn_ne_nil _ _), List.reverse_append]
  rfl

theorem outcome_all (text : Bytes) :
    q.outcome ⟨⟨[], 0⟩, true⟩ text = (feed q.pushLine ⟨[], 0⟩ (newestFirst text)).1.out := by
  cases hsplit : splitLast lineFeed text with
  | none =>
    have hmem := splitLast_none hsplit
    rw [outcome, piecesBack_of_notMem hmem, firstPiece_of_notMem hmem, newestFirst,
      List.splitOn_eq_singleton hmem]
    cases text with
    | nil => rfl
    | cons b text =>
      show (q.pushLine ⟨[], 0⟩ (b :: text)).1.out = (feed q.pushLine ⟨[], 0⟩ [b :: text]).1.out
      rw [feed]
      split <;> rfl
  | some p =>
    obtain ⟨rest, raw⟩ := p
    obtain ⟨hfirst, hback⟩ := pieces_splitLast hsplit
    obtain ⟨htext, hraw⟩ := splitLast_eq hsplit
    have hlater (f : Found) := outcome_later (q := q) f rest
    rw [outcome, hfirst, hback, feed, htext, newestFirst_append rest hraw]
    cases raw with
    | nil => exact hlater ⟨[], 0⟩
    | cons b raw =>
      have hexamine : q.examine ⟨⟨[], 0⟩, true⟩ (b :: raw) =
          (⟨(q.pushLine ⟨[], 0⟩ (b :: raw)).1, false⟩, (q.pushLine ⟨[], 0⟩ (b :: raw)).2) := rfl
      have hdrop (later : List Bytes) : dropEmptyHead ((b :: raw) :: later) = (b :: raw) :: later :=
        rfl
      rw [hexamine, hdrop, feed]
      dsimp only
      by_cases hdone : (q.pushLine ⟨[], 0⟩ (b :: raw)).2 = true
      · rw [if_pos hdone, if_pos rfl, if_pos hdone]
      · rw [if_neg hdone, if_neg hdone]
        exact hlater _

/-- The lines that the request looks for among the newest ones, not more than it takes. Of a file
with lines one is examined in any case. -/
def expected (q : TailQuery) (content : Bytes) : List (List Char) :=
  let examined := if q.take = 0 then 1 else max 1 q.tailLines
  (((newestFirst content).take examined).filterMap q.matched).take (max 1 q.take)

theorem feed_pushLine (f : Found) (hout : f.out.length < q.take)
    (hexamined : f.examined < max 1 q.tailLines) (lines : List Bytes) :
    (feed q.pushLine f lines).1.out = f.out ++
      ((lines.take (max 1 q.tailLines - f.examined)).filterMap q.matched).take
        (q.take - f.out.length) := by
  induction lines generalizing f with
  | nil =>
    rw [List.take_nil, List.filterMap_nil, List.take_nil, List.append_nil]
    rfl
  | cons raw lines ih =>
    have hstep : (q.pushLine f raw).1 = ⟨f.out ++ (q.matched raw).toList, f.examined + 1⟩ := rfl
    have hdone : (q.pushLine f raw).2 = decide ((f.out ++ (q.matched raw).toList).length ≥ q.take ∨
        f.examined + 1 ≥ q.tailLines) := rfl
    have hcount : max 1 q.tailLines - f.examined =
        (max 1 q.tailLines - (f.examined + 1)) + 1 := by omega
    rw [feed, hstep, hdone, hcount, List.take_succ_cons]
    cases hmatched : q.matched raw with
    | none =>
      rw [List.filterMap_cons_none hmatched, Option.toList_none, List.append_nil]
      by_cases hlast : f.out.length ≥ q.take ∨ f.examined + 1 ≥ q.tailLines
      · have hnone : max 1 q.tailLines - (f.examined + 1) = 0 := by omega
        rw [if_pos (decide_eq_true hlast), hnone, List.take_zero, List.filterMap_nil, List.take_nil,
          List.append_nil]
      · rw [if_neg (by rwa [decide_eq_true_iff])]
        exact ih ⟨f.out, f.examined + 1⟩ hout (by dsimp only; omega)
    | some line =>
      have hlength : (f.out ++ [line]).length = f.out.length + 1 := List.length_append
      have htaken : q.take - f.out.length = (q.take - (f.out.length + 1)) + 1 := by omega
      rw [List.filterMap_cons_some hmatched, Option.toList_some, htaken, List.take_succ_cons]
      by_cases hlast : (f.out ++ [line]).length ≥ q.take ∨ f.examined + 1 ≥ q.tailLines
      · have hnone : ((lines.take (max 1 q.tailLines - (f.examined + 1))).filterMap
            q.matched).take (q.take - (f.out.length + 1)) = [] := by
          rw [hlength] at hlast
          cases hlast with
          | inl hfull =>
            rw [Nat.sub_eq_zero_of_le hfull, List.take_zero]
          | inr hend =>
            have hzero : max 1 q.tailLines - (f.examined + 1) = 0 := by omega
            rw [hzero, List.take_zero, List.filterMap_nil, List.take_nil]
        rw [if_pos (decide_eq_true hlast), hnone]
      · rw [if_neg (by rwa [decide_eq_true_iff])]
        rw [hlength] at hlast
        have hrest := ih ⟨f.out ++ [line], f.examined + 1⟩ (by dsimp only; omega)
          (by dsimp only; omega)
        rw [hrest, hlength, List.append_assoc]
        rfl

theorem search_expected (q : TailQuery) (content : Bytes) :
    (feed q.pushLine ⟨[], 0⟩ (newestFirst content)).1.out = q.expected content := by
  rw [expected]
  by_cases htake : q.take = 0
  · rw [if_pos htake, htake]
    cases newestFirst content with
    | nil => rfl
    | cons raw lines =>
      have hdone : (q.pushLine ⟨[], 0⟩ raw).2 = true := by
        rw [pushLine, decide_eq_true_iff, htake]
        exact .inl (Nat.zero_le _)
      rw [feed, if_pos hdone, pushLine]
      cases hmatched : q.matched raw <;> simp [hmatched]
  · have hpos : 0 < q.take := Nat.pos_of_ne_zero htake
    have hone : max 1 q.take = q.take := Nat.max_eq_right hpos
    rw [if_neg htake, hone, feed_pushLine ⟨[], 0⟩ hpos (by dsimp only; omega)]
    rfl

end TailQuery

/-- A request for the tail of a log gets the lines of the first file in which it finds any, and
those of a search from the newest line on; where the chunks of the reading begin does not show. -/
theorem tailFiltered_eq (toLowercase : List Char → List Char)
    (readFile : List Char → Option Bytes) (paths : List (List Char)) (needle : Option (List Char))
    (tailLines take : Nat) :
    tailFiltered toLowercase readFile paths needle tailLines take =
      (((paths.filterMap readFile).map (TailQuery.expected
        ⟨toLowercase, (needle.map toLowercase).filter fun n => trim n ≠ [], tailLines, take⟩)).find?
          (· ≠ [])).getD [] := by
  have hread (q : TailQuery) (content : Bytes) :
      q.reverseTail chunkSize (by decide) content = q.expected content := by
    rw [TailQuery.reverseTail_eq, TailQuery.outcome_all, TailQuery.search_expected]
  rw [tailFiltered, List.map_congr_left fun content _ => hread _ content]

end AiFw.Host
