import AiFw.Lib.Blocks
import AiFw.Lib.Results
import Mathlib.Algebra.Ring.Nat
import Mathlib.Data.List.Infix

namespace AiFw.Ipc
open AiFw.Lib
set_option autoImplicit true

/-- What serde writes of a message and reads of a text. -/
structure Json (T E : Type) where
  toVec : T → Except E (List UInt8)
  fromSlice : List UInt8 → Except E T

inductive FrameError (E : Type) where
  | io (message : List Char)
  | tooLarge (claimed : Nat)
  | json (error : E)

def maxFrameBytes : Nat := 16 * 1024 * 1024

def toBeBytes (n : Nat) : List UInt8 :=
  [UInt8.ofNat (n / 2 ^ 24), UInt8.ofNat (n / 2 ^ 16), UInt8.ofNat (n / 2 ^ 8), UInt8.ofNat n]

def fromBeBytes (bytes : List UInt8) : Nat := bytes.foldl (fun n b => n * 2 ^ 8 + b.toNat) 0

section
variable {T E : Type} (json : Json T E)

/-- The reader is the stream as it arrives, in chunks. -/
def readFrame (reader : List (List UInt8)) :
    Except (FrameError E) T × List (List UInt8) :=
  let (lenBuf, reader) := readUpTo 4 reader
  if lenBuf.length < 4 then (.error (.io "early eof".toList), reader)
  else
    let len := fromBeBytes lenBuf
    if maxFrameBytes < len then (.error (.tooLarge len), reader)
    else
      let (buf, reader) := readUpTo len reader
      if buf.length < len then (.error (.io "frame body truncated".toList), reader)
      else ((json.fromSlice buf).mapError .json, reader)

def writeFrame (writer : List UInt8) (msg : T) : Except (FrameError E) (List UInt8) :=
  match json.toVec msg with
  | .error e => .error (.json e)
  | .ok body =>
    if maxFrameBytes < body.length then .error (.tooLarge (body.length % 2 ^ 32))
    else .ok (writer ++ toBeBytes body.length ++ body)

def writeFrames (msgs : List T) : Except (FrameError E) (List UInt8) :=
  msgs.foldlM (writeFrame json) []

/-- The messages that so many reads return, up to the first that fails. -/
def readFrames : Nat → List (List UInt8) → List T × Option (FrameError E) × List (List UInt8)
  | 0, reader => ([], none, reader)
  | n + 1, reader =>
    match readFrame json reader with
    | (.ok msg, reader) =>
      let (msgs, stopped, reader) := readFrames n reader
      (msg :: msgs, stopped, reader)
    | (.error e, reader) => ([], some e, reader)

end

def frame (body : List UInt8) : List UInt8 := toBeBytes body.length ++ body

theorem toBeBytes_length (n : Nat) : (toBeBytes n).length = 4 := rfl

theorem fromBeBytes_toBeBytes (h : n < 2 ^ 32) : fromBeBytes (toBeBytes n) = n := by
  simp only [toBeBytes, fromBeBytes, List.foldl_cons, List.foldl_nil, UInt8.toNat_ofNat']
  omega

theorem maxFrameBytes_lt : maxFrameBytes < 2 ^ 32 := by decide

section
variable {T E : Type} (json : Json T E) {reader : List (List UInt8)}

/-- A frame is read whole and nothing after it. -/
theorem readFrame_frame (hsize : body.length ≤ maxFrameBytes)
    (hreader : reader.flatten = frame body ++ later) :
    ∃ rest, readFrame json reader = ((json.fromSlice body).mapError .json, rest) ∧
      rest.flatten = later := by
  rw [frame, List.append_assoc] at hreader
  obtain ⟨rest, hlen, hrest⟩ := readUpTo_of_append hreader
  obtain ⟨rest', hbody, hrest'⟩ := readUpTo_of_append hrest
  refine ⟨rest', ?_, hrest'⟩
  have hclaimed := fromBeBytes_toBeBytes (Nat.lt_of_le_of_lt hsize maxFrameBytes_lt)
  rw [toBeBytes_length] at hlen
  rw [readFrame, hlen]
  dsimp only
  rw [toBeBytes_length, hclaimed, hbody, if_neg (Nat.lt_irrefl 4), if_neg (Nat.not_lt.mpr hsize)]
  exact if_neg (Nat.lt_irrefl body.length)

/-- A length of more than the maximum is refused once its four bytes are read. -/
theorem readFrame_tooLarge (hclaimed : claimed < 2 ^ 32) (hlarge : maxFrameBytes < claimed)
    (hreader : reader.flatten = toBeBytes claimed ++ later) :
    ∃ rest, readFrame json reader = (.error (.tooLarge claimed), rest) ∧ rest.flatten = later := by
  obtain ⟨rest, hlen, hrest⟩ := readUpTo_of_append hreader
  refine ⟨rest, ?_, hrest⟩
  rw [toBeBytes_length] at hlen
  rw [readFrame, hlen]
  dsimp only
  rw [toBeBytes_length, fromBeBytes_toBeBytes hclaimed, if_neg (Nat.lt_irrefl 4), if_pos hlarge]

/-- A stream that ends inside a frame, or before it, ends the read. -/
theorem readFrame_cut (hsize : body.length ≤ maxFrameBytes) (hcut : reader.flatten <+: frame body)
    (hshort : reader.flatten.length < (frame body).length) :
    ∃ message rest, readFrame json reader = (.error (.io message), rest) := by
  by_cases hlen : reader.flatten.length < 4
  · obtain ⟨rest, hread⟩ := readUpTo_of_short hlen
    refine ⟨"early eof".toList, rest, ?_⟩
    rw [readFrame, hread]
    exact if_pos hlen
  · have hprefix : toBeBytes body.length <+: reader.flatten :=
      List.prefix_of_prefix_length_le (List.prefix_append _ _) hcut (Nat.le_of_not_lt hlen)
    obtain ⟨sent, hsent⟩ := hprefix
    obtain ⟨rest, hread, hrest⟩ := readUpTo_of_append hsent.symm
    have hfew : rest.flatten.length < body.length := by
      rw [← hsent, frame, List.length_append, List.length_append] at hshort
      rw [hrest]
      exact Nat.lt_of_add_lt_add_left hshort
    obtain ⟨rest', hread'⟩ := readUpTo_of_short hfew
    refine ⟨"frame body truncated".toList, rest', ?_⟩
    rw [toBeBytes_length] at hread
    rw [readFrame, hread]
    dsimp only
    rw [toBeBytes_length, fromBeBytes_toBeBytes (Nat.lt_of_le_of_lt hsize maxFrameBytes_lt), hread',
      if_neg (Nat.lt_irrefl 4), if_neg (Nat.not_lt.mpr hsize)]
    exact if_pos hfew

end

section
variable {T E : Type} {json : Json T E} {reader : List (List UInt8)}

/-- The bodies of the messages, each small enough for a frame and read back as its message. -/
def Bodies (json : Json T E) (msgs : List T) (bodies : List (List UInt8)) : Prop :=
  List.Forall₂ (fun msg body => json.toVec msg = .ok body ∧ body.length ≤ maxFrameBytes ∧
    json.fromSlice body = .ok msg) msgs bodies

def frames (bodies : List (List UInt8)) : List UInt8 := (bodies.map frame).flatten

theorem frames_nil : frames [] = [] := rfl

theorem frames_cons (body : List UInt8) (bodies : List (List UInt8)) :
    frames (body :: bodies) = frame body ++ frames bodies := by
  rw [frames, List.map_cons, List.flatten_cons, frames]

theorem writeFrames_bodies (h : Bodies json msgs bodies) :
    writeFrames json msgs = .ok (frames bodies) := by
  have hfrom : ∀ writer, msgs.foldlM (writeFrame json) writer = .ok (writer ++ frames bodies) := by
    induction h with
    | nil =>
      intro writer
      rw [frames_nil, List.append_nil]
      rfl
    | cons hmsg _ ih =>
      intro writer
      obtain ⟨hbody, hsize, -⟩ := hmsg
      rw [List.foldlM_cons, writeFrame, hbody]
      dsimp only
      rw [if_neg (Nat.not_lt.mpr hsize), frames_cons, frame, ← List.append_assoc,
        ← List.append_assoc]
      exact ih _
  exact hfrom []

theorem readFrames_bodies (h : Bodies json msgs bodies)
    (hreader : reader.flatten = frames bodies ++ later) :
    ∃ rest, readFrames json msgs.length reader = (msgs, none, rest) ∧ rest.flatten = later := by
  induction h generalizing reader with
  | nil => exact ⟨reader, rfl, hreader⟩
  | cons hmsg _ ih =>
    obtain ⟨-, hsize, hslice⟩ := hmsg
    rw [frames_cons, List.append_assoc] at hreader
    obtain ⟨rest, hread, hrest⟩ := readFrame_frame json hsize hreader
    obtain ⟨rest', hread', hrest'⟩ := ih hrest
    refine ⟨rest', ?_, hrest'⟩
    rw [hslice] at hread
    rw [List.length_cons, readFrames, hread]
    dsimp only [Except.mapError]
    rw [hread']

/-- A stream cut anywhere gives the messages it contains whole, and the next read fails. -/
theorem readFrames_cut (h : Bodies json msgs bodies) (hcut : reader.flatten <+: frames bodies)
    (hshort : reader.flatten ≠ frames bodies) :
    ∃ k message rest, k < msgs.length ∧ frames (bodies.take k) <+: reader.flatten ∧
      ¬frames (bodies.take (k + 1)) <+: reader.flatten ∧
      readFrames json (k + 1) reader = (msgs.take k, some (.io message), rest) := by
  induction h generalizing reader with
  | nil => exact absurd (List.prefix_nil.mp hcut) hshort
  | @cons msg body msgs bodies hmsg _ ih =>
    obtain ⟨-, hsize, hslice⟩ := hmsg
    rw [frames_cons] at hcut hshort
    by_cases hwhole : frame body <+: reader.flatten
    case neg =>
      have hfew : reader.flatten.length < (frame body).length := by
        by_contra hle
        exact hwhole (List.prefix_of_prefix_length_le (List.prefix_append _ _) hcut
          (Nat.le_of_not_lt hle))
      have hinside : reader.flatten <+: frame body :=
        List.prefix_of_prefix_length_le hcut (List.prefix_append _ _) (Nat.le_of_lt hfew)
      obtain ⟨message, rest, hread⟩ := readFrame_cut json hsize hinside hfew
      refine ⟨0, message, rest, Nat.succ_pos _, List.nil_prefix, ?_, ?_⟩
      · rw [List.take_succ_cons, List.take_zero, frames_cons, frames_nil, List.append_nil]
        exact hwhole
      · rw [readFrames, hread]
        rfl
    case pos =>
      obtain ⟨later, hlater⟩ := hwhole
      obtain ⟨rest, hread, hrest⟩ := readFrame_frame json hsize hlater.symm
      rw [← hlater, List.prefix_append_right_inj, ← hrest] at hcut
      rw [← hlater, ← hrest] at hshort
      obtain ⟨k, message, rest', hk, hsent, hnext, hreads⟩ :=
        ih hcut fun he => hshort (congrArg (frame body ++ ·) he)
      rw [hrest] at hsent hnext
      refine ⟨k + 1, message, rest', Nat.succ_lt_succ hk, ?_, ?_, ?_⟩
      · rw [List.take_succ_cons, frames_cons, ← hlater, List.prefix_append_right_inj]
        exact hsent
      · rw [List.take_succ_cons, frames_cons, ← hlater, List.prefix_append_right_inj]
        exact hnext
      · rw [hslice] at hread
        rw [readFrames, hread]
        dsimp only [Except.mapError]
        rw [hreads, List.take_succ_cons]

theorem Bodies.take (h : Bodies json msgs bodies) (k : Nat) :
    Bodies json (msgs.take k) (bodies.take k) :=
  List.forall₂_take k h

theorem exists_bodies (hjson : ∀ msg body, json.toVec msg = .ok body → json.fromSlice body = .ok msg)
    (hsize : ∀ msg ∈ msgs, ∃ body, json.toVec msg = .ok body ∧ body.length ≤ maxFrameBytes) :
    ∃ bodies, Bodies json msgs bodies := by
  induction msgs with
  | nil => exact ⟨[], List.Forall₂.nil⟩
  | cons msg msgs ih =>
    obtain ⟨body, hbody, hle⟩ := hsize msg List.mem_cons_self
    obtain ⟨bodies, hbodies⟩ := ih fun m hm => hsize m (List.mem_cons_of_mem msg hm)
    exact ⟨body :: bodies, .cons ⟨hbody, hle, hjson msg body hbody⟩ hbodies⟩

end

/-- Messages come through a stream in order however it arrives, a stream cut short gives the ones
it contains whole and then an error, and a frame that claims too much is refused at its length. -/
theorem frames_survive {T E : Type} (json : Json T E)
    (hjson : ∀ msg body, json.toVec msg = .ok body → json.fromSlice body = .ok msg) (msgs : List T)
    (hsize : ∀ msg ∈ msgs, ∃ body, json.toVec msg = .ok body ∧ body.length ≤ maxFrameBytes) :
    ∃ bytes, writeFrames json msgs = .ok bytes ∧
      (∀ reader later, reader.flatten = bytes ++ later →
        ∃ rest, readFrames json msgs.length reader = (msgs, none, rest) ∧ rest.flatten = later) ∧
      (∀ reader, reader.flatten <+: bytes → reader.flatten ≠ bytes →
        ∃ k sent next message rest, k < msgs.length ∧
          writeFrames json (msgs.take k) = .ok sent ∧ sent <+: reader.flatten ∧
          writeFrames json (msgs.take (k + 1)) = .ok next ∧ ¬next <+: reader.flatten ∧
          readFrames json (k + 1) reader = (msgs.take k, some (.io message), rest)) ∧
      ∀ claimed reader later, claimed < 2 ^ 32 → maxFrameBytes < claimed →
        reader.flatten = toBeBytes claimed ++ later →
          ∃ rest, readFrame json reader = (.error (.tooLarge claimed), rest) ∧
            rest.flatten = later := by
  obtain ⟨bodies, hbodies⟩ := exists_bodies hjson hsize
  refine ⟨frames bodies, writeFrames_bodies hbodies, ?_, ?_, ?_⟩
  · intro reader later hreader
    exact readFrames_bodies hbodies hreader
  · intro reader hcut hshort
    obtain ⟨k, message, rest, hk, hsent, hnext, hreads⟩ := readFrames_cut hbodies hcut hshort
    exact ⟨k, _, _, message, rest, hk, writeFrames_bodies (hbodies.take k), hsent,
      writeFrames_bodies (hbodies.take (k + 1)), hnext, hreads⟩
  · intro claimed reader later hclaimed hlarge hreader
    exact readFrame_tooLarge json hclaimed hlarge hreader

/-- Messages that are their own encodings. -/
def bytesJson : Json (List UInt8) Unit := ⟨.ok, .ok⟩

/-- The chunks end inside a length and inside a body. -/
theorem frames_survive_sample :
    ∃ rest, readFrames bytesJson 2 [[0, 0], [0, 2, 7], [8, 0, 0, 0], [0]] = ([[7, 8], []], none, rest) ∧
      rest.flatten = [] := by
  have hsize : ∀ msg ∈ ([[7, 8], []] : List (List UInt8)),
      ∃ body, bytesJson.toVec msg = .ok body ∧ body.length ≤ maxFrameBytes := by
    intro msg hmsg
    refine ⟨msg, rfl, ?_⟩
    obtain rfl | hmsg := List.mem_cons.mp hmsg
    · decide
    · rw [List.mem_singleton.mp hmsg]
      decide
  obtain ⟨bytes, hwritten, hread, -⟩ := frames_survive bytesJson
    (fun _ _ hbody => congrArg Except.ok (Except.ok.inj hbody).symm) [[7, 8], []] hsize
  cases hwritten
  exact hread _ [] rfl

end AiFw.Ipc
