import AiFw.Ids.ClientHello
import AiFw.Lib.BitGroups
import AiFw.Lib.Checked
import Mathlib.Data.List.ReduceOption
import Mathlib.Data.List.TakeDrop

namespace AiFw.Ids
open AiFw.Lib
set_option autoImplicit true

structure RawPacket where
  timestampUs : Int64
  data : Bytes
  origLen : Nat

structure BpfHeader where
  tstampSec : Int64
  tstampUsec : Int64
  caplen : UInt32
  datalen : UInt32
  hdrlen : UInt16

namespace BpfHeader

/-- `size_of::<BpfHeader>()`, with the padding up to the next multiple of eight. -/
def size : Nat := 32

/-- The fields, where `repr(C)` puts them. -/
def ofBytes (bytes : Bytes) : BpfHeader where
  tstampSec := Int64.ofNat (leNat (slice 0 8 bytes))
  tstampUsec := Int64.ofNat (leNat (slice 8 16 bytes))
  caplen := UInt32.ofNat (leNat (slice 16 20 bytes))
  datalen := UInt32.ofNat (leNat (slice 20 24 bytes))
  hdrlen := UInt16.ofNat (leNat (slice 24 26 bytes))

/-- The header seen in place. The cast is good for a place in the buffer that is aligned and
has the whole header behind it, and for no other. -/
def inPlace (buffer : Bytes) (pos : Nat) : Option BpfHeader :=
  if pos % 8 = 0 then (sliceChecked pos (pos + size) buffer).map ofBytes else none

end BpfHeader

/-- The buffer keeps its length `buf_len` from when the capture is opened. -/
structure BpfCapture where
  buffer : Bytes
  bufPos : Nat
  bufRead : Nat
  packetsReceived : Nat

namespace BpfCapture

/-- The capture as `open` returns it. -/
def opened (bufLen : Nat) : BpfCapture := ⟨List.replicate bufLen 0, 0, 0, 0⟩

/-- What a read leaves in the buffer. -/
def fill (c : BpfCapture) (data : Bytes) : BpfCapture :=
  { c with buffer := data ++ c.buffer.drop data.length, bufRead := data.length, bufPos := 0 }

def ethHdrLen : Nat := 14

/-- `BPF_WORDALIGN` of a length. -/
def aligned (total : Nat) : Nat := (total + 7) / 8 * 8

/-- The part of `next_packet` after the buffer has been filled. `none` is a bad access. -/
def parse (c : BpfCapture) : Option (Option RawPacket × BpfCapture) :=
  if c.bufPos + BpfHeader.size > c.bufRead then some (none, { c with bufPos := c.bufRead })
  else do
    let hdr ← BpfHeader.inPlace c.buffer c.bufPos
    let caplen := hdr.caplen.toNat
    let hdrlen := hdr.hdrlen.toNat
    let datalen := hdr.datalen.toNat
    let dataStart := c.bufPos + hdrlen
    let dataEnd := dataStart + caplen
    if dataEnd > c.bufRead then return (none, { c with bufPos := c.bufRead })
    let timestampUs := hdr.tstampSec * 1000000 + hdr.tstampUsec
    let frame :=
      if caplen > ethHdrLen then
        (sliceChecked (dataStart + ethHdrLen) dataEnd c.buffer).map (·, datalen - ethHdrLen)
      else (sliceChecked dataStart dataEnd c.buffer).map (·, datalen)
    let (pktData, origLen) ← frame
    return (some ⟨timestampUs, pktData, origLen⟩, { c with
      bufPos := c.bufPos + aligned (hdrlen + caplen)
      packetsReceived := c.packetsReceived + 1 })

/-- The device is what its reads will give: no bytes for a timeout or an error, and never more
than the buffer holds. -/
def nextPacket (c : BpfCapture) (device : List Bytes) :
    Option (Option RawPacket × BpfCapture × List Bytes) :=
  if c.bufPos ≥ c.bufRead then
    match device with
    | [] => some (none, c, [])
    | data :: device =>
      if (data.take c.buffer.length).isEmpty then some (none, c, device)
      else (c.fill (data.take c.buffer.length)).parse.map fun (packet, c) => (packet, c, device)
  else c.parse.map fun (packet, c) => (packet, c, device)

/-- What so many calls return, one after the other. -/
def packets (c : BpfCapture) : Nat → List Bytes → Option (List (Option RawPacket))
  | 0, _ => some []
  | n + 1, device => do
    let (packet, c, device) ← c.nextPacket device
    let later ← c.packets n device
    return packet :: later

end BpfCapture

/-- The packet of a header and the bytes captured with it. -/
def BpfHeader.packet (hdr : BpfHeader) (frame : Bytes) : RawPacket where
  timestampUs := hdr.tstampSec * 1000000 + hdr.tstampUsec
  data := if frame.length > BpfCapture.ethHdrLen then frame.drop BpfCapture.ethHdrLen else frame
  origLen := if frame.length > BpfCapture.ethHdrLen then
    hdr.datalen.toNat - BpfCapture.ethHdrLen else hdr.datalen.toNat

def BpfHeader.total (hdr : BpfHeader) : Nat := hdr.hdrlen.toNat + hdr.caplen.toNat

/-- The first record of the bytes that are left, where they hold a whole one. -/
def firstRecord (left : Bytes) : Option (BpfHeader × Bytes) :=
  if left.length < BpfHeader.size then none
  else
    let hdr := BpfHeader.ofBytes left
    if left.length < hdr.total then none
    else some (hdr, slice hdr.hdrlen.toNat hdr.total left)

theorem BpfHeader.ofBytes_append (h : bytes.length ≥ 26) (rest : Bytes) :
    ofBytes (bytes ++ rest) = ofBytes bytes := by
  have hslice : ∀ start stop, stop ≤ 26 → slice start stop (bytes ++ rest) =
      slice start stop bytes := by
    intro start stop hstop
    rw [slice, slice, List.take_append_of_le_length (Nat.le_trans hstop h)]
  simp only [ofBytes, hslice _ _ (by decide : 8 ≤ 26), hslice _ _ (by decide : 16 ≤ 26),
    hslice _ _ (by decide : 20 ≤ 26), hslice _ _ (by decide : 24 ≤ 26),
    hslice _ _ (Nat.le_refl 26)]

namespace BpfCapture

/-- The bytes from the position on up to the end of what was read. -/
def left (c : BpfCapture) : Bytes := slice c.bufPos c.bufRead c.buffer

/-- The capture after a call that has found no whole record. -/
def spent (c : BpfCapture) : BpfCapture := { c with bufPos := c.bufRead }

def advanced (c : BpfCapture) (hdr : BpfHeader) : BpfCapture :=
  { c with bufPos := c.bufPos + aligned hdr.total, packetsReceived := c.packetsReceived + 1 }

/-- What a call does with the bytes it finds. -/
def after (c : BpfCapture) : Option (BpfHeader × Bytes) → Option RawPacket × BpfCapture
  | none => (none, c.spent)
  | some (hdr, frame) => (some (hdr.packet frame), c.advanced hdr)

/-- Where the position is a place for a header, or past everything that was read. -/
structure Sound (c : BpfCapture) : Prop where
  read : c.bufRead ≤ c.buffer.length
  aligned : c.bufPos < c.bufRead → c.bufPos % 8 = 0

variable {c : BpfCapture}

theorem rest_left (hread : c.bufRead ≤ c.buffer.length) (hpos : c.bufPos ≤ c.bufRead) :
    Rest c.buffer c.bufRead c.bufPos c.left where
  inside := hread
  reached := hpos
  same := rfl

/-- The header and the frame lie in what was read, so that no access is bad. -/
theorem parse_eq (hrest : Rest c.buffer c.bufRead c.bufPos rest) (haligned : c.bufPos % 8 = 0) :
    c.parse = some (c.after (firstRecord rest)) := by
  have hlength := hrest.length
  rw [parse, firstRecord]
  by_cases hshort : rest.length < BpfHeader.size
  · rw [if_pos hshort, if_pos (by omega)]
    rfl
  · rw [if_neg hshort, if_neg (by omega)]
    have hsize : (rest.take BpfHeader.size).length = BpfHeader.size :=
      List.length_take_of_le (Nat.le_of_not_lt hshort)
    have hhead : BpfHeader.inPlace c.buffer c.bufPos = some (BpfHeader.ofBytes rest) := by
      have hcut := hrest
      rw [← List.take_append_drop BpfHeader.size rest] at hcut
      have hslice := sliceChecked_of_rest hcut
      rw [hsize] at hslice
      rw [BpfHeader.inPlace, if_pos haligned, hslice, Option.map_some]
      conv_rhs => rw [← List.take_append_drop BpfHeader.size rest,
        BpfHeader.ofBytes_append (by rw [hsize]; decide)]
    rw [hhead]
    generalize BpfHeader.ofBytes rest = hdr
    by_cases hcut : rest.length < hdr.total
    · rw [if_pos hcut]
      have hend : c.bufPos + hdr.hdrlen.toNat + hdr.caplen.toNat > c.bufRead := by
        rw [BpfHeader.total] at hcut
        omega
      simp only [Option.bind_eq_bind, Option.bind_some, if_pos hend]
      rfl
    · rw [if_neg hcut]
      have hbody := Nat.le_add_right hdr.hdrlen.toNat hdr.caplen.toNat
      have hhdrlen : (rest.take hdr.hdrlen.toNat).length = hdr.hdrlen.toNat :=
        List.length_take_of_le (Nat.le_trans hbody (Nat.le_of_not_lt hcut))
      have hcaplen : (slice hdr.hdrlen.toNat hdr.total rest).length = hdr.caplen.toNat := by
        rw [slice, List.length_drop, List.length_take_of_le (Nat.le_of_not_lt hcut),
          BpfHeader.total, Nat.add_sub_cancel_left]
      have hparts : rest.take hdr.hdrlen.toNat ++
          (slice hdr.hdrlen.toNat hdr.total rest ++ rest.drop hdr.total) = rest := by
        have htake : rest.take hdr.hdrlen.toNat =
            (rest.take hdr.total).take hdr.hdrlen.toNat := by
          rw [List.take_take, BpfHeader.total, Nat.min_eq_left hbody]
        rw [slice, htake, ← List.append_assoc, List.take_append_drop, List.take_append_drop]
      generalize hframe : slice hdr.hdrlen.toNat hdr.total rest = frame at hcaplen hparts ⊢
      rw [← hparts] at hrest
      have hstart := hrest.skip
      rw [hhdrlen] at hstart
      have hend : ¬c.bufPos + hdr.hdrlen.toNat + hdr.caplen.toNat > c.bufRead := by
        rw [BpfHeader.total] at hcut
        omega
      have hall := sliceChecked_of_rest hstart
      rw [hcaplen] at hall
      simp only [Option.bind_eq_bind, Option.bind_some, if_neg hend, after, BpfHeader.packet,
        hcaplen]
      by_cases heth : hdr.caplen.toNat > ethHdrLen
      · have hip := hstart
        rw [← List.take_append_drop ethHdrLen frame, List.append_assoc] at hip
        have hcutEth := sliceChecked_of_rest hip.skip
        rw [List.length_take_of_le (by omega), List.length_drop, hcaplen, Nat.add_assoc _ ethHdrLen,
          Nat.add_sub_cancel' (Nat.le_of_lt heth)] at hcutEth
        rw [if_pos heth, if_pos heth, if_pos heth, hcutEth]
        rfl
      · rw [if_neg heth, if_neg heth, if_neg heth, hall]
        rfl

theorem sound_opened (bufLen : Nat) : (opened bufLen).Sound where
  read := Nat.zero_le _
  aligned := fun h => absurd h (Nat.not_lt_zero _)

theorem Sound.after (h : c.Sound) (hpos : c.bufPos % 8 = 0) (found : Option (BpfHeader × Bytes)) :
    (c.after found).2.Sound := by
  cases found with
  | none => exact ⟨h.read, fun hlt => absurd hlt (Nat.lt_irrefl _)⟩
  | some found =>
    refine ⟨h.read, fun _ => ?_⟩
    rw [BpfCapture.after, advanced, BpfCapture.aligned, Nat.add_mod, hpos, Nat.mul_mod_left]

theorem after_buffer (found : Option (BpfHeader × Bytes)) :
    (c.after found).2.buffer = c.buffer := by
  cases found <;> rfl

theorem length_fill (hread : data.length ≤ c.buffer.length) :
    (c.fill data).buffer.length = c.buffer.length := by
  rw [fill, List.length_append, List.length_drop]
  omega

theorem rest_fill (hread : data.length ≤ c.buffer.length) :
    Rest (c.fill data).buffer (c.fill data).bufRead (c.fill data).bufPos data where
  inside := by
    rw [length_fill hread]
    exact hread
  reached := Nat.zero_le _
  same := by rw [fill, List.take_left, List.drop_zero]

/-- The buffer that a call parses: the one there is, or the next read in its place. -/
inductive Parses (c : BpfCapture) (device : List Bytes) : BpfCapture → List Bytes → Bytes → Prop
  | kept (h : c.bufPos < c.bufRead) : Parses c device c device c.left
  | filled (h : c.bufRead ≤ c.bufPos) (hdevice : device = data :: later)
      (hdata : data.take c.buffer.length ≠ []) :
      Parses c device (c.fill (data.take c.buffer.length)) later (data.take c.buffer.length)

theorem Parses.rest (h : Parses c device c' later bytes) (hc : c.Sound) :
    c'.Sound ∧ c'.bufPos % 8 = 0 ∧ Rest c'.buffer c'.bufRead c'.bufPos bytes := by
  cases h with
  | kept h => exact ⟨hc, hc.aligned h, rest_left hc.read (Nat.le_of_lt h)⟩
  | @filled data later h hdevice hdata =>
    have hrest : Rest _ _ _ (data.take c.buffer.length) := rest_fill (c := c) (List.length_take_le _ _)
    exact ⟨⟨hrest.inside, fun _ => rfl⟩, rfl, hrest⟩

/-- What a call does: it finds nothing new to parse, or the first record of what it parses. -/
theorem nextPacket_eq (hc : c.Sound) (device : List Bytes) :
    c.nextPacket device = some (none, c, device.tail) ∧ c.bufRead ≤ c.bufPos ∧
        (∀ data ∈ device.head?, data.take c.buffer.length = []) ∨
      ∃ c' later bytes, Parses c device c' later bytes ∧
        c.nextPacket device =
          some ((c'.after (firstRecord bytes)).1, (c'.after (firstRecord bytes)).2, later) := by
  have hparse : ∀ {c' later bytes}, Parses c device c' later bytes →
      (c'.parse.map fun (packet, c) => (packet, c, later)) =
        some ((c'.after (firstRecord bytes)).1, (c'.after (firstRecord bytes)).2, later) := by
    intro c' later bytes h
    obtain ⟨-, haligned, hrest⟩ := h.rest hc
    rw [parse_eq hrest haligned, Option.map_some]
  rw [nextPacket.eq_def]
  by_cases hspent : c.bufPos ≥ c.bufRead
  · rw [if_pos hspent]
    cases device with
    | nil => exact .inl ⟨rfl, hspent, fun _ h => nomatch h⟩
    | cons data later =>
      dsimp only
      by_cases hdata : data.take c.buffer.length = []
      · rw [hdata]
        refine .inl ⟨rfl, hspent, ?_⟩
        intro data' hmem
        cases hmem
        exact hdata
      · have hfilled : Parses c (data :: later) _ later _ := .filled hspent rfl hdata
        rw [if_neg (by rwa [List.isEmpty_iff])]
        exact .inr ⟨_, _, _, hfilled, hparse hfilled⟩
  · rw [if_neg hspent]
    have hkept : Parses c device c device c.left := .kept (Nat.lt_of_not_le hspent)
    exact .inr ⟨_, _, _, hkept, hparse hkept⟩

theorem infix_of_firstRecord (h : firstRecord bytes = some (hdr, frame)) :
    (hdr.packet frame).data <:+: bytes := by
  have hframe : frame <:+: bytes := by
    rw [firstRecord] at h
    split at h
    · cases h
    · dsimp only at h
      split at h
      · cases h
      · cases h
        exact slice_isInfix _ _ _
  rw [BpfHeader.packet]
  dsimp only
  split
  · exact (List.drop_suffix _ _).isInfix.trans hframe
  · exact hframe

/-- What is left to parse lies in one of the reads so far or to come. -/
structure Reading (reads : List Bytes) (c : BpfCapture) (device : List Bytes) : Prop where
  sound : c.Sound
  left : c.bufPos < c.bufRead → ∃ data ∈ reads, c.left <:+: data
  pending : ∀ data ∈ device, data ∈ reads

theorem after_left (found : Option (BpfHeader × Bytes))
    (h : (c.after found).2.bufPos < (c.after found).2.bufRead) :
    (c.after found).2.left <:+ c.left := by
  cases found with
  | none => exact absurd h (Nat.lt_irrefl _)
  | some found =>
    have hdrop : (c.after (some found)).2.left = c.left.drop (aligned found.1.total) := by
      rw [left, left, slice, slice, List.drop_drop]
      rfl
    rw [hdrop]
    exact List.drop_suffix _ _

theorem Reading.next (h : Reading reads c device) :
    ∃ packet c' later, c.nextPacket device = some (packet, c', later) ∧ Reading reads c' later ∧
      ∀ p ∈ packet, ∃ data ∈ reads, p.data <:+: data := by
  cases nextPacket_eq h.sound device with
  | inl hnone =>
    refine ⟨none, c, device.tail, hnone.1, ⟨h.sound, h.left, ?_⟩, fun _ hp => nomatch hp⟩
    exact fun data hdata => h.pending data (List.mem_of_mem_tail hdata)
  | inr hfound =>
    obtain ⟨c', later, bytes, hparses, hcall⟩ := hfound
    obtain ⟨hsound, hpos, hrest⟩ := hparses.rest h.sound
    have hleft : c'.left = bytes := hrest.same
    have hread : (∃ data ∈ reads, bytes <:+: data) ∧ ∀ data ∈ later, data ∈ reads := by
      cases hparses with
      | kept hlt => exact ⟨h.left hlt, h.pending⟩
      | @filled data later hspent hdevice hdata =>
        subst hdevice
        refine ⟨⟨data, h.pending data List.mem_cons_self, (List.take_prefix _ _).isInfix⟩, ?_⟩
        exact fun data' hlater => h.pending data' (List.mem_cons_of_mem data hlater)
    obtain ⟨⟨data, hdata, hinfix⟩, hlater⟩ := hread
    refine ⟨_, _, _, hcall, ⟨hsound.after hpos _, ?_, hlater⟩, ?_⟩
    · intro hlt
      refine ⟨data, hdata, (after_left _ hlt).isInfix.trans ?_⟩
      rwa [hleft]
    · intro p hp
      cases hrecord : firstRecord bytes with
      | none =>
        rw [hrecord] at hp
        cases hp
      | some found =>
        rw [hrecord] at hp
        cases hp
        exact ⟨data, hdata, (infix_of_firstRecord hrecord).trans hinfix⟩

theorem Reading.packets (h : Reading reads c device) (n : Nat) :
    ∃ results, c.packets n device = some results ∧
      ∀ p, some p ∈ results → ∃ data ∈ reads, p.data <:+: data := by
  induction n generalizing c device with
  | zero => exact ⟨[], rfl, fun _ hp => absurd hp List.not_mem_nil⟩
  | succ n ih =>
    obtain ⟨packet, c', later, hcall, hnext, hpacket⟩ := h.next
    obtain ⟨results, hresults, hin⟩ := ih hnext
    refine ⟨packet :: results, ?_, ?_⟩
    · rw [BpfCapture.packets, hcall]
      simp only [Option.bind_eq_bind, Option.bind_some, hresults]
      rfl
    · intro p hp
      cases List.mem_cons.mp hp with
      | inl hhead => exact hpacket p hhead.symm
      | inr htail => exact hin p htail

/-- Whatever the kernel writes, no call reaches outside of what was read or reads a header off its
alignment, and each packet is part of one read: bytes that an earlier one left are never in it. -/
theorem packets_within (bufLen : Nat) (device : List Bytes) (n : Nat) :
    ∃ results, (opened bufLen).packets n device = some results ∧
      ∀ p, some p ∈ results → ∃ data ∈ device, p.data <:+: data :=
  Reading.packets ⟨sound_opened bufLen, fun h => absurd h (Nat.lt_irrefl 0), fun _ h => h⟩ n

end BpfCapture

/-- A captured frame as the kernel puts it into the buffer: the header fields, some padding up to
the frame, and the frame. A record is never shorter than the header with all its padding. -/
structure BpfRecord where
  sec : Int64
  usec : Int64
  caplen : UInt32
  datalen : UInt32
  hdrlen : UInt16
  padding : Bytes
  frame : Bytes
  fields : hdrlen.toNat = 26 + padding.length
  captured : frame.length = caplen.toNat
  size : BpfHeader.size ≤ hdrlen.toNat + caplen.toNat

namespace BpfRecord
variable (r : BpfRecord)

def fieldBytes : Bytes :=
  leBytes 8 r.sec.toBitVec.toNat ++ (leBytes 8 r.usec.toBitVec.toNat ++
    (leBytes 4 r.caplen.toNat ++ (leBytes 4 r.datalen.toNat ++ leBytes 2 r.hdrlen.toNat)))

def bytes : Bytes := r.fieldBytes ++ r.padding ++ r.frame

def header : BpfHeader := ⟨r.sec, r.usec, r.caplen, r.datalen, r.hdrlen⟩

/-- The bytes up to the place of the next record. -/
def gap : Nat := BpfCapture.aligned r.header.total - r.header.total

def packet : RawPacket := r.header.packet r.frame

variable {r : BpfRecord}

theorem length_fieldBytes : r.fieldBytes.length = 26 := by
  simp only [fieldBytes, List.length_append, length_leBytes]

theorem length_bytes : r.bytes.length = r.header.total := by
  rw [bytes, List.length_append, List.length_append, length_fieldBytes, r.captured,
    BpfHeader.total, header, r.fields]

theorem ofNat_toBitVec (x : Int64) : Int64.ofNat x.toBitVec.toNat = x :=
  Int64.toBitVec.inj (by rw [Int64.toBitVec_ofNat', BitVec.ofNat_toNat, BitVec.setWidth_eq])

theorem slice_skip {a : Bytes} (h : a.length = k) (rest : Bytes) :
    slice (k + i) (k + j) (a ++ rest) = slice i j rest := by
  rw [slice, slice, ← h, List.take_length_add_append, List.drop_length_add_append]

theorem slice_front {a : Bytes} (h : a.length = k) (rest : Bytes) : slice 0 k (a ++ rest) = a := by
  rw [slice, ← h, List.take_left, List.drop_zero]

theorem ofBytes_fieldBytes : BpfHeader.ofBytes r.fieldBytes = r.header := by
  have hsec : leNat (leBytes 8 r.sec.toBitVec.toNat) = r.sec.toBitVec.toNat :=
    leNat_leBytes r.sec.toBitVec.isLt
  have husec : leNat (leBytes 8 r.usec.toBitVec.toNat) = r.usec.toBitVec.toNat :=
    leNat_leBytes r.usec.toBitVec.isLt
  have hcaplen : leNat (leBytes 4 r.caplen.toNat) = r.caplen.toNat := leNat_leBytes r.caplen.toNat_lt
  have hdatalen : leNat (leBytes 4 r.datalen.toNat) = r.datalen.toNat :=
    leNat_leBytes r.datalen.toNat_lt
  have hhdrlen : leNat (leBytes 2 r.hdrlen.toNat) = r.hdrlen.toNat := leNat_leBytes r.hdrlen.toNat_lt
  have hsecAt : slice 0 8 r.fieldBytes = leBytes 8 r.sec.toBitVec.toNat :=
    slice_front (length_leBytes 8 _) _
  have husecAt : slice 8 16 r.fieldBytes = leBytes 8 r.usec.toBitVec.toNat :=
    (slice_skip (i := 0) (j := 8) (length_leBytes 8 _) _).trans (slice_front (length_leBytes 8 _) _)
  have hlengths (i j : Nat) : slice (16 + i) (16 + j) r.fieldBytes = slice i j (leBytes 4
      r.caplen.toNat ++ (leBytes 4 r.datalen.toNat ++ leBytes 2 r.hdrlen.toNat)) := by
    rw [fieldBytes, ← List.append_assoc]
    exact slice_skip (by rw [List.length_append, length_leBytes, length_leBytes]) _
  have hcaplenAt : slice 16 20 r.fieldBytes = leBytes 4 r.caplen.toNat :=
    (hlengths 0 4).trans (slice_front (length_leBytes 4 _) _)
  have hdatalenAt : slice 20 24 r.fieldBytes = leBytes 4 r.datalen.toNat :=
    (hlengths 4 8).trans ((slice_skip (i := 0) (j := 4) (length_leBytes 4 _) _).trans
      (slice_front (length_leBytes 4 _) _))
  have hhdrlenAt : slice 24 26 r.fieldBytes = leBytes 2 r.hdrlen.toNat := by
    calc slice 24 26 r.fieldBytes
        = slice 4 6 (leBytes 4 r.datalen.toNat ++ leBytes 2 r.hdrlen.toNat) :=
          (hlengths 8 10).trans (slice_skip (i := 4) (j := 6) (length_leBytes 4 _) _)
      _ = slice 0 2 (leBytes 2 r.hdrlen.toNat) := slice_skip (i := 0) (j := 2) (length_leBytes 4 _) _
      _ = leBytes 2 r.hdrlen.toNat := by
          have hall := slice_front (length_leBytes 2 r.hdrlen.toNat) []
          rwa [List.append_nil] at hall
  rw [BpfHeader.ofBytes, hsecAt, husecAt, hcaplenAt, hdatalenAt, hhdrlenAt, hsec, husec, hcaplen,
    hdatalen, hhdrlen, ofNat_toBitVec, ofNat_toBitVec, UInt32.ofNat_toNat, UInt32.ofNat_toNat,
    UInt16.ofNat_toNat]
  rfl

theorem firstRecord_bytes (rest : Bytes) :
    firstRecord (r.bytes ++ rest) = some (r.header, r.frame) := by
  have hheader : BpfHeader.ofBytes (r.bytes ++ rest) = r.header := by
    rw [bytes, List.append_assoc, List.append_assoc, BpfHeader.ofBytes_append, ofBytes_fieldBytes]
    exact Nat.le_of_eq length_fieldBytes.symm
  have hlength : (r.bytes ++ rest).length = r.header.total + rest.length := by
    rw [List.length_append, length_bytes]
  have hsize : BpfHeader.size ≤ r.header.total := r.size
  have hframe : slice r.header.hdrlen.toNat r.header.total (r.bytes ++ rest) = r.frame := by
    have hbefore : (r.fieldBytes ++ r.padding).length = r.header.hdrlen.toNat := by
      rw [List.length_append, length_fieldBytes]
      exact r.fields.symm
    rw [bytes, List.append_assoc]
    exact (slice_skip (i := 0) hbefore _).trans (slice_front r.captured rest)
  rw [firstRecord, if_neg (by omega)]
  dsimp only
  rw [hheader, if_neg (by omega), hframe]

end BpfRecord

/-- The bytes of a read. What follows a record up to the place of the next is not cleared, and is
left out after the last one. -/
inductive Layout : List BpfRecord → Bytes → Prop
  | nil : Layout [] []
  | last (r : BpfRecord) (rest : Bytes) (hrest : rest.length ≤ r.gap) : Layout [r] (r.bytes ++ rest)
  | cons (r : BpfRecord) (rest : Bytes) (hrest : rest.length = r.gap) (h : Layout rs bytes) :
      Layout (r :: rs) (r.bytes ++ rest ++ bytes)

/-- What the calls return for the reads: the packets of the records, and nothing for a read that
times out. -/
def expected (reads : List (List BpfRecord)) : List (Option RawPacket) :=
  reads.flatMap fun rs => if rs = [] then [none] else rs.map fun r => some r.packet

namespace BpfCapture
variable {c : BpfCapture}

/-- The records that the buffer still holds. -/
inductive Holds (c : BpfCapture) : List BpfRecord → Prop
  | none (h : c.bufRead ≤ c.bufPos) : Holds c []
  | some (hlayout : Layout (r :: rs) bytes) (haligned : c.bufPos % 8 = 0)
      (hrest : Rest c.buffer c.bufRead c.bufPos bytes) : Holds c (r :: rs)

theorem Layout.first (h : Layout (r :: rs) bytes) :
    ∃ rest, bytes = r.bytes ++ rest ∧ (rs = [] → rest.length ≤ r.gap) ∧
      (rs ≠ [] → ∃ gap later, rest = gap ++ later ∧ gap.length = r.gap ∧ Layout rs later) := by
  cases h with
  | last _ rest hrest => exact ⟨rest, rfl, fun _ => hrest, fun h => absurd rfl h⟩
  | @cons _ later _ gap hgap hlater =>
    refine ⟨gap ++ later, List.append_assoc _ _ _, ?_, fun _ => ⟨gap, later, rfl, hgap, hlater⟩⟩
    intro hnil
    subst hnil
    cases hlater
    rw [List.append_nil, hgap]

theorem total_le_aligned (n : Nat) : n ≤ aligned n := by
  rw [aligned]
  omega

/-- A call returns the first record and leaves the others. -/
theorem after_record (hlayout : Layout (r :: rs) bytes) (haligned : c.bufPos % 8 = 0)
    (hrest : Rest c.buffer c.bufRead c.bufPos bytes) :
    (c.after (firstRecord bytes)).1 = some r.packet ∧
      Holds (c.after (firstRecord bytes)).2 rs := by
  obtain ⟨rest, rfl, hlast, hmore⟩ := Layout.first hlayout
  rw [BpfRecord.firstRecord_bytes]
  refine ⟨rfl, ?_⟩
  have hle := total_le_aligned r.header.total
  have hgap : r.gap = aligned r.header.total - r.header.total := rfl
  have hlength := hrest.length
  rw [List.length_append, BpfRecord.length_bytes] at hlength
  have hpos : (c.after (some (r.header, r.frame))).2.bufPos =
      c.bufPos + aligned r.header.total := rfl
  cases rs with
  | nil =>
    have hshort := hlast rfl
    refine .none ?_
    show c.bufRead ≤ _
    omega
  | cons r' rs =>
    obtain ⟨gap, later, rfl, hlen, hlater⟩ := hmore (List.cons_ne_nil r' rs)
    refine .some hlater ?_ ?_
    · rw [hpos, aligned, Nat.add_mod, haligned, Nat.mul_mod_left]
    · have hskip := hrest.skip.skip
      rw [BpfRecord.length_bytes, hlen, hgap, Nat.add_assoc, Nat.add_sub_cancel' hle] at hskip
      exact hskip

theorem Layout.ne_nil (h : Layout (r :: rs) bytes) : bytes ≠ [] := by
  obtain ⟨rest, rfl, -, -⟩ := Layout.first h
  intro hnil
  have hlength := congrArg List.length hnil
  have hsize : BpfHeader.size ≤ r.header.total := r.size
  rw [List.length_append, BpfRecord.length_bytes, List.length_nil] at hlength
  rw [BpfHeader.size] at hsize
  omega

/-- What the calls still have to return: for the records in the buffer, and for the reads. -/
def outcomes (rs : List BpfRecord) (reads : List (List BpfRecord)) : List (Option RawPacket) :=
  (rs.map fun r => some r.packet) ++ expected reads

/-- A capture in the middle of records, with more of them to be read. -/
structure Waiting (bufLen : Nat) (c : BpfCapture) (device : List Bytes) (rs : List BpfRecord)
    (reads : List (List BpfRecord)) : Prop where
  sound : c.Sound
  length : c.buffer.length = bufLen
  holds : Holds c rs
  layouts : List.Forall₂ Layout reads device
  fits : ∀ data ∈ device, data.length ≤ bufLen

/-- A call returns the first outcome and leaves the others. -/
def Waiting.Returns (bufLen : Nat) (c : BpfCapture) (device : List Bytes)
    (outs : List (Option RawPacket)) : Prop :=
  ∃ c' later rs reads, c.nextPacket device = some (outs.headD none, c', later) ∧
    Waiting bufLen c' later rs reads ∧ outcomes rs reads = outs.tail

theorem Waiting.next_held (h : Waiting bufLen c device (r :: rs) reads) :
    Returns bufLen c device (outcomes (r :: rs) reads) := by
  cases h.holds with
  | some hlayout haligned hrest =>
    have hlt : c.bufPos < c.bufRead := by
      rw [← hrest.length]
      exact Nat.lt_add_of_pos_right (List.length_pos_of_ne_nil (Layout.ne_nil hlayout))
    obtain ⟨hpacket, hholds⟩ := after_record hlayout haligned hrest
    cases nextPacket_eq h.sound device with
    | inl hnone => exact absurd hlt (Nat.not_lt_of_le hnone.2.1)
    | inr hfound =>
      obtain ⟨c', later, bytes, hparses, hcall⟩ := hfound
      cases hparses with
      | filled hspent _ _ => exact absurd hlt (Nat.not_lt_of_le hspent)
      | kept _ =>
        have hbytes : c.left = _ := hrest.same
        rw [hbytes] at hcall
        refine ⟨_, _, rs, reads, ?_, ⟨h.sound.after haligned _, ?_, hholds, h.layouts, h.fits⟩, rfl⟩
        · rw [hcall, hpacket]
          rfl
        · rw [after_buffer]
          exact h.length

theorem Waiting.next_read (h : Waiting bufLen c device [] reads) :
    Returns bufLen c device (outcomes [] reads) := by
  cases h.holds with
  | none hspent =>
    have hlayouts := h.layouts
    cases hlayouts with
    | nil =>
      refine ⟨c, [], [], [], ?_, h, rfl⟩
      rw [nextPacket.eq_def, if_pos hspent]
      rfl
    | @cons rs data reads later hlayout hlater =>
      obtain ⟨hdata, hlaterFits⟩ := List.forall_mem_cons.mp h.fits
      have htake : data.take c.buffer.length = data := by
        rw [h.length]
        exact List.take_of_length_le hdata
      cases rs with
      | nil =>
        cases hlayout
        refine ⟨c, later, [], reads, ?_, ⟨h.sound, h.length, h.holds, hlater, hlaterFits⟩, rfl⟩
        rw [nextPacket.eq_def, if_pos hspent]
        dsimp only
        rw [htake]
        rfl
      | cons r rs =>
        cases nextPacket_eq h.sound (data :: later) with
        | inl hnone =>
          have hempty := hnone.2.2 data rfl
          rw [htake] at hempty
          exact absurd hempty (Layout.ne_nil hlayout)
        | inr hfound =>
          obtain ⟨c', later', bytes, hparses, hcall⟩ := hfound
          obtain ⟨hsound, haligned, hrest⟩ := hparses.rest h.sound
          cases hparses with
          | kept hlt => exact absurd hlt (Nat.not_lt_of_le hspent)
          | filled _ hdevice hne =>
            cases hdevice
            rw [htake] at hcall hsound haligned hrest
            obtain ⟨hpacket, hholds⟩ := after_record hlayout haligned hrest
            refine ⟨_, later, rs, reads, ?_, ⟨hsound.after haligned _, ?_, hholds, hlater, hlaterFits⟩, ?_⟩
            · rw [hcall, hpacket]
              rfl
            · rw [after_buffer, length_fill (by rwa [h.length]), h.length]
            · simp [outcomes, expected]

theorem Waiting.next (h : Waiting bufLen c device rs reads) :
    Returns bufLen c device (outcomes rs reads) := by
  cases rs with
  | nil => exact h.next_read
  | cons r rs => exact h.next_held

theorem Waiting.packets (h : Waiting bufLen c device rs reads) (n : Nat) :
    c.packets n device = some ((outcomes rs reads).takeD n none) := by
  induction n generalizing c device rs reads with
  | zero => rfl
  | succ n ih =>
    obtain ⟨c', later, rs', reads', hcall, hnext, htail⟩ := h.next
    rw [BpfCapture.packets, hcall, List.takeD, ← htail]
    simp only [Option.bind_eq_bind, Option.bind_some, ih hnext, List.headD_eq_head?_getD]
    rfl

/-- The calls return the packets in the order of the records, and nothing exactly where a read
timed out. -/
theorem delivered (hlayouts : List.Forall₂ Layout reads device)
    (hfits : ∀ data ∈ device, data.length ≤ bufLen) (n : Nat) :
    (opened bufLen).packets n device = some ((expected reads).takeD n none) := by
  have hwaiting : Waiting bufLen (opened bufLen) device [] reads :=
    ⟨sound_opened bufLen, List.length_replicate, .none (Nat.le_refl 0), hlayouts, hfits⟩
  exact hwaiting.packets n

end BpfCapture

/-- The counters and the flow expiry of the worker, with what detection makes of the packets. -/
structure CaptureWorker (S A : Type) where
  packetsInspected : UInt64
  bytesTotal : UInt64
  pktCount : UInt64
  detection : S
  alerts : List A

/-- The decoder, the detection and the expiry of its flows, and the times at which the worker asks
for the clock. -/
structure Detection (S D A : Type) where
  decodePacket : Bytes → Int64 → Option D
  detect : S → D → S × List A
  expire : Int64 → Int64 → S → S
  now : UInt64 → Int64

namespace CaptureWorker
variable {S D A : Type} (env : Detection S D A)

def flowIdleTimeoutUs : Int64 := 300000000
def expireCheckEvery : UInt64 := 10000

/-- The alerts are those that are sent to the channel, which may drop them. -/
def inspect (w : CaptureWorker S A) (pkt : RawPacket) : CaptureWorker S A :=
  let w := { w with
    packetsInspected := w.packetsInspected + 1
    bytesTotal := w.bytesTotal + UInt64.ofNat pkt.data.length }
  let w := match env.decodePacket pkt.data pkt.timestampUs with
    | some decoded =>
      let (detection, alerts) := env.detect w.detection decoded
      { w with detection, alerts := w.alerts ++ alerts }
    | none => w
  let w := { w with pktCount := w.pktCount + 1 }
  if w.pktCount % expireCheckEvery = 0 then
    { w with detection := env.expire (env.now w.pktCount) flowIdleTimeoutUs w.detection }
  else w

/-- So many rounds of the loop. -/
def rounds (w : CaptureWorker S A) (c : BpfCapture) : Nat → List Bytes → Option (CaptureWorker S A)
  | 0, _ => some w
  | n + 1, device => do
    let (pkt, c, device) ← c.nextPacket device
    match pkt with
    | some pkt => (w.inspect env pkt).rounds c n device
    | none => w.rounds c n device

theorem rounds_eq (h : c.packets n device = some results) (w : CaptureWorker S A) :
    w.rounds env c n device = some (results.reduceOption.foldl (inspect env) w) := by
  induction n generalizing c device results w with
  | zero =>
    cases h
    rfl
  | succ n ih =>
    rw [BpfCapture.packets] at h
    obtain ⟨⟨pkt, c', later⟩, hcall, h⟩ := Option.bind_eq_some_iff.mp h
    obtain ⟨results', hresults, h⟩ := Option.bind_eq_some_iff.mp h
    cases h
    rw [rounds, hcall, Option.bind_eq_bind, Option.bind_some]
    cases pkt with
    | none => exact ih hresults w
    | some pkt => exact ih hresults (w.inspect env pkt)

theorem reduceOption_takeD (l : List (Option α)) (n : Nat) :
    (l.takeD n none).reduceOption = (l.take n).reduceOption := by
  induction n generalizing l with
  | zero => rfl
  | succ n ih =>
    cases l with
    | nil => rw [List.takeD_nil, List.reduceOption_replicate_none, List.take_nil]; rfl
    | cons a l =>
      rw [List.takeD_succ, List.take_succ_cons]
      cases a with
      | none => exact ih l
      | some a => exact congrArg (a :: ·) (ih l)

theorem reduceOption_map_some (l : List α) : (l.map some).reduceOption = l := by
  induction l with
  | nil => rfl
  | cons a l ih => exact congrArg (a :: ·) ih

theorem reduceOption_expected (reads : List (List BpfRecord)) :
    (expected reads).reduceOption = reads.flatten.map BpfRecord.packet := by
  induction reads with
  | nil => rfl
  | cons rs reads ih =>
    have hhead : (if rs = [] then [none] else rs.map fun r => some r.packet).reduceOption =
        rs.map BpfRecord.packet := by
      cases rs with
      | nil => rfl
      | cons r rs =>
        rw [if_neg (List.cons_ne_nil r rs)]
        exact (congrArg List.reduceOption List.map_map.symm).trans (reduceOption_map_some _)
    rw [expected, List.flatMap_cons, List.reduceOption_append, hhead, List.flatten_cons,
      List.map_append]
    exact congrArg _ ih

theorem length_expected (reads : List (List BpfRecord)) :
    (expected reads).length = (reads.map fun rs => max 1 rs.length).sum := by
  induction reads with
  | nil => rfl
  | cons rs reads ih =>
    have hhead : (if rs = [] then [none] else rs.map fun r => some r.packet).length =
        max 1 rs.length := by
      cases rs with
      | nil => rfl
      | cons r rs =>
        rw [if_neg (List.cons_ne_nil r rs), List.length_map, List.length_cons]
        omega
    rw [expected, List.flatMap_cons, List.length_append, hhead, List.map_cons, List.sum_cons]
    exact congrArg _ ih

/-- When every read has been taken up, the worker has inspected the packets of all the records that
the kernel wrote, one after the other and each of them once. -/
theorem rounds_inspect (hlayouts : List.Forall₂ Layout reads device)
    (hfits : ∀ data ∈ device, data.length ≤ bufLen)
    (hrounds : (reads.map fun rs => max 1 rs.length).sum ≤ n) (w : CaptureWorker S A) :
    w.rounds env (.opened bufLen) n device =
      some ((reads.flatten.map BpfRecord.packet).foldl (inspect env) w) := by
  rw [← length_expected] at hrounds
  rw [rounds_eq env (BpfCapture.delivered hlayouts hfits n), reduceOption_takeD,
    List.take_of_length_le hrounds, reduceOption_expected]

end CaptureWorker

/-- A frame with twenty bytes of it captured. -/
def pingRecord : BpfRecord where
  sec := 1700000000
  usec := 250
  caplen := 20
  datalen := 98
  hdrlen := 26
  padding := []
  frame := List.replicate 20 0x45
  fields := rfl
  captured := rfl
  size := by decide

/-- Detection that counts the bytes of the packets. -/
def byteCount : Detection Nat Nat Nat where
  decodePacket := fun data _ => some data.length
  detect := fun total length => (total + length, [length])
  expire := fun _ _ total => total
  now := fun _ => 0

/-- Two frames come in one read and a third one after a timeout. -/
theorem rounds_inspect_pings :
    (⟨0, 0, 0, 0, []⟩ : CaptureWorker Nat Nat).rounds byteCount (.opened 128) 5
        [pingRecord.bytes ++ [0, 0] ++ (pingRecord.bytes ++ []), [], pingRecord.bytes ++ []] =
      some ⟨3, 18, 3, 18, [6, 6, 6]⟩ := by
  have hlast : Layout [pingRecord] (pingRecord.bytes ++ []) := .last pingRecord [] (Nat.zero_le _)
  have hlayouts : List.Forall₂ Layout [[pingRecord, pingRecord], [], [pingRecord]]
      [pingRecord.bytes ++ [0, 0] ++ (pingRecord.bytes ++ []), [], pingRecord.bytes ++ []] :=
    .cons (.cons pingRecord [0, 0] rfl hlast) (.cons .nil (.cons hlast .nil))
  rw [CaptureWorker.rounds_inspect byteCount hlayouts (by decide) (by decide)]
  rfl

end AiFw.Ids
