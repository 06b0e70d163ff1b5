import AiFw.Lib.ByAge
import AiFw.Lib.KeyedMap
import AiFw.Net.Network
import Mathlib.Data.Finset.Erase
import Mathlib.Data.Finset.Insert

namespace AiFw.Ids
open AiFw.Net

set_option autoImplicit true

abbrev Bytes := List UInt8

inductive PacketProtocol where
  | tcp
  | udp
  | icmpv4
  | icmpv6
  | other (n : UInt8)
deriving DecidableEq, Repr

def PacketProtocol.display : PacketProtocol → String
  | .tcp => "tcp"
  | .udp => "udp"
  | .icmpv4 => "icmp"
  | .icmpv6 => "icmpv6"
  | .other n => "proto_" ++ toString n.toNat

structure TcpFlags where
  syn : Bool
  ack : Bool
  fin : Bool
  rst : Bool
deriving DecidableEq, Repr

def TcpFlags.isSynOnly (flags : TcpFlags) : Bool := flags.syn && !flags.ack

def TcpFlags.isSynAck (flags : TcpFlags) : Bool := flags.syn && flags.ack

/-- A packet after header decoding. Times are microseconds since the epoch. -/
structure DecodedPacket where
  timestampUs : Int
  srcIp : Option IpAddr
  dstIp : Option IpAddr
  srcPort : Option UInt16
  dstPort : Option UInt16
  protocol : PacketProtocol
  tcpFlags : Option TcpFlags
  payload : Bytes
  packetLen : Nat
deriving DecidableEq, Repr

def tcpPacket (payload : Bytes) : DecodedPacket where
  timestampUs := 1000
  srcIp := some (.v4 0x0A000001)
  dstIp := some (.v4 0x0A000002)
  srcPort := some 12345
  dstPort := some 80
  protocol := .tcp
  tcpFlags := none
  payload := payload
  packetLen := 64 + payload.length

inductive FlowDirection where
  | toServer
  | toClient
deriving DecidableEq, Repr

inductive FlowState where
  | new
  | synSent
  | synAckSeen
  | established
  | finWait
  | closed
deriving DecidableEq, Repr

/-- The direction-independent identity of a flow: the lower endpoint is stored first. -/
structure FlowKey where
  ipA : IpAddr
  ipB : IpAddr
  portA : UInt16
  portB : UInt16
  protocol : UInt8
deriving DecidableEq, Repr

/-- The derived lexicographic order, which only breaks ties in the eviction heap. -/
def FlowKey.rank (k : FlowKey) : IpAddr ×ₗ IpAddr ×ₗ Nat ×ₗ Nat ×ₗ Nat :=
  toLex (k.ipA, toLex (k.ipB, toLex (k.portA.toNat, toLex (k.portB.toNat, k.protocol.toNat))))

theorem FlowKey.rank_injective : Function.Injective FlowKey.rank := by
  intro a b h
  obtain ⟨a₁, a₂, a₃, a₄, a₅⟩ := a
  obtain ⟨b₁, b₂, b₃, b₄, b₅⟩ := b
  simp only [FlowKey.rank, EmbeddingLike.apply_eq_iff_eq, Prod.mk.injEq, UInt16.toNat_inj,
    UInt8.toNat_inj] at h
  obtain ⟨h₁, h₂, h₃, h₄, h₅⟩ := h
  rw [h₁, h₂, h₃, h₄, h₅]

instance : LinearOrder FlowKey := LinearOrder.lift' FlowKey.rank FlowKey.rank_injective

def endpoint (ip : IpAddr) (port : UInt16) : IpAddr ×ₗ Nat := toLex (ip, port.toNat)

theorem endpoint_inj : endpoint ip port = endpoint ip' port' ↔ ip = ip' ∧ port = port' := by
  simp only [endpoint, EmbeddingLike.apply_eq_iff_eq, Prod.mk.injEq, UInt16.toNat_inj]

def FlowKey.fromPacket (srcIp dstIp : IpAddr) (srcPort dstPort : UInt16) (protocol : UInt8) :
    FlowKey :=
  if endpoint srcIp srcPort ≤ endpoint dstIp dstPort then
    { ipA := srcIp, ipB := dstIp, portA := srcPort, portB := dstPort, protocol }
  else
    { ipA := dstIp, ipB := srcIp, portA := dstPort, portB := srcPort, protocol }

def FlowKey.direction (k : FlowKey) (srcIp : IpAddr) (srcPort : UInt16) : FlowDirection :=
  if srcIp = k.ipA ∧ srcPort = k.portA then .toServer else .toClient

inductive AppProto where
  | http
  | tls
  | dns
  | ssh
  | smtp
  | unknown
deriving DecidableEq, Repr

abbrev Uuid := Nat

structure Flow where
  id : Uuid
  key : FlowKey
  state : FlowState
  pktsToserver : Nat
  pktsToclient : Nat
  bytesToserver : Nat
  bytesToclient : Nat
  startTs : Int
  lastTs : Int
  appProto : Option AppProto
  toserverBuf : Bytes
  toclientBuf : Bytes
  maxStreamDepth : Nat
  flowbits : Finset String
  initiatorIp : IpAddr
  initiatorPort : UInt16
deriving DecidableEq

def Flow.initialState (packet : DecodedPacket) : FlowState :=
  match packet.tcpFlags with
  | some flags =>
    if flags.isSynOnly then .synSent
    else if flags.isSynAck then .synAckSeen
    else if flags.ack then .established
    else .new
  | none => .new

/-- The first packet always counts for the side of its source, the initiator. -/
def Flow.new (id : Uuid) (key : FlowKey) (packet : DecodedPacket) (maxStreamDepth : Nat) :
    Flow where
  id := id
  key := key
  state := Flow.initialState packet
  pktsToserver := 1
  pktsToclient := 0
  bytesToserver := packet.packetLen
  bytesToclient := 0
  startTs := packet.timestampUs
  lastTs := packet.timestampUs
  appProto := none
  toserverBuf :=
    if packet.payload ≠ [] ∧ 0 < maxStreamDepth then
      packet.payload.take (min maxStreamDepth packet.payload.length)
    else []
  toclientBuf := []
  maxStreamDepth := maxStreamDepth
  flowbits := ∅
  initiatorIp := packet.srcIp.getD IpAddr.unspecifiedV4
  initiatorPort := packet.srcPort.getD 0

def updateTcpState (state : FlowState) (flags : TcpFlags) (direction : FlowDirection) : FlowState :=
  if state = .new ∧ direction = .toServer ∧ flags.isSynOnly then .synSent
  else if state = .synSent ∧ direction = .toClient ∧ flags.isSynAck then .synAckSeen
  else if state = .synAckSeen ∧ direction = .toServer ∧ flags.ack then .established
  else if state = .established ∧ flags.fin then .finWait
  else if state = .finWait ∧ (flags.fin || flags.ack) then .closed
  else if flags.rst then .closed
  else if state = .new ∧ (flags.ack || !flags.syn) then .established
  else state

def reassemble (maxStreamDepth : Nat) (buf payload : Bytes) : Bytes :=
  if buf.length < maxStreamDepth then
    buf ++ payload.take (min (maxStreamDepth - buf.length) payload.length)
  else buf

def Flow.update (flow : Flow) (packet : DecodedPacket) (direction : FlowDirection) : Flow :=
  let flow := { flow with lastTs := packet.timestampUs }
  let flow :=
    match direction with
    | .toServer =>
      { flow with
        pktsToserver := flow.pktsToserver + 1
        bytesToserver := flow.bytesToserver + packet.packetLen
        toserverBuf := reassemble flow.maxStreamDepth flow.toserverBuf packet.payload }
    | .toClient =>
      { flow with
        pktsToclient := flow.pktsToclient + 1
        bytesToclient := flow.bytesToclient + packet.packetLen
        toclientBuf := reassemble flow.maxStreamDepth flow.toclientBuf packet.payload }
  match packet.tcpFlags with
  | some flags => { flow with state := updateTcpState flow.state flags direction }
  | none => flow

def Flow.isEstablished (flow : Flow) : Bool :=
  match flow.state with
  | .established | .finWait | .closed => true
  | _ => false

def Flow.bufLen (flow : Flow) : Nat := flow.toserverBuf.length + flow.toclientBuf.length

theorem reassemble_length (depth : Nat) (buf payload : Bytes) :
    (reassemble depth buf payload).length =
      buf.length + min payload.length (depth - buf.length) := by
  unfold reassemble
  split
  · rw [List.length_append, List.length_take]
    omega
  · omega

theorem reassemble_length_le {depth : Nat} {buf : Bytes} (h : buf.length ≤ depth)
    (payload : Bytes) : (reassemble depth buf payload).length ≤ depth := by
  rw [reassemble_length]
  omega

structure Flow.Updated (flow flow' : Flow) (packet : DecodedPacket) : Prop where
  lastTs : flow'.lastTs = packet.timestampUs
  depth : flow'.maxStreamDepth = flow.maxStreamDepth
  flowbits : flow'.flowbits = flow.flowbits
  initiatorIp : flow'.initiatorIp = flow.initiatorIp
  initiatorPort : flow'.initiatorPort = flow.initiatorPort

structure Flow.CountedToServer (flow flow' : Flow) (packet : DecodedPacket) : Prop where
  pkts : flow'.pktsToserver = flow.pktsToserver + 1
  bytes : flow'.bytesToserver = flow.bytesToserver + packet.packetLen
  buf : flow'.toserverBuf = reassemble flow.maxStreamDepth flow.toserverBuf packet.payload
  otherPkts : flow'.pktsToclient = flow.pktsToclient
  otherBytes : flow'.bytesToclient = flow.bytesToclient
  otherBuf : flow'.toclientBuf = flow.toclientBuf

structure Flow.CountedToClient (flow flow' : Flow) (packet : DecodedPacket) : Prop where
  pkts : flow'.pktsToclient = flow.pktsToclient + 1
  bytes : flow'.bytesToclient = flow.bytesToclient + packet.packetLen
  buf : flow'.toclientBuf = reassemble flow.maxStreamDepth flow.toclientBuf packet.payload
  otherPkts : flow'.pktsToserver = flow.pktsToserver
  otherBytes : flow'.bytesToserver = flow.bytesToserver
  otherBuf : flow'.toserverBuf = flow.toserverBuf

theorem Flow.update_updated (flow : Flow) (packet : DecodedPacket) (direction : FlowDirection) :
    flow.Updated (flow.update packet direction) packet := by
  unfold Flow.update
  cases direction <;> cases packet.tcpFlags <;> exact ⟨rfl, rfl, rfl, rfl, rfl⟩

theorem Flow.update_toServer (flow : Flow) (packet : DecodedPacket) :
    flow.CountedToServer (flow.update packet .toServer) packet := by
  unfold Flow.update
  cases packet.tcpFlags <;> exact ⟨rfl, rfl, rfl, rfl, rfl, rfl⟩

theorem Flow.update_toClient (flow : Flow) (packet : DecodedPacket) :
    flow.CountedToClient (flow.update packet .toClient) packet := by
  unfold Flow.update
  cases packet.tcpFlags <;> exact ⟨rfl, rfl, rfl, rfl, rfl, rfl⟩

/-- The bytes a side of a flow still takes below the stream depth. -/
def Flow.room (flow : Flow) : FlowDirection → Nat
  | .toServer => flow.maxStreamDepth - flow.toserverBuf.length
  | .toClient => flow.maxStreamDepth - flow.toclientBuf.length

theorem Flow.bufLen_update (flow : Flow) (packet : DecodedPacket) (direction : FlowDirection) :
    (flow.update packet direction).bufLen =
      flow.bufLen + min packet.payload.length (flow.room direction) := by
  cases direction with
  | toServer =>
    have h := flow.update_toServer packet
    rw [Flow.bufLen, Flow.bufLen, h.buf, h.otherBuf, reassemble_length, Flow.room]
    omega
  | toClient =>
    have h := flow.update_toClient packet
    rw [Flow.bufLen, Flow.bufLen, h.buf, h.otherBuf, reassemble_length, Flow.room]
    omega

theorem Flow.bufLen_new (id : Uuid) (key : FlowKey) (packet : DecodedPacket) (depth : Nat) :
    (Flow.new id key packet depth).bufLen = min packet.payload.length depth := by
  simp only [Flow.bufLen, Flow.new, List.length_nil, Nat.add_zero]
  split
  · rw [List.length_take]
    omega
  · rename_i hc
    rw [Classical.not_and_iff_not_or_not, not_not] at hc
    rcases hc with hp | hd
    · rw [hp, List.length_nil, Nat.zero_min]
    · rw [List.length_nil]
      omega

structure Flow.WithinDepth (depth : Nat) (flow : Flow) : Prop where
  cap : flow.maxStreamDepth = depth
  toserver : flow.toserverBuf.length ≤ depth
  toclient : flow.toclientBuf.length ≤ depth

theorem Flow.new_withinDepth (id : Uuid) (key : FlowKey) (packet : DecodedPacket) (depth : Nat) :
    (Flow.new id key packet depth).WithinDepth depth := by
  refine ⟨rfl, ?_, Nat.zero_le _⟩
  simp only [Flow.new]
  split
  · rw [List.length_take]
    omega
  · exact Nat.zero_le _

theorem Flow.WithinDepth.update {flow : Flow} (h : flow.WithinDepth depth) (packet : DecodedPacket)
    (direction : FlowDirection) : (flow.update packet direction).WithinDepth depth := by
  have hd := (flow.update_updated packet direction).depth.trans h.cap
  cases direction with
  | toServer =>
    have hu := flow.update_toServer packet
    refine ⟨hd, ?_, hu.otherBuf ▸ h.toclient⟩
    rw [hu.buf, h.cap]
    exact reassemble_length_le h.toserver _
  | toClient =>
    have hu := flow.update_toClient packet
    refine ⟨hd, hu.otherBuf ▸ h.toserver, ?_⟩
    rw [hu.buf, h.cap]
    exact reassemble_length_le h.toclient _

/-- The packets of a flow after its first, each with its direction. -/
abbrev Arrivals := List (DecodedPacket × FlowDirection)

def Flow.updates (flow : Flow) (arrivals : Arrivals) : Flow :=
  arrivals.foldl (fun flow arrival => flow.update arrival.1 arrival.2) flow

/-- The payloads that went one way, one after the other. -/
def Arrivals.sent (direction : FlowDirection) (arrivals : Arrivals) : Bytes :=
  (arrivals.filter fun arrival => arrival.2 = direction).flatMap fun arrival => arrival.1.payload

/-- A prefix that is kept stays the prefix when more is appended. -/
theorem reassemble_take (depth : Nat) (stream payload : Bytes) :
    reassemble depth (stream.take depth) payload = (stream ++ payload).take depth := by
  unfold reassemble
  rw [List.length_take, List.take_append]
  by_cases hlen : stream.length < depth
  · have hmin : min depth stream.length = stream.length := Nat.min_eq_right hlen.le
    rw [hmin, if_pos hlen, ← List.take_take, List.take_length]
  · have hmin : min depth stream.length = depth := Nat.min_eq_left (Nat.le_of_not_lt hlen)
    have hnone : depth - stream.length = 0 := Nat.sub_eq_zero_of_le (Nat.le_of_not_lt hlen)
    rw [hmin, if_neg (Nat.lt_irrefl depth), hnone, List.take_zero, List.append_nil]

theorem Arrivals.sent_singleton (packet : DecodedPacket) (direction : FlowDirection) :
    Arrivals.sent direction [(packet, direction)] = packet.payload := by
  have hself : [(packet, direction)].filter (fun arrival => arrival.2 = direction) =
      [(packet, direction)] :=
    List.filter_eq_self.mpr (List.forall_mem_singleton.mpr (decide_eq_true rfl))
  rw [Arrivals.sent, hself, List.flatMap_singleton]

/-- The buffers of a flow are the first bytes of its two streams. -/
structure Flow.Buffers (depth : Nat) (up down : Bytes) (flow : Flow) : Prop where
  cap : flow.maxStreamDepth = depth
  toserver : flow.toserverBuf = up.take depth
  toclient : flow.toclientBuf = down.take depth

theorem Flow.new_buffers (id : Uuid) (key : FlowKey) (packet : DecodedPacket) (depth : Nat) :
    (Flow.new id key packet depth).Buffers depth packet.payload [] where
  cap := rfl
  toserver := by
    simp only [Flow.new]
    split
    · rw [← List.take_take, List.take_length]
    · next hnone =>
      rw [Classical.not_and_iff_not_or_not, not_not, Nat.not_lt] at hnone
      obtain hpayload | hdepth := hnone
      · rw [hpayload, List.take_nil]
      · rw [Nat.le_zero.mp hdepth, List.take_zero]
  toclient := List.take_nil.symm

theorem Flow.Buffers.update {flow : Flow} (h : flow.Buffers depth up down)
    (packet : DecodedPacket) (direction : FlowDirection) :
    (flow.update packet direction).Buffers depth
      (up ++ Arrivals.sent .toServer [(packet, direction)])
      (down ++ Arrivals.sent .toClient [(packet, direction)]) := by
  have hdepth := (flow.update_updated packet direction).depth.trans h.cap
  cases direction with
  | toServer =>
    have hupdate := flow.update_toServer packet
    refine ⟨hdepth, ?_, ?_⟩
    · rw [hupdate.buf, h.cap, h.toserver, reassemble_take, Arrivals.sent_singleton]
    · rw [hupdate.otherBuf, h.toclient]
      exact congrArg (List.take depth) (List.append_nil _).symm
  | toClient =>
    have hupdate := flow.update_toClient packet
    refine ⟨hdepth, ?_, ?_⟩
    · rw [hupdate.otherBuf, h.toserver]
      exact congrArg (List.take depth) (List.append_nil _).symm
    · rw [hupdate.buf, h.cap, h.toclient, reassemble_take, Arrivals.sent_singleton]

theorem Arrivals.sent_append (direction : FlowDirection) (a b : Arrivals) :
    Arrivals.sent direction (a ++ b) = Arrivals.sent direction a ++ Arrivals.sent direction b := by
  rw [Arrivals.sent, List.filter_append, List.flatMap_append]
  rfl

theorem Flow.Buffers.updates {flow : Flow} (h : flow.Buffers depth up down)
    (arrivals : Arrivals) : (flow.updates arrivals).Buffers depth
      (up ++ arrivals.sent .toServer) (down ++ arrivals.sent .toClient) := by
  induction arrivals generalizing flow up down with
  | nil =>
    rw [Arrivals.sent, Arrivals.sent, List.filter_nil, List.filter_nil, List.flatMap_nil,
      List.append_nil, List.append_nil]
    exact h
  | cons arrival arrivals ih =>
    have hrest := ih (h.update arrival.1 arrival.2)
    rw [List.append_assoc, List.append_assoc, ← Arrivals.sent_append,
      ← Arrivals.sent_append] at hrest
    exact hrest

/-- The buffers of a flow hold the first bytes of what each side sent, up to the depth; the first
packet counts for the side that opened the flow. -/
theorem buffers_are_prefixes (id : Uuid) (key : FlowKey) (first : DecodedPacket) (depth : Nat)
    (arrivals : Arrivals) :
    ((Flow.new id key first depth).updates arrivals).toserverBuf =
        (first.payload ++ arrivals.sent .toServer).take depth ∧
      ((Flow.new id key first depth).updates arrivals).toclientBuf =
        (arrivals.sent .toClient).take depth := by
  have hbuffers := (Flow.new_buffers id key first depth).updates arrivals
  exact ⟨hbuffers.toserver, hbuffers.toclient⟩

open AiFw.Lib

/-- An `AtomicUsize` used by one thread at a time. The flag is not in the source: it records
that some subtraction asked for more than the counter held. -/
structure AtomicUsize where
  value : Nat
  underflowed : Bool
deriving DecidableEq, Repr

def AtomicUsize.zero : AtomicUsize := ⟨0, false⟩

def AtomicUsize.fetchAdd (c : AtomicUsize) (n : Nat) : AtomicUsize :=
  { c with value := c.value + n }

def AtomicUsize.fetchSub (c : AtomicUsize) (n : Nat) : AtomicUsize :=
  if n ≤ c.value then { c with value := c.value - n }
  else { value := c.value + 2 ^ 64 - n, underflowed := true }

def AtomicUsize.release (c : AtomicUsize) (freed : Nat) : AtomicUsize :=
  if freed > 0 then c.fetchSub freed else c

def AtomicUsize.storeSaturatingSub (c : AtomicUsize) (n : Nat) : AtomicUsize :=
  { value := c.value - n, underflowed := c.underflowed || decide (c.value < n) }

/-- The bytes counted are held in memory at the same time, so additions stay below the word
size and are modelled without a bound. -/
def applySignedDelta (counter : AtomicUsize) (delta : Int) : AtomicUsize :=
  if 0 ≤ delta then counter.fetchAdd delta.toNat
  else counter.storeSaturatingSub (-delta).toNat

abbrev FlowEntry := Entry FlowKey Flow

structure FlowTable where
  table : KeyedMap FlowKey Flow
  maxStreamDepth : Nat
  maxFlows : Nat
  reassemblyBudgetBytes : Nat
  reassemblyTotal : AtomicUsize

def evictBatch : Nat := 128

/-- What the runtime decides during one call: the iteration order of the map in each of the two
evictions, and the id a new flow gets. -/
structure Choices where
  capOrder : IterOrder FlowKey Flow
  budgetOrder : IterOrder FlowKey Flow
  flowId : Uuid

namespace FlowTable

def new (maxFlows : Nat) : FlowTable where
  table := ∅
  maxStreamDepth := 65536
  maxFlows := maxFlows
  reassemblyBudgetBytes := 256 * 1024 * 1024
  reassemblyTotal := .zero

def withStreamDepth (t : FlowTable) (depth : Nat) : FlowTable := { t with maxStreamDepth := depth }

def withReassemblyBudget (t : FlowTable) (bytes : Nat) : FlowTable :=
  { t with reassemblyBudgetBytes := bytes }

def len (t : FlowTable) : Nat := t.table.size

def reassemblyBytes (t : FlowTable) : Nat := t.reassemblyTotal.value

def get (t : FlowTable) (key : FlowKey) : Option Flow := t.table.lookup key

def stamp (e : FlowEntry) : Int ×ₗ FlowKey := toLex (e.2.lastTs, e.1)

def stampTs (s : Int ×ₗ FlowKey) : Int := (ofLex s).1

/-- The bounded-heap scan of `evict_oldest_batch`: the heap after all entries were offered. -/
def oldestStamps (entries : List FlowEntry) (n : Nat) : BinaryHeap (Int ×ₗ FlowKey) :=
  keepOldest n stampTs (entries.map stamp)

def evictOldestBatch (iter : IterOrder FlowKey Flow) (t : FlowTable) (n : Nat) : FlowTable :=
  let heap := oldestStamps (iter.order t.table.entries) n
  let (table, freed) := t.table.removeAll Flow.bufLen (heap.map fun s => (ofLex s).2) 0
  { t with table := table, reassemblyTotal := t.reassemblyTotal.release freed }

end FlowTable

def PacketProtocol.number : PacketProtocol → UInt8
  | .tcp => 6
  | .udp => 17
  | .icmpv4 => 1
  | .icmpv6 => 58
  | .other n => n

def DecodedPacket.flowKey (packet : DecodedPacket) : Option (FlowKey × FlowDirection) := do
  let srcIp ← packet.srcIp
  let dstIp ← packet.dstIp
  let srcPort := packet.srcPort.getD 0
  let dstPort := packet.dstPort.getD 0
  let key := FlowKey.fromPacket srcIp dstIp srcPort dstPort packet.protocol.number
  return (key, key.direction srcIp srcPort)

namespace FlowTable

def evictAtCap (choices : Choices) (t : FlowTable) (key : FlowKey) : FlowTable :=
  if t.table.lookup key = none ∧ t.maxFlows ≤ t.len then
    let needed := t.len - t.maxFlows + 1
    let batched := min (t.len / 10) evictBatch
    t.evictOldestBatch choices.capOrder (max needed batched)
  else t

def recordEntry (choices : Choices) (t : FlowTable) (packet : DecodedPacket) (key : FlowKey)
    (direction : FlowDirection) : FlowTable :=
  let (flow, delta) : Flow × Int :=
    match t.table.lookup key with
    | some flow =>
      let updated := flow.update packet direction
      (updated, (updated.bufLen : Int) - flow.bufLen)
    | none =>
      let flow := Flow.new choices.flowId key packet t.maxStreamDepth
      (flow, flow.bufLen)
  { t with
    table := t.table.insert key flow
    reassemblyTotal :=
      if delta ≠ 0 then applySignedDelta t.reassemblyTotal delta else t.reassemblyTotal }

def enforceBudget (choices : Choices) (t : FlowTable) : FlowTable :=
  if t.reassemblyTotal.value > t.reassemblyBudgetBytes ∧ t.len ≠ 0 then
    t.evictOldestBatch choices.budgetOrder evictBatch
  else t

/-- `track_packet` up to the budget check. -/
def recordPacket (choices : Choices) (t : FlowTable) (packet : DecodedPacket) (key : FlowKey)
    (direction : FlowDirection) : FlowTable :=
  (t.evictAtCap choices key).recordEntry choices packet key direction

def trackPacket (choices : Choices) (t : FlowTable) (packet : DecodedPacket) :
    FlowTable × Option (FlowKey × FlowDirection) :=
  match packet.flowKey with
  | none => (t, none)
  | some (key, direction) =>
    ((t.recordPacket choices packet key direction).enforceBudget choices, some (key, direction))

def expire (t : FlowTable) (nowUs timeoutUs : Int) : FlowTable × Nat :=
  let cutoff := nowUs - timeoutUs
  let kept := t.table.retain fun _ flow => decide (flow.lastTs > cutoff)
  let freed := (t.table.retain fun _ flow => !decide (flow.lastTs > cutoff)).weight Flow.bufLen
  ({ t with table := kept, reassemblyTotal := t.reassemblyTotal.release freed },
    t.table.size - kept.size)

def clear (t : FlowTable) : FlowTable :=
  { t with table := ∅, reassemblyTotal := { t.reassemblyTotal with value := 0 } }

inductive Op where
  | track (choices : Choices) (packet : DecodedPacket)
  | expire (nowUs timeoutUs : Int)
  | clear

def step (t : FlowTable) : Op → FlowTable
  | .track choices packet => (t.trackPacket choices packet).1
  | .expire nowUs timeoutUs => (t.expire nowUs timeoutUs).1
  | .clear => t.clear

def run (t : FlowTable) (ops : List Op) : FlowTable := ops.foldl step t

def anyChoices : Choices where
  capOrder := .asStored
  budgetOrder := .asStored
  flowId := 7

/-- A table as the engine creates it: `new` and the two builders. -/
def fresh (maxFlows depth budget : Nat) : FlowTable :=
  ((new maxFlows).withStreamDepth depth).withReassemblyBudget budget

end FlowTable

end AiFw.Ids
