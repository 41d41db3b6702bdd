import Flowlab.Framework.Steps
import Flowlab.Replay.GapOrder
import Flowlab.Replay.MoldEncode

namespace Flowlab.Replay

open Framework

/-- The settings that the handler keeps: those of the socket are left out. -/
structure MulticastConfig where
  startSequence : UInt64
  maxForwardBuffer : Nat
  deriving DecidableEq, Repr

def MulticastConfig.default : MulticastConfig := ⟨1, 16 * 1024⟩

/-- How `recv_from` comes back; no datagram is a `WouldBlock` or a `TimedOut`. -/
inductive Received where
  | datagram (bytes : List UInt8)
  | noDatagram
  | failed
  deriving DecidableEq, Repr

/-- The handler without its socket; nothing in its buffer is read again after a call. -/
structure UdpFeedHandler where
  tracker : GapTracker

/-- What a call of `step` returns. -/
inductive Stepped where
  | delivered (n : Nat)
  | timedOut
  | failed
  deriving DecidableEq, Repr

namespace UdpFeedHandler

/-- The handler after the socket is bound and has joined its group. -/
def bind (cfg : MulticastConfig) : UdpFeedHandler where
  tracker := .withCapacity cfg.startSequence cfg.maxForwardBuffer

/-- The length of the buffer for a datagram. -/
def scratchLen : Nat := 65536

/-- `step` with what it passes to the sink; `fuel` bounds the loop of `ingest`. -/
def step (fuel : Nat) (h : UdpFeedHandler) :
    Received → Option (Stepped × UdpFeedHandler × List Delivered)
  | .noDatagram => some (.timedOut, h, [])
  | .failed => some (.failed, h, [])
  | .datagram bytes =>
    -- a datagram that does not fit into the buffer is cut
    match MoldFrame.parse (bytes.take scratchLen) with
    | .error _ => some (.delivered 0, h, [])
    | .ok frame =>
      (h.tracker.ingest fuel frame).map fun r => (.delivered r.2.length, ⟨r.1⟩, r.2)

def ingestRetransmit (h : UdpFeedHandler) (seq : UInt64) (payload : List UInt8) :
    UdpFeedHandler × List Delivered :=
  let r := h.tracker.ingestSingle seq payload
  (⟨r.1⟩, r.2)

def openGap (h : UdpFeedHandler) : Option (UInt64 × UInt64) := h.tracker.openGap

end UdpFeedHandler

/-- The longest payload of a UDP datagram. -/
def maxDatagram : Nat := 65507

/-- A session of an exchange: the ten bytes that name it, its messages and the number of the first. -/
structure Session where
  name : List UInt8
  first : UInt64
  messages : List (List UInt8)
  named : name.length = 10
  room : first.toNat + messages.length < 2 ^ 64
  short : ∀ m ∈ messages, m.length < 65536

/-- The exchange, the network, the rewinder and the handler with its sink. The network keeps every
datagram it was given: it may lose it, deliver it late and deliver it again. -/
structure UdpSession where
  sent : Nat
  flight : List (List UInt8)
  answers : List Message
  handler : UdpFeedHandler
  sink : List Delivered

inductive UdpAct where
  | send (n : Nat)
  | heartbeat
  | endOfSession
  | stray (bytes : List UInt8)
  | deliver (i : Nat)
  | timeout
  | fail
  | request
  | answer (i : Nat)
  deriving DecidableEq, Repr

namespace UdpSession

variable (x : Session)

def start (x : Session) (maxForwardBuffer : Nat) : UdpSession where
  sent := 0
  flight := []
  answers := []
  handler := .bind ⟨x.first, maxForwardBuffer⟩
  sink := []

/-- The header of a datagram without messages. -/
def control (x : Session) (sent : Nat) (count : UInt16) : List UInt8 :=
  x.name ++ Bytes.toBe 8 (x.first.toNat + sent) ++ Bytes.toBe 2 count.toNat

/-- A call of `step` with what `recv_from` gives it. -/
def call (s : UdpSession) (r : Received) : Option UdpSession :=
  (s.handler.step (2 ^ 16) r).map fun q =>
    { s with handler := q.2.1, sink := s.sink ++ q.2.2 }

/-- The messages that a gap asks for. -/
def asked (x : Session) (gap : UInt64 × UInt64) : List Message :=
  (Replay.numbered x.first x.messages).filter fun m => gap.1 ≤ m.1 ∧ m.1 ≤ gap.2

/-- One step of the exchange, of the network, or of the caller of the handler. -/
def step (x : Session) (s : UdpSession) : UdpAct → Option UdpSession
  | .send n =>
    let msgs := (x.messages.drop s.sent).take n
    let bytes := MoldFrame.encode x.name (x.first + UInt64.ofNat s.sent) msgs
    if msgs ≠ [] ∧ msgs.length < 65535 ∧ bytes.length ≤ maxDatagram then
      some { s with sent := s.sent + msgs.length, flight := s.flight ++ [bytes] }
    else none
  | .heartbeat => some { s with flight := s.flight ++ [control x s.sent MoldHeader.heartbeat] }
  | .endOfSession =>
    some { s with flight := s.flight ++ [control x s.sent MoldHeader.endOfSession] }
  | .stray bytes =>
    -- the handler takes a frame of any session for its own: others send only what is refused
    match MoldFrame.parse bytes with
    | .error _ =>
      if bytes.length ≤ maxDatagram then some { s with flight := s.flight ++ [bytes] } else none
    | .ok _ => none
  | .deliver i =>
    match s.flight[i]? with
    | some bytes => s.call (.datagram bytes)
    | none => none
  | .timeout => s.call .noDatagram
  | .fail => s.call .failed
  | .request =>
    match s.handler.openGap with
    | some gap => some { s with answers := s.answers ++ asked x gap }
    | none => none
  | .answer i =>
    match s.answers[i]? with
    | some m =>
      let r := s.handler.ingestRetransmit m.1 m.2
      some { s with handler := r.1, sink := s.sink ++ r.2 }
    | none => none

/-- The states that some interleaving leads to. -/
def Reachable (x : Session) (maxForwardBuffer : Nat) (s : UdpSession) : Prop :=
  ∃ acts, Steps.run (step x) (start x maxForwardBuffer) acts = some s

end UdpSession

end Flowlab.Replay
