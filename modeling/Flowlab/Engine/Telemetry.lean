import Flowlab.Engine.Wire
import Flowlab.Framework.Steps

namespace Flowlab.Engine

open Framework Pieces

section

variable {φ : Type} (encode : φ → Option (List UInt8))

/-- What the server puts on the wire for the frames it takes. -/
def wireOf (frames : List φ) : List UInt8 := (frames.filterMap encode).flatMap frameBytes

/-- What `runOnce` has handed to `dispatchJSON` when it has read these pieces. -/
def dispatched (read : List (List UInt8)) : List (List UInt8) :=
  ((runOnce (read.flatten.length + 1) read).map Prod.fst).getD []

/-- A connection: the frames that the server took for it, the bytes that went out and the pieces that
the client has read. -/
structure Stream (φ : Type) where
  frames : List φ
  written : List UInt8
  read : List (List UInt8)
  deriving DecidableEq, Repr

/-- The bounded channel of the engine, the server, every connection so far and the client.
`sent` records the calls of `try_send` and is read by no step. -/
structure Telemetry (φ : Type) where
  sent : List φ
  queue : List φ
  dropped : UInt64
  streams : List (Stream φ)
  accepted : Nat
  serving : Bool
  reading : Bool
  deriving DecidableEq, Repr

/-- `try_send` by the engine; the client dials, reads a piece of so many bytes or gives up; the
server accepts, accepts a client that is gone, takes a frame and writes it, or takes a frame and
fails after so many bytes. -/
inductive TelemetryAct (φ : Type) where
  | trySend (frame : φ)
  | dial
  | read (n : Nat)
  | giveUp
  | accept
  | acceptFail
  | serve
  | serveFail (n : Nat)
  deriving DecidableEq, Repr

namespace Stream

def empty : Stream φ := ⟨[], [], []⟩

/-- One turn of the loop of `handle_client`. -/
def serve (frame : φ) (s : Stream φ) : Stream φ :=
  { s with
    frames := s.frames ++ [frame]
    written := s.written ++ wireOf encode [frame] }

/-- A turn in which `write_all` returns an error. -/
def serveFail (frame : φ) (n : Nat) (s : Stream φ) : Stream φ :=
  { s with
    frames := s.frames ++ [frame]
    written := s.written ++ (wireOf encode [frame]).take n }

def readPiece (n : Nat) (s : Stream φ) : Stream φ :=
  { s with read := s.read ++ [(s.written.drop s.read.flatten.length).take n] }

end Stream

namespace Telemetry

def start : Telemetry φ where
  sent := []
  queue := []
  dropped := 0
  streams := []
  accepted := 0
  serving := false
  reading := false

/-- The channel holds `cap` frames. Without room it would hand a frame over only to a server that
waits; that channel is left out. -/
def step (cap : ℕ+) (s : Telemetry φ) : TelemetryAct φ → Option (Telemetry φ)
  | .trySend frame =>
    let s := { s with sent := s.sent ++ [frame] }
    if s.queue.length < (cap : ℕ) then some { s with queue := s.queue ++ [frame] }
    else some { s with dropped := s.dropped + 1 }
  | .dial =>
    if s.reading then none
    else some { s with streams := s.streams ++ [.empty], reading := true }
  | .read n =>
    if s.reading then
      some { s with streams := s.streams.modify (s.streams.length - 1) (Stream.readPiece n) }
    else none
  | .giveUp => if s.reading then some { s with reading := false } else none
  | .accept =>
    if s.serving = false ∧ s.accepted < s.streams.length then
      some { s with accepted := s.accepted + 1, serving := true }
    else none
  | .acceptFail =>
    -- `peer_addr` fails
    if s.serving = false ∧ s.accepted < s.streams.length then
      some { s with accepted := s.accepted + 1 }
    else none
  | .serve =>
    match s.serving, s.queue with
    | true, frame :: queue =>
      some { s with
        queue := queue
        streams := s.streams.modify (s.accepted - 1) (Stream.serve encode frame) }
    | _, _ => none
  | .serveFail n =>
    match s.serving, s.queue with
    | true, frame :: queue =>
      -- a frame that fails to encode is not written
      if encode frame = none then none
      else
        some { s with
          queue := queue
          streams := s.streams.modify (s.accepted - 1) (Stream.serveFail encode frame n)
          serving := false }
    | _, _ => none

/-- The frames that the server has taken. -/
def taken (s : Telemetry φ) : List φ := s.streams.flatMap Stream.frames

/-- What has reached `dispatchJSON`, over all connections. -/
def delivered (s : Telemetry φ) : List (List UInt8) :=
  s.streams.flatMap fun stream => dispatched stream.read

/-- The states that some interleaving leads to. -/
def Reachable (cap : ℕ+) (s : Telemetry φ) : Prop :=
  ∃ acts, Steps.run (step encode cap) start acts = some s

end Telemetry

end

end Flowlab.Engine
