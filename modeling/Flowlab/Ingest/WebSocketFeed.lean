import Flowlab.Framework.Steps
import Flowlab.Replay.RingRun

namespace Flowlab.Ingest

open Framework
open Flowlab.Replay (Ring Capacity Act RingError Writer)

/-- `1 * time.Second`. -/
def initialBackoff : Nat := 1000000000

/-- `30 * time.Second`. -/
def maxBackoff : Nat := 30000000000

/-- Where the goroutine of `Run` stands, by the step it takes next. A connection is named by the
number of the dial that opened it. -/
inductive RunPc where
  | ready
  | top
  | dialing
  | dialled (conn : Nat)
  | sleeping
  | entering
  | polling (conn : Nat)
  | reading (conn : Nat)
  | offering (conn : Nat) (message : List UInt8)
  | writing (conn : Nat)
  | leaving (conn : Nat)
  | closing (conn : Nat)
  | returned
  deriving DecidableEq, Repr

/-- Where a goroutine that may call `Stop` stands. -/
inductive StopPc where
  | outside
  | called
  | closingStop
  | swapping
  | closingConn (conn : Nat)
  | waiting
  deriving DecidableEq, Repr

/-- `sync.Once`. -/
inductive Once where
  | fresh
  | running (caller : Nat)
  | done
  deriving DecidableEq, Repr

/-- The feed with the ring it writes to, the goroutine of `Run` and any number of callers of `Stop`.
`received` records what `ReadMessage` returned and is read by no step. -/
structure WebSocketFeed where
  ring : Ring
  conn : Option Nat
  stopClosed : Bool
  stopOnce : Once
  dropped : UInt64
  backoff : Nat
  run : RunPc
  stop : Nat → StopPc
  dials : Nat
  closed : List Nat
  hungUp : List Nat
  received : List (List UInt8)

/-- The steps of `Run`, with `connect` and `readLoop` inside it. -/
inductive RunAct where
  | start
  | check
  | dialFail
  | dialOk
  | store
  | stopSeen
  | timer
  | load
  | poll
  | message (bytes : List UInt8)
  | readError
  | offer
  | write (a : Act)
  | finish
  | swapOut
  | close
  deriving DecidableEq, Repr

/-- The steps of `Stop`. -/
inductive StopAct where
  | call
  | enter
  | closeStop
  | swap
  | close
  | wait
  deriving DecidableEq, Repr

/-- A step of `Run`, a step of a call of `Stop`, the exchange hanging up, or a step of the reader of
the ring. -/
inductive FeedAct where
  | run (a : RunAct)
  | stop (caller : Nat) (a : StopAct)
  | hangUp (conn : Nat)
  | read (a : Act)
  deriving DecidableEq, Repr

namespace WebSocketFeed

def new (mem : Nat → UInt8) : WebSocketFeed where
  ring := .create mem
  conn := none
  stopClosed := false
  stopOnce := .fresh
  dropped := 0
  backoff := initialBackoff
  run := .ready
  stop := fun _ => .outside
  dials := 0
  closed := []
  hungUp := []
  received := []

/-- `limit` is the length of the longest message the exchange sends. -/
def stepRun (c : Capacity) (limit : Nat) (f : WebSocketFeed) : RunAct → Option WebSocketFeed
  | .start =>
    match f.run with
    | .ready => some { f with run := .top }
    | _ => none
  | .check =>
    match f.run with
    | .top => some { f with run := if f.stopClosed then .returned else .dialing }
    | _ => none
  | .dialFail =>
    match f.run with
    | .dialing => some { f with run := .sleeping }
    | _ => none
  | .dialOk =>
    match f.run with
    | .dialing => some { f with run := .dialled f.dials, dials := f.dials + 1 }
    | _ => none
  | .store =>
    match f.run with
    | .dialled k => some { f with run := .entering, conn := some k, backoff := initialBackoff }
    | _ => none
  | .stopSeen =>
    match f.run with
    | .sleeping => if f.stopClosed then some { f with run := .returned } else none
    | _ => none
  | .timer =>
    match f.run with
    | .sleeping =>
      some { f with
        run := .top
        backoff := if maxBackoff < 2 * f.backoff then maxBackoff else 2 * f.backoff }
    | _ => none
  | .load =>
    match f.run with
    | .entering => some { f with run := match f.conn with | none => .top | some k => .polling k }
    | _ => none
  | .poll =>
    match f.run with
    | .polling k => some { f with run := if f.stopClosed then .leaving k else .reading k }
    | _ => none
  | .message bytes =>
    match f.run with
    | .reading k =>
      if bytes.length ≤ limit then
        some { f with run := .offering k bytes, received := f.received ++ [bytes] }
      else none
    | _ => none
  | .readError =>
    match f.run with
    | .reading k => if k ∈ f.closed ∨ k ∈ f.hungUp then some { f with run := .leaving k } else none
    | _ => none
  | .offer =>
    match f.run with
    | .offering k bytes =>
      (f.ring.step c (.writeBegin .go bytes)).map fun ring =>
        { f with ring := ring, run := .writing k }
    | _ => none
  | .write a =>
    match f.run with
    | .writing _ =>
      if a.isRead ∨ a.isWriteBegin then none
      else (f.ring.step c a).map fun ring => { f with ring := ring }
    | _ => none
  | .finish =>
    match f.run, f.ring.writer with
    | .writing k, .idle (.ok ()) => some { f with run := .polling k }
    | .writing k, .idle (.error _) => some { f with run := .polling k, dropped := f.dropped + 1 }
    | _, _ => none
  | .swapOut =>
    match f.run with
    | .leaving k =>
      some { f with run := .closing k, conn := if f.conn = some k then none else f.conn }
    | _ => none
  | .close =>
    match f.run with
    | .closing k => some { f with run := .top, closed := k :: f.closed }
    | _ => none

def setStop (f : WebSocketFeed) (t : Nat) (pc : StopPc) : WebSocketFeed :=
  { f with stop := Function.update f.stop t pc }

def stepStop (f : WebSocketFeed) (t : Nat) : StopAct → Option WebSocketFeed
  | .call =>
    match f.stop t with
    | .outside => some (f.setStop t .called)
    | _ => none
  | .enter =>
    match f.stop t, f.stopOnce with
    | .called, .fresh => some { f.setStop t .closingStop with stopOnce := .running t }
    | .called, .done => some (f.setStop t .waiting)
    | _, _ => none
  | .closeStop =>
    match f.stop t with
    | .closingStop => some { f.setStop t .swapping with stopClosed := true }
    | _ => none
  | .swap =>
    match f.stop t with
    | .swapping =>
      match f.conn with
      | some k => some { f.setStop t (.closingConn k) with conn := none }
      | none => some { f.setStop t .waiting with stopOnce := .done }
    | _ => none
  | .close =>
    match f.stop t with
    | .closingConn k =>
      some { f.setStop t .waiting with stopOnce := .done, closed := k :: f.closed }
    | _ => none
  | .wait =>
    -- the counter of the WaitGroup is zero before `Run` begins and after it has returned
    match f.stop t with
    | .waiting => if f.run = .ready ∨ f.run = .returned then some (f.setStop t .outside) else none
    | _ => none

def step (c : Capacity) (limit : Nat) (f : WebSocketFeed) : FeedAct → Option WebSocketFeed
  | .run a => f.stepRun c limit a
  | .stop t a => f.stepStop t a
  | .hangUp k => some { f with hungUp := k :: f.hungUp }
  | .read a =>
    if a.isRead then (f.ring.step c a).map fun ring => { f with ring := ring } else none

/-- The states that some interleaving leads to. -/
def Reachable (c : Capacity) (limit : Nat) (f : WebSocketFeed) : Prop :=
  ∃ mem acts, Steps.run (step c limit) (new mem) acts = some f

end WebSocketFeed

end Flowlab.Ingest
