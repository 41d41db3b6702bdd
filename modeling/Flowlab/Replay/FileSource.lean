import Flowlab.Framework.Rounding
import Flowlab.Replay.Itch
import Flowlab.Replay.Ring

namespace Flowlab.Replay.FileSource

open Framework Rounding
open Flowlab.Replay.Itch (msgLength)

inductive Pace
  | asFastAsPossible
  | realTime (speedup : Fp)
  deriving DecidableEq

inductive ReplayError
  | ring (e : RingError)
  | truncated (offset need : Nat)
  | unknownType (ty : UInt8) (offset : Nat)
  deriving DecidableEq, Repr

structure ReplayStats where
  messages : UInt64
  bytes : UInt64
  deriving DecidableEq, Repr

structure FileItchReplay where
  buf : List UInt8
  cursor : Nat

/-- The 48-bit timestamp of the message types that are paced. -/
def extractTsNs (msg : List UInt8) : Option UInt64 :=
  if msg.length < 11 then none
  else
    match Char.ofNat (msg.getD 0 0).toNat with
    | 'A' | 'F' | 'D' | 'X' | 'E' | 'C' | 'P' | 'U' | 'Q' =>
      let b := fun i => (msg.getD (5 + i) 0).toUInt64
      some ((b 0 <<< 40) ||| (b 1 <<< 32) ||| (b 2 <<< 24) ||| (b 3 <<< 16) ||| (b 4 <<< 8) ||| b 5)
    | _ => none

/-- One pacing computation: the two timestamps that are subtracted, and the nanoseconds after the
start that the message waits for. -/
structure Delay where
  ts : UInt64
  first : UInt64
  target : UInt64

def Delay.of (speedup : Fp) (ts first : UInt64) : Delay :=
  let speed := Fp.max speedup (Fp.ofRat (1 / 1000000000))
  ⟨ts, first, Fp.toU64 (Fp.div (Fp.ofU64 (ts - first)) speed)⟩

/-- Publish in batches of up to 64 KiB. -/
def batchTarget : Nat := 64 * 1024

/-- Where `drive` stands: in its loop; in `flush_batch` with what is left of the batch, in front of
`writer.write(batch)`, inside it, or inside `writer.write(head)`; or it has returned. `last` marks
the flush behind the loop. -/
inductive Phase
  | scanning
  | flushing (batch : List UInt8) (last : Bool)
  | writing (batch : List UInt8) (last : Bool)
  | writingHead (head tail : List UInt8) (last : Bool)
  | returned (result : Except ReplayError ReplayStats)

/-- A call of `drive` on a ring. `delays` records what the pacing computed, and no step reads it. -/
structure Drive where
  source : FileItchReplay
  pace : Pace
  ring : Ring
  firstTsNs : Option UInt64
  messages : UInt64
  bytes : UInt64
  batchStart : Nat
  phase : Phase
  delays : List Delay

/-- A step of the call itself, or one of the ring: the consumer's, or the call's inside `write`. -/
inductive Move
  | drive
  | ring (a : Act)

namespace Drive

def start (source : FileItchReplay) (pace : Pace) (ring : Ring) : Drive :=
  { source := source
    pace := pace
    ring := ring
    firstTsNs := none
    messages := 0
    bytes := 0
    batchStart := source.cursor
    phase := .scanning
    delays := [] }

/-- The real-time pacing in front of `msg`. -/
def paced (d : Drive) (msg : List UInt8) : Drive :=
  match d.pace with
  | .asFastAsPossible => d
  | .realTime speedup =>
    match extractTsNs msg with
    | none => d
    | some ts =>
      let first := d.firstTsNs.getD ts
      { d with firstTsNs := some first, delays := d.delays ++ [Delay.of speedup ts first] }

def stats (d : Drive) : ReplayStats := ⟨d.messages, d.bytes⟩

/-- `&self.buf[batch_start..self.cursor]`. -/
def batch (d : Drive) : List UInt8 :=
  Bytes.slice d.source.buf d.batchStart (d.source.cursor - d.batchStart)

def advance (d : Drive) (len : Nat) : Drive :=
  { d with source := { d.source with cursor := d.source.cursor + len }
           messages := d.messages + 1
           bytes := d.bytes + UInt64.ofNat len }

/-- One turn of the loop of `drive`, or what stands behind the loop. -/
def scan (d : Drive) : Drive :=
  let buf := d.source.buf
  let cursor := d.source.cursor
  if cursor < buf.length then
    let ty := buf.getD cursor 0
    let len := msgLength ty
    if len = 0 then { d with phase := .returned (.error (.unknownType ty cursor)) }
    else if cursor + len > buf.length then
      { d with phase := .returned (.error (.truncated cursor (cursor + len - buf.length))) }
    else
      let d := (d.paced (Bytes.slice buf cursor len)).advance len
      if d.source.cursor - d.batchStart ≥ batchTarget then
        { d with phase := .flushing d.batch false }
      else d
  else if d.batchStart < cursor then { d with phase := .flushing d.batch true }
  else { d with phase := .returned (.ok d.stats) }

/-- Behind a `flush_batch` that succeeded. -/
def flushed (d : Drive) (last : Bool) : Drive :=
  if last then { d with phase := .returned (.ok d.stats) }
  else { d with batchStart := d.source.cursor, phase := .scanning }

/-- The call `writer.write(bytes)`, which leaves `drive` at `phase`. -/
def write (c : Capacity) (d : Drive) (bytes : List UInt8) (phase : Phase) : Option Drive :=
  (d.ring.step c (.writeBegin .rust bytes)).map (fun ring => { d with ring := ring, phase := phase })

/-- A step of the call: nothing while it waits for `write` or when it has returned. -/
def stepDrive (c : Capacity) (d : Drive) : Option Drive :=
  match d.phase with
  | .scanning => some d.scan
  | .flushing batch last =>
    if batch.isEmpty then some (d.flushed last) else d.write c batch (.writing batch last)
  | .writing batch last =>
    match d.ring.writer with
    | .idle (.ok ()) => some (d.flushed last)
    | .idle (.error (.full _ avail)) =>
      if avail > 0 then
        d.write c (batch.take avail) (.writingHead (batch.take avail) (batch.drop avail) last)
      else some { d with phase := .flushing batch last }
    | _ => none
  | .writingHead _ tail last =>
    match d.ring.writer with
    | .idle (.ok ()) => some { d with phase := .flushing tail last }
    | .idle (.error e) => some { d with phase := .returned (.error (.ring e)) }
    | _ => none
  | .returned _ => none

/-- The ring's only writer is the call: no other `write` begins. -/
def step (c : Capacity) (d : Drive) : Move → Option Drive
  | .drive => d.stepDrive c
  | .ring a =>
    if a.isWriteBegin then none else (d.ring.step c a).map (fun ring => { d with ring := ring })

/-- An interleaving of the call with the consumer. -/
def run (c : Capacity) (d : Drive) (moves : List Move) : Option Drive := moves.foldlM (step c) d

/-! The pacing touches nothing but its own record. -/

theorem paced_frame (d : Drive) (msg : List UInt8) :
    ∃ first delays, d.paced msg = { d with firstTsNs := first, delays := delays } := by
  rw [paced]
  split
  · exact ⟨_, _, rfl⟩
  · split
    · exact ⟨_, _, rfl⟩
    · exact ⟨_, _, rfl⟩

section

variable (d : Drive) (msg : List UInt8)

@[simp] theorem paced_source : (d.paced msg).source = d.source := by
  obtain ⟨_, _, h⟩ := d.paced_frame msg
  rw [h]

@[simp] theorem paced_pace : (d.paced msg).pace = d.pace := by
  obtain ⟨_, _, h⟩ := d.paced_frame msg
  rw [h]

@[simp] theorem paced_ring : (d.paced msg).ring = d.ring := by
  obtain ⟨_, _, h⟩ := d.paced_frame msg
  rw [h]

@[simp] theorem paced_batchStart : (d.paced msg).batchStart = d.batchStart := by
  obtain ⟨_, _, h⟩ := d.paced_frame msg
  rw [h]

@[simp] theorem paced_phase : (d.paced msg).phase = d.phase := by
  obtain ⟨_, _, h⟩ := d.paced_frame msg
  rw [h]

end

theorem run_cons (c : Capacity) (d : Drive) (m : Move) (moves : List Move) :
    d.run c (m :: moves) = (d.step c m).bind (fun e => e.run c moves) := by
  simp only [run, List.foldlM_cons]
  rfl

end Drive

end Flowlab.Replay.FileSource
