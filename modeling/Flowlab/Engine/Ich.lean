import Flowlab.Framework.FiniteMap
import Flowlab.Framework.Rounding
import Flowlab.Chaos.OrderTracker
import Flowlab.Replay.Itch

namespace Flowlab.Engine

open Std Framework Rounding
open Flowlab.Core (Event)
open Flowlab.Chaos (satAdd64)
open Flowlab.Replay.Itch

inductive Pace
  | asFastAsPossible
  | realtime (speedup : Fp)
  deriving DecidableEq

inductive Framing
  | unframed
  | binaryFile
  deriving DecidableEq, Repr

abbrev Symbols := ExtTreeMap UInt32 String

structure IchSource where
  mmap : List UInt8
  cursor : Nat
  loopStart : Nat
  pace : Pace
  framing : Framing
  baseEventNs : Option UInt64
  skippedUnknown : UInt64
  skippedIgnored : UInt64
  symbols : Symbols

/-- What is done with the Stock Directory records among the messages that bear no event. -/
def harvest (ty : Option UInt8) (m : List UInt8) (symbols : Symbols) : Checked Symbols :=
  if ty.any (fun ty => Char.ofNat ty.toNat = 'R') then do
    match ← parseStockDirectory m with
    | some (id, sym) => return symbols.insert id sym
    | none => return symbols
  else return symbols

/-! The scan of `open_with`. -/

/-- What it finds at its cursor. -/
inductive ScanFrame
  | stop
  | skip (next : Nat)
  | body (bodyStart bodyEnd : Nat)

def scanFrame (framing : Framing) (buf : List UInt8) (cursor : Nat) : ScanFrame :=
  match framing with
  | .binaryFile =>
    if cursor + 2 > buf.length then .stop
    else
      let len := Bytes.ofBe (Bytes.slice buf cursor 2)
      if len = 0 then .stop
      else
        let bodyStart := cursor + 2
        let bodyEnd := bodyStart + len
        if bodyEnd > buf.length then .stop else .body bodyStart bodyEnd
  | .unframed =>
    if cursor ≥ buf.length then .stop
    else
      let len := msgLength (buf.getD cursor 0)
      if len = 0 then .skip (cursor + 1)
      else
        let bodyStart := cursor
        let bodyEnd := bodyStart + len
        if bodyEnd > buf.length then .stop else .body bodyStart bodyEnd

/-- `ts >= target_ns`, for a body that is long enough for a timestamp. -/
def reaches (targetNs : UInt64) (m : List UInt8) : Checked Bool := do
  if m.length ≥ 11 then return decide ((← rdTs48 m 5) ≥ targetNs)
  else return false

/-- Where the cursor is parked in front of a message. -/
def parkAt (framing : Framing) (bodyStart : Nat) : Nat :=
  match framing with
  | .binaryFile => bodyStart - 2
  | .unframed => bodyStart

/-- The cursor at the end of the scan, and the symbols harvested on the way. Every turn passes at
least one byte, so `buf.len()` turns are enough. -/
def scanLoop (framing : Framing) (buf : List UInt8) (targetNs : UInt64) :
    Nat → Nat → Symbols → Checked (Nat × Symbols)
  | 0, cursor, symbols => return (cursor, symbols)
  | fuel + 1, cursor, symbols =>
    match scanFrame framing buf cursor with
    | .stop => return (cursor, symbols)
    | .skip next => scanLoop framing buf targetNs fuel next symbols
    | .body bodyStart bodyEnd => do
      let m ← range buf bodyStart bodyEnd
      let ty ← index m 0
      let symbols ← harvest (some ty) m symbols
      if ← reaches targetNs m then return (parkAt framing bodyStart, symbols)
      else scanLoop framing buf targetNs fuel bodyEnd symbols

namespace IchSource

def openWith (mmap : List UInt8) (pace : Pace) (framing : Framing) (startAtNs : Option UInt64) :
    Checked (Except String IchSource) := do
  if mmap.isEmpty then return .error "empty ITCH file"
  else
    let (cursor, symbols) ← match startAtNs with
      | some targetNs => scanLoop framing mmap targetNs mmap.length 0 ∅
      | none => pure (0, ∅)
    return .ok
      { mmap := mmap
        cursor := cursor
        loopStart := cursor
        pace := pace
        framing := framing
        baseEventNs := none
        skippedUnknown := 0
        skippedIgnored := 0
        symbols := symbols }

/-- The source afterwards, and how many nanoseconds after `started_at` the call spins to. -/
def paceTo (s : IchSource) (eventNs : UInt64) (speedup : Fp) : IchSource × Option UInt64 :=
  match s.baseEventNs with
  | none => ({ s with baseEventNs := some eventNs }, none)
  | some base =>
    if eventNs ≤ base then (s, none)
    else
      let speed := Fp.max speedup (Fp.ofRat (1 / 1000000000))
      (s, some (Fp.toU64 (Fp.div (Fp.ofU64 (eventNs - base)) speed)))

/-- A call that waits has the base in front of the event. -/
theorem paceTo_waits {s : IchSource} {eventNs : UInt64} {speedup : Fp} {target : UInt64}
    (h : (s.paceTo eventNs speedup).2 = some target) :
    ∃ base, s.baseEventNs = some base ∧ base < eventNs := by
  rw [paceTo] at h
  split at h
  · cases h
  · rename_i base hbase
    split_ifs at h with hle
    exact ⟨base, hbase, UInt64.not_le.mp hle⟩

/-- How one turn of the loop of `next` ends: the source has rewound, has skipped something, or the
call returns. -/
inductive Turn
  | panicked (p : IndexPanic)
  | rewound (s : IchSource)
  | skipped (s : IchSource)
  | returned (ev : Option Event) (s : IchSource)

def rewind (s : IchSource) : IchSource := { s with cursor := s.loopStart, baseEventNs := none }

/-- The turn behind `msg`. -/
def deliver (s : IchSource) (msg : List UInt8) : Turn :=
  match dispatch msg with
  | .error p => .panicked p
  | .ok (some ev) =>
    match s.pace with
    | .realtime speedup => .returned (some ev) (s.paceTo ev.ts speedup).1
    | .asFastAsPossible => .returned (some ev) s
  | .ok none =>
    match harvest msg.head? msg s.symbols with
    | .error p => .panicked p
    | .ok symbols =>
      .skipped { s with symbols := symbols, skippedIgnored := satAdd64 s.skippedIgnored 1 }

def turn (s : IchSource) : Turn :=
  let buf := s.mmap
  match s.framing with
  | .unframed =>
    if s.cursor ≥ buf.length then .rewound s.rewind
    else
      let len := msgLength (buf.getD s.cursor 0)
      if len = 0 then
        .skipped { s with skippedUnknown := satAdd64 s.skippedUnknown 1, cursor := s.cursor + 1 }
      else if s.cursor + len > buf.length then .rewound s.rewind
      else { s with cursor := s.cursor + len }.deliver (Bytes.slice buf s.cursor len)
  | .binaryFile =>
    if s.cursor + 2 > buf.length then .rewound s.rewind
    else
      let len := Bytes.ofBe (Bytes.slice buf s.cursor 2)
      if len = 0 then .returned none s
      else
        let bodyStart := s.cursor + 2
        let bodyEnd := bodyStart + len
        if bodyEnd > buf.length then .rewound s.rewind
        else
          let expected := msgLength (buf.getD bodyStart 0)
          if expected = 0 ∨ expected ≠ len then
            .skipped { s with skippedUnknown := satAdd64 s.skippedUnknown 1, cursor := bodyEnd }
          else { s with cursor := bodyEnd }.deliver (Bytes.slice buf bodyStart len)

/-- A call of `next` that may take `fuel` turns: what it returns and the source behind it, or
nothing if it is still running. -/
def next : Nat → IchSource → Option (Option Event × IchSource)
  | 0, _ => none
  | fuel + 1, s =>
    match s.turn with
    | .panicked _ => none
    | .rewound t => next fuel t
    | .skipped t => next fuel t
    | .returned ev t => some (ev, t)

end IchSource

end Flowlab.Engine
