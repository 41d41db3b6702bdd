import Flowlab.Core.Event
import Flowlab.Framework.Access
import Flowlab.Framework.Bytes
import Flowlab.Framework.Drain

namespace Flowlab.FeedParser

open Framework
open Flowlab.Core (Event)

inductive EventType where
  | orderAdd
  | orderCancel
  | orderModify
  | trade
  | bookSnapshot
  deriving DecidableEq, Repr

def EventType.intFromEnum : EventType → UInt8
  | .orderAdd => 0x01
  | .orderCancel => 0x02
  | .orderModify => 0x03
  | .trade => 0x04
  | .bookSnapshot => 0x05

inductive Side where
  | bid
  | ask
  deriving DecidableEq, Repr

def Side.intFromEnum : Side → UInt8
  | .bid => 0
  | .ask => 1

/-- The length of a message with its type byte; 0 for an unknown type. -/
def msgLength (t : UInt8) : Nat :=
  match Char.ofNat t.toNat with
  | 'S' => 12
  | 'R' => 39
  | 'H' => 25
  | 'Y' => 20
  | 'L' => 26
  | 'V' => 35
  | 'W' => 12
  | 'K' => 28
  | 'J' => 35
  | 'h' => 21
  | 'A' => 36
  | 'F' => 40
  | 'E' => 31
  | 'C' => 36
  | 'X' => 23
  | 'D' => 19
  | 'U' => 35
  | 'P' => 44
  | 'Q' => 40
  | 'B' => 19
  | 'I' => 50
  | 'N' => 20
  | 'O' => 48
  | _ => 0

/-- A program over the bytes behind a `[*]const u8`, addressed by their distance from it. -/
abbrev Reader := Access Nat UInt8

open Access (cell cells)

def rdU16 (p : Nat) : Reader UInt16 := do
  return UInt16.ofNat (Bytes.ofBe (← cells p 2))

def rdU32 (p : Nat) : Reader UInt32 := do
  return UInt32.ofNat (Bytes.ofBe (← cells p 4))

def rdU64 (p : Nat) : Reader UInt64 := do
  return UInt64.ofNat (Bytes.ofBe (← cells p 8))

def rdTs48 (p : Nat) : Reader UInt64 := do
  let hi := (← rdU16 p).toUInt64
  let lo := (← rdU32 (p + 2)).toUInt64
  return (hi <<< 32) ||| lo

/-- A message with a side, its shares and a price. -/
def parseSided (eventType : EventType) (p : Nat) : Reader Event := do
  let stockLocate ← rdU16 (p + 1)
  let ts ← rdTs48 (p + 5)
  let orderRef ← rdU64 (p + 11)
  let sideRaw ← cell (p + 19)
  let shares ← rdU32 (p + 20)
  let price ← rdU32 (p + 32)
  return {
    ts := ts
    instrumentId := stockLocate.toUInt32
    eventType := eventType.intFromEnum
    side := if Char.ofNat sideRaw.toNat = 'B' then Side.bid.intFromEnum else Side.ask.intFromEnum
    price := price.toUInt64
    qty := shares.toUInt64
    orderId := orderRef }

/-- A message with shares but neither side nor price. -/
def parseShares (eventType : EventType) (p : Nat) : Reader Event := do
  let stockLocate ← rdU16 (p + 1)
  let ts ← rdTs48 (p + 5)
  let orderRef ← rdU64 (p + 11)
  let shares ← rdU32 (p + 19)
  return {
    ts := ts
    instrumentId := stockLocate.toUInt32
    eventType := eventType.intFromEnum
    side := 0
    price := 0
    qty := shares.toUInt64
    orderId := orderRef }

def parseAddOrder (p : Nat) : Reader Event := parseSided .orderAdd p

def parseOrderDelete (p : Nat) : Reader Event := do
  let stockLocate ← rdU16 (p + 1)
  let ts ← rdTs48 (p + 5)
  let orderRef ← rdU64 (p + 11)
  return {
    ts := ts
    instrumentId := stockLocate.toUInt32
    eventType := EventType.orderCancel.intFromEnum
    side := 0
    price := 0
    qty := 0
    orderId := orderRef }

def parseOrderCancel (p : Nat) : Reader Event := parseShares .orderCancel p

def parseOrderExecuted (p : Nat) : Reader Event := parseShares .trade p

def parseTrade (p : Nat) : Reader Event := parseSided .trade p

def dispatch (p : Nat) : Reader (Option Event) := do
  let t ← cell p
  match Char.ofNat t.toNat with
  | 'A' | 'F' => return some (← parseAddOrder p)
  | 'D' => return some (← parseOrderDelete p)
  | 'X' => return some (← parseOrderCancel p)
  | 'E' | 'C' => return some (← parseOrderExecuted p)
  | 'P' => return some (← parseTrade p)
  | _ => return none

/-- Where a parse loop stands when it returns: the offset, the events it wrote to `out`, and its
return code. -/
@[ext] structure Parsed where
  offset : Nat
  out : List Event
  ret : Int
  deriving DecidableEq, Repr

/-- The loop of `parse_buffer`; `count` is the number of events written. -/
def parseLoop (rawLen outCap : Nat) : Nat → Nat → List Event → Reader Parsed
  | 0, offset, out => return ⟨offset, out, out.length⟩
  | fuel + 1, offset, out =>
    if offset < rawLen ∧ out.length < outCap then do
      let t ← cell offset
      let len := msgLength t
      if len = 0 then return ⟨offset, out, -1⟩
      else if offset + len > rawLen then return ⟨offset, out, out.length⟩
      else
        let ev ← dispatch offset
        parseLoop rawLen outCap fuel (offset + len) (out ++ ev.toList)
    else return ⟨offset, out, out.length⟩

/-- Every turn of the loop passes at least one byte, so `raw_len` turns are enough. -/
def parseBuffer (rawLen outCap : Nat) : Reader Parsed := parseLoop rawLen outCap rawLen 0 []

def parseLoopFramed (rawLen outCap : Nat) : Nat → Nat → List Event → Reader Parsed
  | 0, offset, out => return ⟨offset, out, out.length⟩
  | fuel + 1, offset, out =>
    if offset + 2 ≤ rawLen ∧ out.length < outCap then do
      let frameLen := (← rdU16 offset).toNat
      let offset := offset + 2
      if frameLen = 0 ∨ offset + frameLen > rawLen then return ⟨offset, out, out.length⟩
      else
        let ev ← dispatch offset
        parseLoopFramed rawLen outCap fuel (offset + frameLen) (out ++ ev.toList)
    else return ⟨offset, out, out.length⟩

def parseBufferFramed (rawLen outCap : Nat) : Reader Parsed :=
  parseLoopFramed rawLen outCap rawLen 0 []

/-- The types `dispatch` makes an event of. -/
def bearsEvent (t : UInt8) : Bool :=
  match Char.ofNat t.toNat with
  | 'A' | 'F' | 'D' | 'X' | 'E' | 'C' | 'P' => true
  | _ => false

theorem isSome_dispatch (mem : Nat → UInt8) (p : Nat) :
    ((dispatch p).value mem).isSome = bearsEvent (mem p) := by
  rw [dispatch, Access.value_bind, Access.value_cell, bearsEvent]
  generalize Char.ofNat (mem p).toNat = c
  split <;> simp

end Flowlab.FeedParser
