import Flowlab.Core.Event
import Flowlab.Framework.Access
import Flowlab.Framework.Bytes
import Flowlab.Framework.Tagged
import Mathlib.Data.List.DropRight

namespace Flowlab.Replay.Itch

open Framework
open Flowlab.Core (Event EventType Side)

/-- A panic of the slice operations: an index, or the end of a range, that lies past the slice. -/
structure IndexPanic where
  index : Nat
  len : Nat
  deriving DecidableEq, Repr

/-- A computation that may panic. -/
abbrev Checked := Except IndexPanic

/-- `b[i]`. -/
def index (b : List UInt8) (i : Nat) : Checked UInt8 :=
  match b[i]? with
  | some x => .ok x
  | none => .error ⟨i, b.length⟩

/-- `[b[off], …, b[off + n - 1]]`. -/
def indices (b : List UInt8) (off : Nat) : Nat → Checked (List UInt8)
  | 0 => return []
  | n + 1 => do
    let x ← index b off
    let xs ← indices b (off + 1) n
    return x :: xs

/-- `&b[i..j]`, for `i ≤ j`. -/
def range (b : List UInt8) (i j : Nat) : Checked (List UInt8) :=
  if j ≤ b.length then .ok (Bytes.slice b i (j - i)) else .error ⟨j, b.length⟩

/-- The length of a message with its type byte; 0 for an unknown type. -/
def msgLength (t : UInt8) : Nat :=
  match Char.ofNat t.toNat with
  | 'S' => 12
  | 'R' => 39
  | 'H' => 25
  | 'Y' => 20
  | 'L' => 26
  | 'V' => 35
  | 'W' => 12
  | 'K' => 28
  | 'J' => 35
  | 'h' => 21
  | 'A' => 36
  | 'F' => 40
  | 'E' => 31
  | 'C' => 36
  | 'X' => 23
  | 'D' => 19
  | 'U' => 35
  | 'P' => 44
  | 'Q' => 40
  | 'B' => 19
  | 'I' => 50
  | 'N' => 20
  | _ => 0

def rdU16 (b : List UInt8) (off : Nat) : Checked UInt16 := do
  return UInt16.ofNat (Bytes.ofBe (← indices b off 2))

def rdU32 (b : List UInt8) (off : Nat) : Checked UInt32 := do
  return UInt32.ofNat (Bytes.ofBe (← indices b off 4))

def rdU64 (b : List UInt8) (off : Nat) : Checked UInt64 := do
  return UInt64.ofNat (Bytes.ofBe (← indices b off 8))

def rdTs48 (b : List UInt8) (off : Nat) : Checked UInt64 := do
  let hi := (← rdU16 b off).toUInt64
  let lo := (← rdU32 b (off + 2)).toUInt64
  return (hi <<< 32) ||| lo

def eventZeroed : Event := ⟨0, 0, 0, 0, 0, 0, 0⟩

/-- The locate code and the symbol, without its trailing spaces. -/
def parseStockDirectory (m : List UInt8) : Checked (Option (UInt32 × String)) := do
  if m.length < 19 then return none
  else if Char.ofNat (← index m 0).toNat ≠ 'R' then return none
  else
    let stockLocate := (← rdU16 m 1).toUInt32
    let raw ← range m 11 19
    let sym := String.fromUTF8? ⟨(raw.rdropWhile (fun c => Char.ofNat c.toNat = ' ')).toArray⟩
    return sym.map (fun sym => (stockLocate, sym))

/-- A message of at least `minLen` bytes with a side, its shares and a price. -/
def parseSided (minLen : Nat) (eventType : EventType) (m : List UInt8) : Checked (Option Event) := do
  if m.length < minLen then return none
  else
    let stockLocate := (← rdU16 m 1).toUInt32
    let ts ← rdTs48 m 5
    let orderId ← rdU64 m 11
    let side := if Char.ofNat (← index m 19).toNat = 'B' then Side.bid.toU8 else Side.ask.toU8
    let shares := (← rdU32 m 20).toUInt64
    let price := (← rdU32 m 32).toUInt64
    return some { eventZeroed with
      ts := ts
      price := price
      qty := shares
      orderId := orderId
      instrumentId := stockLocate
      eventType := eventType.toU8
      side := side }

def parseAddOrder (m : List UInt8) : Checked (Option Event) := parseSided 36 .orderAdd m

def parseOrderDelete (m : List UInt8) : Checked (Option Event) := do
  if m.length < 19 then return none
  else
    let stockLocate := (← rdU16 m 1).toUInt32
    let ts ← rdTs48 m 5
    let orderId ← rdU64 m 11
    return some { eventZeroed with
      ts := ts
      orderId := orderId
      instrumentId := stockLocate
      eventType := EventType.orderCancel.toU8 }

/-- The bytes of an Order Delete stamped `ts`. -/
def deleteAt (ts : UInt8) : List UInt8 := [68, 0, 7, 0, 0, 0, 0, 0, 0, 0, ts, 0, 0, 0, 0, 0, 0, 0, 1]

def parseOrderCancel (m : List UInt8) : Checked (Option Event) := do
  if m.length < 23 then return none
  else
    let stockLocate := (← rdU16 m 1).toUInt32
    let ts ← rdTs48 m 5
    let orderId ← rdU64 m 11
    let qty := (← rdU32 m 19).toUInt64
    return some { eventZeroed with
      ts := ts
      qty := qty
      orderId := orderId
      instrumentId := stockLocate
      eventType := EventType.orderCancel.toU8 }

/-- `m[0] == b'C' && m.len() >= 36`: only then does the message carry a price. -/
def executedPrice (m : List UInt8) : Checked UInt64 := do
  if Char.ofNat (← index m 0).toNat = 'C' ∧ 36 ≤ m.length then
    return (← rdU32 m 32).toUInt64
  else return 0

def parseOrderExecuted (m : List UInt8) : Checked (Option Event) := do
  if m.length < 31 then return none
  else
    let stockLocate := (← rdU16 m 1).toUInt32
    let ts ← rdTs48 m 5
    let orderId ← rdU64 m 11
    let qty := (← rdU32 m 19).toUInt64
    let price ← executedPrice m
    return some { eventZeroed with
      ts := ts
      price := price
      qty := qty
      orderId := orderId
      instrumentId := stockLocate
      eventType := EventType.trade.toU8 }

def parseTrade (m : List UInt8) : Checked (Option Event) := parseSided 44 .trade m

def dispatch (m : List UInt8) : Checked (Option Event) :=
  match m with
  | [] => return none
  | t :: _ =>
    match Char.ofNat t.toNat with
    | 'A' | 'F' => parseAddOrder m
    | 'D' => parseOrderDelete m
    | 'X' => parseOrderCancel m
    | 'E' | 'C' => parseOrderExecuted m
    | 'P' => parseTrade m
    | _ => return none

/-- The loop of `parse_buffer`, with what it has pushed to `out` and counted in `n`. -/
def parseLoop (raw : List UInt8) :
    Nat → Nat → List Event → Nat → Checked (List Event × Except String Nat)
  | 0, _, out, n => return (out, .ok n)
  | fuel + 1, i, out, n => do
    if i < raw.length then
      let t ← index raw i
      let len := msgLength t
      if len = 0 then return (out, .error "unknown ITCH message type")
      else if i + len > raw.length then return (out, .error "truncated ITCH message")
      else
        match ← dispatch (← range raw i (i + len)) with
        | some e => parseLoop raw fuel (i + len) (out ++ [e]) (n + 1)
        | none => parseLoop raw fuel (i + len) out n
    else return (out, .ok n)

/-- `out` after the call, and its result. Every turn of the loop passes at least one byte, so
`raw.len()` turns are enough. -/
def parseBuffer (raw : List UInt8) (out : List Event) : Checked (List Event × Except String Nat) :=
  parseLoop raw raw.length 0 out 0

section

variable (mem : Nat → UInt8) {p n off : Nat}

theorem index_window {i : Nat} (h : i < n) : index (window mem p n) i = .ok (mem (p + i)) := by
  rw [index, window_get mem h]

theorem indices_window {w : Nat} (h : off + w ≤ n) :
    indices (window mem p n) off w = .ok (window mem (p + off) w) := by
  induction w generalizing off with
  | zero => rfl
  | succ w ih =>
    rw [indices, index_window mem (by omega), ih (by omega), window_succ, ← Nat.add_assoc]
    rfl

theorem range_window {i len : Nat} (h : i + len ≤ n) :
    range (window mem 0 n) i (i + len) = .ok (window mem i len) := by
  rw [range, if_pos (by rwa [length_window]), Nat.add_sub_cancel_left, Bytes.slice,
    take_drop_window mem h, Nat.zero_add]

/-- A buffer is the memory that its own cells make up. -/
theorem window_getD (buf : List UInt8) : window (fun i => buf.getD i 0) 0 buf.length = buf := by
  apply List.ext_getElem
  · exact length_window _ _ _
  · intro i h1 h2
    simp [window, List.getD_eq_getElem?_getD, List.getElem?_eq_getElem h2]

theorem slice_window {buf : List UInt8} {p w : Nat} (h : p + w ≤ buf.length) :
    Bytes.slice buf p w = window (fun i => buf.getD i 0) p w := by
  have hw := take_drop_window (p := 0) (fun i => buf.getD i 0) h
  rw [window_getD, Nat.zero_add] at hw
  exact hw

/-- The fields of a message in memory, big-endian. -/
def u16At (p : Nat) : UInt16 := UInt16.ofNat (Bytes.ofBe (window mem p 2))

def u32At (p : Nat) : UInt32 := UInt32.ofNat (Bytes.ofBe (window mem p 4))

def u64At (p : Nat) : UInt64 := UInt64.ofNat (Bytes.ofBe (window mem p 8))

def ts48At (p : Nat) : UInt64 := ((u16At mem p).toUInt64 <<< 32) ||| (u32At mem (p + 2)).toUInt64

theorem rdU16_window (h : off + 2 ≤ n) :
    rdU16 (window mem p n) off = .ok (u16At mem (p + off)) := by
  rw [rdU16, indices_window mem h]
  rfl

theorem rdU32_window (h : off + 4 ≤ n) :
    rdU32 (window mem p n) off = .ok (u32At mem (p + off)) := by
  rw [rdU32, indices_window mem h]
  rfl

theorem rdU64_window (h : off + 8 ≤ n) :
    rdU64 (window mem p n) off = .ok (u64At mem (p + off)) := by
  rw [rdU64, indices_window mem h]
  rfl

theorem rdTs48_window (h : off + 6 ≤ n) :
    rdTs48 (window mem p n) off = .ok (ts48At mem (p + off)) := by
  rw [rdTs48, rdU16_window mem (by omega), rdU32_window mem (by omega), ← Nat.add_assoc]
  rfl

theorem parseSided_window {minLen : Nat} (hmin : 36 ≤ minLen) (h : minLen ≤ n)
    (eventType : EventType) :
    parseSided minLen eventType (window mem p n) = .ok (some
      { ts := ts48At mem (p + 5)
        price := (u32At mem (p + 32)).toUInt64
        qty := (u32At mem (p + 20)).toUInt64
        orderId := u64At mem (p + 11)
        instrumentId := (u16At mem (p + 1)).toUInt32
        eventType := eventType.toU8
        side := if Char.ofNat (mem (p + 19)).toNat = 'B' then Side.bid.toU8 else Side.ask.toU8 }) := by
  rw [parseSided, length_window, if_neg (by omega), rdU16_window mem (by omega),
    rdTs48_window mem (by omega), rdU64_window mem (by omega), index_window mem (by omega),
    rdU32_window mem (by omega), rdU32_window mem (by omega)]
  rfl

theorem parseOrderDelete_window (h : 19 ≤ n) :
    parseOrderDelete (window mem p n) = .ok (some
      { ts := ts48At mem (p + 5)
        price := 0
        qty := 0
        orderId := u64At mem (p + 11)
        instrumentId := (u16At mem (p + 1)).toUInt32
        eventType := EventType.orderCancel.toU8
        side := 0 }) := by
  rw [parseOrderDelete, length_window, if_neg (by omega), rdU16_window mem (by omega),
    rdTs48_window mem (by omega), rdU64_window mem (by omega)]
  rfl

theorem parseOrderCancel_window (h : 23 ≤ n) :
    parseOrderCancel (window mem p n) = .ok (some
      { ts := ts48At mem (p + 5)
        price := 0
        qty := (u32At mem (p + 19)).toUInt64
        orderId := u64At mem (p + 11)
        instrumentId := (u16At mem (p + 1)).toUInt32
        eventType := EventType.orderCancel.toU8
        side := 0 }) := by
  rw [parseOrderCancel, length_window, if_neg (by omega), rdU16_window mem (by omega),
    rdTs48_window mem (by omega), rdU64_window mem (by omega), rdU32_window mem (by omega)]
  rfl

theorem executedPrice_window (h : 0 < n) :
    executedPrice (window mem p n) =
      .ok (if Char.ofNat (mem p).toNat = 'C' ∧ 36 ≤ n then (u32At mem (p + 32)).toUInt64 else 0) := by
  rw [executedPrice, index_window mem h, length_window, Nat.add_zero]
  show (if _ then _ else _) = _
  split_ifs with hprice
  · rw [rdU32_window mem hprice.2]
    rfl
  · rfl

theorem parseOrderExecuted_window (h : 31 ≤ n) :
    parseOrderExecuted (window mem p n) = .ok (some
      { ts := ts48At mem (p + 5)
        price := if Char.ofNat (mem p).toNat = 'C' ∧ 36 ≤ n then (u32At mem (p + 32)).toUInt64 else 0
        qty := (u32At mem (p + 19)).toUInt64
        orderId := u64At mem (p + 11)
        instrumentId := (u16At mem (p + 1)).toUInt32
        eventType := EventType.trade.toU8
        side := 0 }) := by
  rw [parseOrderExecuted, length_window, if_neg (by omega), rdU16_window mem (by omega),
    rdTs48_window mem (by omega), rdU64_window mem (by omega), rdU32_window mem (by omega),
    executedPrice_window mem (by omega)]
  rfl

end

open Tagged

/-- The event of the message at `p`, if its type bears one. -/
def eventAt (mem : Nat → UInt8) (p : Nat) : Option Event :=
  match dispatch (window mem p (msgLength (mem p))) with
  | .ok e => e
  | .error _ => none

theorem dispatch_type {mem : Nat → UInt8} {p : Nat} (h : msgLength (mem p) ≠ 0) :
    dispatch (window mem p (msgLength (mem p))) =
      match Char.ofNat (mem p).toNat with
      | 'A' | 'F' => parseAddOrder (window mem p (msgLength (mem p)))
      | 'D' => parseOrderDelete (window mem p (msgLength (mem p)))
      | 'X' => parseOrderCancel (window mem p (msgLength (mem p)))
      | 'E' | 'C' => parseOrderExecuted (window mem p (msgLength (mem p)))
      | 'P' => parseTrade (window mem p (msgLength (mem p)))
      | _ => .ok none := by
  obtain ⟨k, hk⟩ : ∃ k, msgLength (mem p) = k + 1 := ⟨msgLength (mem p) - 1, by omega⟩
  rw [hk, window_succ]
  rfl

/-- No index of a whole message is out of range. -/
theorem dispatch_window {mem : Nat → UInt8} {p : Nat} (h : msgLength (mem p) ≠ 0) :
    dispatch (window mem p (msgLength (mem p))) = .ok (eventAt mem p) := by
  suffices hok : ∃ e, dispatch (window mem p (msgLength (mem p))) = .ok e by
    obtain ⟨e, he⟩ := hok
    rw [eventAt, he]
  rw [dispatch_type h, msgLength]
  generalize Char.ofNat (mem p).toNat = c
  split
  · exact ⟨_, parseSided_window mem le_rfl le_rfl .orderAdd⟩
  · exact ⟨_, parseSided_window mem le_rfl (by decide) .orderAdd⟩
  · exact ⟨_, parseOrderDelete_window mem le_rfl⟩
  · exact ⟨_, parseOrderCancel_window mem le_rfl⟩
  · exact ⟨_, parseOrderExecuted_window mem le_rfl⟩
  · exact ⟨_, parseOrderExecuted_window mem (by decide)⟩
  · exact ⟨_, parseSided_window mem (by decide) le_rfl .trade⟩
  · exact ⟨_, rfl⟩

/-- How `parse_buffer` ends when its walk stops at `stop` with `count` events. -/
def stopResult (mem : Nat → UInt8) (rawLen stop count : Nat) : Except String Nat :=
  if stop < rawLen then
    if msgLength (mem stop) = 0 then .error "unknown ITCH message type"
    else .error "truncated ITCH message"
  else .ok count

theorem parseLoop_none {mem : Nat → UInt8} {rawLen fuel i : Nat}
    (h : next msgLength mem rawLen i = none) (hfuel : rawLen - i ≤ fuel) (out : List Event)
    (n : Nat) :
    parseLoop (window mem 0 rawLen) fuel i out n = .ok (out, stopResult mem rawLen i n) := by
  rw [stopResult]
  by_cases hend : i < rawLen
  · obtain ⟨fuel, rfl⟩ : ∃ k, fuel = k + 1 := ⟨fuel - 1, by omega⟩
    rw [parseLoop, length_window, if_pos hend, index_window mem hend, Nat.zero_add, if_pos hend]
    show (if _ then _ else _) = _
    by_cases hunknown : msgLength (mem i) = 0
    · rw [if_pos hunknown, if_pos hunknown]
      rfl
    · rw [if_neg hunknown, if_pos (cut_of_none h hend hunknown), if_neg hunknown]
      rfl
  · rw [if_neg hend]
    cases fuel with
    | zero => rfl
    | succ fuel =>
      rw [parseLoop, length_window, if_neg hend]
      rfl

theorem parseLoop_some {mem : Nat → UInt8} {rawLen i after : Nat}
    (h : next msgLength mem rawLen i = some (i, after)) (fuel : Nat) (out : List Event) (n : Nat) :
    parseLoop (window mem 0 rawLen) (fuel + 1) i out n =
      parseLoop (window mem 0 rawLen) fuel after (out ++ (eventAt mem i).toList)
        (n + (eventAt mem i).toList.length) := by
  obtain ⟨-, rfl, hlt, hpos, hle⟩ := next_some h
  rw [parseLoop, length_window, if_pos hlt, index_window mem hlt, Nat.zero_add]
  show (if _ then _ else _) = _
  rw [if_neg hpos, if_neg (by omega), range_window mem hle]
  show (dispatch (window mem i (msgLength (mem i))) >>= _) = _
  rw [dispatch_window hpos]
  cases heq : eventAt mem i with
  | none =>
    rw [Option.toList_none, List.append_nil]
    rfl
  | some e => rfl

/-- The loop walks over the whole messages and pushes their events. -/
theorem parseLoop_eq {mem : Nat → UInt8} {rawLen fuel i : Nat} (hfuel : rawLen - i ≤ fuel)
    (out : List Event) (n : Nat) :
    parseLoop (window mem 0 rawLen) fuel i out n =
      .ok (out ++ (walk msgLength mem rawLen i).1.filterMap (eventAt mem),
        stopResult mem rawLen (walk msgLength mem rawLen i).2
          (n + ((walk msgLength mem rawLen i).1.filterMap (eventAt mem)).length)) := by
  induction i using walk_induction msgLength mem rawLen generalizing fuel out n with
  | hnone i h =>
    rw [walk_none h, List.filterMap_nil, List.append_nil, List.length_nil, Nat.add_zero,
      parseLoop_none h hfuel]
  | hsome i after h ih =>
    obtain ⟨-, hafter, hlt, hpos, hle⟩ := next_some h
    obtain ⟨fuel, rfl⟩ : ∃ k, fuel = k + 1 := ⟨fuel - 1, by omega⟩
    rw [walk_some h, filterMap_cons_toList, parseLoop_some h, ih (by omega), List.append_assoc, List.length_append,
      Nat.add_assoc]

/-- `parse_buffer` never panics; what it pushes and returns is told by the walk over `raw`. -/
theorem parseBuffer_eq (mem : Nat → UInt8) (rawLen : Nat) (out : List Event) :
    parseBuffer (window mem 0 rawLen) out =
      .ok (out ++ (walk msgLength mem rawLen 0).1.filterMap (eventAt mem),
        stopResult mem rawLen (walk msgLength mem rawLen 0).2
          ((walk msgLength mem rawLen 0).1.filterMap (eventAt mem)).length) := by
  rw [parseBuffer, length_window, parseLoop_eq (Nat.sub_le _ _), Nat.zero_add]

end Flowlab.Replay.Itch
