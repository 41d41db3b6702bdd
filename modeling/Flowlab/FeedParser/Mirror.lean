import Flowlab.FeedParser.Stream
import Flowlab.Replay.Itch

namespace Flowlab.FeedParser

open Framework Access Tagged Replay
open Flowlab.Core (Event)
open Itch (eventAt u16At u32At u64At ts48At)

section

variable (mem : Nat → UInt8) (p : Nat)

theorem value_rdU16 : (rdU16 p).value mem = u16At mem p := by
  rw [rdU16, value_bind, value_cells, value_pure, u16At]

theorem value_rdU32 : (rdU32 p).value mem = u32At mem p := by
  rw [rdU32, value_bind, value_cells, value_pure, u32At]

theorem value_rdU64 : (rdU64 p).value mem = u64At mem p := by
  rw [rdU64, value_bind, value_cells, value_pure, u64At]

theorem value_rdTs48 : (rdTs48 p).value mem = ts48At mem p := by
  rw [rdTs48, value_bind, value_rdU16, value_bind, value_rdU32, value_pure, ts48At]

end

theorem value_parseSided (mem : Nat → UInt8) (p : Nat) (eventType : EventType) :
    (parseSided eventType p).value mem =
      { ts := ts48At mem (p + 5)
        price := (u32At mem (p + 32)).toUInt64
        qty := (u32At mem (p + 20)).toUInt64
        orderId := u64At mem (p + 11)
        instrumentId := (u16At mem (p + 1)).toUInt32
        eventType := eventType.intFromEnum
        side := if Char.ofNat (mem (p + 19)).toNat = 'B' then Side.bid.intFromEnum
          else Side.ask.intFromEnum } := by
  rw [parseSided]
  simp only [value_bind, value_rdU16, value_rdTs48, value_rdU64, value_cell, value_rdU32, value_pure]

theorem value_parseShares (mem : Nat → UInt8) (p : Nat) (eventType : EventType) :
    (parseShares eventType p).value mem =
      { ts := ts48At mem (p + 5)
        price := 0
        qty := (u32At mem (p + 19)).toUInt64
        orderId := u64At mem (p + 11)
        instrumentId := (u16At mem (p + 1)).toUInt32
        eventType := eventType.intFromEnum
        side := 0 } := by
  rw [parseShares]
  simp only [value_bind, value_rdU16, value_rdTs48, value_rdU64, value_rdU32, value_pure]

theorem value_parseOrderDelete (mem : Nat → UInt8) (p : Nat) :
    (parseOrderDelete p).value mem =
      { ts := ts48At mem (p + 5)
        price := 0
        qty := 0
        orderId := u64At mem (p + 11)
        instrumentId := (u16At mem (p + 1)).toUInt32
        eventType := EventType.orderCancel.intFromEnum
        side := 0 } := by
  rw [parseOrderDelete]
  simp only [value_bind, value_rdU16, value_rdTs48, value_rdU64, value_pure]

section

variable (mem : Nat → UInt8) {p n : Nat}

theorem parseAddOrder_mirror (h : 36 ≤ n) :
    Itch.parseAddOrder (window mem p n) = .ok (some ((parseAddOrder p).value mem)) := by
  rw [Itch.parseAddOrder, Itch.parseSided_window mem le_rfl h, parseAddOrder, value_parseSided]
  rfl

theorem parseTrade_mirror (h : 44 ≤ n) :
    Itch.parseTrade (window mem p n) = .ok (some ((parseTrade p).value mem)) := by
  rw [Itch.parseTrade, Itch.parseSided_window mem (by decide) h, parseTrade, value_parseSided]
  rfl

theorem parseOrderDelete_mirror (h : 19 ≤ n) :
    Itch.parseOrderDelete (window mem p n) = .ok (some ((parseOrderDelete p).value mem)) := by
  rw [Itch.parseOrderDelete_window mem h, value_parseOrderDelete]
  rfl

theorem parseOrderCancel_mirror (h : 23 ≤ n) :
    Itch.parseOrderCancel (window mem p n) = .ok (some ((parseOrderCancel p).value mem)) := by
  rw [Itch.parseOrderCancel_window mem h, parseOrderCancel, value_parseShares]
  rfl

/-- The one field that only the Rust parser fills. -/
theorem parseOrderExecuted_mirror (h : 31 ≤ n) :
    Itch.parseOrderExecuted (window mem p n) = .ok (some
      { (parseOrderExecuted p).value mem with
        price := if Char.ofNat (mem p).toNat = 'C' ∧ 36 ≤ n then (u32At mem (p + 32)).toUInt64
          else 0 }) := by
  rw [Itch.parseOrderExecuted_window mem h, parseOrderExecuted, value_parseShares]
  rfl

end

/-- The Rust event of a message is the Zig one but for the price of an execution with price. -/
theorem eventAt_mirror {mem : Nat → UInt8} {p : Nat} (h : Itch.msgLength (mem p) ≠ 0) :
    eventAt mem p = ((dispatch p).value mem).map (fun e =>
      if Char.ofNat (mem p).toNat = 'C' then { e with price := (u32At mem (p + 32)).toUInt64 }
      else e) := by
  apply Except.ok.inj
  rw [← Itch.dispatch_window h, Itch.dispatch_type h, Itch.msgLength, dispatch, value_bind, value_cell]
  generalize hc : Char.ofNat (mem p).toNat = c
  split <;> simp only [value_bind, value_pure, Option.map_some, Option.map_none, Char.reduceEq,
    if_true, if_false]
  · exact parseAddOrder_mirror mem le_rfl
  · exact parseAddOrder_mirror mem (by decide)
  · exact parseOrderDelete_mirror mem le_rfl
  · exact parseOrderCancel_mirror mem le_rfl
  · rw [parseOrderExecuted_mirror mem le_rfl, hc, if_neg (by decide), parseOrderExecuted,
      value_parseShares]
  · rw [parseOrderExecuted_mirror mem (by decide), if_pos ⟨hc, le_rfl⟩]
  · exact parseTrade_mirror mem le_rfl

/-- An event without a price keeps its place when it is given the price 0, and only then. -/
theorem eventAt_eq_iff {mem : Nat → UInt8} {p : Nat} (h : Itch.msgLength (mem p) ≠ 0) :
    eventAt mem p = (dispatch p).value mem ↔
      (Char.ofNat (mem p).toNat = 'C' → u32At mem (p + 32) = 0) := by
  rw [eventAt_mirror h]
  by_cases hc : Char.ofNat (mem p).toNat = 'C'
  · have hzig : (dispatch p).value mem = some ((parseOrderExecuted p).value mem) := by
      rw [dispatch, value_bind, value_cell, hc]
      simp only [value_bind, value_pure]
    simp only [hc, if_true, forall_const, hzig, Option.map_some, Option.some.injEq,
      parseOrderExecuted, value_parseShares, Event.mk.injEq, true_and, and_true]
    rw [← UInt64.toNat_inj, ← UInt32.toNat_inj, UInt32.toNat_toUInt64]
    rfl
  · simp only [hc, if_false, Option.map_id', IsEmpty.forall_iff]

theorem isSome_eventAt {mem : Nat → UInt8} {p : Nat} (h : Itch.msgLength (mem p) ≠ 0) :
    (eventAt mem p).isSome = ((dispatch p).value mem).isSome := by
  rw [eventAt_mirror h, Option.isSome_map]

/-- The Zig table has every length of the Rust table. -/
theorem msgLength_mirror {t : UInt8} (h : Itch.msgLength t ≠ 0) :
    msgLength t = Itch.msgLength t := by
  rw [Itch.msgLength] at h ⊢
  rw [msgLength]
  generalize Char.ofNat t.toNat = c at h ⊢
  split at h
  all_goals first | rfl | exact absurd rfl h

/-- Where the Rust parser accepts a buffer, the Zig parser with room for its events finds the same
number of events, and the same events when no execution with price carries a price, but no others:
it leaves that price out. With a slot to spare it consumes the whole buffer. -/
theorem parsers_mirror_iff (mem : Nat → UInt8) (rawLen : Nat) (before evs : List Event) (n : Nat)
    (hrust : Itch.parseBuffer (window mem 0 rawLen) before = .ok (before ++ evs, .ok n))
    (outCap : Nat) (hroom : evs.length ≤ outCap) :
    (((parseBuffer rawLen outCap).value mem).ret = n ∧
      ((parseBuffer rawLen outCap).value mem).out = evs ∧
      (evs.length < outCap → ((parseBuffer rawLen outCap).value mem).offset = rawLen)) ↔
      ∀ p ∈ (walk Itch.msgLength mem rawLen 0).1,
        Char.ofNat (mem p).toNat = 'C' → u32At mem (p + 32) = 0 := by
  rw [Itch.parseBuffer_eq] at hrust
  obtain ⟨hevs, hresult⟩ := Prod.mk.inj (Except.ok.inj hrust)
  obtain rfl := List.append_cancel_left hevs
  rw [Itch.stopResult] at hresult
  split_ifs at hresult with hcut
  have hstop : (walk Itch.msgLength mem rawLen 0).2 = rawLen :=
    Nat.le_antisymm (walk_le (Nat.zero_le _)) (Nat.le_of_not_lt hcut)
  have hknown : ∀ p ∈ (walk Itch.msgLength mem rawLen 0).1, Itch.msgLength (mem p) ≠ 0 := by
    intro p hp
    exact (next_some (mem_walk hp)).2.2.2.1
  have hwalk : walk msgLength mem rawLen 0 = ((walk Itch.msgLength mem rawLen 0).1, rawLen) := by
    rw [walk_agree (fun t => msgLength_mirror) hstop]
    exact Prod.ext rfl hstop
  generalize (walk Itch.msgLength mem rawLen 0).1 = starts at *
  have hcount : (events mem starts).length = (starts.filterMap (eventAt mem)).length := by
    rw [events, List.length_filterMap_eq_countP, List.length_filterMap_eq_countP]
    exact List.countP_congr (fun p hp => by rw [isSome_eventAt (hknown p hp)])
  rw [← hcount] at hroom
  obtain ⟨hret, hout, hoffset⟩ := parseBuffer_whole hwalk hroom
  have hagree : events mem starts = starts.filterMap (eventAt mem) ↔ ∀ p ∈ starts,
      Char.ofNat (mem p).toNat = 'C' → u32At mem (p + 32) = 0 := by
    rw [eq_comm, events, filterMap_eq_iff (fun p hp => isSome_eventAt (hknown p hp))]
    exact forall₂_congr (fun p hp => eventAt_eq_iff (hknown p hp))
  rw [← hagree, hret, hout, hcount, Except.ok.inj hresult]
  constructor
  · intro h
    exact h.2.1
  · intro h
    exact ⟨rfl, h, by rwa [hcount, Except.ok.inj hresult] at hoffset⟩

/-- An execution with price, at the price 0, and a system event behind it. -/
theorem parsers_mirror_iff_free :
    ∃ mem, Itch.parseBuffer (window mem 0 48) [] = .ok ([⟨0, 0, 0, 0, 0, 4, 0⟩], .ok 1) ∧
      ((parseBuffer 48 2).value mem).ret = 1 ∧
      ((parseBuffer 48 2).value mem).out = [⟨0, 0, 0, 0, 0, 4, 0⟩] ∧
      ((parseBuffer 48 2).value mem).offset = 48 := by
  have hrust : Itch.parseBuffer (window (fun i => if i = 0 then 0x43 else if i = 36 then 0x53 else 0)
      0 48) [] = .ok ([] ++ [⟨0, 0, 0, 0, 0, 4, 0⟩], .ok 1) := by
    decide +kernel
  have hfree : ∀ p ∈ (walk Itch.msgLength
      (fun i => if i = 0 then 0x43 else if i = 36 then 0x53 else 0) 48 0).1,
      Char.ofNat ((if p = 0 then 0x43 else if p = 36 then 0x53 else 0) : UInt8).toNat = 'C' →
        u32At (fun i => if i = 0 then 0x43 else if i = 36 then 0x53 else 0) (p + 32) = 0 := by
    decide +kernel
  obtain ⟨hret, hout, hoffset⟩ :=
    (parsers_mirror_iff _ 48 [] _ 1 hrust 2 (by decide)).mpr hfree
  exact ⟨_, hrust, hret, hout, hoffset (by decide)⟩

/-- An execution with price: the Rust parser reads the price, the Zig parser does not. -/
theorem parsers_differ_on_price :
    ∃ mem : Nat → UInt8,
      Itch.parseBuffer (window mem 0 36) [] = .ok ([⟨0, 7, 0, 0, 0, 4, 0⟩], .ok 1) ∧
      (parseBuffer 36 2).value mem = ⟨36, [⟨0, 0, 0, 0, 0, 4, 0⟩], 1⟩ :=
  ⟨fun i => if i = 0 then 0x43 else if i = 35 then 7 else 0, by decide +kernel⟩

end Flowlab.FeedParser
