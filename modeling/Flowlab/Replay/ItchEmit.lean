import Flowlab.Replay.ItchStream

namespace Flowlab.Replay.Itch

open Framework
open Flowlab.Core (Event EventType Side)

/-- The fields all three messages begin with: type, stock locate, tracking number, the two parts of
the timestamp and the order reference. -/
def emitHead (t : Char) (ts orderId : UInt64) : List UInt8 :=
  let tsHi := (ts >>> 32).toUInt16
  let tsLo := (ts &&& 0xFFFFFFFF).toUInt32
  [UInt8.ofNat t.toNat] ++ (Bytes.toBe 2 0 ++ (Bytes.toBe 2 0 ++ (Bytes.toBe 2 tsHi.toNat ++
    (Bytes.toBe 4 tsLo.toNat ++ Bytes.toBe 8 orderId.toNat))))

def sideByte (side : Side) : UInt8 :=
  match side with
  | .bid => UInt8.ofNat 'B'.toNat
  | .ask => UInt8.ofNat 'S'.toNat

/-- The head, the side, the shares, the padding of the stock symbol and the price. -/
def emitSided (t : Char) (ts orderId : UInt64) (side : Side) (shares price : UInt32) : List UInt8 :=
  emitHead t ts orderId ++ ([sideByte side] ++ (Bytes.toBe 4 shares.toNat ++
    (List.replicate 8 (UInt8.ofNat ' '.toNat) ++ Bytes.toBe 4 price.toNat)))

def emitAddOrder (buf : List UInt8) (ts orderId : UInt64) (side : Side) (shares price : UInt32) :
    List UInt8 :=
  buf ++ emitSided 'A' ts orderId side shares price

def emitOrderDelete (buf : List UInt8) (ts orderId : UInt64) : List UInt8 :=
  buf ++ emitHead 'D' ts orderId

/-- The last field is the match number. -/
def emitTrade (buf : List UInt8) (ts orderId : UInt64) (side : Side) (shares price : UInt32) :
    List UInt8 :=
  buf ++ (emitSided 'P' ts orderId side shares price ++ Bytes.toBe 8 0)

/-- A call of one of the three emitters. -/
inductive Emit where
  | addOrder (ts orderId : UInt64) (side : Side) (shares price : UInt32)
  | orderDelete (ts orderId : UInt64)
  | trade (ts orderId : UInt64) (side : Side) (shares price : UInt32)
  deriving DecidableEq, Repr

namespace Emit

def ts : Emit → UInt64
  | addOrder ts .. => ts
  | orderDelete ts _ => ts
  | trade ts .. => ts

def apply (buf : List UInt8) : Emit → List UInt8
  | addOrder ts orderId side shares price => emitAddOrder buf ts orderId side shares price
  | orderDelete ts orderId => emitOrderDelete buf ts orderId
  | trade ts orderId side shares price => emitTrade buf ts orderId side shares price

/-- The event a call stands for. -/
def event : Emit → Event
  | addOrder ts orderId side shares price =>
    ⟨ts, price.toUInt64, shares.toUInt64, orderId, 0, EventType.orderAdd.toU8, side.toU8⟩
  | orderDelete ts orderId => ⟨ts, 0, 0, orderId, 0, EventType.orderCancel.toU8, 0⟩
  | trade ts orderId side shares price =>
    ⟨ts, price.toUInt64, shares.toUInt64, orderId, 0, EventType.trade.toU8, side.toU8⟩

/-- The bytes a call appends. -/
def bytes (c : Emit) : List UInt8 := c.apply []

theorem apply_eq (buf : List UInt8) (c : Emit) : c.apply buf = buf ++ c.bytes := by
  cases c <;> rfl

theorem foldl_apply (buf : List UInt8) (calls : List Emit) :
    calls.foldl apply buf = buf ++ (calls.map bytes).flatten := by
  induction calls generalizing buf with
  | nil => simp
  | cons c calls ih =>
    rw [List.foldl_cons, ih, apply_eq, List.map_cons, List.flatten_cons, List.append_assoc]

end Emit

section Read

variable {m a f z : List UInt8} {off : Nat}

/-- A field between `a` and `z` is read at its offset. -/
theorem indices_field (hm : m = a ++ (f ++ z)) (ha : off = a.length) {w : Nat}
    (hw : w = f.length) : indices m off w = .ok f := by
  have hlen : off + w ≤ m.length := by
    rw [hm, ha, hw, List.length_append, List.length_append]
    omega
  have hslice : (m.drop off).take w = f := by
    rw [hm]
    exact Bytes.slice_mid_of ha hw
  obtain ⟨mem, hmem⟩ := exists_window m
  rw [hmem, length_window] at hlen
  rw [hmem, take_drop_window mem hlen] at hslice
  rw [hmem, indices_window mem hlen, hslice]

theorem rdU16_field (n : UInt16) (hm : m = a ++ (Bytes.toBe 2 n.toNat ++ z))
    (ha : off = a.length) : rdU16 m off = .ok n := by
  rw [rdU16, indices_field hm ha (by simp)]
  change Except.ok (UInt16.ofNat (Bytes.ofBe (Bytes.toBe 2 n.toNat))) = _
  rw [Bytes.ofBe_toBe 2 _ n.toNat_lt, UInt16.ofNat_toNat]

theorem rdU32_field (n : UInt32) (hm : m = a ++ (Bytes.toBe 4 n.toNat ++ z))
    (ha : off = a.length) : rdU32 m off = .ok n := by
  rw [rdU32, indices_field hm ha (by simp)]
  change Except.ok (UInt32.ofNat (Bytes.ofBe (Bytes.toBe 4 n.toNat))) = _
  rw [Bytes.ofBe_toBe 4 _ n.toNat_lt, UInt32.ofNat_toNat]

theorem rdU64_field (n : UInt64) (hm : m = a ++ (Bytes.toBe 8 n.toNat ++ z))
    (ha : off = a.length) : rdU64 m off = .ok n := by
  rw [rdU64, indices_field hm ha (by simp)]
  change Except.ok (UInt64.ofNat (Bytes.ofBe (Bytes.toBe 8 n.toNat))) = _
  rw [Bytes.ofBe_toBe 8 _ n.toNat_lt, UInt64.ofNat_toNat]

end Read

/-- A timestamp of 48 bits is put together from its parts. -/
theorem ts48_parts {ts : UInt64} (h : ts.toNat < 2 ^ 48) :
    ((ts >>> 32).toUInt16.toUInt64 <<< 32) ||| (ts &&& 0xFFFFFFFF).toUInt32.toUInt64 = ts := by
  have hhi : (ts >>> 32).toUInt16.toUInt64.toNat = ts.toNat / 2 ^ 32 := by
    rw [UInt16.toNat_toUInt64, UInt64.toNat_toUInt16, UInt64.toNat_shiftRight,
      Nat.shiftRight_eq_div_pow]
    change ts.toNat / 2 ^ 32 % 2 ^ 16 = _
    omega
  have hlo : (ts &&& 0xFFFFFFFF).toUInt32.toUInt64.toNat = ts.toNat % 2 ^ 32 := by
    rw [UInt32.toNat_toUInt64, UInt64.toNat_toUInt32, UInt64.toNat_and]
    change (ts.toNat &&& (2 ^ 32 - 1)) % 2 ^ 32 = _
    rw [Nat.and_two_pow_sub_one_eq_mod]
    omega
  apply UInt64.toNat_inj.mp
  rw [UInt64.toNat_or, UInt64.toNat_shiftLeft, hhi, hlo]
  change (ts.toNat / 2 ^ 32) <<< 32 % 2 ^ 64 ||| ts.toNat % 2 ^ 32 = ts.toNat
  have hshift : (ts.toNat / 2 ^ 32) <<< 32 < 2 ^ 64 := by
    rw [Nat.shiftLeft_eq]
    omega
  rw [Nat.mod_eq_of_lt hshift, ← Nat.shiftLeft_add_eq_or_of_lt (Nat.mod_lt _ (by norm_num)),
    Nat.shiftLeft_eq]
  omega

section Head

variable {t : Char} {ts orderId : UInt64} {z : List UInt8}

@[simp] theorem length_emitHead : (emitHead t ts orderId).length = 19 := by
  simp [emitHead]

theorem emitHead_locate : rdU16 (emitHead t ts orderId ++ z) 1 = .ok 0 :=
  rdU16_field 0 (a := [UInt8.ofNat t.toNat]) (by
    simp only [emitHead, List.append_assoc]
    rfl) rfl

theorem emitHead_ts (h : ts.toNat < 2 ^ 48) : rdTs48 (emitHead t ts orderId ++ z) 5 = .ok ts := by
  have hhi : rdU16 (emitHead t ts orderId ++ z) 5 = .ok (ts >>> 32).toUInt16 :=
    rdU16_field _ (a := [UInt8.ofNat t.toNat] ++ (Bytes.toBe 2 0 ++ Bytes.toBe 2 0)) (by
      simp only [emitHead, List.append_assoc]
      rfl) (by simp)
  have hlo : rdU32 (emitHead t ts orderId ++ z) (5 + 2) = .ok (ts &&& 0xFFFFFFFF).toUInt32 :=
    rdU32_field _ (a := [UInt8.ofNat t.toNat] ++ (Bytes.toBe 2 0 ++ (Bytes.toBe 2 0 ++
      Bytes.toBe 2 (ts >>> 32).toUInt16.toNat))) (by
      simp only [emitHead, List.append_assoc]
      rfl) (by simp)
  rw [rdTs48, hhi, hlo]
  exact congrArg Except.ok (ts48_parts h)

theorem emitHead_orderId : rdU64 (emitHead t ts orderId ++ z) 11 = .ok orderId :=
  rdU64_field _ (a := [UInt8.ofNat t.toNat] ++ (Bytes.toBe 2 0 ++ (Bytes.toBe 2 0 ++
    (Bytes.toBe 2 (ts >>> 32).toUInt16.toNat ++
      Bytes.toBe 4 (ts &&& 0xFFFFFFFF).toUInt32.toNat)))) (by
    simp only [emitHead, List.append_assoc]
    rfl) (by simp)

end Head

theorem parse_emitOrderDelete {ts orderId : UInt64} (h : ts.toNat < 2 ^ 48) :
    parseOrderDelete (emitHead 'D' ts orderId) =
      .ok (some (Emit.orderDelete ts orderId).event) := by
  have hlocate : rdU16 (emitHead 'D' ts orderId ++ []) 1 = .ok 0 := emitHead_locate
  have hts : rdTs48 (emitHead 'D' ts orderId ++ []) 5 = .ok ts := emitHead_ts h
  have hid : rdU64 (emitHead 'D' ts orderId ++ []) 11 = .ok orderId := emitHead_orderId
  rw [List.append_nil] at hlocate hts hid
  rw [parseOrderDelete, length_emitHead, if_neg (by omega), hlocate, hts, hid]
  rfl

section Sided

variable {t : Char} {ts orderId : UInt64} {side : Side} {shares price : UInt32} {z : List UInt8}

@[simp] theorem length_emitSided : (emitSided t ts orderId side shares price).length = 36 := by
  simp [emitSided]

theorem emitSided_append : emitSided t ts orderId side shares price ++ z =
    emitHead t ts orderId ++ ([sideByte side] ++ (Bytes.toBe 4 shares.toNat ++
      (List.replicate 8 (UInt8.ofNat ' '.toNat) ++ (Bytes.toBe 4 price.toNat ++ z)))) := by
  simp only [emitSided, List.append_assoc]

theorem emitSided_side : index (emitSided t ts orderId side shares price ++ z) 19 =
    .ok (sideByte side) := by
  rw [emitSided_append, index, List.getElem?_append_right (by simp), length_emitHead]
  rfl

theorem emitSided_shares : rdU32 (emitSided t ts orderId side shares price ++ z) 20 =
    .ok shares :=
  rdU32_field _ (a := emitHead t ts orderId ++ [sideByte side]) (by
    simp only [emitSided_append, List.append_assoc]
    rfl) (by simp)

theorem emitSided_price : rdU32 (emitSided t ts orderId side shares price ++ z) 32 = .ok price :=
  rdU32_field _ (a := emitHead t ts orderId ++ ([sideByte side] ++ (Bytes.toBe 4 shares.toNat ++
    List.replicate 8 (UInt8.ofNat ' '.toNat)))) (by
    simp only [emitSided_append, List.append_assoc]
    rfl) (by simp)

theorem parse_emitSided (h : ts.toNat < 2 ^ 48) {minLen : Nat} (hmin : minLen ≤ 36 + z.length)
    (eventType : EventType) :
    parseSided minLen eventType (emitSided t ts orderId side shares price ++ z) = .ok (some
      ⟨ts, price.toUInt64, shares.toUInt64, orderId, 0, eventType.toU8, side.toU8⟩) := by
  have hside : (if Char.ofNat (sideByte side).toNat = 'B' then Side.bid.toU8
      else Side.ask.toU8) = side.toU8 := by
    cases side <;> rfl
  have hlocate : rdU16 (emitSided t ts orderId side shares price ++ z) 1 = .ok 0 := by
    rw [emitSided_append]
    exact emitHead_locate
  have hts : rdTs48 (emitSided t ts orderId side shares price ++ z) 5 = .ok ts := by
    rw [emitSided_append]
    exact emitHead_ts h
  have hid : rdU64 (emitSided t ts orderId side shares price ++ z) 11 = .ok orderId := by
    rw [emitSided_append]
    exact emitHead_orderId
  rw [parseSided, List.length_append, length_emitSided, if_neg (by omega), hlocate, hts, hid,
    emitSided_side, emitSided_shares, emitSided_price, ← hside]
  rfl

end Sided

/-- What a call appends is one whole message, and its event is the call's. -/
theorem emit_message {c : Emit} (h : c.ts.toNat < 2 ^ 48) :
    WholeMessage c.bytes ∧ messageEvent c.bytes = some c.event := by
  cases c with
  | addOrder ts orderId side shares price =>
    have hsided : parseSided 36 .orderAdd (emitSided 'A' ts orderId side shares price ++ []) =
        .ok (some (Emit.addOrder ts orderId side shares price).event) :=
      parse_emitSided h (by simp) .orderAdd
    rw [List.append_nil] at hsided
    have hparse : dispatch (emitSided 'A' ts orderId side shares price) =
        .ok (some (Emit.addOrder ts orderId side shares price).event) := hsided
    refine ⟨⟨_, rfl, length_emitSided⟩, ?_⟩
    change messageEvent (emitSided 'A' ts orderId side shares price) = _
    rw [messageEvent, hparse]
  | orderDelete ts orderId =>
    have hparse : dispatch (emitHead 'D' ts orderId) =
        .ok (some (Emit.orderDelete ts orderId).event) := parse_emitOrderDelete h
    refine ⟨⟨_, rfl, length_emitHead⟩, ?_⟩
    change messageEvent (emitHead 'D' ts orderId) = _
    rw [messageEvent, hparse]
  | trade ts orderId side shares price =>
    have hsided : parseSided 44 .trade
        (emitSided 'P' ts orderId side shares price ++ Bytes.toBe 8 0) =
        .ok (some (Emit.trade ts orderId side shares price).event) :=
      parse_emitSided h (by simp) .trade
    have hparse : dispatch (emitSided 'P' ts orderId side shares price ++ Bytes.toBe 8 0) =
        .ok (some (Emit.trade ts orderId side shares price).event) := hsided
    refine ⟨⟨_, rfl, ?_⟩, ?_⟩
    · change (emitSided 'P' ts orderId side shares price ++ Bytes.toBe 8 0).length = 44
      rw [List.length_append, length_emitSided, Bytes.length_toBe]
    · change messageEvent (emitSided 'P' ts orderId side shares price ++ Bytes.toBe 8 0) = _
      rw [messageEvent, hparse]

/-- Emitted bytes parse back: `parse_buffer` pushes the event of every call, in order. -/
theorem itch_roundtrip (calls : List Emit) (h : ∀ c ∈ calls, c.ts.toNat < 2 ^ 48)
    (out : List Event) :
    parseBuffer (calls.foldl Emit.apply []) out =
      .ok (out ++ calls.map Emit.event, .ok calls.length) := by
  have hwhole : ∀ m ∈ calls.map Emit.bytes, WholeMessage m := by
    intro m hm
    obtain ⟨c, hc, rfl⟩ := List.mem_map.mp hm
    exact (emit_message (h c hc)).1
  have hevents : (calls.map Emit.bytes).filterMap messageEvent = calls.map Emit.event := by
    rw [List.filterMap_map, ← List.filterMap_eq_map]
    apply List.filterMap_congr
    intro c hc
    exact (emit_message (h c hc)).2
  rw [Emit.foldl_apply, List.nil_append, parseBuffer_messages hwhole, hevents, List.length_map]

/-- One call of each kind. -/
theorem itch_roundtrip_three :
    parseBuffer ([Emit.addOrder 42 7 .bid 100 1234, .trade 43 8 .ask 5 1230,
        .orderDelete 44 7].foldl Emit.apply []) [] =
      .ok ([⟨42, 1234, 100, 7, 0, 1, 0⟩, ⟨43, 1230, 5, 8, 0, 4, 1⟩, ⟨44, 0, 0, 7, 0, 2, 0⟩],
        .ok 3) :=
  itch_roundtrip _ (by decide) []

end Flowlab.Replay.Itch
