import Flowlab.Core.HotRefine
import Flowlab.Framework.Bytes

namespace Flowlab.Core

open Std Framework

def snapshotHeaderLen : Nat := 16

inductive BookSnapshotError where
  | truncated (len : Nat)
  | levelsMismatch (got expected : UInt32)
  | countExceedsMax (got max : UInt32)
  | badLength (declared actual : Nat)
  deriving DecidableEq, Repr

def le32 (n : UInt32) : List UInt8 := Bytes.toLe 4 n.toNat

def le64 (n : UInt64) : List UInt8 := Bytes.toLe 8 n.toNat

def readU32 (buf : List UInt8) (p : Nat) : UInt32 := UInt32.ofNat (Bytes.ofLe (Bytes.slice buf p 4))

def readU64 (buf : List UInt8) (p : Nat) : UInt64 := UInt64.ofNat (Bytes.ofLe (Bytes.slice buf p 8))

def writeLevel (l : Level) : List UInt8 :=
  le64 l.price ++ (le64 l.totalQty ++ (le32 l.orderCount ++ List.replicate 4 0))

def readLevel (buf : List UInt8) : Level := ⟨readU64 buf 0, readU64 buf 8, readU32 buf 16⟩

def writeMeta (m : OrderMeta) : List UInt8 :=
  le64 m.price ++ (le64 m.qty ++ ([m.side] ++ List.replicate 7 0))

def readMeta (buf : List UInt8) : OrderMeta := ⟨readU64 buf 0, readU64 buf 8, buf.getD 16 0⟩

/-- An index entry on the wire. -/
def writeSlot (r : UInt64 × UInt32) : List UInt8 := le64 r.1 ++ le32 r.2

def readSlot (buf : List UInt8) : UInt64 × UInt32 := (readU64 buf 0, readU32 buf 8)

/-- `book.bids[i] = …` for successive `i`. -/
def HalfBook.fill {M : Nat} (v : Vector Level M) : Nat → List Level → Vector Level M
  | _, [] => v
  | i, l :: ls => fill (v.setIfInBounds i l) (i + 1) ls

namespace HotOrderBook

/-- The index entries leave in id order, which is how the map lists them. -/
def toSnapshotBytes {M : Nat} (b : HotOrderBook M) : List UInt8 :=
  le32 b.instrumentId ++ (le32 b.bids.count ++ (le32 b.asks.count ++ (le32 (UInt32.ofNat M) ++
  (b.bids.ladder.flatMap writeLevel ++ (b.asks.ladder.flatMap writeLevel ++
  (le32 (UInt32.ofNat b.orders.data.length) ++ (b.orders.data.flatMap writeMeta ++
  (le32 (UInt32.ofNat b.orders.freeList.length) ++ (b.orders.freeList.flatMap le32 ++
  (le32 (UInt32.ofNat b.orders.index.size) ++ b.orders.index.toList.flatMap writeSlot))))))))))

def fromSnapshotBytes (M : Nat) (buf : List UInt8) : Except BookSnapshotError (HotOrderBook M) :=
  if buf.length < snapshotHeaderLen then .error (.truncated buf.length)
  else
    let instrumentId := readU32 buf 0
    let bidCount := readU32 buf 4
    let askCount := readU32 buf 8
    let declaredMax := readU32 buf 12
    if declaredMax ≠ UInt32.ofNat M then .error (.levelsMismatch declaredMax (UInt32.ofNat M))
    else if bidCount > UInt32.ofNat M ∨ askCount > UInt32.ofNat M then
      .error (.countExceedsMax (max bidCount askCount) (UInt32.ofNat M))
    else
      let p := snapshotHeaderLen
      let want := (bidCount.toNat + askCount.toNat) * 24
      if buf.length < p + want then .error (.badLength want (buf.length - p))
      else
        let empty := HalfBook.empty M
        let bids := HalfBook.fill empty.levels 0 (Bytes.readItems readLevel 24 buf bidCount.toNat p)
        let p := p + 24 * bidCount.toNat
        let asks := HalfBook.fill empty.levels 0 (Bytes.readItems readLevel 24 buf askCount.toNat p)
        let p := p + 24 * askCount.toNat
        if buf.length < p + 4 then .error (.truncated buf.length)
        else
          let slabLen := (readU32 buf p).toNat
          let p := p + 4
          if buf.length < p + slabLen * 24 then .error (.badLength (slabLen * 24) (buf.length - p))
          else
            let data := Bytes.readItems readMeta 24 buf slabLen p
            let p := p + 24 * slabLen
            if buf.length < p + 4 then .error (.truncated buf.length)
            else
              let freeLen := (readU32 buf p).toNat
              let p := p + 4
              if buf.length < p + freeLen * 4 then
                .error (.badLength (freeLen * 4) (buf.length - p))
              else
                let freeList := Bytes.readItems (fun s => readU32 s 0) 4 buf freeLen p
                let p := p + 4 * freeLen
                if buf.length < p + 4 then .error (.truncated buf.length)
                else
                  let indexLen := (readU32 buf p).toNat
                  let p := p + 4
                  if buf.length < p + indexLen * 12 then
                    .error (.badLength (indexLen * 12) (buf.length - p))
                  else
                    let index := (Bytes.readItems readSlot 12 buf indexLen p).foldl
                      (fun (t : ExtTreeMap UInt64 UInt32) r => t.insert r.1 r.2) ∅
                    .ok ⟨instrumentId, ⟨bids, bidCount⟩, ⟨asks, askCount⟩, ⟨data, freeList, index⟩⟩

end HotOrderBook

/-- A count that passes the decoder's check fits the level array. -/
theorem count_le_of_check {M : Nat} {c : UInt32} (hc : ¬ c > UInt32.ofNat M) : c.toNat ≤ M := by
  have := UInt32.le_iff_toNat_le.mp (UInt32.not_lt.mp hc)
  rw [UInt32.toNat_ofNat'] at this
  exact this.trans (Nat.mod_le _ _)

theorem readU32_mid {buf a z : List UInt8} {p : Nat} (n : UInt32)
    (hb : buf = a ++ (le32 n ++ z)) (hp : p = a.length) : readU32 buf p = n := by
  have hs : Bytes.slice buf p 4 = le32 n := by
    rw [hb, Bytes.slice_mid_of hp (by simp [le32])]
  rw [readU32, hs, le32, Bytes.ofLe_toLe 4 n.toNat (by simpa using n.toNat_lt), UInt32.ofNat_toNat]

theorem readU64_mid {buf a z : List UInt8} {p : Nat} (n : UInt64)
    (hb : buf = a ++ (le64 n ++ z)) (hp : p = a.length) : readU64 buf p = n := by
  have hs : Bytes.slice buf p 8 = le64 n := by
    rw [hb, Bytes.slice_mid_of hp (by simp [le64])]
  rw [readU64, hs, le64, Bytes.ofLe_toLe 8 n.toNat (by simpa using n.toNat_lt), UInt64.ofNat_toNat]

@[simp] theorem length_le32 (n : UInt32) : (le32 n).length = 4 := Bytes.length_toLe 4 _

@[simp] theorem length_le64 (n : UInt64) : (le64 n).length = 8 := Bytes.length_toLe 8 _

theorem length_writeLevel (l : Level) : (writeLevel l).length = 24 := by
  simp [writeLevel]

theorem length_writeMeta (m : OrderMeta) : (writeMeta m).length = 24 := by
  simp [writeMeta]

theorem length_writeSlot (r : UInt64 × UInt32) : (writeSlot r).length = 12 := by
  simp [writeSlot]

theorem readLevel_writeLevel (l : Level) : readLevel (writeLevel l) = l := by
  have h1 : readU64 (writeLevel l) 0 = l.price := readU64_mid (a := []) _ rfl rfl
  have h2 : readU64 (writeLevel l) 8 = l.totalQty :=
    readU64_mid (a := le64 l.price) _ rfl (by simp)
  have h3 : readU32 (writeLevel l) 16 = l.orderCount :=
    readU32_mid (a := le64 l.price ++ le64 l.totalQty) _ (by rw [List.append_assoc]; rfl) (by simp)
  rw [readLevel, h1, h2, h3]

theorem readMeta_writeMeta (m : OrderMeta) : readMeta (writeMeta m) = m := by
  have h1 : readU64 (writeMeta m) 0 = m.price := readU64_mid (a := []) _ rfl rfl
  have h2 : readU64 (writeMeta m) 8 = m.qty :=
    readU64_mid (a := le64 m.price) _ rfl (by simp)
  have h3 : (writeMeta m).getD 16 0 = m.side := by
    simp [writeMeta, List.getD_eq_getElem?_getD]
  rw [readMeta, h1, h2, h3]

theorem readSlot_writeSlot (r : UInt64 × UInt32) : readSlot (writeSlot r) = r := by
  have h1 : readU64 (writeSlot r) 0 = r.1 := readU64_mid (a := []) _ rfl rfl
  have h2 : readU32 (writeSlot r) 8 = r.2 :=
    readU32_mid (a := le64 r.1) (z := []) _ (by rw [List.append_nil]; rfl) (by simp)
  rw [readSlot, h1, h2]

theorem readU32_le32 (n : UInt32) : readU32 (le32 n) 0 = n :=
  readU32_mid (a := []) (z := []) _ (by simp) rfl

/-- Filling a run of cells replaces exactly that run. -/
theorem HalfBook.toList_fill {M : Nat} (v : Vector Level M) (i : Nat) (ls : List Level)
    (h : i + ls.length ≤ M) :
    (HalfBook.fill v i ls).toList = v.toList.take i ++ ls ++ v.toList.drop (i + ls.length) := by
  induction ls generalizing v i with
  | nil => simp [fill]
  | cons l ls ih =>
    rw [List.length_cons] at h
    have hi : i < v.toList.length := by simp; omega
    rw [fill, ih _ _ (by omega), Vector.toList_setIfInBounds, List.drop_set_of_lt (by omega),
      List.take_succ_eq_append_getElem (by simpa using hi), List.take_set_of_le (Nat.le_refl i)]
    simp [Nat.add_assoc, Nat.add_comm 1]

/-- The restored cells: the ladder, then the defaults of `Self::new`. -/
theorem HalfBook.fill_ladder {M : Nat} {h : HalfBook M} (hc : h.count.toNat ≤ M) (hcl : h.Clean) :
    HalfBook.fill (HalfBook.empty M).levels 0 h.ladder = h.levels := by
  have hlen := ladder_length hc
  apply Vector.toList_inj.mp
  rw [toList_fill _ _ _ (by omega), List.take_zero, List.nil_append, Nat.zero_add, hlen]
  have hdrop : (HalfBook.empty M).levels.toList.drop h.count.toNat =
      h.levels.toList.drop h.count.toNat := by
    rw [hcl]
    simp [HalfBook.empty]
  rw [hdrop, ladder, List.take_append_drop]

namespace HotOrderBook

/-- What a snapshot relies on. -/
structure Sound {M : Nat} (b : HotOrderBook M) : Prop where
  grid : b.GridInv
  bids : b.bids.Clean
  asks : b.asks.Clean
  slab : b.orders.Inv
  short : b.orders.data.length < 2 ^ 32

/-- Every section of the snapshot has a length that its field can hold. -/
structure Framed {M : Nat} (b : HotOrderBook M) : Prop where
  bids : b.bids.count.toNat ≤ M
  asks : b.asks.count.toNat ≤ M
  data : b.orders.data.length < 2 ^ 32
  free : b.orders.freeList.length < 2 ^ 32
  index : b.orders.index.size < 2 ^ 32

theorem Sound.framed {M : Nat} {b : HotOrderBook M} (h : b.Sound) : b.Framed := by
  have hslots := h.slab.slots
  have hshort := h.short
  exact ⟨h.grid.bids.count_le, h.grid.asks.count_le, hshort, by omega, by omega⟩

theorem length_toSnapshotBytes {M : Nat} {b : HotOrderBook M} (hbc : b.bids.count.toNat ≤ M)
    (hac : b.asks.count.toNat ≤ M) :
    b.toSnapshotBytes.length = 16 + 24 * b.bids.count.toNat + 24 * b.asks.count.toNat + 4 +
      24 * b.orders.data.length + 4 + 4 * b.orders.freeList.length + 4 +
      12 * b.orders.index.size := by
  have hb := HalfBook.ladder_length hbc
  have ha := HalfBook.ladder_length hac
  simp only [toSnapshotBytes, List.length_append, length_le32,
    Bytes.length_flatMap_of (fun l _ => length_writeLevel l),
    Bytes.length_flatMap_of (fun m _ => length_writeMeta m),
    Bytes.length_flatMap_of (fun n _ => length_le32 n),
    Bytes.length_flatMap_of (fun r _ => length_writeSlot r), ExtTreeMap.length_toList, hb, ha]
  omega

theorem read_header {M : Nat} (b : HotOrderBook M) :
    readU32 b.toSnapshotBytes 0 = b.instrumentId ∧ readU32 b.toSnapshotBytes 4 = b.bids.count ∧
    readU32 b.toSnapshotBytes 8 = b.asks.count ∧
    readU32 b.toSnapshotBytes 12 = UInt32.ofNat M := by
  refine ⟨?_, ?_, ?_, ?_⟩
  · exact readU32_mid (a := []) _ rfl rfl
  · exact readU32_mid (a := le32 b.instrumentId) _ rfl (by simp)
  · exact readU32_mid (a := le32 b.instrumentId ++ le32 b.bids.count) _
      (by simp only [List.append_assoc]; rfl) (by simp)
  · exact readU32_mid (a := le32 b.instrumentId ++ le32 b.bids.count ++ le32 b.asks.count) _
      (by simp only [List.append_assoc]; rfl) (by simp)

/-- The part of a snapshot before the slab. -/
def gridBytes {M : Nat} (b : HotOrderBook M) : List UInt8 :=
  le32 b.instrumentId ++ (le32 b.bids.count ++ (le32 b.asks.count ++ (le32 (UInt32.ofNat M) ++
  (b.bids.ladder.flatMap writeLevel ++ b.asks.ladder.flatMap writeLevel))))

theorem length_gridBytes {M : Nat} {b : HotOrderBook M} (hbc : b.bids.count.toNat ≤ M)
    (hac : b.asks.count.toNat ≤ M) :
    b.gridBytes.length = 16 + 24 * b.bids.count.toNat + 24 * b.asks.count.toNat := by
  have hb := HalfBook.ladder_length hbc
  have ha := HalfBook.ladder_length hac
  simp only [gridBytes, List.length_append, length_le32,
    Bytes.length_flatMap_of (fun l _ => length_writeLevel l), hb, ha]
  omega

theorem toSnapshotBytes_eq {M : Nat} (b : HotOrderBook M) :
    b.toSnapshotBytes = b.gridBytes ++
      (le32 (UInt32.ofNat b.orders.data.length) ++ (b.orders.data.flatMap writeMeta ++
      (le32 (UInt32.ofNat b.orders.freeList.length) ++ (b.orders.freeList.flatMap le32 ++
      (le32 (UInt32.ofNat b.orders.index.size) ++ b.orders.index.toList.flatMap writeSlot))))) := by
  simp only [toSnapshotBytes, gridBytes, List.append_assoc]

theorem read_ladders {M : Nat} {b : HotOrderBook M} (hbc : b.bids.count.toNat ≤ M)
    (hac : b.asks.count.toNat ≤ M) :
    Bytes.readItems readLevel 24 b.toSnapshotBytes b.bids.count.toNat 16 = b.bids.ladder ∧
    Bytes.readItems readLevel 24 b.toSnapshotBytes b.asks.count.toNat
      (16 + 24 * b.bids.count.toNat) = b.asks.ladder := by
  have hb := HalfBook.ladder_length hbc
  have ha := HalfBook.ladder_length hac
  have hlen (l : List Level) := Bytes.length_flatMap_of (l := l) (fun l _ => length_writeLevel l)
  constructor
  · rw [← hb]
    exact Bytes.readItems_flatMap (fun l _ => length_writeLevel l)
      (fun l _ => readLevel_writeLevel l)
      (a := le32 b.instrumentId ++ le32 b.bids.count ++ le32 b.asks.count ++ le32 (UInt32.ofNat M))
      (by simp only [List.append_assoc]; rfl) (by simp)
  · rw [← ha]
    exact Bytes.readItems_flatMap (fun l _ => length_writeLevel l)
      (fun l _ => readLevel_writeLevel l)
      (a := le32 b.instrumentId ++ le32 b.bids.count ++ le32 b.asks.count ++
        le32 (UInt32.ofNat M) ++ b.bids.ladder.flatMap writeLevel)
      (by simp only [List.append_assoc]; rfl)
      (by simp only [List.length_append, length_le32, hlen, hb])

/-- The three sections of the slab, at the offsets the decoder computes. -/
theorem read_slab {M : Nat} {b : HotOrderBook M} (h : b.Framed) {g d f : Nat}
    (hgrid : g = b.gridBytes.length) (hd : d = b.orders.data.length)
    (hf : f = b.orders.freeList.length) :
    (readU32 b.toSnapshotBytes g).toNat = d ∧
    Bytes.readItems readMeta 24 b.toSnapshotBytes d (g + 4) = b.orders.data ∧
    (readU32 b.toSnapshotBytes (g + 4 + 24 * d)).toNat = f ∧
    Bytes.readItems (fun s => readU32 s 0) 4 b.toSnapshotBytes f (g + 4 + 24 * d + 4) =
      b.orders.freeList ∧
    (readU32 b.toSnapshotBytes (g + 4 + 24 * d + 4 + 4 * f)).toNat = b.orders.index.size ∧
    Bytes.readItems readSlot 12 b.toSnapshotBytes b.orders.index.size
      (g + 4 + 24 * d + 4 + 4 * f + 4) = b.orders.index.toList := by
  have hdata := Bytes.length_flatMap_of (l := b.orders.data) (fun m _ => length_writeMeta m)
  have hfree := Bytes.length_flatMap_of (l := b.orders.freeList) (fun n _ => length_le32 n)
  have hroom {n : Nat} (hn : n < 2 ^ 32) : (UInt32.ofNat n).toNat = n :=
    UInt32.toNat_ofNat_of_lt' hn
  rw [toSnapshotBytes_eq]
  refine ⟨?_, ?_, ?_, ?_, ?_, ?_⟩
  · rw [readU32_mid (a := b.gridBytes) _ rfl hgrid, hroom h.data, hd]
  · rw [hd]
    exact Bytes.readItems_flatMap (fun m _ => length_writeMeta m) (fun m _ => readMeta_writeMeta m)
      (a := b.gridBytes ++ le32 (UInt32.ofNat b.orders.data.length))
      (by simp only [List.append_assoc]; rfl) (by simp [hgrid])
  · rw [readU32_mid (a := b.gridBytes ++ le32 (UInt32.ofNat b.orders.data.length) ++
      b.orders.data.flatMap writeMeta) (UInt32.ofNat b.orders.freeList.length)
      (by simp only [List.append_assoc]; rfl) (by simp only [List.length_append, length_le32, hgrid, hdata, hd]),
      hroom h.free, hf]
  · rw [hf]
    exact Bytes.readItems_flatMap (fun n _ => length_le32 n) (fun n _ => readU32_le32 n)
      (a := b.gridBytes ++ le32 (UInt32.ofNat b.orders.data.length) ++
        b.orders.data.flatMap writeMeta ++ le32 (UInt32.ofNat b.orders.freeList.length))
      (by simp only [List.append_assoc]; rfl)
      (by simp only [List.length_append, length_le32, hgrid, hdata, hd])
  · rw [readU32_mid (a := b.gridBytes ++ le32 (UInt32.ofNat b.orders.data.length) ++
      b.orders.data.flatMap writeMeta ++ le32 (UInt32.ofNat b.orders.freeList.length) ++
      b.orders.freeList.flatMap le32) (UInt32.ofNat b.orders.index.size)
      (by simp only [List.append_assoc]; rfl)
      (by simp only [List.length_append, length_le32, hgrid, hdata, hfree, hd, hf]),
      hroom h.index]
  · rw [← ExtTreeMap.length_toList]
    exact Bytes.readItems_flatMap (z := []) (fun r _ => length_writeSlot r)
      (fun r _ => readSlot_writeSlot r)
      (a := b.gridBytes ++ le32 (UInt32.ofNat b.orders.data.length) ++
        b.orders.data.flatMap writeMeta ++ le32 (UInt32.ofNat b.orders.freeList.length) ++
        b.orders.freeList.flatMap le32 ++ le32 (UInt32.ofNat b.orders.index.size))
      (by simp only [List.append_assoc, List.append_nil, ExtTreeMap.length_toList])
      (by simp only [List.length_append, length_le32, hgrid, hdata, hfree, hd, hf])

/-- Decoding what was encoded gives the live cells and the slab back. -/
theorem fromSnapshotBytes_framed {M : Nat} {b : HotOrderBook M} (hM : M < 2 ^ 32) (h : b.Framed) :
    fromSnapshotBytes M b.toSnapshotBytes = .ok ⟨b.instrumentId,
      ⟨HalfBook.fill (HalfBook.empty M).levels 0 b.bids.ladder, b.bids.count⟩,
      ⟨HalfBook.fill (HalfBook.empty M).levels 0 b.asks.ladder, b.asks.count⟩, b.orders⟩ := by
  have hbc := h.bids
  have hac := h.asks
  have hlen := length_toSnapshotBytes hbc hac
  have hnM : (UInt32.ofNat M).toNat = M := UInt32.toNat_ofNat_of_lt' hM
  have hfits : ¬ (b.bids.count > UInt32.ofNat M ∨ b.asks.count > UInt32.ofNat M) := by
    intro hbad
    rcases hbad with hc | hc
    · have := UInt32.lt_iff_toNat_lt.mp hc
      omega
    · have := UInt32.lt_iff_toNat_lt.mp hc
      omega
  obtain ⟨h0, h4, h8, h12⟩ := read_header b
  obtain ⟨hbids, hasks⟩ := read_ladders hbc hac
  obtain ⟨hd, hdata, hf, hfree, hi, hindex⟩ := read_slab h (length_gridBytes hbc hac).symm rfl rfl
  unfold fromSnapshotBytes snapshotHeaderLen
  rw [if_neg (by omega)]
  simp only [h0, h4, h8, h12, ne_eq, not_true, if_false, if_neg hfits, hbids, hasks, hd, hdata, hf,
    hfree, hi, hindex, FiniteMap.foldl_insert_toList]
  rw [if_neg (by omega), if_neg (by omega), if_neg (by omega), if_neg (by omega),
    if_neg (by omega), if_neg (by omega), if_neg (by omega)]

/-- Decoding what was encoded gives the book back, cell for cell. -/
theorem fromSnapshotBytes_toSnapshotBytes {M : Nat} {b : HotOrderBook M} (h : b.Sound) :
    fromSnapshotBytes M b.toSnapshotBytes = .ok b := by
  rw [fromSnapshotBytes_framed h.grid.bids.depth h.framed,
    HalfBook.fill_ladder h.framed.bids h.bids, HalfBook.fill_ladder h.framed.asks h.asks]

end HotOrderBook

/-! Every reachable book with a short slab is sound: no event dirties an unused cell or, below 2^32
slots, breaks the slab. -/

namespace OrderSlab

theorem inv_insert_of_short {s : OrderSlab} (hi : s.Inv) {orderId : UInt64} {m : OrderMeta}
    (h : (s.insert orderId m).data.length < 2 ^ 32) : (s.insert orderId m).Inv :=
  inv_insert hi (fun _ _ => (data_le_insert s orderId m).trans_lt h) m

end OrderSlab

namespace HotOrderBook

theorem sound_setHalf {M : Nat} {b : HotOrderBook M} (h : b.Sound) {isBid : Bool} {g : HalfBook M}
    (hg : g.Inv isBid) (hc : g.Clean) : (b.setHalf isBid g).Sound := by
  cases isBid
  · exact ⟨⟨h.grid.bids, hg⟩, h.bids, hc, h.slab, h.short⟩
  · exact ⟨⟨hg, h.grid.asks⟩, hc, h.asks, h.slab, h.short⟩

theorem sound_half {M : Nat} {b : HotOrderBook M} (h : b.Sound) (isBid : Bool) :
    (b.half isBid).Clean := by
  cases isBid
  · exact h.asks
  · exact h.bids

theorem sound_orders {M : Nat} {b : HotOrderBook M} (h : b.Sound) {s : OrderSlab} (hs : s.Inv)
    (hl : s.data.length < 2 ^ 32) : ({ b with orders := s } : HotOrderBook M).Sound :=
  ⟨gridInv_orders h.grid s, h.bids, h.asks, hs, hl⟩

theorem sound_deductOn {M : Nat} {b : HotOrderBook M} (h : b.Sound) (isBid : Bool)
    (price qty : UInt64) (release : Bool) : (b.deductOn isBid price qty release).1.Sound :=
  sound_setHalf h (HalfBook.deduct_spec (half_inv h.grid isBid) price qty release).1
    ((half_inv h.grid isBid).wf.deduct_clean (sound_half h isBid) price qty release)

theorem sound_remove {M : Nat} {b : HotOrderBook M} (h : b.Sound) (orderId : UInt64) :
    ({ b with orders := (b.orders.remove orderId).1 } : HotOrderBook M).Sound :=
  sound_orders h (OrderSlab.inv_remove h.slab orderId)
    (by rw [OrderSlab.data_remove]; exact h.short)

theorem sound_setMeta {M : Nat} {b : HotOrderBook M} (h : b.Sound) (orderId : UInt64)
    (m : OrderMeta) : ({ b with orders := b.orders.setMeta orderId m } : HotOrderBook M).Sound :=
  sound_orders h (OrderSlab.inv_setMeta h.slab orderId m)
    (by rw [OrderSlab.data_setMeta]; exact h.short)

/-- An add that leaves the slab short leaves the book sound. -/
theorem sound_addOrder {M : Nat} {b : HotOrderBook M} (h : b.Sound) (e : Event) :
    (b.addOrder e).1.orders.data.length < 2 ^ 32 → (b.addOrder e).1.Sound := by
  apply addOrder_rule (P := fun c => c.orders.data.length < 2 ^ 32 → c.Sound)
  · intro _
    exact h
  · intro g ha _
    obtain ⟨hg, _, _, hc⟩ :=
      (HalfBook.addLevel_spec (half_inv h.grid (decide (e.side = 0))) e.price e.qty).2 g ha
    exact sound_setHalf h hg (hc (sound_half h _))
  · intro c horders _ hc hs
    have hcs : c.Sound := hc (by rw [horders]; exact h.short)
    exact sound_orders hcs (OrderSlab.inv_insert_of_short hcs.slab hs) hs

theorem kept_sound {M : Nat} : Kept (Sound (M := M)) where
  remove _ orderId h := sound_remove h orderId
  setMeta _ orderId m h := sound_setMeta h orderId m
  deductOn _ isBid price qty release h := sound_deductOn h isBid price qty release
  tradeAnon _ price qty isBid h :=
    sound_setHalf h (HalfBook.deductAnon_spec (half_inv h.grid isBid) price qty).1
      ((half_inv h.grid isBid).wf.deductAnon_clean (sound_half h isBid) price qty)

theorem sound_apply {M : Nat} {b : HotOrderBook M} (h : b.Sound) (e : Event) :
    (b.apply e).1.orders.data.length < 2 ^ 32 → (b.apply e).1.Sound := by
  apply kept_sound.apply (Q := fun c => c.orders.data.length < 2 ^ 32 → c.Sound)
  · intro c hc _
    exact hc
  · intro c hc
    exact sound_addOrder hc e
  · exact h

theorem data_le_addOrder {M : Nat} (b : HotOrderBook M) (e : Event) :
    b.orders.data.length ≤ (b.addOrder e).1.orders.data.length := by
  apply addOrder_rule (P := fun c => b.orders.data.length ≤ c.orders.data.length)
  · exact Nat.le_refl _
  · intro g _
    rw [setHalf_orders]
  · intro c _ _ hc
    exact hc.trans (OrderSlab.data_le_insert _ _ _)

theorem kept_data {M : Nat} (n : Nat) :
    Kept (fun b : HotOrderBook M => n ≤ b.orders.data.length) where
  remove b orderId h := by rwa [OrderSlab.data_remove]
  setMeta b orderId m h := by rwa [OrderSlab.data_setMeta]
  deductOn b isBid price qty release h := by rwa [deductOn_orders]
  tradeAnon b price qty isBid h := by rwa [tradeAnon, setHalf_orders]

/-- The slab never shrinks. -/
theorem data_le_apply {M : Nat} (b : HotOrderBook M) (e : Event) :
    b.orders.data.length ≤ (b.apply e).1.orders.data.length := by
  apply (kept_data b.orders.data.length).apply
    (Q := fun c => b.orders.data.length ≤ c.orders.data.length)
  · intro c hc
    exact hc
  · intro c hc
    exact hc.trans (data_le_addOrder c e)
  · exact Nat.le_refl _

theorem sound_new {M : Nat} (hM : M < 2 ^ 32) (instrumentId : UInt32) : (new M instrumentId).Sound :=
  ⟨gridInv_new hM instrumentId, HalfBook.clean_empty M, HalfBook.clean_empty M,
    OrderSlab.inv_empty, by norm_num [new, OrderSlab.empty]⟩

theorem sound_run {M : Nat} (hM : M < 2 ^ 32) (instrumentId : UInt32) (es : List Event)
    (hs : ((new M instrumentId).run es).orders.data.length < 2 ^ 32) :
    ((new M instrumentId).run es).Sound := by
  induction es using List.reverseRecOn with
  | nil => exact sound_new hM instrumentId
  | append_singleton es e ih =>
    have hrun : (new M instrumentId).run (es ++ [e]) = (((new M instrumentId).run es).apply e).1 := by
      rw [run, List.foldl_append]
      rfl
    rw [hrun] at hs ⊢
    exact sound_apply (ih ((data_le_apply _ e).trans_lt hs)) e hs

end HotOrderBook

end Flowlab.Core
