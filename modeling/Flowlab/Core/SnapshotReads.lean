import Flowlab.Core.Restore
import Flowlab.Core.Parity

namespace Flowlab.Core

open Std Framework

/-! `from_snapshot_bytes` with every index it makes checked: `none` is a panic. -/

def readU32? (buf : List UInt8) (p : Nat) : Option UInt32 :=
  (Bytes.slice? buf p 4).map (fun s => UInt32.ofNat (Bytes.ofLe s))

def readU64? (buf : List UInt8) (p : Nat) : Option UInt64 :=
  (Bytes.slice? buf p 8).map (fun s => UInt64.ofNat (Bytes.ofLe s))

def readLevel? (buf : List UInt8) : Option Level := do
  let price ← readU64? buf 0
  let totalQty ← readU64? buf 8
  let orderCount ← readU32? buf 16
  return ⟨price, totalQty, orderCount⟩

def readMeta? (buf : List UInt8) : Option OrderMeta := do
  let price ← readU64? buf 0
  let qty ← readU64? buf 8
  let side ← buf[16]?
  return ⟨price, qty, side⟩

def readSlot? (buf : List UInt8) : Option (UInt64 × UInt32) := do
  let oid ← readU64? buf 0
  let slot ← readU32? buf 8
  return (oid, slot)

/-- `book.bids[i] = …`, which panics behind the last level. -/
def HalfBook.fill? {M : Nat} (v : Vector Level M) : Nat → List Level → Option (Vector Level M)
  | _, [] => some v
  | i, l :: ls => if i < M then fill? (v.setIfInBounds i l) (i + 1) ls else none

def HotOrderBook.fromSnapshotBytes? (M : Nat) (buf : List UInt8) :
    Option (Except BookSnapshotError (HotOrderBook M)) :=
  if buf.length < snapshotHeaderLen then some (.error (.truncated buf.length))
  else do
    let instrumentId ← readU32? buf 0
    let bidCount ← readU32? buf 4
    let askCount ← readU32? buf 8
    let declaredMax ← readU32? buf 12
    if declaredMax ≠ UInt32.ofNat M then some (.error (.levelsMismatch declaredMax (UInt32.ofNat M)))
    else if bidCount > UInt32.ofNat M ∨ askCount > UInt32.ofNat M then
      some (.error (.countExceedsMax (max bidCount askCount) (UInt32.ofNat M)))
    else
      let p := snapshotHeaderLen
      let want := (bidCount.toNat + askCount.toNat) * 24
      if buf.length < p + want then some (.error (.badLength want (buf.length - p)))
      else do
        let empty := HalfBook.empty M
        let bidRows ← Bytes.readItems? readLevel? 24 buf bidCount.toNat p
        let bids ← HalfBook.fill? empty.levels 0 bidRows
        let p := p + 24 * bidCount.toNat
        let askRows ← Bytes.readItems? readLevel? 24 buf askCount.toNat p
        let asks ← HalfBook.fill? empty.levels 0 askRows
        let p := p + 24 * askCount.toNat
        if buf.length < p + 4 then some (.error (.truncated buf.length))
        else do
          let slabLen ← readU32? buf p
          let slabLen := slabLen.toNat
          let p := p + 4
          if buf.length < p + slabLen * 24 then
            some (.error (.badLength (slabLen * 24) (buf.length - p)))
          else do
            let data ← Bytes.readItems? readMeta? 24 buf slabLen p
            let p := p + 24 * slabLen
            if buf.length < p + 4 then some (.error (.truncated buf.length))
            else do
              let freeLen ← readU32? buf p
              let freeLen := freeLen.toNat
              let p := p + 4
              if buf.length < p + freeLen * 4 then
                some (.error (.badLength (freeLen * 4) (buf.length - p)))
              else do
                let freeList ← Bytes.readItems? (fun s => readU32? s 0) 4 buf freeLen p
                let p := p + 4 * freeLen
                if buf.length < p + 4 then some (.error (.truncated buf.length))
                else do
                  let indexLen ← readU32? buf p
                  let indexLen := indexLen.toNat
                  let p := p + 4
                  if buf.length < p + indexLen * 12 then
                    some (.error (.badLength (indexLen * 12) (buf.length - p)))
                  else do
                    let rows ← Bytes.readItems? readSlot? 12 buf indexLen p
                    let index := rows.foldl
                      (fun (t : ExtTreeMap UInt64 UInt32) r => t.insert r.1 r.2) ∅
                    some (.ok ⟨instrumentId, ⟨bids, bidCount⟩, ⟨asks, askCount⟩,
                      ⟨data, freeList, index⟩⟩)

theorem readU32?_eq {buf : List UInt8} {p : Nat} (h : p + 4 ≤ buf.length) :
    readU32? buf p = some (readU32 buf p) := by
  rw [readU32?, Bytes.slice?_eq h]
  rfl

theorem readU64?_eq {buf : List UInt8} {p : Nat} (h : p + 8 ≤ buf.length) :
    readU64? buf p = some (readU64 buf p) := by
  rw [readU64?, Bytes.slice?_eq h]
  rfl

theorem readLevel?_eq (s : List UInt8) (h : s.length = 24) :
    readLevel? s = some (readLevel s) := by
  rw [readLevel?, readU64?_eq (by omega), readU64?_eq (by omega), readU32?_eq (by omega)]
  rfl

theorem readMeta?_eq (s : List UInt8) (h : s.length = 24) : readMeta? s = some (readMeta s) := by
  have hside : s[16]? = some (s.getD 16 0) := by
    rw [List.getD_eq_getElem?_getD, List.getElem?_eq_getElem (by omega)]
    rfl
  rw [readMeta?, readU64?_eq (by omega), readU64?_eq (by omega), hside]
  rfl

theorem readSlot?_eq (s : List UInt8) (h : s.length = 12) : readSlot? s = some (readSlot s) := by
  rw [readSlot?, readU64?_eq (by omega), readU32?_eq (by omega)]
  rfl

theorem HalfBook.fill?_eq {M : Nat} (v : Vector Level M) {i : Nat} {ls : List Level}
    (h : i + ls.length ≤ M) : fill? v i ls = some (fill v i ls) := by
  induction ls generalizing v i with
  | nil => rfl
  | cons l ls ih =>
    rw [List.length_cons] at h
    rw [fill?, fill, if_pos (by omega), ih _ (by omega)]

namespace HotOrderBook

/-- The decoder never panics: each read is covered by the checks before it. -/
theorem fromSnapshotBytes?_eq (M : Nat) (buf : List UInt8) :
    fromSnapshotBytes? M buf = some (fromSnapshotBytes M buf) := by
  rw [fromSnapshotBytes?, fromSnapshotBytes]
  refine some_of_check ?_
  intro hheader
  simp only [snapshotHeaderLen] at hheader
  refine some_of_bind (readU32?_eq (by omega)) ?_
  refine some_of_bind (readU32?_eq (by omega)) ?_
  refine some_of_bind (readU32?_eq (by omega)) ?_
  refine some_of_bind (readU32?_eq (by omega)) ?_
  refine some_of_check ?_
  intro _
  refine some_of_check ?_
  intro hcount
  obtain ⟨hbid, hask⟩ := not_or.mp hcount
  have hrows (n p : Nat) := Bytes.length_readItems readLevel 24 buf n p
  refine some_of_check ?_
  intro hgrid
  simp only [snapshotHeaderLen] at hgrid
  refine some_of_bind (Bytes.readItems?_eq readLevel?_eq (by rw [snapshotHeaderLen]; omega)) ?_
  refine some_of_bind (HalfBook.fill?_eq _ ?_) ?_
  · rw [hrows, Nat.zero_add]
    exact count_le_of_check hbid
  refine some_of_bind (Bytes.readItems?_eq readLevel?_eq (by rw [snapshotHeaderLen]; omega)) ?_
  refine some_of_bind (HalfBook.fill?_eq _ ?_) ?_
  · rw [hrows, Nat.zero_add]
    exact count_le_of_check hask
  refine some_of_check ?_
  intro hslab
  refine some_of_bind (readU32?_eq (by omega)) ?_
  refine some_of_check ?_
  intro hdata
  refine some_of_bind (Bytes.readItems?_eq readMeta?_eq (by omega)) ?_
  refine some_of_check ?_
  intro hfree
  refine some_of_bind (readU32?_eq (by omega)) ?_
  refine some_of_check ?_
  intro hslots
  refine some_of_bind (Bytes.readItems?_eq (fun s hs => readU32?_eq (by omega)) (by omega)) ?_
  refine some_of_check ?_
  intro hindex
  refine some_of_bind (readU32?_eq (by omega)) ?_
  refine some_of_check ?_
  intro hrest
  exact some_of_bind (Bytes.readItems?_eq readSlot?_eq (by omega)) rfl

/-- An accepted buffer holds every section that its counts declare. -/
theorem fromSnapshotBytes_fits {M : Nat} {buf : List UInt8} {b : HotOrderBook M}
    (h : fromSnapshotBytes M buf = .ok b) :
    16 ≤ buf.length ∧ SnapshotTable.slabAt buf + 4 ≤ buf.length ∧
    SnapshotTable.freeAt buf + 4 ≤ buf.length ∧ SnapshotTable.indexAt buf + 4 ≤ buf.length ∧
    SnapshotTable.endAt buf ≤ buf.length := by
  simp only [fromSnapshotBytes] at h
  obtain ⟨hheader, h⟩ := ok_of_check h
  obtain ⟨_, h⟩ := ok_of_check h
  obtain ⟨_, h⟩ := ok_of_check h
  obtain ⟨_, h⟩ := ok_of_check h
  obtain ⟨hslab, h⟩ := ok_of_check h
  obtain ⟨_, h⟩ := ok_of_check h
  obtain ⟨hfree, h⟩ := ok_of_check h
  obtain ⟨_, h⟩ := ok_of_check h
  obtain ⟨hindex, h⟩ := ok_of_check h
  obtain ⟨hend, h⟩ := ok_of_check h
  refine ⟨Nat.not_lt.mp hheader, Nat.not_lt.mp hslab, Nat.not_lt.mp hfree, Nat.not_lt.mp hindex, ?_⟩
  rw [SnapshotTable.endAt, Nat.mul_comm 12]
  exact Nat.not_lt.mp hend

end HotOrderBook

namespace SnapshotTable

/-- As far as the sections are there, a cut buffer declares what the whole buffer declares. -/
theorem endAt_cut {cut buf : List UInt8} (hc : cut <+: buf) (hheader : 16 ≤ cut.length)
    (hslab : slabAt cut + 4 ≤ cut.length) (hfree : freeAt cut + 4 ≤ cut.length)
    (hindex : indexAt cut + 4 ≤ cut.length) : endAt cut = endAt buf := by
  have read {p : Nat} (h : p + 4 ≤ cut.length) : readU32 cut p = readU32 buf p := by
    rw [readU32, readU32, Bytes.slice_prefix hc h]
  have hslabAt : slabAt cut = slabAt buf := by
    rw [slabAt, asksAt, read (by omega), read (by omega)]
    rfl
  have hfreeAt : freeAt cut = freeAt buf := by
    rw [freeAt, slabLen, read hslab, hslabAt]
    rfl
  have hindexAt : indexAt cut = indexAt buf := by
    rw [indexAt, freeLen, read hfree, hfreeAt]
    rfl
  rw [endAt, read hindex, hindexAt]
  rfl

end SnapshotTable

namespace HotOrderBook

/-- A snapshot ends where its own counts say. -/
theorem endAt_toSnapshotBytes {M : Nat} {b : HotOrderBook M} (h : b.Framed) :
    SnapshotTable.endAt b.toSnapshotBytes = b.toSnapshotBytes.length := by
  have hgrid := length_gridBytes h.bids h.asks
  obtain ⟨_, h4, h8, _⟩ := read_header b
  have hslab : SnapshotTable.slabAt b.toSnapshotBytes = b.gridBytes.length := by
    rw [SnapshotTable.slabAt, SnapshotTable.asksAt, h4, h8, snapshotHeaderLen, hgrid]
  obtain ⟨hd, _, hf, _, hi, _⟩ := read_slab h rfl rfl rfl
  have hfree : SnapshotTable.freeAt b.toSnapshotBytes =
      b.gridBytes.length + 4 + 24 * b.orders.data.length := by
    rw [SnapshotTable.freeAt, SnapshotTable.slabLen, hslab, hd]
  have hindex : SnapshotTable.indexAt b.toSnapshotBytes =
      b.gridBytes.length + 4 + 24 * b.orders.data.length + 4 + 4 * b.orders.freeList.length := by
    rw [SnapshotTable.indexAt, SnapshotTable.freeLen, hfree, hf]
  rw [SnapshotTable.endAt, hindex, hi, length_toSnapshotBytes h.bids h.asks, hgrid]

/-- No cut of a framed book's snapshot is accepted. -/
theorem fromSnapshotBytes_cut {M : Nat} {b : HotOrderBook M} (h : b.Framed) {cut : List UInt8}
    (hc : cut <+: b.toSnapshotBytes) (hne : cut ≠ b.toSnapshotBytes) :
    ∃ e, fromSnapshotBytes M cut = .error e := by
  cases hd : fromSnapshotBytes M cut with
  | error e => exact ⟨e, rfl⟩
  | ok c =>
    obtain ⟨hheader, hslab, hfree, hindex, hend⟩ := fromSnapshotBytes_fits hd
    rw [SnapshotTable.endAt_cut hc hheader hslab hfree hindex, endAt_toSnapshotBytes h] at hend
    exact absurd (hc.eq_of_length_le hend) hne

/-! With fewer than 2^32 slots every reachable book is framed, whatever its depth. -/

theorem kept_slab {M : Nat} :
    Kept (fun b : HotOrderBook M => b.orders.data.length < 2 ^ 32 → b.orders.Inv) where
  remove b orderId h hs := OrderSlab.inv_remove (h (by rwa [← OrderSlab.data_remove])) orderId
  setMeta b orderId m h hs :=
    OrderSlab.inv_setMeta (h (by rwa [OrderSlab.data_setMeta] at hs)) orderId m
  deductOn b isBid price qty release h := by rwa [deductOn_orders]
  tradeAnon b price qty isBid h := by rwa [tradeAnon, setHalf_orders]

theorem slab_addOrder {M : Nat} {b : HotOrderBook M}
    (h : b.orders.data.length < 2 ^ 32 → b.orders.Inv) (e : Event) :
    (b.addOrder e).1.orders.data.length < 2 ^ 32 → (b.addOrder e).1.orders.Inv := by
  apply addOrder_rule (P := fun c => c.orders.data.length < 2 ^ 32 → c.orders.Inv)
  · exact h
  · intro g _
    rwa [setHalf_orders]
  · intro c _ _ hc hs
    exact OrderSlab.inv_insert_of_short (hc ((OrderSlab.data_le_insert _ _ _).trans_lt hs)) hs

theorem slab_run {M : Nat} {b : HotOrderBook M}
    (h : b.orders.data.length < 2 ^ 32 → b.orders.Inv) (es : List Event) :
    (b.run es).orders.data.length < 2 ^ 32 → (b.run es).orders.Inv := by
  induction es generalizing b with
  | nil => exact h
  | cons e es ih => exact ih (kept_slab.apply (fun _ hc => hc) (fun _ hc => slab_addOrder hc e) h)

theorem framed_run (M : Nat) (instrumentId : UInt32) (es : List Event)
    (hs : ((new M instrumentId).run es).orders.data.length < 2 ^ 32) :
    ((new M instrumentId).run es).Framed := by
  have hslots := (slab_run (b := new M instrumentId) (fun _ => OrderSlab.inv_empty) es hs).slots
  have hcount : ((new M instrumentId).run es).bids.count.toNat ≤ M ∧
      ((new M instrumentId).run es).asks.count.toNat ≤ M := by
    by_cases hM : M < 2 ^ 32
    · have hg := gridInv_run (gridInv_new hM instrumentId) es
      exact ⟨hg.bids.count_le, hg.asks.count_le⟩
    · have hwide (c : UInt32) : c.toNat ≤ M := by
        have := c.toNat_lt
        omega
      exact ⟨hwide _, hwide _⟩
  exact ⟨hcount.1, hcount.2, hs, by omega, by omega⟩

end HotOrderBook

/-- The decoder returns on every buffer, and refuses every proper prefix of a reachable book's
snapshot as long as the slab has fewer than 2^32 slots. -/
theorem snapshot_reads_covered (M : Nat) :
    (∀ buf, HotOrderBook.fromSnapshotBytes? M buf = some (HotOrderBook.fromSnapshotBytes M buf)) ∧
    (∀ instrumentId es, ((HotOrderBook.new M instrumentId).run es).orders.data.length < 2 ^ 32 →
      ∀ cut, cut <+: ((HotOrderBook.new M instrumentId).run es).toSnapshotBytes →
        cut ≠ ((HotOrderBook.new M instrumentId).run es).toSnapshotBytes →
        ∃ e, HotOrderBook.fromSnapshotBytes M cut = .error e) :=
  ⟨HotOrderBook.fromSnapshotBytes?_eq M, fun instrumentId es hs _ hc hne =>
    HotOrderBook.fromSnapshotBytes_cut (HotOrderBook.framed_run M instrumentId es hs) hc hne⟩

/-- One order, cut inside the free list's length. -/
theorem snapshot_reads_covered_cut :
    ∃ e, HotOrderBook.fromSnapshotBytes 2
      (((HotOrderBook.new 2 1).run [⟨0, 10, 5, 1, 1, 1, 0⟩]).toSnapshotBytes.take 70) = .error e :=
  (snapshot_reads_covered 2).2 1 [⟨0, 10, 5, 1, 1, 1, 0⟩] (by decide) _ (List.take_prefix _ _)
    (by decide)

/-! A slab of 2^32 slots declares none, and its first cell is read as what follows it. -/

/-- The flooded book with a slab that spells the first cell's bytes. -/
def floodCut (b : HotOrderBook 256) : HotOrderBook 256 :=
  { b with orders := ⟨[], [0], (∅ : ExtTreeMap UInt64 UInt32).insert 0 0⟩ }

theorem framed_floodCut {b : HotOrderBook 256} (hb : b.bids.count.toNat ≤ 256)
    (ha : b.asks.count.toNat ≤ 256) : (floodCut b).Framed where
  bids := hb
  asks := ha
  data := by simp [floodCut]
  free := by simp [floodCut]
  index := by simp [floodCut, ExtTreeMap.size_insert]

theorem toSnapshotBytes_floodCut (b : HotOrderBook 256) :
    (floodCut b).toSnapshotBytes = b.gridBytes ++ (le32 0 ++ writeMeta ⟨1, 1, 0⟩) := by
  have hslab : le32 (UInt32.ofNat 0) ++ ([] ++ (le32 (UInt32.ofNat 1) ++ (le32 0 ++
      (le32 (UInt32.ofNat 1) ++
        ((∅ : ExtTreeMap UInt64 UInt32).insert 0 0).toList.flatMap writeSlot)))) =
      le32 0 ++ writeMeta ⟨1, 1, 0⟩ := by decide
  rw [HotOrderBook.toSnapshotBytes_eq, ← hslab]
  rfl

theorem floodCut_prefix {n : Nat} (hn : n = 2 ^ 32) {b : HotOrderBook 256}
    (hb : b = (HotOrderBook.new 256 0).run (flood n)) :
    (floodCut b).toSnapshotBytes <+: b.toSnapshotBytes ∧
      (floodCut b).toSnapshotBytes ≠ b.toSnapshotBytes := by
  obtain ⟨hlen, _, hfirst⟩ := HotOrderBook.slab_flood (n := n) (by omega)
  rw [← hb] at hlen hfirst
  obtain ⟨rest, hdata⟩ : ∃ rest, b.orders.data = ⟨1, 1, 0⟩ :: rest := by
    have h0 := hfirst (by omega)
    cases hd : b.orders.data with
    | nil => simp [hd] at h0
    | cons m rest => exact ⟨rest, by simpa [hd] using h0⟩
  have hzero : UInt32.ofNat n = 0 := by rw [hn]; decide
  rw [toSnapshotBytes_floodCut, HotOrderBook.toSnapshotBytes_eq b, hlen, hzero, hdata,
    List.flatMap_cons, List.append_assoc]
  constructor
  · rw [List.prefix_append_right_inj, List.prefix_append_right_inj]
    exact List.prefix_append _ _
  · intro he
    have hl := congrArg List.length he
    simp only [List.length_append, length_le32] at hl
    omega

theorem fromSnapshotBytes_floodCut {n : Nat} (hn : n = 2 ^ 32) : ∃ cut b,
    cut <+: ((HotOrderBook.new 256 0).run (flood n)).toSnapshotBytes ∧
    cut ≠ ((HotOrderBook.new 256 0).run (flood n)).toSnapshotBytes ∧
    HotOrderBook.fromSnapshotBytes 256 cut = .ok b := by
  obtain ⟨hi, _, _⟩ := HotOrderBook.run_flood (n := n) (by omega)
  obtain ⟨hc, hne⟩ := floodCut_prefix hn rfl
  have hf := framed_floodCut hi.grid.bids.count_le hi.grid.asks.count_le
  exact ⟨_, _, hc, hne, HotOrderBook.fromSnapshotBytes_framed (by norm_num) hf⟩

/-- The snapshot of 2^32 orders has a proper prefix that the decoder accepts. -/
theorem snapshot_cut_accepted : ∃ cut b,
    cut <+: ((HotOrderBook.new 256 0).run (flood (2 ^ 32))).toSnapshotBytes ∧
    cut ≠ ((HotOrderBook.new 256 0).run (flood (2 ^ 32))).toSnapshotBytes ∧
    HotOrderBook.fromSnapshotBytes 256 cut = .ok b :=
  fromSnapshotBytes_floodCut rfl

end Flowlab.Core
