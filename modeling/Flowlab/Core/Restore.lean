import Flowlab.Core.BookSnapshot
import Flowlab.Framework.Outcome

namespace Flowlab.Core

open Std Framework

/-! The tables of a snapshot, read at their offsets. -/

namespace SnapshotTable

def bids (buf : List UInt8) : List Level :=
  Bytes.readItems readLevel 24 buf (readU32 buf 4).toNat snapshotHeaderLen

def asksAt (buf : List UInt8) : Nat := snapshotHeaderLen + 24 * (readU32 buf 4).toNat

def asks (buf : List UInt8) : List Level :=
  Bytes.readItems readLevel 24 buf (readU32 buf 8).toNat (asksAt buf)

def slabAt (buf : List UInt8) : Nat := asksAt buf + 24 * (readU32 buf 8).toNat

def slabLen (buf : List UInt8) : Nat := (readU32 buf (slabAt buf)).toNat

def freeAt (buf : List UInt8) : Nat := slabAt buf + 4 + 24 * slabLen buf

def freeLen (buf : List UInt8) : Nat := (readU32 buf (freeAt buf)).toNat

def freeList (buf : List UInt8) : List UInt32 :=
  Bytes.readItems (fun s => readU32 s 0) 4 buf (freeLen buf) (freeAt buf + 4)

def indexAt (buf : List UInt8) : Nat := freeAt buf + 4 + 4 * freeLen buf

/-- The index entries that count: of several for one id the last. -/
def index (buf : List UInt8) : List (UInt64 × UInt32) :=
  FiniteMap.latest (Bytes.readItems readSlot 12 buf (readU32 buf (indexAt buf)).toNat (indexAt buf + 4))

/-- Where the last table ends. -/
def endAt (buf : List UInt8) : Nat := indexAt buf + 4 + 12 * (readU32 buf (indexAt buf)).toNat

/-- The tables fit together. The decoder checks none of this. -/
structure Consistent (buf : List UInt8) : Prop where
  slots : ∀ r ∈ index buf, r.2.toNat < slabLen buf ∧ r.2 ∉ freeList buf
  apart : ∀ r ∈ index buf, ∀ q ∈ index buf, r.2 = q.2 → r.1 = q.1
  free : ∀ slot ∈ freeList buf, slot.toNat < slabLen buf
  bids : (bids buf).Pairwise (fun l r => l.price > r.price)
  asks : (asks buf).Pairwise (fun l r => l.price < r.price)

end SnapshotTable

namespace HalfBook

theorem ladder_fill {M : Nat} {ls : List Level} {count : UInt32} (hlen : ls.length = count.toNat)
    (hM : count.toNat ≤ M) :
    (⟨fill (empty M).levels 0 ls, count⟩ : HalfBook M).ladder = ls := by
  rw [ladder, toList_fill _ _ _ (by omega), ← hlen]
  simp

end HalfBook

namespace HotOrderBook

/-- What slab and ladder code rely on. -/
structure Represents {M : Nat} (b : HotOrderBook M) : Prop where
  slot_lt : ∀ (k : UInt64) (slot : UInt32), b.orders.index[k]? = some slot →
    slot.toNat < b.orders.data.length
  slot_inj : ∀ (j k : UInt64) (slot : UInt32), b.orders.index[j]? = some slot →
    b.orders.index[k]? = some slot → j = k
  free_lt : ∀ slot ∈ b.orders.freeList, slot.toNat < b.orders.data.length
  free_unused : ∀ (k : UInt64) (slot : UInt32), b.orders.index[k]? = some slot →
    slot ∉ b.orders.freeList
  bids : b.bids.ladder.Pairwise (fun l r => l.price > r.price)
  asks : b.asks.ladder.Pairwise (fun l r => l.price < r.price)

/-- An accepted buffer is restored table by table. -/
theorem fromSnapshotBytes_tables {M : Nat} {buf : List UInt8} {b : HotOrderBook M}
    (h : fromSnapshotBytes M buf = .ok b) :
    b.instrumentId = readU32 buf 0 ∧
    b.bids.ladder = SnapshotTable.bids buf ∧ b.asks.ladder = SnapshotTable.asks buf ∧
    b.orders.data.length = SnapshotTable.slabLen buf ∧
    b.orders.freeList = SnapshotTable.freeList buf ∧
    ∀ (k : UInt64) (slot : UInt32),
      b.orders.index[k]? = some slot ↔ (k, slot) ∈ SnapshotTable.index buf := by
  simp only [fromSnapshotBytes] at h
  obtain ⟨_, h⟩ := ok_of_check h
  obtain ⟨_, h⟩ := ok_of_check h
  obtain ⟨hcount, h⟩ := ok_of_check h
  obtain ⟨_, h⟩ := ok_of_check h
  obtain ⟨_, h⟩ := ok_of_check h
  obtain ⟨_, h⟩ := ok_of_check h
  obtain ⟨_, h⟩ := ok_of_check h
  obtain ⟨_, h⟩ := ok_of_check h
  obtain ⟨_, h⟩ := ok_of_check h
  obtain ⟨_, h⟩ := ok_of_check h
  obtain rfl := Except.ok.inj h
  obtain ⟨hbid, hask⟩ := not_or.mp hcount
  refine ⟨rfl, ?_, ?_, ?_, rfl, ?_⟩
  · exact HalfBook.ladder_fill (Bytes.length_readItems _ _ _ _ _) (count_le_of_check hbid)
  · exact HalfBook.ladder_fill (Bytes.length_readItems _ _ _ _ _) (count_le_of_check hask)
  · exact Bytes.length_readItems _ _ _ _ _
  · intro k slot
    rw [FiniteMap.get_foldl_insert_latest, or_iff_left (by simp)]
    rfl

end HotOrderBook

/-- A restored book is sound exactly when the tables of the buffer fit together. -/
theorem restored_iff_consistent {M : Nat} {buf : List UInt8} {b : HotOrderBook M}
    (h : HotOrderBook.fromSnapshotBytes M buf = .ok b) :
    b.Represents ↔ SnapshotTable.Consistent buf := by
  obtain ⟨_, hbids, hasks, hlen, hfree, hindex⟩ := HotOrderBook.fromSnapshotBytes_tables h
  constructor
  · intro hr
    refine ⟨?_, ?_, ?_, ?_, ?_⟩
    · intro r hmem
      have hget := (hindex r.1 r.2).mpr hmem
      exact ⟨hlen ▸ hr.slot_lt r.1 r.2 hget, hfree ▸ hr.free_unused r.1 r.2 hget⟩
    · intro r hmem q hq he
      exact hr.slot_inj r.1 q.1 r.2 ((hindex r.1 r.2).mpr hmem) (he ▸ (hindex q.1 q.2).mpr hq)
    · rw [← hfree, ← hlen]
      exact hr.free_lt
    · rw [← hbids]
      exact hr.bids
    · rw [← hasks]
      exact hr.asks
  · intro hc
    refine ⟨?_, ?_, ?_, ?_, ?_, ?_⟩
    · intro k slot hk
      rw [hlen]
      exact (hc.slots (k, slot) ((hindex k slot).mp hk)).1
    · intro j k slot hj hk
      exact hc.apart (j, slot) ((hindex j slot).mp hj) (k, slot) ((hindex k slot).mp hk) rfl
    · rw [hfree, hlen]
      exact hc.free
    · intro k slot hk
      rw [hfree]
      exact (hc.slots (k, slot) ((hindex k slot).mp hk)).2
    · rw [hbids]
      exact hc.bids
    · rw [hasks]
      exact hc.asks

/-- No levels, an empty slab, and one index entry: id 7 in slot 0. -/
def strayIndex : List UInt8 :=
  le32 1 ++ le32 0 ++ le32 0 ++ le32 1 ++ le32 0 ++ le32 0 ++ le32 1 ++ writeSlot (7, 0)

/-- The decoder accepts an index entry for a slot that does not exist. -/
theorem restored_stray_index : ∃ b : HotOrderBook 1,
    HotOrderBook.fromSnapshotBytes 1 strayIndex = .ok b ∧ ¬ b.Represents := by
  refine ⟨_, rfl, ?_⟩
  intro hr
  exact absurd (hr.slot_lt 7 0 (by decide)) (by decide)

/-- One bid and its order, as a book writes them. -/
def oneOrder : List UInt8 :=
  le32 1 ++ le32 1 ++ le32 0 ++ le32 1 ++ writeLevel ⟨10, 5, 1⟩ ++ le32 1 ++
    writeMeta ⟨10, 5, 0⟩ ++ le32 0 ++ le32 1 ++ writeSlot (7, 0)

theorem restored_one_order : ∃ b : HotOrderBook 1,
    HotOrderBook.fromSnapshotBytes 1 oneOrder = .ok b ∧ b.Represents := by
  obtain ⟨b, hb⟩ : ∃ b : HotOrderBook 1, HotOrderBook.fromSnapshotBytes 1 oneOrder = .ok b :=
    ⟨_, rfl⟩
  have hindex : SnapshotTable.index oneOrder = [(7, 0)] := by decide
  have hfree : SnapshotTable.freeList oneOrder = [] := by decide
  have hbids : SnapshotTable.bids oneOrder = [⟨10, 5, 1⟩] := by decide
  have hasks : SnapshotTable.asks oneOrder = [] := by decide
  have hlen : SnapshotTable.slabLen oneOrder = 1 := by decide
  refine ⟨b, hb, (restored_iff_consistent hb).mpr ⟨?_, ?_, ?_, ?_, ?_⟩⟩
  · simp [hindex, hfree, hlen]
  · simp [hindex]
  · simp [hfree]
  · simp [hbids]
  · simp [hasks]

end Flowlab.Core
