import Flowlab.Core.CppBook
import Flowlab.Framework.Bytes

namespace Flowlab.Core

open Framework

/-- The two entry points of the third-party xxh3 that the books call. -/
structure Xxh3 where
  hash : List UInt8 → UInt64
  withSeed : List UInt8 → UInt64 → UInt64

def asciiBytes (s : String) : List UInt8 := s.toList.map (fun c => UInt8.ofNat c.toNat)

def domainTag : List UInt8 := asciiBytes "FLOWLAB-L2-v1"

def sideSeparator : List UInt8 := asciiBytes "|"

/-- The 16-byte buffer hashed for one level: price, then total quantity, little-endian. -/
def levelPayload (price totalQty : UInt64) : List UInt8 :=
  Bytes.toLe 8 price.toNat ++ Bytes.toLe 8 totalQty.toNat

def foldLevel (x : Xxh3) (h price totalQty : UInt64) : UInt64 :=
  h ^^^ x.withSeed (levelPayload price totalQty) h

def HotOrderBook.canonicalL2Hash {M : Nat} (x : Xxh3) (b : HotOrderBook M) : UInt64 :=
  let h := x.hash domainTag
  let h := b.bids.ladder.foldl (fun h l => foldLevel x h l.price l.totalQty) h
  let h := x.withSeed sideSeparator h
  b.asks.ladder.foldl (fun h l => foldLevel x h l.price l.totalQty) h

/-- The `for` loop of `flowlab_orderbook_hash` over the cells of one side. -/
def CppHalf.hashLoop {M : Nat} (x : Xxh3) (s : CppHalf M) (h : UInt64) : UInt64 :=
  (List.range s.count).foldl
    (fun h i => foldLevel x h (s.cell i).price (s.cell i).totalQty) h

def CppOrderBook.flowlabOrderbookHash {M : Nat} (x : Xxh3) (b : CppOrderBook M) : UInt64 :=
  let h := x.hash domainTag
  let h := b.bids.hashLoop x h
  let h := x.withSeed sideSeparator h
  b.asks.hashLoop x h

/-- An indexed loop over the first `count` cells is a fold over the ladder. -/
theorem CppHalf.hashLoop_eq {M : Nat} (x : Xxh3) {s : CppHalf M} (hc : s.count ≤ M) (h : UInt64) :
    s.hashLoop x h = s.ladder.foldl (fun h l => foldLevel x h l.price l.totalQty) h := by
  have hmap : (List.range s.count).map s.cell = s.ladder := by
    apply List.ext_getElem?
    intro i
    by_cases hi : i < s.count
    · have hlen : i < s.levels.toList.length := by simp; omega
      rw [CppHalf.ladder, List.getElem?_take_of_lt hi, List.getElem?_eq_getElem hlen,
        List.getElem?_map, List.getElem?_range hi, Option.map_some, CppHalf.cell,
        List.getD_eq_getElem _ _ hlen]
    · rw [List.getElem?_eq_none (by simp; omega), List.getElem?_eq_none (by simp [CppHalf.ladder]; omega)]
  rw [← hmap, List.foldl_map]
  rfl

end Flowlab.Core
