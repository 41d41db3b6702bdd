import Flowlab.Core.Book

namespace Flowlab.Core

open Framework

/-- The levels of a book by side and price. -/
abbrev Depth := Bool × UInt64 → Option Level

def alterAt (F : Depth) (a : Bool × UInt64) (f : Option Level → Option Level) : Depth :=
  Function.update F a (f (F a))

namespace Book

def depth (k : Book) : Depth := fun a => levelAt a.2 (k.side a.1)

theorem sorted_side {k : Book} (h : k.Sorted) (isBid : Bool) :
    KeyedList.Sorted Level.price (ahead isBid) (k.side isBid) := by
  cases isBid
  · exact h.asks
  · exact h.bids

theorem sorted_alterSide {k : Book} (h : k.Sorted) (isBid : Bool) {price : UInt64}
    {f : Option Level → Option Level} (hf : KeyedList.FilesUnder Level.price price f) :
    (k.alterSide isBid price f).Sorted := by
  cases isBid
  · exact ⟨h.bids, KeyedList.sorted_alter hf _ h.asks⟩
  · exact ⟨KeyedList.sorted_alter hf _ h.bids, h.asks⟩

theorem depth_alterSide {k : Book} (h : k.Sorted) (isBid : Bool) {price : UInt64}
    {f : Option Level → Option Level} (hf : KeyedList.FilesUnder Level.price price f) :
    (k.alterSide isBid price f).depth = alterAt k.depth (isBid, price) f := by
  have hl (j : UInt64) := KeyedList.lookup_alter hf (k.side isBid) (sorted_side h isBid) j
  funext a
  obtain ⟨i, j⟩ := a
  by_cases hi : i = isBid
  · subst hi
    have hside : (k.alterSide i price f).side i =
        KeyedList.alter Level.price (ahead i) price f (k.side i) := by cases i <;> rfl
    rw [depth, hside]
    refine (hl j).trans ?_
    by_cases hj : j = price
    · rw [if_pos hj, hj, alterAt, Function.update_self]
      rfl
    · rw [if_neg hj, alterAt, Function.update_of_ne (by simp [hj])]
      rfl
  · have hside : (k.alterSide isBid price f).side i = k.side i := by
      cases i <;> cases isBid <;> first | rfl | exact absurd rfl hi
    rw [depth, hside, alterAt, Function.update_of_ne (by simp [hi])]
    rfl

theorem depth_inj {k k' : Book} (h : k.Sorted) (h' : k'.Sorted) (hd : k.depth = k'.depth) :
    k.bids = k'.bids ∧ k.asks = k'.asks :=
  ⟨KeyedList.ext _ _ h.bids h'.bids (fun p => congrFun hd (true, p)),
    KeyedList.ext _ _ h.asks h'.asks (fun p => congrFun hd (false, p))⟩

theorem depth_files {k : Book} {a : Bool × UInt64} {l : Level} (h : k.depth a = some l) :
    l.price = a.2 := KeyedList.key_of_lookup h

end Book

end Flowlab.Core
