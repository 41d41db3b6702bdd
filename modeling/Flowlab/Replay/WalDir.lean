import Flowlab.Replay.Wal

namespace Flowlab.Replay.Wal

open Std Framework

/-- The twenty digits of a segment's name. -/
def paddedDigits (idx : UInt64) : List Char :=
  List.replicate (20 - (Nat.toDigits 10 idx.toNat).length) '0' ++ Nat.toDigits 10 idx.toNat

theorem segmentPath_eq (idx : UInt64) : segmentPath idx =
    ['w', 'a', 'l', '-'] ++ (paddedDigits idx ++ ['.', 'l', 'o', 'g']) := rfl

theorem isDigit_of_mem_paddedDigits {idx : UInt64} {ch : Char} (h : ch ∈ paddedDigits idx) :
    ch.isDigit = true := by
  rcases List.mem_append.mp h with hzero | hdigit
  · rw [List.eq_of_mem_replicate hzero]
    decide
  · exact Nat.isDigit_of_mem_toDigits (by decide) (by decide) hdigit

theorem ofDigitChars_paddedDigits (idx : UInt64) :
    Nat.ofDigitChars 10 (paddedDigits idx) 0 = idx.toNat := by
  rw [paddedDigits, Nat.ofDigitChars_append, Nat.ofDigitChars_replicate_zero, Nat.mul_zero,
    Nat.ofDigitChars_ten_toDigits]

theorem parseU64_paddedDigits (idx : UInt64) : parseU64 (paddedDigits idx) = some idx := by
  have hne : paddedDigits idx ≠ [] := by
    intro h
    exact Nat.toDigits_ne_nil (List.append_eq_nil_iff.mp h).2
  have hplus : (paddedDigits idx).head? ≠ some '+' := by
    intro h
    have hdigit := isDigit_of_mem_paddedDigits (List.mem_of_head? h)
    exact absurd hdigit (by decide)
  have hall : (paddedDigits idx).all Char.isDigit = true :=
    List.all_eq_true.mpr (fun ch hch => isDigit_of_mem_paddedDigits hch)
  simp only [parseU64, if_neg hplus, if_neg hne, hall, if_true, ofDigitChars_paddedDigits,
    if_pos idx.toNat_lt, UInt64.ofNat_toNat]

/-- A segment's name is read back as its index. -/
theorem pushSegment_segmentPath (out : List UInt64) (idx : UInt64) :
    pushSegment out (segmentPath idx) = .ok (out ++ [idx]) := by
  have hstrip : ((segmentPath idx).dropPrefix? ['w', 'a', 'l', '-']).bind
      (·.dropSuffix? ['.', 'l', 'o', 'g']) = some (paddedDigits idx) := by
    rw [segmentPath_eq, List.dropPrefix?_append_of_beq _ (by decide), Option.bind_some]
    exact List.dropSuffix?_eq_some_iff.mpr ⟨_, rfl, by decide⟩
  simp only [pushSegment, hstrip, parseU64_paddedDigits]

theorem segmentPath_injective : Function.Injective segmentPath := by
  intro i j h
  have heq := pushSegment_segmentPath [] i
  rw [h, pushSegment_segmentPath] at heq
  simpa using heq.symm

theorem foldlM_pushSegment (out is : List UInt64) :
    (is.map segmentPath).foldlM pushSegment out = .ok (out ++ is) := by
  induction is generalizing out with
  | nil => simp [pure, Except.pure]
  | cons i is ih =>
    rw [List.map_cons, List.foldlM_cons, pushSegment_segmentPath]
    show (is.map segmentPath).foldlM pushSegment (out ++ [i]) = _
    rw [ih, List.append_assoc]
    rfl

/-- The indices of the first `n` segments. -/
def firstSegments (n : Nat) : List UInt64 := (List.range n).map UInt64.ofNat

/-- The directory holds one segment for each content, numbered from zero, and nothing else. -/
structure Holds (dir : Directory) (contents : List (List UInt8)) : Prop where
  count : contents.length ≤ 2 ^ 64
  content : ∀ (i : Nat) (c : List UInt8), contents[i]? = some c →
    dir[segmentPath (UInt64.ofNat i)]? = some c
  fits : ∀ c ∈ contents, c.length < 2 ^ 64
  named : ∀ (name : List Char) (c : List UInt8), dir[name]? = some c →
    ∃ i < contents.length, name = segmentPath (UInt64.ofNat i)

theorem ofNat_injOn {i j n : Nat} (hn : n ≤ 2 ^ 64) (hi : i < n) (hj : j < n)
    (h : UInt64.ofNat i = UInt64.ofNat j) : i = j := by
  have heq := congrArg UInt64.toNat h
  rwa [UInt64.toNat_ofNat_of_lt' (show i < 2 ^ 64 by omega),
    UInt64.toNat_ofNat_of_lt' (show j < 2 ^ 64 by omega)] at heq

theorem mem_firstSegments {n : Nat} {idx : UInt64} :
    idx ∈ firstSegments n ↔ ∃ i < n, idx = UInt64.ofNat i := by
  simp only [firstSegments, List.mem_map, List.mem_range]
  constructor
  · intro hidx
    obtain ⟨i, hi, rfl⟩ := hidx
    exact ⟨i, hi, rfl⟩
  · intro hidx
    obtain ⟨i, hi, rfl⟩ := hidx
    exact ⟨i, hi, rfl⟩

theorem pairwise_firstSegments {n : Nat} (hn : n ≤ 2 ^ 64) :
    (firstSegments n).Pairwise (· < ·) := by
  refine List.pairwise_map.mpr (List.Pairwise.imp_of_mem ?_ List.pairwise_lt_range)
  intro i j hi hj hij
  rw [List.mem_range] at hi hj
  rw [UInt64.lt_iff_toNat_lt, UInt64.toNat_ofNat_of_lt' (show i < 2 ^ 64 by omega),
    UInt64.toNat_ofNat_of_lt' (show j < 2 ^ 64 by omega)]
  exact hij

theorem mem_keys_iff {dir : Directory} {name : List Char} :
    name ∈ dir.keys ↔ ∃ c, dir[name]? = some c := by
  rw [ExtTreeMap.mem_keys, ExtTreeMap.mem_iff_isSome_getElem?, Option.isSome_iff_exists]

/-- The files of a well-formed directory are those of its segments, in the order of their names. -/
theorem keys_eq_map {dir : Directory} {contents : List (List UInt8)} (h : Holds dir contents) :
    ∃ is : List UInt64, dir.keys = is.map segmentPath ∧ is.Perm (firstSegments contents.length) := by
  have hrange : dir.keys ∈ Set.range (List.map segmentPath) := by
    rw [Set.range_list_map]
    intro name hname
    obtain ⟨c, hc⟩ := mem_keys_iff.mp hname
    obtain ⟨i, -, rfl⟩ := h.named name c hc
    exact ⟨_, rfl⟩
  obtain ⟨is, his⟩ := hrange
  have hnodup : is.Nodup := by
    have hkeys : dir.keys.Nodup := ExtTreeMap.nodup_keys
    rw [← his] at hkeys
    exact List.Nodup.of_map _ hkeys
  have hmem : ∀ idx, idx ∈ is ↔ idx ∈ firstSegments contents.length := by
    intro idx
    have hdir : idx ∈ is ↔ segmentPath idx ∈ dir.keys := by
      rw [← his, List.mem_map_of_injective segmentPath_injective]
    rw [hdir, mem_keys_iff, mem_firstSegments]
    constructor
    · intro hfile
      obtain ⟨c, hc⟩ := hfile
      obtain ⟨i, hi, hname⟩ := h.named _ c hc
      exact ⟨i, hi, segmentPath_injective hname⟩
    · intro hidx
      obtain ⟨i, hi, rfl⟩ := hidx
      exact ⟨_, h.content i _ (List.getElem?_eq_getElem hi)⟩
  have hfirst : (firstSegments contents.length).Nodup :=
    (pairwise_firstSegments h.count).imp (fun hlt => UInt64.ne_of_lt hlt)
  exact ⟨is, his.symm, (List.perm_ext_iff_of_nodup hnodup hfirst).mpr hmem⟩

/-- Sorting puts the segments of a well-formed directory in the order they were made. -/
theorem listSegments_eq {dir : Directory} {contents : List (List UInt8)} (h : Holds dir contents) :
    listSegments dir = .ok (firstSegments contents.length) := by
  obtain ⟨is, hkeys, hperm⟩ := keys_eq_map h
  have hsorted : is.insertionSort (· ≤ ·) = firstSegments contents.length :=
    List.Perm.eq_of_pairwise (fun a b _ _ hab hba => UInt64.le_antisymm hab hba)
      (List.pairwise_insertionSort _ is)
      ((pairwise_firstSegments h.count).imp UInt64.le_of_lt)
      ((List.perm_insertionSort _ is).trans hperm)
  rw [listSegments, hkeys, foldlM_pushSegment]
  show Except.ok (is.insertionSort (· ≤ ·)) = _
  rw [hsorted]

end Flowlab.Replay.Wal
