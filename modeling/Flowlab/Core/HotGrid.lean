import Flowlab.Core.HotBook
import Flowlab.Core.Book

namespace Flowlab.Core

open Framework

namespace HalfBook

/-- A well-formed side: the count stays in the array and the live cells are strictly ordered. -/
structure Inv {M : Nat} (isBid : Bool) (h : HalfBook M) : Prop where
  depth : M < 2 ^ 32
  count_le : h.count.toNat ≤ M
  sorted : KeyedList.Sorted Level.price (ahead isBid) h.ladder

/-- What `Inv` says of the side itself, whatever its depth. -/
structure Wf {M : Nat} (isBid : Bool) (h : HalfBook M) : Prop where
  count_le : h.count.toNat ≤ M
  sorted : KeyedList.Sorted Level.price (ahead isBid) h.ladder

/-- One level more does not wrap the 32-bit count. -/
def Grows {M : Nat} (h : HalfBook M) : Prop := M < 2 ^ 32 ∨ h.count.toNat + 1 < 2 ^ 32

theorem Inv.wf {M : Nat} {isBid : Bool} {h : HalfBook M} (hi : h.Inv isBid) : h.Wf isBid :=
  ⟨hi.count_le, hi.sorted⟩

theorem Inv.grows {M : Nat} {isBid : Bool} {h : HalfBook M} (hi : h.Inv isBid) : h.Grows :=
  Or.inl hi.depth

theorem Wf.inv {M : Nat} {isBid : Bool} {h : HalfBook M} (hw : h.Wf isBid) (hM : M < 2 ^ 32) :
    h.Inv isBid :=
  ⟨hM, hw.count_le, hw.sorted⟩

/-- Every cell at or past the count holds `Level::default()`. -/
def Clean {M : Nat} (h : HalfBook M) : Prop :=
  h.levels.toList.drop h.count.toNat = List.replicate (M - h.count.toNat) default

theorem wf_empty (M : Nat) (isBid : Bool) : (empty M).Wf isBid where
  count_le := by simp [empty]
  sorted := by simp [empty, ladder, KeyedList.Sorted]

theorem clean_empty (M : Nat) : (empty M).Clean := by
  simp [Clean, empty]

theorem ladder_length {M : Nat} {h : HalfBook M} (hc : h.count.toNat ≤ M) :
    h.ladder.length = h.count.toNat := by
  simp [ladder, hc]

theorem insertionPoint_eq {M : Nat} (h : HalfBook M) (isBid : Bool) (price : UInt64) :
    h.insertionPoint isBid price = KeyedList.rank Level.price (ahead isBid) price h.ladder := by
  cases isBid <;> simp [insertionPoint, partitionPoint, KeyedList.rank, ahead]

theorem ladder_cell {M : Nat} {h : HalfBook M} (hc : h.count.toNat ≤ M) {i : Nat}
    (hi : i < h.count.toNat) : h.ladder[i]? = some (h.cell i) := by
  have hlen : i < h.levels.toList.length := by simp; omega
  rw [ladder, List.getElem?_take_of_lt hi, cell, List.getD_eq_getElem _ _ hlen,
    List.getElem?_eq_getElem hlen]

/-- A hit of `find_level` is the rank of the price and holds the level filed there. -/
theorem findLevel_some {M : Nat} {isBid : Bool} {h : HalfBook M} (hi : h.Wf isBid)
    {price : UInt64} {i : Nat} (hf : h.findLevel isBid price = some i) :
    i < h.count.toNat ∧ i = KeyedList.rank Level.price (ahead isBid) price h.ladder ∧
      (h.cell i).price = price ∧ levelAt price h.ladder = some (h.cell i) := by
  simp only [findLevel, insertionPoint_eq] at hf
  split_ifs at hf with hc
  have he := Option.some.inj hf
  rw [he] at hc
  refine ⟨hc.1, he.symm, hc.2, ?_⟩
  rw [levelAt, KeyedList.lookup_eq_rank price h.ladder hi.sorted, he, ladder_cell hi.count_le hc.1]
  simp [hc.2, Option.filter]

theorem findLevel_none {M : Nat} {isBid : Bool} {h : HalfBook M} (hi : h.Wf isBid)
    {price : UInt64} (hf : h.findLevel isBid price = none) :
    levelAt price h.ladder = none ∧
      ∀ l, h.ladder[KeyedList.rank Level.price (ahead isBid) price h.ladder]? = some l →
        l.price ≠ price := by
  have miss : ∀ l, h.ladder[KeyedList.rank Level.price (ahead isBid) price h.ladder]? = some l →
      l.price ≠ price := by
    intro l hl hp
    simp only [findLevel, insertionPoint_eq] at hf
    have hlt := (List.getElem?_eq_some_iff.mp hl).1
    rw [ladder_length hi.count_le] at hlt
    have hcell := ladder_cell hi.count_le hlt
    rw [hl] at hcell
    rw [if_pos ⟨hlt, by rw [← Option.some.inj hcell]; exact hp⟩] at hf
    exact absurd hf (by simp)
  refine ⟨?_, miss⟩
  rw [levelAt, KeyedList.lookup_eq_rank price h.ladder hi.sorted]
  cases hl : h.ladder[KeyedList.rank Level.price (ahead isBid) price h.ladder]? with
  | none => rfl
  | some l => simp [Option.filter, miss l hl]

theorem setCell_toList {M : Nat} (h : HalfBook M) (i : Nat) (l : Level) :
    (h.setCell i l).levels.toList = h.levels.toList.set i l := by
  simp [setCell, Vector.toList_setIfInBounds]

theorem setCell_ladder {M : Nat} (h : HalfBook M) (hc : h.count.toNat ≤ M) {i : Nat}
    (hi : i < h.count.toNat) (l : Level) :
    (h.setCell i l).ladder = h.ladder.take i ++ [l] ++ h.ladder.drop (i + 1) := by
  have hlt : i < h.ladder.length := by rw [ladder_length hc]; exact hi
  change ((h.setCell i l).levels.toList.take h.count.toNat) = _
  rw [setCell_toList, List.take_set]
  change h.ladder.set i l = _
  rw [List.set_eq_take_append_cons_drop, if_pos hlt]
  simp

theorem setCell_clean {M : Nat} {h : HalfBook M} (hc : h.Clean) {i : Nat}
    (hi : i < h.count.toNat) (l : Level) : (h.setCell i l).Clean := by
  change (h.setCell i l).levels.toList.drop h.count.toNat = _
  rw [setCell_toList, List.drop_set_of_lt hi]
  exact hc

theorem removeLevel_ladder {M : Nat} (h : HalfBook M) (hc : h.count.toNat ≤ M)
    {i : Nat} (hi : i < h.count.toNat) :
    (h.removeLevel i).count.toNat = h.count.toNat - 1 ∧
    (h.removeLevel i).ladder = h.ladder.take i ++ h.ladder.drop (i + 1) ∧
    (h.Clean → (h.removeLevel i).Clean) := by
  have hmove : (if i < h.count.toNat - 1 then
      FixedArray.memmove h.levels i (i + 1) (h.count.toNat - i - 1) else h.levels) =
      FixedArray.memmove h.levels i (i + 1) (h.count.toNat - i - 1) := by
    split_ifs with hlt
    · rfl
    · have hz : h.count.toNat - i - 1 = 0 := by omega
      rw [hz, FixedArray.memmove_zero]
  have hcount : (h.removeLevel i).count.toNat = h.count.toNat - 1 :=
    UInt32.toNat_ofNat_of_lt' (show h.count.toNat - 1 < 2 ^ 32 from (Nat.sub_le _ _).trans_lt h.count.toNat_lt)
  have hlist : (h.removeLevel i).levels.toList =
      (FixedArray.memmove h.levels i (i + 1) (h.count.toNat - i - 1)).toList.set
        (h.count.toNat - 1) default := by
    simp only [removeLevel, hmove]
    simp [Vector.toList_setIfInBounds]
  obtain ⟨ht, hd⟩ := FixedArray.close_slot h.levels h.count.toNat i default hi hc
  refine ⟨hcount, ?_, ?_⟩
  · rw [ladder, hcount, hlist, ht]
    rfl
  · intro hcl
    have hsub : M - (h.count.toNat - 1) = (M - h.count.toNat) + 1 := by omega
    rw [Clean, hcount, hlist, hd, hcl, hsub, List.replicate_succ]

/-- An update that alters the ladder at one price leaves it ordered. -/
theorem wf_of_alter {M : Nat} {isBid : Bool} {h h' : HalfBook M} (hi : h.Wf isBid)
    {price : UInt64} {f : Option Level → Option Level} (hf : KeyedList.FilesUnder Level.price price f)
    (hc : h'.count.toNat ≤ M)
    (hl : h'.ladder = KeyedList.alter Level.price (ahead isBid) price f h.ladder) :
    h'.Wf isBid where
  count_le := hc
  sorted := by rw [hl]; exact KeyedList.sorted_alter hf h.ladder hi.sorted

/-- Rewriting the level found at `price` in place, as an `alter` of the ladder. -/
theorem setCell_spec {M : Nat} {isBid : Bool} {h : HalfBook M} (hi : h.Wf isBid)
    {price : UInt64} {i : Nat} (hf : h.findLevel isBid price = some i) {f : Option Level → Option Level}
    (hk : KeyedList.FilesUnder Level.price price f) {l : Level} (hl : f (some (h.cell i)) = some l) :
    (h.setCell i l).Wf isBid ∧
      (h.setCell i l).ladder = KeyedList.alter Level.price (ahead isBid) price f h.ladder := by
  obtain ⟨hlt, hr, hp, _⟩ := findLevel_some hi hf
  have hcell := ladder_cell hi.count_le hlt
  rw [hr] at hcell
  have halter : (h.setCell i l).ladder =
      KeyedList.alter Level.price (ahead isBid) price f h.ladder := by
    rw [setCell_ladder h hi.count_le hlt l, KeyedList.alter_at_rank hcell (by rw [← hr]; exact hp), ← hr, hl]
    rfl
  exact ⟨wf_of_alter hi hk hi.count_le halter, halter⟩

/-- Dropping the level found at `price`, after its cell was rewritten, as an `alter`. -/
theorem removeLevel_spec {M : Nat} {isBid : Bool} {h : HalfBook M} (hi : h.Wf isBid)
    {price : UInt64} {i : Nat} (hf : h.findLevel isBid price = some i) {f : Option Level → Option Level}
    (hk : KeyedList.FilesUnder Level.price price f) (hl : f (some (h.cell i)) = none) (l : Level) :
    ((h.setCell i l).removeLevel i).Wf isBid ∧
      ((h.setCell i l).removeLevel i).ladder =
        KeyedList.alter Level.price (ahead isBid) price f h.ladder := by
  obtain ⟨hlt, hr, hp, _⟩ := findLevel_some hi hf
  have hcount : (h.setCell i l).count = h.count := rfl
  obtain ⟨hc, hrem, _⟩ := removeLevel_ladder (h.setCell i l) hi.count_le hlt
  rw [hcount] at hc
  have hcell := ladder_cell hi.count_le hlt
  rw [hr] at hcell
  have hil : i < h.ladder.length := by rw [ladder_length hi.count_le]; exact hlt
  have htake : (h.ladder.take i).length = i := List.length_take_of_le hil.le
  have halter : ((h.setCell i l).removeLevel i).ladder =
      KeyedList.alter Level.price (ahead isBid) price f h.ladder := by
    rw [hrem, KeyedList.alter_at_rank hcell (by rw [← hr]; exact hp), ← hr, hl,
      setCell_ladder h hi.count_le hlt l]
    simp [List.drop_append, htake]
  exact ⟨wf_of_alter hi hk (by have := hi.count_le; omega) halter, halter⟩

/-- Clearing the array tail survives both ways a deduction can end. -/
theorem Wf.deduct_clean {M : Nat} {isBid : Bool} {h : HalfBook M} (hi : h.Wf isBid) (hc : h.Clean)
    (price qty : UInt64) (release : Bool) : (h.deduct isBid price qty release).1.Clean := by
  simp only [deduct]
  cases hf : h.findLevel isBid price with
  | none => exact hc
  | some i =>
    have hlt := (findLevel_some hi hf).1
    dsimp only
    split_ifs
    · exact (removeLevel_ladder (h.setCell i _) hi.count_le hlt).2.2
        (setCell_clean hc hlt _)
    · exact setCell_clean hc hlt _
    · exact setCell_clean hc hlt _

theorem Wf.deductAnon_clean {M : Nat} {isBid : Bool} {h : HalfBook M} (hi : h.Wf isBid) (hc : h.Clean)
    (price qty : UInt64) : (h.deductAnon isBid price qty).1.Clean := by
  simp only [deductAnon]
  cases hf : h.findLevel isBid price with
  | none => exact hc
  | some i =>
    have hlt := (findLevel_some hi hf).1
    dsimp only
    split_ifs
    · exact (removeLevel_ladder (h.setCell i _) hi.count_le hlt).2.2
        (setCell_clean hc hlt _)
    · exact setCell_clean hc hlt _
    · exact setCell_clean hc hlt _

theorem Wf.deduct_spec {M : Nat} {isBid : Bool} {h : HalfBook M} (hi : h.Wf isBid)
    (price qty : UInt64) (release : Bool) :
    (h.deduct isBid price qty release).1.Wf isBid ∧
    (h.deduct isBid price qty release).1.ladder =
      KeyedList.alter Level.price (ahead isBid) price (deducted qty release) h.ladder ∧
    (h.deduct isBid price qty release).2 = (levelAt price h.ladder).isSome := by
  have hk := deducted_files price qty release
  simp only [deduct]
  cases hf : h.findLevel isBid price with
  | none =>
    obtain ⟨hn, hmiss⟩ := findLevel_none hi hf
    refine ⟨hi, ?_, by simp [hn]⟩
    rw [KeyedList.alter_off_rank hmiss]
    simp [deducted]
  | some i =>
    obtain ⟨_, _, _, hlev⟩ := findLevel_some hi hf
    simp only [hlev, Option.isSome_some]
    split_ifs with hrel hzero
    · have hg := removeLevel_spec hi hf hk (by simp [deducted, hrel, hzero])
      exact ⟨(hg _).1, (hg _).2, rfl⟩
    · have hg := setCell_spec hi hf hk (by simp only [deducted, hrel, if_true]; rw [if_neg hzero])
      exact ⟨hg.1, hg.2, rfl⟩
    · have hg := setCell_spec hi hf hk (by simp only [deducted]; rw [if_neg hrel])
      exact ⟨hg.1, hg.2, rfl⟩

theorem Wf.deductAnon_spec {M : Nat} {isBid : Bool} {h : HalfBook M} (hi : h.Wf isBid)
    (price qty : UInt64) :
    (h.deductAnon isBid price qty).1.Wf isBid ∧
    (h.deductAnon isBid price qty).1.ladder =
      KeyedList.alter Level.price (ahead isBid) price (deductedAnon qty) h.ladder ∧
    (h.deductAnon isBid price qty).2 = (levelAt price h.ladder).isSome := by
  have hk := deductedAnon_files price qty
  simp only [deductAnon]
  cases hf : h.findLevel isBid price with
  | none =>
    obtain ⟨hn, hmiss⟩ := findLevel_none hi hf
    refine ⟨hi, ?_, by simp [hn]⟩
    rw [KeyedList.alter_off_rank hmiss]
    simp [deductedAnon]
  | some i =>
    obtain ⟨_, _, _, hlev⟩ := findLevel_some hi hf
    simp only [hlev, Option.isSome_some]
    split_ifs with hempty hzero
    · have hg := removeLevel_spec hi hf hk (by simp [deductedAnon, hempty, hzero])
      exact ⟨(hg _).1, (hg _).2, rfl⟩
    · have hg := setCell_spec hi hf hk
        (by simp only [deductedAnon]; rw [if_pos hempty, if_neg hzero])
      exact ⟨hg.1, hg.2, rfl⟩
    · have hg := setCell_spec hi hf hk (by simp only [deductedAnon]; rw [if_neg hempty])
      exact ⟨hg.1, hg.2, rfl⟩

/-- Opening a new level on a grid that still has a free one, as an `alter`. -/
theorem openLevel_spec {M : Nat} {isBid : Bool} {h : HalfBook M} (hi : h.Wf isBid)
    {price : UInt64} (qty : UInt64) (hf : h.findLevel isBid price = none) (hroom : h.count.toNat < M)
    (hgrow : h.Grows) {h' : HalfBook M} (hcount : h'.count = UInt32.ofNat (h.count.toNat + 1))
    (hlevels : h'.levels.toList = (FixedArray.memmove h.levels (h.insertionPoint isBid price + 1)
      (h.insertionPoint isBid price) (h.count.toNat - h.insertionPoint isBid price)).toList.set
        (h.insertionPoint isBid price) ⟨price, qty, 1⟩) :
    h'.Wf isBid ∧
      h'.ladder = KeyedList.alter Level.price (ahead isBid) price (added price qty) h.ladder ∧
      (h.Clean → h'.Clean) := by
  obtain ⟨_, hmiss⟩ := findLevel_none hi hf
  have hc : h'.count.toNat = h.count.toNat + 1 := by
    rw [hcount]
    exact UInt32.toNat_ofNat_of_lt' (show h.count.toNat + 1 < 2 ^ 32 by
      rcases hgrow with hM | hlt <;> omega)
  have hpos : h.insertionPoint isBid price ≤ h.count.toNat := by
    rw [insertionPoint_eq, ← ladder_length hi.count_le]
    exact KeyedList.rank_le price h.ladder
  obtain ⟨ht, hd⟩ := FixedArray.open_slot h.levels h.count.toNat _ ⟨price, qty, 1⟩ hpos hroom
  have halter : h'.ladder =
      KeyedList.alter Level.price (ahead isBid) price (added price qty) h.ladder := by
    rw [KeyedList.alter_off_rank hmiss, ← insertionPoint_eq, ladder, hc, hlevels, ht]
    rfl
  refine ⟨wf_of_alter hi (added_files price qty) (by omega) halter, halter, ?_⟩
  intro hcl
  have htail := congrArg (List.drop 1) hcl
  rw [List.drop_drop, List.drop_replicate] at htail
  rw [Clean, hc, hlevels, hd, htail, Nat.sub_sub]

theorem Wf.addLevel_spec {M : Nat} {isBid : Bool} {h : HalfBook M} (hi : h.Wf isBid)
    (hgrow : h.Grows) (price qty : UInt64) :
    (h.addLevel isBid price qty = none →
      levelAt price h.ladder = none ∧ M ≤ h.ladder.length) ∧
    (∀ h', h.addLevel isBid price qty = some h' →
      h'.Wf isBid ∧
      h'.ladder = KeyedList.alter Level.price (ahead isBid) price (added price qty) h.ladder ∧
      ¬ (levelAt price h.ladder = none ∧ M ≤ h.ladder.length) ∧ (h.Clean → h'.Clean)) := by
  have hfind : h.findLevel isBid price = if h.insertionPoint isBid price < h.count.toNat ∧
      (h.cell (h.insertionPoint isBid price)).price = price
      then some (h.insertionPoint isBid price) else none := rfl
  have hmove : (if h.insertionPoint isBid price < h.count.toNat then
      FixedArray.memmove h.levels (h.insertionPoint isBid price + 1)
        (h.insertionPoint isBid price) (h.count.toNat - h.insertionPoint isBid price)
      else h.levels) =
      FixedArray.memmove h.levels (h.insertionPoint isBid price + 1)
        (h.insertionPoint isBid price) (h.count.toNat - h.insertionPoint isBid price) := by
    split_ifs with hlt
    · rfl
    · have hz : h.count.toNat - h.insertionPoint isBid price = 0 := by omega
      rw [hz, FixedArray.memmove_zero]
  simp only [addLevel, hmove]
  split_ifs at hfind ⊢ with hhit hfull
  · refine ⟨fun h => absurd h (by simp), ?_⟩
    intro h' he
    have hg := setCell_spec hi hfind (added_files price qty) rfl
    rw [← Option.some.inj he]
    exact ⟨hg.1, hg.2, by simp [(findLevel_some hi hfind).2.2.2],
      fun hcl => setCell_clean hcl hhit.1 _⟩
  · refine ⟨fun _ => ⟨(findLevel_none hi hfind).1, ?_⟩, fun h' he => absurd he (by simp)⟩
    rw [ladder_length hi.count_le]
    exact hfull
  · refine ⟨fun h => absurd h (by simp), ?_⟩
    intro h' he
    have hg : h'.Wf isBid ∧ h'.ladder =
        KeyedList.alter Level.price (ahead isBid) price (added price qty) h.ladder ∧
        (h.Clean → h'.Clean) := by
      refine openLevel_spec hi qty hfind (by omega) hgrow ?_ ?_
      · rw [← Option.some.inj he]
      · rw [← Option.some.inj he]
        simp [Vector.toList_setIfInBounds]
    refine ⟨hg.1, hg.2.1, ?_, hg.2.2⟩
    rw [ladder_length hi.count_le]
    exact fun hcon => hfull hcon.2

/-! The same for a side whose depth is known to fit the count. -/

theorem deduct_spec {M : Nat} {isBid : Bool} {h : HalfBook M} (hi : h.Inv isBid)
    (price qty : UInt64) (release : Bool) :
    (h.deduct isBid price qty release).1.Inv isBid ∧
    (h.deduct isBid price qty release).1.ladder =
      KeyedList.alter Level.price (ahead isBid) price (deducted qty release) h.ladder ∧
    (h.deduct isBid price qty release).2 = (levelAt price h.ladder).isSome := by
  obtain ⟨hw, hl, hf⟩ := hi.wf.deduct_spec price qty release
  exact ⟨hw.inv hi.depth, hl, hf⟩

theorem deductAnon_spec {M : Nat} {isBid : Bool} {h : HalfBook M} (hi : h.Inv isBid)
    (price qty : UInt64) :
    (h.deductAnon isBid price qty).1.Inv isBid ∧
    (h.deductAnon isBid price qty).1.ladder =
      KeyedList.alter Level.price (ahead isBid) price (deductedAnon qty) h.ladder ∧
    (h.deductAnon isBid price qty).2 = (levelAt price h.ladder).isSome := by
  obtain ⟨hw, hl, hf⟩ := hi.wf.deductAnon_spec price qty
  exact ⟨hw.inv hi.depth, hl, hf⟩

theorem addLevel_spec {M : Nat} {isBid : Bool} {h : HalfBook M} (hi : h.Inv isBid)
    (price qty : UInt64) :
    (h.addLevel isBid price qty = none →
      levelAt price h.ladder = none ∧ M ≤ h.ladder.length) ∧
    (∀ h', h.addLevel isBid price qty = some h' →
      h'.Inv isBid ∧
      h'.ladder = KeyedList.alter Level.price (ahead isBid) price (added price qty) h.ladder ∧
      ¬ (levelAt price h.ladder = none ∧ M ≤ h.ladder.length) ∧ (h.Clean → h'.Clean)) := by
  obtain ⟨hnone, hsome⟩ := hi.wf.addLevel_spec hi.grows price qty
  refine ⟨hnone, ?_⟩
  intro h' he
  obtain ⟨hw, hrest⟩ := hsome h' he
  exact ⟨hw.inv hi.depth, hrest⟩

/-! How far a step moves the count. -/

theorem removeLevel_count {M : Nat} (h : HalfBook M) (i : Nat) :
    (h.removeLevel i).count.toNat ≤ h.count.toNat := by
  have hlt : h.count.toNat - 1 < 2 ^ 32 := (Nat.sub_le _ _).trans_lt h.count.toNat_lt
  change (UInt32.ofNat (h.count.toNat - 1)).toNat ≤ _
  rw [UInt32.toNat_ofNat_of_lt' hlt]
  exact Nat.sub_le _ _

theorem deduct_count {M : Nat} (h : HalfBook M) (isBid : Bool) (price qty : UInt64)
    (release : Bool) : (h.deduct isBid price qty release).1.count.toNat ≤ h.count.toNat := by
  simp only [deduct]
  cases h.findLevel isBid price with
  | none => exact Nat.le_refl _
  | some i =>
    dsimp only
    split_ifs
    · exact removeLevel_count _ i
    · exact Nat.le_refl _
    · exact Nat.le_refl _

theorem deductAnon_count {M : Nat} (h : HalfBook M) (isBid : Bool) (price qty : UInt64) :
    (h.deductAnon isBid price qty).1.count.toNat ≤ h.count.toNat := by
  simp only [deductAnon]
  cases h.findLevel isBid price with
  | none => exact Nat.le_refl _
  | some i =>
    dsimp only
    split_ifs
    · exact removeLevel_count _ i
    · exact Nat.le_refl _
    · exact Nat.le_refl _

theorem addLevel_count {M : Nat} {h h' : HalfBook M} {isBid : Bool} {price qty : UInt64}
    (ha : h.addLevel isBid price qty = some h') : h'.count.toNat ≤ h.count.toNat + 1 := by
  have hnew : (UInt32.ofNat (h.count.toNat + 1)).toNat ≤ h.count.toNat + 1 := by
    rw [UInt32.toNat_ofNat']
    exact Nat.mod_le _ _
  simp only [addLevel] at ha
  split_ifs at ha
  · rw [← Option.some.inj ha]
    exact Nat.le_succ _
  · rw [← Option.some.inj ha]
    exact hnew
  · rw [← Option.some.inj ha]
    exact hnew

end HalfBook

end Flowlab.Core
