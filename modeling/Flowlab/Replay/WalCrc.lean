import Flowlab.Framework.ShiftRegister
import Flowlab.Replay.WalDamage

namespace Flowlab.Replay.Wal

open Framework ShiftRegister

/-- The polynomial of CRC-32/IEEE, bit-reversed. -/
def crcPoly : BitVec 32 := 0xEDB88320

theorem toBitVec_crcShift (c : UInt32) : (crcShift c).toBitVec = shift crcPoly c.toBitVec := by
  have hlow : (c &&& 1).toNat = (c.toBitVec.getLsbD 0).toNat := by
    rw [UInt32.toNat_and, show (1 : UInt32).toNat = 1 from rfl, Nat.and_one_is_mod]
    show c.toNat % 2 = (c.toNat.testBit 0).toNat
    rw [Nat.testBit_zero]
    rcases Nat.mod_two_eq_zero_or_one c.toNat with h | h <;> simp [h]
  rw [crcShift, shift]
  cases hbit : c.toBitVec.getLsbD 0 with
  | false =>
    have hzero : c &&& 1 = 0 := UInt32.toNat_inj.mp (by rw [hlow, hbit]; rfl)
    rw [hzero]
    rfl
  | true =>
    have hone : c &&& 1 = 1 := UInt32.toNat_inj.mp (by rw [hlow, hbit]; rfl)
    rw [hone]
    rfl

theorem toBitVec_iterate_crcShift (k : Nat) (c : UInt32) :
    (crcShift^[k] c).toBitVec = (shift crcPoly)^[k] c.toBitVec := by
  induction k generalizing c with
  | zero => rfl
  | succ k ih => rw [Function.iterate_succ_apply, ih, toBitVec_crcShift, Function.iterate_succ_apply]

/-- One turn of the loop of `crc32`. -/
def crcByte (crc : UInt32) (b : UInt8) : UInt32 :=
  crc32Table.getD ((crc ^^^ b.toUInt32) &&& 0xFF).toNat 0 ^^^ (crc >>> 8)

theorem crc32_eq (data : List UInt8) : crc32 data = ~~~ data.foldl crcByte 0xFFFFFFFF := rfl

/-- The table holds what eight shifts make of a byte. -/
theorem crc32Table_get (x : UInt32) :
    (crc32Table.getD (x &&& 0xFF).toNat 0).toBitVec =
      (shift crcPoly)^[8] ((x.toBitVec.setWidth 8).setWidth 32) := by
  have hmod : (x &&& 0xFF).toNat = x.toNat % 2 ^ 8 := by
    rw [UInt32.toNat_and]
    exact Nat.and_two_pow_sub_one_eq_mod x.toNat 8
  have hlt : (x &&& 0xFF).toNat < 256 := by
    rw [hmod]
    exact Nat.mod_lt _ (by decide)
  have hbyte : (x &&& 0xFF).toBitVec = (x.toBitVec.setWidth 8).setWidth 32 := by
    apply BitVec.eq_of_toNat_eq
    rw [BitVec.toNat_setWidth, BitVec.toNat_setWidth, UInt32.toNat_toBitVec, UInt32.toNat_toBitVec,
      hmod]
    omega
  rw [crc32Table, List.getD_eq_getElem?_getD, List.getElem?_map, List.getElem?_range hlt,
    Option.map_some, Option.getD_some, toBitVec_iterate_crcShift, UInt32.ofNat_toNat, hbyte]

/-- A byte goes through the table as it would through the register. -/
theorem toBitVec_crcByte (crc : UInt32) (b : UInt8) :
    (crcByte crc b).toBitVec = feed crcPoly crc.toBitVec b.toBitVec := by
  have hhigh : b.toBitVec.setWidth 32 >>> 8 = 0#32 := by
    apply BitVec.eq_of_getLsbD_eq
    intro i hi
    simp
  have hdown : (crc.toBitVec ^^^ b.toBitVec.setWidth 32) >>> 8 = crc.toBitVec >>> 8 := by
    rw [BitVec.ushiftRight_xor_distrib, hhigh, BitVec.xor_zero]
  rw [crcByte, UInt32.toBitVec_xor, crc32Table_get, feed,
    iterate_split crcPoly 8 (crc.toBitVec ^^^ b.toBitVec.setWidth 32), hdown]
  rfl

theorem toBitVec_foldl_crcByte (data : List UInt8) (crc : UInt32) :
    (data.foldl crcByte crc).toBitVec =
      (data.map UInt8.toBitVec).foldl (feed crcPoly) crc.toBitVec := by
  induction data generalizing crc with
  | nil => rfl
  | cons b data ih => rw [List.foldl_cons, ih, toBitVec_crcByte, List.map_cons, List.foldl_cons]

/-- Two payloads that differ in a run of up to four bytes have different checksums. -/
theorem crc32_ne_of_burst {xs ys : List UInt8} (hlen : xs.length = ys.length)
    (hfour : xs.length ≤ 4) (hne : xs ≠ ys) (pre post : List UInt8) :
    crc32 (pre ++ (xs ++ post)) ≠ crc32 (pre ++ (ys ++ post)) := by
  intro h
  rw [crc32_eq, crc32_eq, UInt32.not_inj, ← UInt32.toBitVec_inj, toBitVec_foldl_crcByte,
    toBitVec_foldl_crcByte] at h
  simp only [List.map_append] at h
  have hinj : Function.Injective UInt8.toBitVec := fun _ _ => UInt8.toBitVec_inj.mp
  refine feed_burst crcPoly (by decide) ?_ ?_ ?_ _ _ _ h
  · rw [List.length_map, List.length_map, hlen]
  · rw [List.length_map]
    omega
  · exact fun heq => hne (List.map_injective_iff.mpr hinj heq)

end Flowlab.Replay.Wal

namespace Flowlab.Replay

open Wal Framework ShiftRegister

/-- The checksum tells apart any two payloads of one length that differ only within four consecutive
bytes, and the check of a record so altered fails wherever it stands. -/
theorem crc32_detects_burst (p p' : List UInt8) (hlen : p'.length = p.length) (hne : p' ≠ p)
    (i : Nat) (hwithin : ∀ j, p'[j]? ≠ p[j]? → i ≤ j ∧ j < i + 4) :
    crc32 p' ≠ crc32 p ∧
      (p.length < 2 ^ 32 → ∀ rest, readRecord (damagedFrame p p' ++ rest) = none) := by
  have hsplit (q : List UInt8) : q = q.take i ++ ((q.drop i).take 4 ++ (q.drop i).drop 4) := by
    rw [List.take_append_drop, List.take_append_drop]
  have hsame {j : Nat} (hj : j < i ∨ i + 4 ≤ j) : p'[j]? = p[j]? := by
    by_contra hdiff
    have := hwithin j hdiff
    omega
  have hpre : p'.take i = p.take i := by
    apply List.ext_getElem?
    intro j
    rw [List.getElem?_take, List.getElem?_take]
    split_ifs with hj
    · exact hsame (.inl hj)
    · rfl
  have hpost : (p'.drop i).drop 4 = (p.drop i).drop 4 := by
    apply List.ext_getElem?
    intro j
    simp only [List.getElem?_drop]
    exact hsame (.inr (by omega))
  have hmid : (p'.drop i).take 4 ≠ (p.drop i).take 4 := by
    intro heq
    rw [hsplit p', hpre, hpost, heq, ← hsplit p] at hne
    exact hne rfl
  have hcrc : crc32 p' ≠ crc32 p := by
    rw [hsplit p', hsplit p, hpre, hpost]
    refine crc32_ne_of_burst ?_ ?_ hmid _ _
    · simp only [List.length_take, List.length_drop, hlen]
    · exact List.length_take_le 4 _
  refine ⟨hcrc, ?_⟩
  intro hp rest
  rw [damagedFrame, ← hlen, readRecord_header (by rwa [hlen]), if_pos hcrc]

/-- The last two of five bytes altered. -/
theorem crc32_detects_burst_end :
    crc32 [1, 2, 3, 9, 9] ≠ crc32 [1, 2, 3, 4, 5] ∧
      ∀ rest, readRecord (damagedFrame [1, 2, 3, 4, 5] [1, 2, 3, 9, 9] ++ rest) = none := by
  have hwithin : ∀ j, ([1, 2, 3, 9, 9] : List UInt8)[j]? ≠ ([1, 2, 3, 4, 5] : List UInt8)[j]? →
      3 ≤ j ∧ j < 3 + 4 := by
    intro j hj
    match j with
    | 0 | 1 | 2 => exact absurd rfl hj
    | 3 | 4 => decide
    | j + 5 => exact absurd rfl hj
  obtain ⟨hcrc, hread⟩ := crc32_detects_burst [1, 2, 3, 4, 5] [1, 2, 3, 9, 9] rfl (by decide) 3
    hwithin
  exact ⟨hcrc, hread (by decide)⟩

/-- CRC-32/IEEE as it is defined: one bit of the message at a time, the lowest of each byte first. -/
def crc32Ieee (data : List UInt8) : BitVec 32 :=
  (data.flatMap (fun b => bits b.toBitVec)).foldl (shiftIn 0xEDB88320) 0xFFFFFFFF ^^^ 0xFFFFFFFF

/-- The table only saves time: for every payload `crc32` is the CRC taken bit by bit. -/
theorem crc32_eq_bitwise (data : List UInt8) : (crc32 data).toBitVec = crc32Ieee data := by
  have hbits : data.flatMap (fun b => bits b.toBitVec) = (data.map UInt8.toBitVec).flatMap bits :=
    (List.flatMap_map UInt8.toBitVec bits data).symm
  have hnot (c : BitVec 32) : ~~~ c = c ^^^ 0xFFFFFFFF := (BitVec.xor_allOnes).symm
  rw [crc32_eq, UInt32.toBitVec_not, toBitVec_foldl_crcByte, foldl_feed_bits crcPoly (by decide),
    hnot, crc32Ieee, hbits]
  rfl

/-- The check value of the standard, which is also the vector of the source's own test. -/
example : crc32Ieee [49, 50, 51, 52, 53, 54, 55, 56, 57] = 0xCBF43926 := by decide +kernel

end Flowlab.Replay
