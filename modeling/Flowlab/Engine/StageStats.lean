import Flowlab.Framework.Recent

namespace Flowlab

open Framework

structure StageLat where
  p50Ns : UInt64
  p99Ns : UInt64
  p999Ns : UInt64
  maxNs : UInt64

/-- The latest timings of one stage. -/
structure StageStats where
  samples : List UInt64
  cap : ℕ
  /-- Next write slot, once the buffer is full. -/
  head : ℕ
  deriving DecidableEq

namespace StageStats

def new (cap : ℕ) : StageStats := ⟨[], cap, 0⟩

/-- `none` is a write out of bounds. -/
def push (s : StageStats) (ns : UInt64) : Option StageStats :=
  if s.samples.length < s.cap then some { s with samples := s.samples ++ [ns] }
  else if s.head < s.samples.length then
    let head := s.head + 1
    some { s with samples := s.samples.set s.head ns, head := if head = s.cap then 0 else head }
  else none

/-- The entry of a sorted list at a quantile. -/
def pick (s : List UInt64) (q : Float) : UInt64 :=
  let i := ((s.length.toFloat - 1.0) * q).round.toUInt64.toNat
  s.getD (min i (s.length - 1)) 0

/-- The percentiles of some samples. -/
def latOf (samples : List UInt64) : StageLat :=
  if samples.isEmpty then ⟨0, 0, 0, 0⟩
  else
    let s := samples.mergeSort fun a b => a ≤ b
    ⟨pick s 0.50, pick s 0.99, pick s 0.999, s.getLast?.getD 0⟩

def snapshot (s : StageStats) : StageLat := latOf s.samples

/-- The samples, the oldest first. -/
def held (s : StageStats) : List UInt64 := s.samples.rotate s.head

/-- The head stands still until the buffer is full. -/
structure Sound (s : StageStats) : Prop where
  length : s.samples.length ≤ s.cap
  head : s.head < s.cap
  still : s.samples.length < s.cap → s.head = 0

theorem sound_new {cap : ℕ} (hcap : 1 ≤ cap) : (new cap).Sound :=
  ⟨Nat.zero_le cap, hcap, fun _ => rfl⟩

theorem held_perm (s : StageStats) : s.samples.Perm s.held := (List.rotate_perm _ _).symm

theorem push_spec {s : StageStats} (h : s.Sound) (ns : UInt64) :
    ∃ s', s.push ns = some s' ∧ s'.Sound ∧ s'.cap = s.cap ∧
      s'.held = (s.held ++ [ns]).rtake s.cap := by
  have hhead := h.head
  have hlen : s.held.length = s.samples.length := List.length_rotate _ _
  have hpos : 0 < s.cap := Nat.zero_lt_of_lt hhead
  rw [push, ← Recent.evict_concat hpos (hlen ▸ h.length), hlen]
  by_cases hroom : s.samples.length < s.cap
  · have hstill := h.still hroom
    rw [if_pos hroom, if_neg (Nat.not_le.mpr hroom)]
    refine ⟨_, rfl, ⟨?_, hhead, fun _ => hstill⟩, rfl, ?_⟩
    · show (s.samples ++ [ns]).length ≤ s.cap
      rw [List.length_append, List.length_singleton]
      exact hroom
    · show (s.samples ++ [ns]).rotate s.head = s.samples.rotate s.head ++ [ns]
      rw [hstill, List.rotate_zero, List.rotate_zero]
  · have hfull : s.samples.length = s.cap := Nat.le_antisymm h.length (Nat.not_lt.mp hroom)
    have hslot : s.head < s.samples.length := hfull ▸ hhead
    rw [if_neg hroom, if_pos hslot, if_pos hfull.ge]
    have hkept : (s.samples.set s.head ns).length = s.cap := by rw [List.length_set, hfull]
    refine ⟨_, rfl, ⟨hkept.le, ?_, fun hless => absurd hless hkept.not_lt⟩, rfl, ?_⟩
    · show (if s.head + 1 = s.cap then 0 else s.head + 1) < s.cap
      split_ifs <;> omega
    · show (s.samples.set s.head ns).rotate (if s.head + 1 = s.cap then 0 else s.head + 1) = _
      rw [held, ← Recent.rotate_set hslot ns]
      split_ifs with hwrap
      · rw [hwrap, List.rotate_zero, ← hkept, List.rotate_length]
      · rfl

/-- The buffer, read from its head around, is the newest of what was pushed. -/
theorem run_spec {cap : ℕ} (hcap : 1 ≤ cap) (values : List UInt64) :
    ∃ s, values.foldlM push (new cap) = some s ∧ s.Sound ∧ s.cap = cap ∧
      s.held = values.rtake cap := by
  induction values using List.reverseRecOn with
  | nil => exact ⟨new cap, rfl, sound_new hcap, rfl, (List.rtake_nil cap).symm⟩
  | append_singleton values ns ih =>
    obtain ⟨s, hrun, hsound, hsize, hheld⟩ := ih
    obtain ⟨s', hpush, hsound', hsize', hheld'⟩ := push_spec hsound ns
    refine ⟨s', ?_, hsound', hsize'.trans hsize, ?_⟩
    · rw [List.foldlM_append, hrun]
      show (push s ns >>= fun s => pure s) = some s'
      rw [hpush]
      rfl
    · rw [hheld', hheld, hsize, Recent.rtake_concat hcap]

theorem sorted_mergeSort (l : List UInt64) :
    (l.mergeSort fun a b => a ≤ b).Pairwise fun a b => a ≤ b := by
  have htrans (a b c : UInt64) (hab : decide (a ≤ b) = true) (hbc : decide (b ≤ c) = true) :
      decide (a ≤ c) = true :=
    decide_eq_true (UInt64.le_trans (of_decide_eq_true hab) (of_decide_eq_true hbc))
  have htotal (a b : UInt64) : (decide (a ≤ b) || decide (b ≤ a)) = true := by
    simpa using UInt64.le_total a b
  exact (List.pairwise_mergeSort htrans htotal l).imp fun h => of_decide_eq_true h

/-- Percentiles do not depend on the order of the samples. -/
theorem latOf_perm {l l' : List UInt64} (h : l.Perm l') : latOf l = latOf l' := by
  have hperm : (l.mergeSort fun a b => a ≤ b).Perm (l'.mergeSort fun a b => a ≤ b) :=
    (List.mergeSort_perm l _).trans (h.trans (List.mergeSort_perm l' _).symm)
  have hsame : (l.mergeSort fun a b => a ≤ b) = l'.mergeSort fun a b => a ≤ b :=
    hperm.eq_of_pairwise (fun _ _ _ _ => UInt64.le_antisymm) (sorted_mergeSort l)
      (sorted_mergeSort l')
  rw [latOf, latOf, h.isEmpty_eq, hsame]

theorem pick_mem {l : List UInt64} (hl : l ≠ []) (q : Float) : pick l q ∈ l := by
  have hlen : 0 < l.length := List.length_pos_iff.mpr hl
  have hi : min ((l.length.toFloat - 1.0) * q).round.toUInt64.toNat (l.length - 1) < l.length := by
    omega
  rw [pick, List.getD_eq_getElem?_getD, List.getElem?_eq_getElem hi, Option.getD_some]
  exact List.getElem_mem hi

/-- What is reported are samples, and the last of them is the largest. -/
theorem latOf_mem {l : List UInt64} (hl : l ≠ []) :
    (latOf l).p50Ns ∈ l ∧ (latOf l).p99Ns ∈ l ∧ (latOf l).p999Ns ∈ l ∧ (latOf l).maxNs ∈ l ∧
      ∀ x ∈ l, x ≤ (latOf l).maxNs := by
  have hperm := List.mergeSort_perm l fun a b => a ≤ b
  have hsorted := sorted_mergeSort l
  have hne : (l.mergeSort fun a b => a ≤ b) ≠ [] := fun h => hl (hperm.symm.trans (h ▸ .nil)).eq_nil
  have hempty : l.isEmpty = false := by simpa using hl
  rw [latOf, hempty]
  generalize (l.mergeSort fun a b => a ≤ b) = s at *
  have hlast : s.getLast?.getD 0 = s.getLast hne := by rw [List.getLast?_eq_some_getLast hne]; rfl
  refine ⟨hperm.mem_iff.mp (pick_mem hne _), hperm.mem_iff.mp (pick_mem hne _),
    hperm.mem_iff.mp (pick_mem hne _), ?_, fun x hx => ?_⟩
  · show s.getLast?.getD 0 ∈ l
    rw [hlast]
    exact hperm.mem_iff.mp (List.getLast_mem hne)
  · show x ≤ s.getLast?.getD 0
    rw [hlast]
    have hx' := hperm.mem_iff.mpr hx
    rw [← List.dropLast_append_getLast hne] at hx' hsorted
    rcases List.mem_append.mp hx' with hinit | hend
    · exact (List.pairwise_append.mp hsorted).2.2 x hinit _ (List.mem_singleton_self _)
    · rw [List.mem_singleton.mp hend]
      exact UInt64.le_refl _

/-- For every capacity and whatever is pushed, the samples are the newest values, and the percentiles
are those of the newest values. -/
theorem samples_newest (cap : ℕ) (hcap : 1 ≤ cap) (values : List UInt64) :
    ∃ s, values.foldlM push (new cap) = some s ∧
      s.samples.Perm (values.rtake (min values.length cap)) ∧
      s.snapshot = latOf (values.rtake (min values.length cap)) := by
  obtain ⟨s, hrun, -, -, hheld⟩ := run_spec hcap values
  have hperm : s.samples.Perm (values.rtake (min values.length cap)) := by
    rw [Nat.min_comm, Recent.rtake_min, ← hheld]
    exact s.held_perm
  exact ⟨s, hrun, hperm, latOf_perm hperm⟩

/-- Five values into a buffer of three. -/
theorem samples_newest_three :
    ∃ s, [5, 1, 9, 2, 8].foldlM push (new 3) = some s ∧ s.samples.Perm [9, 2, 8] ∧
      s.snapshot = latOf [9, 2, 8] :=
  samples_newest 3 (by decide) [5, 1, 9, 2, 8]

end StageStats

end Flowlab
