import Flowlab.Chaos.CrashGate

namespace Flowlab.Chaos

open Framework Recent
open Flowlab.Core (Event EventType SequencedEvent)

namespace FlashCrashDetector

/-- The ring of snapshots. -/
def ring (d : FlashCrashDetector) : RingBuffer TopSnapshot snapCap :=
  ⟨d.snaps, d.snapHead.toNat, d.snapLen.toNat⟩

theorem window_eq (d : FlashCrashDetector) : d.window = d.ring.held := rfl

/-- How many snapshots the ring keeps. -/
def ringCap (d : FlashCrashDetector) : ℕ := d.gapWindowEvents.toNat + 1

/-- The ring stands well and its capacity is one that `new` asserts. -/
structure RingOk (d : FlashCrashDetector) : Prop where
  sound : d.ring.Sound d.ringCap
  fits : d.ringCap ≤ snapCap

/-- The reset of a flag, taken alone. -/
def resetSnaps (d : FlashCrashDetector) : FlashCrashDetector := { d with snapLen := 0 }

def ringStep (d : FlashCrashDetector) : Op TopSnapshot → FlashCrashDetector
  | .push snap => d.pushSnap snap
  | .clear => d.resetSnaps

theorem ringCap_pushSnap (d : FlashCrashDetector) (snap : TopSnapshot) :
    (d.pushSnap snap).ringCap = d.ringCap := by
  rw [pushSnap]
  dsimp only
  split_ifs <;> rfl

/-- The bytes of the head and of the length do not wrap. -/
theorem ring_pushSnap {d : FlashCrashDetector} (h : d.RingOk) (snap : TopSnapshot) :
    (d.pushSnap snap).ring = d.ring.push d.ringCap snap := by
  have hfits : d.gapWindowEvents.toNat + 1 ≤ 16 := h.fits
  rw [pushSnap, ring, RingBuffer.push]
  by_cases hroom : d.snapLen.toNat < d.gapWindowEvents.toNat + 1
  · have hnext : (d.snapLen + 1).toNat = d.snapLen.toNat + 1 := by
      rw [UInt8.toNat_add]
      exact Nat.mod_eq_of_lt (by show d.snapLen.toNat + 1 < 2 ^ 8; omega)
    simp only [if_pos hroom, head_next, hnext]
    exact congrArg _ (if_pos hroom).symm
  · simp only [if_neg hroom, head_next]
    exact congrArg _ (if_neg hroom).symm

theorem ring_ringStep {d : FlashCrashDetector} (h : d.RingOk) (op : Op TopSnapshot) :
    (d.ringStep op).ring = d.ring.apply d.ringCap op ∧ (d.ringStep op).ringCap = d.ringCap := by
  cases op with
  | push snap => exact ⟨ring_pushSnap h snap, ringCap_pushSnap d snap⟩
  | clear => exact ⟨rfl, rfl⟩

theorem RingOk.of_ring {d d' : FlashCrashDetector} (h : d.RingOk) (ops : List (Op TopSnapshot))
    (hring : d'.ring = ops.foldl (RingBuffer.apply d.ringCap) d.ring) (hcap : d'.ringCap = d.ringCap) :
    d'.RingOk := by
  refine ⟨?_, hcap ▸ h.fits⟩
  rw [hring, hcap]
  exact h.sound.run ops

theorem ring_run {d : FlashCrashDetector} (h : d.RingOk) (ops : List (Op TopSnapshot)) :
    (ops.foldl ringStep d).ring = ops.foldl (RingBuffer.apply d.ringCap) d.ring := by
  induction ops generalizing d with
  | nil => rfl
  | cons op ops ih =>
    obtain ⟨hring, hcap⟩ := ring_ringStep h op
    have hok : (d.ringStep op).RingOk := h.of_ring [op] hring hcap
    rw [List.foldl_cons, ih hok, hring, hcap, List.foldl_cons]

/-- Where the ring is empty, what it holds later is what was pushed since the last reset, up to its
capacity. -/
theorem held_of_run {d : FlashCrashDetector} (h : d.RingOk) (hempty : d.snapLen = 0)
    (ops : List (Op TopSnapshot)) :
    (ops.foldl (RingBuffer.apply d.ringCap) d.ring).held =
      (pushed ops).rtake (min d.ringCap (sinceClear ops).length) := by
  have hlen : d.ring.len = 0 := congrArg UInt8.toNat hempty
  rw [RingBuffer.held_run h.sound hlen (Nat.succ_pos _) h.fits, rtake_sinceClear]

theorem ringOk_new (minGapBps gapWindowEvents : UInt32) (maxBookLevels : Nat)
    (depthBandTicks : UInt64) (depthDropPct : Float) (minAggrTrades : UInt32) (cooldownSeq : UInt64)
    (hgap : gapWindowEvents.toNat ≤ 15) :
    (new minGapBps gapWindowEvents maxBookLevels depthBandTicks depthDropPct minAggrTrades
      cooldownSeq).RingOk :=
  ⟨⟨by show 0 < 16; omega, Nat.zero_le _⟩, Nat.succ_le_succ hgap⟩

/-- For every gap window that `new` asserts, and whatever is pushed and reset, the ring is read as the
newest snapshots since the last reset, the oldest of them first. -/
theorem snapRing_newest (minGapBps gapWindowEvents : UInt32) (maxBookLevels : Nat)
    (depthBandTicks : UInt64) (depthDropPct : Float) (minAggrTrades : UInt32) (cooldownSeq : UInt64)
    (hgap : 1 ≤ gapWindowEvents.toNat ∧ gapWindowEvents.toNat ≤ 15)
    (ops : List (Op TopSnapshot)) :
    let d := ops.foldl ringStep (new minGapBps gapWindowEvents maxBookLevels depthBandTicks
      depthDropPct minAggrTrades cooldownSeq)
    let newest := (pushed ops).rtake (min (gapWindowEvents.toNat + 1) (sinceClear ops).length)
    (List.range d.snapLen.toNat).map (fun i =>
        d.snaps.getD ((d.snapHead.toNat + snapCap - d.snapLen.toNat + i) % snapCap) default) =
      newest ∧
    ∀ seq midAfter, d.findGap seq midAfter = newest.findSome? (d.gapFrom seq midAfter) := by
  intro d newest
  have hok := ringOk_new minGapBps gapWindowEvents maxBookLevels depthBandTicks depthDropPct
    minAggrTrades cooldownSeq hgap.2
  have hheld : d.window = newest := by
    rw [window_eq, ring_run hok, held_of_run hok rfl]
    rfl
  refine ⟨hheld, fun seq midAfter => ?_⟩
  rw [findGap_eq, hheld]

/-- A ring of two that has turned over once. -/
theorem snapRing_newest_two :
    let snap (k : UInt64) : TopSnapshot := ⟨k, k, k, k, k, k⟩
    (([.push (snap 1), .push (snap 2), .push (snap 3)] : List (Op TopSnapshot)).foldl ringStep
      (new 10 1 64 5 0.5 3 2048)).window = [snap 2, snap 3] := by
  intro snap
  exact (snapRing_newest 10 1 64 5 0.5 3 2048 (by decide)
    [.push (snap 1), .push (snap 2), .push (snap 3)]).1

/-! What events make of the ring. -/

theorem SameButBook.ring {d d' : FlashCrashDetector} (hs : SameButBook d d') :
    d'.ring = d.ring ∧ d'.ringCap = d.ringCap := by
  obtain ⟨m, bb, ba, depth, valid, rfl⟩ := hs
  exact ⟨rfl, rfl⟩

theorem ring_counted (d : FlashCrashDetector) (etype : EventType) (e : Event) :
    (d.counted etype e).ring = d.ring ∧ (d.counted etype e).ringCap = d.ringCap := by
  cases etype with
  | trade =>
    simp only [counted]
    split
    · rename_i r _
      cases r.aggressor <;> exact ⟨rfl, rfl⟩
    · exact ⟨rfl, rfl⟩
  | _ => exact ⟨rfl, rfl⟩

/-- The snapshot before an event, where there is a mid. -/
def snapOps (d : FlashCrashDetector) (ev : SequencedEvent) : List (Op TopSnapshot) :=
  match d.midprice with
  | none => []
  | some m => [.push (d.snapAt ev m)]

def flagOps : Option ChaosEvent → List (Op TopSnapshot)
  | none => []
  | some _ => [.clear]

/-- What an event does to the ring: the snapshot before it, and the reset of a flag. -/
def ringOps (d : FlashCrashDetector) (ev : SequencedEvent) : List (Op TopSnapshot) :=
  match EventType.fromU8 ev.event.eventType with
  | none => []
  | some _ => d.snapOps ev ++ flagOps (d.process ev).2

theorem ring_snapBefore {d : FlashCrashDetector} (h : d.RingOk) (ev : SequencedEvent) :
    (d.snapBefore ev).ring = (d.snapOps ev).foldl (RingBuffer.apply d.ringCap) d.ring ∧
      (d.snapBefore ev).ringCap = d.ringCap := by
  cases hmid : d.midprice with
  | none =>
    rw [snapBefore_none hmid, snapOps, hmid]
    exact ⟨rfl, rfl⟩
  | some m =>
    obtain ⟨hring, hcap⟩ := d.sameButBook_depthInBand.ring
    have hok : d.depthInBand.1.RingOk := h.of_ring [] hring hcap
    rw [snapBefore_some hmid, ring_pushSnap hok, ringCap_pushSnap, hring, hcap, snapOps, hmid]
    exact ⟨rfl, rfl⟩

theorem ring_entered (d : FlashCrashDetector) {ev : SequencedEvent} {t : EventType}
    (ht : EventType.fromU8 ev.event.eventType = some t) :
    (d.entered ev).ring = (d.snapBefore ev).ring ∧
      (d.entered ev).ringCap = (d.snapBefore ev).ringCap := by
  obtain ⟨hcounted, hcap⟩ := ring_counted (d.snapBefore ev) t ev.event
  obtain ⟨hring, hcap'⟩ := (sameButBook_mutate (d.snapBefore ev) t ev.event).ring
  rw [entered, ht]
  exact ⟨hring.trans hcounted, hcap'.trans hcap⟩

/-- Only a flag resets. -/
theorem ring_detectWith (dropOk : UInt64 → UInt64 → Bool) (d : FlashCrashDetector)
    (ev : SequencedEvent) :
    (d.detectWith dropOk ev).1.ring =
        (flagOps (d.detectWith dropOk ev).2).foldl (RingBuffer.apply d.ringCap) d.ring ∧
      (d.detectWith dropOk ev).1.ringCap = d.ringCap := by
  simp only [detectWith]
  split
  · exact ⟨rfl, rfl⟩
  · split_ifs
    · exact ⟨rfl, rfl⟩
    · split
      · exact ⟨rfl, rfl⟩
      · split_ifs <;> exact ⟨rfl, rfl⟩

theorem ring_process {d : FlashCrashDetector} (h : d.RingOk) (ev : SequencedEvent) :
    (d.process ev).1.ring = (d.ringOps ev).foldl (RingBuffer.apply d.ringCap) d.ring ∧
      (d.process ev).1.ringCap = d.ringCap := by
  obtain ⟨hsnap, hcap⟩ := ring_snapBefore h ev
  rw [ringOps, process_eq, processWith]
  cases ht : EventType.fromU8 ev.event.eventType with
  | none => exact ⟨rfl, rfl⟩
  | some t =>
    obtain ⟨hentered, hcap'⟩ := ring_entered d ht
    have hdetect := ring_detectWith (d.entered ev).DropOk (d.entered ev) ev
    rw [hentered, hsnap, hcap', hcap] at hdetect
    cases t with
    | bookSnapshot =>
      refine ⟨?_, hcap⟩
      rw [List.foldl_append]
      exact hsnap
    | _ =>
      rw [List.foldl_append]
      exact hdetect

/-- What a run of events does to the ring. -/
def ringTrace (d : FlashCrashDetector) : List SequencedEvent → List (Op TopSnapshot)
  | [] => []
  | ev :: evs => d.ringOps ev ++ ringTrace (d.process ev).1 evs

theorem ring_events {d : FlashCrashDetector} (h : d.RingOk) (evs : List SequencedEvent) :
    (evs.foldl (fun d ev => (d.process ev).1) d).ring =
      (d.ringTrace evs).foldl (RingBuffer.apply d.ringCap) d.ring := by
  induction evs generalizing d with
  | nil => rfl
  | cons ev evs ih =>
    obtain ⟨hring, hcap⟩ := ring_process h ev
    have hok : (d.process ev).1.RingOk := h.of_ring _ hring hcap
    rw [List.foldl_cons, ih hok, hring, hcap, ringTrace, List.foldl_append]

/-- In every state events lead to, the detector looks back at the newest touches since its last
flag. -/
theorem window_events {d : FlashCrashDetector} (h : d.RingOk) (hempty : d.snapLen = 0)
    (evs : List SequencedEvent) :
    (evs.foldl (fun d ev => (d.process ev).1) d).window =
      (pushed (d.ringTrace evs)).rtake (min d.ringCap (sinceClear (d.ringTrace evs)).length) := by
  rw [window_eq, ring_events h, held_of_run h hempty]

end FlashCrashDetector

end Flowlab.Chaos
