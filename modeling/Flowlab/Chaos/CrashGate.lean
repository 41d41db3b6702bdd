import Flowlab.Chaos.BandDepthRun
import Flowlab.Framework.Machine
import Flowlab.Framework.Recent
import Flowlab.Framework.Rounding

namespace Flowlab.Chaos

open Std Framework Rounding
open Flowlab.Core (Event EventType Side SequencedEvent satSub64 satSub64_toNat)

namespace FlashCrashDetector

/-! The detector with its depth check taken out, and that check in `binary64`. -/

/-- `drop_ok`, with the quotient and the comparison of `f64`. -/
def dropOkFp (depthDropPct : Fp) (depthThen depthNow : UInt64) : Bool :=
  if depthDropPct = .fin 0 then true
  else if depthThen = 0 then false
  else depthDropPct.le ((Fp.ofU64 (depthThen - min depthNow depthThen)).div (.ofU64 depthThen))

/-- `detect`, with the depth check as a parameter. -/
def detectWith (dropOk : UInt64 → UInt64 → Bool) (d : FlashCrashDetector) (ev : SequencedEvent) :
    FlashCrashDetector × Option ChaosEvent :=
  match d.midprice with
  | none => (d, none)
  | some midAfter =>
    if ev.seq < d.refractoryUntil then ({ d with buyAggr := 0, sellAggr := 0 }, none)
    else
      match d.findGap ev.seq midAfter with
      | none => (d, none)
      | some (snap, dir, gapBps) =>
        let depthNow := d.depthInBandAround snap.bestBid snap.bestAsk
        if ¬ dropOk snap.depthInBand depthNow then (d, none)
        else if d.alignedCount dir < d.minAggrTrades then (d, none)
        else d.fire ev midAfter snap dir gapBps depthNow

theorem detect_eq (d : FlashCrashDetector) (ev : SequencedEvent) :
    d.detect ev = d.detectWith d.DropOk ev := rfl

/-- What an event makes of the detector before a gap is looked for. -/
def entered (d : FlashCrashDetector) (ev : SequencedEvent) : FlashCrashDetector :=
  match EventType.fromU8 ev.event.eventType with
  | none => d
  | some etype => (d.snapBefore ev).mutate etype ev.event

/-- `process`, with the depth check as a parameter. -/
def processWith (dropOk : UInt64 → UInt64 → Bool) (d : FlashCrashDetector) (ev : SequencedEvent) :
    FlashCrashDetector × Option ChaosEvent :=
  match EventType.fromU8 ev.event.eventType with
  | none => (d, none)
  | some .bookSnapshot => (d.snapBefore ev, none)
  | some _ => (d.entered ev).detectWith dropOk ev

theorem process_eq (d : FlashCrashDetector) (ev : SequencedEvent) :
    d.process ev = d.processWith (d.entered ev).DropOk ev := by
  rw [process, processWith, entered]
  cases EventType.fromU8 ev.event.eventType with
  | none => rfl
  | some t =>
    cases t with
    | bookSnapshot => rfl
    | _ => exact detect_eq _ ev

/-- The sum of the touch, of which `midprice` takes half, is a `u64`. -/
def midFits (d : FlashCrashDetector) : Bool :=
  match d.cachedBb, d.cachedBa with
  | some bb, some ba => decide (bb ≤ ba → ba.toNat + bb.toNat < 2 ^ 64)
  | _, _ => true

/-- `process` as it is built with overflow checks, where the sum of a touch that does not fit panics:
the mid is read before the event and, but for a book snapshot, after it. -/
def processChecked (dropOk : UInt64 → UInt64 → Bool) (d : FlashCrashDetector)
    (ev : SequencedEvent) : Option (FlashCrashDetector × Option ChaosEvent) :=
  match EventType.fromU8 ev.event.eventType with
  | none => some (d, none)
  | some etype =>
    if ¬ d.midFits then none
    else if etype ≠ .bookSnapshot ∧ ¬ (d.entered ev).midFits then none
    else some (d.processWith dropOk ev)

/-! What an event leaves alone. -/

/-- Only the book and the caches may differ. -/
def SameButBook (d d' : FlashCrashDetector) : Prop :=
  ∃ m bb ba depth valid, d' = { d with
    toMiniBook := m, cachedBb := bb, cachedBa := ba, bandDepth := depth, bandDepthValid := valid }

theorem SameButBook.refl (d : FlashCrashDetector) : SameButBook d d := ⟨_, _, _, _, _, rfl⟩

theorem SameButBook.trans {d d' d'' : FlashCrashDetector} (h : SameButBook d d')
    (h' : SameButBook d' d'') : SameButBook d d'' := by
  obtain ⟨m, bb, ba, depth, valid, rfl⟩ := h
  obtain ⟨m', bb', ba', depth', valid', rfl⟩ := h'
  exact ⟨m', bb', ba', depth', valid', rfl⟩

theorem sameButBook_withBook (d : FlashCrashDetector) (m : MiniBook) :
    SameButBook d (d.withBook m) := ⟨_, _, _, _, _, rfl⟩

theorem sameButBook_redepth (d : FlashCrashDetector) (stale touched : Bool) (depth : UInt64) :
    SameButBook d (d.redepth stale touched depth) := by
  rw [redepth]
  split_ifs <;> exact ⟨_, _, _, _, _, rfl⟩

theorem sameButBook_improveBest (d : FlashCrashDetector) (side : UInt8) (price : UInt64) :
    SameButBook d (d.improveBest side price).1 := by
  simp only [improveBest]
  split_ifs
  · split
    · split_ifs <;> exact ⟨_, _, _, _, _, rfl⟩
    · exact ⟨_, _, _, _, _, rfl⟩
  · split
    · split_ifs <;> exact ⟨_, _, _, _, _, rfl⟩
    · exact ⟨_, _, _, _, _, rfl⟩

theorem sameButBook_retreatBest (d : FlashCrashDetector) (side : UInt8) (price : UInt64) :
    SameButBook d (d.retreatBest side price).1 := by
  simp only [retreatBest]
  split_ifs <;> exact ⟨_, _, _, _, _, rfl⟩

theorem sameButBook_addQty (d : FlashCrashDetector) (side : UInt8) (price qty : UInt64) :
    SameButBook d (d.addQty side price qty) := by
  rw [addQty_eq]
  exact ((sameButBook_withBook d _).trans (sameButBook_improveBest _ side price)).trans
    (sameButBook_redepth _ _ _ _)

theorem sameButBook_subQty (d : FlashCrashDetector) (side : UInt8) (price qty : UInt64) :
    SameButBook d (d.subQty side price qty) := by
  rw [subQty_eq]
  refine (sameButBook_withBook d (d.toMiniBook.subQty side price qty)).trans ?_
  refine SameButBook.trans ?_ (sameButBook_redepth _ _ _ _)
  split_ifs
  · exact sameButBook_retreatBest _ side price
  · exact SameButBook.refl _

/-- A trade counts its aggressor. -/
def counted (d : FlashCrashDetector) (etype : EventType) (e : Event) : FlashCrashDetector :=
  match etype with
  | .trade =>
    match (d.orderTracker.onTrade e).2 with
    | some t => d.countAggressor t.aggressor
    | none => d
  | _ => d

/-- Nothing else but the book changes. -/
theorem sameButBook_mutate (d : FlashCrashDetector) (etype : EventType) (e : Event) :
    SameButBook (d.counted etype e) (d.mutate etype e) := by
  cases etype with
  | orderAdd =>
    simp only [mutate]
    split
    · exact (sameButBook_withBook d _).trans (sameButBook_addQty _ _ _ _)
    · exact sameButBook_withBook d _
  | orderCancel =>
    simp only [mutate]
    split
    · exact (sameButBook_withBook d _).trans (sameButBook_subQty _ _ _ _)
    · exact sameButBook_withBook d _
  | orderModify => exact SameButBook.refl d
  | trade =>
    simp only [mutate, counted]
    cases (d.orderTracker.onTrade e).2 with
    | none => exact sameButBook_withBook d _
    | some t =>
      obtain ⟨u, aggressor⟩ := t
      refine SameButBook.trans ?_ (sameButBook_subQty _ _ _ _)
      cases aggressor <;> exact ⟨_, _, _, _, _, rfl⟩
  | bookSnapshot => exact SameButBook.refl d

/-- The caches change only in what they hold, whatever the depth check says. -/
theorem sameCaches_detectWith (dropOk : UInt64 → UInt64 → Bool) (d : FlashCrashDetector)
    (ev : SequencedEvent) : SameCaches d (d.detectWith dropOk ev).1 := by
  simp only [detectWith]
  split
  · exact SameCaches.refl d
  · split_ifs
    · exact ⟨⟨rfl, rfl, rfl, rfl⟩, rfl, rfl⟩
    · split
      · exact SameCaches.refl d
      · split_ifs <;> exact ⟨⟨rfl, rfl, rfl, rfl⟩, rfl, rfl⟩

/-! The gate. -/

/-- The snapshots of the ring, in the order in which they are looked at. -/
def window (d : FlashCrashDetector) : List TopSnapshot :=
  Recent.contents d.snaps d.snapHead.toNat d.snapLen.toNat

/-- What `findGap` makes of one snapshot. -/
def gapFrom (d : FlashCrashDetector) (seq midAfter : UInt64) (snap : TopSnapshot) :
    Option (TopSnapshot × CrashDir × UInt32) :=
  let span := satSub64 seq snap.seq
  if span = 0 ∨ d.gapWindowEvents.toNat < span.toNat then none
  else
    let bps := bpsMove snap.mid midAfter
    if bps < d.minGapBps then none
    else some (snap, if midAfter < snap.mid then .down else .up, bps)

theorem findGap_eq (d : FlashCrashDetector) (seq midAfter : UInt64) :
    d.findGap seq midAfter = d.window.findSome? (d.gapFrom seq midAfter) := by
  rw [window, Recent.contents, List.findSome?_map]
  rfl

theorem gapFrom_some {d : FlashCrashDetector} {seq midAfter : UInt64} {snap snap' : TopSnapshot}
    {dir : CrashDir} {bps : UInt32} (h : d.gapFrom seq midAfter snap = some (snap', dir, bps)) :
    snap' = snap ∧ d.minGapBps ≤ bpsMove snap.mid midAfter ∧
      dir = if midAfter < snap.mid then .down else .up := by
  rw [gapFrom] at h
  by_cases hspan : satSub64 seq snap.seq = 0 ∨
      d.gapWindowEvents.toNat < (satSub64 seq snap.seq).toNat
  · simp [if_pos hspan] at h
  · by_cases hbps : bpsMove snap.mid midAfter < d.minGapBps
    · simp [if_pos hbps] at h
    · simp only [if_neg hspan, if_neg hbps, Option.some.injEq, Prod.mk.injEq] at h
      exact ⟨h.1.symm, UInt32.not_lt.mp hbps, h.2.1.symm⟩

theorem gapFrom_isSome {d : FlashCrashDetector} {seq midAfter : UInt64} {snap : TopSnapshot}
    (hpos : snap.seq.toNat < seq.toNat)
    (hspan : seq.toNat ≤ snap.seq.toNat + d.gapWindowEvents.toNat)
    (hbps : d.minGapBps ≤ bpsMove snap.mid midAfter) : (d.gapFrom seq midAfter snap).isSome := by
  have hsub := satSub64_toNat seq snap.seq
  have hwide : ¬ (satSub64 seq snap.seq = 0 ∨
      d.gapWindowEvents.toNat < (satSub64 seq snap.seq).toNat) := by
    rintro (hzero | hfar)
    · rw [hzero, UInt64.toNat_zero] at hsub
      omega
    · omega
  rw [gapFrom]
  simp only [if_neg hwide, if_neg (UInt32.not_lt.mpr hbps), Option.isSome_some]

/-- No flag is raised where every gap in sight goes up and too few buyers trade. -/
theorem detectWith_none {d : FlashCrashDetector} (dropOk : UInt64 → UInt64 → Bool)
    (ev : SequencedEvent) (hbuy : d.buyAggr < d.minAggrTrades)
    (hgaps : ∀ m, d.midprice = some m → ∀ snap ∈ d.window,
      bpsMove snap.mid m < d.minGapBps ∨ snap.mid ≤ m) : (d.detectWith dropOk ev).2 = none := by
  rw [detectWith]
  cases hmid : d.midprice with
  | none => rfl
  | some m =>
    dsimp only
    split_ifs with hrefractory
    · rfl
    · cases hgap : d.findGap ev.seq m with
      | none => rfl
      | some r =>
        obtain ⟨snap, dir, bps⟩ := r
        rw [findGap_eq, List.findSome?_eq_some_iff] at hgap
        obtain ⟨before, snap', after, hwindow, hfrom, -⟩ := hgap
        obtain ⟨rfl, hbps, hdir⟩ := gapFrom_some hfrom
        have hup : snap.mid ≤ m := by
          rcases hgaps m hmid snap (hwindow ▸ by simp) with hlow | hup
          · exact absurd hlow (UInt32.not_lt.mpr hbps)
          · exact hup
        rw [if_neg (UInt64.not_lt.mpr hup)] at hdir
        rw [hdir]
        dsimp only
        split_ifs with hdrop haligned
        · rfl
        · exact absurd hbuy haligned
        · rfl

/-- A flag is raised where a gap is in sight, and every one goes down and passes the depth check. -/
theorem detectWith_fires {d : FlashCrashDetector} {dropOk : UInt64 → UInt64 → Bool}
    {ev : SequencedEvent} {m : UInt64} (hmid : d.midprice = some m) (hrefractory : d.refractoryUntil = 0)
    (hsell : d.minAggrTrades ≤ d.sellAggr)
    (hgap : ∃ snap ∈ d.window, snap.seq.toNat < ev.seq.toNat ∧
      ev.seq.toNat ≤ snap.seq.toNat + d.gapWindowEvents.toNat ∧ d.minGapBps ≤ bpsMove snap.mid m)
    (hall : ∀ snap ∈ d.window, d.minGapBps ≤ bpsMove snap.mid m →
      m < snap.mid ∧ dropOk snap.depthInBand (d.depthInBandAround snap.bestBid snap.bestAsk)) :
    ∃ flag, (d.detectWith dropOk ev).2 = some flag ∧ flag.kind = .flashCrash := by
  have hnow : ¬ ev.seq < d.refractoryUntil := by
    rw [hrefractory]
    exact UInt64.not_lt.mpr (UInt64.le_iff_toNat_le.mpr (Nat.zero_le _))
  cases hfound : d.findGap ev.seq m with
  | none =>
    obtain ⟨snap, hmem, hpos, hspan, hbps⟩ := hgap
    rw [findGap_eq, List.findSome?_eq_none_iff] at hfound
    have hsome := gapFrom_isSome hpos hspan hbps
    rw [hfound snap hmem] at hsome
    exact absurd hsome Bool.false_ne_true
  | some r =>
    obtain ⟨snap, dir, bps⟩ := r
    have hsearch := hfound
    rw [findGap_eq, List.findSome?_eq_some_iff] at hsearch
    obtain ⟨before, snap', after, hwindow, hfrom, -⟩ := hsearch
    obtain ⟨rfl, hbps, hdir⟩ := gapFrom_some hfrom
    obtain ⟨hdown, hdrop⟩ := hall snap (hwindow ▸ by simp) hbps
    rw [if_pos hdown] at hdir
    subst hdir
    have haligned : ¬ d.alignedCount .down < d.minAggrTrades := UInt32.not_lt.mpr hsell
    rw [detectWith, hmid]
    dsimp only
    rw [if_neg hnow, hfound]
    dsimp only
    rw [if_neg (not_not.mpr hdrop), if_neg haligned]
    exact ⟨_, rfl, rfl⟩

/-- Outside the refractory period a detector that raises no flag is left as it was. -/
theorem detectWith_same {dropOk : UInt64 → UInt64 → Bool} {d : FlashCrashDetector}
    {ev : SequencedEvent} (hrefractory : d.refractoryUntil = 0)
    (hnone : (d.detectWith dropOk ev).2 = none) : (d.detectWith dropOk ev).1 = d := by
  have hnow : ¬ ev.seq < d.refractoryUntil := by
    rw [hrefractory]
    exact UInt64.not_lt.mpr (UInt64.le_iff_toNat_le.mpr (Nat.zero_le _))
  revert hnone
  rw [detectWith]
  split
  · intro _
    rfl
  · rw [if_neg hnow]
    split
    · intro _
      rfl
    · dsimp only
      split_ifs
      · intro _
        rfl
      · intro hfire
        exact absurd hfire (by simp [fire])
      · intro _
        rfl

/-! The parameters of `default_itch`, and the ring. -/

/-- The parameters of `default_itch`, and a ring whose head is one of its slots. -/
structure Tuned (d : FlashCrashDetector) : Prop where
  gap : d.minGapBps = 10
  span : d.gapWindowEvents = 8
  ticks : d.depthBandTicks = 5
  aggr : d.minAggrTrades = 3
  head : d.snapHead.toNat < snapCap

theorem SameButBook.tuned {d d' : FlashCrashDetector} (hs : SameButBook d d') (h : d.Tuned) :
    d'.Tuned := by
  obtain ⟨m, bb, ba, depth, valid, rfl⟩ := hs
  exact ⟨h.gap, h.span, h.ticks, h.aggr, h.head⟩

theorem sameButBook_depthInBand (d : FlashCrashDetector) : SameButBook d d.depthInBand.1 := by
  rw [depthInBand]
  split_ifs
  · exact SameButBook.refl d
  · exact ⟨_, _, _, _, _, rfl⟩

theorem head_next (i : ℕ) : (UInt8.ofNat ((i + 1) % snapCap)).toNat = (i + 1) % snapCap := by
  have hlt : (i + 1) % snapCap < snapCap := Nat.mod_lt _ (by decide)
  have hcap : snapCap = 16 := rfl
  rw [UInt8.toNat_ofNat', Nat.mod_eq_of_lt (by omega)]

theorem Tuned.pushSnap {d : FlashCrashDetector} (h : d.Tuned) (snap : TopSnapshot) :
    (d.pushSnap snap).Tuned := by
  have hhead : (UInt8.ofNat ((d.snapHead.toNat + 1) % snapCap)).toNat < snapCap := by
    rw [head_next]
    exact Nat.mod_lt _ (by decide)
  rw [FlashCrashDetector.pushSnap]
  dsimp only
  split_ifs <;> exact ⟨h.gap, h.span, h.ticks, h.aggr, hhead⟩

/-- The snapshot that an event is preceded by, with the mid there is. -/
def snapAt (d : FlashCrashDetector) (ev : SequencedEvent) (m : UInt64) : TopSnapshot :=
  ⟨ev.seq, ev.event.ts, m, d.cachedBb.getD 0, d.cachedBa.getD 0, d.depthInBand.2⟩

theorem snapBefore_none {d : FlashCrashDetector} (h : d.midprice = none) (ev : SequencedEvent) :
    d.snapBefore ev = d := by
  simp only [snapBefore, h]

theorem snapBefore_some {d : FlashCrashDetector} {m : UInt64} (h : d.midprice = some m)
    (ev : SequencedEvent) : d.snapBefore ev = d.depthInBand.1.pushSnap (d.snapAt ev m) := by
  simp only [snapBefore, h]
  rfl

theorem Tuned.snapBefore {d : FlashCrashDetector} (h : d.Tuned) (ev : SequencedEvent) :
    (d.snapBefore ev).Tuned := by
  cases hmid : d.midprice with
  | none => exact (snapBefore_none hmid ev).symm ▸ h
  | some m =>
    rw [snapBefore_some hmid]
    exact (d.sameButBook_depthInBand.tuned h).pushSnap _

theorem Tuned.counted {d : FlashCrashDetector} (h : d.Tuned) (etype : EventType) (e : Event) :
    (d.counted etype e).Tuned := by
  cases etype with
  | trade =>
    simp only [FlashCrashDetector.counted]
    cases (d.orderTracker.onTrade e).2 with
    | none => exact h
    | some t =>
      obtain ⟨u, aggressor⟩ := t
      cases aggressor <;> exact ⟨h.gap, h.span, h.ticks, h.aggr, h.head⟩
  | orderAdd => exact h
  | orderCancel => exact h
  | orderModify => exact h
  | bookSnapshot => exact h

theorem Tuned.entered {d : FlashCrashDetector} (h : d.Tuned) (ev : SequencedEvent) :
    (d.entered ev).Tuned := by
  rw [FlashCrashDetector.entered]
  cases EventType.fromU8 ev.event.eventType with
  | none => exact h
  | some t => exact (sameButBook_mutate _ _ _).tuned ((h.snapBefore ev).counted t ev.event)

theorem Tuned.detectWith {d : FlashCrashDetector} (h : d.Tuned) (dropOk : UInt64 → UInt64 → Bool)
    (ev : SequencedEvent) : (d.detectWith dropOk ev).1.Tuned := by
  simp only [FlashCrashDetector.detectWith]
  split
  · exact h
  · split_ifs
    · exact ⟨h.gap, h.span, h.ticks, h.aggr, h.head⟩
    · split
      · exact h
      · split_ifs
        · exact h
        · exact ⟨h.gap, h.span, h.ticks, h.aggr, h.head⟩
        · exact h

theorem detectWith_frame (dropOk : UInt64 → UInt64 → Bool) (d : FlashCrashDetector)
    (ev : SequencedEvent) : (d.detectWith dropOk ev).1.snaps = d.snaps ∧
      (d.buyAggr = 0 → (d.detectWith dropOk ev).1.buyAggr = 0) := by
  simp only [detectWith]
  split
  · exact ⟨rfl, id⟩
  · split_ifs
    · exact ⟨rfl, fun _ => rfl⟩
    · split
      · exact ⟨rfl, id⟩
      · split_ifs
        · exact ⟨rfl, id⟩
        · exact ⟨rfl, fun _ => rfl⟩
        · exact ⟨rfl, id⟩

/-- A snapshot joins those in sight, while there are few. -/
theorem window_pushSnap {d : FlashCrashDetector} (h : d.Tuned) (hfew : d.window.length < 9)
    (snap : TopSnapshot) : (d.pushSnap snap).window = d.window ++ [snap] := by
  have hlen : d.snapLen.toNat < 9 := by
    rw [window, Recent.contents, List.length_map, List.length_range] at hfew
    exact hfew
  have hcap : d.snapLen.toNat < d.gapWindowEvents.toNat + 1 := by
    rw [h.span]
    exact hlen
  have hnext : (d.snapLen + 1).toNat = d.snapLen.toNat + 1 := by
    rw [UInt8.toNat_add]
    exact Nat.mod_eq_of_lt (by show d.snapLen.toNat + 1 < 2 ^ 8; omega)
  have hpush : d.pushSnap snap = { d with
      snaps := d.snaps.set! d.snapHead.toNat snap
      snapHead := UInt8.ofNat ((d.snapHead.toNat + 1) % snapCap)
      snapLen := d.snapLen + 1 } := by
    rw [FlashCrashDetector.pushSnap]
    exact if_pos hcap
  rw [hpush, window, head_next, hnext]
  exact Recent.contents_push h.head (hlen.trans (by decide)) snap

end FlashCrashDetector

end Flowlab.Chaos
