import Flowlab.Chaos.CrashBatch

namespace Flowlab.Chaos

open Std Framework Rounding Writer
open Flowlab.Core (Event EventType Side OrderMeta SequencedEvent satSub64 satSub64_toNat)

namespace FlashCrashDetector

theorem processWith_eq (dropOk : UInt64 → UInt64 → Bool) (d : FlashCrashDetector) {ev : SequencedEvent}
    {t : EventType} (ht : EventType.fromU8 ev.event.eventType = some t) (hbook : t ≠ .bookSnapshot) :
    d.processWith dropOk ev = (d.entered ev).detectWith dropOk ev := by
  rw [processWith, ht]
  cases t <;> first | rfl | exact absurd rfl hbook

theorem processChecked_eq (dropOk : UInt64 → UInt64 → Bool) (d : FlashCrashDetector)
    {ev : SequencedEvent} {t : EventType} (ht : EventType.fromU8 ev.event.eventType = some t)
    (hbook : t ≠ .bookSnapshot) :
    d.processChecked dropOk ev =
      if d.midFits = true ∧ (d.entered ev).midFits = true then some (d.processWith dropOk ev)
      else none := by
  rw [processChecked, ht]
  by_cases hbefore : d.midFits = true
  · by_cases hafter : (d.entered ev).midFits = true
    · rw [if_pos ⟨hbefore, hafter⟩]
      exact (if_neg (not_not.mpr hbefore)).trans (if_neg fun hpanic => hpanic.2 hafter)
    · rw [if_neg fun hfits => hafter hfits.2]
      exact (if_neg (not_not.mpr hbefore)).trans (if_pos ⟨hbook, hafter⟩)
  · rw [if_neg fun hfits => hbefore hfits.1]
    exact if_pos hbefore

theorem sameCaches_processWith (dropOk : UInt64 → UInt64 → Bool) (d : FlashCrashDetector)
    (ev : SequencedEvent) : SameCaches (d.entered ev) (d.processWith dropOk ev).1 := by
  rw [processWith]
  cases ht : EventType.fromU8 ev.event.eventType with
  | none =>
    have hsame : d.entered ev = d := by rw [entered, ht]
    rw [hsame]
    exact SameCaches.refl d
  | some t =>
    cases t with
    | bookSnapshot =>
      have hsame : d.entered ev = d.snapBefore ev := by rw [entered, ht]; rfl
      rw [hsame]
      exact SameCaches.refl _
    | orderAdd => exact sameCaches_detectWith dropOk _ ev
    | orderCancel => exact sameCaches_detectWith dropOk _ ev
    | orderModify => exact sameCaches_detectWith dropOk _ ev
    | trade => exact sameCaches_detectWith dropOk _ ev

theorem Steady.checked {base : UInt64} (hbase : Clear base) {a : Option UInt64}
    {d : FlashCrashDetector} {ev : SequencedEvent} (h : Steady base a d ev)
    (dropOk : UInt64 → UInt64 → Bool) :
    d.processChecked dropOk ev = some (d.processWith dropOk ev) := by
  obtain ⟨t, ht, hbook⟩ := h.etype
  obtain ⟨c, orders, hd, -⟩ := h.before
  rw [processChecked_eq dropOk d ht hbook, if_pos ⟨(hd.within hbase).fits, h.after.fits⟩]

/-! Above 100000 the fall is less than ten basis points. -/

/-- The mids of the snapshots, the default ones of the ring included. -/
def Seen (base m : UInt64) : Prop := m = 0 ∨ m = base ∨ m = base - 100

/-- No buyer has been counted, and no other mid been seen. -/
structure Calm (base : UInt64) (d : FlashCrashDetector) : Prop where
  tuned : d.Tuned
  buy : d.buyAggr = 0
  mids : ∀ j, Seen base (d.snaps.getD j default).mid

/-- The fall of the burst, in basis points. -/
theorem bpsMove_fall {base : UInt64} (hbase : Clear base) :
    (bpsMove base (base - 100)).toNat = 1000000 / base.toNat := by
  have hlo := hbase.lo
  have h100 : (100 : UInt64).toNat = 100 := rfl
  have hbelow : (base - 100).toNat = base.toNat - 100 :=
    UInt64.toNat_sub_of_le _ _ (UInt64.le_iff_toNat_le.mpr (by omega))
  have hzero : ¬ base = 0 := by
    rintro rfl
    exact absurd hlo (by decide)
  have hdown : ¬ base ≤ base - 100 := by
    rw [UInt64.le_iff_toNat_le]
    omega
  have hdiff : (base - (base - 100)).toNat = 100 := by
    rw [UInt64.toNat_sub_of_le _ _ (UInt64.le_iff_toNat_le.mpr (by omega))]
    omega
  have hsmall : 100 * 10000 / base.toNat ≤ 1000000 := Nat.div_le_self _ _
  rw [bpsMove, if_neg hzero]
  dsimp only
  rw [if_neg hdown, hdiff, UInt32.toNat_ofNat', min_eq_left (by omega), Nat.mod_eq_of_lt (by omega)]

theorem fall_small_iff {base : UInt64} (hbase : Clear base) :
    bpsMove base (base - 100) < 10 ↔ 100000 < base.toNat := by
  have hlo := hbase.lo
  have h10 : (10 : UInt32).toNat = 10 := rfl
  rw [UInt32.lt_iff_toNat_lt, bpsMove_fall hbase, h10, Nat.div_lt_iff_lt_mul (by omega)]
  omega

theorem gap_small {base : UInt64} (hbase : Clear base) (hhigh : 100000 < base.toNat) {m m' : UInt64}
    (hm : Seen base m) (hm' : m' = base ∨ m' = base - 100) : bpsMove m m' < 10 ∨ m ≤ m' := by
  have hlo := hbase.lo
  have hbelow : base - 100 ≤ base := by
    rw [UInt64.le_iff_toNat_le, UInt64.toNat_sub_of_le _ _ (UInt64.le_iff_toNat_le.mpr
      (show (100 : UInt64).toNat ≤ base.toNat from hlo.trans' (by decide)))]
    omega
  rcases hm with rfl | rfl | rfl
  · exact .inr (UInt64.le_iff_toNat_le.mpr (Nat.zero_le _))
  · rcases hm' with rfl | rfl
    · exact .inr (UInt64.le_refl _)
    · exact .inl ((fall_small_iff hbase).mpr hhigh)
  · rcases hm' with rfl | rfl
    · exact .inr hbelow
    · exact .inr (UInt64.le_refl _)

theorem mem_window {d : FlashCrashDetector} {snap : TopSnapshot} (h : snap ∈ d.window) :
    ∃ j, d.snaps.getD j default = snap := by
  rw [window, Recent.contents, List.mem_map] at h
  obtain ⟨i, -, hsnap⟩ := h
  exact ⟨_, hsnap⟩

theorem Calm.snapBefore {base : UInt64} {d : FlashCrashDetector} (h : Calm base d)
    (hmid : ∀ m, d.midprice = some m → m = base ∨ m = base - 100) (ev : SequencedEvent) (j : ℕ) :
    Seen base ((d.snapBefore ev).snaps.getD j default).mid := by
  cases hm : d.midprice with
  | none =>
    rw [snapBefore_none hm]
    exact h.mids j
  | some m =>
    have hsnaps : (d.snapBefore ev).snaps = d.snaps.set! d.snapHead.toNat (d.snapAt ev m) := by
      have hsame := d.sameButBook_depthInBand.counters.2.2
      have hhead : d.depthInBand.1.snapHead = d.snapHead := by
        obtain ⟨_, _, _, _, _, he⟩ := d.sameButBook_depthInBand
        rw [he]
      rw [snapBefore_some hm, pushSnap]
      dsimp only
      rw [← hsame, ← hhead]
      split_ifs <;> rfl
    rw [hsnaps, Recent.getD_set _ h.tuned.head]
    split_ifs
    · exact .inr (hmid m hm)
    · exact h.mids j

/-- A step that keeps the mid within leaves a calm detector calm, and raises no flag. -/
theorem Calm.step {base : UInt64} (hbase : Clear base) (hhigh : 100000 < base.toNat)
    {d : FlashCrashDetector} (h : Calm base d) {a : Option UInt64} {ev : SequencedEvent}
    (hev : Steady base a d ev) (dropOk : UInt64 → UInt64 → Bool) :
    Calm base (d.processWith dropOk ev).1 ∧ (d.processWith dropOk ev).2 = none := by
  obtain ⟨t, ht, hbook⟩ := hev.etype
  obtain ⟨c, orders, hd, -⟩ := hev.before
  have htuned := h.tuned.entered ev
  have hbuy : (d.entered ev).buyAggr = 0 := hev.buy.trans h.buy
  have hmids (j : ℕ) : Seen base ((d.entered ev).snaps.getD j default).mid := by
    rw [(d.entered_frame ht).2.2]
    exact h.snapBefore (hd.within hbase).mid ev j
  rw [processWith_eq dropOk d ht hbook]
  obtain ⟨hsnaps, hkept⟩ := detectWith_frame dropOk (d.entered ev) ev
  refine ⟨⟨htuned.detectWith dropOk ev, hkept hbuy, fun j => hsnaps ▸ hmids j⟩, ?_⟩
  refine detectWith_none dropOk ev ?_ ?_
  · rw [hbuy, htuned.aggr]
    decide
  · intro m hm snap hsnap
    obtain ⟨j, hj⟩ := mem_window hsnap
    rw [htuned.gap, ← hj]
    exact gap_small hbase hhigh (hmids j) (hev.after.mid m hm)

theorem Calm.run {base : UInt64} (hbase : Clear base) (hhigh : 100000 < base.toNat)
    (dropOk : UInt64 → UInt64 → Bool) {d : FlashCrashDetector} (h : Calm base d)
    {evs : List SequencedEvent}
    (hevs : Machine.Along (fun d ev => ∃ a, Steady base a d ev)
      (fun d ev => (d.processWith dropOk ev).1) d evs) :
    ∀ out ∈ (Machine.run (processWith dropOk) d evs).2, out = none := by
  induction evs generalizing d with
  | nil =>
    intro out hout
    cases hout
  | cons ev evs ih =>
    obtain ⟨⟨a, hev⟩, hrest⟩ := hevs
    obtain ⟨hcalm, hnone⟩ := h.step hbase hhigh hev dropOk
    intro out hout
    rcases List.mem_cons.mp hout with rfl | hmem
    · exact hnone
    · exact ih hcalm hrest out hmem

/-! Up to 100000 the third trade of the first burst raises a flag, if nothing has before. -/

theorem CachesHold.depthInBand_toNat {d : FlashCrashDetector} (h : d.CachesHold) {bb ba : UInt64}
    (hbb : d.cachedBb = some bb) (hba : d.cachedBa = some ba) :
    d.depthInBand.2.toNat = d.bandOf .bid + d.bandOf .ask := by
  simp only [FlashCrashDetector.depthInBand, hbb, hba]
  split_ifs with hvalid
  · refine h.depth hvalid fun s => ?_
    cases s
    · exact (congrArg (· ≠ none) hbb).mpr (Option.some_ne_none bb)
    · exact (congrArg (· ≠ none) hba).mpr (Option.some_ne_none ba)
  · exact h.depthInBandAround_eq hbb hba

/-- In the band of 5 ticks around the near level there is no other. -/
theorem bandQty_near {base : UInt64} (hbase : Clear base) {c : Cells} {b : MiniBook}
    (h : Rests base c b) (s : Side) :
    bandQty 5 s (rung base s true) (b.book s.toU8) = (c.get s true).elim 0 UInt64.toNat := by
  have hin : InBand 5 s (rung base s true) (rung base s true) := by
    have h5 : (5 : UInt64).toNat = 5 := rfl
    cases s with
    | bid =>
      refine ⟨?_, UInt64.le_refl _⟩
      rw [UInt64.le_iff_toNat_le, satSub64_toNat]
      omega
    | ask =>
      refine ⟨UInt64.le_refl _, ?_⟩
      have hlt := (rung base .ask true).toNat_lt
      rw [UInt64.le_iff_toNat_le, satAdd64_toNat]
      omega
  have hout : ¬ InBand 5 s (rung base s true) (rung base s false) := by
    have hlo := hbase.lo
    have h5 : (5 : UInt64).toNat = 5 := rfl
    cases s with
    | bid =>
      rintro ⟨hlow, -⟩
      rw [UInt64.le_iff_toNat_le, satSub64_toNat, bid_toNat, bid_toNat, if_pos rfl,
        if_neg Bool.false_ne_true] at hlow
      omega
    | ask =>
      rintro ⟨-, hhigh⟩
      rw [UInt64.le_iff_toNat_le, satAdd64_toNat, ask_toNat hbase, ask_toNat hbase, if_pos rfl,
        if_neg Bool.false_ne_true] at hhigh
      omega
  rw [bandQty, h.total hbase]
  cases c.get s true <;> cases c.get s false <;> simp [hin, hout]

/-- A snapshot of the seeded band. -/
structure Full (base : UInt64) (snap : TopSnapshot) : Prop where
  mid : snap.mid = base
  bid : snap.bestBid = rung base .bid true
  ask : snap.bestAsk = rung base .ask true
  depth : snap.depthInBand = 8000

/-- What the ring has seen: the seeded band, or the mid below it. -/
structure Watched (base : UInt64) (d : FlashCrashDetector) : Prop where
  tuned : d.Tuned
  refractory : d.refractoryUntil = 0
  snaps : ∀ snap ∈ d.window, Full base snap ∨ snap.mid = base - 100

theorem snapAt_seen {base : UInt64} (hbase : Clear base) {c : Cells}
    {orders : ExtTreeMap UInt64 OrderMeta} {d : FlashCrashDetector} (h : Holds base c orders d)
    (htuned : d.Tuned) (hc : c.Started none) {m : UInt64} (hm : d.midprice = some m)
    (ev : SequencedEvent) : Full base (d.snapAt ev m) ∨ (d.snapAt ev m).mid = base - 100 := by
  obtain ⟨hbb, hba⟩ := h.touch hbase
  rw [midprice, hbb, hba] at hm
  rcases Cells.mid_cases hbase h.proper with (hnone | hnone) | ⟨hask, hbid, hmid⟩
  · rw [hnone] at hm
    cases hm
  · rw [hnone] at hm
    cases hbest : c.best base .bid <;> rw [hbest] at hm <;> cases hm
  · rw [hmid] at hm
    have hm' := Option.some.inj hm
    rcases hc with hgone | ⟨hfull, hnear⟩
    · rw [hgone] at hm'
      exact .inr hm'.symm
    · rw [hfull] at hm' hbid
      have hdepth : c.nearAsk = some 3000 := by
        rcases hnear with hnone | hsome
        · rw [Cells.best_none (s := .ask) hnone (h.proper hnone)] at hask
          cases hask
        · exact hsome
      rw [hbid] at hbb
      rw [hask] at hba
      refine .inl ⟨hm'.symm, congrArg (·.getD 0) hbb, congrArg (·.getD 0) hba, ?_⟩
      apply UInt64.toNat_inj.mp
      have hbids := bandQty_near hbase h.rests .bid
      have hasks := bandQty_near hbase h.rests .ask
      rw [show c.get .bid true = some 5000 from hfull] at hbids
      rw [show c.get .ask true = some 3000 from hdepth] at hasks
      refine (h.caches.depthInBand_toNat hbb hba).trans ?_
      rw [bandOf_eq (s := .bid) hbb, bandOf_eq (s := .ask) hba, htuned.ticks]
      exact congrArg₂ (· + ·) hbids hasks

theorem Watched.entered {base : UInt64} (hbase : Clear base) {d : FlashCrashDetector}
    (h : Watched base d) {ev : SequencedEvent} (hev : Steady base none d ev)
    (hfew : d.window.length < 9) :
    Watched base (d.entered ev) ∧ (d.entered ev).window.length ≤ d.window.length + 1 ∧
      (∀ snap ∈ d.window, snap ∈ (d.entered ev).window) ∧
      ∀ m, d.midprice = some m → d.snapAt ev m ∈ (d.entered ev).window := by
  obtain ⟨t, ht, -⟩ := hev.etype
  obtain ⟨c, orders, hd, hc⟩ := hev.before
  obtain ⟨hrefractory, hwindow, -⟩ := d.entered_frame ht
  cases hm : d.midprice with
  | none =>
    rw [snapBefore_none hm] at hwindow
    rw [hwindow]
    exact ⟨⟨h.tuned.entered ev, hrefractory.trans h.refractory, hwindow.symm ▸ h.snaps⟩,
      Nat.le_succ _, fun _ => id, fun m hm' => by cases hm'⟩
  | some m =>
    have hjoin : (d.entered ev).window = d.window ++ [d.snapAt ev m] := by
      have hsame := d.sameButBook_depthInBand
      have hfew' : d.depthInBand.1.window.length < 9 := by rw [hsame.counters.2.1]; exact hfew
      rw [hwindow, snapBefore_some hm, window_pushSnap (hsame.tuned h.tuned) hfew',
        hsame.counters.2.1]
    refine ⟨⟨h.tuned.entered ev, hrefractory.trans h.refractory, ?_⟩, ?_, ?_, ?_⟩
    · intro snap hsnap
      rw [hjoin, List.mem_append, List.mem_singleton] at hsnap
      rcases hsnap with hold | rfl
      · exact h.snaps snap hold
      · exact snapAt_seen hbase hd h.tuned hc hm ev
    · rw [hjoin, List.length_append, List.length_singleton]
    · intro snap hsnap
      rw [hjoin]
      exact List.mem_append_left _ hsnap
    · rintro m' ⟨⟩
      rw [hjoin]
      exact List.mem_append_right _ (List.mem_singleton_self _)

theorem Watched.along {base : UInt64} (hbase : Clear base) {d : FlashCrashDetector}
    (h : Watched base d) {evs : List SequencedEvent}
    (hevs : Machine.Along (Steady base none) FlashCrashDetector.entered d evs)
    (hfew : d.window.length + evs.length ≤ 9) :
    Watched base (evs.foldl FlashCrashDetector.entered d) ∧
      (evs.foldl FlashCrashDetector.entered d).window.length ≤ d.window.length + evs.length ∧
      ∀ snap ∈ d.window, snap ∈ (evs.foldl FlashCrashDetector.entered d).window := by
  induction evs generalizing d with
  | nil => exact ⟨h, le_rfl, fun _ => id⟩
  | cons ev evs ih =>
    rw [List.length_cons] at hfew
    obtain ⟨hnext, hlen, hkept, -⟩ := h.entered hbase hevs.1 (by omega)
    obtain ⟨hall, hlen', hkept'⟩ := ih hnext hevs.2 (by omega)
    refine ⟨hall, ?_, fun snap hsnap => hkept' snap (hkept snap hsnap)⟩
    rw [List.foldl_cons, List.length_cons]
    omega

/-- Every trade of the run counts a seller. -/
theorem sellAggr_along {base : UInt64} {a : Option UInt64} {d : FlashCrashDetector}
    {evs : List SequencedEvent} (hevs : Machine.Along (Steady base a) FlashCrashDetector.entered d evs)
    (hfew : d.sellAggr.toNat + evs.length < 2 ^ 32) :
    (evs.foldl FlashCrashDetector.entered d).sellAggr.toNat =
      d.sellAggr.toNat + evs.countP fun ev => ev.event.eventType = EventType.trade.toU8 := by
  induction evs generalizing d with
  | nil => rfl
  | cons ev evs ih =>
    have hsell := hevs.1.sell
    have h1 : (1 : UInt32).toNat = 1 := rfl
    rw [List.length_cons] at hfew
    rw [List.foldl_cons, List.countP_cons]
    by_cases htrade : ev.event.eventType = EventType.trade.toU8
    · rw [if_pos htrade] at hsell
      have hone := congrArg UInt32.toNat hsell
      rw [satAdd32_toNat, h1, min_eq_left (by omega)] at hone
      rw [ih hevs.2 (by omega), hone, if_pos (decide_eq_true htrade)]
      omega
    · rw [if_neg htrade] at hsell
      rw [ih hevs.2 (by rw [hsell]; omega), hsell, if_neg (by simpa using htrade)]
      omega

/-- A flag of this kind is among what the run returns. -/
def Flags (outs : List (Option ChaosEvent)) : Prop := ∃ flag, some flag ∈ outs ∧ flag.kind = .flashCrash

theorem processWith_kind {dropOk : UInt64 → UInt64 → Bool} {d : FlashCrashDetector}
    {ev : SequencedEvent} {flag : ChaosEvent} (h : (d.detectWith dropOk ev).2 = some flag) :
    flag.kind = .flashCrash := by
  revert h
  rw [detectWith]
  split
  · intro h
    cases h
  · split_ifs
    · intro h
      cases h
    · split
      · intro h
        cases h
      · dsimp only
        split_ifs
        · intro h
          cases h
        · rintro ⟨⟩
          rfl
        · intro h
          cases h

/-- As long as no flag is raised, the detector only takes the events in. -/
theorem flags_or_entered {base : UInt64} {a : Option UInt64} (dropOk : UInt64 → UInt64 → Bool)
    {d : FlashCrashDetector} (hrefractory : d.refractoryUntil = 0) {evs : List SequencedEvent}
    (hevs : Machine.Along (Steady base a) FlashCrashDetector.entered d evs) :
    Flags (Machine.run (processWith dropOk) d evs).2 ∨
      (Machine.run (processWith dropOk) d evs).1 = evs.foldl FlashCrashDetector.entered d := by
  induction evs generalizing d with
  | nil => exact .inr rfl
  | cons ev evs ih =>
    obtain ⟨t, ht, hbook⟩ := hevs.1.etype
    have hnow : (d.entered ev).refractoryUntil = 0 := (d.entered_frame ht).1.trans hrefractory
    have hstep := processWith_eq dropOk d ht hbook
    cases hflag : ((d.entered ev).detectWith dropOk ev).2 with
    | some flag =>
      refine .inl ⟨flag, ?_, processWith_kind hflag⟩
      rw [Machine.run, hstep, hflag]
      exact List.mem_cons_self
    | none =>
      have hsame := detectWith_same hnow hflag
      rw [Machine.run, hstep]
      dsimp only
      rw [hsame, List.foldl_cons]
      rcases ih hnow hevs.2 with ⟨flag, hmem, hkind⟩ | hrest
      · exact .inl ⟨flag, List.mem_cons_of_mem _ hmem, hkind⟩
      · exact .inr hrest

/-- So a flag is raised by the last event, where the detector that has taken them all in raises one, if
not before. -/
theorem flags_at_last {base : UInt64} {a : Option UInt64} {dropOk : UInt64 → UInt64 → Bool}
    {d : FlashCrashDetector} (hrefractory : d.refractoryUntil = 0) {evs : List SequencedEvent}
    {ev : SequencedEvent}
    (hevs : Machine.Along (Steady base a) FlashCrashDetector.entered d (evs ++ [ev]))
    (hlast : ∃ flag, (((evs ++ [ev]).foldl FlashCrashDetector.entered d).detectWith dropOk ev).2 =
      some flag ∧ flag.kind = .flashCrash) :
    Flags (Machine.run (processWith dropOk) d (evs ++ [ev])).2 := by
  obtain ⟨hbefore, hev, -⟩ := Machine.along_append.mp hevs
  obtain ⟨flag, hflag, hkind⟩ := hlast
  rw [Machine.run_append]
  rcases flags_or_entered dropOk hrefractory hbefore with ⟨flag', hmem, hkind'⟩ | hstate
  · exact ⟨flag', List.mem_append_left _ hmem, hkind'⟩
  · obtain ⟨t, ht, hbook⟩ := hev.etype
    refine ⟨flag, List.mem_append_right _ ?_, hkind⟩
    rw [List.foldl_append] at hflag
    rw [hstate, Machine.run, processWith_eq dropOk _ ht hbook]
    exact List.mem_cons.mpr (.inl hflag.symm)

theorem bpsMove_self (m : UInt64) : bpsMove m m = 0 := by
  rw [bpsMove]
  split_ifs with h0 h
  · rfl
  · dsimp only
    rw [UInt64.sub_self, UInt64.toNat_zero, Nat.zero_mul, Nat.zero_div]
    rfl
  · exact absurd (UInt64.le_refl m) h

theorem ofU64_fin {n : UInt64} (h : n.toNat ≤ 2 ^ 52) : Fp.ofU64 n = .fin n.toNat := by
  have hcast : ((n.toNat : ℤ) : ℚ) = n.toNat := Int.cast_natCast _
  have hle : (n.toNat : ℚ) ≤ 2 ^ 52 := by exact_mod_cast h
  rw [Fp.ofU64, ← hcast]
  refine Fp.ofRat_int ?_
  rw [hcast, abs_of_nonneg (Nat.cast_nonneg _)]
  exact hle

/-- Five eighths are exact, six tenths are less. -/
theorem rnd_share {k : ℕ} (hlo : 5000 ≤ k) (hhi : k ≤ 8000) :
    |(k : ℚ) / 8000| ≤ 2 ^ 52 ∧ rnd (6 / 10) ≤ rnd ((k : ℚ) / 8000) := by
  have hlo' : (5000 : ℚ) ≤ k := by exact_mod_cast hlo
  have hhi' : (k : ℚ) ≤ 8000 := by exact_mod_cast hhi
  have habs : |(k : ℚ) / 8000| ≤ 1 := by
    rw [abs_of_nonneg (div_nonneg (Nat.cast_nonneg _) (by norm_num))]
    linarith
  have hbelow : rnd (6 / 10) ≤ (5 : ℤ) / 2 ^ 3 :=
    rnd_le_dyadic (by norm_num) (by norm_num [abs_of_nonneg]) (by norm_num)
  have habove : (5 : ℤ) / 2 ^ 3 ≤ rnd ((k : ℚ) / 8000) := by
    refine le_rnd_dyadic (by norm_num) (habs.trans (by norm_num)) ?_
    push_cast
    linarith
  exact ⟨habs.trans (by norm_num), hbelow.trans habove⟩

/-- The depth check of `default_itch`. -/
def itchGate : UInt64 → UInt64 → Bool := dropOkFp (.ofRat (6 / 10))

/-- A band of 8000 of which at most 3000 are left has collapsed, in `binary64` too. -/
theorem itchGate_collapse {now : UInt64} (h : now.toNat ≤ 3000) : itchGate 8000 now = true := by
  have h8000 : (8000 : UInt64).toNat = 8000 := rfl
  have hmin : min now 8000 = now := if_pos (UInt64.le_iff_toNat_le.mpr (by omega))
  have hlost : (8000 - now).toNat = 8000 - now.toNat :=
    UInt64.toNat_sub_of_le _ _ (UInt64.le_iff_toNat_le.mpr (by omega))
  obtain ⟨habs, hle⟩ := rnd_share (k := (8000 - now).toNat) (by omega) (by omega)
  have hquot : (Fp.ofU64 (8000 - now)).div (Fp.ofU64 8000) =
      .fin (rnd (((8000 - now).toNat : ℚ) / 8000)) := by
    have hne : ¬ ((8000 : ℕ) : ℚ) = 0 := by norm_num
    rw [ofU64_fin (by omega), ofU64_fin (by omega), h8000, Fp.div, if_neg hne]
    exact Fp.ofRat_of_le habs
  have hpct : Fp.ofRat (6 / 10) = .fin (rnd (6 / 10)) := Fp.ofRat_of_le (by norm_num [abs_of_nonneg])
  rw [itchGate, dropOkFp, hmin, hquot, hpct]
  split_ifs with hzero hnone
  · rfl
  · exact absurd hnone (by decide)
  · show (!decide (rnd (((8000 - now).toNat : ℚ) / 8000) < rnd (6 / 10))) = true
    rw [decide_eq_false hle.not_gt]
    rfl

/-- The detector of the default chain, before any event. -/
theorem holds_itch (base : UInt64) :
    Holds base ⟨none, none, none, none⟩ ∅ ChaosChain.defaultItch.crash where
  caches := cachesHold_new 10 8 (by decide) 5 0.6 3 2048
  rests := Rests.new (by decide)
  proper := fun _ => rfl
  orders := rfl

theorem tuned_itch : ChaosChain.defaultItch.crash.Tuned := ⟨rfl, rfl, rfl, rfl, by decide⟩

/-- The third trade finds the gap, the collapse and three sellers. -/
theorem third_fires {base : UInt64} (hbase : Clear base) (hlow : base.toNat ≤ 100000)
    {d : FlashCrashDetector} (h : Watched base d) {x u v : UInt64}
    {orders : ExtTreeMap UInt64 OrderMeta} (hd : Holds base ⟨none, some x, some u, some v⟩ orders d)
    (hu : u.toNat ≤ 3000) (hsell : 3 ≤ d.sellAggr.toNat) {ev : SequencedEvent}
    (hfull : ∃ snap ∈ d.window, snap.mid = base ∧ snap.seq.toNat < ev.seq.toNat ∧
      ev.seq.toNat ≤ snap.seq.toNat + 8) :
    ∃ flag, (d.detectWith itchGate ev).2 = some flag ∧
      flag.kind = .flashCrash := by
  have hlo := hbase.lo
  have h100 : (100 : UInt64).toNat = 100 := rfl
  have hfall : (10 : UInt32) ≤ bpsMove base (base - 100) := by
    rw [← UInt32.not_lt, fall_small_iff hbase]
    omega
  have hmid : d.midprice = some (base - 100) :=
    hd.mid_of_touch hbase (Cells.best_ne_none false (Option.some_ne_none x))
      (Cells.best_ne_none true (Option.some_ne_none u))
  have hnow : (d.depthInBandAround (rung base .bid true) (rung base .ask true)).toNat ≤ 3000 := by
    have hbids := bandQty_near hbase hd.rests .bid
    have hasks := bandQty_near hbase hd.rests .ask
    rw [depthInBandAround_toNat hd.caches.fits, h.tuned.ticks]
    refine (congrArg₂ (· + ·) hbids hasks).le.trans ?_
    show 0 + u.toNat ≤ 3000
    omega
  refine detectWith_fires hmid h.refractory ?_ ?_ ?_
  · rw [h.tuned.aggr]
    exact UInt32.le_iff_toNat_le.mpr hsell
  · obtain ⟨snap, hsnap, hbefore, hpos, hspan⟩ := hfull
    have h8 : (8 : UInt32).toNat = 8 := rfl
    refine ⟨snap, hsnap, hpos, ?_, ?_⟩
    · rw [h.tuned.span, h8]
      exact hspan
    · rw [h.tuned.gap, hbefore]
      exact hfall
  · intro snap hsnap hbps
    rcases h.snaps snap hsnap with hseen | hbelow
    · rw [hseen.mid, hseen.bid, hseen.ask, hseen.depth]
      refine ⟨?_, itchGate_collapse hnow⟩
      rw [UInt64.lt_iff_toNat_lt, UInt64.toNat_sub_of_le _ _ (UInt64.le_iff_toNat_le.mpr (by omega))]
      omega
    · rw [hbelow, bpsMove_self, h.tuned.gap] at hbps
      exact absurd hbps (by decide)

/-- A burst has three trades up to the third, after the cut there may be. -/
theorem burst_counts (base oid seq nowNs cut : UInt64) :
    (burst base oid seq nowNs cut).length = (if 0 < cut then 2 else 1) + 2 ∧
      (burst base oid seq nowNs cut).countP
        (fun ev => ev.event.eventType = EventType.trade.toU8) = 3 := by
  rw [burst, cutting]
  split_ifs <;> exact ⟨rfl, rfl⟩

/-- The mid is the base price while the near levels are there. -/
theorem Holds.mid_near {base : UInt64} (hbase : Clear base) {x u : UInt64} {y v : Option UInt64}
    {orders : ExtTreeMap UInt64 OrderMeta} {d : FlashCrashDetector}
    (h : Holds base ⟨some x, y, some u, v⟩ orders d) : d.midprice = some base :=
  h.mid_of_touch hbase (Cells.best_ne_none true (Option.some_ne_none x))
    (Cells.best_ne_none true (Option.some_ne_none u))

section

variable {base : UInt64} (hbase : Clear base) {oid : UInt64} (hpos : 0 < oid.toNat)
  (hlast : oid.toNat + 8 < 2 ^ 64) {seq : UInt64} (hseq : seq.toNat + 9 < 2 ^ 64) (nowNs : UInt64)
  {cut : UInt64} (hcut : cut.toNat ≤ 2900)

include hbase hpos hlast hseq hcut

/-- The first step up to its third trade, on a detector that raises no flag: the snapshot before the
cancel of the first add is still in sight. -/
theorem upto_third :
    let evs := seeding base oid seq nowNs ++ pulling base oid seq nowNs :: burst base oid seq nowNs cut
    let third := selling base oid seq nowNs ((if 0 < cut then 2 else 1) + 2) 2
    let d := evs.foldl entered ChaosChain.defaultItch.crash
    Machine.Along (Steady base none) entered ChaosChain.defaultItch.crash evs ∧ Watched base d ∧
      3 ≤ d.sellAggr.toNat ∧
      (∃ (x u v : UInt64) (orders : ExtTreeMap UInt64 OrderMeta),
        Holds base ⟨none, some x, some u, some v⟩ orders d ∧ u.toNat ≤ 3000) ∧
      ∃ snap ∈ d.window, snap.mid = base ∧ snap.seq.toNat < third.seq.toNat ∧
        third.seq.toNat ≤ snap.seq.toNat + 8 := by
  let d₀ := ChaosChain.defaultItch.crash
  let n := if 0 < cut then 2 else 1
  let pull := pulling base oid seq nowNs
  let third := selling base oid seq nowNs (n + 2) 2
  have hn : n ≤ 2 := by
    show (if 0 < cut then 2 else 1) ≤ 2
    split_ifs <;> omega
  have hsame (d : FlashCrashDetector) (ev : SequencedEvent) :
      SameCaches (d.entered ev) (d.entered ev) := SameCaches.refl _
  obtain ⟨along₁, s4, along₂, ⟨orders₁, h1⟩, orders₂, h2, -⟩ :=
    (holds_itch base).burst hbase hsame hpos hlast (by decide)
      (fun i _ => ExtTreeMap.getElem?_empty) seq nowNs hcut
  let d₁ := (seeding base oid seq nowNs).foldl entered d₀
  obtain ⟨hlen, hcount⟩ := burst_counts base oid seq nowNs cut
  have hall : Machine.Along (Steady base none) entered d₀
      (seeding base oid seq nowNs ++ pull :: burst base oid seq nowNs cut) :=
    Machine.along_append.mpr ⟨along₁, s4, along₂⟩
  have hwatched : Watched base d₀ := ⟨tuned_itch, rfl, fun snap hsnap => by cases hsnap⟩
  have hseeding : d₀.window.length + (seeding base oid seq nowNs).length = 4 := rfl
  obtain ⟨hw1, hlen1, -⟩ := hwatched.along hbase along₁ (by omega)
  obtain ⟨hw2, hlen2, -, hjoin⟩ := hw1.entered hbase s4 (by omega)
  obtain ⟨hw3, -, hkept⟩ := hw2.along hbase along₂ (by omega)
  have hseen : d₁.snapAt pull base ∈ ((burst base oid seq nowNs cut).foldl entered
      (d₁.entered pull)).window := hkept _ (hjoin base (h1.mid_near hbase))
  have hfew : d₀.sellAggr.toNat = 0 := rfl
  have hlen4 : (seeding base oid seq nowNs).length = 4 := rfl
  have hsells := sellAggr_along hall (by
    rw [List.length_append, List.length_cons, hlen]
    omega)
  have hsold : (seeding base oid seq nowNs ++ pull :: burst base oid seq nowNs cut).countP
      (fun ev => ev.event.eventType = EventType.trade.toU8) = 3 := by
    rw [List.countP_append, List.countP_cons, hcount]
    rfl
  have hu : ((none : Option UInt64).getD 0 + 3000 - cut).toNat ≤ 3000 := by
    have h3000 : ((none : Option UInt64).getD 0 + 3000).toNat = 3000 := rfl
    rw [UInt64.toNat_sub_of_le _ _ (UInt64.le_iff_toNat_le.mpr (by omega))]
    omega
  have hbefore : (d₁.snapAt pull base).seq.toNat = seq.toNat + 4 := after_toNat (by omega)
  have hthird : third.seq.toNat = seq.toNat + (n + 2 + 4) := after_toNat (by omega)
  have hspan : (d₁.snapAt pull base).seq.toNat < third.seq.toNat ∧
      third.seq.toNat ≤ (d₁.snapAt pull base).seq.toNat + 8 := by
    rw [hbefore, hthird]
    omega
  dsimp only
  refine ⟨hall, ?_, ?_, ?_⟩
  · rw [List.foldl_append]
    exact hw3
  · rw [hsells, hfew, hsold]
  · rw [List.foldl_append]
    exact ⟨⟨_, _, _, orders₂, h2, hu⟩, _, hseen, rfl, hspan⟩

end

/-- A flag is raised in the first step from a price of at most 100000, at its third trade if not
before. -/
theorem first_burst_flags {base : UInt64} (hbase : Clear base) (hlow : base.toNat ≤ 100000)
    {oid : UInt64} (hpos : 0 < oid.toNat) (hlast : oid.toNat + 8 < 2 ^ 64) {seq : UInt64}
    (hseq : seq.toNat + 9 < 2 ^ 64) (nowNs : UInt64) {cut : UInt64} (hcut : cut.toNat ≤ 2900) :
    Flags (Machine.run (processWith itchGate) ChaosChain.defaultItch.crash
      (batch base oid seq nowNs cut)).2 := by
  obtain ⟨halong, hwatched, hsell, ⟨x, u, v, orders, hd, hu⟩, hfull⟩ :=
    upto_third hbase hpos hlast hseq nowNs hcut
  have hfires := third_fires hbase hlow hwatched hd hu hsell hfull
  have hsplit : seeding base oid seq nowNs ++ pulling base oid seq nowNs ::
      burst base oid seq nowNs cut =
      (seeding base oid seq nowNs ++ pulling base oid seq nowNs ::
        (cutting base oid seq nowNs cut ++ selling2 base oid seq nowNs (if 0 < cut then 2 else 1))) ++
        [selling base oid seq nowNs ((if 0 < cut then 2 else 1) + 2) 2] := by
    simp only [burst, List.append_assoc, List.cons_append]
  rw [hsplit] at halong hfires
  obtain ⟨flag, hflag, hkind⟩ := flags_at_last rfl halong hfires
  rw [batch_eq, hsplit, Machine.run_append]
  exact ⟨flag, List.mem_append_left _ hflag, hkind⟩

end FlashCrashDetector

end Flowlab.Chaos
