import Mathlib.Data.List.TakeWhile
import Flowlab.Chaos.IgnitionTrades

namespace Flowlab.Chaos

open Std Framework Framework.Machine
open Flowlab.Core (EventType SequencedEvent satSub64 satSub64_toNat)

theorem satSub64_mono_left {a b : UInt64} (h : a ≤ b) (c : UInt64) : satSub64 a c ≤ satSub64 b c := by
  rw [UInt64.le_iff_toNat_le] at h ⊢
  rw [satSub64_toNat, satSub64_toNat]
  omega

theorem satSub64_anti_right {a b : UInt64} (h : a ≤ b) (c : UInt64) : satSub64 c b ≤ satSub64 c a := by
  rw [UInt64.le_iff_toNat_le] at h ⊢
  rw [satSub64_toNat, satSub64_toNat]
  omega

/-- What is left of a sorted window starts with an entry that was not dropped. -/
theorem within_of_mem_dropWhile {l : List MidSample} (hl : l.Pairwise fun s t => s.seq ≤ t.seq)
    {p : MidSample → Bool} {x : MidSample} (hx : x ∈ l.dropWhile p) :
    ∃ h, p h = false ∧ h.seq ≤ x.seq := by
  induction l with
  | nil => simp at hx
  | cons a l ih =>
    obtain ⟨ha, hl'⟩ := List.pairwise_cons.mp hl
    rw [List.dropWhile_cons] at hx
    split_ifs at hx with hp
    · exact ih hl' hx
    · refine ⟨a, Bool.eq_false_iff.mpr hp, ?_⟩
      rcases List.mem_cons.mp hx with rfl | hmem
      · exact UInt64.le_refl _
      · exact ha x hmem

/-- An entry that is gone was one to drop. -/
theorem dropped_of_not_mem {l : List MidSample} {p : MidSample → Bool} {x : MidSample}
    (hx : x ∈ l) (hgone : x ∉ l.dropWhile p) : p x = true := by
  rw [← List.takeWhile_append_dropWhile (p := p) (l := l)] at hx
  rcases List.mem_append.mp hx with hx | hx
  · exact List.mem_takeWhile_imp hx
  · exact absurd hx hgone

/-- The entry before the newest one of a window is the last that the window had. -/
theorem getLast_of_dropWhile {l : List MidSample} {p : MidSample → Bool} {x y : MidSample}
    (h : ((l ++ [x]).dropWhile p).reverse[1]? = some y) : l.getLast? = some y := by
  have hpre : ((l ++ [x]).dropWhile p).reverse <+: x :: l.reverse := by
    have hsuffix := List.reverse_prefix.mpr (List.dropWhile_suffix p (l := l ++ [x]))
    rwa [List.reverse_append] at hsuffix
  obtain ⟨r, hr⟩ := hpre
  have hy : (x :: l.reverse)[1]? = some y := by
    rw [← hr, List.getElem?_append_left (List.getElem?_eq_some_iff.mp h).1]
    exact h
  rwa [List.getElem?_cons_succ, ← List.head?_eq_getElem?, List.head?_reverse] at hy

/-- What a window keeps, a longer one keeps as well. -/
theorem mem_dropWhile_append {l r : List MidSample} {p : MidSample → Bool} {x : MidSample}
    (h : x ∈ l.dropWhile p) : x ∈ (l ++ r).dropWhile p := by
  have hne : (l.dropWhile p).isEmpty = false := by
    rw [List.isEmpty_eq_false_iff]
    exact List.ne_nil_of_mem h
  rw [List.dropWhile_append, hne]
  exact List.mem_append_left _ h

namespace MomentumIgnitionDetector

/-- The sample that the current run started from. -/
def startSample (d : MomentumIgnitionDetector) : MidSample :=
  ⟨d.runStartSeq, d.runStartTs, d.runStartMid⟩

/-- A mid that starts a new run: it differs from the last sample, and not the way the run goes. -/
def Turns (d : MomentumIgnitionDetector) (mid : UInt64) : Prop :=
  d.Moves mid ∧ ∃ last, d.mids.getLast? = some last ∧
    (if last.mid < mid then some Dir.up else some Dir.down) ≠ d.runDir

/-- The mid after an event starts a new run. -/
def TurnsAt (d : MomentumIgnitionDetector) (ev : SequencedEvent) : Prop :=
  ∃ mid, (d.applied ev).toMiniBook.midprice = some mid ∧ d.Turns mid

/-- The eviction of an event leaves the sample that the run started from. -/
def KeepsStart (d : MomentumIgnitionDetector) (ev : SequencedEvent) : Prop :=
  d.startSample ∈ (d.evictExpired ev.seq ev.event.ts).mids

/-- The run and the windows are the same. -/
structure SameStart (d d' : MomentumIgnitionDetector) : Prop where
  dir : d'.runDir = d.runDir
  start : d'.startSample = d.startSample
  seqWindow : d'.seqWindow = d.seqWindow
  timeWindow : d'.timeWindowNs = d.timeWindowNs

theorem sameStart_applied (d : MomentumIgnitionDetector) (ev : SequencedEvent) :
    SameStart d (d.applied ev) := by
  simp only [applied]
  cases EventType.fromU8 ev.event.eventType with
  | none => exact ⟨rfl, rfl, rfl, rfl⟩
  | some etype =>
    cases etype with
    | trade =>
      simp only [mutate]
      cases (d.toMiniBook.onTrade ev.event).2 with
      | none => exact ⟨rfl, rfl, rfl, rfl⟩
      | some trade =>
        dsimp only
        cases trade.aggressor <;> exact ⟨rfl, rfl, rfl, rfl⟩
    | _ => exact ⟨rfl, rfl, rfl, rfl⟩

/-- The samples before the eviction of a step. -/
def pushed (d : MomentumIgnitionDetector) (ev : SequencedEvent) (mid : UInt64) : List MidSample :=
  if d.Moves mid then d.mids ++ [⟨ev.seq, ev.event.ts, mid⟩] else d.mids

theorem slide_spec (d : MomentumIgnitionDetector) (ev : SequencedEvent) (mid : UInt64) :
    SameStart d (d.slide ev mid) ∧
    (d.slide ev mid).mids =
      (d.pushed ev mid).dropWhile fun s => decide (d.Expired ev.seq ev.event.ts s) := by
  simp only [slide, pushed, evictExpired]
  split_ifs <;> exact ⟨⟨rfl, rfl, rfl, rfl⟩, rfl⟩

/-- The windows do not change, and a run keeps its start or restarts at a sample of the window. -/
theorem updateRun_spec (d : MomentumIgnitionDetector) (mid seq ts : UInt64) :
    (d.updateRun mid seq ts).seqWindow = d.seqWindow ∧
    (d.updateRun mid seq ts).timeWindowNs = d.timeWindowNs ∧
    ((d.updateRun mid seq ts).runDir = none ∨
      ((d.updateRun mid seq ts).runDir = d.runDir ∧
        (d.updateRun mid seq ts).startSample = d.startSample) ∨
      (d.updateRun mid seq ts).startSample ∈ d.mids) := by
  simp only [updateRun]
  split
  · exact ⟨rfl, rfl, Or.inl rfl⟩
  · next prev hprev =>
    have hmem : prev ∈ d.mids := List.mem_reverse.mp (List.mem_of_getElem? hprev)
    split_ifs with hmid hdir hdir
    · exact ⟨rfl, rfl, Or.inr (Or.inl ⟨rfl, rfl⟩)⟩
    · exact ⟨rfl, rfl, Or.inr (Or.inl ⟨rfl, rfl⟩)⟩
    · exact ⟨rfl, rfl, Or.inr (Or.inr hmem)⟩
    · exact ⟨rfl, rfl, Or.inr (Or.inl ⟨rfl, rfl⟩)⟩
    · exact ⟨rfl, rfl, Or.inr (Or.inr hmem)⟩

theorem evaluate_start (d : MomentumIgnitionDetector) (ev : SequencedEvent) (mid : UInt64) :
    (d.evaluate ev mid).1.startSample = d.startSample ∧
    (d.evaluate ev mid).1.seqWindow = d.seqWindow ∧
    (d.evaluate ev mid).1.timeWindowNs = d.timeWindowNs ∧
    ((d.evaluate ev mid).1.runDir = none ∨ (d.evaluate ev mid).1.runDir = d.runDir) := by
  simp only [evaluate]
  split
  · exact ⟨rfl, rfl, rfl, Or.inr rfl⟩
  · split_ifs
    · exact ⟨rfl, rfl, rfl, Or.inr rfl⟩
    · exact ⟨rfl, rfl, rfl, Or.inr rfl⟩
    · exact ⟨rfl, rfl, rfl, Or.inr rfl⟩
    · exact ⟨rfl, rfl, rfl, Or.inl rfl⟩
    · exact ⟨rfl, rfl, rfl, Or.inr rfl⟩

/-- The samples are in order up to `c`, and a run's start is among them or, with the time window off,
older than the sequence window. -/
structure Orderly (d : MomentumIgnitionDetector) (c : UInt64) : Prop where
  sorted : d.mids.Pairwise fun s t => s.seq ≤ t.seq
  bounded : ∀ s ∈ d.mids, s.seq ≤ c
  start : d.runDir ≠ none → d.startSample.seq ≤ c
  kept : d.timeWindowNs = 0 → d.runDir ≠ none →
    d.startSample ∈ d.mids ∨ d.seqWindow < satSub64 c d.startSample.seq

theorem Orderly.later {d : MomentumIgnitionDetector} {c c' : UInt64} (h : d.Orderly c)
    (hc : c ≤ c') : d.Orderly c' where
  sorted := h.sorted
  bounded s hs := UInt64.le_trans (h.bounded s hs) hc
  start hdir := UInt64.le_trans (h.start hdir) hc
  kept ht hdir := (h.kept ht hdir).imp_right fun hlt =>
    UInt64.lt_of_lt_of_le hlt (satSub64_mono_left hc _)

theorem orderly_new (seqWindow timeWindowNs : UInt64) (maxBookLevels : Nat) (minMoveBps : UInt32)
    (minTrades : UInt64) (minConsecutive : UInt32) (cooldownSeq c : UInt64) :
    (new seqWindow timeWindowNs maxBookLevels minMoveBps minTrades minConsecutive
      cooldownSeq).Orderly c where
  sorted := List.Pairwise.nil
  bounded _ hs := absurd hs List.not_mem_nil
  start hdir := absurd rfl hdir
  kept _ hdir := absurd rfl hdir

theorem mem_pushed {d : MomentumIgnitionDetector} {ev : SequencedEvent} {mid : UInt64}
    {s : MidSample} (h : s ∈ d.mids) : s ∈ d.pushed ev mid := by
  simp only [pushed]
  split_ifs
  · exact List.mem_append_left _ h
  · exact h

theorem Orderly.pushed {d : MomentumIgnitionDetector} {c : UInt64} (h : d.Orderly c)
    {ev : SequencedEvent} (hc : c ≤ ev.seq) (mid : UInt64) :
    (d.pushed ev mid).Pairwise (fun s t => s.seq ≤ t.seq) ∧
      ∀ s ∈ d.pushed ev mid, s.seq ≤ ev.seq := by
  simp only [MomentumIgnitionDetector.pushed]
  split_ifs
  · constructor
    · refine List.pairwise_append.mpr ⟨h.sorted, by simp, ?_⟩
      intro s hs t ht
      rw [List.mem_singleton.mp ht]
      exact UInt64.le_trans (h.bounded s hs) hc
    · intro s hs
      rcases List.mem_append.mp hs with hs | hs
      · exact UInt64.le_trans (h.bounded s hs) hc
      · rw [List.mem_singleton.mp hs]
        exact UInt64.le_refl _
  · exact ⟨h.sorted, fun s hs => UInt64.le_trans (h.bounded s hs) hc⟩

/-- Sliding the window loses a run's start only to the age it has by then. -/
theorem Orderly.slide {d : MomentumIgnitionDetector} {c : UInt64} (h : d.Orderly c)
    {ev : SequencedEvent} (hc : c ≤ ev.seq) (mid : UInt64) : (d.slide ev mid).Orderly ev.seq := by
  obtain ⟨hsame, hmids⟩ := d.slide_spec ev mid
  obtain ⟨hsorted, hbounded⟩ := h.pushed hc mid
  have hsub := (List.dropWhile_sublist (l := d.pushed ev mid)
    (fun s => decide (d.Expired ev.seq ev.event.ts s)))
  rw [← hmids] at hsub
  refine ⟨hsorted.sublist hsub, fun s hs => hbounded s (hsub.mem hs), ?_, ?_⟩
  · intro hdir
    rw [hsame.dir] at hdir
    rw [hsame.start]
    exact UInt64.le_trans (h.start hdir) hc
  · intro ht hdir
    rw [hsame.timeWindow] at ht
    rw [hsame.dir] at hdir
    rw [hsame.start, hsame.seqWindow]
    rcases h.kept ht hdir with hin | hold
    · by_cases hleft : d.startSample ∈ (d.slide ev mid).mids
      · exact Or.inl hleft
      · rw [hmids] at hleft
        have hexpired := of_decide_eq_true (dropped_of_not_mem (mem_pushed hin) hleft)
        rcases hexpired with ⟨_, hage⟩ | ⟨hon, _⟩
        · exact Or.inr hage
        · rw [ht] at hon
          exact absurd hon (by decide)
    · exact Or.inr (UInt64.lt_of_lt_of_le hold (satSub64_mono_left hc _))

theorem Orderly.updateRun {d : MomentumIgnitionDetector} {c : UInt64} (h : d.Orderly c)
    (mid seq ts : UInt64) : (d.updateRun mid seq ts).Orderly c := by
  have hmids := (d.sameRun_updateRun mid seq ts).mids
  obtain ⟨hseq, htime, hrun⟩ := d.updateRun_spec mid seq ts
  refine ⟨by rw [hmids]; exact h.sorted, by rw [hmids]; exact h.bounded, ?_, ?_⟩
  · intro hdir
    rcases hrun with hnone | ⟨hdir', hstart⟩ | hmem
    · exact absurd hnone hdir
    · rw [hstart]
      exact h.start (hdir' ▸ hdir)
    · exact h.bounded _ hmem
  · intro ht hdir
    rw [htime] at ht
    rw [hmids, hseq]
    rcases hrun with hnone | ⟨hdir', hstart⟩ | hmem
    · exact absurd hnone hdir
    · rw [hstart]
      exact h.kept ht (hdir' ▸ hdir)
    · exact Or.inl hmem

theorem Orderly.advance {d : MomentumIgnitionDetector} {c : UInt64} (h : d.Orderly c)
    {ev : SequencedEvent} (hc : c ≤ ev.seq) (mid : UInt64) : (d.advance ev mid).Orderly ev.seq := by
  simp only [MomentumIgnitionDetector.advance]
  split_ifs
  · exact (h.slide hc mid).updateRun mid ev.seq ev.event.ts
  · exact h.slide hc mid

theorem Orderly.evaluate {d : MomentumIgnitionDetector} {c : UInt64} (h : d.Orderly c)
    (ev : SequencedEvent) (mid : UInt64) : (d.evaluate ev mid).1.Orderly c := by
  have hmids := (d.sameRun_evaluate ev mid).mids
  obtain ⟨hstart, hseq, htime, hdir⟩ := d.evaluate_start ev mid
  refine ⟨by rw [hmids]; exact h.sorted, by rw [hmids]; exact h.bounded, ?_, ?_⟩
  · intro hne
    rw [hstart]
    rcases hdir with hnone | hdir
    · exact absurd hnone hne
    · exact h.start (hdir ▸ hne)
  · intro ht hne
    rw [hmids, hstart, hseq]
    rcases hdir with hnone | hdir
    · exact absurd hnone hne
    · exact h.kept (htime ▸ ht) (hdir ▸ hne)

theorem Orderly.applied {d : MomentumIgnitionDetector} {c : UInt64} (h : d.Orderly c)
    (ev : SequencedEvent) : (d.applied ev).Orderly c := by
  have hmids := (d.applied_counters ev).1
  have hsame := d.sameStart_applied ev
  refine ⟨by rw [hmids]; exact h.sorted, by rw [hmids]; exact h.bounded, ?_, ?_⟩
  · intro hdir
    rw [hsame.start]
    exact h.start (hsame.dir ▸ hdir)
  · intro ht hdir
    rw [hmids, hsame.start, hsame.seqWindow]
    exact h.kept (hsame.timeWindow ▸ ht) (hsame.dir ▸ hdir)

theorem Orderly.process {d : MomentumIgnitionDetector} {c : UInt64} (h : d.Orderly c)
    {ev : SequencedEvent} (hc : c ≤ ev.seq) : (d.process ev).1.Orderly ev.seq := by
  rcases d.process_cases ev with hp | ⟨mid, _, hp⟩
  · rw [hp]
    exact (h.applied ev).later hc
  · rw [hp, sampleAt]
    split_ifs
    · exact (h.applied ev).advance hc mid
    · exact ((h.applied ev).advance hc mid).evaluate ev mid

theorem orderly_run {d : MomentumIgnitionDetector} {evs : List SequencedEvent}
    (hnew : ∀ c, d.Orderly c) (hevs : evs.Pairwise fun a b => a.seq ≤ b.seq) {c : UInt64}
    (hc : ∀ ev ∈ evs, ev.seq ≤ c) : (d.run evs).Orderly c := by
  induction evs using List.reverseRecOn generalizing c with
  | nil => exact hnew c
  | append_singleton evs ev ih =>
    obtain ⟨hinit, _, hlast⟩ := List.pairwise_append.mp hevs
    rw [run, List.foldl_append]
    refine ((ih hinit (c := ev.seq) ?_).process (UInt64.le_refl _)).later (hc ev (by simp))
    intro e he
    exact hlast e he ev (by simp)

/-- The windows are parameters. -/
theorem process_windows (d : MomentumIgnitionDetector) (ev : SequencedEvent) :
    (d.process ev).1.seqWindow = d.seqWindow ∧ (d.process ev).1.timeWindowNs = d.timeWindowNs := by
  have happlied := d.sameStart_applied ev
  rcases d.process_cases ev with hp | ⟨mid, _, hp⟩
  · rw [hp]
    exact ⟨happlied.seqWindow, happlied.timeWindow⟩
  · have hslide := ((d.applied ev).slide_spec ev mid).1
    have hadvance : ((d.applied ev).advance ev mid).seqWindow = (d.applied ev).seqWindow ∧
        ((d.applied ev).advance ev mid).timeWindowNs = (d.applied ev).timeWindowNs := by
      simp only [MomentumIgnitionDetector.advance]
      split_ifs
      · obtain ⟨hs, ht, _⟩ := ((d.applied ev).slide ev mid).updateRun_spec mid ev.seq ev.event.ts
        exact ⟨hs.trans hslide.seqWindow, ht.trans hslide.timeWindow⟩
      · exact ⟨hslide.seqWindow, hslide.timeWindow⟩
    obtain ⟨_, hs, ht, _⟩ := ((d.applied ev).advance ev mid).evaluate_start ev mid
    rw [hp, sampleAt]
    split_ifs
    · exact ⟨hadvance.1.trans happlied.seqWindow, hadvance.2.trans happlied.timeWindow⟩
    · exact ⟨hs.trans (hadvance.1.trans happlied.seqWindow),
        ht.trans (hadvance.2.trans happlied.timeWindow)⟩

theorem run_windows (d : MomentumIgnitionDetector) (evs : List SequencedEvent) :
    (d.run evs).seqWindow = d.seqWindow ∧ (d.run evs).timeWindowNs = d.timeWindowNs := by
  induction evs generalizing d with
  | nil => exact ⟨rfl, rfl⟩
  | cons ev evs ih =>
    obtain ⟨hs, ht⟩ := ih (d.process ev).1
    obtain ⟨hs', ht'⟩ := d.process_windows ev
    exact ⟨hs.trans hs', ht.trans ht'⟩

theorem evictExpired_mids (d : MomentumIgnitionDetector) (curSeq curTs : UInt64) :
    (d.evictExpired curSeq curTs).mids =
      d.mids.dropWhile fun s => decide (d.Expired curSeq curTs s) := by
  simp only [evictExpired]
  split_ifs <;> rfl

/-- A run goes on from where it started unless the mid turns it; then it starts inside the window. -/
theorem advance_start {d : MomentumIgnitionDetector} {ev : SequencedEvent} {mid : UInt64}
    (hdir : (d.advance ev mid).runDir ≠ none) :
    (¬ d.Turns mid ∧ (d.advance ev mid).runDir = d.runDir ∧
      (d.advance ev mid).startSample = d.startSample) ∨
    (d.Turns mid ∧ (d.advance ev mid).startSample ∈ (d.slide ev mid).mids) := by
  obtain ⟨hsame, hmids⟩ := d.slide_spec ev mid
  by_cases hmoves : d.Moves mid
  · simp only [advance, if_pos hmoves, updateRun] at hdir ⊢
    cases hprev : (d.slide ev mid).mids.reverse[1]? with
    | none =>
      rw [hprev] at hdir
      exact absurd rfl hdir
    | some prev =>
      have hlast : d.mids.getLast? = some prev := by
        rw [hmids, pushed, if_pos hmoves] at hprev
        exact getLast_of_dropWhile hprev
      have hmid : ¬ mid = prev.mid := by
        intro hmid
        rw [Moves, hlast, hmid] at hmoves
        exact hmoves rfl
      simp only [if_neg hmid]
      by_cases hturn : (if prev.mid < mid then some Dir.up else some Dir.down) = d.runDir
      · rw [hsame.dir, if_pos hturn]
        refine Or.inl ⟨?_, rfl, hsame.start⟩
        rintro ⟨_, last, hlast', hne⟩
        rw [hlast] at hlast'
        rw [← Option.some.inj hlast'] at hne
        exact hne hturn
      · rw [hsame.dir, if_neg hturn]
        exact Or.inr ⟨⟨hmoves, prev, hlast, hturn⟩,
          List.mem_reverse.mp (List.mem_of_getElem? hprev)⟩
  · simp only [advance, if_neg hmoves]
    exact Or.inl ⟨fun h => hmoves h.1, hsame.dir, hsame.start⟩

/-- What an event leaves in place before it samples. -/
theorem turns_applied (d : MomentumIgnitionDetector) (ev : SequencedEvent) (mid : UInt64) :
    (d.applied ev).Turns mid ↔ d.Turns mid := by
  simp only [Turns, Moves, (d.applied_counters ev).1, (d.sameStart_applied ev).dir]

/-- A sample that is left in the window is as young as the sequence window asks. -/
theorem slide_young {d : MomentumIgnitionDetector} {c : UInt64} (h : d.Orderly c)
    (hw : 0 < d.seqWindow) {ev : SequencedEvent} (hc : c ≤ ev.seq) {mid : UInt64} {s : MidSample}
    (hs : s ∈ (d.slide ev mid).mids) : satSub64 ev.seq s.seq ≤ d.seqWindow := by
  rw [(d.slide_spec ev mid).2] at hs
  obtain ⟨a, ha, hle⟩ := within_of_mem_dropWhile (h.pushed hc mid).1 hs
  have hyoung := of_decide_eq_false ha
  rw [Expired, not_or] at hyoung
  have hage := UInt64.not_lt.mp fun hlt => hyoung.1 ⟨hw, hlt⟩
  exact UInt64.le_trans (satSub64_anti_right hle _) hage

theorem keepsStart_slide {d : MomentumIgnitionDetector} {ev : SequencedEvent}
    (h : d.KeepsStart ev) (mid : UInt64) : d.startSample ∈ (d.slide ev mid).mids := by
  rw [KeepsStart, evictExpired_mids] at h
  rw [(d.slide_spec ev mid).2, pushed]
  split_ifs
  · exact mem_dropWhile_append h
  · exact h

/-- With the time window off, a run's start stays in the deque as long as it is young. -/
theorem keepsStart_of_young {d : MomentumIgnitionDetector} {c : UInt64} (h : d.Orderly c)
    {ev : SequencedEvent} (hc : c ≤ ev.seq) (ht : d.timeWindowNs = 0) (hdir : d.runDir ≠ none)
    (hyoung : satSub64 ev.seq d.startSample.seq ≤ d.seqWindow) : d.KeepsStart ev := by
  rw [KeepsStart, evictExpired_mids]
  rcases h.kept ht hdir with hin | hold
  · by_contra hgone
    rcases of_decide_eq_true (dropped_of_not_mem hin hgone) with ⟨_, hage⟩ | ⟨hon, _⟩
    · exact UInt64.not_lt.mpr hyoung hage
    · rw [ht] at hon
      exact absurd hon (by decide)
  · exact absurd (UInt64.lt_of_lt_of_le hold (satSub64_mono_left hc _)) (UInt64.not_lt.mpr hyoung)

/-- The age of a run's start when a flag fires, from what the event does to the window before it. -/
theorem process_flag_window {d : MomentumIgnitionDetector} {c : UInt64} (h : d.Orderly c)
    (hw : 0 < d.seqWindow) {ev : SequencedEvent} (hc : c ≤ ev.seq) {f : ChaosEvent}
    (hf : (d.process ev).2 = some f) :
    f.endSeq = ev.seq ∧ f.startSeq ≤ ev.seq ∧
    (d.TurnsAt ev ∨ d.KeepsStart ev → satSub64 ev.seq f.startSeq ≤ d.seqWindow) ∧
    (d.timeWindowNs = 0 → satSub64 ev.seq f.startSeq ≤ d.seqWindow →
      d.TurnsAt ev ∨ d.KeepsStart ev) := by
  rcases d.process_cases ev with hp | ⟨mid, hmid, hp⟩
  · rw [hp] at hf
    exact absurd hf (by simp)
  · have hsame := d.sameStart_applied ev
    rw [hp] at hf
    rw [sampleAt_flag hf] at hf
    obtain ⟨hdir, _, _, hstart, hend⟩ := evaluate_flag hf
    have hyoung : ∀ s ∈ ((d.applied ev).slide ev mid).mids, satSub64 ev.seq s.seq ≤ d.seqWindow := by
      intro s hs
      have hage := slide_young (h.applied ev) (by rw [hsame.seqWindow]; exact hw) hc hs
      rwa [hsame.seqWindow] at hage
    have hbegin : f.startSeq = ((d.applied ev).advance ev mid).startSample.seq := hstart
    have hle := ((h.applied ev).advance hc mid).start hdir
    rw [← hbegin] at hle
    refine ⟨hend, hle, ?_⟩
    rw [hbegin]
    rcases advance_start hdir with ⟨hstay, hsameDir, hsameStart⟩ | ⟨hturn, hmem⟩
    · -- the run goes on, from the sample it started from before the event
      rw [hsame.dir] at hsameDir
      rw [hsameStart, hsame.start]
      constructor
      · rintro (⟨mid', hmid', hturns⟩ | hkeeps)
        · rw [hmid] at hmid'
          rw [← Option.some.inj hmid', ← turns_applied d ev] at hturns
          exact absurd hturns hstay
        · have hkept : (d.applied ev).KeepsStart ev := by
            rw [KeepsStart, evictExpired_mids] at hkeeps ⊢
            simp only [Expired, (d.applied_counters ev).1, hsame.start, hsame.seqWindow,
              hsame.timeWindow] at hkeeps ⊢
            exact hkeeps
          have hin := keepsStart_slide hkept mid
          rw [hsame.start] at hin
          exact hyoung _ hin
      · intro ht hspan
        exact Or.inr (keepsStart_of_young h hc ht (hsameDir ▸ hdir) hspan)
    · -- the run starts anew, at a sample that the window still holds
      exact ⟨fun _ => hyoung _ hmem, fun _ _ => Or.inl ⟨mid, hmid, (turns_applied d ev mid).mp hturn⟩⟩

end MomentumIgnitionDetector

/-- A flag in a run over nondecreasing sequence numbers spans at most the sequence window when its
event turns the run, or finds the sample that the run started from in the window and leaves it there;
with the time window off, only then. -/
theorem drift_in_window_iff {seqWindow : UInt64} (hw : 0 < seqWindow) (timeWindowNs : UInt64)
    (maxBookLevels : Nat) (minMoveBps : UInt32) (minTrades : UInt64) (minConsecutive : UInt32)
    (cooldownSeq : UInt64) {p : List SequencedEvent} {ev : SequencedEvent}
    (hseq : (p ++ [ev]).Pairwise fun a b => a.seq ≤ b.seq) {d : MomentumIgnitionDetector}
    (hd : d = (MomentumIgnitionDetector.new seqWindow timeWindowNs maxBookLevels minMoveBps minTrades
      minConsecutive cooldownSeq).run p) {f : ChaosEvent} (hf : (d.process ev).2 = some f) :
    f.startSeq ≤ f.endSeq ∧
    (d.TurnsAt ev ∨ d.KeepsStart ev → f.endSeq.toNat - f.startSeq.toNat ≤ seqWindow.toNat) ∧
    (timeWindowNs = 0 → f.endSeq.toNat - f.startSeq.toNat ≤ seqWindow.toNat →
      d.TurnsAt ev ∨ d.KeepsStart ev) := by
  obtain ⟨hp, _, hlast⟩ := List.pairwise_append.mp hseq
  have horder := MomentumIgnitionDetector.orderly_run
    (fun c => MomentumIgnitionDetector.orderly_new seqWindow timeWindowNs maxBookLevels minMoveBps
      minTrades minConsecutive cooldownSeq c) hp (c := ev.seq) (fun e he => hlast e he ev (by simp))
  obtain ⟨hs, ht⟩ := MomentumIgnitionDetector.run_windows
    (MomentumIgnitionDetector.new seqWindow timeWindowNs maxBookLevels minMoveBps minTrades
      minConsecutive cooldownSeq) p
  rw [← hd] at horder hs ht
  change _ = seqWindow at hs
  change _ = timeWindowNs at ht
  obtain ⟨hend, hle, henough, honly⟩ :=
    MomentumIgnitionDetector.process_flag_window horder (by rw [hs]; exact hw) (UInt64.le_refl _) hf
  have hspan : satSub64 ev.seq f.startSeq ≤ d.seqWindow ↔
      f.endSeq.toNat - f.startSeq.toNat ≤ seqWindow.toNat := by
    rw [UInt64.le_iff_toNat_le, satSub64_toNat, hs, hend]
  rw [hspan] at henough honly
  rw [ht] at honly
  rw [hend] at henough honly ⊢
  exact ⟨hle, henough, honly⟩

/-- A touch, a trade against the ask and a first tick of a drift. -/
def slowDrift : List SequencedEvent :=
  [⟨1, 0, ⟨1, 10000, 10, 1, 1, 1, 0⟩, 0, 0⟩, ⟨2, 0, ⟨2, 10010, 10, 2, 1, 1, 1⟩, 0, 0⟩,
    ⟨3, 0, ⟨3, 0, 1, 2, 1, 4, 0⟩, 0, 0⟩, ⟨8, 0, ⟨8, 10002, 10, 3, 1, 1, 0⟩, 0, 0⟩]

/-- A second tick two events later flags within the window. -/
theorem drift_in_window_iff_two :
    ∃ f, (((MomentumIgnitionDetector.new 10 0 8 1 1 3 0).run slowDrift).process
        ⟨10, 0, ⟨10, 10004, 10, 4, 1, 1, 0⟩, 0, 0⟩).2 = some f ∧
      f.endSeq.toNat - f.startSeq.toNat ≤ 10 := by
  have hflag : (((MomentumIgnitionDetector.new 10 0 8 1 1 3 0).run slowDrift).process
      ⟨10, 0, ⟨10, 10004, 10, 4, 1, 1, 0⟩, 0, 0⟩).2.isSome = true := by
    simp only [MomentumIgnitionDetector.run, MomentumIgnitionDetector.process_eq_keys]
    decide
  obtain ⟨f, hf⟩ := Option.isSome_iff_exists.mp hflag
  refine ⟨f, hf, (drift_in_window_iff (by decide : (0 : UInt64) < 10) 0 8 1 1 3 0 (by decide) rfl
    hf).2.1 (Or.inr ?_)⟩
  simp only [MomentumIgnitionDetector.KeepsStart, MomentumIgnitionDetector.run,
    MomentumIgnitionDetector.process_eq_keys]
  decide

/-- Six events later it still flags the run that started at event 2. -/
theorem drift_outlives_window :
    ∃ f, (((MomentumIgnitionDetector.new 10 0 8 1 1 3 0).run slowDrift).process
        ⟨14, 0, ⟨14, 10004, 10, 4, 1, 1, 0⟩, 0, 0⟩).2 = some f ∧
      ¬ f.endSeq.toNat - f.startSeq.toNat ≤ 10 := by
  have hflag : ((((MomentumIgnitionDetector.new 10 0 8 1 1 3 0).run slowDrift).process
      ⟨14, 0, ⟨14, 10004, 10, 4, 1, 1, 0⟩, 0, 0⟩).2.map fun f => (f.startSeq, f.endSeq)) =
        some (2, 14) := by
    simp only [MomentumIgnitionDetector.run, MomentumIgnitionDetector.process_eq_keys]
    decide
  obtain ⟨f, hf, hspan⟩ := Option.map_eq_some_iff.mp hflag
  obtain ⟨hstart, hend⟩ := Prod.mk.inj hspan
  exact ⟨f, hf, by rw [hstart, hend]; decide⟩

end Flowlab.Chaos
