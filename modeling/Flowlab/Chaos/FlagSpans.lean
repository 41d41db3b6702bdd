import Flowlab.Chaos.FullChain

namespace Flowlab.Chaos

open Framework
open Flowlab.Core (Event EventType SequencedEvent)

/-- Sequence number and time of an event. -/
abbrev Stamp := UInt64 × UInt64

def stamp (ev : SequencedEvent) : Stamp := (ev.seq, ev.event.ts)

/-- A flag that spans from one of the stamps to the present event. -/
structure Spans (past : Set Stamp) (ev : SequencedEvent) (f : ChaosEvent) : Prop where
  start : (f.startSeq, f.startTsNs) ∈ past
  stop : (f.endSeq, f.endTsNs) = stamp ev

/-- What a detector owes at every event: it goes on remembering only stamps of the past, and a flag is
of its kind and spans from one of them. -/
structure Faithful {D : Type} (remembers : Set Stamp → D → Prop) (kind : ChaosKind)
    (past : Set Stamp) (ev : SequencedEvent) (r : D × Option ChaosEvent) : Prop where
  remembers : remembers past r.1
  flag : ∀ f, r.2 = some f → f.kind = kind ∧ Spans past ev f

theorem Faithful.silent {D : Type} {remembers : Set Stamp → D → Prop} {kind : ChaosKind}
    {past : Set Stamp} {ev : SequencedEvent} {d : D} (h : remembers past d) :
    Faithful remembers kind past ev (d, none) :=
  ⟨h, nofun⟩

variable {past past' : Set Stamp} {ev : SequencedEvent}

namespace QuoteStuffDetector

def Remembers (past : Set Stamp) (d : QuoteStuffDetector) : Prop :=
  ∀ e ∈ d.window, (e.seq, e.ts) ∈ past

variable {d : QuoteStuffDetector}

theorem Remembers.enter (h : d.Remembers past) (hnow : stamp ev ∈ past) :
    (d.enter ev).Remembers past := by
  intro e he
  simp only [QuoteStuffDetector.enter] at he
  rcases List.mem_append.mp he with hold | hnew
  · split_ifs at hold
    · exact h e (List.mem_of_mem_tail hold)
    · exact h e hold
  · rw [List.mem_singleton.mp hnew]
    exact hnow

theorem faithful (h : d.Remembers past) (hnow : stamp ev ∈ past) :
    Faithful Remembers .quoteStuff past ev (d.process ev) := by
  have henter := h.enter hnow
  simp only [process]
  split
  · exact .silent h
  · split_ifs
    · refine ⟨henter, ?_⟩
      intro f hf
      cases hf
      refine ⟨rfl, ?_, rfl⟩
      obtain ⟨e, rest, hwindow⟩ : ∃ e rest, (d.enter ev).window = e :: rest :=
        List.exists_cons_of_ne_nil (by simp [enter])
      have hmem : e ∈ (d.enter ev).window := by simp [hwindow]
      have hstart := henter e hmem
      simp only [buildFlag, hwindow]
      exact hstart
    · exact ⟨henter, nofun⟩
    · exact .silent h

end QuoteStuffDetector

namespace SpoofDetector

def Remembers (past : Set Stamp) (d : SpoofDetector) : Prop :=
  ∀ o ∈ d.largeOrders, (o.seq, o.ts) ∈ past

variable {d : SpoofDetector}

theorem mem_of_retain {f : LargeOrder → Option Bool} {l kept : List LargeOrder}
    (h : retain f l = some kept) : ∀ o ∈ kept, o ∈ l := by
  induction l generalizing kept with
  | nil =>
    cases h
    exact fun o ho => ho
  | cons a l ih =>
    simp only [retain, Option.bind_eq_bind, Option.bind_eq_some_iff] at h
    obtain ⟨keep, -, rest, hrest, hkept⟩ := h
    cases hkept
    intro o ho
    split_ifs at ho
    · rcases List.mem_cons.mp ho with rfl | ho
      · exact List.mem_cons_self
      · exact List.mem_cons_of_mem _ (ih hrest o ho)
    · exact List.mem_cons_of_mem _ (ih hrest o ho)

theorem Remembers.onCancel {r : SpoofDetector × Option ChaosEvent} (h : d.Remembers past)
    (hr : d.onCancel ev = some r) : Faithful Remembers .spoof past ev r := by
  simp only [SpoofDetector.onCancel] at hr
  split at hr
  · cases hr
    exact .silent h
  · rename_i o hfound
    simp only [Option.bind_eq_bind, Option.bind_eq_some_iff] at hr
    obtain ⟨age, -, hr⟩ := hr
    cases hr
    refine ⟨fun o' ho' => h o' (List.mem_of_mem_eraseP ho'), ?_⟩
    intro f hf
    dsimp only at hf
    split_ifs at hf
    cases hf
    exact ⟨rfl, h o (List.mem_of_find?_eq_some hfound), rfl⟩

theorem faithful {r : SpoofDetector × Option ChaosEvent} (h : d.Remembers past)
    (hnow : stamp ev ∈ past) (hr : d.process ev = some r) :
    Faithful Remembers .spoof past ev r := by
  simp only [process, processWith] at hr
  split at hr
  · cases hr
    exact .silent h
  · split_ifs at hr
    · simp only [prune, Option.bind_eq_bind, Option.bind_eq_some_iff] at hr
      obtain ⟨d', ⟨kept, hkept, hd'⟩, hr⟩ := hr
      cases hr
      cases hd'
      refine .silent fun o ho => ?_
      rcases List.mem_append.mp (mem_of_retain hkept o ho) with hold | hnew
      · exact h o hold
      · rw [List.mem_singleton.mp hnew]
        exact hnow
    · cases hr
      exact .silent h
  · exact h.onCancel hr
  · cases hr
    exact .silent h

end SpoofDetector

namespace PhantomLiquidityDetector

def Remembers (past : Set Stamp) (d : PhantomLiquidityDetector) : Prop :=
  ∀ (k : LevelKey) (t : LevelTracker), d.levels[k]? = some t → (t.createdSeq, t.createdTs) ∈ past

variable {d : PhantomLiquidityDetector}

theorem Remembers.evict (h : d.Remembers past) (key : LevelKey) {d' : PhantomLiquidityDetector}
    (hd : d'.levels = d.levels.erase key) : d'.Remembers past := by
  intro k t ht
  rw [hd, FiniteMap.get_erase] at ht
  split_ifs at ht
  exact h k t ht

theorem Remembers.makeRoom (h : d.Remembers past) : d.makeRoom.Remembers past := by
  rw [PhantomLiquidityDetector.makeRoom]
  split_ifs
  · rw [evictOldest]
    split
    · exact h
    · exact h.evict _ rfl
  · exact h

theorem Remembers.onAdd (h : d.Remembers past) (hnow : stamp ev ∈ past) :
    (d.onAdd ev).Remembers past := by
  have hroom := h.makeRoom
  intro k t ht
  simp only [PhantomLiquidityDetector.onAdd, FiniteMap.get_insert] at ht
  split_ifs at ht
  · cases ht
    cases hold : d.makeRoom.levels[levelOf ev.event]? with
    | none => exact hnow
    | some t' => exact hroom _ t' hold
  · exact hroom k t ht

theorem Remembers.onCancel (h : d.Remembers past) :
    Faithful Remembers .phantomLiquidity past ev (d.onCancel ev) := by
  rw [PhantomLiquidityDetector.onCancel]
  split
  · exact .silent h
  · rename_i key _
    have hrelease : (d.release ev.event).Remembers past := by
      rw [release]
      split_ifs
      · exact h
      · exact h
    dsimp only
    split
    · exact .silent hrelease
    · rename_i t ht
      have hstart := hrelease key t ht
      rw [charge]
      split_ifs
      · refine ⟨hrelease.evict key rfl, ?_⟩
        intro f hf
        cases hf
        exact ⟨rfl, hstart, rfl⟩
      · exact .silent (hrelease.evict key rfl)
      · refine .silent ?_
        intro k t' ht'
        rw [FiniteMap.get_insert] at ht'
        split_ifs at ht'
        · cases ht'
          exact hstart
        · exact hrelease k t' ht'

theorem faithful (h : d.Remembers past) (hnow : stamp ev ∈ past) :
    Faithful Remembers .phantomLiquidity past ev (d.process ev) := by
  rw [process]
  split
  · exact .silent h
  · exact .silent (h.onAdd hnow)
  · exact h.onCancel
  · obtain ⟨hkept, hflag⟩ : Faithful Remembers .phantomLiquidity past ev (d.onCancel ev) :=
      h.onCancel
    exact ⟨hkept.onAdd hnow, hflag⟩
  · exact .silent (h.evict _ rfl)
  · exact .silent h

end PhantomLiquidityDetector

namespace CancellationStormDetector

/-- The start of a burst counts while one goes on. -/
def Remembers (past : Set Stamp) (d : CancellationStormDetector) : Prop :=
  d.consecutiveAbove ≠ 0 → (d.burstStartSeq, d.burstStartTs) ∈ past

variable {d : CancellationStormDetector}

theorem Remembers.above (h : d.Remembers past) (hnow : stamp ev ∈ past) (rate : Float)
    (inRefractory : Bool) :
    Faithful Remembers .cancellationStorm past ev (d.above ev rate inRefractory) := by
  have hstart : ∀ e : CancellationStormDetector, e = (if d.consecutiveAbove = 0 then
      { d with burstStartSeq := ev.seq, burstStartTs := ev.event.ts } else d) →
      (e.burstStartSeq, e.burstStartTs) ∈ past := by
    rintro e rfl
    split_ifs with hzero
    · exact hnow
    · exact h hzero
  simp only [CancellationStormDetector.above]
  generalize he : (if d.consecutiveAbove = 0 then
    { d with burstStartSeq := ev.seq, burstStartTs := ev.event.ts } else d) = e
  have hstart := hstart e he.symm
  split_ifs
  · refine ⟨fun hzero => absurd rfl hzero, ?_⟩
    intro f hf
    cases hf
    exact ⟨rfl, hstart, rfl⟩
  · exact .silent fun _ => hstart

theorem faithful (h : d.Remembers past) (hnow : stamp ev ∈ past) :
    Faithful Remembers .cancellationStorm past ev (d.process ev) := by
  have henter : (d.enter ev).Remembers past := h
  simp only [process]
  split
  · exact .silent h
  · split_ifs
    · simp only [evaluate]
      split_ifs
      · exact .silent henter
      · exact .silent henter
      · have hrate : ({ d.enter ev with
            lastRate := cancelRate (d.enter ev).cancelsInWindow (d.enter ev).window.length } :
              CancellationStormDetector).Remembers past := henter
        exact hrate.above hnow _ _
      · refine .silent fun hzero => ?_
        simp only [below] at hzero
        split_ifs at hzero <;> exact absurd rfl hzero
    · exact .silent h

end CancellationStormDetector

namespace MomentumIgnitionDetector

structure Remembers (past : Set Stamp) (d : MomentumIgnitionDetector) : Prop where
  mids : ∀ s ∈ d.mids, (s.seq, s.ts) ∈ past
  run : d.runDir ≠ none → (d.runStartSeq, d.runStartTs) ∈ past

variable {d : MomentumIgnitionDetector}

theorem Remembers.mutate (h : d.Remembers past) (etype : EventType) (e : Event) :
    (d.mutate etype e).Remembers past := by
  cases etype with
  | trade =>
    simp only [MomentumIgnitionDetector.mutate]
    split
    · rename_i trade _
      cases trade.aggressor <;> exact ⟨h.mids, h.run⟩
    · exact ⟨h.mids, h.run⟩
  | _ => exact ⟨h.mids, h.run⟩

theorem Remembers.evictExpired (h : d.Remembers past) (seq ts : UInt64) :
    (d.evictExpired seq ts).Remembers past := by
  have hmids : ∀ s ∈ d.mids.dropWhile (fun s => decide (d.Expired seq ts s)),
      (s.seq, s.ts) ∈ past := fun s hs => h.mids s ((List.dropWhile_sublist _).subset hs)
  simp only [MomentumIgnitionDetector.evictExpired]
  split_ifs
  · exact ⟨hmids, h.run⟩
  · exact ⟨hmids, h.run⟩

theorem Remembers.updateRun (h : d.Remembers past) (mid seq ts : UInt64) :
    (d.updateRun mid seq ts).Remembers past := by
  simp only [MomentumIgnitionDetector.updateRun]
  split
  · exact ⟨h.mids, fun hnone => absurd rfl hnone⟩
  · rename_i prev hprev
    have hmem : prev ∈ d.mids := List.mem_reverse.mp (List.mem_of_getElem? hprev)
    split_ifs
    · exact h
    · exact ⟨h.mids, h.run⟩
    · exact ⟨h.mids, fun _ => h.mids prev hmem⟩
    · exact ⟨h.mids, h.run⟩
    · exact ⟨h.mids, fun _ => h.mids prev hmem⟩

theorem Remembers.evaluate (h : d.Remembers past) (midAfter : UInt64) :
    Faithful Remembers .momentumIgnition past ev (d.evaluate ev midAfter) := by
  simp only [MomentumIgnitionDetector.evaluate]
  split
  · exact .silent h
  · rename_i dir hdir
    have hstart := h.run (by rw [hdir]; exact Option.some_ne_none dir)
    split_ifs
    · exact .silent h
    · exact .silent h
    · exact .silent h
    · refine ⟨⟨h.mids, fun hnone => absurd rfl hnone⟩, ?_⟩
      intro f hf
      cases hf
      exact ⟨rfl, hstart, rfl⟩
    · exact .silent h

theorem faithful (h : d.Remembers past) (hnow : stamp ev ∈ past) :
    Faithful Remembers .momentumIgnition past ev (d.process ev) := by
  simp only [process]
  split
  · exact .silent h
  · exact .silent h
  · rename_i etype _ _
    have hmutate := h.mutate etype ev.event
    simp only [sample]
    split
    · exact .silent hmutate
    · rename_i midAfter _
      have hpushed : ∀ s ∈ (d.mutate etype ev.event).mids ++ [⟨ev.seq, ev.event.ts, midAfter⟩],
          (s.seq, s.ts) ∈ past := by
        intro s hs
        rcases List.mem_append.mp hs with hold | hnew
        · exact hmutate.mids s hold
        · rw [List.mem_singleton.mp hnew]
          exact hnow
      have hpush : ({ d.mutate etype ev.event with
          mids := (d.mutate etype ev.event).mids ++ [⟨ev.seq, ev.event.ts, midAfter⟩] } :
            MomentumIgnitionDetector).Remembers past := ⟨hpushed, hmutate.run⟩
      have hsampled := (hpush.evictExpired ev.seq ev.event.ts).updateRun midAfter ev.seq ev.event.ts
      have hflat := hmutate.evictExpired ev.seq ev.event.ts
      split_ifs
      · exact .silent hsampled
      · exact hsampled.evaluate midAfter
      · exact .silent hflat
      · exact hflat.evaluate midAfter

end MomentumIgnitionDetector

namespace FlashCrashDetector

structure Remembers (past : Set Stamp) (d : FlashCrashDetector) : Prop where
  ok : d.RingOk
  window : ∀ s ∈ d.window, (s.seq, s.ts) ∈ past

variable {d d' : FlashCrashDetector}

/-- What is pushed on the ring is of the past. -/
theorem Remembers.of_ring (h : d.Remembers past) {ops : List (Recent.Op TopSnapshot)}
    (hring : d'.ring = ops.foldl (Recent.RingBuffer.apply d.ringCap) d.ring)
    (hcap : d'.ringCap = d.ringCap) (hops : ∀ s ∈ Recent.pushed ops, (s.seq, s.ts) ∈ past) :
    d'.Remembers past := by
  refine ⟨h.ok.of_ring ops hring hcap, ?_⟩
  intro s hs
  rw [window_eq, hring] at hs
  rcases Recent.RingBuffer.mem_held_run h.ok.sound (Nat.succ_pos _) h.ok.fits hs with hold | hnew
  · exact h.window s hold
  · exact hops s hnew

theorem Remembers.snapBefore (h : d.Remembers past) (hnow : stamp ev ∈ past) :
    (d.snapBefore ev).Remembers past := by
  obtain ⟨hring, hcap⟩ := ring_snapBefore h.ok ev
  refine h.of_ring hring hcap ?_
  intro s hs
  rw [snapOps] at hs
  split at hs
  · cases hs
  · rw [List.mem_singleton.mp hs]
    exact hnow

theorem Remembers.detectWith (h : d.Remembers past) (dropOk : UInt64 → UInt64 → Bool) :
    Faithful Remembers .flashCrash past ev (d.detectWith dropOk ev) := by
  obtain ⟨hring, hcap⟩ := ring_detectWith dropOk d ev
  refine ⟨h.of_ring hring hcap ?_, ?_⟩
  · intro s hs
    cases hflag : (d.detectWith dropOk ev).2 with
    | none =>
      rw [hflag] at hs
      cases hs
    | some f =>
      rw [hflag] at hs
      cases hs
  · intro f hf
    simp only [FlashCrashDetector.detectWith] at hf
    split at hf
    · cases hf
    · split_ifs at hf
      split at hf
      · cases hf
      · rename_i snap dir bps hgap
        rw [findGap_eq] at hgap
        obtain ⟨snap', hmem, hfrom⟩ := List.exists_of_findSome?_eq_some hgap
        obtain ⟨rfl, -⟩ := gapFrom_some hfrom
        split_ifs at hf
        cases hf
        exact ⟨rfl, h.window snap hmem, rfl⟩

theorem faithful (h : d.Remembers past) (hnow : stamp ev ∈ past) :
    Faithful Remembers .flashCrash past ev (d.process ev) := by
  have hsnap := h.snapBefore hnow
  rw [process_eq, processWith]
  cases ht : EventType.fromU8 ev.event.eventType with
  | none => exact .silent h
  | some t =>
    obtain ⟨hring, hcap⟩ := ring_entered d ht
    let ops : List (Recent.Op TopSnapshot) := []
    have hops : (d.entered ev).ring =
        ops.foldl (Recent.RingBuffer.apply (d.snapBefore ev).ringCap) (d.snapBefore ev).ring := hring
    have hentered : (d.entered ev).Remembers past :=
      hsnap.of_ring hops hcap fun _ hs => absurd hs List.not_mem_nil
    cases t with
    | bookSnapshot => exact .silent hsnap
    | _ => exact hentered.detectWith _

end FlashCrashDetector

namespace LatencyArbProxyDetector

def Remembers (past : Set Stamp) (d : LatencyArbProxyDetector) : Prop :=
  ∀ t ∈ d.pending, (t.seq, t.ts) ∈ past

variable {d : LatencyArbProxyDetector}

theorem Remembers.append (h : d.Remembers past) {trig : PendingTrigger}
    (htrig : (trig.seq, trig.ts) ∈ past) : ∀ t ∈ d.pending ++ [trig], (t.seq, t.ts) ∈ past := by
  intro t ht
  rcases List.mem_append.mp ht with hold | hnew
  · exact h t hold
  · rw [List.mem_singleton.mp hnew]
    exact htrig

theorem Remembers.seed (h : d.Remembers past) (hnow : stamp ev ∈ past)
    (resolvedTrade : Option ResolvedTrade) (midBefore : Option UInt64) :
    (d.seed ev resolvedTrade midBefore).Remembers past := by
  simp only [LatencyArbProxyDetector.seed]
  split_ifs
  · exact h
  · split
    · split_ifs
      · exact fun t ht => h.append hnow t (List.mem_of_mem_tail ht)
      · exact fun t ht => h.append hnow t ht
      · exact h
    · exact h

theorem burst_stamp (d : LatencyArbProxyDetector) (etype : EventType) (ev : SequencedEvent)
    (t : PendingTrigger) : ((d.burst etype ev t).seq, (d.burst etype ev t).ts) = (t.seq, t.ts) := by
  simp only [burst]
  split_ifs <;> rfl

/-- What the walk over the triggers keeps and flags. -/
structure WalkOk (past : Set Stamp) (ev : SequencedEvent) (w : Walk) : Prop where
  keep : ∀ t ∈ w.keep, (t.seq, t.ts) ∈ past
  flag : ∀ f, w.flag = some f → f.kind = .latencyArbitrage ∧ Spans past ev f

theorem WalkOk.kept {w : Walk} (h : WalkOk past ev w) {t : PendingTrigger}
    (ht : (t.seq, t.ts) ∈ past) : WalkOk past ev { w with keep := w.keep ++ [t] } := by
  refine ⟨?_, h.flag⟩
  intro t' ht'
  rcases List.mem_append.mp ht' with hold | hnew
  · exact h.keep t' hold
  · rw [List.mem_singleton.mp hnew]
    exact ht

theorem WalkOk.flagged {w : Walk} (h : WalkOk past ev w) {t : PendingTrigger}
    (ht : (t.seq, t.ts) ∈ past) (d : LatencyArbProxyDetector) (refractoryUntil : UInt64) :
    WalkOk past ev { w with
      flag := some (d.buildFlag t ev.seq ev.event.ts), refractoryUntil := refractoryUntil } := by
  refine ⟨h.keep, ?_⟩
  intro f hf
  cases hf
  exact ⟨rfl, ht, rfl⟩

theorem WalkOk.visit {w : Walk} (h : WalkOk past ev w) {t : PendingTrigger}
    (ht : (t.seq, t.ts) ∈ past) (d : LatencyArbProxyDetector) (etype : EventType) :
    WalkOk past ev (d.visit etype ev w t) := by
  have hburst : ((d.burst etype ev t).seq, (d.burst etype ev t).ts) ∈ past :=
    d.burst_stamp etype ev t ▸ ht
  simp only [LatencyArbProxyDetector.visit]
  split_ifs
  all_goals first
    | exact h
    | exact h.kept hburst
    | exact h.flagged hburst d _

theorem Remembers.react (h : d.Remembers past) (etype : EventType) :
    Faithful Remembers .latencyArbitrage past ev (d.react etype ev) := by
  have hwalk : WalkOk past ev
      (d.pending.foldl (d.visit etype ev) ⟨[], none, d.refractoryUntil⟩) :=
    List.foldlRecOn (motive := WalkOk past ev) d.pending _ ⟨nofun, nofun⟩
      (fun _ hw t ht => hw.visit (h t ht) d etype)
  exact ⟨hwalk.keep, hwalk.flag⟩

theorem faithful (h : d.Remembers past) (hnow : stamp ev ∈ past) :
    Faithful Remembers .latencyArbitrage past ev (d.process ev) := by
  rw [process]
  split
  · exact .silent h
  · exact .silent h
  · rename_i etype _ _
    have hmutate : (d.mutate etype ev.event).1.Remembers past := by
      cases etype <;> exact h
    exact (hmutate.seed hnow _ _).react etype

end LatencyArbProxyDetector

namespace FullChain

/-- A chain as its constructors build it. -/
structure Fresh (c : FullChain) : Prop where
  quote : c.quote.window = []
  spoof : c.spoof.largeOrders = []
  phantom : c.phantom.levels = ∅
  storm : c.storm.consecutiveAbove = 0
  ignition : c.ignition.mids = [] ∧ c.ignition.runDir = none
  crash : c.crash.RingOk ∧ c.crash.snapLen = 0
  proxy : c.proxy.pending = []
  counts : c.counts = .replicate 7 0

theorem fresh_defaultItch (hashOrder : HashOrder) : (defaultItch hashOrder).Fresh :=
  ⟨rfl, rfl, rfl, rfl, ⟨rfl, rfl⟩,
    ⟨FlashCrashDetector.ringOk_new 10 8 64 5 0.6 3 2048 (by decide), rfl⟩, rfl, rfl⟩

structure Remembers (past : Set Stamp) (c : FullChain) : Prop where
  quote : c.quote.Remembers past
  spoof : c.spoof.Remembers past
  phantom : c.phantom.Remembers past
  storm : c.storm.Remembers past
  ignition : c.ignition.Remembers past
  crash : c.crash.Remembers past
  proxy : c.proxy.Remembers past

variable {c c' : FullChain}

theorem Remembers.mono (h : c.Remembers past) (hsub : past ⊆ past') : c.Remembers past' where
  quote e he := hsub (h.quote e he)
  spoof o ho := hsub (h.spoof o ho)
  phantom k t ht := hsub (h.phantom k t ht)
  storm hburst := hsub (h.storm hburst)
  ignition := ⟨fun s hs => hsub (h.ignition.mids s hs), fun hrun => hsub (h.ignition.run hrun)⟩
  crash := ⟨h.crash.ok, fun s hs => hsub (h.crash.window s hs)⟩
  proxy t ht := hsub (h.proxy t ht)

theorem Fresh.remembers (h : c.Fresh) : c.Remembers past := by
  obtain ⟨hquote, hspoof, hphantom, hstorm, ⟨hmids, hdir⟩, ⟨hring, hlen⟩, hproxy, _⟩ := h
  refine ⟨?_, ?_, ?_, fun hburst => absurd hstorm hburst, ⟨?_, fun hrun => absurd hdir hrun⟩,
    ⟨hring, ?_⟩, ?_⟩
  · rw [QuoteStuffDetector.Remembers, hquote]
    exact fun _ he => absurd he List.not_mem_nil
  · rw [SpoofDetector.Remembers, hspoof]
    exact fun _ ho => absurd ho List.not_mem_nil
  · intro k t ht
    rw [hphantom] at ht
    simp at ht
  · rw [hmids]
    exact fun _ hs => absurd hs List.not_mem_nil
  · rw [FlashCrashDetector.window, hlen]
    exact fun _ hs => absurd hs List.not_mem_nil
  · rw [LatencyArbProxyDetector.Remembers, hproxy]
    exact fun _ ht => absurd ht List.not_mem_nil

/-- Flags in chain order, from a place of the chain on. -/
structure Ordered (k : ℕ) (flags : List ChaosEvent) : Prop where
  sorted : (flags.map fun f => f.kind.index).Pairwise (· < ·)
  from_ : ∀ f ∈ flags, k ≤ f.kind.index

theorem Ordered.cons {k : ℕ} {flags : List ChaosEvent} (h : Ordered (k + 1) flags)
    {o : Option ChaosEvent} {kind : ChaosKind} (hkind : ∀ f, o = some f → f.kind = kind)
    (hindex : kind.index = k) : Ordered k (o.toList ++ flags) := by
  cases o with
  | none => exact ⟨h.sorted, fun f hf => (Nat.le_succ k).trans (h.from_ f hf)⟩
  | some f =>
    have hfirst : (f.kind.index : ℕ) = k := by
      rw [hkind f rfl]
      exact hindex
    refine ⟨List.pairwise_cons.mpr ⟨?_, h.sorted⟩, ?_⟩
    · intro i hi
      obtain ⟨g, hg, rfl⟩ := List.mem_map.mp hi
      have hafter := h.from_ g hg
      change f.kind.index < g.kind.index
      exact Fin.lt_def.mpr (by omega)
    · intro g hg
      rcases List.mem_cons.mp hg with rfl | hg
      · exact hfirst.ge
      · exact (Nat.le_succ k).trans (h.from_ g hg)

/-- What the chain owes at every event. -/
theorem Remembers.processInto (h : c.Remembers past) (hnow : stamp ev ∈ past)
    {flags : List ChaosEvent} (hr : c.processInto ev = some (c', flags)) :
    c'.Remembers past ∧ c'.counts = flags.foldl bump c.counts ∧
      (flags.map fun f => f.kind.index).Pairwise (· < ·) ∧ ∀ f ∈ flags, Spans past ev f := by
  simp only [FullChain.processInto] at hr
  split at hr
  · cases hr
  · rename_i s hs
    cases hr
    have hquote := QuoteStuffDetector.faithful h.quote hnow
    have hspoof := SpoofDetector.faithful h.spoof hnow hs
    have hphantom := PhantomLiquidityDetector.faithful h.phantom hnow
    have hstorm := CancellationStormDetector.faithful h.storm hnow
    have hignition := MomentumIgnitionDetector.faithful h.ignition hnow
    have hcrash := FlashCrashDetector.faithful h.crash hnow
    have hproxy := LatencyArbProxyDetector.faithful h.proxy hnow
    refine ⟨⟨hquote.remembers, hspoof.remembers, hphantom.remembers, hstorm.remembers,
      hignition.remembers, hcrash.remembers, hproxy.remembers⟩, rfl, ?_, ?_⟩
    · have hlast : Ordered 7 [] := ⟨.nil, nofun⟩
      have hsix := hlast.cons (fun f hf => (hproxy.flag f hf).1) rfl
      rw [List.append_nil] at hsix
      exact ((((((hsix.cons (fun f hf => (hcrash.flag f hf).1) rfl).cons
        (fun f hf => (hignition.flag f hf).1) rfl).cons
        (fun f hf => (hstorm.flag f hf).1) rfl).cons
        (fun f hf => (hphantom.flag f hf).1) rfl).cons
        (fun f hf => (hspoof.flag f hf).1) rfl).cons
        (fun f hf => (hquote.flag f hf).1) rfl).sorted
    · intro f hf
      simp only [List.mem_append, Option.mem_toList] at hf
      rcases hf with hf | hf | hf | hf | hf | hf | hf
      · exact (hquote.flag f hf).2
      · exact (hspoof.flag f hf).2
      · exact (hphantom.flag f hf).2
      · exact (hstorm.flag f hf).2
      · exact (hignition.flag f hf).2
      · exact (hcrash.flag f hf).2
      · exact (hproxy.flag f hf).2

/-- The counts, as far as a word goes. -/
theorem count_bump (c : FullChain) (flags : List ChaosEvent) (kind : ChaosKind) :
    (({ c with counts := flags.foldl bump c.counts } : FullChain).count kind).toNat =
      min ((c.count kind).toNat + flags.countP (·.kind = kind)) (2 ^ 64 - 1) := by
  induction flags generalizing c with
  | nil =>
    have hlt := (c.count kind).toNat_lt
    rw [List.foldl_nil, List.countP_nil, Nat.add_zero, Nat.min_eq_left (by omega)]
  | cons f flags ih =>
    have hrest := ih { c with counts := bump c.counts f }
    dsimp only at hrest
    rw [List.foldl_cons, hrest]
    by_cases hkind : f.kind = kind
    · have hset : (bump c.counts f)[kind.index] = satAdd64 c.counts[kind.index] 1 := by
        rw [← hkind]
        exact Vector.getElem_set_self _
      rw [List.countP_cons_of_pos (by simp [hkind]), count, count, hset, satAdd64_toNat,
        UInt64.toNat_one]
      omega
    · have hne : (f.kind.index : ℕ) ≠ kind.index := by
        intro heq
        revert hkind heq
        cases f.kind <;> cases kind <;> decide
      have hset : (bump c.counts f)[kind.index] = c.counts[kind.index] :=
        Vector.getElem_set_ne _ _ hne
      rw [List.countP_cons_of_neg (by simp [hkind]), count, count, hset]

theorem run_cons_some {evs : List SequencedEvent} {out : List (List ChaosEvent)}
    (h : c.run (ev :: evs) = some (c', out)) :
    ∃ d flags rest, c.processInto ev = some (d, flags) ∧ d.run evs = some (c', rest) ∧
      out = flags :: rest := by
  rw [run] at h
  split at h
  · cases h
  · rename_i d flags hstep
    split at h
    · cases h
    · rename_i d' rest hrest
      cases h
      exact ⟨d, flags, rest, hstep, hrest, rfl⟩

/-- What a run owes where some events came before. -/
theorem Remembers.run {pre evs : List SequencedEvent} {out : List (List ChaosEvent)}
    (h : c.Remembers {s | ∃ e ∈ pre, s = stamp e}) (hrun : c.run evs = some (c', out)) :
    out.length = evs.length ∧ c'.counts = out.flatten.foldl bump c.counts ∧
      ∀ i ev flags, evs[i]? = some ev → out[i]? = some flags →
        (flags.map fun f => f.kind.index).Pairwise (· < ·) ∧
          ∀ f ∈ flags, Spans {s | ∃ e ∈ pre ++ evs.take (i + 1), s = stamp e} ev f := by
  induction evs generalizing c pre out with
  | nil =>
    cases hrun
    exact ⟨rfl, rfl, nofun⟩
  | cons ev evs ih =>
    obtain ⟨d, flags, rest, hstep, hrest, rfl⟩ := run_cons_some hrun
    have hmono : {s | ∃ e ∈ pre, s = stamp e} ⊆ {s | ∃ e ∈ pre ++ [ev], s = stamp e} := by
      rintro s ⟨e, he, rfl⟩
      exact ⟨e, List.mem_append_left _ he, rfl⟩
    obtain ⟨hd, hcounts, hsorted, hspans⟩ := (h.mono hmono).processInto ⟨ev, by simp, rfl⟩ hstep
    obtain ⟨hlen, hcounts', hlater⟩ := ih hd hrest
    refine ⟨by rw [List.length_cons, hlen, List.length_cons], ?_, ?_⟩
    · rw [hcounts', hcounts, List.flatten_cons, List.foldl_append]
    · intro i e fs he hfs
      cases i with
      | zero =>
        cases he
        cases hfs
        exact ⟨hsorted, hspans⟩
      | succ i =>
        have hthen := hlater i e fs he hfs
        rwa [List.append_assoc] at hthen

/-- **Every flag spans from an event of the stream to the present one.** Built with overflow checks,
through all seven detectors of a fresh chain and any stream that the chain gets through without a
panic, in any order of its numbers: the flags of an event come one per detector at most and in chain
order; each ends at that event and starts at it or at an earlier one, with the number and the time
of that very event; and the counts are the numbers of flags, as far as a word goes. -/
theorem flags_span_events {evs : List SequencedEvent} {out : List (List ChaosEvent)}
    (hfresh : c.Fresh) (hrun : c.run evs = some (c', out)) :
    out.length = evs.length ∧
    (∀ i ev flags, evs[i]? = some ev → out[i]? = some flags →
      (flags.map fun f => f.kind.index).Pairwise (· < ·) ∧
      ∀ f ∈ flags, (f.endSeq, f.endTsNs) = stamp ev ∧
        ∃ e ∈ evs.take (i + 1), (f.startSeq, f.startTsNs) = stamp e) ∧
    ∀ kind, (c'.count kind).toNat = min (out.flatten.countP (·.kind = kind)) (2 ^ 64 - 1) := by
  have hstart : c.Remembers {s | ∃ e ∈ ([] : List SequencedEvent), s = stamp e} := hfresh.remembers
  obtain ⟨hlen, hcounts, hflags⟩ := hstart.run hrun
  refine ⟨hlen, ?_, ?_⟩
  · intro i ev flags hev hout
    obtain ⟨hsorted, hspans⟩ := hflags i ev flags hev hout
    refine ⟨hsorted, fun f hf => ⟨(hspans f hf).stop, (hspans f hf).start⟩⟩
  · intro kind
    have hzero : c.count kind = 0 := by
      rw [count, hfresh.counts]
      simp
    have hcount := count_bump c out.flatten kind
    rw [hzero, UInt64.toNat_zero, Nat.zero_add] at hcount
    rw [← hcount, count, count, hcounts]

/-- A large bid that is pulled again. -/
def pulledBid : List SequencedEvent :=
  [⟨1, 0, ⟨1000, 10000, 5000, 77, 1, EventType.orderAdd.toU8, 0⟩, (0, 0)⟩,
    ⟨2, 0, ⟨2000, 10000, 5000, 77, 1, EventType.orderCancel.toU8, 0⟩, (0, 0)⟩]

theorem flags_span_events_pulled : ∃ c' out,
    (defaultItch .byLevel).run pulledBid = some (c', out) ∧ out.length = 2 ∧
    ∀ kind, (c'.count kind).toNat = min (out.flatten.countP (·.kind = kind)) (2 ^ 64 - 1) := by
  obtain ⟨c', out, hrun⟩ : ∃ c' out, (defaultItch .byLevel).run pulledBid = some (c', out) :=
    ⟨_, _, rfl⟩
  obtain ⟨hlen, _, hcounts⟩ := flags_span_events (fresh_defaultItch .byLevel) hrun
  exact ⟨c', out, hrun, hlen, hcounts⟩

end FullChain

end Flowlab.Chaos
