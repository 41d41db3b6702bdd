import Flowlab.Core.Restore
import Flowlab.Engine.Engine
import Flowlab.Framework.Machine

namespace Flowlab.Engine

open Framework
open Flowlab.Core (Event EventType HotOrderBook Xxh3)
open Flowlab.Replay (Snapshot)

/-- Clock readings that a monotonic clock can give from the instant `t` on. -/
def Clocked : Nat → List Pull → Prop
  | _, [] => True
  | t, pull :: pulls =>
    t ≤ pull.elapsedAt ∧ pull.elapsedAt ≤ pull.lockedAt ∧ pull.lockedAt ≤ pull.now ∧
      Clocked pull.now pulls

/-- What the loop writes is the engine it goes on with. -/
theorem step_snapshot {x : Xxh3} {r : Running} {pull : Pull} {s : Snapshot}
    (h : (r.step x pull).2 = some s) : s = (r.step x pull).1.engine.snapshot x := by
  simp only [Running.step] at h ⊢
  split_ifs at h ⊢ with hf
  simp only [Running.periodic] at h ⊢
  split at h
  · split_ifs at h with hdue
    · rw [if_pos hdue, ← Option.some.inj h]
  · exact absurd h (by simp)

/-- A turn that takes an event writes a snapshot when one is due. -/
theorem step_writes (x : Xxh3) {r : Running} {pull : Pull} {f : Engine}
    (h : (r.engine.rearm pull.elapsedAt).filter pull.event pull.lockedAt = (f, true)) {period : Nat}
    {path : String} (hevery : f.cfg.snapshotEvery = some period)
    (hout : f.cfg.snapshotOut = some path) (hdue : r.nextSnapshot.getD pull.now ≤ pull.now) :
    (r.step x pull).2 = some ((f.absorb pull.event).snapshot x) := by
  have hevery' : (f.absorb pull.event).cfg.snapshotEvery = some period := hevery
  have hout' : (f.absorb pull.event).cfg.snapshotOut = some path := hout
  simp only [Running.step, h, Running.periodic, hevery', hout', if_pos hdue, if_true]

/-- A resumed engine tracks whatever the book of the snapshot is called. -/
structure Resumed (cfg : EngineConfig) (name : UInt32) (e : Engine) : Prop where
  cfg : e.cfg = cfg
  tracked : e.tracked = some name
  lastLockedTradeAt : e.lastLockedTradeAt = none

theorem resumed_of_snapshot {cfg : EngineConfig} {x : Xxh3} {e e' : Engine}
    (h : withSnapshot cfg (e.snapshot x) = .ok e') : Resumed cfg e.book.instrumentId e' := by
  simp only [withSnapshot, snapshot] at h
  split at h
  · exact absurd h (by simp)
  · next book hbook =>
    have hname := (HotOrderBook.fromSnapshotBytes_tables hbook).1
    rw [e.book.read_header.1] at hname
    rw [← Except.ok.inj h]
    exact ⟨rfl, congrArg some hname, rfl⟩

/-- A pinned engine, the symbol it tracks and the name on its book. -/
structure Pinned (id name : UInt32) (e : Engine) : Prop where
  pinned : e.cfg.trackInstrument ≠ none
  tracked : e.tracked = some id
  name : e.book.instrumentId = name

theorem Pinned.step {id name : UInt32} {r : Running} (h : Pinned id name r.engine) (x : Xxh3)
    (pull : Pull) : Pinned id name (r.step x pull).1.engine := by
  obtain ⟨hcfg, hbook, _⟩ := r.engine.rearm_keeps pull.elapsedAt
  have htracked : (r.engine.rearm pull.elapsedAt).tracked = some id := by
    rcases r.engine.rearm_tracked pull.elapsedAt with he | ⟨_, hnone⟩
    · rw [he, h.tracked]
    · exact absurd hnone h.pinned
  have hs : Skipped (r.engine.rearm pull.elapsedAt)
      ((r.engine.rearm pull.elapsedAt).filter pull.event pull.lockedAt).1 := by
    rcases filter_cases (r.engine.rearm pull.elapsedAt) pull.event pull.lockedAt with
      ⟨_, hs⟩ | ⟨_, hs, _⟩ | ⟨_, hnone, _⟩
    · exact hs
    · exact hs
    · exact absurd (htracked.symm.trans hnone) (by simp)
  have hkept : Pinned id name
      ((r.engine.rearm pull.elapsedAt).filter pull.event pull.lockedAt).1 := by
    refine ⟨?_, hs.tracked.trans htracked, ?_⟩
    · rw [hs.cfg, hcfg]
      exact h.pinned
    · rw [hs.book, hbook]
      exact h.name
  rw [step_engine]
  split_ifs
  · exact ⟨hkept.pinned, hkept.tracked,
      (HotOrderBook.apply_instrumentId _ pull.event).trans hkept.name⟩
  · exact hkept

theorem Pinned.run {id name : UInt32} {r : Running} (h : Pinned id name r.engine) (x : Xxh3)
    (pulls : List Pull) : Pinned id name (r.run x pulls).engine :=
  List.foldlRecOn (motive := fun r : Running => Pinned id name r.engine) pulls _ h
    (fun _ hp pull _ => hp.step x pull)

/-- A pinned start. -/
theorem pinned_start {cfg : EngineConfig} {e : Engine} (h : Starts cfg e)
    (hpin : cfg.trackInstrument ≠ none) :
    ∃ id, Pinned id e.book.instrumentId e ∧ e.tracked = some id := by
  rcases h with rfl | ⟨s, hs⟩
  · obtain ⟨id, hid⟩ := Option.ne_none_iff_exists'.mp hpin
    exact ⟨id, ⟨hpin, hid, rfl⟩, hid⟩
  · simp only [withSnapshot] at hs
    split at hs
    · exact absurd hs (by simp)
    · rw [← Except.ok.inj hs]
      exact ⟨_, ⟨hpin, rfl, rfl⟩, rfl⟩

/-- A trade of the instrument and, more than five seconds later, something else of it. -/
def quietSpell (instrumentId : UInt32) : List Pull :=
  [.print instrumentId 0, .bid instrumentId (staleAfter + 1)]

theorem clocked_quietSpell (instrumentId : UInt32) : Clocked 0 (quietSpell instrumentId) :=
  ⟨Nat.le_refl _, Nat.le_refl _, Nat.le_refl _, Nat.zero_le _, Nat.le_refl _, Nat.le_refl _,
    trivial⟩

/-- A stale lock goes with the next event, and a bid does not bring another. -/
theorem stale_dropped {e : Engine} (hpin : e.cfg.trackInstrument = none) {id : UInt32}
    (htracked : e.tracked = some id) (hlast : e.lastLockedTradeAt = some 0) :
    ∃ f, (e.rearm (staleAfter + 1)).filter (Pull.bid id (staleAfter + 1)).event (staleAfter + 1) =
      (f, false) ∧ f.tracked = none := by
  refine ⟨{ e with tracked := none, lastLockedTradeAt := none, instrumentCounts := ∅ }, ?_, rfl⟩
  simp [rearm, filter, hpin, htracked, hlast, Locks, Trades, Pull.bid, EventType.toU8]

/-- Nothing holds a resumed lock when the configuration pins nothing. -/
theorem Resumed.dropped {cfg : EngineConfig} {name : UInt32} {e : Engine} (h : Resumed cfg name e)
    (hpin : cfg.trackInstrument = none) (x : Xxh3) :
    ((Running.start e 0).run x (quietSpell name)).engine.tracked = none := by
  have hprint : (e.rearm 0).filter (Pull.print name 0).event 0 =
      ({ e with lastLockedTradeAt := some 0 }, true) := by
    simp [rearm, filter, h.tracked, h.lastLockedTradeAt, Trades, Pull.print]
  have hfirst : ((Running.start e 0).step x (.print name 0)).1.engine =
      Engine.absorb { e with lastLockedTradeAt := some 0 } (Pull.print name 0).event :=
    step_taken x hprint
  have hpinned : e.cfg.trackInstrument = none := by
    rw [h.cfg]
    exact hpin
  obtain ⟨f, hbid, hnone⟩ := stale_dropped
    (e := Engine.absorb { e with lastLockedTradeAt := some 0 } (Pull.print name 0).event)
    hpinned h.tracked rfl
  rw [← hfirst] at hbid
  change (((Running.start e 0).step x (.print name 0)).1.step x
    (.bid name (staleAfter + 1))).1.engine.tracked = none
  rw [step_held x hbid]
  exact hnone

/-- The hard lock: the engine tracks the instrument, and in every later run it still does. -/
def HardLocked (x : Xxh3) (id : UInt32) (e : Engine) : Prop :=
  e.tracked = some id ∧ ∀ t pulls, Clocked t pulls →
    ((Running.start e t).run x pulls).engine.tracked = some id

/-- **A resumed lock holds exactly when it was pinned and the book carries its name.** For every
snapshot a run writes while it tracks an instrument, and every engine built from it. -/
theorem resumed_lock_holds (x : Xxh3) (cfg : EngineConfig) {e : Engine} (hstart : Starts cfg e)
    (now : Nat) (pulls : List Pull) (pull : Pull) {s : Snapshot}
    (hwrites : (((Running.start e now).run x pulls).step x pull).2 = some s) {id : UInt32}
    (htracks : (((Running.start e now).run x pulls).step x pull).1.engine.tracked = some id)
    {e' : Engine} (hresumed : withSnapshot cfg s = .ok e') :
    HardLocked x id e' ↔
      cfg.trackInstrument ≠ none ∧ e.tracked = some e.book.instrumentId := by
  have hsnap := step_snapshot hwrites
  rw [hsnap] at hresumed
  have hres := resumed_of_snapshot hresumed
  constructor
  · intro hlock
    obtain ⟨hfirst, hlater⟩ := hlock
    have hpin : cfg.trackInstrument ≠ none := by
      intro hnone
      have hdropped := hres.dropped hnone x
      exact absurd (hdropped.symm.trans (hlater 0 _ (clocked_quietSpell _))) (by simp)
    refine ⟨hpin, ?_⟩
    obtain ⟨id', hp, htr⟩ := pinned_start hstart hpin
    have hend := (Pinned.run (r := Running.start e now) hp x pulls).step x pull
    have hid : id = id' := Option.some.inj (htracks.symm.trans hend.tracked)
    have hbook : e.book.instrumentId = id := by
      rw [← hend.name]
      exact Option.some.inj (hres.tracked.symm.trans hfirst)
    rw [htr, ← hid, hbook]
  · intro hcond
    obtain ⟨hpin, hnamed⟩ := hcond
    obtain ⟨id', hp, htr⟩ := pinned_start hstart hpin
    have hend := (Pinned.run (r := Running.start e now) hp x pulls).step x pull
    have hid : id = id' := Option.some.inj (htracks.symm.trans hend.tracked)
    have hbook : e.book.instrumentId = id :=
      hid ▸ Option.some.inj (hnamed.symm.trans htr)
    have htracked : e'.tracked = some id := by
      rw [hres.tracked, hend.name, hbook]
    refine ⟨htracked, fun t later _ => ?_⟩
    have hp' : Pinned id e'.book.instrumentId e' := ⟨hres.cfg ▸ hpin, htracked, rfl⟩
    exact (Pinned.run (r := Running.start e' t) hp' x later).tracked

/-- A snapshot of the engine can be restored as long as the slab's length fits its counter. -/
def Restorable (e : Engine) : Prop := e.book.orders.data.length < 2 ^ 32 → e.book.Sound

theorem Restorable.absorb {e : Engine} (h : e.Restorable) (ev : Event) :
    (e.absorb ev).Restorable := by
  intro hs
  exact HotOrderBook.sound_apply (h ((HotOrderBook.data_le_apply e.book ev).trans_lt hs)) ev hs

theorem Restorable.step {r : Running} (h : r.engine.Restorable) (x : Xxh3) (pull : Pull) :
    (r.step x pull).1.engine.Restorable := by
  have hbook := (r.engine.rearm_keeps pull.elapsedAt).2.1
  have hfilter : ((r.engine.rearm pull.elapsedAt).filter pull.event pull.lockedAt).1.Restorable := by
    have hskip {f : Engine} (hs : Skipped (r.engine.rearm pull.elapsedAt) f) : f.Restorable := by
      rw [Restorable, hs.book, hbook]
      exact h
    rcases filter_cases (r.engine.rearm pull.elapsedAt) pull.event pull.lockedAt with
      ⟨_, hs⟩ | ⟨_, hs, _⟩ | ⟨_, _, _, heq⟩
    · exact hskip hs
    · exact hskip hs
    · rw [heq]
      intro _
      exact HotOrderBook.sound_new (by norm_num) pull.event.instrumentId
  rw [step_engine]
  split_ifs
  · exact hfilter.absorb pull.event
  · exact hfilter

/-- Every snapshot of a run from a new engine resumes, below 2^32 slots. -/
theorem snapshot_resumes (x : Xxh3) (cfg : EngineConfig) (now : Nat) (pulls : List Pull)
    (hs : ((Running.start (new cfg) now).run x pulls).engine.book.orders.data.length < 2 ^ 32) :
    ∃ e', withSnapshot cfg (((Running.start (new cfg) now).run x pulls).engine.snapshot x) =
      .ok e' := by
  have hrun : ((Running.start (new cfg) now).run x pulls).engine.Restorable :=
    List.foldlRecOn (motive := fun r : Running => r.engine.Restorable) pulls _
      (fun _ => HotOrderBook.sound_new (by norm_num) cfg.instrumentId)
      (fun _ h pull _ => h.step x pull)
  simp only [withSnapshot, snapshot, HotOrderBook.fromSnapshotBytes_toSnapshotBytes (hrun hs)]
  exact ⟨_, rfl⟩

/-- A snapshot every second, and a lock on the first trade unless a symbol is pinned. -/
def everySecond (trackInstrument : Option UInt32) : EngineConfig :=
  ⟨1, trackInstrument, 1, some 1000000000, some "engine.flsn"⟩

/-- A first trade, one second in, is followed by a snapshot. -/
def firstPrint (instrumentId : UInt32) : Pull := .print instrumentId 1000000000

/-- The engine tracks the instrument of the first trade from that trade on, whether it was pinned
or not. -/
theorem firstPrint_taken {trackInstrument : Option UInt32} {id : UInt32}
    (h : trackInstrument = none ∨ trackInstrument = some id) :
    ∃ f name, ((new (everySecond trackInstrument)).rearm 1000000000).filter (firstPrint id).event
      1000000000 = (f, true) ∧ f.cfg = everySecond trackInstrument ∧ f.tracked = some id ∧
      f.book = .new 256 name := by
  rcases h with rfl | rfl
  · refine ⟨lockOnto (new (everySecond none)) id 1000000000, id, ?_, rfl, rfl, rfl⟩
    simp [rearm, filter, new, Locks, tradesSeen, everySecond, firstPrint, Pull.print, Trades]
  · refine ⟨{ new (everySecond (some id)) with lastLockedTradeAt := some 1000000000 }, 1, ?_, rfl,
      rfl, rfl⟩
    simp [rearm, filter, new, everySecond, firstPrint, Pull.print, Trades]

/-- The turn of a new engine that takes it, with the snapshot it writes. -/
def firstTurn (trackInstrument : Option UInt32) (id : UInt32) : Running × Option Snapshot :=
  (Running.start (new (everySecond trackInstrument)) 0).step someXxh3 (firstPrint id)

theorem firstTurn_resumes (trackInstrument : Option UInt32) (id : UInt32)
    (h : trackInstrument = none ∨ trackInstrument = some id) :
    ∃ s e', (firstTurn trackInstrument id).2 = some s ∧
      (firstTurn trackInstrument id).1.engine.tracked = some id ∧
      withSnapshot (everySecond trackInstrument) s = .ok e' := by
  obtain ⟨f, name, hf, hcfg, htracked, hbook⟩ := firstPrint_taken h
  have hengine : (firstTurn trackInstrument id).1.engine = f.absorb (firstPrint id).event :=
    step_taken someXxh3 hf
  have hshort : (f.absorb (firstPrint id).event).book.orders.data.length < 2 ^ 32 := by
    change (f.book.apply (firstPrint id).event).1.orders.data.length < 2 ^ 32
    have hempty : ((HotOrderBook.new 256 name).apply (firstPrint id).event).1.orders = .empty := rfl
    rw [hbook, hempty]
    decide
  have hevery : f.cfg.snapshotEvery = some 1000000000 := by
    rw [hcfg]
    rfl
  have hout : f.cfg.snapshotOut = some "engine.flsn" := by
    rw [hcfg]
    rfl
  rw [← hengine] at hshort
  obtain ⟨e', he'⟩ := snapshot_resumes someXxh3 (everySecond trackInstrument) 0 [firstPrint id] hshort
  refine ⟨_, e', step_writes someXxh3 hf hevery hout (Nat.le_refl _), ?_, ?_⟩
  · rw [hengine]
    exact htracked
  · rw [← hengine]
    exact he'

/-- Pinned to the instrument the book is named after, the lock holds. -/
theorem resumed_lock_holds_pinned : ∃ s e', (firstTurn (some 1) 1).2 = some s ∧
    withSnapshot (everySecond (some 1)) s = .ok e' ∧ HardLocked someXxh3 1 e' := by
  obtain ⟨s, e', hwrites, htracks, hresumed⟩ := firstTurn_resumes (some 1) 1 (Or.inr rfl)
  have hlock := (resumed_lock_holds someXxh3 (everySecond (some 1)) (Or.inl rfl) 0 [] (firstPrint 1)
    hwrites htracks hresumed).mpr ⟨by decide, rfl⟩
  exact ⟨s, e', hwrites, hresumed, hlock⟩

/-- Auto-locked on instrument 1, the resumed engine loses it after a pause; pinned to 7 over a book
named 1, it comes back on 1. -/
theorem resumed_lock_lost :
    (∃ s e', (firstTurn none 1).2 = some s ∧ (firstTurn none 1).1.engine.tracked = some 1 ∧
      withSnapshot (everySecond none) s = .ok e' ∧ ¬ HardLocked someXxh3 1 e') ∧
    ∃ s e', (firstTurn (some 7) 7).2 = some s ∧ (firstTurn (some 7) 7).1.engine.tracked = some 7 ∧
      withSnapshot (everySecond (some 7)) s = .ok e' ∧ ¬ HardLocked someXxh3 7 e' := by
  constructor
  · obtain ⟨s, e', hwrites, htracks, hresumed⟩ := firstTurn_resumes none 1 (Or.inl rfl)
    refine ⟨s, e', hwrites, htracks, hresumed, fun hlock => ?_⟩
    rw [step_snapshot hwrites] at hresumed
    have hdropped := (resumed_of_snapshot hresumed).dropped rfl someXxh3
    exact absurd (hdropped.symm.trans (hlock.2 0 _ (clocked_quietSpell _))) (by simp)
  · obtain ⟨s, e', hwrites, htracks, hresumed⟩ := firstTurn_resumes (some 7) 7 (Or.inr rfl)
    refine ⟨s, e', hwrites, htracks, hresumed, fun hlock => ?_⟩
    rw [step_snapshot hwrites] at hresumed
    have hres := resumed_of_snapshot hresumed
    have hstart : Pinned 7 1 (new (everySecond (some 7))) := ⟨by decide, rfl, rfl⟩
    have hend := Pinned.step (r := Running.start (new (everySecond (some 7))) 0) hstart someXxh3
      (firstPrint 7)
    rw [hend.name] at hres
    exact absurd (hres.tracked.symm.trans hlock.1) (by decide)

end Flowlab.Engine
