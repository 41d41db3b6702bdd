import Flowlab.Chaos.Chain
import Flowlab.Replay.Snapshot

namespace Flowlab

open Std
open Flowlab.Chaos (ChaosChain BookDetector MiniBook)
open Flowlab.Core (Event EventType HotOrderBook BookSnapshotError SequencedEvent Xxh3)
open Flowlab.Replay (Snapshot)

/-- The part of the configuration that decides what is tracked and what is written. -/
structure EngineConfig where
  instrumentId : UInt32
  trackInstrument : Option UInt32
  autoLockThreshold : UInt32
  snapshotEvery : Option Nat
  snapshotOut : Option String
  deriving DecidableEq

/-- The engine of `engine.rs` without its telemetry: book, sequence number, symbol filter and
detectors. Instants are nanoseconds on the monotonic clock. -/
structure Engine where
  cfg : EngineConfig
  book : HotOrderBook 256
  seq : UInt64
  tracked : Option UInt32
  instrumentCounts : ExtTreeMap UInt32 UInt32
  lastLockedTradeAt : Option Nat
  chaosChain : ChaosChain

namespace Engine

/-- One turn of the loop: an event of the source and the clock where the turn reads it, at the
staleness test, at a trade of the locked symbol or a lock, and after the event. -/
structure Pull where
  event : Event
  elapsedAt : Nat
  lockedAt : Nat
  now : Nat

/-- A turn at one instant, with a trade of 1 at 10. -/
def Pull.print (instrumentId : UInt32) (at' : Nat) : Pull :=
  ⟨⟨0, 10, 1, 0, instrumentId, EventType.trade.toU8, 0⟩, at', at', at'⟩

/-- A turn at one instant, with a bid of 5 at 10. -/
def Pull.bid (instrumentId : UInt32) (at' : Nat) : Pull :=
  ⟨⟨0, 10, 5, 7, instrumentId, EventType.orderAdd.toU8, 0⟩, at', at', at'⟩

/-- A hash for runs on fixed inputs: what an engine tracks and holds does not depend on it. -/
def someXxh3 : Xxh3 := ⟨fun _ => 3, fun _ h => h + 1⟩

/-- `Duration::from_secs(5)`. -/
def staleAfter : Nat := 5000000000

def Trades (ev : Event) : Prop := ev.eventType = EventType.trade.toU8

instance (ev : Event) : Decidable (Trades ev) :=
  inferInstanceAs (Decidable (ev.eventType = EventType.trade.toU8))

def new (cfg : EngineConfig) : Engine where
  cfg := cfg
  book := .new 256 cfg.instrumentId
  seq := 0
  tracked := cfg.trackInstrument
  instrumentCounts := ∅
  lastLockedTradeAt := none
  chaosChain := .defaultItch

def withSnapshot (cfg : EngineConfig) (snapshot : Snapshot) : Except BookSnapshotError Engine :=
  match HotOrderBook.fromSnapshotBytes 256 snapshot.bookData with
  | .error err => .error err
  | .ok book =>
    .ok { new cfg with
      book := book
      seq := snapshot.seq
      tracked := some book.instrumentId }

/-- An engine as the binary starts it. -/
def Starts (cfg : EngineConfig) (e : Engine) : Prop :=
  e = new cfg ∨ ∃ s, withSnapshot cfg s = .ok e

/-- A symbol that was not pinned is dropped when it has not traded for too long. -/
def rearm (e : Engine) (elapsedAt : Nat) : Engine :=
  match e.tracked, e.lastLockedTradeAt with
  | some _, some last =>
    if e.cfg.trackInstrument = none ∧ staleAfter < elapsedAt - last then
      { e with tracked := none, lastLockedTradeAt := none, instrumentCounts := ∅ }
    else e
  | _, _ => e

/-- Trades seen of an instrument, the present one included. -/
def tradesSeen (e : Engine) (ev : Event) : UInt32 := e.instrumentCounts[ev.instrumentId]?.getD 0 + 1

/-- The event would lock an engine that tracks nothing. -/
def Locks (e : Engine) (ev : Event) : Prop := Trades ev ∧ e.cfg.autoLockThreshold ≤ e.tradesSeen ev

instance (e : Engine) (ev : Event) : Decidable (e.Locks ev) :=
  inferInstanceAs (Decidable (Trades ev ∧ e.cfg.autoLockThreshold ≤ e.tradesSeen ev))

/-- The lock starts a book of its own; the detectors keep theirs. -/
def lockOnto (e : Engine) (instrumentId : UInt32) (lockedAt : Nat) : Engine :=
  { e with
    tracked := some instrumentId
    book := .new 256 instrumentId
    instrumentCounts := ∅
    lastLockedTradeAt := some lockedAt }

/-- The symbol filter; the flag says whether the event goes on. -/
def filter (e : Engine) (ev : Event) (lockedAt : Nat) : Engine × Bool :=
  match e.tracked with
  | some id =>
    if ev.instrumentId ≠ id then (e, false)
    else if Trades ev then ({ e with lastLockedTradeAt := some lockedAt }, true)
    else (e, true)
  | none =>
    if e.Locks ev then (e.lockOnto ev.instrumentId lockedAt, true)
    else if Trades ev then
      ({ e with instrumentCounts := e.instrumentCounts.insert ev.instrumentId (e.tradesSeen ev) },
        false)
    else (e, false)

/-- Book and detectors take the event under the next sequence number. -/
def absorb (e : Engine) (ev : Event) : Engine :=
  let seq := e.seq + 1
  { e with
    seq := seq
    book := (e.book.apply ev).1
    chaosChain := (e.chaosChain.processInto ⟨seq, 0, ev, (0, 0)⟩).1 }

def snapshot (e : Engine) (x : Xxh3) : Snapshot :=
  ⟨e.seq, e.book.canonicalL2Hash x, e.book.toSnapshotBytes⟩

/-- The engine inside its loop, with the instant the next snapshot is due. -/
structure Running where
  engine : Engine
  nextSnapshot : Option Nat

namespace Running

def start (e : Engine) (now : Nat) : Running := ⟨e, e.cfg.snapshotEvery.map (now + ·)⟩

/-- The periodic snapshot of an engine that has taken an event. -/
def periodic (e : Engine) (x : Xxh3) (nextSnapshot : Option Nat) (now : Nat) :
    Running × Option Snapshot :=
  match e.cfg.snapshotEvery, e.cfg.snapshotOut with
  | some period, some _ =>
    if nextSnapshot.getD now ≤ now then (⟨e, some (now + period)⟩, some (e.snapshot x))
    else (⟨e, nextSnapshot⟩, none)
  | _, _ => (⟨e, nextSnapshot⟩, none)

/-- One turn of the loop, with the snapshot it writes. -/
def step (x : Xxh3) (r : Running) (pull : Pull) : Running × Option Snapshot :=
  let f := (r.engine.rearm pull.elapsedAt).filter pull.event pull.lockedAt
  if f.2 then periodic (f.1.absorb pull.event) x r.nextSnapshot pull.now
  else (⟨f.1, r.nextSnapshot⟩, none)

def run (x : Xxh3) (r : Running) (pulls : List Pull) : Running :=
  pulls.foldl (fun r pull => (r.step x pull).1) r

end Running

theorem rearm_keeps (e : Engine) (at' : Nat) :
    (e.rearm at').cfg = e.cfg ∧ (e.rearm at').book = e.book ∧
      (e.rearm at').chaosChain = e.chaosChain := by
  simp only [rearm]
  split
  · split_ifs <;> exact ⟨rfl, rfl, rfl⟩
  · exact ⟨rfl, rfl, rfl⟩

theorem rearm_tracked (e : Engine) (at' : Nat) :
    (e.rearm at').tracked = e.tracked ∨
      ((e.rearm at').tracked = none ∧ e.cfg.trackInstrument = none) := by
  simp only [rearm]
  split
  · split_ifs with h
    · exact Or.inr ⟨rfl, h.1⟩
    · exact Or.inl rfl
  · exact Or.inl rfl

/-- An event the filter holds back changes no book, and not what is tracked. -/
structure Skipped (e e' : Engine) : Prop where
  cfg : e'.cfg = e.cfg
  book : e'.book = e.book
  chaosChain : e'.chaosChain = e.chaosChain
  tracked : e'.tracked = e.tracked

/-- What the filter can do. -/
theorem filter_cases (e : Engine) (ev : Event) (lockedAt : Nat) :
    ((e.filter ev lockedAt).2 = false ∧ Skipped e (e.filter ev lockedAt).1) ∨
    ((e.filter ev lockedAt).2 = true ∧ Skipped e (e.filter ev lockedAt).1 ∧
      e.tracked = some ev.instrumentId) ∨
    ((e.filter ev lockedAt).2 = true ∧ e.tracked = none ∧ e.Locks ev ∧
      (e.filter ev lockedAt).1 = e.lockOnto ev.instrumentId lockedAt) := by
  cases ht : e.tracked with
  | some id =>
    simp only [filter, ht]
    split_ifs with hid htrade
    · exact Or.inl ⟨rfl, rfl, rfl, rfl, rfl⟩
    · exact Or.inr (Or.inl ⟨rfl, ⟨rfl, rfl, rfl, ht.symm⟩, by rw [not_not.mp hid]⟩)
    · exact Or.inr (Or.inl ⟨rfl, ⟨rfl, rfl, rfl, rfl⟩, by rw [not_not.mp hid]⟩)
  | none =>
    simp only [filter, ht]
    split_ifs with hlock htrade
    · exact Or.inr (Or.inr ⟨rfl, trivial, hlock, rfl⟩)
    · exact Or.inl ⟨rfl, rfl, rfl, rfl, ht.symm⟩
    · exact Or.inl ⟨rfl, rfl, rfl, rfl, rfl⟩

theorem periodic_engine (e : Engine) (x : Xxh3) (next : Option Nat) (now : Nat) :
    (Running.periodic e x next now).1.engine = e := by
  simp only [Running.periodic]
  split
  · split_ifs <;> rfl
  · rfl

/-- The engine a turn leaves. -/
theorem step_engine (x : Xxh3) (r : Running) (pull : Pull) :
    (r.step x pull).1.engine =
      if ((r.engine.rearm pull.elapsedAt).filter pull.event pull.lockedAt).2 then
        ((r.engine.rearm pull.elapsedAt).filter pull.event pull.lockedAt).1.absorb pull.event
      else ((r.engine.rearm pull.elapsedAt).filter pull.event pull.lockedAt).1 := by
  simp only [Running.step]
  split_ifs
  · exact periodic_engine _ x _ _
  · rfl

theorem step_taken (x : Xxh3) {r : Running} {pull : Pull} {f : Engine}
    (h : (r.engine.rearm pull.elapsedAt).filter pull.event pull.lockedAt = (f, true)) :
    (r.step x pull).1.engine = f.absorb pull.event := by
  rw [step_engine, h, if_pos rfl]

theorem step_held (x : Xxh3) {r : Running} {pull : Pull} {f : Engine}
    (h : (r.engine.rearm pull.elapsedAt).filter pull.event pull.lockedAt = (f, false)) :
    (r.step x pull).1.engine = f := by
  rw [step_engine, h, if_neg (by simp)]

end Engine

end Flowlab
