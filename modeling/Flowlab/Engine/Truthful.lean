import Flowlab.Engine.Published

namespace Flowlab.Engine

open Std
open Flowlab.Chaos (ChaosEvent FullChain Spans Stamp stamp)
open Flowlab.Core (Event EventType HotOrderBook Level SequencedEvent Xxh3)
open Flowlab.Flow (BreakerConfig BreakerSnapshot CircuitBreaker)

/-- A breaker no order has met. -/
structure Idle (b : CircuitBreaker) : Prop where
  open_ : b.halted = false ∧ b.reason = none
  counters : b.ordersSent = 0 ∧ b.tradesDone = 0 ∧ b.cashFlowTicks = 0
  positions : b.positions = ∅
  gaps : b.gapLog = []

/-- What is shown of an idle breaker. -/
structure Quiet (s : BreakerSnapshot) : Prop where
  open_ : s.halted = false ∧ s.reason = none
  counters : s.ordersSent = 0 ∧ s.tradesDone = 0 ∧ s.cashFlowTicks = 0
  exposure : s.netPosition = 0 ∧ s.gapsInWindow = 0

theorem idle_new (cfg : BreakerConfig) (now : Int) : Idle (.new cfg now) :=
  ⟨⟨rfl, rfl⟩, ⟨rfl, rfl, rfl⟩, rfl, rfl⟩

theorem Idle.snapshot {b : CircuitBreaker} (h : Idle b) (now : Int) :
    Idle (b.snapshot now).1 ∧ Quiet (b.snapshot now).2 := by
  obtain ⟨hopen, hcounters, hpositions, hgaps⟩ := h
  have hnone : b.recentGaps now = [] := by
    rw [CircuitBreaker.recentGaps, hgaps, List.filter_nil]
  refine ⟨⟨hopen, hcounters, hpositions, hnone⟩, hopen, hcounters, ?_, ?_⟩
  · have hempty : b.positions.toList = [] := ExtTreeMap.toList_eq_nil_iff.mpr hpositions
    rw [CircuitBreaker.snapshot, hempty]
    rfl
  · rw [CircuitBreaker.snapshot, hnone]
    rfl

/-- The stamps with one of the numbers up to a count from a first one. -/
def numbered (first : UInt64) (m : Nat) : Set Stamp :=
  {s | ∃ n, 1 ≤ n ∧ n ≤ m ∧ s.1 = first + UInt64.ofNat n}

/-- What a frame says of an event and of the books before and after it. -/
def Says (before after : HotOrderBook 256) (depthLevels : Nat) (past : Set Stamp)
    (ev : SequencedEvent) : TelemetryFrame → Prop
  | .header id => id = some ev.event.instrumentId
  | .chaos _ flag => Spans past ev flag
  | .trade t => TradeOf before ev.event t
  | .tick t => (∃ bid ask, after.bestBid = some bid ∧ after.bestAsk = some ask ∧ TickOf bid ask t) ∧
      t.bidDepth = ((after.bids.ladder.take depthLevels).map Level.totalQty).sum ∧
      t.askDepth = ((after.asks.ladder.take depthLevels).map Level.totalQty).sum
  | .risk s => Quiet s
  | .lat => True
  | .book b => BookOf after depthLevels b

namespace Publisher

variable {x : Xxh3} {cfg : PublishConfig} {p q : Publisher} {pull : Pull}
  {fs frames : List TelemetryFrame} {first : UInt64} {k m : Nat}

/-- What the loop keeps of the parts it publishes from. -/
structure Sound (first : UInt64) (k m : Nat) (p : Publisher) : Prop where
  taken : m ≤ k
  seq : p.running.engine.seq = first + UInt64.ofNat m
  grid : p.running.engine.book.GridInv
  chain : p.chain.Remembers (numbered first m)
  idle : Idle p.breaker

theorem filtered_grid (h : p.running.engine.book.GridInv) (pull : Pull) :
    (p.filtered pull).1.book.GridInv := by
  rcases p.filtered_book pull with hsame | ⟨id, hnew⟩
  · rw [hsame]
    exact h
  · rw [hnew]
    exact HotOrderBook.gridInv_new (by decide) id

/-- A turn that sends keeps its parts sound, and what it sends is so. -/
theorem Sound.sends (h : Sound first k m p) {flags : List ChaosEvent} {paced : List TelemetryFrame}
    (hs : Sends x cfg p pull q flags paced) :
    Sound first (k + 1) (m + 1) q ∧ ∀ f ∈ p.lockHeader pull ++
        (flags.map (.chaos q.running.engine.seq) ++
          ((tradeFrame q.running.engine.seq (p.filtered pull).1.book pull.event).toList.map .trade ++
            paced)),
      Says (p.filtered pull).1.book q.running.engine.book cfg.depthLevels (numbered first (m + 1))
        ⟨q.running.engine.seq, 0, pull.event, (0, 0)⟩ f := by
  have hseq : q.running.engine.seq = first + UInt64.ofNat (m + 1) := by
    rw [hs.engine, UInt64.ofNat_add, ← UInt64.add_assoc, ← h.seq, ← filtered_seq p pull]
    rfl
  have hgrid : q.running.engine.book.GridInv := by
    rw [hs.engine]
    exact HotOrderBook.gridInv_apply (filtered_grid h.grid pull) pull.event
  have hgrow : numbered first m ⊆ numbered first (m + 1) := by
    rintro s ⟨n, hpos, hle, hn⟩
    exact ⟨n, hpos, hle.trans (Nat.le_succ m), hn⟩
  have hnow : stamp ⟨q.running.engine.seq, 0, pull.event, (0, 0)⟩ ∈ numbered first (m + 1) :=
    ⟨m + 1, Nat.succ_pos m, le_rfl, hseq⟩
  obtain ⟨hchain, _, _, hspans⟩ := (h.chain.mono hgrow).processInto hnow hs.chain
  obtain ⟨hidle, hquiet⟩ := h.idle.snapshot pull.now
  refine ⟨⟨Nat.succ_le_succ h.taken, hseq, hgrid, hchain, ?_⟩, ?_⟩
  · rcases hs.breaker with hsame | hsampled
    · rw [hsame]
      exact h.idle
    · rw [hsampled]
      exact hidle
  · intro f hf
    rcases List.mem_append.mp hf with hheader | hf
    · rw [lockHeader] at hheader
      split_ifs at hheader
      · rw [List.mem_singleton.mp hheader]
        exact congrArg some rfl
      · cases hheader
    · rcases List.mem_append.mp hf with hchaos | hf
      · obtain ⟨flag, hflag, rfl⟩ := List.mem_map.mp hchaos
        exact hspans flag hflag
      · rcases List.mem_append.mp hf with htrade | hpaced
        · obtain ⟨t, ht, rfl⟩ := List.mem_map.mp htrade
          exact (tradeOf_tradeFrame (Option.mem_toList.mp ht)).2
        · rcases (hs.paced f hpaced).cases with ⟨t, rfl, ht, hsent⟩ | rfl | rfl | rfl
          · obtain ⟨_, hdepths⟩ := depths_buildTick hgrid ht
            exact ⟨tickOf_buildTick ht hsent, hdepths⟩
          · exact hquiet
          · exact trivial
          · exact bookOf_buildBook hgrid cfg.depthLevels

theorem Sound.turn (h : Sound first k m p) (hturn : p.turn x cfg pull = some (q, fs)) :
    ∃ m', Sound first (k + 1) m' q := by
  rcases turn_cases hturn with ⟨hheld, _, rfl⟩ | ⟨flags, paced, hsends, _⟩
  · have hengine := held_engine (x := x) hheld
    refine ⟨m, h.taken.trans (Nat.le_succ k), ?_, ?_, h.chain, h.idle⟩
    · dsimp only
      rw [hengine, filtered_seq, h.seq]
    · dsimp only
      rw [hengine]
      exact filtered_grid h.grid pull
  · exact ⟨m + 1, (h.sends hsends).1⟩

theorem Sound.run (h : Sound first k m p) {pulls : List Pull}
    (hrun : p.run x cfg pulls = some (q, frames)) : ∃ m', Sound first (k + pulls.length) m' q := by
  let P (k : Nat) (p : Publisher) (_ : List TelemetryFrame) : Prop := ∃ m, Sound first k m p
  have hstart : P k p [] := ⟨m, h⟩
  have hend : P (k + pulls.length) q ([] ++ frames) := by
    refine run_keeps ?_ hstart hrun
    rintro k p _ pull q fs _ ⟨m, h⟩ hturn
    exact h.turn hturn
  exact hend

theorem sound_start (cfg : PublishConfig) {chain : FullChain} (hchain : chain.Fresh)
    (breaker : BreakerConfig) {e : Engine} (hgrid : e.book.GridInv) (now : Nat) :
    Sound e.seq 0 0 (start cfg chain breaker e now).1 where
  taken := le_rfl
  seq := (UInt64.add_zero e.seq).symm
  grid := hgrid
  chain := hchain.remembers
  idle := idle_new breaker now

/-- **What is published is so.** In any run of the loop from a well-formed book and a fresh chain, the
frames sent of a further event say of it and of the books around it what is the case: a header names
its instrument; a chaos flag ends at that event and starts at the number of one that was published
or at its own; a print has the event's time and size, the event's price or that of the side it hits,
and an aggressor only where the touch before it was not locked or crossed; a tick has the exact mid
and spread of the touch after it, a microprice between the two and the depths of the ladders; a
ladder frame is the top of each side, each strictly sorted; and the breaker, which the loop never
asks, is shown open and at zero. -/
theorem published_truthful {chain : FullChain} {breaker : BreakerConfig} {e : Engine} {now : Nat}
    {pulls : List Pull} {r : Publisher} (hgrid : e.book.GridInv) (hchain : chain.Fresh)
    (hrun : (start cfg chain breaker e now).1.run x cfg pulls = some (q, frames))
    (hturn : q.turn x cfg pull = some (r, fs)) :
    ∃ m ≤ pulls.length, q.running.engine.seq = e.seq + UInt64.ofNat m ∧ ∀ f ∈ fs,
      Says (q.filtered pull).1.book r.running.engine.book cfg.depthLevels
        (numbered e.seq (m + 1)) ⟨r.running.engine.seq, 0, pull.event, (0, 0)⟩ f := by
  obtain ⟨m, hsound⟩ := (sound_start cfg hchain breaker hgrid now).run hrun
  have htaken := hsound.taken
  rw [Nat.zero_add] at htaken
  refine ⟨m, htaken, hsound.seq, ?_⟩
  rcases turn_cases hturn with ⟨_, rfl, _⟩ | ⟨flags, paced, hsends, rfl⟩
  · exact nofun
  · exact (hsound.sends hsends).2

theorem published_truthful_opened : ∃ q frames r fs,
    opened.1.run someXxh3 atEveryTurn [.print 1 1000000000] = some (q, frames) ∧
    q.turn someXxh3 atEveryTurn (.bid 1 2000000000) = some (r, fs) ∧
    ∃ m ≤ 1, ∀ f ∈ fs, Says (q.filtered (.bid 1 2000000000)).1.book r.running.engine.book 10
      (numbered 0 (m + 1)) ⟨r.running.engine.seq, 0, (Pull.bid 1 2000000000).event, (0, 0)⟩ f := by
  obtain ⟨q, frames, hrun, r, fs, hturn⟩ := opened_runs
  have hgrid : (HotOrderBook.new 256 1).GridInv := HotOrderBook.gridInv_new (by decide) 1
  obtain ⟨m, hm, _, hsays⟩ :=
    published_truthful hgrid (FullChain.fresh_defaultItch .byLevel) hrun hturn
  exact ⟨q, frames, r, fs, hrun, hturn, m, hm, hsays⟩

end Publisher

end Flowlab.Engine
