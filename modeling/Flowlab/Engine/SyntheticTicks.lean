import Flowlab.Engine.Ownership
import Flowlab.Engine.SyntheticRun
import Flowlab.Engine.Truthful

namespace Flowlab

open Framework

namespace Core.HotOrderBook

variable {M : Nat} {b : HotOrderBook M}

theorem within_new (S : Set (Bool × UInt64)) (hM : M < 2 ^ 32) (id : UInt32) :
    Within S (new M id) := by
  refine ⟨gridInv_new hM id, fun a ha => absurd ?_ ha⟩
  obtain ⟨isBid, price⟩ := a
  cases isBid <;> simp [Book.depth, Book.side, view, new, HalfBook.empty, HalfBook.ladder, levelAt,
    KeyedList.lookup]

theorem within_apply {S : Set (Bool × UInt64)} (h : Within S b) {e : Event}
    (hplaces : ∀ a, Places e a → a ∈ S) : Within S (b.apply e).1 := by
  refine ⟨gridInv_apply h.1 e, ?_⟩
  intro a ha
  rcases depth_apply h.1 ha with hold | hnew
  · exact h.2 a hold
  · exact hplaces a hnew

/-- A level of a side's ladder is one of the book. -/
theorem depth_of_mem (hg : b.GridInv) {isBid : Bool} {l : Level}
    (h : l ∈ (b.half isBid).ladder) : b.view.depth (isBid, l.price) ≠ none := by
  have hs := (half_inv hg isBid).sorted
  have hfound : levelAt l.price (b.view.side isBid) = some l := by
    rw [view_side]
    exact (KeyedList.lookup_iff_mem hs l).mpr ⟨h, rfl⟩
  rw [Book.depth, hfound]
  exact Option.some_ne_none l

theorem bestBid_depth (hg : b.GridInv) {price : UInt64} (h : b.bestBid = some price) :
    b.view.depth (true, price) ≠ none := by
  rw [bestBid] at h
  split_ifs at h with hcount
  have hpos : 0 < b.bids.count.toNat := UInt32.lt_iff_toNat_lt.mp hcount
  obtain rfl := Option.some.inj h
  exact depth_of_mem hg (List.mem_of_getElem? (HalfBook.ladder_cell hg.bids.count_le hpos))

theorem bestAsk_depth (hg : b.GridInv) {price : UInt64} (h : b.bestAsk = some price) :
    b.view.depth (false, price) ≠ none := by
  rw [bestAsk] at h
  split_ifs at h with hcount
  have hpos : 0 < b.asks.count.toNat := UInt32.lt_iff_toNat_lt.mp hcount
  obtain rfl := Option.some.inj h
  exact depth_of_mem hg (List.mem_of_getElem? (HalfBook.ladder_cell hg.asks.count_le hpos))

/-- A side whose prices lie between two bounds has no more levels than there are prices. -/
theorem count_le_of_prices (hg : b.GridInv) (isBid : Bool) {low high : Nat}
    (h : ∀ price, b.view.depth (isBid, price) ≠ none → low ≤ price.toNat ∧ price.toNat ≤ high) :
    (b.half isBid).count.toNat ≤ high + 1 - low := by
  have hi := half_inv hg isBid
  have hdistinct : ((b.half isBid).ladder.map fun l => l.price.toNat).Nodup := by
    refine List.pairwise_map.mpr (hi.sorted.imp ?_)
    intro l r hlr heq
    rw [UInt64.toNat_inj.mp heq] at hlr
    cases isBid <;> simp [ahead] at hlr
  have hsub : ((b.half isBid).ladder.map fun l => l.price.toNat).toFinset ⊆
      Finset.Icc low high := by
    intro n hn
    obtain ⟨l, hl, rfl⟩ := List.mem_map.mp (List.mem_toFinset.mp hn)
    exact Finset.mem_Icc.mpr (h l.price (depth_of_mem hg hl))
  have hcard := Finset.card_le_card hsub
  rwa [List.toFinset_card_of_nodup hdistinct, List.length_map, HalfBook.ladder_length hi.count_le,
    Nat.card_Icc] at hcard

end Core.HotOrderBook

namespace Engine

open Flowlab.Chaos (FullChain)
open Flowlab.Core (Event EventType HotOrderBook Xxh3)
open Flowlab.Flow (BreakerConfig)

/-- The places of the source's orders. -/
def bands : Set (Bool × UInt64) := {a | InBand (if a.1 then 0 else 1) a.2}

theorem bid_of_bands {price : UInt64} (h : (true, price) ∈ bands) :
    99999950 ≤ price.toNat ∧ price.toNat ≤ 99999995 := by
  rcases h with ⟨_, h⟩ | ⟨hside, _⟩
  · exact h
  · exact absurd hside (by simp)

theorem ask_of_bands {price : UInt64} (h : (false, price) ∈ bands) :
    100000005 ≤ price.toNat ∧ price.toNat ≤ 100000050 := by
  rcases h with ⟨hside, _⟩ | ⟨_, h⟩
  · exact absurd hside (by simp)
  · exact h

/-- What a source event places lies in its band. -/
theorem WellMade.places {past : List Event} {e : Event} (h : WellMade past e) {a : Bool × UInt64}
    (ha : HotOrderBook.Places e a) : a ∈ bands := by
  obtain ⟨_, rfl⟩ := ha
  have hband := h.band
  rcases hband with ⟨hside, hprice⟩ | ⟨hside, hprice⟩
  · rw [hside]
    exact .inl ⟨rfl, hprice⟩
  · rw [hside]
    exact .inr ⟨rfl, hprice⟩

/-- A book of the source's levels: open, and with room to spare. -/
structure TwoSided (b : HotOrderBook 256) : Prop where
  spread : ∀ bid ask, b.bestBid = some bid → b.bestAsk = some ask →
    bid.toNat + 10 ≤ ask.toNat ∧ ask.toNat ≤ bid.toNat + 100
  levels : b.bids.count.toNat ≤ 46 ∧ b.asks.count.toNat ≤ 46

theorem twoSided_of_within {b : HotOrderBook 256} (h : HotOrderBook.Within bands b) :
    TwoSided b := by
  refine ⟨?_, ?_, ?_⟩
  · intro bid ask hbid hask
    have hb := bid_of_bands (h.2 _ (HotOrderBook.bestBid_depth h.1 hbid))
    have ha := ask_of_bands (h.2 _ (HotOrderBook.bestAsk_depth h.1 hask))
    omega
  · exact HotOrderBook.count_le_of_prices h.1 true fun price hp => bid_of_bands (h.2 _ hp)
  · exact HotOrderBook.count_le_of_prices h.1 false fun price hp => ask_of_bands (h.2 _ hp)

/-- A tick of an open market around the fixed mid. -/
structure OpenTick (t : TickFrame) : Prop where
  mid : 99999977 ≤ t.midTicks.toInt ∧ t.midTicks.toInt ≤ 100000022
  spread : 10 ≤ t.spreadTicks.toInt ∧ t.spreadTicks.toInt ≤ 100
  micro : 99999950 ≤ t.micropriceTicks.toInt ∧ t.micropriceTicks.toInt ≤ 100000050

theorem openTick_of_within {e : Engine} (h : HotOrderBook.Within bands e.book) {depthLevels : Nat}
    {ev : Event} {t : TickFrame} (ht : e.buildTick depthLevels ev = some t)
    (hsent : t.midTicks > 0) : OpenTick t := by
  obtain ⟨bid, ask, hbid, hask, _, hmid, hspread, hmicro⟩ := tickOf_buildTick ht hsent
  have hb := bid_of_bands (h.2 _ (HotOrderBook.bestBid_depth h.1 hbid))
  have ha := ask_of_bands (h.2 _ (HotOrderBook.bestAsk_depth h.1 hask))
  refine ⟨?_, ?_, ?_⟩
  · rw [hmid]
    omega
  · rw [hspread]
    omega
  · omega

namespace Publisher

variable {x : Xxh3} {cfg : PublishConfig} {p q : Publisher} {pull : Pull}
  {fs frames : List TelemetryFrame}

/-- A turn on an event of the source. -/
theorem within_turn (h : HotOrderBook.Within bands p.running.engine.book) {past : List Event}
    (hmade : WellMade past pull.event) (hturn : p.turn x cfg pull = some (q, fs)) :
    HotOrderBook.Within bands q.running.engine.book ∧ ∀ t, .tick t ∈ fs → OpenTick t := by
  have hfiltered : HotOrderBook.Within bands (p.filtered pull).1.book := by
    rcases p.filtered_book pull with hsame | ⟨id, hnew⟩
    · rw [hsame]
      exact h
    · rw [hnew]
      exact HotOrderBook.within_new bands (by decide) id
  rcases turn_cases hturn with ⟨hheld, rfl, rfl⟩ | ⟨flags, paced, hsends, rfl⟩
  · refine ⟨?_, fun t ht => absurd ht List.not_mem_nil⟩
    dsimp only
    rw [held_engine hheld]
    exact hfiltered
  · have hbook : HotOrderBook.Within bands q.running.engine.book := by
      rw [hsends.engine]
      exact HotOrderBook.within_apply hfiltered fun a ha => hmade.places ha
    refine ⟨hbook, ?_⟩
    intro t ht
    rcases List.mem_append.mp ht with hheader | ht
    · rw [lockHeader] at hheader
      split_ifs at hheader <;> simp at hheader
    · simp only [List.mem_append, List.mem_map, reduceCtorEq, and_false, exists_false,
        false_or] at ht
      rcases (hsends.paced _ ht).cases with ⟨t', heq, htick, hsent⟩ | heq | heq | heq
      · cases heq
        exact openTick_of_within hbook htick hsent
      · cases heq
      · cases heq
      · cases heq

/-- A turn that is due a tick sends it, as soon as there is a mid. -/
theorem tick_mem_turn (h : p.turn x cfg pull = some (q, fs)) (hgoes : (p.filtered pull).2 = true)
    (hpace : p.nextTick ≤ pull.now) {t : TickFrame}
    (ht : q.running.engine.buildTick cfg.depthLevels pull.event = some t) (hmid : t.midTicks > 0) :
    .tick t ∈ fs := by
  simp only [turn] at h
  rw [filtered] at hgoes
  rw [if_pos hgoes] at h
  simp only [Option.bind_eq_bind, Option.bind_eq_some_iff] at h
  obtain ⟨c, -, u, hu, hq⟩ := h
  obtain ⟨hrun, -, -, -⟩ := tickFrames_cases hu
  obtain ⟨hrun', -, -, -⟩ := bookFrames_cases cfg u.1 pull.now
  cases hq
  rw [hrun', hrun] at ht
  have hsent : .tick t ∈ u.2 := by
    simp only [tickFrames, if_pos hpace, ht, Option.bind_eq_bind, Option.bind_some,
      Option.pure_def, if_pos hmid] at hu
    cases hu
    exact List.mem_append_left _ (List.mem_singleton_self _)
  simp only [List.mem_append]
  exact .inr (.inr (.inr (.inl hsent)))

/-- **On the synthetic source the market never crosses.** Whatever its generator draws, an engine
that starts on an empty book and runs on fewer than 2^64 of its events keeps an open book in every
state: the best ask lies from 10 to 100 ticks above the best bid, and neither ladder has more than
46 of its 256 levels, so that no add is turned away. Every tick it publishes has a mid within 23 of
the fixed one, the spread of the book and a microprice between the bands. -/
theorem synthetic_ticks {G : Type} {rng : Rng G} {g : G} {clock : List UInt64}
    {s : SyntheticSource G} {evs : List Event} (hshort : clock.length < 2 ^ 64)
    (hsource : (SyntheticSource.new g).run rng clock = some (s, evs)) {pulls : List Pull}
    (hpulls : pulls.map Pull.event = evs) {chain : FullChain} {breaker : BreakerConfig}
    {ecfg : EngineConfig} {now : Nat}
    (hrun : (start cfg chain breaker (Engine.new ecfg) now).1.run x cfg pulls = some (q, frames)) :
    TwoSided q.running.engine.book ∧ ∀ t, .tick t ∈ frames → OpenTick t := by
  obtain ⟨s', evs', hrun', _, _, hall⟩ :=
    SyntheticSource.run_makes (SyntheticSource.inv_new g) rng (by simpa using hshort)
  obtain ⟨rfl, rfl⟩ := Prod.mk.inj (Option.some.inj (hsource.symm.trans hrun'))
  have hmade : ∀ pull ∈ pulls, ∃ past, WellMade past pull.event := by
    intro pull hpull
    have hmem : pull.event ∈ evs := hpulls ▸ List.mem_map_of_mem hpull
    obtain ⟨i, hi⟩ := List.mem_iff_getElem?.mp hmem
    exact ⟨_, hall i _ hi⟩
  let P (_ : Nat) (p : Publisher) (frames : List TelemetryFrame) : Prop :=
    HotOrderBook.Within bands p.running.engine.book ∧ ∀ t, .tick t ∈ frames → OpenTick t
  have hstart : P 0 (start cfg chain breaker (Engine.new ecfg) now).1 [] :=
    ⟨HotOrderBook.within_new bands (by decide) ecfg.instrumentId, fun t ht => absurd ht List.not_mem_nil⟩
  have hend : P (0 + pulls.length) q ([] ++ frames) := by
    refine run_keeps ?_ hstart hrun
    rintro k p frames pull q fs hpull ⟨hbook, hticks⟩ hturn
    obtain ⟨past, hp⟩ := hmade pull hpull
    obtain ⟨hbook', hticks'⟩ := within_turn hbook hp hturn
    refine ⟨hbook', ?_⟩
    intro t ht
    rcases List.mem_append.mp ht with hold | hnew
    · exact hticks t hold
    · exact hticks' t hnew
  exact ⟨twoSided_of_within hend.1, hend.2⟩

/-- A loop that is pinned to the source's instrument. -/
def pinned : Publisher × List TelemetryFrame :=
  start atEveryTurn (.defaultItch .byLevel) ⟨none, none, none, none, 0, none, 0⟩
    (Engine.new ⟨1, some 1, 1, none, none⟩) 0

/-- The first two events of a counting generator: a bid and an ask. -/
def firstTwo : Event × Event :=
  (⟨5, 99999993, 13, 1, 1, EventType.orderAdd.toU8, 0⟩,
    ⟨6, 100000011, 17, 2, 1, EventType.orderAdd.toU8, 1⟩)

/-- The loop takes both, and at the second it has a mid to show. -/
theorem pinned_runs : ∃ p f q fs,
    pinned.1.turn someXxh3 atEveryTurn ⟨firstTwo.1, 0, 0, 0⟩ = some (p, f) ∧
    p.turn someXxh3 atEveryTurn ⟨firstTwo.2, 0, 0, 0⟩ = some (q, fs) ∧
    q.running.engine.book.bestBid = some 99999993 ∧
    q.running.engine.book.bestAsk = some 100000011 ∧ ∃ t, .tick t ∈ fs := by
  have hfacts : ((pinned.1.turn someXxh3 atEveryTurn ⟨firstTwo.1, 0, 0, 0⟩).bind fun r =>
      (r.1.turn someXxh3 atEveryTurn ⟨firstTwo.2, 0, 0, 0⟩).map fun u =>
        (decide (r.1.nextTick ≤ 0), (r.1.filtered ⟨firstTwo.2, 0, 0, 0⟩).2,
          u.1.running.engine.book.bestBid, u.1.running.engine.book.bestAsk,
          (u.1.running.engine.buildTick 10 firstTwo.2).map fun t => decide (t.midTicks > 0))) =
      some (true, true, some 99999993, some 100000011, some true) := by
    decide +kernel
  obtain ⟨⟨p, f⟩, hp, hrest⟩ := Option.bind_eq_some_iff.mp hfacts
  obtain ⟨⟨q, fs⟩, hq, hall⟩ := Option.map_eq_some_iff.mp hrest
  simp only [Prod.mk.injEq, decide_eq_true_eq, Option.map_eq_some_iff] at hall
  obtain ⟨hpace, hgoes, hbid, hask, t, ht, hmid⟩ := hall
  exact ⟨p, f, q, fs, hp, hq, hbid, hask, t, tick_mem_turn hq hgoes hpace ht hmid⟩

theorem synthetic_ticks_pinned : ∃ s evs,
    (SyntheticSource.new 0).run SyntheticSource.countingRng [5, 6] = some (s, evs) ∧ ∃ q frames,
    pinned.1.run someXxh3 atEveryTurn (evs.map fun e => ⟨e, 0, 0, 0⟩) = some (q, frames) ∧
    q.running.engine.book.bestBid = some 99999993 ∧
    q.running.engine.book.bestAsk = some 100000011 ∧ TwoSided q.running.engine.book ∧
    ∃ t, .tick t ∈ frames ∧ OpenTick t := by
  have hevents : ((SyntheticSource.new 0).run SyntheticSource.countingRng [5, 6]).map Prod.snd =
      some [firstTwo.1, firstTwo.2] := by
    decide
  obtain ⟨⟨s, evs⟩, hsource, rfl⟩ := Option.map_eq_some_iff.mp hevents
  obtain ⟨p, f, q, fs, hp, hq, hbid, hask, t, ht⟩ := pinned_runs
  have hrun : pinned.1.run someXxh3 atEveryTurn
      ([firstTwo.1, firstTwo.2].map fun e => ⟨e, 0, 0, 0⟩) = some (q, f ++ (fs ++ [])) := by
    simp only [List.map_cons, List.map_nil, run, hp, hq, Option.bind_eq_bind, Option.bind_some,
      Option.pure_def]
  have hshort : ([5, 6] : List UInt64).length < 2 ^ 64 := by decide
  have hpulls : ([firstTwo.1, firstTwo.2].map fun e => (⟨e, 0, 0, 0⟩ : Pull)).map Pull.event =
      [firstTwo.1, firstTwo.2] := rfl
  obtain ⟨htwo, hticks⟩ := synthetic_ticks hshort hsource hpulls hrun
  have hframes : .tick t ∈ f ++ (fs ++ []) := by
    rw [List.append_nil]
    exact List.mem_append_right f ht
  exact ⟨s, _, hsource, q, _, hrun, hbid, hask, htwo, t, hframes, hticks t hframes⟩

end Publisher

end Engine

end Flowlab
