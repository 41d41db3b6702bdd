import Flowlab.Core.Modify
import Flowlab.Engine.Engine
import Flowlab.Framework.Machine
import Flowlab.Framework.Provenance

namespace Flowlab.Core.HotOrderBook

variable {M : Nat}

/-- The event puts an order at this side and price. -/
def Places (e : Event) (a : Bool × UInt64) : Prop :=
  (EventType.fromU8 e.eventType = some .orderAdd ∨
    EventType.fromU8 e.eventType = some .orderModify) ∧ (decide (e.side = 0), e.price) = a

/-- A level seen after an alteration was there before, unless the alteration made it. -/
theorem depth_of_alter {b c : HotOrderBook M} (hg : b.GridInv) {isBid : Bool} {price : UInt64}
    {f : Option Level → Option Level} (hf : Framework.KeyedList.FilesUnder Level.price price f)
    (hview : c.view = b.view.alterSide isBid price f) {a : Bool × UInt64}
    (h : c.view.depth a ≠ none) :
    b.view.depth a ≠ none ∨ (a = (isBid, price) ∧ f (b.view.depth a) ≠ none) := by
  rw [hview, Book.depth_alterSide (view_sorted hg) isBid hf, alterAt] at h
  by_cases ha : a = (isBid, price)
  · rw [ha, Function.update_self] at h
    exact Or.inr ⟨ha, ha ▸ h⟩
  · rw [Function.update_of_ne ha] at h
    exact Or.inl h

/-- Levels within `S`, on a well-formed grid. -/
def Within (S : Set (Bool × UInt64)) (b : HotOrderBook M) : Prop :=
  b.GridInv ∧ ∀ a, b.view.depth a ≠ none → a ∈ S

theorem kept_within (S : Set (Bool × UInt64)) : Kept (Within (M := M) S) where
  remove b orderId h := ⟨gridInv_orders h.1 _, h.2⟩
  setMeta b orderId m h := ⟨gridInv_orders h.1 _, h.2⟩
  deductOn b isBid price qty release h := by
    obtain ⟨hg, hview, _⟩ := deductOn_spec h.1 isBid price qty release
    refine ⟨hg, fun a ha => ?_⟩
    rcases depth_of_alter h.1 (deducted_files price qty release) hview ha with hold | ⟨_, hnew⟩
    · exact h.2 a hold
    · refine h.2 a (fun hnone => hnew ?_)
      rw [hnone]
      rfl
  tradeAnon b price qty isBid h := by
    obtain ⟨hg, hview, _⟩ := h.1.grid.tradeAnon_spec price qty isBid
    refine ⟨hg.gridInv h.1.bids.depth, fun a ha => ?_⟩
    rcases depth_of_alter h.1 (deductedAnon_files price qty) hview ha with hold | ⟨_, hnew⟩
    · exact h.2 a hold
    · refine h.2 a (fun hnone => hnew ?_)
      rw [hnone]
      rfl

theorem within_addOrder {S : Set (Bool × UInt64)} {b : HotOrderBook M} (h : Within S b) (e : Event) :
    Within (S ∪ {(decide (e.side = 0), e.price)}) (b.addOrder e).1 := by
  have hwide : Within (S ∪ {(decide (e.side = 0), e.price)}) b :=
    ⟨h.1, fun a ha => Or.inl (h.2 a ha)⟩
  refine addOrder_rule hwide ?_ ?_
  · intro g hadd
    obtain ⟨hi, hlad, _⟩ := (HalfBook.addLevel_spec (half_inv h.1 _) e.price e.qty).2 g hadd
    have hview := view_setHalf b (decide (e.side = 0)) e.price _ g hlad
    refine ⟨(grid_setHalf h.1.grid hi.wf).gridInv h.1.bids.depth, fun a ha => ?_⟩
    rcases depth_of_alter h.1 (added_files e.price e.qty) hview ha with hold | ⟨hplace, _⟩
    · exact Or.inl (h.2 a hold)
    · exact Or.inr hplace
  · intro c _ _ hc
    exact ⟨gridInv_orders hc.1 _, hc.2⟩

/-- Levels come from adds and modifies alone. -/
theorem depth_apply {b : HotOrderBook M} (hg : b.GridInv) {e : Event} {a : Bool × UInt64}
    (h : (b.apply e).1.view.depth a ≠ none) : b.view.depth a ≠ none ∨ Places e a := by
  have hb : Within {a | b.view.depth a ≠ none} b := ⟨hg, fun a ha => ha⟩
  simp only [apply] at h
  cases ht : EventType.fromU8 e.eventType with
  | none =>
    rw [ht] at h
    exact Or.inl h
  | some t =>
    rw [ht] at h
    cases t with
    | orderAdd =>
      rcases (within_addOrder hb e).2 a h with hold | hnew
      · exact Or.inl hold
      · exact Or.inr ⟨Or.inl ht, hnew.symm⟩
    | orderCancel => exact Or.inl (((kept_within _).cancelOrder hb e).2 a h)
    | orderModify =>
      rcases (within_addOrder ((kept_within _).cancelOrder hb e) e).2 a h with hold | hnew
      · exact Or.inl hold
      · exact Or.inr ⟨Or.inr ht, hnew.symm⟩
    | trade => exact Or.inl (((kept_within _).trade hb e).2 a h)
    | bookSnapshot => exact Or.inl h

end Flowlab.Core.HotOrderBook

namespace Flowlab.Engine

open Framework
open Flowlab.Chaos (ChaosChain BookDetector MiniBook)
open Flowlab.Core (Event EventType Side HotOrderBook Xxh3)
open Flowlab.Replay (Snapshot)

/-- Who keeps price levels: the order book, and the detectors with a book of their own. -/
inductive Holder where
  | book
  | mini (d : BookDetector)

abbrev Place := Holder × Side × UInt64

def Holds (e : Engine) (k : Place) : Prop :=
  match k.1 with
  | .book => e.book.view.depth (k.2.1.isBid, k.2.2) ≠ none
  | .mini d => (e.chaosChain.mini d).Holds k.2.1 k.2.2

/-- The event puts quantity there, if it is taken. -/
def Places (ev : Event) (k : Place) : Prop :=
  match k.1 with
  | .book => HotOrderBook.Places ev (k.2.1.isBid, k.2.2)
  | .mini _ => MiniBook.Places ev k.2.1 k.2.2

/-- The symbol filter lets the event of this turn through. -/
def Takes (e : Engine) (pull : Pull) : Prop :=
  ((e.rearm pull.elapsedAt).filter pull.event pull.lockedAt).2 = true

/-- The turn puts quantity there in the name of the event's instrument. -/
def Contributes (r : Running) (pull : Pull) (k : Place) (instrumentId : UInt32) : Prop :=
  r.engine.Takes pull ∧ Places pull.event k ∧ instrumentId = pull.event.instrumentId

/-- The engine in its loop, with the instruments that contributed to each level it holds. What a
snapshot restored is the snapshot's instrument's. -/
def traced (x : Xxh3) (e : Engine) (now : Nat) (pulls : List Pull) :
    Provenance.Traced Running Place UInt32 :=
  (Provenance.Traced.start (fun r => r.engine.Holds) (Running.start e now) e.book.instrumentId).run
    (fun r pull => (r.step x pull).1) (fun r => r.engine.Holds) Contributes pulls

/-- No detector holds a level. -/
def NoMini (e : Engine) : Prop := ∀ d s p, ¬ (e.chaosChain.mini d).Holds s p

/-- A lock changes to another instrument only while no detector holds a level. -/
def SwitchesClean (e : Engine) (pull : Pull) : Prop :=
  (e.rearm pull.elapsedAt).tracked = none → (e.rearm pull.elapsedAt).Locks pull.event →
    pull.event.instrumentId = e.book.instrumentId ∨ e.NoMini

/-- What a detector's book becomes in a turn. -/
theorem step_mini (x : Xxh3) (r : Running) (pull : Pull) (d : BookDetector) :
    (r.step x pull).1.engine.chaosChain.mini d =
      if ((r.engine.rearm pull.elapsedAt).filter pull.event pull.lockedAt).2 then
        (r.engine.chaosChain.mini d).apply pull.event
      else r.engine.chaosChain.mini d := by
  have hchain : ((r.engine.rearm pull.elapsedAt).filter pull.event pull.lockedAt).1.chaosChain =
      r.engine.chaosChain := by
    rw [← (r.engine.rearm_keeps pull.elapsedAt).2.2]
    rcases filter_cases (r.engine.rearm pull.elapsedAt) pull.event pull.lockedAt with
      ⟨_, hs⟩ | ⟨_, hs, _⟩ | ⟨_, _, _, heq⟩
    · exact hs.chaosChain
    · exact hs.chaosChain
    · rw [heq]
      rfl
  rw [step_engine]
  split_ifs
  · rw [← hchain]
    exact ChaosChain.mini_processInto _ _ d
  · rw [hchain]

theorem kind_of_trades {ev : Event} (h : Trades ev) :
    EventType.fromU8 ev.eventType = some .trade := by
  rw [show ev.eventType = EventType.trade.toU8 from h]
  rfl

theorem not_places_of_trades {ev : Event} (h : Trades ev) (k : Place) : ¬ Places ev k := by
  have ht := kind_of_trades h
  obtain ⟨holder, s, p⟩ := k
  cases holder with
  | book =>
    intro hplace
    rcases hplace.1 with hk | hk
    · exact absurd (ht.symm.trans hk) (by simp)
    · exact absurd (ht.symm.trans hk) (by simp)
  | mini d =>
    intro hplace
    exact absurd (ht.symm.trans hplace.1) (by simp)

/-- What an engine holds after taking an event it held before, or the event placed. -/
theorem holds_absorb {e : Engine} (hg : e.book.GridInv) {ev : Event} {k : Place}
    (h : (e.absorb ev).Holds k) : e.Holds k ∨ Places ev k := by
  obtain ⟨holder, s, p⟩ := k
  cases holder with
  | book => exact HotOrderBook.depth_apply hg h
  | mini d =>
    have hmini : ((e.chaosChain.mini d).apply ev).Holds s p := by
      have hm := e.chaosChain.mini_processInto ⟨e.seq + 1, 0, ev, (0, 0)⟩ d
      rw [← hm]
      exact h
    exact MiniBook.holds_apply hmini

/-- A lock leaves only what the detectors held. -/
theorem holds_lock {e : Engine} {ev : Event} {lockedAt : Nat} (ht : Trades ev) {k : Place}
    (h : ((e.lockOnto ev.instrumentId lockedAt).absorb ev).Holds k) :
    ∃ d s p, k = (.mini d, s, p) ∧ (e.chaosChain.mini d).Holds s p := by
  have hg : (e.lockOnto ev.instrumentId lockedAt).book.GridInv :=
    HotOrderBook.gridInv_new (by norm_num) ev.instrumentId
  have hold := (holds_absorb hg h).resolve_right (not_places_of_trades ht k)
  obtain ⟨holder, s, p⟩ := k
  cases holder with
  | book =>
    refine absurd ?_ hold
    cases s <;> rfl
  | mini d => exact ⟨d, s, p, rfl, hold⟩

/-- What the engine tracks, or tracked last. -/
def owner (e : Engine) : UInt32 := e.tracked.getD e.book.instrumentId

/-- The invariant of a run that switches cleanly: everything held belongs to one instrument. -/
structure Sole (t : Provenance.Traced Running Place UInt32) : Prop where
  grid : t.state.engine.book.GridInv
  named : t.state.engine.cfg.trackInstrument = none →
    ∀ id, t.state.engine.tracked = some id → t.state.engine.book.instrumentId = id
  owned : t.OwnedBy (fun r => r.engine.Holds) t.state.engine.owner

theorem sole_start (cfg : EngineConfig) {e : Engine} (h : Starts cfg e)
    (hg : e.book.GridInv) (now : Nat) :
    Sole (Provenance.Traced.start (fun r => r.engine.Holds) (Running.start e now)
      e.book.instrumentId) := by
  have hempty (d : BookDetector) (s : Side) (p : UInt64) :
      ¬ (ChaosChain.defaultItch.mini d).Holds s p := by
    have hnew : ∃ cap, ChaosChain.defaultItch.mini d = .new cap := by
      cases d <;> exact ⟨64, rfl⟩
    obtain ⟨cap, hnew⟩ := hnew
    rw [hnew]
    cases s <;> simp [MiniBook.Holds, MiniBook.new, MiniBook.book, Side.toU8]
  have howned {w : UInt32} (hw : ∀ k, e.Holds k → w = e.book.instrumentId) :
      (Provenance.Traced.start (fun r => r.engine.Holds) (Running.start e now)
        e.book.instrumentId).OwnedBy (fun r => r.engine.Holds) w := by
    intro k
    ext v
    refine and_congr_right (fun hk => ?_)
    rw [hw k hk]
  rcases h with rfl | ⟨s, hs⟩
  · refine ⟨hg, ?_, howned ?_⟩
    · intro hnone id hid
      exact absurd (hnone.symm.trans hid) (by simp)
    · intro k hk
      obtain ⟨holder, s, p⟩ := k
      cases holder with
      | book => exact absurd (by cases s <;> rfl) hk
      | mini d => exact absurd hk (hempty d s p)
  · have htracked : e.tracked = some e.book.instrumentId := by
      simp only [withSnapshot] at hs
      split at hs
      · exact absurd hs (by simp)
      · rw [← Except.ok.inj hs]
    refine ⟨hg, ?_, howned ?_⟩
    · intro _ id hid
      exact Option.some.inj (htracked.symm.trans hid)
    · intro k _
      change e.tracked.getD e.book.instrumentId = e.book.instrumentId
      rw [htracked]
      rfl

/-- The owner survives the staleness test: an unpinned book carries the name of its lock. -/
theorem Sole.rearm_owner {t : Provenance.Traced Running Place UInt32} (h : Sole t) (at' : Nat) :
    (t.state.engine.rearm at').owner = t.state.engine.owner := by
  simp only [owner, (t.state.engine.rearm_keeps at').2.1]
  rcases t.state.engine.rearm_tracked at' with he | ⟨he, hpin⟩
  · rw [he]
  · rw [he, Option.getD_none]
    cases htr : t.state.engine.tracked with
    | none => rfl
    | some id => exact h.named hpin id htr

theorem Sole.rearm_named {t : Provenance.Traced Running Place UInt32} (h : Sole t) (at' : Nat)
    (hpin : t.state.engine.cfg.trackInstrument = none) {id : UInt32}
    (hid : (t.state.engine.rearm at').tracked = some id) :
    t.state.engine.book.instrumentId = id := by
  rcases t.state.engine.rearm_tracked at' with he | ⟨he, _⟩
  · exact h.named hpin id (he ▸ hid)
  · exact absurd (he.symm.trans hid) (by simp)

/-- A turn that holds the event back. -/
theorem Sole.hold_back {t : Provenance.Traced Running Place UInt32} (h : Sole t) (x : Xxh3)
    {pull : Pull} (htakes : ¬ t.state.engine.Takes pull)
    (hs : Skipped (t.state.engine.rearm pull.elapsedAt) (t.state.step x pull).1.engine) :
    Sole (t.step (fun r pull => (r.step x pull).1) (fun r => r.engine.Holds) Contributes pull) := by
  obtain ⟨hcfg, hbook, hchain⟩ := t.state.engine.rearm_keeps pull.elapsedAt
  refine ⟨?_, ?_, ?_⟩
  · change (t.state.step x pull).1.engine.book.GridInv
    rw [hs.book, hbook]
    exact h.grid
  · intro hpin id hid
    change (t.state.step x pull).1.engine.book.instrumentId = id
    rw [hs.book, hbook]
    refine h.rearm_named pull.elapsedAt ?_ (hs.tracked ▸ hid)
    rw [← hcfg, ← hs.cfg]
    exact hpin
  · have howner : (t.state.step x pull).1.engine.owner = t.state.engine.owner := by
      rw [← h.rearm_owner pull.elapsedAt, owner, owner, hs.tracked, hs.book]
    change Provenance.Traced.OwnedBy _ _ (t.state.step x pull).1.engine.owner
    rw [howner]
    refine h.owned.step ?_ ?_
    · intro k hk
      refine Or.inl ?_
      change (t.state.step x pull).1.engine.Holds k at hk
      simp only [Holds, hs.book, hbook, hs.chaosChain, hchain] at hk
      exact hk
    · intro k v hplace
      exact absurd hplace.1 htakes

/-- A turn that takes an event of the tracked instrument. -/
theorem Sole.take {t : Provenance.Traced Running Place UInt32} (h : Sole t) (x : Xxh3) {pull : Pull}
    {f : Engine} (hs : Skipped (t.state.engine.rearm pull.elapsedAt) f)
    (htracked : (t.state.engine.rearm pull.elapsedAt).tracked = some pull.event.instrumentId)
    (hf : (t.state.step x pull).1.engine = f.absorb pull.event) (htakes : t.state.engine.Takes pull) :
    Sole (t.step (fun r pull => (r.step x pull).1) (fun r => r.engine.Holds) Contributes pull) := by
  obtain ⟨hcfg, hbook, hchain⟩ := t.state.engine.rearm_keeps pull.elapsedAt
  have hgrid : f.book.GridInv := by
    rw [hs.book, hbook]
    exact h.grid
  have howner : t.state.engine.owner = pull.event.instrumentId := by
    rw [← h.rearm_owner pull.elapsedAt, owner, htracked]
    rfl
  refine ⟨?_, ?_, ?_⟩
  · change (t.state.step x pull).1.engine.book.GridInv
    rw [hf]
    exact HotOrderBook.gridInv_apply hgrid pull.event
  · intro hpin id hid
    change (t.state.step x pull).1.engine.cfg.trackInstrument = none at hpin
    change (t.state.step x pull).1.engine.tracked = some id at hid
    change (t.state.step x pull).1.engine.book.instrumentId = id
    rw [hf] at hpin hid ⊢
    change f.cfg.trackInstrument = none at hpin
    change f.tracked = some id at hid
    change (f.book.apply pull.event).1.instrumentId = id
    rw [HotOrderBook.apply_instrumentId, hs.book, hbook]
    rw [hs.cfg, hcfg] at hpin
    exact h.rearm_named pull.elapsedAt hpin (hs.tracked ▸ hid)
  · change Provenance.Traced.OwnedBy _ _ (t.state.step x pull).1.engine.owner
    have hsame : (t.state.step x pull).1.engine.owner = t.state.engine.owner := by
      rw [howner, hf, owner]
      change f.tracked.getD _ = _
      rw [hs.tracked, htracked]
      rfl
    rw [hsame]
    refine h.owned.step ?_ ?_
    · intro k hk
      change (t.state.step x pull).1.engine.Holds k at hk
      rw [hf] at hk
      rcases holds_absorb hgrid hk with hold | hnew
      · refine Or.inl ?_
        simp only [Holds, hs.book, hbook, hs.chaosChain, hchain] at hold
        exact hold
      · exact Or.inr ⟨htakes, hnew, howner⟩
    · intro k v hplace
      rw [hplace.2.2, howner]

/-- A turn that locks, onto the instrument of the last lock or onto detectors without a level. -/
theorem Sole.relock {t : Provenance.Traced Running Place UInt32} (h : Sole t) (x : Xxh3)
    {pull : Pull} (hnone : (t.state.engine.rearm pull.elapsedAt).tracked = none)
    (hlock : (t.state.engine.rearm pull.elapsedAt).Locks pull.event)
    (hf : (t.state.step x pull).1.engine =
      ((t.state.engine.rearm pull.elapsedAt).lockOnto pull.event.instrumentId pull.lockedAt).absorb
        pull.event)
    (hclean : t.state.engine.SwitchesClean pull) :
    Sole (t.step (fun r pull => (r.step x pull).1) (fun r => r.engine.Holds) Contributes pull) := by
  obtain ⟨_, hbook, hchain⟩ := t.state.engine.rearm_keeps pull.elapsedAt
  -- A trade places nothing, so whatever is held now a detector held before the turn.
  have hold : ∀ k, (t.state.step x pull).1.engine.Holds k →
      ∃ d s p, k = (.mini d, s, p) ∧ (t.state.engine.chaosChain.mini d).Holds s p := by
    intro k hk
    rw [hf] at hk
    obtain ⟨d, s, p, hk, hheld⟩ := holds_lock hlock.1 hk
    exact ⟨d, s, p, hk, hchain ▸ hheld⟩
  have hbook' : (t.state.step x pull).1.engine.book.instrumentId = pull.event.instrumentId := by
    rw [hf]
    exact HotOrderBook.apply_instrumentId _ _
  have howner : (t.state.step x pull).1.engine.owner = pull.event.instrumentId := by
    rw [hf]
    rfl
  refine ⟨?_, ?_, ?_⟩
  · change (t.state.step x pull).1.engine.book.GridInv
    rw [hf]
    exact HotOrderBook.gridInv_apply (HotOrderBook.gridInv_new (by norm_num) _) pull.event
  · intro _ id hid
    change (t.state.step x pull).1.engine.tracked = some id at hid
    rw [hf] at hid
    exact hbook'.trans (Option.some.inj hid)
  · change Provenance.Traced.OwnedBy _ _ (t.state.step x pull).1.engine.owner
    rw [howner]
    rcases hclean hnone hlock with hid | hempty
    · have hlast : t.state.engine.owner = pull.event.instrumentId := by
        rw [← h.rearm_owner pull.elapsedAt, owner, hnone, hbook, hid]
        rfl
      rw [← hlast]
      refine h.owned.step ?_ ?_
      · intro k hk
        obtain ⟨d, s, p, rfl, hheld⟩ := hold k hk
        exact Or.inl hheld
      · intro k v hplace
        exact absurd hplace.2.1 (not_places_of_trades hlock.1 k)
    · refine Provenance.Traced.owned_of_empty ?_ _
      intro k hk
      obtain ⟨d, s, p, _, hheld⟩ := hold k hk
      exact hempty d s p hheld

theorem Sole.step {t : Provenance.Traced Running Place UInt32} (h : Sole t) (x : Xxh3) {pull : Pull}
    (hclean : t.state.engine.SwitchesClean pull) :
    Sole (t.step (fun r pull => (r.step x pull).1) (fun r => r.engine.Holds) Contributes pull) := by
  have hstep := step_engine x t.state pull
  rcases filter_cases (t.state.engine.rearm pull.elapsedAt) pull.event pull.lockedAt with
    ⟨hflag, hs⟩ | ⟨hflag, hs, htracked⟩ | ⟨hflag, hnone, hlock, heq⟩
  · rw [if_neg (by rw [hflag]; simp)] at hstep
    refine h.hold_back x (fun htakes => ?_) (hstep ▸ hs)
    exact absurd (hflag.symm.trans htakes) (by simp)
  · rw [if_pos hflag] at hstep
    exact h.take x hs htracked hstep hflag
  · rw [if_pos hflag, heq] at hstep
    exact h.relock x hnone hlock hstep hclean

theorem traced_engine (x : Xxh3) (e : Engine) (now : Nat) (pulls : List Pull) :
    (traced x e now pulls).state = (Running.start e now).run x pulls :=
  Provenance.Traced.run_state _ pulls

/-- **Everything held is the tracked instrument's.** In a run whose locks all return to the
instrument of the last one, or find the detectors without a level, every level of the order book
and of the detectors' books comes from events of the instrument tracked. -/
theorem levels_owned (x : Xxh3) (cfg : EngineConfig) {e : Engine} (hstart : Starts cfg e)
    (hg : e.book.GridInv) (now : Nat)
    (pulls : List Pull)
    (hclean : ∀ p pull, p ++ [pull] <+: pulls →
      ((Running.start e now).run x p).engine.SwitchesClean pull) :
    ∀ p, p <+: pulls → ∀ id, (traced x e now p).state.engine.tracked = some id →
      ∀ k, (traced x e now p).state.engine.Holds k → (traced x e now p).owners k = {id} := by
  intro p hp id hid k hk
  have hsole : Sole (traced x e now p) := by
    have hstep (t : Provenance.Traced Running Place UInt32) (pull : Pull) (ht : Sole t)
        (hc : t.state.engine.SwitchesClean pull) := ht.step x hc
    refine Machine.foldl_rule hstep (sole_start cfg hstart hg now) p ?_
    intro q pull hq
    have hstate := traced_engine x e now q
    simp only [traced, Provenance.Traced.run] at hstate
    rw [hstate]
    exact hclean q pull (hq.trans hp)
  have howner : (traced x e now p).state.engine.owner = id := by
    rw [owner, hid]
    rfl
  rw [hsole.owned.owners hk, howner]

/-- Auto-lock on the first trade, nothing pinned. -/
def lockAtOnce : EngineConfig := ⟨1, none, 1, none, none⟩

/-- A lock, a bid at 10, a pause of six seconds and the next lock. -/
def pauseThen (instrumentId : UInt32) : List Pull :=
  [Pull.print 1 0, Pull.bid 1 1, Pull.print instrumentId 6000000000]

/-- The bid of instrument 1 in the ignition detector's book. -/
def leftBid : Place := (.mini .ignition, .bid, 10)

theorem holds_leftBid {pulls : List Pull}
    (h : (((Running.start (new lockAtOnce) 0).run someXxh3 pulls).engine.chaosChain.mini
      .ignition).Holds .bid 10) :
    (traced someXxh3 (new lockAtOnce) 0 pulls).state.engine.Holds leftBid := by
  rw [traced_engine]
  exact h

theorem leftBid_added :
    (traced someXxh3 (new lockAtOnce) 0 [.print 1 0, .bid 1 1]).state.engine.Holds leftBid := by
  refine holds_leftBid ?_
  simp only [Running.run, List.foldl_cons, List.foldl_nil]
  rw [step_mini, if_pos (by decide), step_mini, if_pos (by decide)]
  simp only [MiniBook.Holds]
  decide

theorem leftBid_stays {instrumentId : UInt32} (h : instrumentId = 1 ∨ instrumentId = 2) :
    (traced someXxh3 (new lockAtOnce) 0 (pauseThen instrumentId)).state.engine.Holds leftBid := by
  refine holds_leftBid ?_
  simp only [Running.run, pauseThen, List.foldl_cons, List.foldl_nil]
  rcases h with rfl | rfl
  all_goals
    rw [step_mini, if_pos (by decide), step_mini, if_pos (by decide), step_mini, if_pos (by decide)]
    simp only [MiniBook.Holds]
    decide

/-- The instrument comes back after the pause, and its bid is still its own. -/
theorem levels_owned_same :
    (traced someXxh3 (new lockAtOnce) 0 (pauseThen 1)).owners leftBid = {1} := by
  refine levels_owned someXxh3 lockAtOnce (Or.inl rfl)
    (HotOrderBook.gridInv_new (by norm_num) 1) 0 (pauseThen 1) ?_ _ List.prefix_rfl 1
    (by decide) leftBid (leftBid_stays (Or.inl rfl))
  intro p pull hp
  refine Machine.steps_of_get (P := fun p pull =>
    ((Running.start (new lockAtOnce) 0).run someXxh3 p).engine.SwitchesClean pull) (fun n => ?_) hp
  fin_cases n <;> exact fun _ _ => Or.inl rfl

/-- The detectors keep the bid of instrument 1 when the engine goes over to instrument 2. -/
theorem levels_carried_over :
    ¬ ∀ id, (traced someXxh3 (new lockAtOnce) 0 (pauseThen 2)).state.engine.tracked = some id →
      ∀ k, (traced someXxh3 (new lockAtOnce) 0 (pauseThen 2)).state.engine.Holds k →
        (traced someXxh3 (new lockAtOnce) 0 (pauseThen 2)).owners k = {id} := by
  have hleft := leftBid_stays (Or.inr rfl)
  have howner : 1 ∈ (traced someXxh3 (new lockAtOnce) 0 (pauseThen 2)).owners leftBid := by
    have hcontributes : Contributes ((Running.start (new lockAtOnce) 0).run someXxh3 [Pull.print 1 0])
        (Pull.bid 1 1) leftBid 1 :=
      ⟨by simp only [Takes]; decide, ⟨rfl, rfl, rfl⟩, rfl⟩
    exact ⟨hleft, Or.inl ⟨leftBid_added, Or.inr hcontributes⟩⟩
  intro howned
  rw [howned 2 (by decide) leftBid hleft] at howner
  exact absurd howner (by decide)

end Flowlab.Engine
