import Flowlab.Chaos.FlagSpans
import Flowlab.Engine.MarketData

namespace Flowlab.Engine

open Flowlab.Chaos (ChaosEvent FullChain)
open Flowlab.Core (Event HotOrderBook Level Xxh3)
open Flowlab.Flow (BreakerConfig BreakerSnapshot CircuitBreaker)

/-- The sequence number a frame carries. -/
def TelemetryFrame.seq? : TelemetryFrame → Option UInt64
  | .chaos seq _ => some seq
  | .trade t => some t.seq
  | .tick t => some t.seq
  | .book b => some b.seq
  | .header _ | .risk _ | .lat => none

def TelemetryFrame.header? : TelemetryFrame → Option (Option UInt32)
  | .header id => some id
  | _ => none

/-- What the last header of a stream names. -/
def lastHeader (frames : List TelemetryFrame) : Option (Option UInt32) :=
  (frames.filterMap TelemetryFrame.header?).getLast?

namespace Publisher

variable {x : Xxh3} {cfg : PublishConfig} {p q : Publisher} {pull : Pull}
  {fs : List TelemetryFrame}

/-- The engine once the filter has seen the event, and whether it goes on. -/
def filtered (p : Publisher) (pull : Pull) : Engine × Bool :=
  (p.running.engine.rearm pull.elapsedAt).filter pull.event pull.lockedAt

/-- The header of a new lock. -/
def lockHeader (p : Publisher) (pull : Pull) : List TelemetryFrame :=
  if (p.running.engine.rearm pull.elapsedAt).tracked = none then
    [.header (some pull.event.instrumentId)]
  else []

/-- The frames that are paced by the clock. -/
structure Paced (cfg : PublishConfig) (e : Engine) (b : CircuitBreaker) (ev : Event) (now : Nat)
    (f : TelemetryFrame) : Prop where
  intro ::
  cases : (∃ t, f = .tick t ∧ e.buildTick cfg.depthLevels ev = some t ∧ t.midTicks > 0) ∨
    f = .risk (b.snapshot now).2 ∨ f = .lat ∨ f = .book (e.buildBook cfg.depthLevels)

/-- A turn whose event goes on. -/
structure Sends (x : Xxh3) (cfg : PublishConfig) (p : Publisher) (pull : Pull) (q : Publisher)
    (flags : List ChaosEvent) (paced : List TelemetryFrame) : Prop where
  goes : (p.filtered pull).2 = true
  running : q.running = (p.running.step x pull).1
  chain : p.chain.processInto ⟨q.running.engine.seq, 0, pull.event, (0, 0)⟩ = some (q.chain, flags)
  breaker : q.breaker = p.breaker ∨ q.breaker = (p.breaker.snapshot pull.now).1
  paced : ∀ f ∈ paced, Paced cfg q.running.engine p.breaker pull.event pull.now f

theorem tickFrames_cases {ev : Event} {now : Nat} (h : tickFrames cfg p ev now = some (q, fs)) :
    q.running = p.running ∧ q.chain = p.chain ∧
      (q.breaker = p.breaker ∨ q.breaker = (p.breaker.snapshot now).1) ∧
      ∀ f ∈ fs, Paced cfg p.running.engine p.breaker ev now f := by
  simp only [tickFrames] at h
  split_ifs at h
  · simp only [Option.bind_eq_bind, Option.bind_eq_some_iff] at h
    obtain ⟨t, ht, hq⟩ := h
    cases hq
    refine ⟨rfl, rfl, .inr rfl, ?_⟩
    intro f hf
    rcases List.mem_append.mp hf with htick | hrest
    · split_ifs at htick with hmid
      · exact ⟨.inl ⟨t, List.mem_singleton.mp htick, ht, hmid⟩⟩
      · cases htick
    · rcases List.mem_cons.mp hrest with rfl | hlat
      · exact ⟨.inr (.inl rfl)⟩
      · exact ⟨.inr (.inr (.inl (List.mem_singleton.mp hlat)))⟩
  · cases h
    exact ⟨rfl, rfl, .inl rfl, nofun⟩

theorem bookFrames_cases (cfg : PublishConfig) (p : Publisher) (now : Nat) :
    (bookFrames cfg p now).1.running = p.running ∧ (bookFrames cfg p now).1.chain = p.chain ∧
      (bookFrames cfg p now).1.breaker = p.breaker ∧
      ∀ f ∈ (bookFrames cfg p now).2, f = .book (p.running.engine.buildBook cfg.depthLevels) := by
  rw [bookFrames]
  split_ifs
  · exact ⟨rfl, rfl, rfl, fun f hf => List.mem_singleton.mp hf⟩
  · exact ⟨rfl, rfl, rfl, nofun⟩

/-- What a turn can do. -/
theorem turn_cases (h : p.turn x cfg pull = some (q, fs)) :
    ((p.filtered pull).2 = false ∧ fs = [] ∧
      q = { p with running := (p.running.step x pull).1 }) ∨
    ∃ flags paced, Sends x cfg p pull q flags paced ∧
      fs = p.lockHeader pull ++ (flags.map (.chaos q.running.engine.seq) ++
        ((tradeFrame q.running.engine.seq (p.filtered pull).1.book pull.event).toList.map .trade ++
          paced)) := by
  simp only [turn] at h
  cases hgoes : (p.filtered pull).2 with
  | false =>
    rw [filtered] at hgoes
    rw [hgoes, if_neg Bool.false_ne_true] at h
    cases h
    exact .inl ⟨rfl, rfl, rfl⟩
  | true =>
    have hgoes' := hgoes
    rw [filtered] at hgoes'
    rw [hgoes', if_pos rfl] at h
    simp only [Option.bind_eq_bind, Option.bind_eq_some_iff] at h
    obtain ⟨c, hc, t, ht, hq⟩ := h
    obtain ⟨hrun, hchain, hbreaker, hpaced⟩ := tickFrames_cases ht
    obtain ⟨hrun', hchain', hbreaker', hbook⟩ := bookFrames_cases cfg t.1 pull.now
    cases hq
    have hengine : (bookFrames cfg t.1 pull.now).1.running = (p.running.step x pull).1 :=
      hrun'.trans hrun
    refine .inr ⟨c.2, t.2 ++ (bookFrames cfg t.1 pull.now).2, ⟨hgoes, hengine, ?_, ?_, ?_⟩, ?_⟩
    · rw [hengine, hchain', hchain, hc]
    · rw [hbreaker']
      exact hbreaker
    · intro f hf
      rw [hengine]
      rcases List.mem_append.mp hf with htick | hlast
      · exact hpaced f htick
      · rw [hbook f hlast, hrun]
        exact ⟨.inr (.inr (.inr rfl))⟩
    · rw [hengine]
      rfl

theorem rearm_seq (e : Engine) (at' : Nat) : (e.rearm at').seq = e.seq := by
  rw [rearm]
  split
  · split_ifs <;> rfl
  · rfl

theorem filter_seq (e : Engine) (ev : Event) (lockedAt : Nat) :
    (e.filter ev lockedAt).1.seq = e.seq := by
  rw [filter]
  split
  · split_ifs <;> rfl
  · split_ifs <;> rfl

theorem filtered_seq (p : Publisher) (pull : Pull) :
    (p.filtered pull).1.seq = p.running.engine.seq := by
  rw [filtered, filter_seq, rearm_seq]

/-- The filter leaves the book as it is, or begins one. -/
theorem filtered_book (p : Publisher) (pull : Pull) :
    (p.filtered pull).1.book = p.running.engine.book ∨
      ∃ id, (p.filtered pull).1.book = HotOrderBook.new 256 id := by
  have hrearmed := (p.running.engine.rearm_keeps pull.elapsedAt).2.1
  rw [filtered]
  rcases filter_cases (p.running.engine.rearm pull.elapsedAt) pull.event pull.lockedAt with
    ⟨_, hs⟩ | ⟨_, hs, _⟩ | ⟨_, _, _, heq⟩
  · exact .inl (hs.book.trans hrearmed)
  · exact .inl (hs.book.trans hrearmed)
  · rw [heq]
    exact .inr ⟨_, rfl⟩

/-- A turn that sends nothing leaves the engine that the filter does. -/
theorem held_engine (h : (p.filtered pull).2 = false) :
    (p.running.step x pull).1.engine = (p.filtered pull).1 := by
  rw [filtered] at h ⊢
  rw [step_engine, h, if_neg Bool.false_ne_true]

/-- What the filter lets through is of the symbol it then tracks; a symbol it just locked onto is
announced, and no other. -/
theorem filtered_goes (h : (p.filtered pull).2 = true) :
    (p.filtered pull).1.tracked = some pull.event.instrumentId ∧
      ((p.lockHeader pull = [] ∧ p.running.engine.tracked = some pull.event.instrumentId) ∨
        p.lockHeader pull = [.header (some pull.event.instrumentId)]) := by
  rw [filtered] at h ⊢
  rcases filter_cases (p.running.engine.rearm pull.elapsedAt) pull.event pull.lockedAt with
    ⟨hheld, _⟩ | ⟨_, hs, htracked⟩ | ⟨_, hnone, _, heq⟩
  · exact absurd (hheld.symm.trans h) Bool.false_ne_true
  · refine ⟨hs.tracked.trans htracked, .inl ⟨?_, ?_⟩⟩
    · rw [lockHeader, htracked, if_neg (by simp)]
    · rcases p.running.engine.rearm_tracked pull.elapsedAt with hkept | ⟨hdropped, _⟩
      · exact hkept.symm.trans htracked
      · exact absurd (hdropped.symm.trans htracked) nofun
  · rw [heq]
    exact ⟨rfl, .inr (if_pos hnone)⟩

theorem Sends.engine {flags : List ChaosEvent} {paced : List TelemetryFrame}
    (h : Sends x cfg p pull q flags paced) :
    q.running.engine = (p.filtered pull).1.absorb pull.event := by
  have hgoes := h.goes
  rw [filtered] at hgoes ⊢
  rw [h.running, step_engine, if_pos hgoes]

/-- A header is sent first or not at all, and every other frame carries no header and the number of
the event. -/
theorem Sends.rest {flags : List ChaosEvent} {paced : List TelemetryFrame}
    (h : Sends x cfg p pull q flags paced) :
    ∀ f ∈ flags.map (.chaos q.running.engine.seq) ++
        ((tradeFrame q.running.engine.seq (p.filtered pull).1.book pull.event).toList.map .trade ++
          paced),
      f.header? = none ∧ ∀ n, f.seq? = some n → n = q.running.engine.seq := by
  intro f hf
  rcases List.mem_append.mp hf with hchaos | hf
  · obtain ⟨flag, _, rfl⟩ := List.mem_map.mp hchaos
    exact ⟨rfl, fun n hn => (Option.some.inj hn).symm⟩
  · rcases List.mem_append.mp hf with htrade | hpaced
    · obtain ⟨t, ht, rfl⟩ := List.mem_map.mp htrade
      have hseq := (tradeOf_tradeFrame (Option.mem_toList.mp ht)).1
      exact ⟨rfl, fun n hn => (Option.some.inj hn).symm.trans hseq⟩
    · rcases (h.paced f hpaced).cases with ⟨t, rfl, ht, _⟩ | rfl | rfl | rfl
      · refine ⟨rfl, fun n hn => (Option.some.inj hn).symm.trans ?_⟩
        simp only [buildTick, Option.bind_eq_bind, Option.bind_eq_some_iff] at ht
        obtain ⟨bidDepth, _, askDepth, _, hmk⟩ := ht
        cases hmk
        rfl
      · simp [TelemetryFrame.header?, TelemetryFrame.seq?]
      · simp [TelemetryFrame.header?, TelemetryFrame.seq?]
      · exact ⟨rfl, fun n hn => (Option.some.inj hn).symm⟩

/-- What every turn keeps of a stream holds after a run. -/
theorem run_keeps {P : Nat → Publisher → List TelemetryFrame → Prop} {pulls : List Pull}
    (hstep : ∀ {k p frames pull q fs}, pull ∈ pulls → P k p frames →
      p.turn x cfg pull = some (q, fs) → P (k + 1) q (frames ++ fs))
    {k : Nat} {frames more : List TelemetryFrame}
    (h : P k p frames) (hrun : p.run x cfg pulls = some (q, more)) :
    P (k + pulls.length) q (frames ++ more) := by
  induction pulls generalizing k p frames more with
  | nil =>
    cases hrun
    rw [List.append_nil]
    exact h
  | cons pull pulls ih =>
    simp only [run, Option.bind_eq_bind, Option.bind_eq_some_iff] at hrun
    obtain ⟨⟨t, fs⟩, hturn, ⟨u, rest⟩, hrest, heq⟩ := hrun
    cases heq
    have hend := ih (fun hmem => hstep (List.mem_cons_of_mem pull hmem))
      (hstep List.mem_cons_self h hturn) hrest
    rwa [List.append_assoc, Nat.add_right_comm] at hend

/-- The stream names what is tracked, and its numbers count on from a first one. -/
structure Announced (first : UInt64) (k m : Nat) (p : Publisher) (frames : List TelemetryFrame)
    (ns : List Nat) : Prop where
  taken : m ≤ k
  seq : p.running.engine.seq = first + UInt64.ofNat m
  header : ∀ id, p.running.engine.tracked = some id → lastHeader frames = some (some id)
  numbers : frames.filterMap TelemetryFrame.seq? = ns.map (first + UInt64.ofNat ·)
  sorted : ns.Pairwise (· ≤ ·)
  range : ∀ n ∈ ns, 1 ≤ n ∧ n ≤ m

theorem lastHeader_append {frames fs : List TelemetryFrame} (h : ∀ f ∈ fs, f.header? = none) :
    lastHeader (frames ++ fs) = lastHeader frames := by
  rw [lastHeader, List.filterMap_append, List.filterMap_eq_nil_iff.mpr h, List.append_nil, lastHeader]

variable {first : UInt64} {k m : Nat} {frames : List TelemetryFrame} {ns : List Nat}

/-- The symbol of an event that goes on was named before, or is by the first frame of its turn. -/
theorem Announced.named (ha : Announced first k m p frames ns) {flags : List ChaosEvent}
    {paced : List TelemetryFrame} (h : Sends x cfg p pull q flags paced) :
    (p.lockHeader pull = [] ∧ lastHeader frames = some (some pull.event.instrumentId)) ∨
      p.lockHeader pull = [.header (some pull.event.instrumentId)] := by
  obtain ⟨_, ⟨hnone, hwas⟩ | hlocked⟩ := filtered_goes h.goes
  · exact .inl ⟨hnone, ha.header _ hwas⟩
  · exact .inr hlocked

theorem lastHeader_new {id : Option UInt32} {rest : List TelemetryFrame}
    (h : ∀ f ∈ rest, f.header? = none) : lastHeader (frames ++ .header id :: rest) = some id := by
  rw [List.append_cons, lastHeader_append h, lastHeader, List.filterMap_append]
  exact List.getLast?_concat

/-- At every frame of a turn its symbol is the one last named. -/
theorem Announced.names (ha : Announced first k m p frames ns) {flags : List ChaosEvent}
    {paced : List TelemetryFrame} (h : Sends x cfg p pull q flags paced)
    {rest : List TelemetryFrame} (hrest : ∀ f ∈ rest, f.header? = none) {a b : List TelemetryFrame}
    (hab : p.lockHeader pull ++ rest = a ++ b) (hsome : a ≠ []) :
    lastHeader (frames ++ a) = some (some pull.event.instrumentId) := by
  rcases ha.named h with ⟨hnone, hwas⟩ | hlocked
  · rw [hnone, List.nil_append] at hab
    rw [lastHeader_append, hwas]
    intro f hf
    exact hrest f (hab ▸ List.mem_append_left b hf)
  · obtain ⟨f, a, rfl⟩ := List.exists_cons_of_ne_nil hsome
    rw [hlocked, List.singleton_append, List.cons_append] at hab
    obtain ⟨rfl, htail⟩ := List.cons.inj hab
    refine lastHeader_new fun f hf => hrest f ?_
    rw [htail]
    exact List.mem_append_left b hf

/-- The number of the event a turn takes. -/
theorem Announced.next (ha : Announced first k m p frames ns) {flags : List ChaosEvent}
    {paced : List TelemetryFrame} (h : Sends x cfg p pull q flags paced) :
    q.running.engine.seq = first + UInt64.ofNat (m + 1) := by
  have hseq : q.running.engine.seq = (p.filtered pull).1.seq + 1 := by
    rw [h.engine]
    rfl
  rw [hseq, filtered_seq, ha.seq, UInt64.ofNat_add, UInt64.add_assoc]
  rfl

/-- Numbers that are all of one event. -/
theorem numbers_replicate {n : UInt64} {fs : List TelemetryFrame}
    (h : ∀ f ∈ fs, ∀ m, f.seq? = some m → m = n) :
    ∃ c, fs.filterMap TelemetryFrame.seq? = List.replicate c n := by
  refine ⟨_, List.eq_replicate_of_mem fun m hm => ?_⟩
  obtain ⟨f, hf, hseq⟩ := List.mem_filterMap.mp hm
  exact h f hf m hseq

theorem lockHeader_seq (p : Publisher) (pull : Pull) :
    ∀ f ∈ p.lockHeader pull, f.seq? = none := by
  intro f hf
  rw [lockHeader] at hf
  split_ifs at hf
  · rw [List.mem_singleton.mp hf]
    rfl
  · cases hf

/-- Each turn keeps the stream announced. -/
theorem Announced.turn (ha : Announced first k m p frames ns)
    (h : p.turn x cfg pull = some (q, fs)) :
    ∃ m' ns', Announced first (k + 1) m' q (frames ++ fs) ns' := by
  rcases turn_cases h with ⟨hheld, rfl, rfl⟩ | ⟨flags, paced, hsends, rfl⟩
  · -- an event that is held back changes at most what is tracked, and to nothing
    have hengine := held_engine (x := x) hheld
    refine ⟨m, ns, ha.taken.trans (Nat.le_succ k), ?_, ?_, ?_, ha.sorted, ha.range⟩
    · dsimp only
      rw [hengine, filtered_seq, ha.seq]
    · intro id hid
      dsimp only at hid
      rw [hengine, filtered] at hid
      rw [List.append_nil]
      refine ha.header id ?_
      rcases filter_cases (p.running.engine.rearm pull.elapsedAt) pull.event pull.lockedAt with
        ⟨_, hs⟩ | ⟨hgoes, _⟩ | ⟨hgoes, _⟩
      · rw [hs.tracked] at hid
        rcases p.running.engine.rearm_tracked pull.elapsedAt with hkept | ⟨hdropped, _⟩
        · exact hkept.symm.trans hid
        · exact absurd (hdropped.symm.trans hid) nofun
      · exact absurd (hheld.symm.trans hgoes) Bool.false_ne_true
      · exact absurd (hheld.symm.trans hgoes) Bool.false_ne_true
    · rw [List.append_nil]
      exact ha.numbers
  · have hnext := ha.next hsends
    have hrest := hsends.rest
    obtain ⟨c, hc⟩ := numbers_replicate fun f hf => (hrest f hf).2
    refine ⟨m + 1, ns ++ List.replicate c (m + 1), Nat.succ_le_succ ha.taken, hnext, ?_, ?_, ?_, ?_⟩
    · intro id hid
      rw [hsends.engine] at hid
      have hid' : some pull.event.instrumentId = some id :=
        (filtered_goes hsends.goes).1.symm.trans hid
      have hquiet := fun f hf => (hrest f hf).1
      rw [← hid']
      rcases ha.named hsends with ⟨hnone, hwas⟩ | hlocked
      · rw [hnone, List.nil_append, lastHeader_append hquiet, hwas]
      · rw [hlocked, List.singleton_append, lastHeader_new hquiet]
    · rw [List.filterMap_append, ha.numbers, List.filterMap_append,
        List.filterMap_eq_nil_iff.mpr (lockHeader_seq p pull), List.nil_append, hc, hnext,
        List.map_append, List.map_replicate]
    · refine List.pairwise_append.mpr ⟨ha.sorted, List.pairwise_replicate.mpr (.inr le_rfl), ?_⟩
      intro n hn n' hn'
      rw [List.eq_of_mem_replicate hn']
      exact (ha.range n hn).2.trans (Nat.le_succ m)
    · intro n hn
      rcases List.mem_append.mp hn with hold | hnew
      · exact ⟨(ha.range n hold).1, (ha.range n hold).2.trans (Nat.le_succ m)⟩
      · rw [List.eq_of_mem_replicate hnew]
        exact ⟨Nat.succ_pos m, le_rfl⟩

theorem announced_start (cfg : PublishConfig) (chain : FullChain) (breaker : BreakerConfig)
    (e : Engine) (now : Nat) :
    Announced e.seq 0 0 (start cfg chain breaker e now).1 (start cfg chain breaker e now).2 [] where
  taken := le_rfl
  seq := (UInt64.add_zero e.seq).symm
  header _ hid := congrArg some hid
  numbers := rfl
  sorted := .nil
  range := nofun

/-- What is announced at the start stays so. -/
theorem Announced.run {pulls : List Pull} {more : List TelemetryFrame}
    (ha : Announced first k m p frames ns) (hrun : p.run x cfg pulls = some (q, more)) :
    ∃ m' ns', Announced first (k + pulls.length) m' q (frames ++ more) ns' := by
  refine run_keeps (P := fun k p frames => ∃ m ns, Announced first k m p frames ns) ?_
    ⟨m, ns, ha⟩ hrun
  rintro k p frames pull q fs _ ⟨m, ns, ha⟩ h
  exact ha.turn h

/-- **Every frame follows the header of its symbol, and the numbers count the events.** In any run of
the loop, from whatever engine it starts: at each frame of a further event the last header sent
names the instrument of that event. The numbers so far count from the engine's own, never back and
never past the events pulled; and what is sent of the further event has the next number, so that no
two events share one before it wraps. -/
theorem frames_follow_header {chain : FullChain} {breaker : BreakerConfig} {e : Engine} {now : Nat}
    {pulls : List Pull} {r : Publisher}
    (hrun : (start cfg chain breaker e now).1.run x cfg pulls = some (q, frames))
    (hturn : q.turn x cfg pull = some (r, fs)) :
    (∀ a b, fs = a ++ b → a ≠ [] →
      lastHeader ((start cfg chain breaker e now).2 ++ frames ++ a) =
        some (some pull.event.instrumentId)) ∧
    ∃ m ≤ pulls.length, ∃ ns : List Nat,
      frames.filterMap TelemetryFrame.seq? = ns.map (e.seq + UInt64.ofNat ·) ∧
      ns.Pairwise (· ≤ ·) ∧ (∀ n ∈ ns, 1 ≤ n ∧ n ≤ m) ∧
      ∀ f ∈ fs, ∀ n, f.seq? = some n → n = e.seq + UInt64.ofNat (m + 1) := by
  obtain ⟨m, ns, ha⟩ := (announced_start cfg chain breaker e now).run hrun
  have htaken := ha.taken
  rw [Nat.zero_add] at htaken
  have hnumbers : frames.filterMap TelemetryFrame.seq? = ns.map (e.seq + UInt64.ofNat ·) :=
    ha.numbers
  rcases turn_cases hturn with ⟨_, rfl, _⟩ | ⟨flags, paced, hsends, rfl⟩
  · refine ⟨?_, m, htaken, ns, hnumbers, ha.sorted, ha.range, nofun⟩
    intro a b hab hsome
    exact absurd (List.append_eq_nil_iff.mp hab.symm).1 hsome
  · have hrest := hsends.rest
    refine ⟨?_, m, htaken, ns, hnumbers, ha.sorted, ha.range, ?_⟩
    · intro a b hab hsome
      exact ha.names hsends (fun f hf => (hrest f hf).1) hab hsome
    · intro f hf n hn
      rw [← ha.next hsends]
      rcases List.mem_append.mp hf with hheader | hother
      · exact absurd ((lockHeader_seq q pull f hheader).symm.trans hn) nofun
      · exact (hrest f hother).2 n hn

/-- A loop that publishes at every turn. -/
def atEveryTurn : PublishConfig := ⟨10, 0, 0⟩

/-- A loop that is unpinned, has no limits and starts from an empty book. -/
def opened : Publisher × List TelemetryFrame :=
  start atEveryTurn (.defaultItch .byLevel) ⟨none, none, none, none, 0, none, 0⟩
    (Engine.new ⟨1, none, 1, none, none⟩) 0

/-- It locks on a first print and then takes a bid. -/
theorem opened_runs : ∃ q frames,
    opened.1.run someXxh3 atEveryTurn [.print 1 1000000000] = some (q, frames) ∧
    ∃ r fs, q.turn someXxh3 atEveryTurn (.bid 1 2000000000) = some (r, fs) := by
  refine ⟨_, _, rfl, ?_⟩
  exact ⟨_, _, rfl⟩

theorem frames_follow_header_opened : ∃ q frames r fs,
    opened.1.run someXxh3 atEveryTurn [.print 1 1000000000] = some (q, frames) ∧
    q.turn someXxh3 atEveryTurn (.bid 1 2000000000) = some (r, fs) ∧
    ∀ a b, fs = a ++ b → a ≠ [] → lastHeader (opened.2 ++ frames ++ a) = some (some 1) := by
  obtain ⟨q, frames, hrun, r, fs, hturn⟩ := opened_runs
  exact ⟨q, frames, r, fs, hrun, hturn, (frames_follow_header hrun hturn).1⟩

end Publisher

end Flowlab.Engine
