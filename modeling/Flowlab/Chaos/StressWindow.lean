import Flowlab.Framework.Segments
import Flowlab.Chaos.OrderTracker

namespace Flowlab.Chaos

open Framework

/-- Market regimes, from the calmest up. -/
inductive Regime where
  | calm
  | volatile
  | aggressive
  | crisis
  deriving DecidableEq, Repr

def Regime.rank : Regime → Nat
  | .calm => 0
  | .volatile => 1
  | .aggressive => 2
  | .crisis => 3

theorem Regime.rank_injective : Function.Injective Regime.rank := by
  intro r r' h
  cases r <;> cases r' <;> first | rfl | exact absurd h (by decide)

instance : LinearOrder Regime := LinearOrder.lift' Regime.rank Regime.rank_injective

/-- A sequence number with its regime and its chaos events. -/
abbrev Sample := UInt64 × Regime × List ChaosEvent

structure StressWindow where
  startSeq : UInt64
  endSeq : UInt64
  regime : Regime
  severity : Float
  chaosEvents : List ChaosEvent

/-- The lowest regime of a stress window, and the gap up to which windows are merged. -/
structure WindowExtractor where
  minRegime : Regime
  mergeGap : UInt64

namespace StressWindow

def opened (sample : Sample) : StressWindow where
  startSeq := sample.1
  endSeq := sample.1
  regime := sample.2.1
  severity := 0.0
  chaosEvents := sample.2.2

def extend (w : StressWindow) (sample : Sample) : StressWindow :=
  { w with
    endSeq := sample.1
    regime := if w.regime < sample.2.1 then sample.2.1 else w.regime
    chaosEvents := w.chaosEvents ++ sample.2.2 }

/-- The mean severity of the events of a window. -/
def scored (w : StressWindow) : StressWindow :=
  { w with
    severity :=
      if w.chaosEvents.isEmpty then 0.0
      else w.chaosEvents.foldl (fun sum e => sum + e.severity) 0.0 / w.chaosEvents.length.toFloat }

def severityFinalize (w : StressWindow) (dest : List StressWindow) : List StressWindow :=
  dest ++ [w.scored]

end StressWindow

namespace WindowExtractor

def new (minRegime : Regime) (mergeGap : UInt64) : WindowExtractor := ⟨minRegime, mergeGap⟩

/-- One sample, with the windows that are closed and the one that is open. -/
def extractStep (x : WindowExtractor) (st : List StressWindow × Option StressWindow)
    (sample : Sample) : List StressWindow × Option StressWindow :=
  if x.minRegime ≤ sample.2.1 then
    match st.2 with
    | some w =>
      if sample.1 - w.endSeq ≤ x.mergeGap then (st.1, some (w.extend sample))
      else (w.severityFinalize st.1, some (.opened sample))
    | none => (st.1, some (.opened sample))
  else
    match st.2 with
    | some w => (w.severityFinalize st.1, none)
    | none => st

def extract (x : WindowExtractor) (tagged : List Sample) : List StressWindow :=
  let st := tagged.foldl x.extractStep ([], none)
  match st.2 with
  | some w => w.severityFinalize st.1
  | none => st.1

/-- The extractor as one pass that cuts at calm samples and at gaps. -/
def cutting (x : WindowExtractor) : Segmenter Sample StressWindow where
  keep sample := x.minRegime ≤ sample.2.1
  joins w sample := sample.1 - w.endSeq ≤ x.mergeGap
  start := StressWindow.opened
  absorb := StressWindow.extend

theorem extractStep_eq (x : WindowExtractor) (done : List StressWindow) (cur : Option StressWindow)
    (sample : Sample) :
    x.extractStep (done.map StressWindow.scored, cur) sample =
      ((x.cutting.step (done, cur) sample).1.map StressWindow.scored,
        (x.cutting.step (done, cur) sample).2) := by
  by_cases hkeep : x.minRegime ≤ sample.2.1
  · cases cur with
    | none => simp [extractStep, Segmenter.step, cutting, hkeep]
    | some w =>
      by_cases hgap : sample.1 - w.endSeq ≤ x.mergeGap <;>
        simp [extractStep, Segmenter.step, cutting, hkeep, hgap, StressWindow.severityFinalize]
  · cases cur <;> simp [extractStep, Segmenter.step, cutting, hkeep, StressWindow.severityFinalize]

theorem foldl_extractStep (x : WindowExtractor) (tagged : List Sample) (done : List StressWindow)
    (cur : Option StressWindow) :
    tagged.foldl x.extractStep (done.map StressWindow.scored, cur) =
      ((tagged.foldl x.cutting.step (done, cur)).1.map StressWindow.scored,
        (tagged.foldl x.cutting.step (done, cur)).2) := by
  induction tagged generalizing done cur with
  | nil => rfl
  | cons sample tagged ih => rw [List.foldl_cons, List.foldl_cons, extractStep_eq, ih]

theorem extract_eq (x : WindowExtractor) (tagged : List Sample) :
    x.extract tagged = ((x.cutting.blocks none tagged).map x.cutting.summary).map
      StressWindow.scored := by
  have hrun := x.foldl_extractStep tagged [] none
  rw [List.map_nil] at hrun
  rw [extract, hrun, ← Segmenter.segments_eq, Segmenter.segments]
  cases (tagged.foldl x.cutting.step ([], none)).2 with
  | none => simp
  | some w => simp [StressWindow.severityFinalize]

end WindowExtractor

/-- A window says of some samples what its fields are named for. -/
structure StressWindow.Describes (w : StressWindow) (samples : List Sample) : Prop where
  startSeq : (samples.head?.map (·.1)) = some w.startSeq
  endSeq : (samples.getLast?.map (·.1)) = some w.endSeq
  regime : IsGreatest {r | ∃ s ∈ samples, s.2.1 = r} w.regime
  chaosEvents : w.chaosEvents = samples.flatMap (·.2.2)

theorem StressWindow.Describes.extend {w : StressWindow} {samples : List Sample}
    (h : w.Describes samples) (sample : Sample) : (w.extend sample).Describes (samples ++ [sample]) where
  startSeq := by
    have hhead := h.startSeq
    cases samples with
    | nil => exact absurd hhead (by simp)
    | cons first rest => exact hhead
  endSeq := by simp [StressWindow.extend]
  regime := by
    have hmax : ∀ r r' : Regime, ((if r < r' then r' else r) = r ∧ r' ≤ r) ∨
        ((if r < r' then r' else r) = r' ∧ r ≤ r') := by
      intro r r'
      rcases lt_or_ge r r' with hlt | hge
      · exact .inr ⟨if_pos hlt, hlt.le⟩
      · exact .inl ⟨if_neg (not_lt.mpr hge), hge⟩
    exact isGreatest_concat hmax h.regime sample
  chaosEvents := by
    show w.chaosEvents ++ sample.2.2 = _
    rw [h.chaosEvents, List.flatMap_append, List.flatMap_singleton]

theorem StressWindow.Describes.startSeq_mem {w : StressWindow} {samples : List Sample}
    (h : w.Describes samples) : ∃ s ∈ samples, s.1 = w.startSeq := by
  obtain ⟨s, hs, hstart⟩ := Option.map_eq_some_iff.mp h.startSeq
  exact ⟨s, List.mem_of_mem_head? hs, hstart⟩

theorem StressWindow.Describes.endSeq_mem {w : StressWindow} {samples : List Sample}
    (h : w.Describes samples) : ∃ s ∈ samples, s.1 = w.endSeq := by
  obtain ⟨s, hs, hend⟩ := Option.map_eq_some_iff.mp h.endSeq
  exact ⟨s, List.mem_of_mem_getLast? hs, hend⟩

theorem StressWindow.Describes.bounds {w : StressWindow} {samples : List Sample}
    (h : w.Describes samples) (hinc : samples.Pairwise fun s s' => s.1 < s'.1) :
    ∀ s ∈ samples, w.startSeq ≤ s.1 ∧ s.1 ≤ w.endSeq := by
  intro s hs
  constructor
  · have hstart := h.startSeq
    cases samples with
    | nil => exact absurd hs (by simp)
    | cons first rest =>
      rw [← Option.some.inj hstart]
      rcases List.mem_cons.mp hs with rfl | hs
      · exact UInt64.le_refl _
      · exact UInt64.le_of_lt ((List.pairwise_cons.mp hinc).1 s hs)
  · have hend := h.endSeq
    rcases List.eq_nil_or_concat' samples with rfl | ⟨init, last, rfl⟩
    · exact absurd hs (by simp)
    · rw [List.getLast?_concat] at hend
      rw [← Option.some.inj hend]
      rcases List.mem_append.mp hs with hs | hs
      · exact UInt64.le_of_lt
          ((List.pairwise_append.mp hinc).2.2 s hs last (List.mem_singleton_self last))
      · rw [List.mem_singleton.mp hs]
        exact UInt64.le_refl _

theorem StressWindow.Describes.scored {w : StressWindow} {samples : List Sample}
    (h : w.Describes samples) : w.scored.Describes samples :=
  ⟨h.startSeq, h.endSeq, h.regime, h.chaosEvents⟩

namespace WindowExtractor

theorem summary_describes (x : WindowExtractor) (b : Segmenter.Block Sample) :
    (x.cutting.summary b).Describes (Segmenter.members b) := by
  obtain ⟨first, rest⟩ := b
  induction rest using List.reverseRecOn with
  | nil =>
    refine ⟨rfl, rfl, ⟨⟨first, List.mem_singleton_self first, rfl⟩, ?_⟩, by simp [Segmenter.members]; rfl⟩
    rintro _ ⟨s, hs, rfl⟩
    rw [List.mem_singleton.mp hs]
    exact le_refl _
  | append_singleton q s ih =>
    have hlast := x.cutting.summary_concat (first, q) s
    rw [hlast]
    exact ih.extend s

/-- The samples at or above the regime of the extractor that a window covers. -/
def covered (x : WindowExtractor) (tagged : List Sample) (w : StressWindow) : List Sample :=
  tagged.filter fun s => x.minRegime ≤ s.2.1 ∧ w.startSeq ≤ s.1 ∧ s.1 ≤ w.endSeq

/-- In a list of increasing numbers a window covers just the samples of its block. -/
theorem covered_eq (x : WindowExtractor) {tagged : List Sample}
    (hinc : tagged.Pairwise fun s s' => s.1 < s'.1) {b : Segmenter.Block Sample}
    (hkeep : ∀ s ∈ Segmenter.members b, x.cutting.keep s = true)
    (hin : Segmenter.members b <:+: tagged) {w : StressWindow} (hw : w.Describes (Segmenter.members b)) :
    x.covered tagged w = Segmenter.members b := by
  obtain ⟨p, q, rfl⟩ := hin
  obtain ⟨hpm, hq, hcross⟩ := List.pairwise_append.mp hinc
  obtain ⟨-, hm, hpm⟩ := List.pairwise_append.mp hpm
  obtain ⟨first, hfirst, hstart⟩ := hw.startSeq_mem
  obtain ⟨last, hlast, hend⟩ := hw.endSeq_mem
  have hbefore : p.filter (fun s => decide (x.minRegime ≤ s.2.1 ∧ w.startSeq ≤ s.1 ∧ s.1 ≤ w.endSeq)) =
      [] := by
    refine List.filter_eq_nil_iff.mpr fun s hs hcov => ?_
    have hlt := hpm s hs first hfirst
    rw [hstart] at hlt
    exact UInt64.not_le.mpr hlt (of_decide_eq_true hcov).2.1
  have hafter : q.filter (fun s => decide (x.minRegime ≤ s.2.1 ∧ w.startSeq ≤ s.1 ∧ s.1 ≤ w.endSeq)) =
      [] := by
    refine List.filter_eq_nil_iff.mpr fun s hs hcov => ?_
    have hlt := hcross last (List.mem_append_right p hlast) s hs
    rw [hend] at hlt
    exact UInt64.not_le.mpr hlt (of_decide_eq_true hcov).2.2
  rw [covered, List.filter_append, List.filter_append, hbefore, hafter, List.nil_append, List.append_nil]
  refine List.filter_eq_self.mpr fun s hs => decide_eq_true ?_
  exact ⟨of_decide_eq_true (hkeep s hs), hw.bounds hm s hs⟩

theorem mem_extract (x : WindowExtractor) {tagged : List Sample} {w : StressWindow} :
    w ∈ x.extract tagged ↔
      ∃ b ∈ x.cutting.blocks none tagged, (x.cutting.summary b).scored = w := by
  rw [extract_eq, List.map_map, List.mem_map]
  rfl

theorem extract_pairwise (x : WindowExtractor) {tagged : List Sample}
    (hinc : tagged.Pairwise fun s s' => s.1 < s'.1) :
    (x.extract tagged).Pairwise fun w w' => w.endSeq < w'.startSeq := by
  have hkept := hinc.sublist (List.filter_sublist (p := x.cutting.keep))
  rw [← (x.cutting.layout tagged).flatMap_members] at hkept
  have hblocks := (List.pairwise_flatMap.mp hkept).2
  rw [extract_eq, List.map_map]
  refine List.pairwise_map.mpr (hblocks.imp fun {b b'} hlt => ?_)
  obtain ⟨last, hlast, hend⟩ := (x.summary_describes b).endSeq_mem
  obtain ⟨first, hfirst, hstart⟩ := (x.summary_describes b').startSeq_mem
  have hseq := hlt last hlast first hfirst
  rwa [hend, hstart] at hseq

/-- A sample lies in one window at most. -/
theorem window_unique (x : WindowExtractor) {tagged : List Sample}
    (hinc : tagged.Pairwise fun s s' => s.1 < s'.1) {w w' : StressWindow}
    (hw : w ∈ x.extract tagged) (hw' : w' ∈ x.extract tagged) {n : UInt64}
    (hn : w.startSeq ≤ n ∧ n ≤ w.endSeq) (hn' : w'.startSeq ≤ n ∧ n ≤ w'.endSeq) : w = w' := by
  have hpairs := x.extract_pairwise hinc
  have hcases : w = w' ∨ w.endSeq < w'.startSeq ∨ w'.endSeq < w.startSeq :=
    List.Pairwise.forall_of_forall_of_flip
      (R := fun w w' : StressWindow => w = w' ∨ w.endSeq < w'.startSeq ∨ w'.endSeq < w.startSeq)
      (fun _ _ => .inl rfl) (hpairs.imp fun h => .inr (.inl h)) (hpairs.imp fun h => .inr (.inr h))
      hw hw'
  rcases hcases with heq | hlt | hlt
  · exact heq
  · exact absurd (UInt64.le_trans hn'.1 hn.2) (UInt64.not_le.mpr hlt)
  · exact absurd (UInt64.le_trans hn.1 hn'.2) (UInt64.not_le.mpr hlt)

end WindowExtractor

/-- The windows stand in order and apart, every sample at or above the regime is in just one of them,
and each says of the samples that it covers what its fields are named for. -/
theorem extract_windows (minRegime : Regime) (mergeGap : UInt64) {tagged : List Sample}
    (hinc : tagged.Pairwise fun s s' => s.1 < s'.1) :
    ((WindowExtractor.new minRegime mergeGap).extract tagged).Pairwise
        (fun w w' => w.endSeq < w'.startSeq) ∧
      (∀ s ∈ tagged, minRegime ≤ s.2.1 →
        ∃! w, w ∈ (WindowExtractor.new minRegime mergeGap).extract tagged ∧
          w.startSeq ≤ s.1 ∧ s.1 ≤ w.endSeq) ∧
      ∀ w ∈ (WindowExtractor.new minRegime mergeGap).extract tagged,
        w.Describes ((WindowExtractor.new minRegime mergeGap).covered tagged w) := by
  have hlayout := (WindowExtractor.new minRegime mergeGap).cutting.layout tagged
  refine ⟨(WindowExtractor.new minRegime mergeGap).extract_pairwise hinc, ?_, ?_⟩
  · intro s hs hstressed
    have hkept : s ∈ tagged.filter (WindowExtractor.new minRegime mergeGap).cutting.keep :=
      List.mem_filter.mpr ⟨hs, decide_eq_true hstressed⟩
    rw [← hlayout.flatMap_members] at hkept
    obtain ⟨b, hb, hsb⟩ := List.mem_flatMap.mp hkept
    have hdesc := ((WindowExtractor.new minRegime mergeGap).summary_describes b).scored
    have hmem := (WindowExtractor.mem_extract _).mpr ⟨b, hb, rfl⟩
    have hbounds := hdesc.bounds (hinc.sublist (hlayout.infix_of_mem b hb).sublist) s hsb
    refine ⟨_, ⟨hmem, hbounds⟩, ?_⟩
    rintro w' ⟨hw', hin⟩
    exact WindowExtractor.window_unique _ hinc hw' hmem hin hbounds
  · intro w hw
    obtain ⟨b, hb, rfl⟩ := (WindowExtractor.mem_extract _).mp hw
    have hdesc := ((WindowExtractor.new minRegime mergeGap).summary_describes b).scored
    rw [WindowExtractor.covered_eq _ hinc (hlayout.keep_of_mem hb) (hlayout.infix_of_mem b hb) hdesc]
    exact hdesc

theorem extract_windows_three :
    ((WindowExtractor.new .volatile 10).extract
        [(1, .crisis, []), (2, .calm, []), (3, .volatile, [])]).Pairwise
        (fun w w' => w.endSeq < w'.startSeq) ∧
      (∀ s ∈ ([(1, .crisis, []), (2, .calm, []), (3, .volatile, [])] : List Sample),
        .volatile ≤ s.2.1 →
        ∃! w, w ∈ (WindowExtractor.new .volatile 10).extract
            [(1, .crisis, []), (2, .calm, []), (3, .volatile, [])] ∧
          w.startSeq ≤ s.1 ∧ s.1 ≤ w.endSeq) ∧
      ∀ w ∈ (WindowExtractor.new .volatile 10).extract
          [(1, .crisis, []), (2, .calm, []), (3, .volatile, [])],
        w.Describes ((WindowExtractor.new .volatile 10).covered
          [(1, .crisis, []), (2, .calm, []), (3, .volatile, [])] w) :=
  extract_windows .volatile 10 (by decide)

/-- Consecutive windows stand more than the merge gap apart. -/
def WindowExtractor.Spaced (x : WindowExtractor) (ws : List StressWindow) : Prop :=
  ws.IsChain fun w w' => x.mergeGap.toNat < w'.startSeq.toNat - w.endSeq.toNat

/-- Two samples at or above the regime with only calm ones between them, and at least one, stand more
than the merge gap apart. -/
def WindowExtractor.CalmIsLong (x : WindowExtractor) (tagged : List Sample) : Prop :=
  ∀ (p calm q : List Sample) (s s' : Sample), tagged = p ++ s :: (calm ++ s' :: q) → calm ≠ [] →
    x.minRegime ≤ s.2.1 → x.minRegime ≤ s'.2.1 → (∀ a ∈ calm, a.2.1 < x.minRegime) →
    x.mergeGap.toNat < s'.1.toNat - s.1.toNat

namespace WindowExtractor

theorem endSeq_of_members (x : WindowExtractor) {b : Segmenter.Block Sample} {m : List Sample}
    {s : Sample} (hm : Segmenter.members b = m ++ [s]) : (x.cutting.summary b).endSeq = s.1 := by
  have hend := (x.summary_describes b).endSeq
  rw [hm, List.getLast?_concat] at hend
  exact (Option.some.inj hend).symm

theorem startSeq_eq (x : WindowExtractor) (b : Segmenter.Block Sample) :
    (x.cutting.summary b).startSeq = b.1.1 :=
  (Option.some.inj (x.summary_describes b).startSeq).symm

theorem spaced_iff_chain (x : WindowExtractor) (tagged : List Sample) :
    x.Spaced (x.extract tagged) ↔ (x.cutting.blocks none tagged).IsChain fun b b' =>
      x.mergeGap.toNat < b'.1.1.toNat - (x.cutting.summary b).endSeq.toNat := by
  rw [Spaced, extract_eq, List.map_map, List.isChain_map]
  refine List.IsChain.iff fun b b' => ?_
  rw [← x.startSeq_eq b']
  rfl

/-- Where nothing stands between two blocks, the gap has cut them. -/
theorem gap_of_not_joined (x : WindowExtractor) {s s' : Sample} (hlt : s.1 < s'.1)
    (hjoin : ¬ s'.1 - s.1 ≤ x.mergeGap) : x.mergeGap.toNat < s'.1.toNat - s.1.toNat := by
  rw [UInt64.not_le, UInt64.lt_iff_toNat_lt, UInt64.toNat_sub_of_le _ _ (UInt64.le_of_lt hlt)] at hjoin
  exact hjoin

end WindowExtractor

/-- The windows stand more than the merge gap apart if and only if every calm stretch is that long. -/
theorem extract_spaced_iff (minRegime : Regime) (mergeGap : UInt64) {tagged : List Sample}
    (hinc : tagged.Pairwise fun s s' => s.1 < s'.1) :
    (WindowExtractor.new minRegime mergeGap).Spaced
        ((WindowExtractor.new minRegime mergeGap).extract tagged) ↔
      (WindowExtractor.new minRegime mergeGap).CalmIsLong tagged := by
  let x := WindowExtractor.new minRegime mergeGap
  have hlayout := x.cutting.layout tagged
  rw [WindowExtractor.spaced_iff_chain]
  constructor
  · intro hchain p calm q s s' htagged hne hs hs' hcalm
    have hskip : ∀ a ∈ calm, x.cutting.keep a = false := fun a ha =>
      decide_eq_false (not_le.mpr (hcalm a ha))
    obtain ⟨pre, b, b', post, m, hblocks, hm, hfirst⟩ :=
      Segmenter.exists_blocks_of_skip (S := x.cutting) (p := p) (q := q) (decide_eq_true hs)
        (decide_eq_true hs') hskip hne
    rw [htagged, hblocks] at hchain
    have hgap := (List.isChain_append_cons_cons.mp hchain).2.1
    rwa [x.endSeq_of_members hm, hfirst] at hgap
  · intro hlong
    refine List.IsChain.imp_of_mem_imp ?_ hlayout.chain
    rintro b b' hb hb' ⟨calm, ⟨p, q, htagged⟩, hcalm, hjoin⟩
    obtain ⟨m, s, hm⟩ : ∃ m s, Segmenter.members b = m ++ [s] :=
      ⟨_, _, (List.dropLast_append_getLast (List.cons_ne_nil b.1 b.2)).symm⟩
    rw [x.endSeq_of_members hm]
    rw [hm] at htagged
    have hs : s ∈ Segmenter.members b := by rw [hm]; simp
    have hs' : b'.1 ∈ Segmenter.members b' := List.mem_cons_self ..
    by_cases hnil : calm = []
    · have hlt : s.1 < b'.1.1 := by
        have hblocks := hinc.sublist (List.IsInfix.sublist ⟨p, q, htagged⟩)
        exact (List.pairwise_append.mp hblocks).2.2 s (by simp) b'.1 (by simp [Segmenter.members])
      have hcut : ¬ b'.1.1 - (x.cutting.summary b).endSeq ≤ x.mergeGap :=
        of_decide_eq_false (hjoin hnil)
      rw [x.endSeq_of_members hm] at hcut
      exact x.gap_of_not_joined hlt hcut
    · refine hlong (p ++ m) calm (b'.2 ++ q) s b'.1 ?_ hnil
        (of_decide_eq_true (hlayout.keep_of_mem hb s hs))
        (of_decide_eq_true (hlayout.keep_of_mem hb' b'.1 hs'))
        fun a ha => not_le.mp (of_decide_eq_false (hcalm a ha))
      rw [← htagged]
      simp [Segmenter.members]

theorem extract_spaced_three :
    (WindowExtractor.new .volatile 10).Spaced ((WindowExtractor.new .volatile 10).extract
        [(1, .crisis, []), (2, .calm, []), (30, .volatile, [])]) ↔
      (WindowExtractor.new .volatile 10).CalmIsLong
        [(1, .crisis, []), (2, .calm, []), (30, .volatile, [])] :=
  extract_spaced_iff .volatile 10 (by decide)

/-- One calm sample keeps two windows of neighbours apart. -/
theorem extract_not_spaced :
    ¬ ∀ (minRegime : Regime) (mergeGap : UInt64) (tagged : List Sample),
      tagged.Pairwise (fun s s' => s.1 < s'.1) →
      (WindowExtractor.new minRegime mergeGap).Spaced
        ((WindowExtractor.new minRegime mergeGap).extract tagged) := by
  intro h
  have hspaced := h .volatile 10 [(1, .crisis, []), (2, .calm, []), (3, .volatile, [])] (by decide)
  have hgap : (10 : UInt64).toNat < (3 : UInt64).toNat - (1 : UInt64).toNat :=
    (List.isChain_cons_cons.mp hspaced).1
  exact absurd hgap (by decide)

end Flowlab.Chaos
