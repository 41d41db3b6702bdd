import Flowlab.Framework.Segments
import Flowlab.Framework.StableSort
import Flowlab.Chaos.PhantomLiquidity

namespace Flowlab.Chaos

open Framework

/-- Severities as the clusterer computes with them: `f64` in the source. -/
class Severity (S : Type) where
  ofF64 : Float → S
  max : S → S → S
  add : S → S → S
  /-- The quotient by a count. -/
  mean : S → Nat → S
  /-- The persistence factor of a count, and the product with it. -/
  persist : S → Nat → S

instance : Severity Float where
  ofF64 := id
  max := maxF64
  add := (· + ·)
  mean sum count := sum / count.toFloat
  persist peak count := peak * (1.0 + count.toFloat.log)

/-- A semantic episode built from one or more events. -/
structure ChaosCluster (S : Type) where
  startSeq : UInt64
  endSeq : UInt64
  startTsNs : UInt64
  endTsNs : UInt64
  events : List ChaosEvent
  peakSeverity : S
  meanSeverity : S
  compositeSeverity : S
  count : Nat
  /-- Kind of the first event. -/
  dominantKind : ChaosKind
  /-- Initiator of the first event; `none` is an unknown actor. -/
  initiator : Option UInt64
  sumSeverity : S

/-- Episode clusterer: the greatest gap of sequence numbers and of time inside one episode, `0` to
switch a window off. -/
structure ChaosClusterer where
  maxGap : UInt64
  maxTimeGapNs : UInt64

section

variable {S : Type} [Severity S]

namespace ChaosCluster

def recomputeComposite (c : ChaosCluster S) : ChaosCluster S :=
  { c with compositeSeverity := Severity.persist c.peakSeverity c.count }

def fromEvent (e : ChaosEvent) : ChaosCluster S :=
  recomputeComposite
    { startSeq := e.startSeq
      endSeq := e.endSeq
      startTsNs := e.startTsNs
      endTsNs := e.endTsNs
      peakSeverity := Severity.ofF64 e.severity
      meanSeverity := Severity.ofF64 e.severity
      compositeSeverity := Severity.ofF64 0.0
      count := 1
      dominantKind := e.kind
      initiator := e.initiator
      sumSeverity := Severity.ofF64 e.severity
      events := [e] }

def absorb (c : ChaosCluster S) (e : ChaosEvent) : ChaosCluster S :=
  let sum := Severity.add c.sumSeverity (Severity.ofF64 e.severity)
  let count := c.count + 1
  recomputeComposite
    { c with
      endSeq := max c.endSeq e.endSeq
      endTsNs := max c.endTsNs e.endTsNs
      peakSeverity := Severity.max c.peakSeverity (Severity.ofF64 e.severity)
      sumSeverity := sum
      count := count
      meanSeverity := Severity.mean sum count
      events := c.events ++ [e] }

end ChaosCluster

namespace ChaosClusterer

/-- The sequence window only. -/
def new (maxGap : UInt64) : ChaosClusterer := ⟨maxGap, 0⟩

/-- Unknown initiators are not one actor. -/
def sameActor : Option UInt64 → Option UInt64 → Bool
  | some x, some y => x == y
  | _, _ => false

def shouldMerge (cl : ChaosClusterer) (current : ChaosCluster S) (event : ChaosEvent) : Bool :=
  let seqClose := decide (0 < cl.maxGap) && decide (event.startSeq ≤ satAdd64 current.endSeq cl.maxGap)
  let timeClose := decide (0 < cl.maxTimeGapNs) &&
    decide (event.startTsNs ≤ satAdd64 current.endTsNs cl.maxTimeGapNs)
  if !(seqClose || timeClose) then false
  else
    match current.dominantKind, event.kind with
    | .flashCrash, .momentumIgnition | .momentumIgnition, .flashCrash => true
    | a, b =>
      if a = b then sameActor current.initiator event.initiator else false

/-- The events in the order the pass reads them. -/
def sorted (events : List ChaosEvent) : List ChaosEvent :=
  events.mergeSort fun a b => a.startSeq ≤ b.startSeq

/-- One sorted event, with the clusters that are closed and the one that is open. -/
def clusterStep (cl : ChaosClusterer) (st : List (ChaosCluster S) × ChaosCluster S)
    (event : ChaosEvent) : List (ChaosCluster S) × ChaosCluster S :=
  if cl.shouldMerge st.2 event then (st.1, st.2.absorb event)
  else (st.1 ++ [st.2], ChaosCluster.fromEvent event)

def cluster (cl : ChaosClusterer) (events : List ChaosEvent) : List (ChaosCluster S) :=
  match sorted events with
  | [] => []
  | first :: rest =>
    let st := rest.foldl cl.clusterStep ([], ChaosCluster.fromEvent first)
    st.1 ++ [st.2]

/-- The clusterer as one pass that merges. -/
def merging (cl : ChaosClusterer) : Segmenter ChaosEvent (ChaosCluster S) where
  keep _ := true
  joins := cl.shouldMerge
  start := ChaosCluster.fromEvent
  absorb := ChaosCluster.absorb

theorem foldl_clusterStep (cl : ChaosClusterer) (l : List ChaosEvent)
    (done : List (ChaosCluster S)) (c : ChaosCluster S) :
    l.foldl cl.merging.step (done, some c) =
      ((l.foldl cl.clusterStep (done, c)).1, some (l.foldl cl.clusterStep (done, c)).2) := by
  induction l generalizing done c with
  | nil => rfl
  | cons e l ih =>
    rw [List.foldl_cons, List.foldl_cons, clusterStep]
    by_cases hmerge : cl.shouldMerge c e = true
    · have hstep : cl.merging.step (done, some c) e = (done, some (c.absorb e)) := by
        simp [Segmenter.step, merging, hmerge]
      rw [hstep, ih, if_pos hmerge]
    · have hstep : cl.merging.step (done, some c) e =
          (done ++ [c], some (ChaosCluster.fromEvent e)) := by
        simp [Segmenter.step, merging, hmerge]
      rw [hstep, ih, if_neg hmerge]

theorem sorted_isStableSort (events : List ChaosEvent) :
    IsStableSort (fun e : ChaosEvent => e.startSeq.toNat) events (sorted events) := by
  have hle : (fun a b : ChaosEvent => decide (a.startSeq ≤ b.startSeq)) =
      fun a b => decide (a.startSeq.toNat ≤ b.startSeq.toNat) := by
    funext a b
    exact decide_eq_decide.mpr UInt64.le_iff_toNat_le
  rw [sorted, hle]
  exact mergeSort_isStableSort events

theorem cluster_eq (cl : ChaosClusterer) (events : List ChaosEvent) :
    cl.cluster (S := S) events = cl.merging.segments (sorted events) := by
  rw [cluster, Segmenter.segments]
  cases sorted events with
  | nil => rfl
  | cons first rest =>
    have hfirst : cl.merging.step ([], none) first = ([], some (ChaosCluster.fromEvent (S := S) first)) :=
      rfl
    rw [List.foldl_cons, hfirst, foldl_clusterStep]
    rfl

/-- The events of the clusters, each with its block of the sorted list. -/
theorem cluster_blocks (cl : ChaosClusterer) (events : List ChaosEvent) :
    cl.cluster (S := S) events =
      ((cl.merging (S := S)).blocks none (sorted events)).map cl.merging.summary := by
  rw [cluster_eq, Segmenter.segments_eq]

theorem summary_events (cl : ChaosClusterer) (b : Segmenter.Block ChaosEvent) :
    ((cl.merging (S := S)).summary b).events = Segmenter.members b := by
  obtain ⟨first, rest⟩ := b
  induction rest using List.reverseRecOn with
  | nil => rfl
  | append_singleton q e ih =>
    have hlast := (cl.merging (S := S)).summary_concat (first, q) e
    have habsorb : (ChaosCluster.absorb ((cl.merging (S := S)).summary (first, q)) e).events =
      ((cl.merging (S := S)).summary (first, q)).events ++ [e] := rfl
    rw [hlast]
    exact habsorb.trans (by rw [ih]; rfl)

theorem flatMap_events (cl : ChaosClusterer) (events : List ChaosEvent) :
    (cl.cluster (S := S) events).flatMap (·.events) = sorted events := by
  have hmembers : ((cl.merging (S := S)).blocks none (sorted events)).flatMap Segmenter.members =
      sorted events :=
    ((cl.merging (S := S)).layout (sorted events)).flatMap_members.trans
      (List.filter_eq_self.mpr fun _ _ => rfl)
  rw [cluster_blocks, List.flatMap_map]
  exact (List.flatMap_congr fun b _ => summary_events cl b).trans hmembers

end ChaosClusterer

/-- A cluster spans its events. -/
structure ChaosCluster.Spans (c : ChaosCluster S) : Prop where
  startSeq : IsLeast {n | ∃ e ∈ c.events, e.startSeq = n} c.startSeq
  endSeq : IsGreatest {n | ∃ e ∈ c.events, e.endSeq = n} c.endSeq
  endTsNs : IsGreatest {t | ∃ e ∈ c.events, e.endTsNs = t} c.endTsNs
  count : c.count = c.events.length

/-- A cluster says of its events what its fields are named for. -/
structure ChaosCluster.Describes [LinearOrder S] (c : ChaosCluster S) : Prop extends c.Spans where
  peakSeverity : IsGreatest {s | ∃ e ∈ c.events, Severity.ofF64 e.severity = s} c.peakSeverity

theorem max_cases (x y : UInt64) : (max x y = x ∧ y ≤ x) ∨ (max x y = y ∧ x ≤ y) := by
  rcases UInt64.le_total x y with h | h
  · exact .inr ⟨if_pos h, h⟩
  · refine .inl ⟨?_, h⟩
    by_cases hxy : x ≤ y
    · rw [UInt64.le_antisymm hxy h]
      exact if_pos (UInt64.le_refl y)
    · exact if_neg hxy

namespace ChaosCluster

theorem fromEvent_spans (e : ChaosEvent) : (fromEvent e : ChaosCluster S).Spans := by
  have hself : ∀ e' ∈ [e], e' = e := fun e' he' => List.mem_singleton.mp he'
  refine ⟨⟨⟨e, List.mem_singleton_self e, rfl⟩, ?_⟩, ⟨⟨e, List.mem_singleton_self e, rfl⟩, ?_⟩,
    ⟨⟨e, List.mem_singleton_self e, rfl⟩, ?_⟩, rfl⟩ <;>
  · rintro _ ⟨e', he', rfl⟩
    rw [hself e' he']
    exact Std.le_refl _

theorem Spans.absorb {c : ChaosCluster S} (h : c.Spans) {e : ChaosEvent}
    (hle : c.startSeq ≤ e.startSeq) : (c.absorb e).Spans where
  startSeq := by
    obtain ⟨⟨first, hfirst, hstart⟩, hbound⟩ := h.startSeq
    refine ⟨⟨first, List.mem_append_left _ hfirst, hstart⟩, ?_⟩
    rintro _ ⟨e', he', rfl⟩
    rcases List.mem_append.mp he' with he' | he'
    · exact hbound ⟨e', he', rfl⟩
    · rwa [List.mem_singleton.mp he']
  endSeq := isGreatest_concat max_cases h.endSeq e
  endTsNs := isGreatest_concat max_cases h.endTsNs e
  count := by
    show c.count + 1 = (c.events ++ [e]).length
    rw [h.count, List.length_append, List.length_singleton]

end ChaosCluster

namespace ChaosClusterer

/-- What the first event of a cluster sets, no later event changes. -/
theorem summary_first (cl : ChaosClusterer) (b : Segmenter.Block ChaosEvent) :
    ((cl.merging (S := S)).summary b).startSeq = b.1.startSeq ∧
      ((cl.merging (S := S)).summary b).dominantKind = b.1.kind ∧
      ((cl.merging (S := S)).summary b).initiator = b.1.initiator := by
  obtain ⟨first, rest⟩ := b
  induction rest using List.reverseRecOn with
  | nil => exact ⟨rfl, rfl, rfl⟩
  | append_singleton q e ih =>
    have hlast := (cl.merging (S := S)).summary_concat (first, q) e
    rw [hlast]
    exact ih

theorem summary_spans (cl : ChaosClusterer) (b : Segmenter.Block ChaosEvent)
    (hb : (Segmenter.members b).Pairwise fun e e' => e.startSeq.toNat ≤ e'.startSeq.toNat) :
    ((cl.merging (S := S)).summary b).Spans := by
  obtain ⟨first, rest⟩ := b
  induction rest using List.reverseRecOn with
  | nil => exact ChaosCluster.fromEvent_spans first
  | append_singleton q e ih =>
    have hlast := (cl.merging (S := S)).summary_concat (first, q) e
    obtain ⟨hq, -, hcross⟩ := List.pairwise_append.mp (show ((first :: q) ++ [e]).Pairwise _ from hb)
    rw [hlast]
    refine (ih hq).absorb ?_
    rw [(summary_first cl (first, q)).1]
    exact UInt64.le_iff_toNat_le.mpr
      (hcross first (List.mem_cons_self ..) e (List.mem_singleton_self e))

theorem summary_peak [LinearOrder S] (hmax : ∀ x y : S, Severity.max x y = max x y)
    (cl : ChaosClusterer) (b : Segmenter.Block ChaosEvent) :
    IsGreatest {s | ∃ e ∈ ((cl.merging (S := S)).summary b).events, Severity.ofF64 e.severity = s}
      ((cl.merging (S := S)).summary b).peakSeverity := by
  obtain ⟨first, rest⟩ := b
  induction rest using List.reverseRecOn with
  | nil =>
    refine ⟨⟨first, List.mem_singleton_self first, rfl⟩, ?_⟩
    rintro _ ⟨e, he, rfl⟩
    rw [List.mem_singleton.mp he]
    exact le_refl _
  | append_singleton q e ih =>
    have hlast := (cl.merging (S := S)).summary_concat (first, q) e
    rw [hlast]
    refine isGreatest_concat (fun x y => ?_) ih e
    rcases le_total y x with hyx | hxy
    · exact .inl ⟨(hmax x y).trans (max_eq_left hyx), hyx⟩
    · exact .inr ⟨(hmax x y).trans (max_eq_right hxy), hxy⟩

theorem members_ordered (cl : ChaosClusterer) (events : List ChaosEvent) :
    ∀ b ∈ (cl.merging (S := S)).blocks none (sorted events),
      (Segmenter.members b).Pairwise fun e e' => e.startSeq.toNat ≤ e'.startSeq.toNat := by
  intro b hb
  have hsub := ((cl.merging (S := S)).layout (sorted events)).infix_of_mem b hb
  exact (sorted_isStableSort events).ordered.sublist hsub.sublist

end ChaosClusterer

/-- The clusters hold the events of the input stably sorted by sequence number, each says of its events
what they are, and where no two events start at one number the order of the input does not matter. -/
theorem cluster_exact [LinearOrder S] (hmax : ∀ x y : S, Severity.max x y = max x y)
    (cl : ChaosClusterer) (events : List ChaosEvent) :
    IsStableSort (fun e : ChaosEvent => e.startSeq.toNat) events
        ((cl.cluster (S := S) events).flatMap (·.events)) ∧
      (∀ c ∈ cl.cluster (S := S) events, c.Describes) ∧
      ((events.map (·.startSeq)).Nodup → ∀ events' : List ChaosEvent, events'.Perm events →
        cl.cluster (S := S) events' = cl.cluster events) := by
  refine ⟨?_, ?_, ?_⟩
  · rw [ChaosClusterer.flatMap_events]
    exact ChaosClusterer.sorted_isStableSort events
  · intro c hc
    rw [ChaosClusterer.cluster_blocks] at hc
    obtain ⟨b, hb, rfl⟩ := List.mem_map.mp hc
    exact ⟨cl.summary_spans b (cl.members_ordered events b hb), cl.summary_peak hmax b⟩
  · intro hnodup events' hperm
    have hkeys : (events.map fun e => e.startSeq.toNat).Nodup := by
      have hmap := hnodup.map (f := UInt64.toNat) fun _ _ h => UInt64.toNat_inj.mp h
      rwa [List.map_map] at hmap
    have hsorted := (ChaosClusterer.sorted_isStableSort events).unique
      (ChaosClusterer.sorted_isStableSort events') hperm.symm hkeys
    rw [ChaosClusterer.cluster_eq, ChaosClusterer.cluster_eq, hsorted]

end

/-- Severities in whole units. -/
instance : Severity ℕ where
  ofF64 x := x.toUInt64.toNat
  max := max
  add := (· + ·)
  mean sum count := sum / count
  persist peak count := peak * (1 + Nat.log2 count)

/-- A flag that spans some sequence numbers. -/
def ev (kind : ChaosKind) (start finish : UInt64) (initiator : Option UInt64) : ChaosEvent where
  kind := kind
  startSeq := start
  endSeq := finish
  startTsNs := 0
  endTsNs := 0
  severity := 0.5
  initiator := initiator
  features := ⟨1, 0, 0.0, 0, 0⟩

theorem cluster_exact_two :
    IsStableSort (fun e : ChaosEvent => e.startSeq.toNat)
        [ev .spoof 50 60 (some 7), ev .spoof 10 20 (some 7)]
        (((ChaosClusterer.new 100).cluster (S := ℕ)
          [ev .spoof 50 60 (some 7), ev .spoof 10 20 (some 7)]).flatMap (·.events)) ∧
      (∀ c ∈ (ChaosClusterer.new 100).cluster (S := ℕ)
          [ev .spoof 50 60 (some 7), ev .spoof 10 20 (some 7)], c.Describes) ∧
      (ChaosClusterer.new 100).cluster (S := ℕ)
          [ev .spoof 10 20 (some 7), ev .spoof 50 60 (some 7)] =
        (ChaosClusterer.new 100).cluster
          [ev .spoof 50 60 (some 7), ev .spoof 10 20 (some 7)] := by
  obtain ⟨hsort, hfields, horder⟩ := cluster_exact (S := ℕ) (fun _ _ => rfl) (ChaosClusterer.new 100)
    [ev .spoof 50 60 (some 7), ev .spoof 10 20 (some 7)]
  exact ⟨hsort, hfields, horder (by decide) _ (List.Perm.swap ..)⟩

end Flowlab.Chaos
