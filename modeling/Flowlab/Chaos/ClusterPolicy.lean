import Flowlab.Chaos.Clustering

namespace Flowlab.Chaos

open Framework

/-- Both initiators are known, and they are one. -/
def SameActor (a b : Option UInt64) : Prop := ∃ x, a = some x ∧ b = some x

/-- Crash and ignition, in either order. -/
def CrossKind (k k' : ChaosKind) : Prop :=
  (k = .flashCrash ∧ k' = .momentumIgnition) ∨ (k = .momentumIgnition ∧ k' = .flashCrash)

namespace ChaosClusterer

/-- Within the sequence window or the time window, where that is on, of something that ends there. -/
def Close (cl : ChaosClusterer) (endSeq endTsNs : UInt64) (event : ChaosEvent) : Prop :=
  (0 < cl.maxGap.toNat ∧ event.startSeq.toNat ≤ endSeq.toNat + cl.maxGap.toNat) ∨
    (0 < cl.maxTimeGapNs.toNat ∧ event.startTsNs.toNat ≤ endTsNs.toNat + cl.maxTimeGapNs.toNat)

theorem Close.mono {cl : ChaosClusterer} {endSeq endSeq' endTsNs endTsNs' : UInt64}
    {event : ChaosEvent} (h : cl.Close endSeq endTsNs event) (hseq : endSeq ≤ endSeq')
    (hts : endTsNs ≤ endTsNs') : cl.Close endSeq' endTsNs' event := by
  rw [UInt64.le_iff_toNat_le] at hseq hts
  rcases h with ⟨hon, hle⟩ | ⟨hon, hle⟩
  · exact .inl ⟨hon, by omega⟩
  · exact .inr ⟨hon, by omega⟩

theorem le_satAdd64 (t a b : UInt64) : t ≤ satAdd64 a b ↔ t.toNat ≤ a.toNat + b.toNat := by
  have ht := t.toNat_lt
  rw [UInt64.le_iff_toNat_le, satAdd64_toNat]
  omega

theorem sameActor_iff (a b : Option UInt64) : sameActor a b = true ↔ SameActor a b := by
  cases a with
  | none => simp [sameActor, SameActor]
  | some x =>
    cases b with
    | none => simp [sameActor, SameActor]
    | some y =>
      simp only [sameActor, SameActor, beq_iff_eq, Option.some.injEq, exists_eq_left']
      exact eq_comm

variable {S : Type}

theorem shouldMerge_iff (cl : ChaosClusterer) (c : ChaosCluster S) (e : ChaosEvent) :
    cl.shouldMerge c e = true ↔ cl.Close c.endSeq c.endTsNs e ∧
      (CrossKind c.dominantKind e.kind ∨
        (c.dominantKind = e.kind ∧ SameActor c.initiator e.initiator)) := by
  have hclose : ((decide (0 < cl.maxGap) && decide (e.startSeq ≤ satAdd64 c.endSeq cl.maxGap)) ||
      (decide (0 < cl.maxTimeGapNs) &&
        decide (e.startTsNs ≤ satAdd64 c.endTsNs cl.maxTimeGapNs))) = true ↔
      cl.Close c.endSeq c.endTsNs e := by
    simp only [Bool.or_eq_true, Bool.and_eq_true, decide_eq_true_eq, le_satAdd64, UInt64.lt_iff_toNat_lt,
      UInt64.toNat_zero]
    rfl
  rw [shouldMerge]
  by_cases h : cl.Close c.endSeq c.endTsNs e
  · rw [if_neg (by rw [hclose.mpr h]; decide), ← sameActor_iff, and_iff_right h]
    cases c.dominantKind <;> cases e.kind <;> simp [CrossKind]
  · rw [if_pos (by simp only [Bool.eq_false_iff.mpr (mt hclose.mp h), Bool.not_false])]
    simp [h]

variable [Severity S]

/-- Every later event of a block agrees with the first one under the policy. -/
theorem policy_of_joined {cl : ChaosClusterer} {b : Segmenter.Block ChaosEvent}
    (hb : (cl.merging (S := S)).Joined b) :
    ∀ e ∈ b.2, CrossKind b.1.kind e.kind ∨ (b.1.kind = e.kind ∧ SameActor b.1.initiator e.initiator) := by
  intro e he
  obtain ⟨q, post, hq⟩ := List.append_of_mem he
  have hmerge : cl.shouldMerge ((cl.merging (S := S)).summary (b.1, q)) e = true :=
    hb q e ⟨post, by rw [hq]; simp⟩
  have hpolicy := ((cl.shouldMerge_iff _ e).mp hmerge).2
  rwa [(summary_first cl (b.1, q)).2.1, (summary_first cl (b.1, q)).2.2] at hpolicy

end ChaosClusterer

theorem CrossKind.ne {k k' : ChaosKind} (h : CrossKind k k') : k ≠ k' := by
  rcases h with ⟨rfl, rfl⟩ | ⟨rfl, rfl⟩ <;> decide

theorem SameActor.trans {a b c : Option UInt64} (h : SameActor a b) (h' : SameActor b c) :
    SameActor a c := by
  obtain ⟨x, ha, hb⟩ := h
  obtain ⟨y, hb', hc⟩ := h'
  exact ⟨x, ha, by rw [hc, ← hb', hb]⟩

theorem SameActor.symm {a b : Option UInt64} (h : SameActor a b) : SameActor b a := by
  obtain ⟨x, ha, hb⟩ := h
  exact ⟨x, hb, ha⟩

variable {S : Type} [Severity S]

/-- Two events of one kind in a cluster have one known initiator, unless theirs is the other kind of a
crash and an ignition and the cluster was opened by the one. -/
theorem cluster_same_kind (cl : ChaosClusterer) (events : List ChaosEvent) :
    ∀ c ∈ cl.cluster (S := S) events,
      (∃ first rest, c.events = first :: rest ∧ c.dominantKind = first.kind) ∧
      c.events.Pairwise fun a b => a.kind = b.kind →
        SameActor a.initiator b.initiator ∨ CrossKind c.dominantKind a.kind := by
  intro c hc
  rw [ChaosClusterer.cluster_blocks] at hc
  obtain ⟨b, hb, rfl⟩ := List.mem_map.mp hc
  have hjoined := ((cl.merging (S := S)).layout (ChaosClusterer.sorted events)).joined b hb
  have hpolicy := ChaosClusterer.policy_of_joined hjoined
  rw [ChaosClusterer.summary_events, (ChaosClusterer.summary_first cl b).2.1]
  refine ⟨⟨b.1, b.2, rfl, rfl⟩, List.pairwise_cons.mpr ⟨?_, ?_⟩⟩
  · intro e he hkind
    rcases hpolicy e he with hcross | ⟨-, hactor⟩
    · exact absurd hkind hcross.ne
    · exact .inl hactor
  · refine List.pairwise_of_forall_mem_list fun a ha e he hkind => ?_
    rcases hpolicy a ha with hcross | ⟨ha, hactor⟩
    · exact .inr hcross
    · rcases hpolicy e he with hcross | ⟨-, hactor'⟩
      · exact absurd (ha.trans hkind) hcross.ne
      · exact .inl (hactor.symm.trans hactor')

theorem cluster_same_kind_pair :
    ∃ c ∈ (ChaosClusterer.new 100).cluster (S := Float)
        [ev .spoof 10 20 (some 7), ev .spoof 50 60 (some 7)],
      (∃ first rest, c.events = first :: rest ∧ c.dominantKind = first.kind) ∧
      c.events.Pairwise fun a b => a.kind = b.kind →
        SameActor a.initiator b.initiator ∨ CrossKind c.dominantKind a.kind := by
  have hsorted : ChaosClusterer.sorted [ev .spoof 10 20 (some 7), ev .spoof 50 60 (some 7)] =
      [ev .spoof 10 20 (some 7), ev .spoof 50 60 (some 7)] :=
    List.mergeSort_of_pairwise (by decide)
  obtain ⟨c, hc⟩ : ∃ c, c ∈ (ChaosClusterer.new 100).cluster (S := Float)
      [ev .spoof 10 20 (some 7), ev .spoof 50 60 (some 7)] := by
    rw [ChaosClusterer.cluster, hsorted]
    exact ⟨_, List.mem_append_right _ (List.mem_singleton_self _)⟩
  exact ⟨c, hc, cluster_same_kind (ChaosClusterer.new 100) _ c hc⟩

/-- A crash lets in two ignitions of two actors. -/
theorem cluster_two_actors :
    ¬ ∀ (cl : ChaosClusterer) (events : List ChaosEvent), ∀ c ∈ cl.cluster (S := Float) events,
      c.events.Pairwise fun a b => a.kind = b.kind → SameActor a.initiator b.initiator := by
  intro h
  let flags := [ev .flashCrash 10 20 (some 1), ev .momentumIgnition 30 40 (some 7),
    ev .momentumIgnition 50 60 (some 8)]
  have hsorted : ChaosClusterer.sorted flags = flags := List.mergeSort_of_pairwise (by decide)
  have hone : ((ChaosClusterer.new 100).cluster (S := Float) flags).map (·.events) = [flags] := by
    rw [ChaosClusterer.cluster, hsorted]
    rfl
  obtain ⟨c, hc, hevents⟩ := List.mem_map.mp (hone ▸ List.mem_singleton_self flags)
  have hpairs := h (ChaosClusterer.new 100) flags c hc
  rw [hevents] at hpairs
  obtain ⟨x, hx, hx'⟩ := (List.pairwise_cons.mp (List.pairwise_cons.mp hpairs).2).1
    (ev .momentumIgnition 50 60 (some 8)) (List.mem_singleton_self _) rfl
  exact absurd (hx.trans hx'.symm) (by decide)

/-- The sorted events at two positions stand in one of the clusters. -/
def SameCluster (cs : List (ChaosCluster S)) (i j : Nat) : Prop :=
  ∃ pre c post, cs = pre ++ c :: post ∧
    ∀ k, k = i ∨ k = j → (pre.flatMap (·.events)).length ≤ k ∧
      k < (pre.flatMap (·.events)).length + c.events.length

omit [Severity S] in
theorem exists_cluster_at (cs : List (ChaosCluster S)) {i : Nat}
    (hi : i < (cs.flatMap (·.events)).length) : SameCluster cs i i := by
  induction cs generalizing i with
  | nil => exact absurd hi (by simp)
  | cons c cs ih =>
    rw [List.flatMap_cons, List.length_append] at hi
    by_cases hc : i < c.events.length
    · refine ⟨[], c, cs, rfl, ?_⟩
      rintro k (rfl | rfl) <;> simpa using hc
    · obtain ⟨pre, c', post, rfl, hk⟩ := ih (i := i - c.events.length) (by omega)
      refine ⟨c :: pre, c', post, rfl, ?_⟩
      have hpos := hk _ (.inl rfl)
      rw [List.flatMap_cons, List.length_append]
      rintro k (rfl | rfl) <;> omega

/-- The event that opens the next cluster does not continue any event of the one before. -/
theorem ChaosClusterer.not_continued (cl : ChaosClusterer) (events : List ChaosEvent)
    {pre post : List (ChaosCluster S)} {c c' : ChaosCluster S}
    (hcs : cl.cluster events = pre ++ c :: c' :: post) {e e' : ChaosEvent} (he : e ∈ c.events)
    (he' : c'.events.head? = some e') (hkind : e.kind = e'.kind)
    (hactor : SameActor e.initiator e'.initiator) : ¬ cl.Close e.endSeq e.endTsNs e' := by
  rw [cluster_blocks] at hcs
  obtain ⟨bs, bs', hbs, -, hrest⟩ := List.map_eq_append_iff.mp hcs
  obtain ⟨b, tail, rfl, rfl, htail⟩ := List.map_eq_cons_iff.mp hrest
  obtain ⟨b', bs', rfl, rfl, -⟩ := List.map_eq_cons_iff.mp htail
  have hlayout := (cl.merging (S := S)).layout (sorted events)
  have hmem : b ∈ (cl.merging (S := S)).blocks none (sorted events) := by simp [hbs]
  have hchain := hlayout.chain
  rw [hbs] at hchain
  obtain ⟨calm, -, hcalm, hjoin⟩ := (List.isChain_append_cons_cons.mp hchain).2.1
  have hnil : calm = [] :=
    List.eq_nil_iff_forall_not_mem.mpr fun a ha => Bool.noConfusion (hcalm a ha : true = false)
  rw [summary_events] at he he'
  obtain rfl : b'.1 = e' := Option.some.inj he'
  intro hclose
  have hmerge : cl.shouldMerge ((cl.merging (S := S)).summary b) b'.1 = true := by
    have hspans := cl.summary_spans (S := S) b (cl.members_ordered (S := S) events b hmem)
    have hpolicy := policy_of_joined (S := S) (hlayout.joined b hmem)
    have he'' : e ∈ ((cl.merging (S := S)).summary b).events := by rwa [summary_events]
    refine (cl.shouldMerge_iff _ _).mpr
      ⟨hclose.mono (hspans.endSeq.2 ⟨e, he'', rfl⟩) (hspans.endTsNs.2 ⟨e, he'', rfl⟩), ?_⟩
    rw [(summary_first cl b).2.1, (summary_first cl b).2.2, ← hkind]
    rcases List.mem_cons.mp he with rfl | he
    · exact .inr ⟨rfl, hactor⟩
    · exact (hpolicy e he).imp_right fun h => ⟨h.1, h.2.trans hactor⟩
  have hsplit : cl.shouldMerge ((cl.merging (S := S)).summary b) b'.1 = false := hjoin hnil
  rw [hmerge] at hsplit
  exact Bool.noConfusion hsplit

theorem ChaosClusterer.events_ne_nil (cl : ChaosClusterer) (events : List ChaosEvent) :
    ∀ c ∈ cl.cluster (S := S) events, c.events ≠ [] := by
  intro c hc
  rw [cluster_blocks] at hc
  obtain ⟨b, -, rfl⟩ := List.mem_map.mp hc
  rw [summary_events]
  exact List.cons_ne_nil _ _

/-- Two close events of one kind and one known actor stand in one cluster exactly when those between
them in the sorted order all stand in the cluster of the first. -/
theorem same_actor_merged (cl : ChaosClusterer) (events : List ChaosEvent) {i j : Nat} (hij : i < j)
    {e e' : ChaosEvent} (hi : (ChaosClusterer.sorted events)[i]? = some e)
    (hj : (ChaosClusterer.sorted events)[j]? = some e') (hkind : e.kind = e'.kind)
    (hactor : SameActor e.initiator e'.initiator) (hclose : cl.Close e.endSeq e.endTsNs e') :
    SameCluster (cl.cluster (S := S) events) i j ↔
      ∀ k, i < k → k < j → SameCluster (cl.cluster (S := S) events) i k := by
  have hflat := ChaosClusterer.flatMap_events (S := S) cl events
  constructor
  · rintro ⟨pre, c, post, hcs, hpos⟩ k hik hkj
    refine ⟨pre, c, post, hcs, ?_⟩
    have := hpos i (.inl rfl)
    have := hpos j (.inr rfl)
    rintro n (rfl | rfl) <;> omega
  · intro hbetween
    have hjlen := (List.getElem?_eq_some_iff.mp hj).1
    have hlast : SameCluster (cl.cluster (S := S) events) i (j - 1) := by
      rcases Nat.eq_or_lt_of_le (Nat.le_sub_one_of_lt hij) with heq | hlt
      · rw [← heq]
        exact exists_cluster_at _ (by rw [hflat]; omega)
      · exact hbetween (j - 1) hlt (by omega)
    obtain ⟨pre, c, post, hcs, hpos⟩ := hlast
    have hposi := hpos i (.inl rfl)
    have hposj := hpos (j - 1) (.inr rfl)
    by_cases hjc : j < (pre.flatMap (·.events)).length + c.events.length
    · refine ⟨pre, c, post, hcs, ?_⟩
      rintro n (rfl | rfl) <;> omega
    · -- Otherwise the later event opens the next cluster, which its kind and actor rule out.
      exfalso
      have hsorted : ChaosClusterer.sorted events =
          pre.flatMap (·.events) ++ (c.events ++ post.flatMap (·.events)) := by
        rw [← hflat, hcs, List.flatMap_append, List.flatMap_cons]
      rw [hsorted] at hi hj hjlen
      rw [List.getElem?_append_right hposi.1, List.getElem?_append_left (by omega)] at hi
      rw [List.getElem?_append_right (by omega), List.getElem?_append_right (by omega)] at hj
      have hzero : j - (pre.flatMap (·.events)).length - c.events.length = 0 := by omega
      rw [hzero] at hj
      cases post with
      | nil => exact absurd hj (by simp)
      | cons c' post =>
        have hne := cl.events_ne_nil events c' (by rw [hcs]; simp)
        obtain ⟨first, rest, hfirst⟩ := List.exists_cons_of_ne_nil hne
        have he' : c'.events.head? = some e' := by
          rw [List.flatMap_cons, hfirst] at hj
          rw [hfirst]
          exact hj
        exact cl.not_continued events hcs (List.mem_of_getElem? hi) he' hkind hactor hclose

theorem same_actor_merged_adjacent :
    SameCluster ((ChaosClusterer.new 100).cluster (S := Float)
      [ev .spoof 10 20 (some 7), ev .spoof 50 60 (some 7)]) 0 1 := by
  have hsorted : ChaosClusterer.sorted [ev .spoof 10 20 (some 7), ev .spoof 50 60 (some 7)] =
      [ev .spoof 10 20 (some 7), ev .spoof 50 60 (some 7)] :=
    List.mergeSort_of_pairwise (by decide)
  have hfirst : (ChaosClusterer.sorted [ev .spoof 10 20 (some 7), ev .spoof 50 60 (some 7)])[0]? =
      some (ev .spoof 10 20 (some 7)) := by rw [hsorted]; rfl
  have hsecond : (ChaosClusterer.sorted [ev .spoof 10 20 (some 7), ev .spoof 50 60 (some 7)])[1]? =
      some (ev .spoof 50 60 (some 7)) := by rw [hsorted]; rfl
  refine (same_actor_merged (ChaosClusterer.new 100) _ (by decide) hfirst hsecond rfl ⟨7, rfl, rfl⟩
    (.inl (by decide))).mpr ?_
  intro k hk hk'
  omega

/-- A flag of another kind between two flags of one actor keeps them apart. -/
theorem same_actor_split :
    ¬ ∀ (cl : ChaosClusterer) (events : List ChaosEvent) (i j : Nat), i < j → ∀ e e' : ChaosEvent,
      (ChaosClusterer.sorted events)[i]? = some e → (ChaosClusterer.sorted events)[j]? = some e' →
      e.kind = e'.kind → SameActor e.initiator e'.initiator → cl.Close e.endSeq e.endTsNs e' →
      SameCluster (cl.cluster (S := Float) events) i j := by
  intro h
  let flags := [ev .spoof 10 20 (some 7), ev .quoteStuff 30 40 none, ev .spoof 50 60 (some 7)]
  have hsorted : ChaosClusterer.sorted flags = flags := List.mergeSort_of_pairwise (by decide)
  have hcounts : ((ChaosClusterer.new 100).cluster (S := Float) flags).map (·.events.length) =
      [1, 1, 1] := by
    rw [ChaosClusterer.cluster, hsorted]
    rfl
  obtain ⟨pre, c, post, hcs, hpos⟩ := h (ChaosClusterer.new 100) flags 0 2 (by decide)
    (ev .spoof 10 20 (some 7)) (ev .spoof 50 60 (some 7)) (by rw [hsorted]; rfl)
    (by rw [hsorted]; rfl) rfl ⟨7, rfl, rfl⟩ (.inl (by decide))
  have hc : c.events.length ∈ [1, 1, 1] := by
    rw [← hcounts, hcs]
    exact List.mem_map_of_mem (by simp)
  have hone : c.events.length = 1 := by simpa using hc
  have := hpos 0 (.inl rfl)
  have := hpos 2 (.inr rfl)
  omega

end Flowlab.Chaos
