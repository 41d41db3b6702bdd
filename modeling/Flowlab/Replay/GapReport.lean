import Flowlab.Replay.GapCount

namespace Flowlab.Replay

open Std Framework

namespace GapTracker

/-- The number after which `expected` starts again at 0. -/
def lastSeq : UInt64 := 0xffffffffffffffff

/-- The next message is dropped and nothing buffered lies at or beyond it. -/
def forgets (t : GapTracker) (seq : UInt64) : Bool :=
  t.overflows seq && t.pending.keys.all (fun k => decide (k < seq))

/-- The next message leaves a trace: it is not forgotten and `expected` cannot wrap past it. -/
def keeps (t : GapTracker) (seq : UInt64) : Bool :=
  decide (seq ≠ lastSeq) && !t.forgets seq

/-- While a message that arrived has not been delivered, a gap is reported. -/
def Reports (start : UInt64) (maxBuffered : Nat) (ms : List Message) : Prop :=
  ∀ m ∈ ms, (reached start maxBuffered ms).expected ≤ m.1 →
    (reached start maxBuffered ms).openGap.isSome = true

instance (start : UInt64) (maxBuffered : Nat) (ms : List Message) :
    Decidable (Reports start maxBuffered ms) :=
  inferInstanceAs (Decidable (∀ m ∈ ms, _ → _))

theorem forgets_iff {t : GapTracker} {seq : UInt64} :
    t.forgets seq = true ↔ t.expected < seq ∧ t.maxBuffered ≤ t.pending.size ∧
      ∀ (k : UInt64) (v : List UInt8), t.pending[k]? = some v → k < seq := by
  have hall : (t.pending.keys.all (fun k => decide (k < seq))) = true ↔
      ∀ (k : UInt64) (v : List UInt8), t.pending[k]? = some v → k < seq := by
    rw [List.all_eq_true]
    constructor
    · intro h k v hk
      have hmem : k ∈ t.pending.keys := by
        rw [ExtTreeMap.mem_keys, ← ExtTreeMap.isSome_getElem?_iff_mem, hk]
        rfl
      simpa using h k hmem
    · intro h k hk
      rw [ExtTreeMap.mem_keys, ← ExtTreeMap.isSome_getElem?_iff_mem] at hk
      obtain ⟨v, hv⟩ := Option.isSome_iff_exists.mp hk
      simpa using h k v hv
  rw [forgets, overflows, Bool.and_eq_true, Bool.and_eq_true, hall, decide_eq_true_eq,
    decide_eq_true_eq, and_assoc]

theorem kept_append (t : GapTracker) (ms : List Message) (m : Message) :
    t.kept (ms ++ [m]) =
      t.kept ms ++ if (t.ingestAll ms []).1.overflows m.1 then [] else [m] := by
  induction ms generalizing t with
  | nil =>
    simp only [List.nil_append, kept, List.append_nil]
    rfl
  | cons a ms ih =>
    rw [List.cons_append, kept, ih, kept, List.append_assoc, ingestAll_cons,
      ingestAll_out _ ms (t.ingestOne a.1 a.2 []).2]

/-- The account of a run that never meets the last number. -/
theorem reached_tracks (start : UInt64) (maxBuffered : Nat) {ms : List Message}
    (h : ∀ m ∈ ms, m.1 ≠ lastSeq) :
    ∃ out, Tracks start lastSeq ((withCapacity start maxBuffered).kept ms) out
      (reached start maxBuffered ms) := by
  have hle : start.toNat ≤ lastSeq.toNat := by
    have hlast : lastSeq.toNat = 2 ^ 64 - 1 := by decide
    have := start.toNat_lt
    omega
  obtain ⟨h0, hs0⟩ := tracks_start start lastSeq maxBuffered hle
  obtain ⟨ht, _⟩ := ingestAll_tracks ms h0 hs0 h
  exact ⟨_, ht⟩

/-- When every message leaves a trace, each is at or below one that was kept. -/
theorem covered_of_keeps {start : UInt64} {maxBuffered : Nat} (ms : List Message)
    (h : ∀ p m, p ++ [m] <+: ms → (reached start maxBuffered p).keeps m.1 = true) :
    (∀ m ∈ ms, m.1 ≠ lastSeq) ∧
      ∀ m ∈ ms, ∃ n ∈ (withCapacity start maxBuffered).kept ms, m.1.toNat ≤ n.1.toNat := by
  induction ms using List.reverseRecOn with
  | nil => exact ⟨by simp, by simp⟩
  | append_singleton ms m ih =>
    obtain ⟨hne, hcov⟩ := ih (fun p x hp => h p x (hp.trans (List.prefix_append ms [m])))
    have hm := h ms m List.prefix_rfl
    simp only [keeps, Bool.and_eq_true, decide_eq_true_eq, Bool.not_eq_true'] at hm
    obtain ⟨hlast, hforget⟩ := hm
    constructor
    · intro x hx
      rcases List.mem_append.mp hx with hx | hx
      · exact hne x hx
      · rw [List.mem_singleton.mp hx]
        exact hlast
    · intro x hx
      rw [kept_append]
      rcases List.mem_append.mp hx with hx | hx
      · obtain ⟨n, hn, hle⟩ := hcov x hx
        exact ⟨n, List.mem_append_left _ hn, hle⟩
      · rw [List.mem_singleton.mp hx]
        by_cases hover : (reached start maxBuffered ms).overflows m.1 = true
        -- dropped, so some buffered number is at or beyond it, and what is buffered was kept
        · obtain ⟨out, ht⟩ := reached_tracks start maxBuffered hne
          have hnot : ¬ (reached start maxBuffered ms).forgets m.1 = true := by
            rw [hforget]
            simp
          rw [forgets_iff] at hnot
          simp only [overflows, Bool.and_eq_true, decide_eq_true_eq] at hover
          push Not at hnot
          obtain ⟨k, v, hk, hge⟩ := hnot hover.1 hover.2
          refine ⟨(k, v), List.mem_append_left _ (mem_of_firstPayload (ht.reach k v hk).2.2), ?_⟩
          rw [UInt64.lt_iff_toNat_lt] at hge
          exact Nat.not_lt.mp hge
        · refine ⟨m, List.mem_append_right _ ?_, Nat.le_refl _⟩
          change m ∈ if (reached start maxBuffered ms).overflows m.1 = true then [] else [m]
          rw [if_neg hover]
          exact List.mem_singleton.mpr rfl

theorem reports_of_keeps {start : UInt64} {maxBuffered : Nat} {ms : List Message}
    (h : ∀ p m, p ++ [m] <+: ms → (reached start maxBuffered p).keeps m.1 = true) :
    Reports start maxBuffered ms := by
  intro m hm hge
  obtain ⟨hne, hcov⟩ := covered_of_keeps ms h
  obtain ⟨out, ht⟩ := reached_tracks start maxBuffered hne
  obtain ⟨n, hn, hle⟩ := hcov m hm
  rw [openGap_isSome (reached_settled start maxBuffered ms)]
  rcases ht.known n hn with hlt | hbuf
  · rw [UInt64.le_iff_toNat_le] at hge
    omega
  · have hempty : ¬ (reached start maxBuffered ms).pending.isEmpty = true :=
      fun he => hbuf (pending_isEmpty.mp he n.1)
    simpa using hempty

theorem reached_then (start : UInt64) (maxBuffered : Nat) (p q : List Message) :
    reached start maxBuffered (p ++ q) = ((reached start maxBuffered p).ingestAll q []).1 := by
  simp only [reached]
  rw [ingestAll_append, ingestAll_out]

/-- Below a bound on the buffer, draining moves `expected` up to the bound at most. -/
theorem drain_below (fuel : Nat) {t : GapTracker} (out : List Delivered) {g : UInt64}
    (hexp : t.expected.toNat ≤ g.toNat)
    (hpend : ∀ (k : UInt64) (v : List UInt8), t.pending[k]? = some v → k.toNat < g.toNat) :
    t.expected.toNat ≤ (t.drain fuel out).1.expected.toNat ∧
      (t.drain fuel out).1.expected.toNat ≤ g.toNat ∧
      ∀ (k : UInt64) (v : List UInt8), (t.drain fuel out).1.pending[k]? = some v →
        k.toNat < g.toNat := by
  induction fuel generalizing t out with
  | zero => exact ⟨Nat.le_refl _, hexp, hpend⟩
  | succ fuel ih =>
    simp only [drain]
    cases hf : t.firstPending with
    | none => exact ⟨Nat.le_refl _, hexp, hpend⟩
    | some m =>
      dsimp only
      split_ifs with he
      · have hlt := hpend m.1 m.2 (firstPending_some hf).1
        rw [he] at hlt ⊢
        obtain ⟨he', hp', _⟩ := drainStep_fields t t.expected
        have hsucc := toNat_succ_of_lt hlt
        obtain ⟨h1, h2, h3⟩ := ih (t := t.drainStep t.expected) (out ++ [⟨t.expected, m.2⟩])
          (by rw [he']; omega)
          (by
            intro k v hk
            rw [hp', FiniteMap.get_erase] at hk
            split_ifs at hk
            exact hpend k v hk)
        rw [he'] at h1
        exact ⟨by omega, h2, h3⟩
      · exact ⟨Nat.le_refl _, hexp, hpend⟩

theorem ingestOne_expected (t : GapTracker) (payload : List UInt8) :
    (t.ingestOne t.expected payload []).1 =
      (t.deliverExpected.drain t.pending.size [⟨t.expected, payload⟩]).1 := by
  rw [ingestOne, if_neg (UInt64.lt_irrefl _), if_pos rfl]
  rfl

theorem ingestAll_cons_fst (t : GapTracker) (m : Message) (ms : List Message) :
    (t.ingestAll (m :: ms) []).1 = ((t.ingestOne m.1 m.2 []).1.ingestAll ms []).1 := by
  rw [ingestAll_cons, ingestAll_out]

/-- With every buffered number below `g`, the messages up to `g` can arrive in order and leave
nothing buffered. -/
theorem exists_catch_up (g : UInt64) (n : Nat) {t : GapTracker} (hs : t.Settled)
    (hn : g.toNat = t.expected.toNat + n)
    (hpend : ∀ (k : UInt64) (v : List UInt8), t.pending[k]? = some v → k.toNat < g.toNat) :
    ∃ q, (t.ingestAll q []).1.expected = g ∧ (t.ingestAll q []).1.pending.isEmpty = true := by
  induction n using Nat.strong_induction_on generalizing t with
  | _ n ih =>
    by_cases hz : n = 0
    · refine ⟨[], UInt64.toNat_inj.mp (by rw [hn, hz]; rfl), pending_isEmpty.mpr ?_⟩
      intro k
      cases hk : t.pending[k]? with
      | none => exact hk
      | some v =>
        have h1 := hs k v hk
        have h2 := hpend k v hk
        omega
    · have hlt : t.expected.toNat < g.toNat := by omega
      have hsucc := toNat_succ_of_lt hlt
      obtain ⟨h1, h2, h3⟩ := drain_below t.pending.size (t := t.deliverExpected)
        [⟨t.expected, []⟩] (g := g) (by change (t.expected + 1).toNat ≤ _; omega) hpend
      rw [← ingestOne_expected] at h1 h2 h3
      change (t.expected + 1).toNat ≤ _ at h1
      obtain ⟨q, hq⟩ := ih (g.toNat - (t.ingestOne t.expected [] []).1.expected.toNat) (by omega)
        (ingestOne_settled hs t.expected [] []) (by omega) h3
      refine ⟨(t.expected, []) :: q, ?_⟩
      rw [ingestAll_cons_fst]
      exact hq

/-- Draining either stops short of a buffered last number or delivers it and wraps. -/
theorem drain_wraps (fuel : Nat) {t : GapTracker} (out : List Delivered) (h : t.Ahead)
    (hlast : t.pending[lastSeq]? ≠ none) (hf : t.pending.size ≤ fuel) :
    ((t.drain fuel out).1.pending[lastSeq]? ≠ none ∧
        t.expected.toNat ≤ (t.drain fuel out).1.expected.toNat) ∨
      ((t.drain fuel out).1.expected = 0 ∧ (t.drain fuel out).1.pending.isEmpty = true) := by
  induction fuel generalizing t out with
  | zero => exact Or.inl ⟨hlast, Nat.le_refl _⟩
  | succ fuel ih =>
    cases hv : t.pending[t.expected]? with
    | none =>
      rw [drain_missing hv]
      exact Or.inl ⟨hlast, Nat.le_refl _⟩
    | some v =>
      obtain ⟨hexp, hpend, _⟩ := drainStep_fields t t.expected
      have hsize := FiniteMap.size_erase_bound t.pending t.expected v hv
      rw [drain_present h hv]
      by_cases he : t.expected = lastSeq
      · have hempty : ∀ k : UInt64, (t.drainStep t.expected).pending[k]? = none := by
          intro k
          cases hk : (t.drainStep t.expected).pending[k]? with
          | none => rfl
          | some w =>
            have hle := drainStep_ahead h k w hk
            rw [hpend, FiniteMap.get_erase] at hk
            split_ifs at hk with hne
            have hge := h k w hk
            have hk64 := k.toNat_lt
            have hl : lastSeq.toNat = 2 ^ 64 - 1 := by decide
            have hkl : k.toNat = t.expected.toNat := by
              rw [he] at hge ⊢
              omega
            exact absurd (UInt64.toNat_inj.mp hkl) hne
        rw [drain_missing (hempty _)]
        refine Or.inr ⟨?_, pending_isEmpty.mpr hempty⟩
        rw [hexp, he]
        rfl
      · have hlast' : (t.drainStep t.expected).pending[lastSeq]? ≠ none := by
          rw [hpend, FiniteMap.get_erase, if_neg (Ne.symm he)]
          exact hlast
        have hlt : t.expected.toNat < lastSeq.toNat := by
          have hk64 := t.expected.toNat_lt
          have hl : lastSeq.toNat = 2 ^ 64 - 1 := by decide
          have hne : t.expected.toNat ≠ lastSeq.toNat := fun hx => he (UInt64.toNat_inj.mp hx)
          omega
        rcases ih (t := t.drainStep t.expected) (out ++ [⟨t.expected, v⟩]) (drainStep_ahead h)
          hlast' (by rw [hpend]; omega) with ⟨h1, h2⟩ | hdone
        · rw [hexp, toNat_succ_of_lt hlt] at h2
          exact Or.inl ⟨h1, by omega⟩
        · exact Or.inr hdone

/-- With the last number buffered, the missing messages can arrive and take `expected` past it. -/
theorem exists_wrap (n : Nat) {t : GapTracker} (hs : t.Settled)
    (hn : lastSeq.toNat = t.expected.toNat + n) (hlast : t.pending[lastSeq]? ≠ none) :
    ∃ q, (t.ingestAll q []).1.expected = 0 ∧ (t.ingestAll q []).1.pending.isEmpty = true := by
  induction n using Nat.strong_induction_on generalizing t with
  | _ n ih =>
    obtain ⟨v, hv⟩ := Option.ne_none_iff_exists'.mp hlast
    have hlt := hs lastSeq v hv
    have hsucc := toNat_succ_of_lt hlt
    rcases drain_wraps t.pending.size (t := t.deliverExpected) [⟨t.expected, []⟩]
      (deliverExpected_ahead hs) hlast (Nat.le_refl _) with ⟨h1, h2⟩ | hdone
    · rw [← ingestOne_expected] at h1 h2
      change (t.expected + 1).toNat ≤ _ at h2
      obtain ⟨w, hw⟩ := Option.ne_none_iff_exists'.mp h1
      have hlt' := ingestOne_settled hs t.expected [] [] lastSeq w hw
      obtain ⟨q, hq⟩ := ih (lastSeq.toNat - (t.ingestOne t.expected [] []).1.expected.toNat)
        (by omega) (ingestOne_settled hs t.expected [] []) (by omega) h1
      refine ⟨(t.expected, []) :: q, ?_⟩
      rw [ingestAll_cons_fst]
      exact hq
    · rw [← ingestOne_expected] at hdone
      exact ⟨[(t.expected, [])], hdone⟩

theorem not_reports {start : UInt64} {maxBuffered : Nat} {p q : List Message} {m : Message}
    {e : UInt64} (he : (((reached start maxBuffered (p ++ [m])).ingestAll q []).1).expected = e)
    (hle : e.toNat ≤ m.1.toNat)
    (hempty : ((reached start maxBuffered (p ++ [m])).ingestAll q []).1.pending.isEmpty = true) :
    ¬ Reports start maxBuffered (p ++ [m] ++ q) := by
  intro h
  have hsome := h m (by simp) (by
    rw [reached_then, he]
    exact UInt64.le_iff_toNat_le.mpr hle)
  rw [openGap_isSome (reached_settled start maxBuffered _), reached_then, hempty] at hsome
  exact absurd hsome (by simp)

theorem lastSeq_max (k : UInt64) : k.toNat ≤ lastSeq.toNat := by
  have hk := k.toNat_lt
  have hl : lastSeq.toNat = 2 ^ 64 - 1 := by decide
  omega

/-- After a message that leaves no trace some continuation goes unreported. -/
theorem exists_unreported {start : UInt64} {maxBuffered : Nat} (p : List Message) (m : Message)
    (h : ¬ (reached start maxBuffered p).keeps m.1 = true) :
    ∃ q, ¬ Reports start maxBuffered (p ++ [m] ++ q) := by
  have hs := reached_settled start maxBuffered p
  have hs' := reached_settled start maxBuffered (p ++ [m])
  have hforget : (reached start maxBuffered p).forgets m.1 = true →
      ∃ q, ¬ Reports start maxBuffered (p ++ [m] ++ q) := by
    intro hf
    obtain ⟨hlt, hfull, hpend⟩ := forgets_iff.mp hf
    obtain ⟨t', hr, he, _, hp⟩ :=
      ingestOne_forward (UInt64.lt_iff_toNat_lt.mp hlt) m.2 []
    rw [if_pos (Or.inl hfull)] at hp
    have ht : reached start maxBuffered (p ++ [m]) = t' := by rw [reached_append, hr]
    rw [ht] at hs'
    have hle := UInt64.lt_iff_toNat_lt.mp hlt
    obtain ⟨q, hq, hempty⟩ := exists_catch_up m.1 (m.1.toNat - t'.expected.toNat) hs'
      (by rw [he]; omega)
      (by
        intro k v hk
        rw [hp] at hk
        exact UInt64.lt_iff_toNat_lt.mp (hpend k v hk))
    rw [← ht] at hq hempty
    exact ⟨q, not_reports hq (Nat.le_refl _) hempty⟩
  have hwrap : m.1 = lastSeq → (reached start maxBuffered (p ++ [m])).pending[lastSeq]? ≠ none →
      ∃ q, ¬ Reports start maxBuffered (p ++ [m] ++ q) := by
    intro hm hbuf
    have hle := lastSeq_max (reached start maxBuffered (p ++ [m])).expected
    obtain ⟨q, hq, hempty⟩ := exists_wrap (lastSeq.toNat -
      (reached start maxBuffered (p ++ [m])).expected.toNat) hs' (by omega) hbuf
    exact ⟨q, not_reports hq (Nat.zero_le _) hempty⟩
  by_cases hf : (reached start maxBuffered p).forgets m.1 = true
  · exact hforget hf
  · have hm : m.1 = lastSeq := by
      by_contra hne
      exact h (by simp [keeps, hne, hf])
    have hr := reached_append start maxBuffered p m
    rcases ingestOne_cases (reached start maxBuffered p) m.1 m.2 [] with ⟨hlt, _⟩ | ⟨heq, ht⟩ |
      ⟨hlt, hfull, ht⟩ | ⟨_, _, hc, ht⟩ | ⟨_, _, _, ht⟩
    case inl =>
      have hle := lastSeq_max (reached start maxBuffered p).expected
      rw [hm, UInt64.lt_iff_toNat_lt] at hlt
      omega
    case inr.inl =>
      have hnone : ∀ k : UInt64, (reached start maxBuffered p).pending[k]? = none := by
        intro k
        cases hk : (reached start maxBuffered p).pending[k]? with
        | none => rfl
        | some v =>
          have hlt := hs k v hk
          have hle := lastSeq_max k
          rw [← heq, hm] at hlt
          omega
      have hexp : (reached start maxBuffered p).deliverExpected.expected = 0 := by
        change (reached start maxBuffered p).expected + 1 = 0
        rw [← heq, hm]
        rfl
      rw [ht, drain_missing (t := (reached start maxBuffered p).deliverExpected) (hnone _)] at hr
      refine ⟨[], not_reports (e := 0) ?_ (Nat.zero_le _) ?_⟩
      · rw [hr]
        exact hexp
      · rw [hr]
        exact pending_isEmpty.mpr hnone
    case inr.inr.inl =>
      refine hwrap hm ?_
      rw [hr, ht]
      simp only [countOpened_pending]
      intro hnone
      refine hf (forgets_iff.mpr ⟨hlt, hfull, ?_⟩)
      intro k v hk
      have hle := lastSeq_max k
      have hne : k.toNat ≠ lastSeq.toNat := by
        intro he
        rw [UInt64.toNat_inj.mp he, hnone] at hk
        exact absurd hk (by simp)
      rw [hm, UInt64.lt_iff_toNat_lt]
      omega
    case inr.inr.inr.inl =>
      refine hwrap hm ?_
      rw [hr, ht, ← hm]
      simpa using hc
    case inr.inr.inr.inr =>
      refine hwrap hm ?_
      rw [hr, ht, ← hm, FiniteMap.get_insert, if_pos rfl]
      simp

end GapTracker

/-- A run whose every message leaves a trace reports a gap whenever a message that arrived is not
delivered, after every message and after any calls with these messages; and from any message that
leaves none, some continuation ends with undelivered data and no gap reported. -/
theorem openGap_reports (start : UInt64) (maxBuffered : Nat) :
    (∀ ms : List Message,
      (∀ p m, p ++ [m] <+: ms → (GapTracker.reached start maxBuffered p).keeps m.1 = true) →
      (∀ p, p <+: ms → GapTracker.Reports start maxBuffered p) ∧
      ∀ fuel ops t out, ops.flatMap GapTracker.Op.messages <+: ms →
        GapTracker.runOps fuel (GapTracker.withCapacity start maxBuffered) ops = some (t, out) →
        ∀ m ∈ ops.flatMap GapTracker.Op.messages, t.expected ≤ m.1 →
          t.openGap.isSome = true) ∧
    ∀ (p : List Message) (m : Message),
      ¬ (GapTracker.reached start maxBuffered p).keeps m.1 = true →
      ∃ q, ¬ GapTracker.Reports start maxBuffered (p ++ [m] ++ q) := by
  refine ⟨?_, GapTracker.exists_unreported⟩
  intro ms hsteps
  have hall : ∀ p, p <+: ms → GapTracker.Reports start maxBuffered p := by
    intro p hp
    exact GapTracker.reports_of_keeps (fun r m hr => hsteps r m (hr.trans hp))
  refine ⟨hall, ?_⟩
  intro fuel ops t out hops hrun
  have ht : t = GapTracker.reached start maxBuffered (ops.flatMap GapTracker.Op.messages) :=
    GapTracker.runOps_some hrun
  rw [ht]
  exact hall _ hops

/-- Message 2 finds the buffer full of message 3; after 1 the gap at 2 is still reported. -/
theorem openGap_reports_full :
    GapTracker.Reports 1 1 [(3, [7]), (2, [5]), (1, [9])] :=
  ((openGap_reports 1 1).1 [(3, [7]), (2, [5]), (1, [9])]
    (fun _ _ hp => Machine.steps_of_get
      (P := fun p m => (GapTracker.reached 1 1 p).keeps m.1 = true) (by decide) hp)).1
    _ List.prefix_rfl

/-- With room for one message, 3 is dropped behind 2; once 1 has arrived the tracker waits for 3,
which it has seen, and reports no gap. -/
theorem openGap_forgets_dropped :
    (GapTracker.reached 1 1 [(2, [2]), (3, [3]), (1, [1])]).expected = 3 ∧
      (GapTracker.reached 1 1 [(2, [2]), (3, [3]), (1, [1])]).openGap = none ∧
      ¬ GapTracker.Reports 1 1 [(2, [2]), (3, [3]), (1, [1])] := by
  decide

end Flowlab.Replay
