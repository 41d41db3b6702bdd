import Flowlab.Replay.GapStats

namespace Flowlab.Replay

open Std Framework

namespace GapTracker

/-- No buffered number is below the expected one. -/
def Ahead (t : GapTracker) : Prop :=
  ∀ (k : UInt64) (v : List UInt8), t.pending[k]? = some v → t.expected.toNat ≤ k.toNat

theorem deliverExpected_ahead {t : GapTracker} (h : t.Settled) : t.deliverExpected.Ahead := by
  intro k v hk
  have hlt := h k v hk
  change (t.expected + 1).toNat ≤ k.toNat
  rw [toNat_succ_of_lt hlt]
  exact hlt

theorem drainStep_ahead {t : GapTracker} (h : t.Ahead) : (t.drainStep t.expected).Ahead := by
  obtain ⟨hexp, hpend, _⟩ := drainStep_fields t t.expected
  intro k v hk
  rw [hpend, FiniteMap.get_erase] at hk
  split_ifs at hk with hne
  have hle := h k v hk
  have hlt : t.expected.toNat < k.toNat := by
    have : k.toNat ≠ t.expected.toNat := fun he => hne (UInt64.toNat_inj.mp he)
    omega
  rw [hexp, toNat_succ_of_lt hlt]
  exact hlt

/-- The loop stops at once when the expected number is not buffered. -/
theorem drain_missing {t : GapTracker} (h : t.pending[t.expected]? = none) (fuel : Nat)
    (out : List Delivered) : t.drain fuel out = (t, out) := by
  cases fuel with
  | zero => rfl
  | succ fuel =>
    simp only [drain]
    cases hf : t.firstPending with
    | none => rfl
    | some m =>
      dsimp only
      rw [if_neg]
      intro he
      have hm := (firstPending_some hf).1
      rw [he, h] at hm
      exact absurd hm (by simp)

/-- The smallest buffered number is the expected one when that is buffered at all. -/
theorem firstPending_expected {t : GapTracker} (h : t.Ahead) {v : List UInt8}
    (hv : t.pending[t.expected]? = some v) : t.firstPending = some (t.expected, v) := by
  cases hf : t.firstPending with
  | none =>
    rw [firstPending_none hf] at hv
    exact absurd hv (by simp)
  | some m =>
    obtain ⟨hm, hmin⟩ := firstPending_some hf
    have hle := hmin t.expected v hv
    have hge := h m.1 m.2 hm
    have hk : m.1 = t.expected := UInt64.toNat_inj.mp (Nat.le_antisymm hle hge)
    rw [hk, hv] at hm
    rw [← hk, Option.some.inj hm]

theorem drain_present {t : GapTracker} (h : t.Ahead) {v : List UInt8}
    (hv : t.pending[t.expected]? = some v) (fuel : Nat) (out : List Delivered) :
    t.drain (fuel + 1) out = (t.drainStep t.expected).drain fuel (out ++ [⟨t.expected, v⟩]) := by
  rw [drain, firstPending_expected h hv]
  exact if_pos rfl

theorem pending_isEmpty {t : GapTracker} :
    t.pending.isEmpty = true ↔ ∀ k : UInt64, t.pending[k]? = none := by
  rw [ExtTreeMap.isEmpty_iff]
  constructor
  · intro h k
    rw [h]
    simp
  · intro h
    apply ExtTreeMap.ext_getElem?
    intro k
    rw [h k]
    simp

/-- A drain closes a gap in the count when it delivers something and leaves something. -/
theorem drain_gaps (fuel : Nat) {t : GapTracker} (out : List Delivered) (h : t.Ahead)
    (hf : t.pending.size ≤ fuel) :
    (t.drain fuel out).1.Settled ∧
    (t.drain fuel out).1.stats.gapsOpened = t.stats.gapsOpened ∧
    (t.drain fuel out).1.stats.gapsClosed = t.stats.gapsClosed +
      if t.pending[t.expected]? ≠ none ∧ ¬ (t.drain fuel out).1.pending.isEmpty = true
        then 1 else 0 := by
  induction fuel generalizing t out with
  | zero =>
    have hnone : ∀ k : UInt64, t.pending[k]? = none := by
      intro k
      cases hk : t.pending[k]? with
      | none => rfl
      | some v =>
        have := FiniteMap.size_erase_bound t.pending k v hk
        omega
    refine ⟨?_, rfl, by simp [drain, hnone]⟩
    intro k v hk
    rw [show (t.drain 0 out).1 = t from rfl, hnone] at hk
    exact absurd hk (by simp)
  | succ fuel ih =>
    cases hv : t.pending[t.expected]? with
    | none =>
      rw [drain_missing hv]
      refine ⟨?_, rfl, by simp⟩
      intro k v hk
      have hle := h k v hk
      have hne : k.toNat ≠ t.expected.toNat := by
        intro he
        rw [UInt64.toNat_inj.mp he, hv] at hk
        exact absurd hk (by simp)
      change t.expected.toNat < k.toNat
      omega
    | some v =>
      have hsize := FiniteMap.size_erase_bound t.pending t.expected v hv
      have hahead := drainStep_ahead h
      obtain ⟨hexp, hpend, _⟩ := drainStep_fields t t.expected
      obtain ⟨h1, h2, h3⟩ := ih (t := t.drainStep t.expected) (out ++ [⟨t.expected, v⟩]) hahead
        (by rw [hpend]; omega)
      rw [drain_present h hv]
      refine ⟨h1, h2.trans (by rw [drainStep_stats]), ?_⟩
      rw [h3, drainStep_stats]
      -- either the next number is buffered and a later turn decides, or this was the last turn
      cases hnext : (t.drainStep t.expected).pending[(t.drainStep t.expected).expected]? with
      | some w =>
        have hfirst := firstPending_expected hahead hnext
        simp [hfirst, hexp]
      | none =>
        have hfirst : (t.drainStep t.expected).firstPending.map Prod.fst ≠
            some (t.expected + 1) := by
          intro he
          obtain ⟨m, hm, hk⟩ := Option.map_eq_some_iff.mp he
          have hmem := (firstPending_some hm).1
          rw [hk, ← hexp, hnext] at hmem
          exact absurd hmem (by simp)
        rw [drain_missing hnext, hpend]
        simp [hfirst]

theorem ingestOne_settled {t : GapTracker} (h : t.Settled) (seq : UInt64) (payload : List UInt8)
    (out : List Delivered) : (t.ingestOne seq payload out).1.Settled := by
  rcases ingestOne_cases t seq payload out with ⟨_, hr⟩ | ⟨_, hr⟩ | ⟨_, _, hr⟩ | ⟨_, _, _, hr⟩ |
    ⟨hlt, _, _, hr⟩
  case inl =>
    rw [hr]
    exact h
  case inr.inl =>
    rw [hr]
    exact (drain_gaps t.pending.size _ (deliverExpected_ahead h) (Nat.le_refl _)).1
  case inr.inr.inl =>
    rw [hr]
    simpa [Settled] using h
  case inr.inr.inr.inl =>
    rw [hr]
    simpa [Settled] using h
  case inr.inr.inr.inr =>
    rw [hr]
    intro k v hk
    rw [FiniteMap.get_insert] at hk
    simp only [countOpened_expected]
    split_ifs at hk with he
    · rw [he]
      exact UInt64.lt_iff_toNat_lt.mp hlt
    · exact h k v hk

theorem reached_settled (start : UInt64) (maxBuffered : Nat) (ms : List Message) :
    (reached start maxBuffered ms).Settled := by
  induction ms using List.reverseRecOn with
  | nil => exact (tracks_start start start maxBuffered (Nat.le_refl _)).2
  | append_singleton ms m ih =>
    rw [reached_append]
    exact ingestOne_settled ih m.1 m.2 []

theorem reached_maxBuffered (start : UInt64) (maxBuffered : Nat) (ms : List Message) :
    (reached start maxBuffered ms).maxBuffered = maxBuffered :=
  ingestAll_maxBuffered _ ms []

/-- A settled tracker reports a gap exactly while it buffers something. -/
theorem openGap_isSome {t : GapTracker} (h : t.Settled) :
    t.openGap.isSome = !t.pending.isEmpty := by
  rw [openGap]
  cases hf : t.firstPending with
  | none =>
    have hempty := pending_isEmpty.mpr (firstPending_none hf)
    rw [hempty]
    rfl
  | some m =>
    have hm := (firstPending_some hf).1
    have hne : ¬ t.pending.isEmpty = true := by
      intro he
      rw [pending_isEmpty.mp he] at hm
      exact absurd hm (by simp)
    dsimp only
    rw [if_pos (UInt64.lt_iff_toNat_lt.mpr (h m.1 m.2 hm)), Bool.eq_false_of_not_eq_true hne]
    rfl

/-- Every gap opened was closed, save the one that is open. -/
def Balanced (t : GapTracker) : Prop :=
  t.stats.gapsOpened = t.stats.gapsClosed + if t.openGap.isSome then 1 else 0

instance (t : GapTracker) : Decidable t.Balanced := inferInstanceAs (Decidable (_ = _))

/-- The next message is the expected one and the number after it is already buffered. -/
def bridges (t : GapTracker) (seq : UInt64) : Bool :=
  decide (seq = t.expected) && t.pending.contains (t.expected + 1)

theorem contains_iff {t : GapTracker} {k : UInt64} :
    t.pending.contains k = true ↔ t.pending[k]? ≠ none := by
  rw [ExtTreeMap.contains_eq_isSome_getElem?, Option.isSome_iff_ne_none]

theorem bridges_of_ne {t : GapTracker} {seq : UInt64} (h : seq < t.expected ∨ t.expected < seq) :
    t.bridges seq = false := by
  have hne : seq ≠ t.expected := by
    rintro rfl
    exact h.elim (UInt64.lt_irrefl _) (UInt64.lt_irrefl _)
  simp [bridges, hne]

/-- Only a message that bridges to the buffer upsets the balance, and each one does. -/
theorem ingestOne_balanced {t : GapTracker} (hs : t.Settled) (hcap : 1 ≤ t.maxBuffered)
    (hb : t.Balanced) (seq : UInt64) (payload : List UInt8) (out : List Delivered) :
    (t.ingestOne seq payload out).1.Balanced ↔ ¬ t.bridges seq = true := by
  have hset := ingestOne_settled hs seq payload out
  simp only [Balanced, openGap_isSome hs] at hb
  simp only [Balanced, openGap_isSome hset]
  rcases ingestOne_cases t seq payload out with ⟨hlt, hr⟩ | ⟨heq, hr⟩ | ⟨hlt, hfull, hr⟩ |
    ⟨hlt, _, hc, hr⟩ | ⟨hlt, _, hnew, hr⟩
  case inl =>
    rw [hr, bridges_of_ne (Or.inl hlt)]
    simp [hb]
  case inr.inl =>
    obtain ⟨_, hopen, hclose⟩ := drain_gaps t.pending.size (t := t.deliverExpected)
      (out ++ [⟨seq, payload⟩]) (deliverExpected_ahead hs) (Nat.le_refl _)
    have hbr : t.bridges seq = true ↔ t.pending[t.expected + 1]? ≠ none := by
      simp only [bridges, heq, decide_true, Bool.true_and, contains_iff]
    change _ = t.stats.gapsOpened at hopen
    change _ = t.stats.gapsClosed + if t.pending[t.expected + 1]? ≠ none ∧ _ then _ else _
      at hclose
    rw [hr, hopen, hclose, hb, hbr]
    by_cases hnext : t.pending[t.expected + 1]? = none
    · have hstop := drain_missing (t := t.deliverExpected) hnext t.pending.size
        (out ++ [⟨seq, payload⟩])
      have hpend : t.deliverExpected.pending = t.pending := rfl
      rw [hstop]
      simp [hnext, hpend]
    · have hne : ¬ t.pending.isEmpty = true := fun he => hnext (pending_isEmpty.mp he _)
      cases hleft : (t.deliverExpected.drain t.pending.size
        (out ++ [⟨seq, payload⟩])).1.pending.isEmpty with
      | true => simp [hnext, hne]
      | false => simp [hnext, hne]
  case inr.inr.inl =>
    have hbr := bridges_of_ne (Or.inr hlt)
    have hbuf : ¬ t.pending.isEmpty = true := by
      rw [ExtTreeMap.isEmpty_eq_size_beq_zero, beq_iff_eq]
      omega
    rw [hr]
    simp [hbr, countOpened_stats, hbuf, hb]
  case inr.inr.inr.inl =>
    have hbr := bridges_of_ne (Or.inr hlt)
    have hbuf : ¬ t.pending.isEmpty = true := fun he => hc (pending_isEmpty.mp he seq)
    rw [hr]
    simp [hbr, countOpened_stats, hbuf, hb]
  case inr.inr.inr.inr =>
    have hbr := bridges_of_ne (Or.inr hlt)
    rw [hr]
    cases hbuf : t.pending.isEmpty with
    | true => simp [hbr, countOpened_stats, hbuf, hb]
    | false => simp [hbr, countOpened_stats, hbuf, hb]

/-- A run stays balanced up to and including the first message that bridges to the buffer. -/
theorem reached_balanced (start : UInt64) {maxBuffered : Nat} (hcap : 1 ≤ maxBuffered)
    (ms : List Message) :
    (∀ p, p <+: ms → (reached start maxBuffered p).Balanced) ↔
      ∀ p m, p ++ [m] <+: ms → ¬ (reached start maxBuffered p).bridges m.1 = true := by
  have hstep : ∀ (p : List Message) (m : Message), (reached start maxBuffered p).Balanced →
      ((reached start maxBuffered (p ++ [m])).Balanced ↔
        ¬ (reached start maxBuffered p).bridges m.1 = true) := by
    intro p m hb
    rw [reached_append]
    exact ingestOne_balanced (reached_settled start maxBuffered p)
      (by rw [reached_maxBuffered]; exact hcap) hb m.1 m.2 []
  constructor
  · intro h p m hp
    exact (hstep p m (h p ((List.prefix_append p [m]).trans hp))).mp (h _ hp)
  · intro h p
    induction p using List.reverseRecOn with
    | nil =>
      intro _
      rfl
    | append_singleton p m ih =>
      intro hp
      exact (hstep p m (ih ((List.prefix_append p [m]).trans hp))).mpr (h p m hp)

end GapTracker

/-- The counters of opened and closed gaps agree with the open gap after every message of a run
exactly when no message of the run is the expected one with its successor already buffered; then
they also agree after any calls with these messages. -/
theorem gapCounters_balance_iff (start : UInt64) (maxBuffered : Nat) (hcap : 1 ≤ maxBuffered)
    (ms : List Message) :
    ((∀ p, p <+: ms → (GapTracker.reached start maxBuffered p).Balanced) ↔
      ∀ p m, p ++ [m] <+: ms → ¬ (GapTracker.reached start maxBuffered p).bridges m.1 = true) ∧
    ((∀ p m, p ++ [m] <+: ms → ¬ (GapTracker.reached start maxBuffered p).bridges m.1 = true) →
      ∀ fuel ops t out, ops.flatMap GapTracker.Op.messages <+: ms →
        GapTracker.runOps fuel (GapTracker.withCapacity start maxBuffered) ops = some (t, out) →
        t.Balanced) := by
  have hiff := GapTracker.reached_balanced start hcap ms
  refine ⟨hiff, ?_⟩
  intro hsteps fuel ops t out hops hrun
  have ht : t = GapTracker.reached start maxBuffered (ops.flatMap GapTracker.Op.messages) :=
    GapTracker.runOps_some hrun
  rw [ht]
  exact hiff.mpr hsteps _ hops

/-- A gap that opens ahead of two missing messages, the first of which arrives. -/
theorem gapCounters_balance_open :
    (GapTracker.reached 1 4 [(3, [7]), (1, [9])]).Balanced :=
  ((gapCounters_balance_iff 1 4 (by decide) [(3, [7]), (1, [9])]).1.mpr
    (fun _ _ hp => Machine.steps_of_get
      (P := fun p m => ¬ (GapTracker.reached 1 4 p).bridges m.1 = true) (by decide) hp))
    _ List.prefix_rfl

/-- Bridging a gap: message 2 lets 3, 4 and 5 out, the buffer is empty and no gap is open, and the
gap counted open is never counted closed. -/
theorem gapCounters_miss_bridge :
    (GapTracker.reached 1 (16 * 1024)
        [(1, [1]), (3, [3]), (4, [4]), (5, [5]), (2, [2])]).openGap = none ∧
      (GapTracker.reached 1 (16 * 1024)
        [(1, [1]), (3, [3]), (4, [4]), (5, [5]), (2, [2])]).stats = ⟨2, 3, 1, 0, 0, 0⟩ ∧
      ¬ (GapTracker.reached 1 (16 * 1024)
        [(1, [1]), (3, [3]), (4, [4]), (5, [5]), (2, [2])]).Balanced := by
  decide

end Flowlab.Replay
