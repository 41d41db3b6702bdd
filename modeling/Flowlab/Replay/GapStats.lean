import Flowlab.Replay.GapTracker
import Flowlab.Framework.Machine

namespace Flowlab.Replay

open Std Framework

namespace GapTracker

/-- The expected message delivered, before the buffer is drained. -/
def deliverExpected (t : GapTracker) : GapTracker :=
  { t with
    expected := t.expected + 1
    stats := { t.stats with inOrderDelivered := t.stats.inOrderDelivered + 1 } }

/-- A forward message counted as opening a gap, when nothing is buffered. -/
def countOpened (t : GapTracker) : GapTracker :=
  if t.pending.isEmpty then
    { t with stats := { t.stats with gapsOpened := t.stats.gapsOpened + 1 } }
  else t

@[simp] theorem countOpened_expected (t : GapTracker) : t.countOpened.expected = t.expected := by
  simp only [countOpened]
  split_ifs <;> rfl

@[simp] theorem countOpened_pending (t : GapTracker) : t.countOpened.pending = t.pending := by
  simp only [countOpened]
  split_ifs <;> rfl

@[simp] theorem countOpened_maxBuffered (t : GapTracker) :
    t.countOpened.maxBuffered = t.maxBuffered := by
  simp only [countOpened]
  split_ifs <;> rfl

theorem countOpened_stats (t : GapTracker) :
    t.countOpened.stats = { t.stats with
      gapsOpened := t.stats.gapsOpened + if t.pending.isEmpty then 1 else 0 } := by
  simp only [countOpened]
  split_ifs
  · rfl
  · simp

/-- The five exits of `ingest_one`. -/
theorem ingestOne_cases (t : GapTracker) (seq : UInt64) (payload : List UInt8)
    (out : List Delivered) :
    (seq < t.expected ∧ (t.ingestOne seq payload out).1 =
      { t with stats := { t.stats with duplicatesIgnored := t.stats.duplicatesIgnored + 1 } }) ∨
    (seq = t.expected ∧ (t.ingestOne seq payload out).1 =
      (t.deliverExpected.drain t.pending.size (out ++ [⟨seq, payload⟩])).1) ∨
    (t.expected < seq ∧ t.maxBuffered ≤ t.pending.size ∧ (t.ingestOne seq payload out).1 =
      { t.countOpened with stats := { t.countOpened.stats with
        droppedOverflow := t.countOpened.stats.droppedOverflow + 1 } }) ∨
    (t.expected < seq ∧ t.pending.size < t.maxBuffered ∧ t.pending[seq]? ≠ none ∧
      (t.ingestOne seq payload out).1 =
      { t.countOpened with stats := { t.countOpened.stats with
        duplicatesIgnored := t.countOpened.stats.duplicatesIgnored + 1 } }) ∨
    (t.expected < seq ∧ t.pending.size < t.maxBuffered ∧ t.pending[seq]? = none ∧
      (t.ingestOne seq payload out).1 =
      { t.countOpened with pending := t.pending.insert seq payload }) := by
  by_cases hlt : seq < t.expected
  · exact Or.inl ⟨hlt, by rw [ingestOne, if_pos hlt]⟩
  · by_cases heq : seq = t.expected
    · exact Or.inr (Or.inl ⟨heq, by rw [ingestOne, if_neg hlt, if_pos heq]; rfl⟩)
    · have hgt : t.expected < seq := by
        have hne : seq.toNat ≠ t.expected.toNat := fun h => heq (UInt64.toNat_inj.mp h)
        rw [UInt64.lt_iff_toNat_lt] at hlt ⊢
        omega
      have hform : t.ingestOne seq payload out =
          if t.countOpened.maxBuffered ≤ t.countOpened.pending.size then
            ({ t.countOpened with stats := { t.countOpened.stats with
              droppedOverflow := t.countOpened.stats.droppedOverflow + 1 } }, out)
          else if t.countOpened.pending.contains seq then
            ({ t.countOpened with stats := { t.countOpened.stats with
              duplicatesIgnored := t.countOpened.stats.duplicatesIgnored + 1 } }, out)
          else ({ t.countOpened with
            pending := t.countOpened.pending.insert seq payload }, out) := by
        rw [ingestOne, if_neg hlt, if_neg heq]
        rfl
      have hcon : t.pending.contains seq = true ↔ t.pending[seq]? ≠ none := by
        rw [ExtTreeMap.contains_eq_isSome_getElem?, Option.isSome_iff_ne_none]
      rw [countOpened_pending, countOpened_maxBuffered] at hform
      refine Or.inr (Or.inr ?_)
      by_cases hfull : t.maxBuffered ≤ t.pending.size
      · refine Or.inl ⟨hgt, hfull, ?_⟩
        rw [hform, if_pos hfull]
      · refine Or.inr ?_
        by_cases hc : t.pending[seq]? = none
        · refine Or.inr ⟨hgt, Nat.not_le.mp hfull, hc, ?_⟩
          rw [hform, if_neg hfull, if_neg (fun h => hcon.mp h hc)]
        · refine Or.inl ⟨hgt, Nat.not_le.mp hfull, hc, ?_⟩
          rw [hform, if_neg hfull, if_pos (hcon.mpr hc)]

theorem drainStep_stats (t : GapTracker) (seq : UInt64) :
    (t.drainStep seq).stats = { t.stats with
      reorderedDelivered := t.stats.reorderedDelivered + 1
      gapsClosed := t.stats.gapsClosed +
        if ¬ (t.pending.erase seq).isEmpty = true ∧
          (t.drainStep seq).firstPending.map Prod.fst ≠ some (t.expected + 1) then 1 else 0 } := by
  have hfirst : (t.drainStep seq).firstPending = (t.pending.erase seq).toList.head? := by
    rw [firstPending, (drainStep_fields t seq).2.1]
  rw [hfirst]
  simp only [drainStep, firstPending]
  by_cases hempty : (t.pending.erase seq).isEmpty = true
  · simp [hempty]
  · by_cases hnext :
        (t.pending.erase seq).toList.head?.map Prod.fst = some (t.expected + 1)
    · simp [hempty, hnext]
    · simp [hempty, hnext]

/-- Every message counted by the exit it took, and the buffer. -/
def tally (t : GapTracker) : UInt64 :=
  t.stats.inOrderDelivered + t.stats.reorderedDelivered + t.stats.duplicatesIgnored +
    t.stats.droppedOverflow + UInt64.ofNat t.pending.size

/-- The same sum without wraparound. -/
def accounted (t : GapTracker) : Nat :=
  t.stats.inOrderDelivered.toNat + t.stats.reorderedDelivered.toNat +
    t.stats.duplicatesIgnored.toNat + t.stats.droppedOverflow.toNat + t.pending.size

theorem tally_toNat (t : GapTracker) : t.tally.toNat = t.accounted % 2 ^ 64 := by
  simp only [tally, accounted, UInt64.toNat_add, UInt64.toNat_ofNat']
  omega

theorem toNat_succ_le (a : UInt64) : (a + 1).toNat ≤ a.toNat + 1 := by
  rw [UInt64.toNat_add]
  exact Nat.mod_le _ _

/-- A turn of the drain loop moves a message from one column of the account to another. -/
theorem drainStep_tally (t : GapTracker) {seq : UInt64} {v : List UInt8}
    (h : t.pending[seq]? = some v) :
    (t.drainStep seq).tally = t.tally ∧ (t.drainStep seq).accounted ≤ t.accounted := by
  have hsize := FiniteMap.size_erase_bound t.pending seq v h
  have hle := toNat_succ_le t.stats.reorderedDelivered
  constructor
  · have hcast : UInt64.ofNat t.pending.size = UInt64.ofNat (t.pending.erase seq).size + 1 := by
      rw [← hsize, UInt64.ofNat_add]
      rfl
    simp only [tally, drainStep_stats, (drainStep_fields t seq).2.1, hcast]
    grind
  · simp only [accounted, drainStep_stats, (drainStep_fields t seq).2.1]
    omega

theorem drain_tally (fuel : Nat) (t : GapTracker) (out : List Delivered) :
    (t.drain fuel out).1.tally = t.tally ∧ (t.drain fuel out).1.accounted ≤ t.accounted := by
  induction fuel generalizing t out with
  | zero => exact ⟨rfl, Nat.le_refl _⟩
  | succ fuel ih =>
    simp only [drain]
    cases hf : t.firstPending with
    | none => exact ⟨rfl, Nat.le_refl _⟩
    | some m =>
      dsimp only
      split_ifs
      · obtain ⟨h1, h2⟩ := drainStep_tally t (firstPending_some hf).1
        obtain ⟨h3, h4⟩ := ih (t.drainStep m.1) (out ++ [⟨m.1, m.2⟩])
        exact ⟨h3.trans h1, h4.trans h2⟩
      · exact ⟨rfl, Nat.le_refl _⟩

/-- Whatever its exit, a message adds one to the account. -/
theorem ingestOne_tally (t : GapTracker) (seq : UInt64) (payload : List UInt8)
    (out : List Delivered) :
    (t.ingestOne seq payload out).1.tally = t.tally + 1 ∧
      (t.ingestOne seq payload out).1.accounted ≤ t.accounted + 1 := by
  have hdup := toNat_succ_le t.stats.duplicatesIgnored
  have hdrop := toNat_succ_le t.stats.droppedOverflow
  rcases ingestOne_cases t seq payload out with ⟨_, h⟩ | ⟨_, h⟩ | ⟨_, _, h⟩ | ⟨_, _, _, h⟩ |
    ⟨_, _, hnew, h⟩
  case inl =>
    rw [h]
    simp only [tally, accounted]
    exact ⟨by grind, by omega⟩
  case inr.inl =>
    have hord := toNat_succ_le t.stats.inOrderDelivered
    obtain ⟨h1, h2⟩ := drain_tally t.pending.size t.deliverExpected (out ++ [⟨seq, payload⟩])
    rw [h, h1]
    refine ⟨?_, h2.trans ?_⟩
    · simp only [tally, deliverExpected]
      grind
    · simp only [accounted, deliverExpected]
      omega
  case inr.inr.inl =>
    rw [h]
    simp only [tally, accounted, countOpened_stats, countOpened_pending]
    exact ⟨by grind, by omega⟩
  case inr.inr.inr.inl =>
    rw [h]
    simp only [tally, accounted, countOpened_stats, countOpened_pending]
    exact ⟨by grind, by omega⟩
  case inr.inr.inr.inr =>
    rw [h]
    simp only [tally, accounted, countOpened_stats, FiniteMap.size_insert_new _ _ _ hnew,
      UInt64.ofNat_add]
    exact ⟨by grind, by omega⟩

theorem ingestAll_tally (ms : List Message) (t : GapTracker) (out : List Delivered) :
    (t.ingestAll ms out).1.tally = t.tally + UInt64.ofNat ms.length ∧
      (t.ingestAll ms out).1.accounted ≤ t.accounted + ms.length := by
  induction ms generalizing t out with
  | nil => simp [ingestAll]
  | cons m ms ih =>
    obtain ⟨h1, h2⟩ := ingestOne_tally t m.1 m.2 out
    obtain ⟨h3, h4⟩ := ih (t.ingestOne m.1 m.2 out).1 (t.ingestOne m.1 m.2 out).2
    rw [ingestAll_cons, List.length_cons, UInt64.ofNat_add, h3, h1]
    exact ⟨by grind, by omega⟩

/-- A frame's loop that returns has ingested the frame's messages. -/
theorem ingestLoop_some {n fuel : Nat} {it : MoldMessageIter} (hr : it.remaining = n)
    {t : GapTracker} {out : List Delivered} {r : GapTracker × List Delivered}
    (h : ingestLoop fuel it t out = some r) :
    r = t.ingestAll (recordsOf n it.nextSeq (it.body.drop it.offset)) out := by
  have hw : WholeRecords n (it.body.drop it.offset) := by
    by_contra hw
    rw [← hr] at hw
    rw [ingestLoop_cut hw] at h
    exact absurd h (by simp)
  induction n generalizing fuel it t out with
  | zero =>
    cases fuel with
    | zero => exact absurd h (by simp [ingestLoop])
    | succ fuel =>
      rw [ingestLoop, MoldMessageIter.next_done hr] at h
      exact (Option.some.inj h).symm
  | succ n ih =>
    cases fuel with
    | zero => exact absurd h (by simp [ingestLoop])
    | succ fuel =>
      obtain ⟨h1, hrest⟩ := (wholeRecords_succ n _).mp hw
      rw [← MoldMessageIter.advance_drop] at hrest
      have hadv : it.advance.remaining = n := by
        change it.remaining - 1 = n
        omega
      rw [ingestLoop, MoldMessageIter.next_ok (by omega) h1] at h
      have hrec := ih hadv h hrest
      rw [MoldMessageIter.advance_drop] at hrec
      exact hrec

theorem ingest_some {fuel : Nat} {t : GapTracker} {f : MoldFrame} {r : GapTracker × List Delivered}
    (h : t.ingest fuel f = some r) : r = t.ingestAll f.records [] := by
  have hr : r = t.ingestAll (recordsOf f.messages.remaining f.messages.nextSeq
      (f.messages.body.drop f.messages.offset)) [] := ingestLoop_some rfl h
  rwa [show f.messages.body.drop f.messages.offset = f.body from List.drop_zero] at hr

/-- Whatever calls were made, the tracker they leave is the one their messages leave. -/
theorem runOps_some {fuel : Nat} {t : GapTracker} {ops : List Op} {r : GapTracker × List Delivered}
    (h : runOps fuel t ops = some r) : r.1 = (t.ingestAll (ops.flatMap Op.messages) []).1 := by
  induction ops generalizing t r with
  | nil =>
    rw [← Option.some.inj h]
    rfl
  | cons op ops ih =>
    rw [List.flatMap_cons, ingestAll_append, ingestAll_out _ (ops.flatMap Op.messages)]
    cases op with
    | single seq payload =>
      rw [runOps] at h
      obtain ⟨q, hq, rfl⟩ := Option.map_eq_some_iff.mp h
      exact ih (r := q) hq
    | frame f =>
      rw [runOps] at h
      cases hi : t.ingest fuel f with
      | none =>
        rw [hi] at h
        exact absurd h (by simp)
      | some s =>
        rw [hi] at h
        obtain ⟨q, hq, rfl⟩ := Option.map_eq_some_iff.mp h
        rw [ingest_some hi] at hq
        exact ih (r := q) hq

/-- The tracker that `with_capacity` made, after some messages. -/
def reached (start : UInt64) (maxBuffered : Nat) (ms : List Message) : GapTracker :=
  ((withCapacity start maxBuffered).ingestAll ms []).1

theorem reached_append (start : UInt64) (maxBuffered : Nat) (ms : List Message) (m : Message) :
    reached start maxBuffered (ms ++ [m]) =
      ((reached start maxBuffered ms).ingestOne m.1 m.2 []).1 := by
  simp only [reached]
  rw [ingestAll_append, ingestAll_cons, ingestOne_out]
  rfl

end GapTracker

/-- After any calls the messages ingested are those delivered in order, those delivered from the
buffer, the duplicates, the dropped and the buffered: as counters always, and as numbers below
2^64 messages. -/
theorem gapTracker_conserves (fuel : Nat) (start : UInt64) (maxBuffered : Nat)
    (ops : List GapTracker.Op) :
    ∀ t out, GapTracker.runOps fuel (GapTracker.withCapacity start maxBuffered) ops =
        some (t, out) →
      UInt64.ofNat (ops.flatMap GapTracker.Op.messages).length =
        t.stats.inOrderDelivered + t.stats.reorderedDelivered + t.stats.duplicatesIgnored +
          t.stats.droppedOverflow + UInt64.ofNat t.pending.size ∧
      ((ops.flatMap GapTracker.Op.messages).length < 2 ^ 64 →
        (ops.flatMap GapTracker.Op.messages).length =
          t.stats.inOrderDelivered.toNat + t.stats.reorderedDelivered.toNat +
            t.stats.duplicatesIgnored.toNat + t.stats.droppedOverflow.toNat + t.pending.size) := by
  intro t out hrun
  obtain ⟨htally, hle⟩ := GapTracker.ingestAll_tally (ops.flatMap GapTracker.Op.messages)
    (GapTracker.withCapacity start maxBuffered) []
  have hzero : (GapTracker.withCapacity start maxBuffered).tally = 0 := by
    simp [GapTracker.tally, GapTracker.withCapacity]
  have hnone : (GapTracker.withCapacity start maxBuffered).accounted = 0 := by
    simp [GapTracker.accounted, GapTracker.withCapacity]
  rw [← GapTracker.runOps_some hrun, hzero, UInt64.zero_add] at htally
  rw [← GapTracker.runOps_some hrun, hnone, Nat.zero_add] at hle
  refine ⟨htally.symm, ?_⟩
  intro hfew
  have hmod := congrArg UInt64.toNat htally
  rw [GapTracker.tally_toNat, UInt64.toNat_ofNat', Nat.mod_eq_of_lt hfew] at hmod
  change _ = t.accounted
  change t.accounted ≤ _ at hle
  rw [Nat.mod_eq_of_lt (hle.trans_lt hfew)] at hmod
  exact hmod.symm

/-- A forward message, a duplicate of it, one that finds the buffer full, and a frame with the
missing one. -/
theorem gapTracker_conserves_drain :
    ∃ t out, GapTracker.runOps (2 ^ 16) (GapTracker.withCapacity 1 1) [.single 2 [5],
        .single 2 [5], .single 3 [6], .frame ⟨⟨List.replicate 10 0x20, 1, 1⟩, [0, 1, 9]⟩] =
          some (t, out) ∧
      4 = t.stats.inOrderDelivered.toNat + t.stats.reorderedDelivered.toNat +
        t.stats.duplicatesIgnored.toNat + t.stats.droppedOverflow.toNat + t.pending.size := by
  have hrun := GapTracker.runOps_eq (Nat.le_refl _) (GapTracker.withCapacity 1 1)
    [.single 2 [5], .single 2 [5], .single 3 [6],
      .frame ⟨⟨List.replicate 10 0x20, 1, 1⟩, [0, 1, 9]⟩] (by
    intro op hop
    fin_cases hop
    · trivial
    · trivial
    · trivial
    · exact Or.inr (Or.inr ⟨by decide, by decide, trivial⟩))
  exact ⟨_, _, hrun, (gapTracker_conserves (2 ^ 16) 1 1 _ _ _ hrun).2 (by decide)⟩

end Flowlab.Replay
