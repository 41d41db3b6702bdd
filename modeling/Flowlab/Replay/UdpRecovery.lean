import Flowlab.Replay.UdpSession

namespace Flowlab.Replay

open Framework Std

namespace GapTracker

/-- The tracker has delivered the number or holds it. -/
def Held (t : GapTracker) (seq : UInt64) : Prop :=
  seq.toNat < t.expected.toNat ∨ t.pending[seq]? ≠ none

variable {start gap seq : UInt64} {known ms : List Message} {out : List Delivered} {t : GapTracker}

theorem not_held_expected (hs : t.Settled) : ¬ t.Held t.expected := by
  rintro (h | h)
  · exact lt_irrefl _ h
  · obtain ⟨v, hv⟩ := Option.ne_none_iff_exists'.mp h
    exact lt_irrefl _ (hs _ v hv)

theorem Tracks.held (h : Tracks start gap known out t) {m : Message} (hm : m ∈ known) :
    t.Held m.1 := h.known m hm

theorem expected_ingestAll (ms : List Message) (h : Tracks start gap known out t) (hs : t.Settled)
    (hgap : ∀ m ∈ ms, m.1 ≠ gap) :
    t.expected.toNat ≤ (t.ingestAll ms []).1.expected.toNat := by
  obtain ⟨h', hs'⟩ := ingestAll_tracks ms h hs hgap
  have hlen := congrArg List.length h.seqs
  have hlen' := congrArg List.length h'.seqs
  simp only [List.length_map, List.length_range', List.length_append] at hlen hlen'
  have hlower := h.lower
  have hlower' := h'.lower
  omega

/-- What is held stays held until it is delivered. -/
theorem held_ingestAll (h : Tracks start gap known out t) (hs : t.Settled)
    (hgap : ∀ m ∈ ms, m.1 ≠ gap) (hheld : t.Held seq) : (t.ingestAll ms []).1.Held seq := by
  obtain ⟨h', hs'⟩ := ingestAll_tracks ms h hs hgap
  rcases hheld with hlt | hk
  · exact .inl (hlt.trans_le (expected_ingestAll ms h hs hgap))
  · obtain ⟨v, hv⟩ := Option.ne_none_iff_exists'.mp hk
    have hmem := mem_of_firstPayload (h.reach seq v hv).2.2
    exact h'.held (List.mem_append_left _ hmem)

/-- A message that is not ahead of the tracker is held afterwards. -/
theorem held_ingestSingle (h : Tracks start gap known out t) (hs : t.Settled)
    (payload : List UInt8) (hgap : seq ≠ gap) (hle : seq.toNat ≤ t.expected.toNat) :
    seq.toNat < (t.ingestAll [(seq, payload)] []).1.expected.toNat := by
  obtain ⟨h', hs'⟩ := ingestAll_tracks [(seq, payload)] h hs (by simpa using hgap)
  have hmono := (expected_ingestAll [(seq, payload)] h hs (by simpa using hgap))
  have hover : t.overflows seq = false := by
    simp only [overflows, Bool.and_eq_false_iff, decide_eq_false_iff_not]
    exact .inl (by rw [UInt64.lt_iff_toNat_lt]; omega)
  have hheld := h'.held (m := (seq, payload)) (by simp [kept, hover])
  by_contra hge
  have heq : seq = (t.ingestAll [(seq, payload)] []).1.expected :=
    UInt64.toNat_inj.mp (by omega)
  exact not_held_expected hs' (heq ▸ hheld)

end GapTracker

namespace UdpSession

variable {x : Session} {s t : UdpSession} {maxForwardBuffer : Nat}

/-- The numbers of the answers that reach the handler, in order. -/
def answered (x : Session) : UdpSession → List UdpAct → List UInt64
  | _, [] => []
  | s, a :: acts =>
    let taken := match a with
      | .answer i => (s.answers[i]?.map Prod.fst).toList
      | _ => []
    match s.step x a with
    | some t => taken ++ answered x t acts
    | none => taken

/-- What a step does to the handler. -/
theorem step_handler (h : Inv x maxForwardBuffer s) {a : UdpAct} (ht : s.step x a = some t) :
    ∃ ms, (∀ m ∈ ms, m ∈ x.upTo s.sent) ∧
      t.handler.tracker = (s.handler.tracker.ingestAll ms []).1 ∧
      ∀ i, a = .answer i → ∃ m, s.answers[i]? = some m ∧ ms = [m] := by
  have hsame : s.handler.tracker = (s.handler.tracker.ingestAll [] []).1 := rfl
  cases a <;> simp only [step] at ht
  case answer i =>
    split at ht
    · rename_i m hi
      cases ht
      refine ⟨[m], ?_, rfl, ?_⟩
      · intro n hn
        rw [List.mem_singleton.mp hn]
        exact h.answers m (List.mem_of_getElem? hi)
      · rintro _ ⟨⟩
        exact ⟨m, hi, rfl⟩
    · cases ht
  case deliver i =>
    split at ht
    · rename_i bytes hi
      obtain ⟨ms, hms, hu⟩ := call_datagram (h.flight bytes (List.mem_of_getElem? hi))
      rw [hu] at ht
      cases ht
      exact ⟨ms, hms, rfl, by simp⟩
    · cases ht
  case stray bytes =>
    split at ht
    · split_ifs at ht
      cases ht
      exact ⟨[], by simp, hsame, by simp⟩
    · cases ht
  case send n =>
    split_ifs at ht
    cases ht
    exact ⟨[], by simp, hsame, by simp⟩
  case request =>
    split at ht
    · cases ht
      exact ⟨[], by simp, hsame, by simp⟩
    · cases ht
  all_goals
    cases ht
    exact ⟨[], by simp, hsame, by simp⟩

theorem held_step (h : Inv x maxForwardBuffer s) {a : UdpAct} (ht : s.step x a = some t)
    (seq : UInt64) :
    s.handler.tracker.expected.toNat ≤ t.handler.tracker.expected.toNat ∧
      (s.handler.tracker.Held seq → t.handler.tracker.Held seq) := by
  obtain ⟨known, htracks, -⟩ := h.tracks
  obtain ⟨ms, hms, htracker, -⟩ := step_handler h ht
  rw [htracker]
  have hgap : ∀ m ∈ ms, m.1 ≠ x.endSeq := fun m hm => x.ne_endSeq (hms m hm)
  exact ⟨GapTracker.expected_ingestAll ms htracks h.settled hgap,
    GapTracker.held_ingestAll htracks h.settled hgap⟩

theorem held_run {acts : List UdpAct} (h : Inv x maxForwardBuffer s)
    (ht : Steps.run (step x) s acts = some t) {seq : UInt64}
    (hheld : s.handler.tracker.Held seq) : t.handler.tracker.Held seq :=
  Steps.run_relates (R := fun s t : UdpSession => s.handler.tracker.Held seq →
      t.handler.tracker.Held seq) (P := Inv x maxForwardBuffer) (fun _ h => h)
    (fun h h' hs => h' (h hs)) (fun hs hu => hs.step hu) (fun hs hu => (held_step hs hu seq).2)
    h ht hheld

/-- Answers that arrive in order are taken up one after the other, whatever other step comes between
them. -/
theorem expected_answered {acts : List UdpAct} {c n : Nat} (h : Inv x maxForwardBuffer s)
    (ht : Steps.run (step x) s acts = some t) (hc : c ≤ s.handler.tracker.expected.toNat)
    (hsub : (List.range' c n).Sublist ((answered x s acts).map UInt64.toNat)) :
    c + n ≤ t.handler.tracker.expected.toNat := by
  induction acts generalizing s c n with
  | nil =>
    cases ht
    have hnil := List.eq_nil_of_sublist_nil hsub
    rw [List.range'_eq_nil_iff.mp hnil]
    exact hc
  | cons a acts ih =>
    obtain ⟨u, hu, hrest⟩ := Steps.run_cons_some ht
    have hinv := h.step hu
    have hmono := (held_step h hu 0).1
    simp only [answered, hu] at hsub
    cases a
    case answer i =>
      obtain ⟨ms, hms, htracker, hone⟩ := step_handler h hu
      obtain ⟨m, hm, rfl⟩ := hone i rfl
      simp only [hm, Option.map_some, Option.toList_some, List.cons_append, List.nil_append,
        List.map_cons] at hsub
      cases n with
      | zero => exact ih hinv hrest (hc.trans hmono) (List.nil_sublist _)
      | succ n =>
        rw [List.range'_succ] at hsub
        rcases List.sublist_cons_iff.mp hsub with hskip | ⟨l, hl, htake⟩
        · exact ih hinv hrest (hc.trans hmono) (by rwa [List.range'_succ])
        · obtain ⟨hcm, rfl⟩ := List.cons.inj hl
          obtain ⟨known, htracks, -⟩ := h.tracks
          have hpast := GapTracker.held_ingestSingle htracks h.settled m.2
            (x.ne_endSeq (hms m (by simp))) (hcm ▸ hc)
          rw [← htracker] at hpast
          have hstep := ih hinv hrest (show c + 1 ≤ _ by omega) htake
          omega
    all_goals exact ih hinv hrest (hc.trans hmono) (by simpa using hsub)

/-- What the tracker has passed is in the sink at its place. -/
theorem Inv.sink_of_lt (h : Inv x maxForwardBuffer s) {i : Nat}
    (hi : x.first.toNat + i < s.handler.tracker.expected.toNat) :
    ∃ p, x.messages[i]? = some p ∧ s.sink[i]? = some ⟨x.first + UInt64.ofNat i, p⟩ := by
  have hlen : i < s.sink.length := by
    rw [h.length_sink, reached]
    omega
  obtain ⟨d, hd⟩ : ∃ d, s.sink[i]? = some d := ⟨_, List.getElem?_eq_getElem hlen⟩
  obtain ⟨-, hp, hseq⟩ := h.sink_get hd
  exact ⟨d.payload, hp, by rw [hd, ← hseq]⟩

/-- A number that is held once the tracker stands at it or behind it is passed. -/
theorem Inv.lt_of_held (h : Inv x maxForwardBuffer s) {seq : UInt64}
    (hheld : s.handler.tracker.Held seq) (hle : seq.toNat ≤ s.handler.tracker.expected.toNat) :
    seq.toNat < s.handler.tracker.expected.toNat := by
  by_contra hge
  have heq : seq = s.handler.tracker.expected := UInt64.toNat_inj.mp (by omega)
  exact GapTracker.not_held_expected h.settled (heq ▸ hheld)

/-- Once the answers to a gap have arrived in order, with whatever comes between them of the
session's own datagrams and of those that `parse` refuses, the sink has the messages of the gap and
the one that was buffered behind it. -/
theorem gap_closes {acts : List UdpAct} {gap : UInt64 × UInt64}
    (h : Reachable x maxForwardBuffer s) (hgap : s.handler.openGap = some gap)
    (ht : Steps.run (step x) s acts = some t)
    (hsub : (List.range' gap.1.toNat (gap.2.toNat + 1 - gap.1.toNat)).Sublist
      ((answered x s acts).map UInt64.toNat)) :
    ∀ i, x.first.toNat + i ≤ gap.2.toNat + 1 →
      ∃ p, x.messages[i]? = some p ∧ t.sink[i]? = some ⟨x.first + UInt64.ofNat i, p⟩ := by
  have hinv := h.inv
  have hend : Inv x maxForwardBuffer t :=
    Steps.run_keeps (fun hs hu => Inv.step hs hu) hinv ht
  obtain ⟨hfirst, k, v, hk, hlast, hlt⟩ := openGap_some hgap
  have hreach := expected_answered hinv ht (hfirst ▸ Nat.le_refl _) hsub
  have hheld : t.handler.tracker.Held k := held_run hinv ht (.inr (by simp [hk]))
  have hpast := hend.lt_of_held hheld (by omega)
  intro i hi
  exact hend.sink_of_lt (by omega)

/-- One message is lost and asked for; while the answer is on its way a later datagram comes in. -/
def recoverActs : List UdpAct :=
  [.request, .send 1, .timeout, .answer 0, .deliver 2, .answer 0]

theorem gap_closes_one :
    ∃ s t, Steps.run (step twoDatagrams) (start twoDatagrams 4)
        [.send 1, .heartbeat, .send 1, .deliver 2] = some s ∧
      Steps.run (step twoDatagrams) s recoverActs = some t ∧
      ∃ p, twoDatagrams.messages[1]? = some p ∧ t.sink[1]? = some ⟨8, p⟩ := by
  have hrun : ∃ s ∈ Steps.run (step twoDatagrams) (start twoDatagrams 4)
        [.send 1, .heartbeat, .send 1, .deliver 2],
      s.handler.openGap = some (7, 7) ∧
        (List.range' 7 1).Sublist ((answered twoDatagrams s recoverActs).map UInt64.toNat) ∧
        ∃ t ∈ Steps.run (step twoDatagrams) s recoverActs, t.sent = 3 := by
    decide
  obtain ⟨s, hs, hgap, hsub, t, ht, -⟩ := hrun
  exact ⟨s, t, hs, ht, gap_closes ⟨_, hs⟩ hgap ht hsub 1 (by decide)⟩

/-- The numbers between two bounds, out of a run of numbers. -/
theorem filter_range' {f n a b : Nat} (ha : f ≤ a) (hab : a ≤ b + 1) (hb : b < f + n) :
    (List.range' f n).filter (fun i => a ≤ i ∧ i ≤ b) = List.range' a (b + 1 - a) := by
  obtain ⟨i, rfl⟩ := Nat.exists_eq_add_of_le ha
  obtain ⟨j, hj⟩ := Nat.exists_eq_add_of_le hab
  obtain ⟨l, rfl⟩ : ∃ l, n = i + (j + l) := ⟨f + n - (b + 1), by omega⟩
  have hj' : b + 1 - (f + i) = j := by omega
  rw [hj', ← List.range'_append_1, ← List.range'_append_1, List.filter_append, List.filter_append]
  have hleft : (List.range' f i).filter (fun k => decide (f + i ≤ k ∧ k ≤ b)) = [] := by
    rw [List.filter_eq_nil_iff]
    intro k hk
    have hk := List.mem_range'_1.mp hk
    rw [decide_eq_true_eq]
    omega
  have hmid : (List.range' (f + i) j).filter (fun k => decide (f + i ≤ k ∧ k ≤ b)) =
      List.range' (f + i) j := by
    rw [List.filter_eq_self]
    intro k hk
    have hk := List.mem_range'_1.mp hk
    rw [decide_eq_true_eq]
    omega
  have hright : (List.range' (f + i + j) l).filter (fun k => decide (f + i ≤ k ∧ k ≤ b)) = [] := by
    rw [List.filter_eq_nil_iff]
    intro k hk
    have hk := List.mem_range'_1.mp hk
    rw [decide_eq_true_eq]
    omega
  rw [hleft, hmid, hright, List.nil_append, List.append_nil]

theorem numbers (x : Session) :
    (Replay.numbered x.first x.messages).map (fun m => m.1.toNat) =
      List.range' x.first.toNat x.messages.length := by
  apply List.ext_getElem?
  intro i
  rw [List.getElem?_map, numbered_get]
  cases hi : x.messages[i]? with
  | none =>
    have hlen := List.getElem?_eq_none_iff.mp hi
    simp [hlen]
  | some p =>
    have hlen := (List.getElem?_eq_some_iff.mp hi).1
    simp only [Option.map_some, x.toNat_seq hlen.le, List.getElem?_range' hlen, Nat.one_mul]

/-- The rewinder has everything that a gap asks for. -/
theorem Inv.asked_numbers (h : Inv x maxForwardBuffer s) {gap : UInt64 × UInt64}
    (hgap : s.handler.openGap = some gap) :
    (UdpSession.asked x gap).map (fun m => m.1.toNat) =
      List.range' gap.1.toNat (gap.2.toNat + 1 - gap.1.toNat) := by
  obtain ⟨hfirst, k, v, hk, hlast, hlt⟩ := openGap_some hgap
  obtain ⟨known, htracks, -⟩ := h.tracks
  obtain ⟨j, -, hlen, -, hseq⟩ := x.toNat_of_mem (h.mem_of_pending hk)
  have hlower := htracks.lower
  rw [← hfirst] at hlower hlt
  dsimp only at hseq
  have hrange : (List.range' x.first.toNat x.messages.length).filter
      (fun i => gap.1.toNat ≤ i ∧ i ≤ gap.2.toNat) =
        List.range' gap.1.toNat (gap.2.toNat + 1 - gap.1.toNat) :=
    filter_range' hlower (by omega) (by omega)
  rw [← hrange, ← numbers, List.filter_map, UdpSession.asked]
  congr 2

/-- Answers always arrive, and leave the answers that are on their way. -/
theorem run_answers (h : Inv x maxForwardBuffer s) {ns : List Nat}
    (hns : ∀ i ∈ ns, i < s.answers.length) :
    ∃ t, Steps.run (step x) s (ns.map .answer) = some t ∧
      t.handler.tracker =
        (s.handler.tracker.ingestAll (ns.filterMap fun i => s.answers[i]?) []).1 ∧
      t.sent = s.sent ∧
      answered x s (ns.map .answer) = (ns.filterMap fun i => s.answers[i]?).map Prod.fst := by
  induction ns generalizing s with
  | nil => exact ⟨s, rfl, rfl, rfl, rfl⟩
  | cons i ns ih =>
    obtain ⟨m, hm⟩ : ∃ m, s.answers[i]? = some m :=
      ⟨_, List.getElem?_eq_getElem (hns i List.mem_cons_self)⟩
    have hu : s.step x (.answer i) = some { s with
        handler := (s.handler.ingestRetransmit m.1 m.2).1
        sink := s.sink ++ (s.handler.ingestRetransmit m.1 m.2).2 } := by
      simp only [step, hm]
    obtain ⟨t, ht, htail, hsent, hseqs⟩ := ih (h.step hu)
      (fun j hj => hns j (List.mem_cons_of_mem i hj))
    refine ⟨t, ?_, ?_, hsent, ?_⟩
    · rw [List.map_cons, Steps.run_cons, hu]
      exact ht
    · rw [htail, List.filterMap_cons_some hm, GapTracker.ingestAll_cons,
        GapTracker.ingestAll_out _ _ (GapTracker.ingestOne _ _ _ _).2]
      rfl
    · simp only [List.map_cons, answered, hu, hm, hseqs, List.filterMap_cons_some hm]
      rfl

theorem filterMap_behind {α : Type*} (l l' : List α) :
    (List.range' l.length l'.length).filterMap (fun i => (l ++ l')[i]?) = l' := by
  induction l' generalizing l with
  | nil => rfl
  | cons a l' ih =>
    have hnext := ih (l ++ [a])
    rw [List.length_append, List.length_singleton, List.append_assoc, List.singleton_append] at hnext
    rw [List.length_cons, List.range'_succ, List.filterMap_cons_some (by simp : _ = some a), hnext]

/-- What the caller does about a gap: it asks, and takes the answers in their order. -/
def askAndTake (x : Session) (s : UdpSession) (gap : UInt64 × UInt64) : List UdpAct :=
  .request :: (List.range' s.answers.length (UdpSession.asked x gap).length).map .answer

/-- The caller's loop, with what it does: as long as a gap is open, ask and take the answers. `none`
is a gap that is open after so many rounds. -/
def recoverLoop (x : Session) : Nat → UdpSession → Option (List UdpAct × UdpSession)
  | 0, s => if s.handler.openGap = none then some ([], s) else none
  | rounds + 1, s =>
    match s.handler.openGap with
    | none => some ([], s)
    | some gap => do
      let t ← Steps.run (step x) s (s.askAndTake x gap)
      let r ← recoverLoop x rounds t
      pure (s.askAndTake x gap ++ r.1, r.2)

/-- The answers to a gap are taken up to its end. -/
theorem run_askAndTake (h : Inv x maxForwardBuffer s) {gap : UInt64 × UInt64}
    (hgap : s.handler.openGap = some gap) :
    ∃ t, Steps.run (step x) s (s.askAndTake x gap) = some t ∧ t.sent = s.sent ∧
      t.handler.tracker = (s.handler.tracker.ingestAll (UdpSession.asked x gap) []).1 ∧
      gap.2.toNat + 1 ≤ t.handler.tracker.expected.toNat := by
  let u : UdpSession := { s with answers := s.answers ++ UdpSession.asked x gap }
  have hu : s.step x .request = some u := by
    simp only [step, hgap]
    rfl
  let ns := List.range' s.answers.length (UdpSession.asked x gap).length
  have hns : ∀ i ∈ ns, i < u.answers.length := by
    intro i hi
    have hi := List.mem_range'_1.mp hi
    rw [List.length_append]
    omega
  obtain ⟨t, ht, htracker, hsent, hseqs⟩ := run_answers (h.step hu) hns
  have hall : ns.filterMap (fun i => u.answers[i]?) = UdpSession.asked x gap :=
    filterMap_behind s.answers (UdpSession.asked x gap)
  rw [hall] at htracker hseqs
  refine ⟨t, by rw [askAndTake, Steps.run_cons, hu]; exact ht, hsent, htracker, ?_⟩
  obtain ⟨hfirst, k, v, -, hlast, hlt⟩ := openGap_some hgap
  have hsub : (List.range' gap.1.toNat (gap.2.toNat + 1 - gap.1.toNat)).Sublist
      ((answered x u (ns.map .answer)).map UInt64.toNat) := by
    rw [hseqs, ← h.asked_numbers hgap, List.map_map]
    exact List.Sublist.refl _
  have hpast := expected_answered (h.step hu) ht (hfirst ▸ Nat.le_refl _) hsub
  omega

/-- What is still buffered behind the answers to a gap was buffered before. -/
theorem Inv.pending_answered (h : Inv x maxForwardBuffer s) {gap : UInt64 × UInt64}
    (hgap : s.handler.openGap = some gap) (hend : Inv x maxForwardBuffer t)
    (htracker : t.handler.tracker =
      (s.handler.tracker.ingestAll (UdpSession.asked x gap) []).1)
    (hreach : gap.2.toNat + 1 ≤ t.handler.tracker.expected.toNat) {j : UInt64} {w : List UInt8}
    (hw : t.handler.tracker.pending[j]? = some w) : s.handler.tracker.pending[j]? ≠ none := by
  obtain ⟨known, htracks, -⟩ := h.tracks
  have hasked : ∀ m ∈ UdpSession.asked x gap, m.1 ≠ x.endSeq := fun m hm =>
    x.ne_endSeq (h.asked hgap m hm)
  obtain ⟨htracks', -⟩ := GapTracker.ingestAll_tracks _ htracks h.settled hasked
  have hahead := hend.settled j w hw
  rw [htracker] at hw
  have hmem := mem_of_firstPayload (htracks'.reach j w hw).2.2
  rcases List.mem_append.mp hmem with hmem | hmem
  · rcases htracks.known _ hmem with hold | hold
    · have hmono := GapTracker.expected_ingestAll _ htracks h.settled hasked
      rw [← htracker] at hmono
      dsimp only at hold
      omega
    · exact hold
  · have hin : j.toNat ∈ (UdpSession.asked x gap).map (fun m => m.1.toNat) :=
      List.mem_map.mpr ⟨_, GapTracker.mem_of_mem_kept hmem, rfl⟩
    rw [h.asked_numbers hgap] at hin
    have hin := List.mem_range'_1.mp hin
    omega

/-- One request with its answers takes up a buffered message and buffers none. -/
theorem recover_round (h : Inv x maxForwardBuffer s) {gap : UInt64 × UInt64}
    (hgap : s.handler.openGap = some gap) :
    ∃ t, Steps.run (step x) s (s.askAndTake x gap) = some t ∧ t.sent = s.sent ∧
      t.handler.tracker.pending.size < s.handler.tracker.pending.size := by
  obtain ⟨t, ht, hsent, htracker, hreach⟩ := run_askAndTake h hgap
  refine ⟨t, ht, hsent, ?_⟩
  obtain ⟨-, k, v, hk, hlast, -⟩ := openGap_some hgap
  have hend : Inv x maxForwardBuffer t := Steps.run_keeps (fun hs hv => Inv.step hs hv) h ht
  have hheld : t.handler.tracker.Held k := held_run h ht (.inr (by simp [hk]))
  have hpast := hend.lt_of_held hheld (by omega)
  have hkeys : t.handler.tracker.pending.keys ⊆ (s.handler.tracker.pending.erase k).keys := by
    intro j hj
    obtain ⟨w, hw⟩ := Option.isSome_iff_exists.mp
      (ExtTreeMap.isSome_getElem?_iff_mem.mpr (ExtTreeMap.mem_keys.mp hj))
    have hahead := hend.settled j w hw
    have hne : j ≠ k := by
      rintro rfl
      omega
    apply ExtTreeMap.mem_keys.mpr
    rw [← ExtTreeMap.isSome_getElem?_iff_mem, FiniteMap.get_erase, if_neg hne]
    exact Option.isSome_iff_ne_none.mpr (h.pending_answered hgap hend htracker hreach hw)
  have hlen := (List.subperm_of_subset ExtTreeMap.nodup_keys hkeys).length_le
  rw [ExtTreeMap.length_keys, ExtTreeMap.length_keys] at hlen
  have hsize := FiniteMap.size_erase_bound _ k v hk
  omega

/-- Without a gap nothing is buffered. -/
theorem Inv.pending_of_openGap (h : Inv x maxForwardBuffer s) (hgap : s.handler.openGap = none)
    (k : UInt64) : s.handler.tracker.pending[k]? = none := by
  have hmin : s.handler.tracker.pending.minKey? = none := by
    rw [UdpFeedHandler.openGap, GapTracker.openGap_eq h.settled, Option.map_eq_none_iff] at hgap
    exact hgap
  have hempty := ExtTreeMap.minKey?_eq_none_iff.mp hmin
  rw [hempty]
  exact ExtTreeMap.getElem?_empty

theorem recoverLoop_done (hgap : s.handler.openGap = none) (n : Nat) :
    recoverLoop x n s = some ([], s) := by
  cases n with
  | zero => rw [recoverLoop, if_pos hgap]
  | succ n => rw [recoverLoop, hgap]

theorem count_askAndTake (s : UdpSession) (gap : UInt64 × UInt64) :
    (s.askAndTake x gap).count .request = 1 := by
  rw [askAndTake, List.count_cons_self, List.count_eq_zero.mpr (by simp)]

/-- A buffered message pays for every round of the loop. -/
theorem recoverLoop_ends {k : Nat} (h : Inv x maxForwardBuffer s)
    (hk : s.handler.tracker.pending.size ≤ k) :
    ∃ acts t, (∀ n, k ≤ n → recoverLoop x n s = some (acts, t)) ∧
      Steps.run (step x) s acts = some t ∧ acts.count .request ≤ k ∧
      t.sent = s.sent ∧ t.handler.openGap = none := by
  induction k generalizing s with
  | zero =>
    cases hgap : s.handler.openGap with
    | none =>
      exact ⟨[], s, fun n _ => recoverLoop_done hgap n, rfl, Nat.zero_le _, rfl, hgap⟩
    | some gap =>
      obtain ⟨t, -, -, hless⟩ := recover_round h hgap
      omega
  | succ k ih =>
    cases hgap : s.handler.openGap with
    | none =>
      exact ⟨[], s, fun n _ => recoverLoop_done hgap n, rfl, Nat.zero_le _, rfl, hgap⟩
    | some gap =>
      obtain ⟨u, hu, hsent, hless⟩ := recover_round h hgap
      have hinv : Inv x maxForwardBuffer u := Steps.run_keeps (fun hs hv => Inv.step hs hv) h hu
      obtain ⟨acts, t, hloop, ht, hcount, hsent', hdone⟩ := ih hinv (by omega)
      refine ⟨s.askAndTake x gap ++ acts, t, ?_, ?_, ?_, hsent'.trans hsent, hdone⟩
      · intro n hn
        obtain ⟨m, rfl⟩ : ∃ m, n = m + 1 := ⟨n - 1, by omega⟩
        rw [recoverLoop, hgap]
        simp only [hu, hloop m (by omega), Option.bind_eq_bind, Option.bind_some, Option.pure_def]
      · rw [Steps.run_append, hu]
        exact ht
      · rw [List.count_append, count_askAndTake]
        omega

/-- From every state the caller's loop ends, after at most one round for each buffered message, and
leaves no gap; every message that the handler had taken is in the sink then, and if it had taken all
that was sent, the sink has it all. -/
theorem recovers (h : Reachable x maxForwardBuffer s) :
    ∃ acts t, (∀ n, s.handler.tracker.pending.size ≤ n → recoverLoop x n s = some (acts, t)) ∧
      Steps.run (step x) s acts = some t ∧
      acts.count .request ≤ s.handler.tracker.pending.size ∧ t.handler.openGap = none ∧
      (∀ i < s.sent, s.handler.tracker.Held (x.first + UInt64.ofNat i) →
        ∃ p, x.messages[i]? = some p ∧ t.sink[i]? = some ⟨x.first + UInt64.ofNat i, p⟩) ∧
      ((∀ i < s.sent, s.handler.tracker.Held (x.first + UInt64.ofNat i)) →
        t.sink = (x.upTo s.sent).map delivery) := by
  have hinv := h.inv
  obtain ⟨acts, t, hloop, ht, hcount, hsent, hdone⟩ := recoverLoop_ends hinv (Nat.le_refl _)
  have hend : Reachable x maxForwardBuffer t := by
    obtain ⟨before, hbefore⟩ := h
    exact ⟨before ++ acts, by rw [Steps.run_append, hbefore]; exact ht⟩
  have hpassed : ∀ i < s.sent, s.handler.tracker.Held (x.first + UInt64.ofNat i) →
      x.first.toNat + i < t.handler.tracker.expected.toNat := by
    intro i hi hheld
    rw [← x.toNat_seq (hi.le.trans hinv.sent)]
    rcases held_run hinv ht hheld with hlt | hpending
    · exact hlt
    · exact absurd (hend.inv.pending_of_openGap hdone _) hpending
  refine ⟨acts, t, hloop, ht, hcount, hdone, ?_, ?_⟩
  · exact fun i hi hheld => hend.inv.sink_of_lt (hpassed i hi hheld)
  · intro hall
    have hle := hend.inv.reached_le
    have hreached : t.reached x = s.sent := by
      rcases Nat.eq_zero_or_pos s.sent with hz | hpos
      · omega
      · have hlast := hpassed (s.sent - 1) (by omega) (hall _ (by omega))
        simp only [reached] at hle ⊢
        omega
    rw [hend.inv.sink_eq, hreached]

/-- Of three messages the first is lost and the last is dropped: the buffer had room for one. -/
theorem recovers_one :
    ∃ s, Steps.run (step twoDatagrams) (start twoDatagrams 1)
        [.send 1, .send 2, .deliver 1] = some s ∧
      s.handler.openGap = some (7, 7) ∧
      ∃ acts t, recoverLoop twoDatagrams 1 s = some (acts, t) ∧ t.handler.openGap = none ∧
        ∃ p, twoDatagrams.messages[1]? = some p ∧ t.sink[1]? = some ⟨8, p⟩ := by
  have hrun : ∃ s ∈ Steps.run (step twoDatagrams) (start twoDatagrams 1)
        [.send 1, .send 2, .deliver 1],
      s.sent = 3 ∧ s.handler.tracker.pending.size ≤ 1 ∧ s.handler.openGap = some (7, 7) ∧
        s.handler.tracker.pending[(8 : UInt64)]? ≠ none := by
    decide
  obtain ⟨s, hs, hsent, hsize, hgap, hheld⟩ := hrun
  obtain ⟨acts, t, hloop, -, -, hdone, htaken, -⟩ := recovers ⟨_, hs⟩
  exact ⟨s, hs, hgap, acts, t, hloop 1 hsize, hdone,
    htaken 1 (by rw [hsent]; decide) (.inr hheld)⟩

end UdpSession

end Flowlab.Replay
