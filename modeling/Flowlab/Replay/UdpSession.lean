import Flowlab.Replay.UdpSource

namespace Flowlab.Replay

open Framework

theorem GapTracker.mem_of_mem_kept {t : GapTracker} {ms : List Message} {m : Message}
    (hm : m ∈ t.kept ms) : m ∈ ms := by
  induction ms generalizing t with
  | nil => exact hm
  | cons n ms ih =>
    rcases List.mem_append.mp hm with hm | hm
    · split_ifs at hm
      · cases hm
      · exact List.mem_singleton.mp hm ▸ List.mem_cons_self
    · exact List.mem_cons_of_mem n (ih hm)

namespace Session

variable (x : Session)

/-- The first `n` messages with their numbers. -/
def upTo (n : Nat) : List Message := numbered x.first (x.messages.take n)

/-- The number behind the last message. -/
def endSeq : UInt64 := x.first + UInt64.ofNat x.messages.length

theorem toNat_seq {i : Nat} (hi : i ≤ x.messages.length) :
    (x.first + UInt64.ofNat i).toNat = x.first.toNat + i := by
  have hroom := x.room
  rw [UInt64.toNat_add, UInt64.toNat_ofNat', Nat.mod_eq_of_lt (show i < 2 ^ 64 by omega)]
  exact Nat.mod_eq_of_lt (show x.first.toNat + i < 2 ^ 64 by omega)

theorem mem_upTo {n : Nat} {m : Message} :
    m ∈ x.upTo n ↔ ∃ i < n, x.messages[i]? = some m.2 ∧ m.1 = x.first + UInt64.ofNat i := by
  rw [List.mem_iff_getElem?]
  simp only [upTo, numbered_get, Option.map_eq_some_iff, List.getElem?_take]
  constructor
  · rintro ⟨i, p, hp, rfl⟩
    split_ifs at hp with hi
    exact ⟨i, hi, hp, rfl⟩
  · rintro ⟨i, hi, hp, hm⟩
    exact ⟨i, m.2, by rw [if_pos hi, hp], Prod.ext hm.symm rfl⟩

theorem upTo_mono {n k : Nat} (h : n ≤ k) {m : Message} (hm : m ∈ x.upTo n) : m ∈ x.upTo k := by
  obtain ⟨i, hi, hp⟩ := x.mem_upTo.mp hm
  exact x.mem_upTo.mpr ⟨i, by omega, hp⟩

/-- A message is behind as many others as its number says. -/
theorem toNat_of_mem {n : Nat} {m : Message} (hm : m ∈ x.upTo n) :
    ∃ i < n, i < x.messages.length ∧ x.messages[i]? = some m.2 ∧ m.1.toNat = x.first.toNat + i := by
  obtain ⟨i, hi, hp, hm⟩ := x.mem_upTo.mp hm
  have hlen := (List.getElem?_eq_some_iff.mp hp).1
  exact ⟨i, hi, hlen, hp, by rw [hm, x.toNat_seq (by omega)]⟩

theorem ne_endSeq {n : Nat} {m : Message} (hm : m ∈ x.upTo n) : m.1 ≠ x.endSeq := by
  obtain ⟨i, -, hi, -, hseq⟩ := x.toNat_of_mem hm
  intro he
  rw [he, endSeq, x.toNat_seq (Nat.le_refl _)] at hseq
  omega

end Session

namespace UdpSession

variable {x : Session} {s t : UdpSession} {maxForwardBuffer : Nat}

/-- What a datagram in flight can be: one that is not parsed, or one that carries messages sent. -/
def Carries (x : Session) (n : Nat) (bytes : List UInt8) : Prop :=
  bytes.length ≤ maxDatagram ∧
    ((∃ e, MoldFrame.parse bytes = .error e) ∨
      ∃ f, MoldFrame.parse bytes = .ok f ∧ f.WellFormed ∧ ∀ m ∈ f.records, m ∈ x.upTo n)

theorem Carries.mono {n k : Nat} {bytes : List UInt8} (h : Carries x n bytes) (hn : n ≤ k) :
    Carries x k bytes :=
  ⟨h.1, h.2.imp_right fun ⟨f, hf, hw, hm⟩ => ⟨f, hf, hw, fun m h => x.upTo_mono hn (hm m h)⟩⟩

/-- A datagram of the exchange carries the next messages. -/
theorem carries_encode {sent n : Nat} {msgs : List (List UInt8)}
    (hmsgs : (x.messages.drop sent).take n = msgs) (hne : msgs ≠ []) (hn : msgs.length < 65535)
    (hlen : (MoldFrame.encode x.name (x.first + UInt64.ofNat sent) msgs).length ≤ maxDatagram) :
    Carries x (sent + msgs.length)
      (MoldFrame.encode x.name (x.first + UInt64.ofNat sent) msgs) := by
  have h0 := List.length_pos_iff.mpr hne
  have hshort : ∀ m ∈ msgs, m.length < 65536 := fun m hm =>
    x.short m (List.mem_of_mem_drop (List.mem_of_mem_take (hmsgs ▸ hm)))
  obtain ⟨hw, hr⟩ := records_encode (x.first + UInt64.ofNat sent) hshort
  have hcount : (UInt16.ofNat msgs.length).toNat = msgs.length := by
    rw [UInt16.toNat_ofNat', Nat.mod_eq_of_lt (show msgs.length < 2 ^ 16 by omega)]
  refine ⟨hlen, .inr ⟨_, parse_encode x.named h0 hn, .inr (.inr (by rw [hcount]; exact hw)), ?_⟩⟩
  intro m hm
  rw [MoldFrame.records, declared_encode h0 hn, hr, List.mem_iff_getElem?] at hm
  obtain ⟨i, hi⟩ := hm
  rw [numbered_get, Option.map_eq_some_iff] at hi
  obtain ⟨p, hp, rfl⟩ := hi
  have hi := (List.getElem?_eq_some_iff.mp hp).1
  refine x.mem_upTo.mpr ⟨sent + i, by omega, ?_, ?_⟩
  · rw [← hmsgs, List.getElem?_take] at hp
    split_ifs at hp
    rwa [List.getElem?_drop] at hp
  · rw [UInt64.add_assoc, UInt64.ofNat_add]

/-- A heartbeat and the end of the session carry no message. -/
theorem carries_control {sent n : Nat} {count : UInt16}
    (hc : count = MoldHeader.heartbeat ∨ count = MoldHeader.endOfSession) :
    Carries x n (control x sent count) := by
  have hlen : (control x sent count).length = 20 := by
    simp [control, x.named]
  have hslice : Bytes.slice (control x sent count) 18 2 = Bytes.toBe 2 count.toNat := by
    have hsplit : control x sent count =
        (x.name ++ Bytes.toBe 8 (x.first.toNat + sent)) ++ (Bytes.toBe 2 count.toNat ++ []) := by
      simp [control]
    rw [hsplit]
    exact Bytes.slice_mid_of (by simp [x.named]) (by simp)
  have hcount : UInt16.ofNat (Bytes.ofBe (Bytes.slice (control x sent count) 18 2)) = count := by
    rw [hslice, Bytes.ofBe_toBe 2 _ count.toNat_lt, UInt16.ofNat_toNat]
  have hdrop : (control x sent count).drop MoldHeader.size = [] :=
    List.drop_eq_nil_of_le (by rw [hlen, MoldHeader.size])
  have hspecial : ((⟨(control x sent count).take 10,
      UInt64.ofNat (Bytes.ofBe (Bytes.slice (control x sent count) 10 8)), count⟩ :
        MoldHeader).isHeartbeat ||
      (⟨(control x sent count).take 10,
        UInt64.ofNat (Bytes.ofBe (Bytes.slice (control x sent count) 10 8)), count⟩ :
          MoldHeader).isEndOfSession) = true := by
    rcases hc with rfl | rfl <;>
      simp [MoldHeader.isHeartbeat, MoldHeader.isEndOfSession]
  have hparse : MoldFrame.parse (control x sent count) =
      .ok ⟨⟨(control x sent count).take 10,
        UInt64.ofNat (Bytes.ofBe (Bytes.slice (control x sent count) 10 8)), count⟩, []⟩ := by
    rw [MoldFrame.parse, if_neg (by rw [hlen, MoldHeader.size]; omega)]
    simp only [hcount, hdrop, hspecial, List.isEmpty_nil, Bool.not_true, Bool.and_false,
      Bool.false_eq_true, if_false]
  refine ⟨by rw [hlen, maxDatagram]; omega, .inr ⟨_, hparse, ?_, ?_⟩⟩
  · rcases Bool.or_eq_true_iff.mp hspecial with h | h
    · exact .inl h
    · exact .inr (.inl h)
  · intro m hm
    rw [MoldFrame.records, MoldFrame.declared, if_pos hspecial] at hm
    cases hm

/-- What holds of a session in every state: the tracker accounts for what reached the sink, and
nothing but messages of the exchange is on the way to it. -/
structure Inv (x : Session) (maxForwardBuffer : Nat) (s : UdpSession) : Prop where
  sent : s.sent ≤ x.messages.length
  flight : ∀ bytes ∈ s.flight, Carries x s.sent bytes
  answers : ∀ m ∈ s.answers, m ∈ x.upTo s.sent
  buffer : s.handler.tracker.maxBuffered = maxForwardBuffer
  tracks : ∃ ms, GapTracker.Tracks x.first x.endSeq ms s.sink s.handler.tracker ∧
    ∀ m ∈ ms, m ∈ x.upTo s.sent
  settled : s.handler.tracker.Settled

theorem inv_start (x : Session) (maxForwardBuffer : Nat) :
    Inv x maxForwardBuffer (start x maxForwardBuffer) := by
  have hle : x.first.toNat ≤ x.endSeq.toNat := by
    rw [Session.endSeq, x.toNat_seq (Nat.le_refl _)]
    omega
  obtain ⟨htracks, hsettled⟩ := GapTracker.tracks_start x.first x.endSeq maxForwardBuffer hle
  exact ⟨Nat.zero_le _, by simp [start], by simp [start], rfl, ⟨[], htracks, by simp⟩, hsettled⟩

/-- Messages of the exchange may reach the tracker in any order and any number of times. -/
theorem Inv.ingest (h : Inv x maxForwardBuffer s) {ms : List Message}
    (hms : ∀ m ∈ ms, m ∈ x.upTo s.sent) :
    Inv x maxForwardBuffer { s with
      handler := ⟨(s.handler.tracker.ingestAll ms []).1⟩
      sink := s.sink ++ (s.handler.tracker.ingestAll ms []).2 } := by
  obtain ⟨known, htracks, hknown⟩ := h.tracks
  obtain ⟨htracks', hsettled⟩ := GapTracker.ingestAll_tracks ms htracks h.settled
    (fun m hm => x.ne_endSeq (hms m hm))
  refine ⟨h.sent, h.flight, h.answers, ?_, ⟨_, htracks', ?_⟩, hsettled⟩
  · exact (GapTracker.ingestAll_maxBuffered _ _ _).trans h.buffer
  · intro m hm
    rcases List.mem_append.mp hm with hm | hm
    · exact hknown m hm
    · exact hms m (GapTracker.mem_of_mem_kept hm)

theorem Inv.flying (h : Inv x maxForwardBuffer s) {bytes : List UInt8}
    (hb : Carries x s.sent bytes) :
    Inv x maxForwardBuffer { s with flight := s.flight ++ [bytes] } := by
  refine ⟨h.sent, ?_, h.answers, h.buffer, h.tracks, h.settled⟩
  intro bytes' hb'
  rcases List.mem_append.mp hb' with hb' | hb'
  · exact h.flight bytes' hb'
  · exact List.mem_singleton.mp hb' ▸ hb

/-- A datagram in flight hands messages of the exchange to the tracker, or nothing. -/
theorem call_datagram {bytes : List UInt8} (hb : Carries x s.sent bytes) :
    ∃ ms, (∀ m ∈ ms, m ∈ x.upTo s.sent) ∧
      s.call (.datagram bytes) = some { s with
        handler := ⟨(s.handler.tracker.ingestAll ms []).1⟩
        sink := s.sink ++ (s.handler.tracker.ingestAll ms []).2 } := by
  obtain ⟨hlen, hcarries⟩ := hb
  have htake : bytes.take UdpFeedHandler.scratchLen = bytes :=
    List.take_of_length_le (hlen.trans (by decide))
  rcases hcarries with ⟨e, he⟩ | ⟨f, hf, hw, hm⟩
  · refine ⟨[], by simp, ?_⟩
    simp [UdpSession.call, UdpFeedHandler.step, htake, he, GapTracker.ingestAll]
  · have hfuel : f.declared < 2 ^ 16 := lt_of_le_of_lt f.declared_le f.header.count.toNat_lt
    refine ⟨f.records, hm, ?_⟩
    simp only [UdpSession.call, UdpFeedHandler.step, htake, hf,
      MoldFrame.ingest_wellFormed hw hfuel, Option.map_some]

/-- A gap ends in front of a buffered message. -/
theorem openGap_some {t : GapTracker} {gap : UInt64 × UInt64} (h : t.openGap = some gap) :
    gap.1 = t.expected ∧ ∃ (k : UInt64) (v : List UInt8), t.pending[k]? = some v ∧
      gap.2.toNat + 1 = k.toNat ∧ t.expected.toNat < k.toNat := by
  simp only [GapTracker.openGap] at h
  split at h
  · cases h
  · rename_i k v hfirst
    split_ifs at h with hlt
    cases h
    have hlt' : t.expected.toNat < k.toNat := UInt64.lt_iff_toNat_lt.mp hlt
    refine ⟨rfl, k, v, (GapTracker.firstPending_some hfirst).1, ?_, hlt'⟩
    have hone : (1 : UInt64) ≤ k := by
      rw [UInt64.le_iff_toNat_le]
      exact Nat.succ_le_of_lt (lt_of_le_of_lt (Nat.zero_le _) hlt')
    rw [UInt64.toNat_sub_of_le _ _ hone]
    exact Nat.sub_add_cancel (Nat.succ_le_of_lt (lt_of_le_of_lt (Nat.zero_le _) hlt'))

theorem Inv.mem_of_pending (h : Inv x maxForwardBuffer s) {k : UInt64} {v : List UInt8}
    (hk : s.handler.tracker.pending[k]? = some v) : (k, v) ∈ x.upTo s.sent := by
  obtain ⟨known, htracks, hknown⟩ := h.tracks
  exact hknown _ (mem_of_firstPayload (htracks.reach k v hk).2.2)

/-- What a gap asks for has been sent. -/
theorem Inv.asked (h : Inv x maxForwardBuffer s) {gap : UInt64 × UInt64}
    (hgap : s.handler.openGap = some gap) : ∀ m ∈ UdpSession.asked x gap, m ∈ x.upTo s.sent := by
  obtain ⟨-, k, v, hk, hlast, -⟩ := openGap_some hgap
  obtain ⟨j, hj, -, -, hseq⟩ := x.toNat_of_mem (h.mem_of_pending hk)
  intro m hm
  obtain ⟨hm, hle⟩ := List.mem_filter.mp hm
  have hle := UInt64.le_iff_toNat_le.mp (of_decide_eq_true hle).2
  rw [← List.take_length (l := x.messages)] at hm
  obtain ⟨i, hi, hlen, hp, hi'⟩ := x.toNat_of_mem hm
  refine x.mem_upTo.mpr ⟨i, ?_, hp, ?_⟩
  · dsimp only at hseq
    omega
  · exact UInt64.toNat_inj.mp (by rw [hi', x.toNat_seq hlen.le])

/-- What every step keeps. -/
theorem Inv.step (h : Inv x maxForwardBuffer s) {a : UdpAct} (ht : s.step x a = some t) :
    Inv x maxForwardBuffer t := by
  cases a <;> simp only [UdpSession.step] at ht
  case send n =>
    split_ifs at ht with hguard
    cases ht
    obtain ⟨hne, hn, hlen⟩ := hguard
    refine ⟨?_, ?_, fun m hm => x.upTo_mono (by dsimp only; omega) (h.answers m hm),
      h.buffer, ?_, h.settled⟩
    · have hsent := h.sent
      simp only [List.length_take, List.length_drop]
      omega
    · intro bytes hb
      rcases List.mem_append.mp hb with hb | hb
      · exact (h.flight bytes hb).mono (by dsimp only; omega)
      · rw [List.mem_singleton.mp hb]
        exact carries_encode rfl hne hn hlen
    · obtain ⟨known, htracks, hknown⟩ := h.tracks
      exact ⟨known, htracks, fun m hm => x.upTo_mono (by dsimp only; omega) (hknown m hm)⟩
  case heartbeat =>
    cases ht
    exact h.flying (carries_control (.inl rfl))
  case endOfSession =>
    cases ht
    exact h.flying (carries_control (.inr rfl))
  case stray bytes =>
    split at ht
    · rename_i e he
      split_ifs at ht with hlen
      cases ht
      exact h.flying ⟨hlen, .inl ⟨e, he⟩⟩
    · cases ht
  case deliver i =>
    split at ht
    · rename_i bytes hi
      obtain ⟨ms, hms, hu⟩ := call_datagram (h.flight bytes (List.mem_of_getElem? hi))
      rw [hu] at ht
      exact Option.some.inj ht ▸ h.ingest hms
    · cases ht
  case timeout =>
    cases ht
    simpa using h
  case fail =>
    cases ht
    simpa using h
  case request =>
    split at ht
    · rename_i gap hgap
      cases ht
      refine ⟨h.sent, h.flight, ?_, h.buffer, h.tracks, h.settled⟩
      intro m hm
      rcases List.mem_append.mp hm with hm | hm
      · exact h.answers m hm
      · exact h.asked hgap m hm
    · cases ht
  case answer i =>
    split at ht
    · rename_i m hi
      cases ht
      have hsent : ∀ n ∈ [m], n ∈ x.upTo s.sent := by
        intro n hn
        rw [List.mem_singleton.mp hn]
        exact h.answers m (List.mem_of_getElem? hi)
      exact h.ingest hsent
    · cases ht

theorem Reachable.inv (h : Reachable x maxForwardBuffer s) : Inv x maxForwardBuffer s := by
  obtain ⟨acts, hrun⟩ := h
  exact Steps.run_keeps (fun hs ht => Inv.step hs ht) (inv_start x maxForwardBuffer) hrun

/-- A message of the session as the sink gets it. -/
def delivery (m : Message) : Delivered := ⟨m.1, m.2⟩

/-- How many messages have reached the sink. -/
def reached (x : Session) (s : UdpSession) : Nat :=
  s.handler.tracker.expected.toNat - x.first.toNat

theorem Inv.expected (h : Inv x maxForwardBuffer s) :
    s.handler.tracker.expected = x.first + UInt64.ofNat (s.reached x) := by
  obtain ⟨known, htracks, -⟩ := h.tracks
  have hlower := htracks.lower
  have hupper := htracks.upper
  rw [Session.endSeq, x.toNat_seq (Nat.le_refl _)] at hupper
  apply UInt64.toNat_inj.mp
  rw [x.toNat_seq (by simp only [reached]; omega), reached]
  omega

theorem Inv.length_sink (h : Inv x maxForwardBuffer s) : s.sink.length = s.reached x := by
  obtain ⟨known, htracks, -⟩ := h.tracks
  have hlen := congrArg List.length htracks.seqs
  rwa [List.length_map, List.length_range'] at hlen

theorem Inv.sink_get (h : Inv x maxForwardBuffer s) {i : Nat} {d : Delivered}
    (hd : s.sink[i]? = some d) : i < s.sent ∧ x.messages[i]? = some d.payload ∧
      d.sequence = x.first + UInt64.ofNat i := by
  obtain ⟨known, htracks, hknown⟩ := h.tracks
  have hmem := hknown _ (mem_of_firstPayload (htracks.paid d (List.mem_of_getElem? hd)))
  obtain ⟨j, hj, hlen, hp, hseq⟩ := x.toNat_of_mem hmem
  have hnum : (s.sink.map fun d => d.sequence.toNat)[i]? = some d.sequence.toNat := by
    rw [List.getElem?_map, hd]
    rfl
  have hi : i < s.handler.tracker.expected.toNat - x.first.toNat :=
    lt_of_lt_of_eq (List.getElem?_eq_some_iff.mp hd).1 h.length_sink
  rw [htracks.seqs, List.getElem?_range' hi] at hnum
  have hij : i = j := by
    have hi := Option.some.inj hnum
    dsimp only at hseq
    omega
  subst hij
  exact ⟨hj, hp, UInt64.toNat_inj.mp (by rw [x.toNat_seq hlen.le]; exact hseq)⟩

theorem Inv.reached_le (h : Inv x maxForwardBuffer s) : s.reached x ≤ s.sent := by
  rcases Nat.eq_zero_or_pos (s.reached x) with hz | hpos
  · omega
  · have hlen := h.length_sink
    obtain ⟨d, hd⟩ : ∃ d, s.sink[s.reached x - 1]? = some d :=
      ⟨_, List.getElem?_eq_getElem (by omega)⟩
    have hlt := (h.sink_get hd).1
    omega

theorem Inv.sink_eq (h : Inv x maxForwardBuffer s) :
    s.sink = (x.upTo (s.reached x)).map delivery := by
  have hlen := h.length_sink
  apply List.ext_getElem?
  intro i
  cases hd : s.sink[i]? with
  | none =>
    have hi := List.getElem?_eq_none_iff.mp hd
    simp [Session.upTo, numbered_get, show ¬ i < s.reached x by omega]
  | some d =>
    have hi := (List.getElem?_eq_some_iff.mp hd).1
    obtain ⟨-, hp, hseq⟩ := h.sink_get hd
    simp [Session.upTo, numbered_get, show i < s.reached x by omega, hp, delivery, ← hseq]

/-- Through any loss, duplication and reordering, among datagrams that `parse` refuses and with any
recovery: the sink has the first messages of the session, each once, in order and with its own
payload; what is buffered are later messages, and a gap reaches from the next message to the first
of them. -/
theorem sink_in_order (h : Reachable x maxForwardBuffer s) :
    s.reached x ≤ s.sent ∧ s.sink = (x.upTo (s.reached x)).map delivery ∧
      s.handler.tracker.pending.size ≤ maxForwardBuffer ∧
      (∀ seq payload, s.handler.tracker.pending[seq]? = some payload →
        (seq, payload) ∈ x.upTo s.sent ∧ s.handler.tracker.expected < seq) ∧
      s.handler.openGap =
        s.handler.tracker.pending.minKey?.map fun k => (s.handler.tracker.expected, k - 1) := by
  have hinv := h.inv
  obtain ⟨known, htracks, -⟩ := hinv.tracks
  refine ⟨hinv.reached_le, hinv.sink_eq, hinv.buffer ▸ htracks.room, ?_,
    GapTracker.openGap_eq hinv.settled⟩
  intro seq payload hk
  exact ⟨hinv.mem_of_pending hk, UInt64.lt_iff_toNat_lt.mpr (hinv.settled seq payload hk)⟩

/-- Three messages in two datagrams; the first is lost, the second comes twice. -/
def twoDatagrams : Session where
  name := List.replicate 10 0x20
  first := 7
  messages := [[1], [2, 2], [3]]
  named := rfl
  room := by decide
  short := by decide

def lossActs : List UdpAct :=
  [.send 1, .heartbeat, .send 2, .deliver 1, .deliver 2, .timeout, .deliver 2, .stray [0], .deliver 3]

theorem sink_in_order_loss :
    ∃ s, Steps.run (step twoDatagrams) (start twoDatagrams 4) lossActs = some s ∧
      s.sink = (twoDatagrams.upTo (s.reached twoDatagrams)).map delivery ∧
      s.handler.tracker.pending.size ≤ 4 ∧ s.handler.openGap ≠ none := by
  have hrun : ∃ s ∈ Steps.run (step twoDatagrams) (start twoDatagrams 4) lossActs,
      s.handler.openGap ≠ none := by
    decide
  obtain ⟨s, hs, hgap⟩ := hrun
  obtain ⟨-, hsink, hroom, -⟩ := sink_in_order ⟨_, hs⟩
  exact ⟨s, hs, hsink, hroom, hgap⟩

end UdpSession

end Flowlab.Replay
