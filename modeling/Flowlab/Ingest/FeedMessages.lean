import Flowlab.Ingest.FeedStop

namespace Flowlab.Ingest

open Framework
open Flowlab.Replay (Ring Capacity Act RingError Writer)

namespace RunPc

/-- `Run` has a message in its hands. -/
def Carries : RunPc → Prop
  | offering _ _ | writing _ => True
  | _ => False

/-- How many steps `Run` is from its end once the stop is closed, without those inside a write of the
ring. -/
def left (limit : Nat) : RunPc → Nat
  | ready | sleeping | closing _ => 2
  | top => 1
  | leaving _ => 3
  | polling _ => 4
  | entering | writing _ => 5
  | dialled _ => 6
  | dialing => 7
  | offering _ message => message.length + 10
  | reading _ => limit + 11
  | returned => 0

end RunPc

namespace FeedAct

/-- A step of the goroutine of `Run`. -/
def isRun : FeedAct → Bool
  | run _ => true
  | _ => false

/-- A message of the exchange comes in. -/
def isMessage : FeedAct → Bool
  | run (.message _) => true
  | _ => false

end FeedAct

namespace WebSocketFeed

variable {c : Capacity} {limit : Nat} {f g : WebSocketFeed}

/-- The message on its way to the ring. -/
def pending (f : WebSocketFeed) : List (List UInt8) :=
  match f.run with
  | .offering _ message => [message]
  | .writing _ => (Ring.batchOf f.ring.writer).toList
  | _ => []

/-- The messages neither written nor counted as dropped yet. -/
def undecided (f : WebSocketFeed) : Nat :=
  match f.run with
  | .offering _ _ => 1
  | .writing _ => if f.ring.writer = .idle (.ok ()) then 0 else 1
  | _ => 0

/-- Every message read is in the ring as a whole, counted as dropped, or on its way. -/
structure Messages (limit : Nat) (f : WebSocketFeed) : Prop where
  between : (∀ k, f.run ≠ .writing k) → ∃ r, f.ring.writer = .idle r
  short : ∀ k message, f.run = .offering k message → message.length ≤ limit
  fits : Ring.stepsLeft f.ring.writer ≤ limit + 4
  order : (f.ring.written ++ f.pending).Sublist f.received
  count : ∃ d, f.dropped = UInt64.ofNat d ∧
    f.received.length = f.ring.written.length + f.undecided + d

/-- What a step of `Run` can do to the messages. -/
theorem stepRun_messages {a : RunAct} (hg : f.stepRun c limit a = some g) :
    (¬ f.run.Carries ∧ ¬ g.run.Carries ∧ g.ring = f.ring ∧ g.received = f.received ∧
      g.dropped = f.dropped) ∨
    (∃ k bytes, f.run = .reading k ∧ bytes.length ≤ limit ∧
      g = { f with run := .offering k bytes, received := f.received ++ [bytes] }) ∨
    (∃ k bytes ring, f.run = .offering k bytes ∧ f.ring.step c (.writeBegin .go bytes) = some ring ∧
      g = { f with ring := ring, run := .writing k }) ∨
    (∃ k b ring, f.run = .writing k ∧ b.isRead = false ∧ b.isWriteBegin = false ∧
      f.ring.step c b = some ring ∧ g = { f with ring := ring }) ∨
    (∃ k, f.run = .writing k ∧ f.ring.writer = .idle (.ok ()) ∧ g = { f with run := .polling k }) ∨
    (∃ k e, f.run = .writing k ∧ f.ring.writer = .idle (.error e) ∧
      g = { f with run := .polling k, dropped := f.dropped + 1 }) := by
  cases a <;> simp only [stepRun] at hg
  case message bytes =>
    split at hg
    · rename_i k hrun
      split_ifs at hg with hlen
      cases hg
      exact .inr (.inl ⟨k, bytes, hrun, hlen, rfl⟩)
    · cases hg
  case offer =>
    split at hg
    · rename_i k bytes hrun
      obtain ⟨ring, hring, rfl⟩ := Option.map_eq_some_iff.mp hg
      exact .inr (.inr (.inl ⟨k, bytes, ring, hrun, hring, rfl⟩))
    · cases hg
  case write b =>
    split at hg
    · rename_i k hrun
      split_ifs at hg with hb
      obtain ⟨ring, hring, rfl⟩ := Option.map_eq_some_iff.mp hg
      rw [not_or, Bool.not_eq_true, Bool.not_eq_true] at hb
      exact .inr (.inr (.inr (.inl ⟨k, b, ring, hrun, hb.1, hb.2, hring, rfl⟩)))
    · cases hg
  case finish =>
    split at hg
    · rename_i k hrun hwriter
      cases hg
      exact .inr (.inr (.inr (.inr (.inl ⟨k, hrun, hwriter, rfl⟩))))
    · rename_i k e hrun hwriter
      cases hg
      exact .inr (.inr (.inr (.inr (.inr ⟨k, e, hrun, hwriter, rfl⟩))))
    · cases hg
  case check =>
    split at hg <;> cases hg
    rename_i hrun
    refine .inl ⟨by simp [hrun, RunPc.Carries], ?_, rfl, rfl, rfl⟩
    dsimp only
    split_ifs <;> exact id
  case poll =>
    split at hg <;> cases hg
    rename_i hrun
    refine .inl ⟨by simp [hrun, RunPc.Carries], ?_, rfl, rfl, rfl⟩
    dsimp only
    split_ifs <;> exact id
  case load =>
    split at hg <;> cases hg
    rename_i hrun
    refine .inl ⟨by simp [hrun, RunPc.Carries], ?_, rfl, rfl, rfl⟩
    dsimp only
    cases f.conn <;> exact id
  case stopSeen =>
    split at hg
    · rename_i hrun
      split_ifs at hg
      cases hg
      exact .inl ⟨by simp [hrun, RunPc.Carries], id, rfl, rfl, rfl⟩
    · cases hg
  case readError =>
    split at hg
    · rename_i hrun
      split_ifs at hg
      cases hg
      exact .inl ⟨by simp [hrun, RunPc.Carries], id, rfl, rfl, rfl⟩
    · cases hg
  all_goals
    split at hg <;> cases hg
    rename_i hrun
    exact .inl ⟨by simp [hrun, RunPc.Carries], id, rfl, rfl, rfl⟩

theorem messages_new (limit : Nat) (mem : Nat → UInt8) : (new mem).Messages limit where
  between _ := ⟨.ok (), rfl⟩
  short _ _ h := absurd h (by simp [new])
  fits := Nat.zero_le _
  order := List.Sublist.refl _
  count := ⟨0, rfl, rfl⟩

/-- Where `Run` carries no message, it has none on its way. -/
theorem idle_pending (h : ¬ f.run.Carries) : f.pending = [] ∧ f.undecided = 0 := by
  simp only [pending, undecided]
  generalize f.run = pc at h
  cases pc <;> simp_all [RunPc.Carries]

theorem not_writing (h : ¬ f.run.Carries) (k : Nat) : f.run ≠ .writing k := by
  intro hrun
  exact h (by simp [hrun, RunPc.Carries])

theorem not_offering (h : ¬ f.run.Carries) (k : Nat) (message : List UInt8) :
    f.run ≠ .offering k message := by
  intro hrun
  exact h (by simp [hrun, RunPc.Carries])

/-- A message between the exchange and the ring stays one message. -/
theorem messages_stepRun (h : f.Messages limit) {a : RunAct} (hg : f.stepRun c limit a = some g) :
    g.Messages limit := by
  obtain ⟨hbetween, hshort, hfits, horder, d, hdropped, hcount⟩ := h
  rcases stepRun_messages hg with ⟨hf, hg, hring, hreceived, hdrop⟩ | ⟨k, bytes, hrun, hlen, rfl⟩ |
      ⟨k, bytes, ring, hrun, hring, rfl⟩ | ⟨k, b, ring, hrun, hread, hbegin, hring, rfl⟩ |
      ⟨k, hrun, hwriter, rfl⟩ | ⟨k, e, hrun, hwriter, rfl⟩
  · obtain ⟨hp, hu⟩ := idle_pending hf
    obtain ⟨hp', hu'⟩ := idle_pending hg
    refine ⟨fun _ => hring ▸ hbetween (not_writing hf), fun k m hk => absurd hk (not_offering hg k m),
      hring ▸ hfits, ?_, d, hdrop.trans hdropped, ?_⟩
    · rwa [hp', hring, hreceived, ← hp]
    · rw [hreceived, hring, hcount, hu, hu']
  · have hf : ¬ f.run.Carries := by simp [hrun, RunPc.Carries]
    obtain ⟨hp, hu⟩ := idle_pending hf
    rw [hp, List.append_nil] at horder
    refine ⟨fun _ => hbetween (not_writing hf), ?_, hfits, horder.append_right [bytes], d, hdropped,
      ?_⟩
    · intro j m hm
      cases hm
      exact hlen
    · rw [List.length_append, hcount, hu]
      exact Nat.add_right_comm _ d 1
  · obtain ⟨hbatch, hwritten, hleft⟩ := Ring.offered_begin hring
    have hne : ring.writer ≠ .idle (.ok ()) := by
      intro hw
      rw [hw] at hbatch
      cases hbatch
    have hshort' := hshort k bytes hrun
    refine ⟨fun hk => absurd rfl (hk k), fun j m hm => RunPc.noConfusion hm, by dsimp only; omega,
      ?_, d, hdropped, ?_⟩
    · simp only [pending, hrun] at horder
      simp only [pending, hbatch, hwritten]
      exact horder
    · simp only [undecided, hrun] at hcount
      simp only [undecided, hwritten, if_neg hne]
      exact hcount
  · have hwrite : f.ring.stepWrite c b = some ring := by
      rw [Ring.step, hread] at hring
      exact hring
    obtain ⟨bytes, hbatch, hoffered⟩ := Ring.stepWrite_offered hbegin hwrite
    have hless := Ring.stepWrite_left hbegin hwrite
    have hne : f.ring.writer ≠ .idle (.ok ()) := by
      intro hw
      rw [hw] at hbatch
      cases hbatch
    simp only [pending, hrun, hbatch] at horder
    simp only [undecided, hrun, if_neg hne] at hcount
    refine ⟨fun hk => absurd hrun (hk k), fun j m hm => ?_, by dsimp only; omega, ?_, d, hdropped,
      ?_⟩
    · rw [hrun] at hm
      cases hm
    · simp only [pending, hrun]
      rcases hoffered with ⟨hb, hw⟩ | ⟨⟨e, he⟩, hw⟩ | ⟨hb, hw⟩
      · rw [hb, hw]
        exact horder
      · rw [he, hw]
        simpa [Ring.batchOf] using (List.sublist_append_left _ _).trans horder
      · rw [hb, hw]
        simpa [Ring.batchOf] using horder
    · simp only [undecided, hrun]
      rcases hoffered with ⟨hb, hw⟩ | ⟨⟨e, he⟩, hw⟩ | ⟨hb, hw⟩
      · rw [if_neg (by intro h; rw [h] at hb; cases hb), hw]
        exact hcount
      · rw [he, if_neg (by simp), hw]
        exact hcount
      · rw [hb, if_pos rfl, hw, List.length_append]
        exact hcount
  · simp only [pending, hrun, hwriter] at horder
    simp only [undecided, hrun, hwriter, if_pos] at hcount
    exact ⟨fun _ => ⟨_, hwriter⟩, fun j m hm => RunPc.noConfusion hm, hfits, horder, d, hdropped,
      hcount⟩
  · simp only [pending, hrun, hwriter] at horder
    simp only [undecided, hrun, hwriter] at hcount
    rw [if_neg (by simp)] at hcount
    refine ⟨fun _ => ⟨_, hwriter⟩, fun j m hm => RunPc.noConfusion hm, hfits, horder, d + 1, ?_, ?_⟩
    · rw [UInt64.ofNat_add, ← hdropped]
      rfl
    · simp only [undecided]
      omega

/-- The ring after a step of its reader: what the writer and the messages depend on is as before. -/
theorem messages_read (h : f.Messages limit) {a : Act} (hread : a.isRead = true) {ring : Ring}
    (hring : f.ring.step c a = some ring) : ({ f with ring := ring }).Messages limit := by
  rw [Ring.step, if_pos hread] at hring
  obtain ⟨hwriter, hwritten⟩ := Ring.stepRead_written hring
  obtain ⟨hbetween, hshort, hfits, horder, hcount⟩ := h
  refine ⟨fun hk => hwriter ▸ hbetween hk, hshort, hwriter ▸ hfits, ?_, ?_⟩
  · simp only [pending, hwriter, hwritten] at horder ⊢
    exact horder
  · simp only [undecided, hwriter, hwritten] at hcount ⊢
    exact hcount

theorem stop_messages (h : f.Messages limit) {t : Nat} {a : StopAct} (hg : f.stepStop t a = some g) :
    g.Messages limit := by
  obtain ⟨hbetween, hshort, hfits, horder, hcount⟩ := h
  rcases stepStop_cases hg with ⟨-, rfl⟩ | ⟨-, -, rfl⟩ | ⟨-, -, rfl⟩ | ⟨-, rfl⟩ | ⟨_, -, -, rfl⟩ |
      ⟨-, -, rfl⟩ | ⟨_, -, rfl⟩ | ⟨-, -, rfl⟩
  all_goals exact ⟨hbetween, hshort, hfits, horder, hcount⟩

theorem messages_step (h : f.Messages limit) {a : FeedAct} (hg : f.step c limit a = some g) :
    g.Messages limit := by
  cases a with
  | run a => exact messages_stepRun h hg
  | stop t a => exact stop_messages h hg
  | hangUp k =>
    cases hg
    exact ⟨h.between, h.short, h.fits, h.order, h.count⟩
  | read a =>
    simp only [step] at hg
    split_ifs at hg with hread
    obtain ⟨ring, hring, rfl⟩ := Option.map_eq_some_iff.mp hg
    exact messages_read h hread hring

/-- A step of the feed is a step of the ring, or leaves the ring alone. -/
theorem step_ring {a : FeedAct} (hg : f.step c limit a = some g) :
    g.ring = f.ring ∨ ∃ b, f.ring.step c b = some g.ring := by
  cases a with
  | run a =>
    rcases stepRun_messages hg with ⟨-, -, hring, -⟩ | ⟨_, _, -, -, rfl⟩ |
        ⟨k, bytes, ring, -, hring, rfl⟩ | ⟨k, b, ring, -, -, -, hring, rfl⟩ | ⟨_, -, -, rfl⟩ |
        ⟨_, _, -, -, rfl⟩
    · exact .inl hring
    · exact .inl rfl
    · exact .inr ⟨_, hring⟩
    · exact .inr ⟨b, hring⟩
    · exact .inl rfl
    · exact .inl rfl
  | stop t a =>
    rcases stepStop_cases hg with ⟨-, rfl⟩ | ⟨-, -, rfl⟩ | ⟨-, -, rfl⟩ | ⟨-, rfl⟩ |
        ⟨_, -, -, rfl⟩ | ⟨-, -, rfl⟩ | ⟨_, -, rfl⟩ | ⟨-, -, rfl⟩
    all_goals exact .inl rfl
  | hangUp k =>
    cases hg
    exact .inl rfl
  | read a =>
    simp only [step] at hg
    split_ifs at hg
    obtain ⟨ring, hring, rfl⟩ := Option.map_eq_some_iff.mp hg
    exact .inr ⟨a, hring⟩

theorem ringInv_step (h : Ring.Inv c f.ring) {a : FeedAct} (hg : f.step c limit a = some g) :
    Ring.Inv c g.ring := by
  rcases step_ring hg with heq | ⟨b, hb⟩
  · exact heq ▸ h
  · exact Ring.inv_step h hb

/-- Through any interleaving of the feed, its stop and the reader of the ring: the ring holds whole
messages in the order they were read, the reader of the ring gets a part of their bytes from the
front, and what is missing between two messages is counted as dropped. -/
theorem messages_accounted (h : f.Reachable c limit) :
    f.ring.written.Sublist f.received ∧ f.ring.consumed <+: f.ring.written.flatten ∧
      (¬ f.run.Carries →
        f.dropped = UInt64.ofNat (f.received.length - f.ring.written.length)) := by
  obtain ⟨mem, acts, hrun⟩ := h
  have hm : f.Messages limit :=
    Steps.run_keeps (fun hs ht => messages_step hs ht) (messages_new limit mem) hrun
  have hring : Ring.Inv c f.ring :=
    Steps.run_keeps (fun {f : WebSocketFeed} {_} {_} hs ht => ringInv_step (f := f) hs ht)
      (Ring.inv_create c mem) hrun
  obtain ⟨d, hdropped, hcount⟩ := hm.count
  refine ⟨(List.sublist_append_left _ _).trans hm.order, hring.consumed, ?_⟩
  intro hidle
  rw [(idle_pending hidle).2] at hcount
  rw [hdropped, hcount, Nat.add_zero, Nat.add_sub_cancel_left]

/-- Two messages go into a ring of four, of which the second does not fit. -/
def dropActs : List FeedAct :=
  [.run .start, .run .check, .run .dialOk, .run .store, .run .load, .run .poll,
    .run (.message [1, 2, 3]), .run .offer, .run (.write .writeLoadWrite),
    .run (.write .writeLoadRead), .run (.write .writeCheck), .run (.write (.writeByte 0)),
    .read (.readBegin [0, 0]), .run (.write (.writeByte 1)), .run (.write (.writeByte 0)),
    .run (.write .writePublish), .run .finish, .read .readLoadWrite, .read .readLoadRead,
    .read .readCheck, .run .poll, .run (.message [4, 5]), .run .offer,
    .run (.write .writeLoadWrite), .run (.write .writeLoadRead), .run (.write .writeCheck),
    .read (.readByte 0), .read (.readByte 0), .read .readAdvance, .run .finish]

theorem messages_accounted_two :
    ∃ f, Steps.run (step ⟨4, 2, rfl⟩ 9) (new fun _ => 0) dropActs = some f ∧
      f.received = [[1, 2, 3], [4, 5]] ∧ f.ring.written.Sublist f.received ∧ f.dropped = 1 ∧
      f.ring.consumed <+: f.ring.written.flatten := by
  have hrun : ∃ f ∈ Steps.run (step ⟨4, 2, rfl⟩ 9) (new fun _ => 0) dropActs,
      f.run = .polling 0 ∧ f.received = [[1, 2, 3], [4, 5]] ∧ f.ring.written = [[1, 2, 3]] := by
    decide
  obtain ⟨f, hf, hpc, hreceived, hwritten⟩ := hrun
  obtain ⟨horder, hconsumed, hcount⟩ := messages_accounted ⟨_, _, hf⟩
  have hdropped := hcount (by simp [hpc, RunPc.Carries])
  rw [hreceived, hwritten] at hdropped
  exact ⟨f, hf, hreceived, horder, hdropped, hconsumed⟩

/-- The steps of `Run` left once the stop is closed. -/
def left (limit : Nat) (f : WebSocketFeed) : Nat :=
  f.run.left limit + Ring.stepsLeft f.ring.writer

/-- Once the stop is closed every step of `Run` brings it nearer to its end. -/
theorem left_stepRun (hstop : f.stopClosed = true) (h : f.Messages limit) {a : RunAct}
    (hg : f.stepRun c limit a = some g) : g.left limit < f.left limit := by
  simp only [left]
  rcases stepRun_messages hg with ⟨hf, hcarry, hring, -⟩ | ⟨k, bytes, hrun, hlen, rfl⟩ |
      ⟨k, bytes, ring, hrun, hring, rfl⟩ | ⟨k, b, ring, hrun, hread, hbegin, hring, rfl⟩ |
      ⟨k, hrun, -, rfl⟩ | ⟨k, e, hrun, -, rfl⟩
  · rw [hring]
    refine Nat.add_lt_add_right ?_ _
    rcases stepRun_cases hg with ⟨hs, hgoes⟩ | ⟨hrun, rfl⟩ | ⟨k, hrun, rfl⟩ | ⟨k, hrun, rfl⟩ |
        ⟨k, hrun, rfl⟩
    · generalize f.run = pc, g.run = pc' at hgoes hf hcarry
      cases hgoes <;> simp_all [RunPc.left, RunPc.Carries]
    all_goals simp [hrun, RunPc.left]
  · simp only [hrun, RunPc.left]
    omega
  · have hbegin := (Ring.offered_begin hring).2.2
    obtain ⟨r, hr⟩ := h.between (by simp [hrun])
    simp only [hrun, RunPc.left, hbegin, hr]
    simp only [Ring.stepsLeft]
    omega
  · have hwrite : f.ring.stepWrite c b = some ring := by
      rw [Ring.step, hread] at hring
      exact hring
    exact Nat.add_lt_add_left (Ring.stepWrite_left hbegin hwrite) _
  · simp [hrun, RunPc.left]
  · simp [hrun, RunPc.left]

theorem left_own (hstop : f.stopClosed = true) (h : f.Messages limit) {a : FeedAct}
    (ha : a.isRun = true) (hg : f.step c limit a = some g) : g.left limit < f.left limit := by
  cases a with
  | run a => exact left_stepRun hstop h hg
  | _ => cases ha

theorem left_le (h : f.Messages limit) : f.left limit ≤ limit + 11 := by
  obtain ⟨hbetween, hshort, hfits, -, -⟩ := h
  simp only [left]
  generalize f.run = pc at hbetween hshort
  cases pc
  case writing k =>
    simp only [RunPc.left]
    omega
  case offering k message =>
    obtain ⟨r, hr⟩ := hbetween (by simp)
    have hlen := hshort k message rfl
    simp only [RunPc.left, hr, Ring.stepsLeft]
    omega
  all_goals
    obtain ⟨r, hr⟩ := hbetween (by simp)
    simp only [RunPc.left, hr, Ring.stepsLeft]
    omega

/-- Nobody else makes the way longer. -/
theorem left_other {a : FeedAct} (ha : a.isRun = false)
    (hg : f.step c limit a = some g) : g.left limit ≤ f.left limit := by
  cases a with
  | run a => cases ha
  | stop t a =>
    rcases stepStop_cases hg with ⟨-, rfl⟩ | ⟨-, -, rfl⟩ | ⟨-, -, rfl⟩ | ⟨-, rfl⟩ | ⟨_, -, -, rfl⟩ |
        ⟨-, -, rfl⟩ | ⟨_, -, rfl⟩ | ⟨-, -, rfl⟩
    all_goals exact le_refl (f.left limit)
  | hangUp k =>
    cases hg
    exact le_refl (f.left limit)
  | read a =>
    simp only [step] at hg
    split_ifs at hg with hread
    obtain ⟨ring, hring, rfl⟩ := Option.map_eq_some_iff.mp hg
    rw [Ring.step, if_pos hread] at hring
    simp only [left, (Ring.stepRead_written hring).1, le_refl]

theorem stopClosed_step (hstop : f.stopClosed = true) {a : FeedAct}
    (hg : f.step c limit a = some g) : g.stopClosed = true := by
  cases a with
  | run a =>
    rcases stepRun_cases hg with ⟨hs, -⟩ | ⟨-, rfl⟩ | ⟨_, -, rfl⟩ | ⟨_, -, rfl⟩ | ⟨_, -, rfl⟩
    · exact hs.2.2.2.2.2.trans hstop
    all_goals exact hstop
  | stop t a =>
    rcases stepStop_cases hg with ⟨-, rfl⟩ | ⟨-, -, rfl⟩ | ⟨-, -, rfl⟩ | ⟨-, rfl⟩ | ⟨_, -, -, rfl⟩ |
        ⟨-, -, rfl⟩ | ⟨_, -, rfl⟩ | ⟨-, -, rfl⟩
    case inr.inr.inr.inl => rfl
    all_goals exact hstop
  | hangUp k =>
    cases hg
    exact hstop
  | read a =>
    simp only [step] at hg
    split_ifs at hg
    obtain ⟨ring, -, rfl⟩ := Option.map_eq_some_iff.mp hg
    exact hstop

/-- One message may still come in: the one `Run` waits for while the stop closes. -/
def comes (f : WebSocketFeed) : Nat :=
  match f.run with
  | .reading _ => 1
  | _ => 0

theorem comes_le (f : WebSocketFeed) : f.comes ≤ 1 := by
  simp only [comes]
  split <;> omega

/-- After the stop is closed `Run` waits for no message again. -/
theorem comes_step (hstop : f.stopClosed = true) {a : FeedAct} (hg : f.step c limit a = some g) :
    (a.isMessage = true → g.comes < f.comes) ∧ g.comes ≤ f.comes := by
  cases a with
  | run a =>
    cases a
    case message bytes =>
      simp only [step, stepRun] at hg
      split at hg
      · rename_i k hrun
        split_ifs at hg
        cases hg
        simp [comes, hrun]
      · cases hg
    all_goals
      refine ⟨fun h => Bool.noConfusion h, ?_⟩
      simp only [step] at hg
      rcases stepRun_cases hg with ⟨hs, hgoes⟩ | ⟨hrun, rfl⟩ | ⟨k, hrun, rfl⟩ | ⟨k, hrun, rfl⟩ |
          ⟨k, hrun, rfl⟩
      · simp only [comes]
        generalize f.run = pc, g.run = pc' at hgoes
        cases hgoes <;> simp_all
      all_goals simp [comes]
  | stop t a =>
    refine ⟨fun h => Bool.noConfusion h, ?_⟩
    rcases stepStop_cases hg with ⟨-, rfl⟩ | ⟨-, -, rfl⟩ | ⟨-, -, rfl⟩ | ⟨-, rfl⟩ | ⟨_, -, -, rfl⟩ |
        ⟨-, -, rfl⟩ | ⟨_, -, rfl⟩ | ⟨-, -, rfl⟩
    all_goals exact le_refl f.comes
  | hangUp k =>
    cases hg
    exact ⟨fun h => Bool.noConfusion h, le_refl f.comes⟩
  | read a =>
    simp only [step] at hg
    split_ifs at hg
    obtain ⟨ring, -, rfl⟩ := Option.map_eq_some_iff.mp hg
    exact ⟨fun h => Bool.noConfusion h, le_refl f.comes⟩

/-- Once the stop is over `Run` never has to wait for the exchange. -/
theorem exists_stepRun (hlimit : limit < 2 ^ 64) (hinv : f.Inv) (hm : f.Messages limit)
    (honce : f.stopOnce = .done) (hrun : f.run ≠ .returned) :
    ∃ a g, (FeedAct.run a).isMessage = false ∧ f.stepRun c limit a = some g := by
  cases hpc : f.run with
  | ready => exact ⟨.start, _, rfl, by simp only [stepRun, hpc]; rfl⟩
  | top => exact ⟨.check, _, rfl, by simp only [stepRun, hpc]; rfl⟩
  | dialing => exact ⟨.dialFail, _, rfl, by simp only [stepRun, hpc]; rfl⟩
  | dialled k => exact ⟨.store, _, rfl, by simp only [stepRun, hpc]; rfl⟩
  | sleeping => exact ⟨.timer, _, rfl, by simp only [stepRun, hpc]; rfl⟩
  | entering => exact ⟨.load, _, rfl, by simp only [stepRun, hpc]; rfl⟩
  | polling k => exact ⟨.poll, _, rfl, by simp only [stepRun, hpc]; rfl⟩
  | leaving k => exact ⟨.swapOut, _, rfl, by simp only [stepRun, hpc]; rfl⟩
  | closing k => exact ⟨.close, _, rfl, by simp only [stepRun, hpc]; rfl⟩
  | returned => exact absurd hpc hrun
  | reading k =>
    -- nobody is inside `stopOnce` any more, so the connection that is read has been closed
    have hout : ∀ t, ¬ (f.stop t).Inside := fun t ht => by
      simpa [honce] using hinv.once.inside t ht
    have hclosed : k ∈ f.closed := by
      rcases hinv.reads.within k (by simp [hpc, RunPc.InLoop]) with hc | hp | ⟨t, ht⟩
      · exact hc
      · obtain ⟨t, ht⟩ := hinv.reads.stopping (by simp [hpc, RunPc.PastTest]) k hp
          (hinv.once.closed honce)
        exact absurd (by simp [ht, StopPc.Inside]) (hout t)
      · exact absurd (by simp [ht, StopPc.Inside]) (hout t)
    exact ⟨.readError, _, rfl, by simp only [stepRun, hpc, hclosed, true_or, if_true]; rfl⟩
  | offering k message =>
    obtain ⟨r, hr⟩ := hm.between (by simp [hpc])
    have hlen : message.length < 2 ^ 64 := (hm.short k message hpc).trans_lt hlimit
    have hring : f.ring.step c (.writeBegin .go message) =
        some { f.ring with writer := .begun .go message } := by
      simpa [Ring.step, Act.isRead, Ring.stepWrite, hr] using hlen
    exact ⟨.offer, _, rfl, by simp only [stepRun, hpc, hring]; rfl⟩
  | writing k =>
    cases hw : f.ring.writer with
    | idle r =>
      cases r with
      | ok _ => exact ⟨.finish, _, rfl, by simp only [stepRun, hpc, hw]; rfl⟩
      | error e => exact ⟨.finish, _, rfl, by simp only [stepRun, hpc, hw]; rfl⟩
    | _ =>
      obtain ⟨b, ring, hbegin, hread, hring⟩ :=
        Ring.exists_stepWrite c (s := f.ring) (by rw [hw]; simp [Ring.batchOf])
      exact ⟨.write b, _, rfl, by simp only [stepRun, hpc, hread, hbegin, hring]; rfl⟩

/-- After the stop is closed `Run` reads at most one more message and returns within a number of its
own steps that the longest message gives, whatever the others do, and a call of `Stop` never waits
for the exchange: while `Run` has not returned it can go on without a message. -/
theorem stop_completes (hlimit : limit < 2 ^ 64) (hf : f.Reachable c limit)
    (hstop : f.stopClosed = true) :
    (f.stopOnce = .done → f.run ≠ .returned →
      ∃ a g, (FeedAct.run a).isMessage = false ∧ f.stepRun c limit a = some g) ∧
    ∀ later g, Steps.run (step c limit) f later = some g →
      later.countP FeedAct.isRun ≤ limit + 11 ∧ later.countP FeedAct.isMessage ≤ 1 := by
  have hinv := hf.inv
  have hm : f.Messages limit := by
    obtain ⟨mem, acts, hrun⟩ := hf
    exact Steps.run_keeps (fun hs ht => messages_step hs ht) (messages_new limit mem) hrun
  refine ⟨exists_stepRun hlimit hinv hm, ?_⟩
  intro later g hg
  have hkeep : ∀ {s : WebSocketFeed} {a : FeedAct} {u : WebSocketFeed},
      s.stopClosed = true ∧ s.Messages limit → s.step c limit a = some u →
      u.stopClosed = true ∧ u.Messages limit :=
    fun hs hu => ⟨stopClosed_step hs.1 hu, messages_step hs.2 hu⟩
  have hsteps : later.countP FeedAct.isRun + g.left limit ≤ f.left limit :=
    Steps.count_le_measure @hkeep (fun hs ha hu => left_own hs.1 hs.2 ha hu)
      (fun _ ha hu => left_other ha hu) ⟨hstop, hm⟩ hg
  have hmessages : later.countP FeedAct.isMessage + g.comes ≤ f.comes :=
    Steps.count_le_measure @hkeep (fun hs ha hu => (comes_step hs.1 hu).1 ha)
      (fun hs _ hu => (comes_step hs.1 hu).2) ⟨hstop, hm⟩ hg
  have hleft := left_le hm
  have hcomes := comes_le f
  constructor <;> omega

/-- From the closed stop on: `Run` reads a last message into a ring with room for it, comes back to
its loop and returns. -/
def lastActs : List FeedAct :=
  [.run (.message [7]), .run .offer, .run (.write .writeLoadWrite), .run (.write .writeLoadRead),
    .run (.write .writeCheck), .run (.write (.writeByte 0)), .run (.write .writePublish),
    .run .finish, .run .poll, .run .swapOut, .run .close, .run .check]

theorem stop_completes_one :
    ∃ f, Steps.run (step ⟨4, 2, rfl⟩ 9) (new fun _ => 0) (stopActs.take 11) = some f ∧
      (∃ a g, (FeedAct.run a).isMessage = false ∧ f.stepRun ⟨4, 2, rfl⟩ 9 a = some g) ∧
      lastActs.countP FeedAct.isRun ≤ 20 ∧ lastActs.countP FeedAct.isMessage ≤ 1 := by
  have hrun : ∃ f ∈ Steps.run (step ⟨4, 2, rfl⟩ 9) (new fun _ => 0) (stopActs.take 11),
      f.stopClosed = true ∧ f.stopOnce = .done ∧ f.run = .reading 0 ∧
        ∃ g ∈ Steps.run (step ⟨4, 2, rfl⟩ 9) f lastActs, g.run = .returned := by
    decide
  obtain ⟨f, hf, hstop, honce, hpc, g, hg, -⟩ := hrun
  obtain ⟨hgoes, hbound⟩ := stop_completes (by decide) ⟨_, _, hf⟩ hstop
  exact ⟨f, hf, hgoes honce (by simp [hpc]), hbound lastActs g hg⟩

end WebSocketFeed

end Flowlab.Ingest
