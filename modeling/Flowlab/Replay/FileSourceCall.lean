import Flowlab.Replay.FileSourceRun

namespace Flowlab.Replay.FileSource

open Framework
open Flowlab.Replay.Itch (deleteAt msgLength)

instance (buf : List UInt8) (entry q : Nat) : Decidable (Boundary buf entry q) :=
  inferInstanceAs (Decidable (_ ∨ _))

/-- The bytes a call has written end at a message boundary, as long as no write splits the rest of a
batch inside a message. -/
theorem published_on_boundary {source : FileItchReplay} {pace : Pace} {ring : Ring} {c : Capacity}
    {moves : List Move} {d : Drive} (hidle : ∃ r, ring.writer = .idle r)
    (hsplit : SplitsAt (Boundary source.buf source.cursor) c (.start source pace ring) moves)
    (hrun : (Drive.start source pace ring).run c moves = some d) :
    ∃ q, Boundary source.buf source.cursor q ∧
      d.ring.log = ring.log ++ between source.buf source.cursor q := by
  obtain ⟨passed, h, hw⟩ := published_start (fun _ hq => hq) hidle hsplit hrun
  obtain ⟨q, hq, hlog⟩ := exists_published (fun _ hq => hq) h hw
  exact ⟨q, hq.ok, hlog⟩

/-- A write up to its test for room. -/
def checkMoves : List Move :=
  [.drive, .ring .writeLoadWrite, .ring .writeLoadRead, .ring .writeCheck]

/-- A write that finds room for its `n` bytes. -/
def writeMoves (n : Nat) : List Move :=
  checkMoves ++ List.replicate n (.ring (.writeByte 0)) ++ [.ring .writePublish]

/-- One delete goes through a ring of 32 bytes. -/
theorem published_on_boundary_delete :
    ∃ d, (Drive.start ⟨deleteAt 5, 0⟩ .asFastAsPossible (.create fun _ => 0)).run ⟨32, 5, rfl⟩
        ([.drive, .drive] ++ writeMoves 19 ++ [.drive]) = some d ∧
      ∃ q, Boundary (deleteAt 5) 0 q ∧
        d.ring.log = (Ring.create fun _ => 0).log ++ between (deleteAt 5) 0 q := by
  have hrun : ((Drive.start ⟨deleteAt 5, 0⟩ .asFastAsPossible (.create fun _ => 0)).run ⟨32, 5, rfl⟩
      ([.drive, .drive] ++ writeMoves 19 ++ [.drive])).isSome := by decide
  obtain ⟨d, hd⟩ := Option.isSome_iff_exists.mp hrun
  exact ⟨d, hd, published_on_boundary ⟨_, rfl⟩ (by unfold SplitsAt; decide) hd⟩

/-- Through a ring of 8 bytes the first write publishes the first 8 bytes of the message. -/
theorem published_inside_message :
    ∃ d, (Drive.start ⟨deleteAt 5, 0⟩ .asFastAsPossible (.create fun _ => 0)).run ⟨8, 3, rfl⟩
        ([.drive, .drive] ++ checkMoves ++ writeMoves 8) = some d ∧
      (messages (deleteAt 5) 0).2 = (deleteAt 5).length ∧
      d.ring.log = between (deleteAt 5) 0 8 ∧ ¬ Boundary (deleteAt 5) 0 8 := by
  have hrun : ∃ d ∈ (Drive.start ⟨deleteAt 5, 0⟩ .asFastAsPossible (.create fun _ => 0)).run
      ⟨8, 3, rfl⟩ ([.drive, .drive] ++ checkMoves ++ writeMoves 8),
      d.ring.log = between (deleteAt 5) 0 8 := by
    decide
  obtain ⟨d, hd, hlog⟩ := hrun
  exact ⟨d, hd, by decide, hlog, by decide⟩

/-! What a call that has returned has written. -/

/-- At the end of the buffer, or at what is no whole message, the walk over the messages stops. -/
theorem Passed.stopped {source : FileItchReplay} {pace : Pace} {d : Drive} {passed : List Nat}
    (h : Passed source pace d passed)
    (hend : messages source.buf d.source.cursor = ([], d.source.cursor)) :
    messages source.buf source.cursor = (passed, d.source.cursor) := by
  have hwalk := h.walk
  rw [hend, List.append_nil] at hwalk
  exact hwalk

theorem messages_end {buf : List UInt8} {p : Nat} (h : buf.length ≤ p) :
    messages buf p = ([], p) := by
  refine Tagged.walk_none ?_
  rw [Tagged.next, if_neg]
  rintro ⟨hlt, -, -⟩
  omega

/-- The bytes up to `q` are the bytes up to `r` only where `q` is `r`. -/
theorem append_between_inj {buf log : List UInt8} {p q r : Nat} (hpq : p ≤ q) (hqr : q ≤ r)
    (hr : r ≤ buf.length) : log ++ between buf p q = log ++ between buf p r ↔ q = r := by
  constructor
  · intro h
    have hlen := congrArg List.length (List.append_cancel_left h)
    rw [length_between (hqr.trans hr), length_between hr] at hlen
    omega
  · rintro rfl
    rfl

/-- A call that the ring did not stop has passed all whole messages. -/
theorem Passed.returned {source : FileItchReplay} {pace : Pace} {d : Drive} {passed : List Nat}
    (h : Passed source pace d passed) {result : Except ReplayError ReplayStats}
    (hret : d.phase = .returned result) (hres : ∀ e, result ≠ .error (.ring e)) :
    messages source.buf source.cursor = (passed, d.source.cursor) := by
  have hstops := h.stops
  rw [hret] at hstops
  cases result with
  | ok stats => exact h.stopped (messages_end hstops)
  | error e => exact h.stopped (hstops fun r he => hres r (he ▸ rfl)).2

/-- A call that returns `Ok`, or that an unknown or a cut message stops, has written the bytes its
cursor passed exactly when it reached the end of the buffer or stopped where a full batch ends. -/
theorem drive_written_iff {source : FileItchReplay} {pace : Pace} {ring : Ring} {c : Capacity}
    {moves : List Move} {d : Drive} {result : Except ReplayError ReplayStats}
    (hidle : ∃ r, ring.writer = .idle r)
    (hrun : (Drive.start source pace ring).run c moves = some d)
    (hret : d.phase = .returned result) (hres : ∀ e, result ≠ .error (.ring e)) :
    d.ring.log = ring.log ++ between source.buf source.cursor d.source.cursor ↔
      source.buf.length ≤ (messages source.buf source.cursor).2 ∨
        batchFrom source.buf source.cursor (messages source.buf source.cursor).1 =
          (messages source.buf source.cursor).2 := by
  obtain ⟨passed, h, hw⟩ := published_anywhere hidle hrun
  have hstops := h.stops
  rw [hret] at hstops
  simp only [Published, hret] at hw
  rw [h.returned hret hres]
  cases result with
  | ok stats => exact iff_of_true hw.2.log (.inl hstops)
  | error e =>
    have hring : ∀ r, e ≠ .ring r := fun r he => hres r (he ▸ rfl)
    obtain ⟨hlt, -⟩ := hstops hring
    obtain ⟨q, hq, hrest, hbatch⟩ := hw
    have hle : d.source.cursor ≤ source.buf.length := hlt.le
    rw [hrest.log, append_between_inj hq.entry_le hq.le hle, hbatch hring]
    constructor
    · exact .inr
    · rintro (hlen | hfull)
      · dsimp only at hlen
        omega
      · exact hfull

/-- One delete through a ring of 32 bytes, and the call returns. -/
theorem drive_written_iff_delete :
    ∃ d stats, (Drive.start ⟨deleteAt 5, 0⟩ .asFastAsPossible (.create fun _ => 0)).run ⟨32, 5, rfl⟩
        ([.drive, .drive] ++ writeMoves 19 ++ [.drive]) = some d ∧
      d.phase = .returned (.ok stats) ∧
      (d.ring.log = (Ring.create fun _ => 0).log ++ between (deleteAt 5) 0 d.source.cursor ↔
        (deleteAt 5).length ≤ (messages (deleteAt 5) 0).2 ∨
          batchFrom (deleteAt 5) 0 (messages (deleteAt 5) 0).1 = (messages (deleteAt 5) 0).2) := by
  have hrun : ((Drive.start ⟨deleteAt 5, 0⟩ .asFastAsPossible (.create fun _ => 0)).run ⟨32, 5, rfl⟩
      ([.drive, .drive] ++ writeMoves 19 ++ [.drive])).isSome := by decide
  obtain ⟨d, hd⟩ := Option.isSome_iff_exists.mp hrun
  have hret : d.phase = .returned (.ok ⟨1, 19⟩) := by
    have hphase := congrArg (Option.map Drive.phase) hd
    exact (Option.some.inj hphase).symm
  exact ⟨d, _, hd, hret, drive_written_iff ⟨_, rfl⟩ hd hret (fun _ h => nomatch h)⟩

/-- A byte of no type behind a delete: the call returns with its cursor behind the delete and has
written nothing, and the next call starts there. -/
theorem delete_unwritten :
    ∃ d e, (Drive.start ⟨deleteAt 5 ++ [90], 0⟩ .asFastAsPossible (.create fun _ => 0)).run
        ⟨32, 5, rfl⟩ [.drive, .drive] = some d ∧
      d.phase = .returned (.error (.unknownType 90 19)) ∧ d.source.cursor = 19 ∧
      d.ring.log ≠ between (deleteAt 5 ++ [90]) 0 d.source.cursor ∧
      (Drive.start d.source .asFastAsPossible d.ring).run ⟨32, 5, rfl⟩ [.drive] = some e ∧
      e.phase = .returned (.error (.unknownType 90 19)) ∧ e.ring.log = [] := by
  refine ⟨_, _, rfl, rfl, rfl, ?_, rfl, rfl, rfl⟩
  intro h
  have hlen : 0 = 19 := congrArg List.length h
  cases hlen

/-! What the pacing subtracts. -/

/-- No message that is paced is stamped before the first. -/
def InOrder (buf : List UInt8) (entry : Nat) : Prop :=
  ∀ first ∈ (stamps buf (messages buf entry).1).head?,
    ∀ ts ∈ stamps buf (messages buf entry).1, first ≤ ts

theorem stamps_append (buf : List UInt8) (l r : List Nat) :
    stamps buf (l ++ r) = stamps buf l ++ stamps buf r := List.filterMap_append

/-- Every timestamp is measured from the first. -/
theorem forall_delaysOf {speedup : Rounding.Fp} {l : List UInt64} {P : UInt64 → UInt64 → Prop} :
    (∀ x ∈ delaysOf (.realTime speedup) l, P x.first x.ts) ↔
      ∀ first ∈ l.head?, ∀ ts ∈ l, P first ts := by
  cases l with
  | nil => simp [delaysOf]
  | cons t l => simp [delaysOf, Delay.of]

theorem stamps_of_walk {source : FileItchReplay} {pace : Pace} {d : Drive} {passed : List Nat}
    (h : Passed source pace d passed) :
    ∃ left, stamps source.buf (messages source.buf source.cursor).1 =
      stamps source.buf passed ++ left := by
  rw [h.walk, stamps_append]
  exact ⟨_, rfl⟩

/-- The deltas of the real-time pacing are never negative when the messages are stamped in order,
and in a call that the ring did not stop only then. -/
theorem delta_nonneg_iff {source : FileItchReplay} {speedup : Rounding.Fp} {ring : Ring}
    {c : Capacity} (hidle : ∃ r, ring.writer = .idle r) :
    (InOrder source.buf source.cursor → ∀ moves d,
      (Drive.start source (.realTime speedup) ring).run c moves = some d →
        ∀ x ∈ d.delays, x.first ≤ x.ts) ∧
    ∀ moves d result, (Drive.start source (.realTime speedup) ring).run c moves = some d →
      d.phase = .returned result → (∀ e, result ≠ .error (.ring e)) →
        (∀ x ∈ d.delays, x.first ≤ x.ts) → InOrder source.buf source.cursor := by
  constructor
  · intro horder moves d hrun
    obtain ⟨passed, h, -⟩ := published_anywhere hidle hrun
    obtain ⟨left, hleft⟩ := stamps_of_walk h
    rw [InOrder, hleft] at horder
    rw [h.delays]
    refine forall_delaysOf.mpr ?_
    intro first hfirst ts hts
    refine horder first ?_ ts (List.mem_append_left left hts)
    rw [List.head?_append, Option.mem_def.mp hfirst]
    rfl
  · intro moves d result hrun hret hres hdelays
    obtain ⟨passed, h, -⟩ := published_anywhere hidle hrun
    rw [h.delays] at hdelays
    rw [InOrder, h.returned hret hres]
    exact forall_delaysOf.mp hdelays

/-- Two deletes, stamped in order, and a byte of no type. -/
theorem delta_nonneg_iff_deletes :
    ∃ d, (Drive.start ⟨deleteAt 5 ++ deleteAt 9 ++ [90], 0⟩ (.realTime (.fin 1))
        (.create fun _ => 0)).run ⟨64, 6, rfl⟩ [.drive, .drive, .drive] = some d ∧
      d.phase = .returned (.error (.unknownType 90 38)) ∧ d.delays.length = 2 ∧
      InOrder (deleteAt 5 ++ deleteAt 9 ++ [90]) 0 ∧
      ((∀ x ∈ d.delays, x.first ≤ x.ts) ↔ InOrder (deleteAt 5 ++ deleteAt 9 ++ [90]) 0) := by
  have hidle : ∃ r, (Ring.create fun _ => 0).writer = .idle r := ⟨_, rfl⟩
  have hstamps : stamps (deleteAt 5 ++ deleteAt 9 ++ [90])
      (messages (deleteAt 5 ++ deleteAt 9 ++ [90]) 0).1 = [5, 9] := rfl
  obtain ⟨hforward, hback⟩ :=
    @delta_nonneg_iff ⟨deleteAt 5 ++ deleteAt 9 ++ [90], 0⟩ (.fin 1) _ ⟨64, 6, rfl⟩ hidle
  refine ⟨_, rfl, rfl, rfl, ?_, fun h => ?_, fun h => ?_⟩
  · rw [InOrder, hstamps]
    simp
  · exact hback [.drive, .drive, .drive] _ _ rfl rfl (fun _ h => nomatch h) h
  · exact hforward h [.drive, .drive, .drive] _ rfl

/-- The second of two deletes is stamped before the first: the subtraction wraps around. -/
theorem delta_wraps :
    ∃ d, (Drive.start ⟨deleteAt 9 ++ deleteAt 5, 0⟩ (.realTime (.fin 1))
        (.create fun _ => 0)).run ⟨64, 6, rfl⟩ [.drive, .drive] = some d ∧
      ∃ x ∈ d.delays, x.ts < x.first ∧ x.ts - x.first = 0xFFFFFFFFFFFFFFFC := by
  refine ⟨_, rfl, Delay.of (.fin 1) 5 9, List.mem_cons_of_mem _ List.mem_cons_self, ?_⟩
  decide

end Flowlab.Replay.FileSource
