import Flowlab.Replay.FileSource
import Flowlab.Replay.RingRun

namespace Flowlab.Replay

open Framework

namespace FileSource

open Flowlab.Replay.Itch (msgLength)

/-! The messages of a buffer, and what `drive` makes of them. -/

/-- Where the whole messages from `p` on begin, and where they stop. -/
def messages (buf : List UInt8) (p : Nat) : List Nat × Nat :=
  Tagged.walk msgLength (fun i => buf.getD i 0) buf.length p

/-- Between two messages, in front of the first or behind the last. -/
def Boundary (buf : List UInt8) (entry q : Nat) : Prop :=
  q ∈ (messages buf entry).1 ∨ q = (messages buf entry).2

/-- Where the last full batch ends when the messages at `starts` have passed. -/
def batchFrom (buf : List UInt8) (entry : Nat) (starts : List Nat) : Nat :=
  starts.foldl (fun start p =>
    let q := p + msgLength (buf.getD p 0)
    if q - start ≥ batchTarget then q else start) entry

def messageAt (buf : List UInt8) (p : Nat) : List UInt8 :=
  Bytes.slice buf p (msgLength (buf.getD p 0))

/-- The timestamps that pace the messages at `starts`. -/
def stamps (buf : List UInt8) (starts : List Nat) : List UInt64 :=
  starts.filterMap (fun p => extractTsNs (messageAt buf p))

/-- The first of them is what the others are measured from. -/
def delaysOf (pace : Pace) (stamps : List UInt64) : List Delay :=
  match pace with
  | .asFastAsPossible => []
  | .realTime speedup => stamps.map (fun ts => Delay.of speedup ts (stamps.head?.getD ts))

def between (buf : List UInt8) (p q : Nat) : List UInt8 := Bytes.slice buf p (q - p)

theorem between_self (buf : List UInt8) (p : Nat) : between buf p p = [] := by
  rw [between, Nat.sub_self]
  rfl

theorem between_append {buf : List UInt8} {p q r : Nat} (hpq : p ≤ q) (hqr : q ≤ r) :
    between buf p q ++ between buf q r = between buf p r := by
  obtain ⟨a, rfl⟩ := Nat.exists_eq_add_of_le hpq
  obtain ⟨b, rfl⟩ := Nat.exists_eq_add_of_le hqr
  rw [between, between, between, Nat.add_sub_cancel_left, Nat.add_sub_cancel_left, Nat.add_assoc,
    Nat.add_sub_cancel_left, Bytes.slice, Bytes.slice, Bytes.slice, List.take_add, List.drop_drop]

theorem length_between {buf : List UInt8} {p q : Nat} (hq : q ≤ buf.length) :
    (between buf p q).length = q - p := by
  rw [between, Bytes.slice, List.length_take, List.length_drop]
  omega

theorem length_between_le (buf : List UInt8) (p q : Nat) : (between buf p q).length ≤ q - p := by
  rw [between, Bytes.slice]
  exact List.length_take_le _ _

theorem take_between {buf : List UInt8} {p q n : Nat} (h : p + n ≤ q) :
    (between buf p q).take n = between buf p (p + n) := by
  rw [between, between, Bytes.slice, Bytes.slice, List.take_take, Nat.add_sub_cancel_left,
    Nat.min_eq_left (by omega)]

theorem drop_between (buf : List UInt8) (p q n : Nat) :
    (between buf p q).drop n = between buf (p + n) q := by
  rw [between, between, Bytes.slice, Bytes.slice, List.drop_take, List.drop_drop]
  congr 1
  omega

theorem batchFrom_concat (buf : List UInt8) (entry : Nat) (starts : List Nat) (p : Nat) :
    batchFrom buf entry (starts ++ [p]) =
      if p + msgLength (buf.getD p 0) - batchFrom buf entry starts ≥ batchTarget then
        p + msgLength (buf.getD p 0)
      else batchFrom buf entry starts := by
  rw [batchFrom, List.foldl_append]
  rfl

theorem delaysOf_concat (speedup : Rounding.Fp) (l : List UInt64) (ts : UInt64) :
    delaysOf (.realTime speedup) (l ++ [ts]) =
      delaysOf (.realTime speedup) l ++ [Delay.of speedup ts (l.head?.getD ts)] := by
  cases l with
  | nil => rfl
  | cons t l => simp [delaysOf]

/-- Where the messages that are left begin is a boundary. -/
theorem boundary_of_walk {buf : List UInt8} {entry q : Nat} {passed : List Nat}
    (h : messages buf entry = (passed ++ (messages buf q).1, (messages buf q).2)) :
    Boundary buf entry q := by
  rw [Boundary, h]
  cases hnext : Tagged.next msgLength (fun i => buf.getD i 0) buf.length q with
  | none =>
    right
    rw [messages, Tagged.walk_none hnext]
  | some pair =>
    left
    obtain ⟨rfl, -⟩ := Tagged.next_some hnext
    rw [messages, Tagged.walk_some hnext]
    exact List.mem_append_right _ List.mem_cons_self

/-! What a call has made of its source. -/

/-- Where the cursor stands once the loop is left: at the end of the buffer, or at what is no whole
message. -/
def Phase.Stops (buf : List UInt8) (cursor : Nat) : Phase → Prop
  | .scanning => True
  | .flushing _ last => last = true → buf.length ≤ cursor
  | .writing _ last => last = true → buf.length ≤ cursor
  | .writingHead _ _ last => last = true → buf.length ≤ cursor
  | .returned (.ok _) => buf.length ≤ cursor
  | .returned (.error e) =>
    (∀ r, e ≠ .ring r) → cursor < buf.length ∧ messages buf cursor = ([], cursor)

/-- The messages at `passed` are those in front of the cursor, and the pacing has seen them. -/
structure Passed (source : FileItchReplay) (pace : Pace) (d : Drive) (passed : List Nat) : Prop where
  sameBuf : d.source.buf = source.buf
  samePace : d.pace = pace
  walk : messages source.buf source.cursor =
    (passed ++ (messages source.buf d.source.cursor).1, (messages source.buf d.source.cursor).2)
  entry : source.cursor ≤ d.source.cursor
  inside : d.source.cursor = source.cursor ∨ d.source.cursor ≤ source.buf.length
  first : ∀ speedup, pace = .realTime speedup → d.firstTsNs = (stamps source.buf passed).head?
  delays : d.delays = delaysOf pace (stamps source.buf passed)
  stops : d.phase.Stops source.buf d.source.cursor

theorem passed_start (source : FileItchReplay) (pace : Pace) (ring : Ring) :
    Passed source pace (.start source pace ring) [] where
  sameBuf := rfl
  samePace := rfl
  walk := rfl
  entry := le_rfl
  inside := .inl rfl
  first _ _ := rfl
  delays := by cases pace <;> rfl
  stops := trivial

section

variable {source : FileItchReplay} {pace : Pace} {d : Drive} {passed : List Nat}

theorem Passed.setRing (h : Passed source pace d passed) (ring : Ring) :
    Passed source pace { d with ring := ring } passed :=
  ⟨h.sameBuf, h.samePace, h.walk, h.entry, h.inside, h.first, h.delays, h.stops⟩

/-- A phase may be entered when the cursor stands where it says. -/
theorem Passed.setPhase (h : Passed source pace d passed) {phase : Phase}
    (hp : phase.Stops source.buf d.source.cursor) :
    Passed source pace { d with phase := phase } passed :=
  ⟨h.sameBuf, h.samePace, h.walk, h.entry, h.inside, h.first, h.delays, hp⟩

/-- What the pacing makes of one more message. -/
theorem Passed.paced (h : Passed source pace d passed) (p : Nat) :
    (∀ speedup, pace = .realTime speedup → (d.paced (messageAt source.buf p)).firstTsNs =
      (stamps source.buf (passed ++ [p])).head?) ∧
    (d.paced (messageAt source.buf p)).delays =
      delaysOf pace (stamps source.buf (passed ++ [p])) := by
  have hstamps : stamps source.buf (passed ++ [p]) =
      stamps source.buf passed ++ (extractTsNs (messageAt source.buf p)).toList := by
    rw [stamps, List.filterMap_append, Tagged.filterMap_cons_toList]
    simp [stamps]
  rw [hstamps]
  cases hpace : pace with
  | asFastAsPossible =>
    refine ⟨fun _ h => (nomatch h), ?_⟩
    rw [Drive.paced, h.samePace, hpace]
    have hd := h.delays
    rw [hpace] at hd
    exact hd
  | realTime speedup =>
    have hf := h.first speedup hpace
    have hd := h.delays
    rw [hpace] at hd
    rw [Drive.paced, h.samePace, hpace]
    cases extractTsNs (messageAt source.buf p) with
    | none =>
      rw [Option.toList_none, List.append_nil]
      exact ⟨fun _ _ => hf, hd⟩
    | some ts =>
      rw [Option.toList_some, delaysOf_concat]
      dsimp only
      rw [hf, hd]
      refine ⟨fun _ _ => ?_, rfl⟩
      cases stamps source.buf passed <;> rfl

/-- The turn over the whole message at the cursor. -/
theorem Passed.next (h : Passed source pace d passed) {len : Nat}
    (hlen : len = msgLength (source.buf.getD d.source.cursor 0)) (hpos : len ≠ 0)
    (hfit : d.source.cursor + len ≤ source.buf.length) {phase : Phase}
    (hp : phase.Stops source.buf (d.source.cursor + len)) :
    Passed source pace
      { (d.paced (Bytes.slice d.source.buf d.source.cursor len)).advance len with phase := phase }
      (passed ++ [d.source.cursor]) := by
  have hentry := h.entry
  have hmsg : Bytes.slice d.source.buf d.source.cursor len =
      messageAt source.buf d.source.cursor := by rw [h.sameBuf, messageAt, hlen]
  obtain ⟨hfirst, hdelays⟩ := h.paced d.source.cursor
  have hnext : Tagged.next msgLength (fun i => source.buf.getD i 0) source.buf.length
      d.source.cursor = some (d.source.cursor, d.source.cursor + len) := by
    rw [Tagged.next, ← hlen, if_pos ⟨by omega, hpos, hfit⟩]
  have hwalk := h.walk
  rw [messages, messages, Tagged.walk_some hnext] at hwalk
  rw [hmsg]
  constructor
  case sameBuf =>
    simp only [Drive.advance, Drive.paced_source]
    exact h.sameBuf
  case samePace =>
    simp only [Drive.advance, Drive.paced_pace]
    exact h.samePace
  case walk =>
    simp only [Drive.advance, Drive.paced_source]
    rw [List.append_assoc]
    exact hwalk
  case entry =>
    simp only [Drive.advance, Drive.paced_source]
    omega
  case inside =>
    simp only [Drive.advance, Drive.paced_source]
    exact .inr hfit
  case first => exact hfirst
  case delays => exact hdelays
  case stops =>
    simp only [Drive.advance, Drive.paced_source]
    exact hp

/-- Behind the last whole message nothing is left to walk. -/
theorem messages_stopped {buf : List UInt8} {p : Nat}
    (h : msgLength (buf.getD p 0) = 0 ∨ buf.length < p + msgLength (buf.getD p 0)) :
    messages buf p = ([], p) := by
  refine Tagged.walk_none ?_
  rw [Tagged.next, if_neg]
  rintro ⟨hlt, hpos, hle⟩
  rcases h with h | h
  · exact hpos h
  · omega

/-- One turn of the loop: it stops at an error or at the end, or it passes a message, which may
complete a batch. -/
theorem scan_cases (h : Passed source pace d passed) :
    (d.source.cursor < source.buf.length ∧
      messages source.buf d.source.cursor = ([], d.source.cursor) ∧
      ∃ e, (∀ r, e ≠ .ring r) ∧ d.scan = { d with phase := .returned (.error e) }) ∨
    (source.buf.length ≤ d.source.cursor ∧
      ((d.batchStart < d.source.cursor ∧ d.scan = { d with phase := .flushing d.batch true }) ∨
        (d.source.cursor ≤ d.batchStart ∧ d.scan = { d with phase := .returned (.ok d.stats) }))) ∨
    ∃ len, len = msgLength (source.buf.getD d.source.cursor 0) ∧ len ≠ 0 ∧
      d.source.cursor + len ≤ source.buf.length ∧
      ((d.source.cursor + len - d.batchStart < batchTarget ∧
          d.scan = (d.paced (Bytes.slice d.source.buf d.source.cursor len)).advance len) ∨
        (batchTarget ≤ d.source.cursor + len - d.batchStart ∧
          d.scan = { (d.paced (Bytes.slice d.source.buf d.source.cursor len)).advance len with
            phase :=
              .flushing (between source.buf d.batchStart (d.source.cursor + len)) false })) := by
  rw [Drive.scan, h.sameBuf]
  dsimp only
  split_ifs with hlt hunknown hcut hfull hrest
  · left
    exact ⟨hlt, messages_stopped (.inl hunknown), _, fun r => by simp, rfl⟩
  · left
    exact ⟨hlt, messages_stopped (.inr hcut), _, fun r => by simp, rfl⟩
  · right; right
    refine ⟨_, rfl, hunknown, by omega, .inr ?_⟩
    simp only [Drive.advance, Drive.paced_source, Drive.paced_batchStart] at hfull
    refine ⟨hfull, ?_⟩
    simp only [Drive.batch, Drive.advance, Drive.paced_source, Drive.paced_batchStart, h.sameBuf,
      between]
  · right; right
    refine ⟨_, rfl, hunknown, by omega, .inl ?_⟩
    simp only [Drive.advance, Drive.paced_source, Drive.paced_batchStart] at hfull
    exact ⟨by omega, rfl⟩
  · right; left
    exact ⟨by omega, .inl ⟨hrest, rfl⟩⟩
  · right; left
    exact ⟨by omega, .inr ⟨by omega, rfl⟩⟩

end

/-! What a call has written. -/

/-- The writer is between calls and what it wrote since `log` are the source's bytes up to `q`. -/
structure Rests (source : FileItchReplay) (log : List UInt8) (ring : Ring) (q : Nat) : Prop where
  log : ring.log = log ++ between source.buf source.cursor q
  idle : ∃ r, ring.writer = .idle r

/-- An offset with `P` between the call's entry and its cursor. -/
structure Sent (P : Nat → Prop) (entry cursor q : Nat) : Prop where
  ok : P q
  entry_le : entry ≤ q
  le : q ≤ cursor

/-- What was written ends at an offset with `P`, and what is left of the batch follows it. A flush
inside the loop ends where its batch does. -/
def Published (P : Nat → Prop) (source : FileItchReplay) (log : List UInt8) (d : Drive)
    (passed : List Nat) : Prop :=
  let closes := fun last => last = false →
    batchFrom source.buf source.cursor passed = d.source.cursor
  let sent := Sent P source.cursor d.source.cursor
  match d.phase with
  | .scanning => sent d.batchStart ∧ Rests source log d.ring d.batchStart ∧
      d.batchStart = batchFrom source.buf source.cursor passed
  | .flushing rest last => closes last ∧ ∃ q, sent q ∧ Rests source log d.ring q ∧
      rest = between source.buf q d.source.cursor
  | .writing rest last => closes last ∧ ∃ q, sent q ∧
      Ring.Issued (log ++ between source.buf source.cursor q) rest d.ring ∧
      rest = between source.buf q d.source.cursor
  | .writingHead head tail last => closes last ∧ ∃ q q', sent q ∧ sent q' ∧ q ≤ q' ∧
      Ring.Issued (log ++ between source.buf source.cursor q) head d.ring ∧
      head = between source.buf q q' ∧ tail = between source.buf q' d.source.cursor
  | .returned (.ok _) => sent d.source.cursor ∧ Rests source log d.ring d.source.cursor
  | .returned (.error e) => ∃ q, sent q ∧ Rests source log d.ring q ∧
      ((∀ r, e ≠ .ring r) → q = batchFrom source.buf source.cursor passed)

/-- The offset at which the call splits the rest of a batch that found room for a part of it. -/
def Drive.split (d : Drive) : Option Nat :=
  match d.phase, d.ring.writer with
  | .writing rest _, .idle (.error (.full _ avail)) =>
    if 0 < avail then some (d.source.cursor - rest.length + avail) else none
  | _, _ => none

/-- Every such split is at an offset with `P`. -/
def SplitsAt (P : Nat → Prop) (c : Capacity) (d : Drive) (moves : List Move) : Prop :=
  ∀ pre ∈ moves.inits, ∀ e ∈ d.run c pre, ∀ q ∈ e.split, P q

section

variable {P : Nat → Prop} {source : FileItchReplay} {log : List UInt8} {pace : Pace} {d : Drive}
  {passed : List Nat} {c : Capacity}

theorem Rests.step {ring ring' : Ring} {q : Nat} (h : Rests source log ring q) {a : Act}
    (hb : a.isWriteBegin = false) (ht : ring.step c a = some ring') : Rests source log ring' q := by
  obtain ⟨r, hr⟩ := h.idle
  obtain ⟨hw, hlog⟩ := Ring.idle_step hr hb ht
  exact ⟨hlog.trans h.log, r, hw⟩

/-- Steps of the ring finish the write in progress, or leave what was written alone. -/
theorem published_ring (h : Published P source log d passed) {a : Act} (hb : a.isWriteBegin = false)
    {ring : Ring} (ht : d.ring.step c a = some ring) :
    Published P source log { d with ring := ring } passed := by
  simp only [Published] at h ⊢
  split
  all_goals rename_i hp; rw [hp] at h
  · exact ⟨h.1, h.2.1.step hb ht, h.2.2⟩
  · obtain ⟨hcl, q, hq, hrest, heq⟩ := h
    exact ⟨hcl, q, hq, hrest.step hb ht, heq⟩
  · obtain ⟨hcl, q, hq, hissued, heq⟩ := h
    exact ⟨hcl, q, hq, Ring.issued_step hissued hb ht, heq⟩
  · obtain ⟨hcl, q, q', hq, hq', hle, hissued, heq⟩ := h
    exact ⟨hcl, q, q', hq, hq', hle,
      Ring.issued_step hissued hb ht, heq⟩
  · exact ⟨h.1, h.2.step hb ht⟩
  · obtain ⟨q, hq, hrest, heq⟩ := h
    exact ⟨q, hq, hrest.step hb ht, heq⟩

/-- One turn of the loop keeps what was written, and the batches end where `batchFrom` says. -/
theorem published_scan (h : Passed source pace d passed) (hw : Published P source log d passed)
    (hp : d.phase = .scanning) :
    ∃ passed', Passed source pace d.scan passed' ∧ Published P source log d.scan passed' := by
  simp only [Published, hp] at hw
  obtain ⟨hsent, hrest, hbatch⟩ := hw
  have hentry := h.entry
  have hle := hsent.le
  rcases scan_cases h with ⟨hlt, hend, e, he, hscan⟩ | ⟨hend, hstop⟩ | ⟨len, hlen, hpos, hfit, hturn⟩
  · rw [hscan]
    exact ⟨passed, h.setPhase (fun _ => ⟨hlt, hend⟩), d.batchStart, hsent, hrest, fun _ => hbatch⟩
  · refine ⟨passed, ?_⟩
    rcases hstop with ⟨hlt, hscan⟩ | ⟨hge, hscan⟩
    · rw [hscan]
      refine ⟨h.setPhase (fun _ => hend), by simp, d.batchStart, hsent, hrest, ?_⟩
      rw [Drive.batch, h.sameBuf]
      rfl
    · have heq : d.batchStart = d.source.cursor := by omega
      rw [hscan]
      refine ⟨h.setPhase hend, ⟨heq ▸ hsent.ok, hentry, le_rfl⟩, ?_⟩
      rw [← heq]
      exact hrest
  · refine ⟨passed ++ [d.source.cursor], ?_⟩
    rcases hturn with ⟨hshort, hscan⟩ | ⟨hfull, hscan⟩
    · have hstops : Phase.Stops source.buf (d.source.cursor + len) .scanning := trivial
      have hnext := h.next hlen hpos hfit hstops
      have hphase : ({ (d.paced (Bytes.slice d.source.buf d.source.cursor len)).advance len with
          phase := .scanning } : Drive) =
          (d.paced (Bytes.slice d.source.buf d.source.cursor len)).advance len := by
        simp [Drive.advance, hp]
      rw [hphase] at hnext
      rw [hscan]
      refine ⟨hnext, ?_⟩
      simp only [Published, Drive.advance, Drive.paced_phase, hp, Drive.paced_batchStart,
        Drive.paced_ring]
      refine ⟨⟨hsent.ok, hsent.entry_le, ?_⟩, hrest, ?_⟩
      · simp only [Drive.paced_source]
        omega
      · rw [batchFrom_concat, ← hlen, ← hbatch, if_neg (by omega)]
    · rw [hscan]
      refine ⟨h.next hlen hpos hfit (by simp [Phase.Stops]), ?_⟩
      simp only [Published, Drive.advance, Drive.paced_source, Drive.paced_ring]
      refine ⟨fun _ => ?_, d.batchStart, ⟨hsent.ok, hsent.entry_le, ?_⟩, hrest, rfl⟩
      · rw [batchFrom_concat, ← hlen, ← hbatch, if_pos hfull]
      · omega

/-- A flush that succeeded wrote everything up to the cursor. -/
theorem published_flushed (hP : ∀ q, Boundary source.buf source.cursor q → P q)
    (h : Passed source pace d passed) {last : Bool}
    (hs : last = true → source.buf.length ≤ d.source.cursor)
    (hcl : last = false → batchFrom source.buf source.cursor passed = d.source.cursor)
    (hrest : Rests source log d.ring d.source.cursor) :
    Passed source pace (d.flushed last) passed ∧
      Published P source log (d.flushed last) passed := by
  have hok := hP _ (boundary_of_walk h.walk)
  cases last with
  | true =>
    exact ⟨h.setPhase (hs rfl), ⟨hok, h.entry, le_rfl⟩, hrest⟩
  | false =>
    refine ⟨⟨h.sameBuf, h.samePace, h.walk, h.entry, h.inside, h.first, h.delays, trivial⟩,
      ⟨hok, h.entry, le_rfl⟩, hrest, (hcl rfl).symm⟩

/-- A write that begins. -/
theorem write_issued {bytes : List UInt8} {phase : Phase} {e : Drive} {q : Nat}
    (hrest : Rests source log d.ring q) (he : d.write c bytes phase = some e) :
    e = { d with ring := e.ring, phase := phase } ∧
      Ring.Issued (log ++ between source.buf source.cursor q) bytes e.ring := by
  obtain ⟨ring, hring, rfl⟩ := Option.map_eq_some_iff.mp he
  refine ⟨rfl, ?_⟩
  rw [← hrest.log]
  exact Ring.issued_begin hring

/-- A write that returned `Ok`. -/
theorem rests_of_ok {ring : Ring} {bytes : List UInt8} {q r : Nat}
    (h : Ring.Issued (log ++ between source.buf source.cursor q) bytes ring)
    (hbytes : bytes = between source.buf q r) (hq : source.cursor ≤ q) (hqr : q ≤ r)
    (hidle : ring.writer = .idle (.ok ())) : Rests source log ring r := by
  refine ⟨?_, _, hidle⟩
  rw [h.log_of_ok hidle, List.append_assoc, hbytes, between_append hq hqr]

/-- What is left of a batch reaches up to the cursor. -/
theorem Passed.length_rest (h : Passed source pace d passed) {q : Nat}
    (hq : Sent P source.cursor d.source.cursor q) :
    q + (between source.buf q d.source.cursor).length = d.source.cursor := by
  have hentry := hq.entry_le
  have hle := hq.le
  have hlen := length_between_le source.buf q d.source.cursor
  rcases h.inside with hin | hin
  · omega
  · rw [length_between hin]
    omega

section

variable {rest : List UInt8} {last : Bool} {e : Drive}

theorem published_flushing (hP : ∀ q, Boundary source.buf source.cursor q → P q)
    (h : Passed source pace d passed) (hw : Published P source log d passed)
    (hp : d.phase = .flushing rest last) (hs : d.stepDrive c = some e) :
    Passed source pace e passed ∧ Published P source log e passed := by
  simp only [Published, hp] at hw
  obtain ⟨hcl, q, hq, hrest, heq⟩ := hw
  have hend := h.stops
  rw [hp] at hend
  rw [Drive.stepDrive, hp] at hs
  dsimp only at hs
  split_ifs at hs with hempty
  · have hnil : between source.buf q d.source.cursor = [] := heq ▸ List.isEmpty_iff.mp hempty
    have hdone : Rests source log d.ring d.source.cursor := by
      refine ⟨?_, hrest.idle⟩
      rw [hrest.log, ← between_append hq.entry_le hq.le, hnil, List.append_nil]
    rw [← Option.some.inj hs]
    exact published_flushed hP h hend hcl hdone
  · obtain ⟨he, hissued⟩ := write_issued hrest hs
    rw [he]
    exact ⟨(h.setRing e.ring).setPhase hend, hcl, q, hq, hissued, heq⟩

/-- `write` has returned: the batch is flushed, it is split where the room ends, or it is tried
again. -/
theorem published_writing (hP : ∀ q, Boundary source.buf source.cursor q → P q)
    (h : Passed source pace d passed) (hw : Published P source log d passed)
    (hsplit : ∀ q ∈ d.split, P q) (hp : d.phase = .writing rest last)
    (hs : d.stepDrive c = some e) :
    Passed source pace e passed ∧ Published P source log e passed := by
  simp only [Published, hp] at hw
  obtain ⟨hcl, q, hq, hissued, heq⟩ := hw
  have hend := h.stops
  rw [hp] at hend
  rw [Drive.stepDrive, hp] at hs
  dsimp only at hs
  split at hs
  · rename_i hidle
    rw [← Option.some.inj hs]
    exact published_flushed hP h hend hcl (rests_of_ok hissued heq hq.entry_le hq.le hidle)
  · rename_i need avail hidle
    obtain ⟨hlt, hlog⟩ := hissued.log_of_full hidle
    have hrest : Rests source log d.ring q := ⟨hlog, _, hidle⟩
    split_ifs at hs with hroom
    · obtain ⟨he, hhead⟩ := write_issued hrest hs
      have hlen := h.length_rest hq
      rw [← heq] at hlen
      have hentry := hq.entry_le
      have hfit : q + avail ≤ d.source.cursor := by omega
      have hat : d.split = some (q + avail) := by
        have hpos : d.source.cursor - rest.length + avail = q + avail := by omega
        rw [Drive.split, hp, hidle]
        dsimp only
        rw [if_pos hroom, hpos]
      rw [he]
      refine ⟨(h.setRing e.ring).setPhase hend, hcl, q, q + avail, hq,
        ⟨hsplit _ hat, by omega, hfit⟩, by omega, hhead, ?_, ?_⟩
      · rw [heq, take_between hfit]
      · rw [heq, drop_between]
    · rw [← Option.some.inj hs]
      exact ⟨h.setPhase hend, hcl, q, hq, hrest, heq⟩
  · cases hs

/-- The head of a split batch is written, or the ring's error leaves the call. -/
theorem published_writingHead {head tail : List UInt8} (h : Passed source pace d passed)
    (hw : Published P source log d passed) (hp : d.phase = .writingHead head tail last)
    (hs : d.stepDrive c = some e) :
    Passed source pace e passed ∧ Published P source log e passed := by
  simp only [Published, hp] at hw
  obtain ⟨hcl, q, q', hq, hq', hle, hissued, hhead, htail⟩ := hw
  have hend := h.stops
  rw [hp] at hend
  rw [Drive.stepDrive, hp] at hs
  dsimp only at hs
  split at hs
  · rename_i hidle
    rw [← Option.some.inj hs]
    have hdone := rests_of_ok hissued hhead hq.entry_le hle hidle
    exact ⟨h.setPhase hend, hcl, q', hq', hdone, htail⟩
  · rename_i er hidle
    rw [← Option.some.inj hs]
    cases er with
    | full need avail =>
      have hrest : Rests source log d.ring q := ⟨(hissued.log_of_full hidle).2, _, hidle⟩
      exact ⟨h.setPhase (fun hno => absurd rfl (hno _)), q, hq, hrest,
        fun hno => absurd rfl (hno _)⟩
  · cases hs

end

/-- A step of the call itself. -/
theorem published_drive (hP : ∀ q, Boundary source.buf source.cursor q → P q)
    (h : Passed source pace d passed) (hw : Published P source log d passed)
    (hsplit : ∀ q ∈ d.split, P q) {e : Drive} (hs : d.stepDrive c = some e) :
    ∃ passed', Passed source pace e passed' ∧ Published P source log e passed' := by
  cases hp : d.phase with
  | scanning =>
    rw [Drive.stepDrive, hp] at hs
    rw [← Option.some.inj hs]
    exact published_scan h hw hp
  | flushing rest last => exact ⟨passed, published_flushing hP h hw hp hs⟩
  | writing rest last => exact ⟨passed, published_writing hP h hw hsplit hp hs⟩
  | writingHead head tail last => exact ⟨passed, published_writingHead h hw hp hs⟩
  | returned result =>
    rw [Drive.stepDrive, hp] at hs
    cases hs

theorem published_step (hP : ∀ q, Boundary source.buf source.cursor q → P q)
    (h : Passed source pace d passed) (hw : Published P source log d passed)
    (hsplit : ∀ q ∈ d.split, P q) {m : Move} {e : Drive} (hs : d.step c m = some e) :
    ∃ passed', Passed source pace e passed' ∧ Published P source log e passed' := by
  cases m with
  | drive => exact published_drive hP h hw hsplit hs
  | ring a =>
    simp only [Drive.step] at hs
    split_ifs at hs with hb
    obtain ⟨ring, hring, rfl⟩ := Option.map_eq_some_iff.mp hs
    exact ⟨passed, h.setRing ring, published_ring hw (by simpa using hb) hring⟩

/-- Along a run whose refused writes all split the batch at an offset with `P`. -/
theorem published_run (hP : ∀ q, Boundary source.buf source.cursor q → P q)
    (h : Passed source pace d passed) (hw : Published P source log d passed) {moves : List Move}
    (hsplit : SplitsAt P c d moves) {e : Drive} (hrun : d.run c moves = some e) :
    ∃ passed', Passed source pace e passed' ∧ Published P source log e passed' := by
  induction moves generalizing d passed with
  | nil => exact Option.some.inj hrun ▸ ⟨passed, h, hw⟩
  | cons m moves ih =>
    rw [Drive.run_cons] at hrun
    obtain ⟨u, hu, hrest⟩ := Option.bind_eq_some_iff.mp hrun
    obtain ⟨passed', h', hw'⟩ := published_step hP h hw (hsplit [] (by simp) d rfl) hu
    refine ih h' hw' ?_ hrest
    intro pre hpre f hf
    refine hsplit (m :: pre) (by simpa using hpre) f ?_
    rw [Drive.run_cons, hu]
    exact hf

end

/-- The same from the start of the call. -/
theorem published_start {P : Nat → Prop} {source : FileItchReplay} {pace : Pace} {ring : Ring}
    {c : Capacity} (hP : ∀ q, Boundary source.buf source.cursor q → P q)
    (hidle : ∃ r, ring.writer = .idle r) {moves : List Move}
    (hsplit : SplitsAt P c (.start source pace ring) moves) {d : Drive}
    (hrun : (Drive.start source pace ring).run c moves = some d) :
    ∃ passed, Passed source pace d passed ∧ Published P source ring.log d passed := by
  refine published_run hP (passed_start source pace ring) ?_ hsplit hrun
  have hentry := hP _ (boundary_of_walk (passed_start source pace ring).walk)
  refine ⟨⟨hentry, le_rfl, le_rfl⟩, ⟨?_, hidle⟩, rfl⟩
  rw [Drive.start, between_self, List.append_nil]

/-- Wherever the batches are split. -/
theorem published_anywhere {source : FileItchReplay} {pace : Pace} {ring : Ring} {c : Capacity}
    (hidle : ∃ r, ring.writer = .idle r) {moves : List Move} {d : Drive}
    (hrun : (Drive.start source pace ring).run c moves = some d) :
    ∃ passed, Passed source pace d passed ∧
      Published (fun _ => True) source ring.log d passed := by
  have hsplit : SplitsAt (fun _ => True) c (.start source pace ring) moves := by
    intro _ _ _ _ _ _
    trivial
  exact published_start (fun _ _ => trivial) hidle hsplit hrun

/-- What a call has written ends at an offset with `P`. -/
theorem exists_published {P : Nat → Prop} {source : FileItchReplay} {pace : Pace} {log : List UInt8}
    {d : Drive} {passed : List Nat} (hP : ∀ q, Boundary source.buf source.cursor q → P q)
    (h : Passed source pace d passed) (hw : Published P source log d passed) :
    ∃ q, Sent P source.cursor d.source.cursor q ∧
      d.ring.log = log ++ between source.buf source.cursor q := by
  cases hp : d.phase with
  | scanning =>
    simp only [Published, hp] at hw
    exact ⟨d.batchStart, hw.1, hw.2.1.log⟩
  | flushing rest last =>
    simp only [Published, hp] at hw
    obtain ⟨-, q, hq, hrest, -⟩ := hw
    exact ⟨q, hq, hrest.log⟩
  | writing rest last =>
    simp only [Published, hp] at hw
    obtain ⟨-, q, hq, hissued, heq⟩ := hw
    rcases hissued.log_cases with hlog | hlog
    · exact ⟨q, hq, hlog⟩
    · refine ⟨d.source.cursor, ⟨hP _ (boundary_of_walk h.walk), h.entry, le_rfl⟩, ?_⟩
      rw [hlog, List.append_assoc, heq, between_append hq.entry_le hq.le]
  | writingHead head tail last =>
    simp only [Published, hp] at hw
    obtain ⟨-, q, q', hq, hq', hle, hissued, hhead, -⟩ := hw
    rcases hissued.log_cases with hlog | hlog
    · exact ⟨q, hq, hlog⟩
    · refine ⟨q', hq', ?_⟩
      rw [hlog, List.append_assoc, hhead, between_append hq.entry_le hle]
  | returned result =>
    cases result with
    | ok stats =>
      simp only [Published, hp] at hw
      exact ⟨_, hw.1, hw.2.log⟩
    | error er =>
      simp only [Published, hp] at hw
      obtain ⟨q, hq, hrest, -⟩ := hw
      exact ⟨q, hq, hrest.log⟩

end FileSource

end Flowlab.Replay
