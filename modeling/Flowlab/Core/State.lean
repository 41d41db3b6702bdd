import Flowlab.Core.OrderBook

namespace Flowlab.Core

open Framework

/-- An event with its place in the stream; `pad` holds the event's two padding bytes, which only
the state hash reads. -/
structure SequencedEvent where
  seq : UInt64
  channelId : UInt32
  event : Event
  pad : UInt8 × UInt8
  deriving DecidableEq

/-- `bytes_of(&event)`: the 40 bytes of the record. -/
def SequencedEvent.eventBytes (s : SequencedEvent) : List UInt8 :=
  Bytes.toLe 8 s.event.ts.toNat ++ Bytes.toLe 8 s.event.price.toNat ++
    Bytes.toLe 8 s.event.qty.toNat ++ Bytes.toLe 8 s.event.orderId.toNat ++
    Bytes.toLe 4 s.event.instrumentId.toNat ++ [s.event.eventType, s.event.side, s.pad.1, s.pad.2]

inductive StateError where
  | sequenceGap (expected got : UInt64)
  deriving DecidableEq, Repr

/-- The deterministic state machine of `state.rs`. -/
@[ext] structure ReplayState where
  book : OrderBook
  lastSeq : Option UInt64
  stateHash : UInt64

namespace ReplayState

def new (instrumentId : UInt32) : ReplayState := ⟨OrderBook.new instrumentId, none, 0⟩

/-- The part of `process` behind the sequence check: book, last number and running hash. -/
def accept (x : Xxh3) (s : ReplayState) (ev : SequencedEvent) : ReplayState where
  book := (s.book.apply ev.event).1
  lastSeq := some ev.seq
  stateHash :=
    x.hash (Bytes.toLe 8 s.stateHash.toNat ++ Bytes.toLe 8 ev.seq.toNat ++ ev.eventBytes)

def process (x : Xxh3) (s : ReplayState) (ev : SequencedEvent) :
    ReplayState × Except StateError Unit :=
  match s.lastSeq with
  | some last =>
    let expected := last + 1
    if ev.seq ≠ expected then (s, .error (.sequenceGap expected ev.seq))
    else (s.accept x ev, .ok ())
  | none => (s.accept x ev, .ok ())

def hash (s : ReplayState) : UInt64 := s.stateHash

/-- The sequence check of `process`: the first event sets the anchor. -/
def Follows (s : ReplayState) (ev : SequencedEvent) : Prop :=
  ∀ last, s.lastSeq = some last → ev.seq = last + 1

theorem process_accepted (x : Xxh3) {s : ReplayState} {ev : SequencedEvent} (h : s.Follows ev) :
    s.process x ev = (s.accept x ev, .ok ()) := by
  simp only [process]
  cases hl : s.lastSeq with
  | none => rfl
  | some last => simp only [h last hl, ne_eq, not_true_eq_false, if_false]

theorem process_refused (x : Xxh3) {s : ReplayState} {ev : SequencedEvent} (h : ¬ s.Follows ev) :
    ∃ last, s.lastSeq = some last ∧ ev.seq ≠ last + 1 ∧
      s.process x ev = (s, .error (.sequenceGap (last + 1) ev.seq)) := by
  simp only [Follows, not_forall] at h
  obtain ⟨last, hl, hne⟩ := h
  refine ⟨last, hl, hne, ?_⟩
  simp only [process, hl, ne_eq, hne, not_false_eq_true, if_true]

end ReplayState

end Flowlab.Core
