import Flowlab.Framework.Steps
import Flowlab.Replay.History

namespace Flowlab.Replay

open Flowlab.Core (Event ReplayState SequencedEvent Xxh3)
open Framework

/-- `size_of::<Event>()`. -/
def eventSize : Nat := 40

/-- An event as the log stores it, with its two bytes of padding. -/
@[ext] structure LoggedEvent where
  event : Event
  pad : UInt8 × UInt8
  deriving DecidableEq

namespace LoggedEvent

/-- `bytes_of(event)`. -/
def bytes (e : LoggedEvent) : List UInt8 := (SequencedEvent.mk 0 0 e.event e.pad).eventBytes

/-- One record of `cast_slice(&mmap)`. -/
def ofBytes (bs : List UInt8) : LoggedEvent where
  event :=
    { ts := UInt64.ofNat (Bytes.ofLe (Bytes.slice bs 0 8))
      price := UInt64.ofNat (Bytes.ofLe (Bytes.slice bs 8 8))
      qty := UInt64.ofNat (Bytes.ofLe (Bytes.slice bs 16 8))
      orderId := UInt64.ofNat (Bytes.ofLe (Bytes.slice bs 24 8))
      instrumentId := UInt32.ofNat (Bytes.ofLe (Bytes.slice bs 32 4))
      eventType := bs.getD 36 0
      side := bs.getD 37 0 }
  pad := (bs.getD 38 0, bs.getD 39 0)

/-- A field of 8 bytes is written as it was read. -/
theorem toLe_slice {bs : List UInt8} {p : Nat} (h : p + 8 ≤ bs.length) :
    Bytes.toLe 8 (UInt64.ofNat (Bytes.ofLe (Bytes.slice bs p 8))).toNat = Bytes.slice bs p 8 := by
  have hlen := Bytes.length_slice h
  have hlt := Bytes.ofLe_lt (Bytes.slice bs p 8)
  have hback := Bytes.toLe_ofLe (Bytes.slice bs p 8)
  rw [hlen] at hlt hback
  rw [UInt64.toNat_ofNat', Nat.mod_eq_of_lt (by simpa using hlt), hback]

/-- Any 40 bytes are a record. -/
theorem bytes_ofBytes {bs : List UInt8} (h : bs.length = eventSize) : (ofBytes bs).bytes = bs := by
  rw [eventSize] at h
  have hinstrument : Bytes.toLe 4 (UInt32.ofNat (Bytes.ofLe (Bytes.slice bs 32 4))).toNat =
      Bytes.slice bs 32 4 := by
    have hlen : (Bytes.slice bs 32 4).length = 4 := Bytes.length_slice (by omega)
    have hlt := Bytes.ofLe_lt (Bytes.slice bs 32 4)
    have hback := Bytes.toLe_ofLe (Bytes.slice bs 32 4)
    rw [hlen] at hlt hback
    rw [UInt32.toNat_ofNat', Nat.mod_eq_of_lt (by simpa using hlt), hback]
  have hlast : [bs.getD 36 0, bs.getD 37 0, bs.getD 38 0, bs.getD 39 0] = Bytes.slice bs 36 4 := by
    apply List.ext_getElem
    · rw [Bytes.length_slice (by omega)]
      rfl
    · intro i hi hi'
      simp only [List.length_cons, List.length_nil] at hi
      interval_cases i <;> simp [Bytes.slice, List.getElem_take, List.getD_eq_getElem?_getD, h]
  simp only [ofBytes, bytes, SequencedEvent.eventBytes]
  rw [toLe_slice (by omega), toLe_slice (by omega), toLe_slice (by omega), toLe_slice (by omega),
    hinstrument, hlast]
  rw [Bytes.slice_append, Bytes.slice_append, Bytes.slice_append, Bytes.slice_append,
    Bytes.slice_append, Bytes.slice, List.drop_zero, List.take_of_length_le (by omega)]

@[simp] theorem length_bytes (e : LoggedEvent) : e.bytes.length = eventSize := by
  simp [bytes, SequencedEvent.eventBytes, eventSize]

theorem bytes_inj {e e' : LoggedEvent} (h : e.bytes = e'.bytes) : e = e' := by
  have hblock : hashBlock 0 (0, e.event, e.pad) = hashBlock 0 (0, e'.event, e'.pad) :=
    congrArg (Bytes.toLe 8 0 ++ Bytes.toLe 8 0 ++ ·) h
  obtain ⟨_, hsame⟩ := hashBlock_inj _ _ _ _ hblock
  simp only [Prod.mk.injEq] at hsame
  exact LoggedEvent.ext hsame.2.1 hsame.2.2

theorem ofBytes_bytes (e : LoggedEvent) : ofBytes e.bytes = e :=
  bytes_inj (bytes_ofBytes e.length_bytes)

end LoggedEvent

/-- `cast_slice(&mmap)`. -/
def castSlice (bs : List UInt8) : List LoggedEvent :=
  Bytes.readItems LoggedEvent.ofBytes eventSize bs (bs.length / eventSize) 0

theorem castSlice_bytes (es : List LoggedEvent) : castSlice (es.flatMap LoggedEvent.bytes) = es := by
  have hlen := Bytes.length_flatMap_of fun e (_ : e ∈ es) => e.length_bytes
  have hread : Bytes.readItems LoggedEvent.ofBytes eventSize (es.flatMap LoggedEvent.bytes) es.length 0 = es :=
    Bytes.readItems_flatMap (fun e _ => e.length_bytes) (fun e _ => e.ofBytes_bytes)
      (by rw [List.nil_append, List.append_nil]) rfl
  rw [castSlice, hlen, Nat.mul_div_cancel_left _ (by decide)]
  exact hread

/-- Whole records are what they are read as. -/
theorem flatMap_castSlice {bs : List UInt8} (h : eventSize ∣ bs.length) :
    (castSlice bs).flatMap LoggedEvent.bytes = bs := by
  obtain ⟨n, hn⟩ := h
  have hall : ∀ k p, p + eventSize * k ≤ bs.length →
      (Bytes.readItems LoggedEvent.ofBytes eventSize bs k p).flatMap LoggedEvent.bytes =
        Bytes.slice bs p (eventSize * k) := by
    intro k
    induction k with
    | zero =>
      intro p _
      simp [Bytes.readItems, Bytes.slice]
    | succ k ih =>
      intro p hp
      rw [Nat.mul_succ] at hp
      have hhead := LoggedEvent.bytes_ofBytes (Bytes.length_slice (by omega : p + eventSize ≤ bs.length))
      rw [Bytes.readItems, List.flatMap_cons, hhead, ih (p + eventSize) (by omega),
        Bytes.slice_append, Nat.mul_succ, Nat.add_comm]
  rw [castSlice, hall _ _ (by rw [hn, Nat.mul_div_cancel_left _ (by decide)]; omega), hn,
    Nat.mul_div_cancel_left _ (by decide), ← hn, Bytes.slice, List.drop_zero, List.take_length]

/-- A log file with its writer, of which the count is kept. -/
structure EventLog where
  file : Option (List UInt8)
  writer : Option UInt64

/-- What a process does with the log; of the bytes of a write so many reach the file, all of them
unless it fails. -/
inductive LogAct where
  | create
  | append
  | writeEvent (event : LoggedEvent) (arrived : Nat)
  | writeBatch (events : List LoggedEvent) (arrived : Nat)
  | close

namespace EventLog

def create (l : EventLog) : Option EventLog :=
  if l.writer = none then some ⟨some [], some 0⟩ else none

def append (l : EventLog) : Option EventLog :=
  if l.writer = none then
    let bytes := l.file.getD []
    some ⟨some bytes, some (UInt64.ofNat (bytes.length / eventSize))⟩
  else none

/-- `file.write_all(bytes)`, and the count of a write that did not fail. -/
def writeAll (l : EventLog) (bytes : List UInt8) (events : UInt64) (arrived : Nat) :
    Option EventLog :=
  match l.file, l.writer with
  | some file, some count =>
    if bytes.length ≤ arrived then some ⟨some (file ++ bytes), some (count + events)⟩
    else some ⟨some (file ++ bytes.take arrived), some count⟩
  | _, _ => none

def writeEvent (l : EventLog) (event : LoggedEvent) (arrived : Nat) : Option EventLog :=
  l.writeAll event.bytes 1 arrived

def writeBatch (l : EventLog) (events : List LoggedEvent) (arrived : Nat) : Option EventLog :=
  l.writeAll (events.flatMap LoggedEvent.bytes) (UInt64.ofNat events.length) arrived

def count (l : EventLog) : Option UInt64 := l.writer

/-- One act; `none` where there is no writer for it, or one already. -/
def step (l : EventLog) : LogAct → Option EventLog
  | .create => l.create
  | .append => l.append
  | .writeEvent event arrived => l.writeEvent event arrived
  | .writeBatch events arrived => l.writeBatch events arrived
  | .close => if l.writer = none then none else some { l with writer := none }

end EventLog

/-- The events in the log after an act, where so many of them arrived. -/
def LogAct.logged (es : List LoggedEvent) : LogAct → List LoggedEvent
  | .create => []
  | .append => es
  | .writeEvent event arrived => es ++ [event].take (arrived / eventSize)
  | .writeBatch events arrived => es ++ events.take (arrived / eventSize)
  | .close => es

/-- No record is torn. -/
def LogAct.Whole : LogAct → Prop
  | .create | .append | .close => True
  | .writeEvent _ arrived | .writeBatch _ arrived => eventSize ∣ arrived

inductive LogError where
  | io (reason : String)
  | corruptedLog (reason : String)
  | replay (e : ReplayError)
  deriving DecidableEq

/-- The events of a file as `replay_from_file` numbers them. -/
def numberedFrom (i : Nat) : List LoggedEvent → List SequencedEvent
  | [] => []
  | e :: es => ⟨UInt64.ofNat i + 1, 0, e.event, e.pad⟩ :: numberedFrom (i + 1) es

namespace ReplayEngine

/-- `replay_from_file` on what opening the path gives, with the mapping as a parameter; its loop is
that of `replay`. -/
def replayFromFile (x : Xxh3) (mmap : List UInt8 → Except String (List UInt8)) (g : ReplayEngine)
    (file : Except String (List UInt8)) : ReplayEngine × Except LogError ReplayResult :=
  match file with
  | .error e => (g, .error (.io e))
  | .ok file =>
    match mmap file with
    | .error e => (g, .error (.io e))
    | .ok bytes =>
      if bytes.length % eventSize ≠ 0 then
        (g, .error (.corruptedLog
          s!"file size {bytes.length} not aligned to event size {eventSize}"))
      else
        match g.replay x (numberedFrom 0 (castSlice bytes)) with
        | (g', .error e) => (g', .error (.replay e))
        | (g', .ok r) => (g', .ok r)

end ReplayEngine

end Flowlab.Replay
