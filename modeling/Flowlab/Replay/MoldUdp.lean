import Flowlab.Framework.Bytes
import Flowlab.Framework.FiniteMap

namespace Flowlab.Replay

open Std Framework

inductive MoldError where
  | tooShort (need got : Nat)
  | messageOverflow (want offset : Nat)
  | trailingBytes (n : Nat)
  deriving DecidableEq, Repr

@[ext] structure MoldHeader where
  session : List UInt8
  sequence : UInt64
  count : UInt16
  deriving DecidableEq, Repr

namespace MoldHeader

def size : Nat := 20

def endOfSession : UInt16 := 0xffff

def heartbeat : UInt16 := 0x0000

def isHeartbeat (h : MoldHeader) : Bool := h.count == heartbeat

def isEndOfSession (h : MoldHeader) : Bool := h.count == endOfSession

end MoldHeader

@[ext] structure MoldFrame where
  header : MoldHeader
  body : List UInt8
  deriving DecidableEq, Repr

@[ext] structure MoldMessageIter where
  body : List UInt8
  offset : Nat
  nextSeq : UInt64
  remaining : Nat
  deriving DecidableEq, Repr

/-- A sequence number with its payload. -/
abbrev Message := UInt64 × List UInt8

namespace MoldFrame

def parse (datagram : List UInt8) : Except MoldError MoldFrame :=
  if datagram.length < MoldHeader.size then
    .error (.tooShort MoldHeader.size datagram.length)
  else
    let header : MoldHeader :=
      { session := datagram.take 10
        sequence := UInt64.ofNat (Bytes.ofBe (Bytes.slice datagram 10 8))
        count := UInt16.ofNat (Bytes.ofBe (Bytes.slice datagram 18 2)) }
    let body := datagram.drop MoldHeader.size
    if (header.isHeartbeat || header.isEndOfSession) && !body.isEmpty then
      .error (.trailingBytes body.length)
    else .ok ⟨header, body⟩

def messages (f : MoldFrame) : MoldMessageIter where
  body := f.body
  offset := 0
  nextSeq := f.header.sequence
  remaining :=
    if f.header.isHeartbeat || f.header.isEndOfSession then 0 else f.header.count.toNat

end MoldFrame

namespace MoldMessageIter

/-- `next`: the item and the iterator after it; an error leaves the iterator where it was. -/
def next (it : MoldMessageIter) : Option (Except MoldError Message × MoldMessageIter) :=
  if it.remaining = 0 then none
  else if it.body.length < it.offset + 2 then
    some (.error (.tooShort 2 (it.body.length - it.offset)), it)
  else
    let len := Bytes.ofBe (Bytes.slice it.body it.offset 2)
    let start := it.offset + 2
    if it.body.length < start + len then some (.error (.messageOverflow len it.offset), it)
    else
      some (.ok (it.nextSeq, Bytes.slice it.body start len),
        { it with offset := start + len, nextSeq := it.nextSeq + 1, remaining := it.remaining - 1 })

/-- Every item up to the end; `none` when `fuel` steps do not reach the end. -/
def collect : Nat → MoldMessageIter → Option (List (Except MoldError Message))
  | 0, _ => none
  | fuel + 1, it =>
    match it.next with
    | none => some []
    | some (item, it) => (collect fuel it).map (item :: ·)

end MoldMessageIter

@[ext] structure GapStats where
  inOrderDelivered : UInt64
  reorderedDelivered : UInt64
  gapsOpened : UInt64
  gapsClosed : UInt64
  droppedOverflow : UInt64
  duplicatesIgnored : UInt64
  deriving DecidableEq, Repr

@[ext] structure GapTracker where
  expected : UInt64
  pending : ExtTreeMap UInt64 (List UInt8)
  maxBuffered : Nat
  stats : GapStats

@[ext] structure Delivered where
  sequence : UInt64
  payload : List UInt8
  deriving DecidableEq, Repr

namespace GapTracker

def withCapacity (startSequence : UInt64) (maxBuffered : Nat) : GapTracker :=
  ⟨startSequence, ∅, maxBuffered, ⟨0, 0, 0, 0, 0, 0⟩⟩

def new (startSequence : UInt64) : GapTracker := withCapacity startSequence (16 * 1024)

/-- `pending.iter().next()`. -/
def firstPending (t : GapTracker) : Option Message := t.pending.toList.head?

def openGap (t : GapTracker) : Option (UInt64 × UInt64) :=
  match t.firstPending with
  | none => none
  | some (firstBuffered, _) =>
    if firstBuffered > t.expected then some (t.expected, firstBuffered - 1) else none

/-- One turn of the drain loop. -/
def drainStep (t : GapTracker) (seq : UInt64) : GapTracker :=
  let t : GapTracker :=
    { t with
      pending := t.pending.erase seq
      expected := t.expected + 1
      stats := { t.stats with reorderedDelivered := t.stats.reorderedDelivered + 1 } }
  if t.pending.isEmpty || (t.firstPending.map Prod.fst != some t.expected) then
    if !t.pending.isEmpty then
      { t with stats := { t.stats with gapsClosed := t.stats.gapsClosed + 1 } }
    else t
  else t

/-- The `while let` loop of `ingest_one`; every turn takes one entry out of `pending`. -/
def drain : Nat → GapTracker → List Delivered → GapTracker × List Delivered
  | 0, t, out => (t, out)
  | fuel + 1, t, out =>
    match t.firstPending with
    | none => (t, out)
    | some (seq, buf) =>
      if seq = t.expected then drain fuel (t.drainStep seq) (out ++ [⟨seq, buf⟩]) else (t, out)

def ingestOne (t : GapTracker) (seq : UInt64) (payload : List UInt8) (out : List Delivered) :
    GapTracker × List Delivered :=
  if seq < t.expected then
    ({ t with stats := { t.stats with duplicatesIgnored := t.stats.duplicatesIgnored + 1 } }, out)
  else if seq = t.expected then
    let t : GapTracker :=
      { t with
        expected := t.expected + 1
        stats := { t.stats with inOrderDelivered := t.stats.inOrderDelivered + 1 } }
    t.drain t.pending.size (out ++ [⟨seq, payload⟩])
  else
    let t : GapTracker :=
      if t.pending.isEmpty then
        { t with stats := { t.stats with gapsOpened := t.stats.gapsOpened + 1 } }
      else t
    if t.maxBuffered ≤ t.pending.size then
      ({ t with stats := { t.stats with droppedOverflow := t.stats.droppedOverflow + 1 } }, out)
    else if t.pending.contains seq then
      ({ t with stats := { t.stats with duplicatesIgnored := t.stats.duplicatesIgnored + 1 } }, out)
    else ({ t with pending := t.pending.insert seq payload }, out)

def ingestSingle (t : GapTracker) (seq : UInt64) (payload : List UInt8) :
    GapTracker × List Delivered :=
  t.ingestOne seq payload []

/-- The `for` loop of `ingest`: errors are skipped and the iterator is asked again. -/
def ingestLoop : Nat → MoldMessageIter → GapTracker → List Delivered →
    Option (GapTracker × List Delivered)
  | 0, _, _, _ => none
  | fuel + 1, it, t, out =>
    match it.next with
    | none => some (t, out)
    | some (.error _, it) => ingestLoop fuel it t out
    | some (.ok (seq, payload), it) =>
      let r := t.ingestOne seq payload out
      ingestLoop fuel it r.1 r.2

/-- `ingest`, given `fuel` turns of its loop. -/
def ingest (fuel : Nat) (t : GapTracker) (f : MoldFrame) : Option (GapTracker × List Delivered) :=
  ingestLoop fuel f.messages t []

end GapTracker

/-- The bytes begin with `n` whole `[u16 BE len][msg]` records. -/
def WholeRecords : Nat → List UInt8 → Prop
  | 0, _ => True
  | n + 1, body =>
    2 ≤ body.length ∧ 2 + Bytes.ofBe (body.take 2) ≤ body.length ∧
      WholeRecords n (body.drop (2 + Bytes.ofBe (body.take 2)))

/-- Heartbeat, end of session, or as many whole records as the header declares. -/
def MoldFrame.WellFormed (f : MoldFrame) : Prop :=
  f.header.isHeartbeat = true ∨ f.header.isEndOfSession = true ∨
    WholeRecords f.header.count.toNat f.body

/-- The messages of `n` whole records. -/
def recordsOf : Nat → UInt64 → List UInt8 → List Message
  | 0, _, _ => []
  | n + 1, seq, body =>
    (seq, (body.drop 2).take (Bytes.ofBe (body.take 2))) ::
      recordsOf n (seq + 1) (body.drop (2 + Bytes.ofBe (body.take 2)))

/-- The length of the record at the front, its two length bytes included. -/
def recordLen (body : List UInt8) : Nat := 2 + Bytes.ofBe (body.take 2)

theorem wholeRecords_succ (n : Nat) (body : List UInt8) :
    WholeRecords (n + 1) body ↔ WholeRecords 1 body ∧ WholeRecords n (body.drop (recordLen body)) := by
  simp only [WholeRecords, recordLen, and_true]
  tauto

namespace MoldMessageIter

/-- The iterator after a whole record. -/
def advance (it : MoldMessageIter) : MoldMessageIter :=
  { it with
    offset := it.offset + recordLen (it.body.drop it.offset)
    nextSeq := it.nextSeq + 1
    remaining := it.remaining - 1 }

theorem next_done {it : MoldMessageIter} (h : it.remaining = 0) : it.next = none := by
  rw [next, if_pos h]

/-- A whole record at the offset is yielded and passed over. -/
theorem next_ok {it : MoldMessageIter} (hr : it.remaining ≠ 0)
    (hw : WholeRecords 1 (it.body.drop it.offset)) :
    it.next = some (.ok (it.nextSeq,
        ((it.body.drop it.offset).drop 2).take (Bytes.ofBe ((it.body.drop it.offset).take 2))),
      it.advance) := by
  obtain ⟨h1, h2, _⟩ := hw
  rw [List.length_drop] at h1 h2
  rw [next, if_neg hr, if_neg (by omega)]
  dsimp only [Bytes.slice]
  rw [if_neg (by omega), List.drop_drop, advance, recordLen, Nat.add_assoc]

/-- Without a whole record at the offset the iterator errs and stands still. -/
theorem next_error {it : MoldMessageIter} (hr : it.remaining ≠ 0)
    (hw : ¬ WholeRecords 1 (it.body.drop it.offset)) : ∃ e, it.next = some (.error e, it) := by
  rw [next, if_neg hr]
  split_ifs with h1
  · exact ⟨_, rfl⟩
  · dsimp only [Bytes.slice]
    split_ifs with h2
    · exact ⟨_, rfl⟩
    · refine absurd ⟨?_, ?_, trivial⟩ hw
      · rw [List.length_drop]
        omega
      · rw [List.length_drop]
        omega

theorem advance_drop (it : MoldMessageIter) : it.advance.body.drop it.advance.offset =
    (it.body.drop it.offset).drop (recordLen (it.body.drop it.offset)) := by
  rw [List.drop_drop]
  rfl

/-- Whole records are yielded one by one, and the iteration ends after the last. -/
theorem collect_whole {n fuel : Nat} {it : MoldMessageIter} (hr : it.remaining = n)
    (hw : WholeRecords n (it.body.drop it.offset)) (hf : n < fuel) :
    collect fuel it = some ((recordsOf n it.nextSeq (it.body.drop it.offset)).map .ok) := by
  induction n generalizing fuel it with
  | zero =>
    obtain ⟨fuel, rfl⟩ := Nat.exists_eq_add_of_lt hf
    rw [collect, next_done hr]
    rfl
  | succ n ih =>
    obtain ⟨fuel, rfl⟩ : ∃ m, fuel = m + 1 := ⟨fuel - 1, by omega⟩
    obtain ⟨h1, hrest⟩ := (wholeRecords_succ n _).mp hw
    rw [← advance_drop] at hrest
    have hadv : it.advance.remaining = n := by
      change it.remaining - 1 = n
      omega
    rw [collect, next_ok (by omega) h1]
    dsimp only
    rw [ih hadv hrest (by omega), advance_drop]
    rfl

/-- A record cut short stops the iteration from ever ending. -/
theorem collect_cut {it : MoldMessageIter} (hw : ¬ WholeRecords it.remaining (it.body.drop it.offset))
    (fuel : Nat) : collect fuel it = none := by
  induction fuel generalizing it with
  | zero => rfl
  | succ fuel ih =>
    have hr : it.remaining ≠ 0 := by
      intro hz
      rw [hz] at hw
      exact hw trivial
    by_cases h1 : WholeRecords 1 (it.body.drop it.offset)
    · obtain ⟨n, hn⟩ := Nat.exists_eq_succ_of_ne_zero hr
      rw [hn, wholeRecords_succ, ← advance_drop] at hw
      have hadv : it.advance.remaining = n := by
        change it.remaining - 1 = n
        omega
      rw [collect, next_ok hr h1]
      dsimp only
      rw [ih (by rw [hadv]; exact fun h => hw ⟨h1, h⟩)]
      rfl
    · obtain ⟨e, he⟩ := next_error hr h1
      rw [collect, he]
      dsimp only
      rw [ih hw]
      rfl

end MoldMessageIter

namespace GapTracker

/-- Ingest messages one after the other. -/
def ingestAll (t : GapTracker) (ms : List Message) (out : List Delivered) :
    GapTracker × List Delivered :=
  ms.foldl (fun r m => r.1.ingestOne m.1 m.2 r.2) (t, out)

theorem ingestLoop_whole {n fuel : Nat} {it : MoldMessageIter} (hr : it.remaining = n)
    (hw : WholeRecords n (it.body.drop it.offset)) (hf : n < fuel) (t : GapTracker)
    (out : List Delivered) :
    ingestLoop fuel it t out =
      some (t.ingestAll (recordsOf n it.nextSeq (it.body.drop it.offset)) out) := by
  induction n generalizing fuel it t out with
  | zero =>
    obtain ⟨fuel, rfl⟩ := Nat.exists_eq_add_of_lt hf
    rw [ingestLoop, MoldMessageIter.next_done hr]
    rfl
  | succ n ih =>
    obtain ⟨fuel, rfl⟩ : ∃ m, fuel = m + 1 := ⟨fuel - 1, by omega⟩
    obtain ⟨h1, hrest⟩ := (wholeRecords_succ n _).mp hw
    rw [← MoldMessageIter.advance_drop] at hrest
    have hadv : it.advance.remaining = n := by
      change it.remaining - 1 = n
      omega
    rw [ingestLoop, MoldMessageIter.next_ok (by omega) h1]
    dsimp only
    rw [ih hadv hrest (by omega), MoldMessageIter.advance_drop]
    rfl

theorem ingestLoop_cut {it : MoldMessageIter}
    (hw : ¬ WholeRecords it.remaining (it.body.drop it.offset)) (fuel : Nat) (t : GapTracker)
    (out : List Delivered) : ingestLoop fuel it t out = none := by
  induction fuel generalizing it t out with
  | zero => rfl
  | succ fuel ih =>
    have hr : it.remaining ≠ 0 := by
      intro hz
      rw [hz] at hw
      exact hw trivial
    by_cases h1 : WholeRecords 1 (it.body.drop it.offset)
    · obtain ⟨n, hn⟩ := Nat.exists_eq_succ_of_ne_zero hr
      rw [hn, wholeRecords_succ, ← MoldMessageIter.advance_drop] at hw
      have hadv : it.advance.remaining = n := by
        change it.remaining - 1 = n
        omega
      rw [ingestLoop, MoldMessageIter.next_ok hr h1]
      exact ih (by rw [hadv]; exact fun h => hw ⟨h1, h⟩) _ _
    · obtain ⟨e, he⟩ := MoldMessageIter.next_error hr h1
      rw [ingestLoop, he]
      exact ih hw _ _

end GapTracker

namespace MoldFrame

/-- The number of messages `messages` sets out to yield. -/
def declared (f : MoldFrame) : Nat :=
  if f.header.isHeartbeat || f.header.isEndOfSession then 0 else f.header.count.toNat

/-- The messages of a well-formed frame. -/
def records (f : MoldFrame) : List Message := recordsOf f.declared f.header.sequence f.body

theorem wellFormed_iff (f : MoldFrame) :
    f.WellFormed ↔ WholeRecords f.messages.remaining (f.messages.body.drop f.messages.offset) := by
  change _ ↔ WholeRecords f.declared (f.body.drop 0)
  rw [List.drop_zero, declared]
  simp only [WellFormed]
  cases f.header.isHeartbeat <;> cases f.header.isEndOfSession <;> simp [WholeRecords]

theorem declared_le (f : MoldFrame) : f.declared ≤ f.header.count.toNat := by
  simp only [declared]
  split_ifs <;> omega

theorem collect_wellFormed {f : MoldFrame} (h : f.WellFormed) {fuel : Nat} (hf : f.declared < fuel) :
    MoldMessageIter.collect fuel f.messages = some (f.records.map .ok) := by
  have hw := f.wellFormed_iff.mp h
  have hc := MoldMessageIter.collect_whole rfl hw hf
  rwa [show f.messages.body.drop f.messages.offset = f.body from List.drop_zero] at hc

theorem ingest_wellFormed {f : MoldFrame} (h : f.WellFormed) {fuel : Nat} (hf : f.declared < fuel)
    (t : GapTracker) : t.ingest fuel f = some (t.ingestAll f.records []) := by
  have hw := f.wellFormed_iff.mp h
  have hc := GapTracker.ingestLoop_whole rfl hw hf t []
  rwa [show f.messages.body.drop f.messages.offset = f.body from List.drop_zero] at hc

end MoldFrame

theorem length_recordsOf (n : Nat) (seq : UInt64) (body : List UInt8) :
    (recordsOf n seq body).length = n := by
  induction n generalizing seq body with
  | zero => rfl
  | succ n ih => rw [recordsOf, List.length_cons, ih]

/-- A frame is iterated in at most `count` items, and `ingest` of it returns, exactly when its body
holds the records its header declares. -/
theorem messages_end_iff_wellFormed (f : MoldFrame) :
    ((∃ fuel items, MoldMessageIter.collect fuel f.messages = some items ∧
        items.length ≤ f.header.count.toNat) ∧
      (∀ t : GapTracker, ∃ fuel r, t.ingest fuel f = some r)) ↔ f.WellFormed := by
  constructor
  · intro hend
    obtain ⟨⟨fuel, items, hc, _⟩, _⟩ := hend
    by_contra hw
    rw [f.wellFormed_iff] at hw
    rw [MoldMessageIter.collect_cut hw] at hc
    exact absurd hc (by simp)
  · intro hw
    refine ⟨⟨_, _, MoldFrame.collect_wellFormed hw (Nat.lt_succ_self _), ?_⟩,
      fun t => ⟨_, _, MoldFrame.ingest_wellFormed hw (Nat.lt_succ_self _) t⟩⟩
    rw [List.length_map, MoldFrame.records, length_recordsOf]
    exact f.declared_le

/-- A header that declares one message over an empty body is accepted and keeps `ingest` busy
for ever. -/
theorem messages_never_end :
    ∃ f, MoldFrame.parse (List.replicate 10 0x20 ++ Bytes.toBe 8 1 ++ Bytes.toBe 2 1) = .ok f ∧
      (∀ fuel, MoldMessageIter.collect fuel f.messages = none) ∧
      (∀ fuel, (GapTracker.new 1).ingest fuel f = none) := by
  have hw : ¬ MoldFrame.WellFormed ⟨⟨List.replicate 10 0x20, 1, 1⟩, []⟩ := by
    intro hend
    rcases hend with h | h | h
    · exact absurd h (by decide)
    · exact absurd h (by decide)
    · exact absurd h.1 (by decide)
  rw [MoldFrame.wellFormed_iff] at hw
  exact ⟨⟨⟨List.replicate 10 0x20, 1, 1⟩, []⟩, by decide, MoldMessageIter.collect_cut hw,
    fun fuel => GapTracker.ingestLoop_cut hw fuel _ _⟩

end Flowlab.Replay
