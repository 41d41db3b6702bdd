import Flowlab.Framework.Circular
import Mathlib.Logic.Function.Basic

namespace Flowlab.Replay

open Framework

/-- A payload size that `RingWriter::create` and `RingReader::open` accept. -/
structure Capacity where
  size : UInt64
  powerOfTwo : ∃ k, size.toNat = 2 ^ k

namespace Capacity

def mask (c : Capacity) : UInt64 := c.size - 1

theorem size_pos (c : Capacity) : 0 < c.size.toNat := by
  obtain ⟨k, hk⟩ := c.powerOfTwo
  rw [hk]
  exact Nat.two_pow_pos k

theorem size_dvd (c : Capacity) : c.size.toNat ∣ 2 ^ 64 := by
  obtain ⟨k, hk⟩ := c.powerOfTwo
  have hlt := c.size.toNat_lt
  rw [hk] at hlt ⊢
  exact Nat.pow_dvd_pow 2 (Nat.le_of_lt ((Nat.pow_lt_pow_iff_right (by decide)).mp hlt))

theorem toNat_mask (c : Capacity) : c.mask.toNat = c.size.toNat - 1 := by
  have hone : (1 : UInt64) ≤ c.size := by
    rw [UInt64.le_iff_toNat_le]
    exact c.size_pos
  rw [mask, UInt64.toNat_sub_of_le _ _ hone]
  rfl

/-- `idx & mask` is `idx % capacity`. -/
theorem and_mask (c : Capacity) (idx : UInt64) :
    (idx &&& c.mask).toNat = idx.toNat % c.size.toNat := by
  obtain ⟨k, hk⟩ := c.powerOfTwo
  rw [UInt64.toNat_and, c.toNat_mask, hk, Nat.and_two_pow_sub_one_eq_mod]

end Capacity

def dataOffset : Nat := 192

/-- A byte of the batch and its offset in the mapped file. -/
abbrev Store := UInt8 × Nat

/-- A position of the destination buffer and the offset its byte is read from. -/
abbrev Load := Nat × Nat

/-- The copies of `RingWriter::write`. -/
def rustStores (c : Capacity) (wi : UInt64) (batch : List UInt8) : List Store :=
  wrapped dataOffset c.size.toNat (wi &&& c.mask).toNat batch

/-- The copies of `RingBuffer.Write`. -/
def goStores (c : Capacity) (wi : UInt64) (batch : List UInt8) : List Store :=
  let offset := dataOffset + (wi % c.size).toNat
  let firstChunk := c.size.toNat - (wi % c.size).toNat
  if firstChunk ≥ batch.length then
    batch.zipIdx offset
  else
    (batch.take firstChunk).zipIdx offset ++ (batch.drop firstChunk).zipIdx dataOffset

/-- The slices of `RingReader::available`, as `RingReader::read` copies them out. -/
def readLoads (c : Capacity) (ri : UInt64) (n : Nat) : List Load :=
  wrapped dataOffset c.size.toNat (ri &&& c.mask).toNat (List.range n)

inductive Lang
  | rust
  | go
deriving DecidableEq, Repr

def stores (c : Capacity) : Lang → UInt64 → List UInt8 → List Store
  | .rust => rustStores c
  | .go => goStores c

inductive RingError
  | full (need avail : Nat)
deriving DecidableEq, Repr

/-- Where the writer stands inside `write`; `idle` holds what the last call returned. -/
inductive Writer
  | idle (result : Except RingError Unit)
  | begun (lang : Lang) (batch : List UInt8)
  | loadedWrite (lang : Lang) (batch : List UInt8) (wi : UInt64)
  | loaded (lang : Lang) (batch : List UInt8) (wi ri : UInt64)
  | copying (batch : List UInt8) (wi : UInt64) (pending : List Store)
deriving DecidableEq, Repr

/-- Where the reader stands inside `read`; `idle` holds what the last call returned. -/
inductive Reader
  | idle (result : Nat)
  | begun (dst : List UInt8)
  | loadedWrite (dst : List UInt8) (wi : UInt64)
  | loaded (dst : List UInt8) (wi ri : UInt64)
  | copying (dst : List UInt8) (n : Nat) (pending : List Load)
deriving DecidableEq, Repr

/-- The mapped file with its two users. `written` and `consumed` record what the successful calls
carried and are read by no step. -/
structure Ring where
  writeIdx : UInt64
  readIdx : UInt64
  mem : Nat → UInt8
  writer : Writer
  reader : Reader
  written : List (List UInt8)
  consumed : List UInt8

/-- The atomic steps of the two sides. -/
inductive Act
  | writeBegin (lang : Lang) (batch : List UInt8)
  | writeLoadWrite
  | writeLoadRead
  | writeCheck
  | writeByte (i : Nat)
  | writePublish
  | readBegin (dst : List UInt8)
  | readLoadWrite
  | readLoadRead
  | readCheck
  | readByte (i : Nat)
  | readAdvance
deriving DecidableEq, Repr

def Act.isRead : Act → Bool
  | .readBegin _ | .readLoadWrite | .readLoadRead | .readCheck | .readByte _ | .readAdvance => true
  | _ => false

def Act.isWriteBegin : Act → Bool
  | .writeBegin _ _ => true
  | _ => false

namespace Ring

/-- A new ring file. What its payload holds does not matter. -/
def create (mem : Nat → UInt8) : Ring :=
  { writeIdx := 0, readIdx := 0, mem := mem, writer := .idle (.ok ()), reader := .idle 0,
    written := [], consumed := [] }

/-- The bytes the successful writes carried. -/
def log (s : Ring) : List UInt8 := s.written.flatten

/-- The writer's test for room, on the indices it loaded. -/
def writeCheck (c : Capacity) (lang : Lang) (batch : List UInt8) (wi ri : UInt64) : Writer :=
  let free := c.size - (wi - ri)
  if UInt64.ofNat batch.length > free then
    .idle (.error (.full batch.length free.toNat))
  else
    .copying batch wi (stores c lang wi batch)

/-- The reader's choice of how much to copy, on the indices it loaded. -/
def readCheck (c : Capacity) (dst : List UInt8) (wi ri : UInt64) : Reader :=
  let avail := (wi - ri).toNat
  let n := if avail > dst.length then dst.length else avail
  if n = 0 then .idle 0 else .copying dst n (readLoads c ri n)

def stepWrite (c : Capacity) (s : Ring) : Act → Option Ring
  | .writeBegin lang batch =>
    match s.writer with
    | .idle _ => if batch.length < 2 ^ 64 then some { s with writer := .begun lang batch } else none
    | _ => none
  | .writeLoadWrite =>
    match s.writer with
    | .begun lang batch => some { s with writer := .loadedWrite lang batch s.writeIdx }
    | _ => none
  | .writeLoadRead =>
    match s.writer with
    | .loadedWrite lang batch wi => some { s with writer := .loaded lang batch wi s.readIdx }
    | _ => none
  | .writeCheck =>
    match s.writer with
    | .loaded lang batch wi ri => some { s with writer := writeCheck c lang batch wi ri }
    | _ => none
  | .writeByte i =>
    match s.writer with
    | .copying batch wi pending =>
      pending[i]?.map fun st =>
        { s with mem := Function.update s.mem st.2 st.1
                 writer := .copying batch wi (pending.eraseIdx i) }
    | _ => none
  | .writePublish =>
    match s.writer with
    | .copying batch wi [] =>
      some { s with writeIdx := wi + UInt64.ofNat batch.length
                    writer := .idle (.ok ())
                    written := s.written ++ [batch] }
    | _ => none
  | _ => none

def stepRead (c : Capacity) (s : Ring) : Act → Option Ring
  | .readBegin dst =>
    match s.reader with
    | .idle _ => some { s with reader := .begun dst }
    | _ => none
  | .readLoadWrite =>
    match s.reader with
    | .begun dst => some { s with reader := .loadedWrite dst s.writeIdx }
    | _ => none
  | .readLoadRead =>
    match s.reader with
    | .loadedWrite dst wi => some { s with reader := .loaded dst wi s.readIdx }
    | _ => none
  | .readCheck =>
    match s.reader with
    | .loaded dst wi ri => some { s with reader := readCheck c dst wi ri }
    | _ => none
  | .readByte i =>
    match s.reader with
    | .copying dst n pending =>
      pending[i]?.map fun ld =>
        { s with reader := .copying (dst.set ld.1 (s.mem ld.2)) n (pending.eraseIdx i) }
    | _ => none
  | .readAdvance =>
    match s.reader with
    | .copying dst n [] =>
      some { s with readIdx := s.readIdx + UInt64.ofNat n
                    reader := .idle n
                    consumed := s.consumed ++ dst.take n }
    | _ => none
  | _ => none

def step (c : Capacity) (s : Ring) (a : Act) : Option Ring :=
  if a.isRead then s.stepRead c a else s.stepWrite c a

/-- An interleaving of the two sides' steps. -/
def run (c : Capacity) (s : Ring) (acts : List Act) : Option Ring := acts.foldlM (step c) s

theorem run_cons (c : Capacity) (s : Ring) (a : Act) (acts : List Act) :
    s.run c (a :: acts) = (s.step c a).bind (fun t => t.run c acts) := by
  simp only [run, List.foldlM_cons]
  rfl

theorem run_concat (c : Capacity) (s : Ring) (acts : List Act) (a : Act) :
    s.run c (acts ++ [a]) = (s.run c acts).bind (fun t => t.step c a) := by
  simp only [run, List.foldlM_append, List.foldlM_cons, List.foldlM_nil, bind_pure]
  rfl

end Ring

theorem goStores_eq_rustStores (c : Capacity) (wi : UInt64) (batch : List UInt8) :
    goStores c wi batch = rustStores c wi batch := by
  have hstart : (wi &&& c.mask).toNat = (wi % c.size).toNat := by
    rw [c.and_mask, UInt64.toNat_mod]
  have hlt : (wi % c.size).toNat < c.size.toNat := by
    rw [UInt64.toNat_mod]
    exact Nat.mod_lt _ c.size_pos
  simp only [goStores, rustStores, wrapped, hstart]
  split_ifs <;> first | rfl | omega

theorem stores_eq (c : Capacity) (lang : Lang) (wi : UInt64) (batch : List UInt8) :
    stores c lang wi batch = rustStores c wi batch := by
  cases lang with
  | rust => rfl
  | go => exact goStores_eq_rustStores c wi batch

end Flowlab.Replay
