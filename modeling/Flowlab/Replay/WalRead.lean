import Flowlab.Replay.WalDir

namespace Flowlab.Replay.Wal

open Std Framework

/-- A record takes its header and its payload off the front. -/
theorem readRecord_length {file payload rest : List UInt8}
    (h : readRecord file = some (payload, rest)) :
    file.length = magicHeader + payload.length + rest.length := by
  simp only [readRecord] at h
  split_ifs at h with hhdr hbody hcrc
  cases h
  simp only [List.length_drop, List.length_take] at hbody ⊢
  omega

@[simp] theorem length_frame (payload : List UInt8) :
    (frame payload).length = magicHeader + payload.length := by
  simp only [frame, List.length_append, Bytes.length_toLe, magicHeader]
  omega

/-- A header with the length of the payload behind it: the checksum decides. -/
theorem readRecord_header {payload : List UInt8} (h : payload.length < 2 ^ 32) (c : UInt32)
    (z : List UInt8) :
    readRecord (Bytes.toLe 4 payload.length ++ (Bytes.toLe 4 c.toNat ++ payload) ++ z) =
      if crc32 payload ≠ c then none else some (payload, z) := by
  generalize hlen : Bytes.toLe 4 payload.length = len
  generalize hcrc : Bytes.toLe 4 c.toNat = crc
  have hlenSize : len.length = 4 := by rw [← hlen, Bytes.length_toLe]
  have hcrcSize : crc.length = 4 := by rw [← hcrc, Bytes.length_toLe]
  have hhdrSize : (len ++ crc).length = magicHeader := by
    rw [List.length_append, hlenSize, hcrcSize]
    rfl
  have hsplit : len ++ (crc ++ payload) ++ z = (len ++ crc) ++ (payload ++ z) := by
    simp only [List.append_assoc]
  have hlong : ¬ ((len ++ crc) ++ (payload ++ z)).length < magicHeader := by
    rw [List.length_append, hhdrSize]
    omega
  have hread : Bytes.ofLe len = payload.length := by
    rw [← hlen, Bytes.ofLe_toLe _ _ (by omega)]
  have hsum : UInt32.ofNat (Bytes.ofLe crc) = c := by
    have hlt := c.toNat_lt
    rw [← hcrc, Bytes.ofLe_toLe _ _ (by omega), UInt32.ofNat_toNat]
  have hbody : ¬ (payload ++ z).length < payload.length := by
    rw [List.length_append]
    omega
  rw [hsplit]
  simp only [readRecord, if_neg hlong, List.take_left' hhdrSize, List.drop_left' hhdrSize,
    List.take_left' hlenSize, List.drop_left' hlenSize, hread, hsum, if_neg hbody, List.take_left,
    List.drop_left]

theorem readRecord_frame {payload : List UInt8} (h : payload.length < 2 ^ 32)
    (z : List UInt8) : readRecord (frame payload ++ z) = some (payload, z) := by
  rw [frame, readRecord_header h, if_neg (not_not.mpr rfl)]

/-- The records a reader finds in a segment. -/
def segmentRecords (file : List UInt8) : List (List UInt8) := (drain readRecord file.length file).1

theorem drain_readRecord {n : Nat} {file : List UInt8} (h : file.length ≤ n) :
    drain readRecord n file = drain readRecord file.length file := by
  refine Drain.drain_fuel List.length ?_ h (Nat.le_refl _)
  intro file payload rest hr
  have hlen := readRecord_length hr
  simp only [magicHeader] at hlen
  omega

theorem segmentRecords_none {file : List UInt8} (h : readRecord file = none) : segmentRecords file = [] := by
  rw [segmentRecords, Drain.drain_none h]

theorem segmentRecords_some {file payload rest : List UInt8}
    (h : readRecord file = some (payload, rest)) :
    segmentRecords file = payload :: segmentRecords rest := by
  have hlen := readRecord_length h
  simp only [magicHeader] at hlen
  obtain ⟨n, hn⟩ : ∃ n, file.length = n + 1 := ⟨file.length - 1, by omega⟩
  rw [segmentRecords, hn, Drain.drain_some h, drain_readRecord (by omega)]
  rfl

/-- The bytes of a run of records. -/
def encode (payloads : List (List UInt8)) : List UInt8 := payloads.flatMap frame

theorem encode_cons (p : List UInt8) (ps : List (List UInt8)) :
    encode (p :: ps) = frame p ++ encode ps := List.flatMap_cons

theorem encode_append (ps qs : List (List UInt8)) : encode (ps ++ qs) = encode ps ++ encode qs :=
  List.flatMap_append

/-- Whole records, and then bytes that are none. -/
theorem segmentRecords_encode_append {payloads : List (List UInt8)}
    (h : ∀ p ∈ payloads, p.length < 2 ^ 32) {tail : List UInt8} (ht : readRecord tail = none) :
    segmentRecords (encode payloads ++ tail) = payloads := by
  induction payloads with
  | nil => exact segmentRecords_none ht
  | cons p ps ih =>
    have hp := h p List.mem_cons_self
    have hread : readRecord (encode (p :: ps) ++ tail) = some (p, encode ps ++ tail) := by
      rw [encode_cons, List.append_assoc]
      exact readRecord_frame hp _
    rw [segmentRecords_some hread, ih (fun q hq => h q (List.mem_cons_of_mem _ hq))]

theorem segmentRecords_encode {payloads : List (List UInt8)} (h : ∀ p ∈ payloads, p.length < 2 ^ 32) :
    segmentRecords (encode payloads) = payloads := by
  have hnone : readRecord [] = none := rfl
  have hrecords := segmentRecords_encode_append h hnone
  rwa [List.append_nil] at hrecords

/-- The framed size of the records found is the offset the recovery ends at. -/
theorem recoverLoop_eq (n : Nat) (file : List UInt8) (offset : UInt64) :
    recoverLoop n file offset =
      offset + UInt64.ofNat (encode (drain readRecord n file).1).length := by
  induction n generalizing file offset with
  | zero => exact (UInt64.add_zero offset).symm
  | succ n ih =>
    cases hr : readRecord file with
    | none =>
      rw [Drain.drain_none hr]
      simp only [recoverLoop, hr]
      exact (UInt64.add_zero offset).symm
    | some p =>
      obtain ⟨payload, rest⟩ := p
      rw [Drain.drain_some hr]
      simp only [recoverLoop, hr]
      rw [ih, encode_cons, List.length_append, length_frame, UInt64.ofNat_add _ (encode _).length,
        UInt64.add_assoc]

end Flowlab.Replay.Wal

namespace Flowlab.Replay.WalReader

open Wal Framework

/-- Every segment a reader still has to open is in its directory, with the given content. -/
def Opens (dir : Directory) (segments : List UInt64) (contents : List (List UInt8)) : Prop :=
  List.Forall₂ (fun idx c => openFile dir (segmentPath idx) = .ok c) segments contents

/-- The records a reader has still to return. -/
structure Serves (r : WalReader) (records : List (List UInt8)) : Prop where
  ahead : ∃ contents, (r.file = none ∧ Opens r.dir r.segments contents ∧
      records = contents.flatMap segmentRecords) ∨
    ∃ idx segments file, r.file = some file ∧ r.segments = idx :: segments ∧
      Opens r.dir segments contents ∧ records = segmentRecords file ++ contents.flatMap segmentRecords

theorem nextLoop_file {dir : Directory} {idx : UInt64} {segments : List UInt64}
    {file payload rest : List UInt8} {open? : Option (List UInt8)}
    (ho : ensureFile dir idx open? = .ok file) (hr : readRecord file = some (payload, rest)) :
    nextLoop dir (idx :: segments) open? =
      .ok (some payload, ⟨dir, idx :: segments, some rest⟩) := by
  simp only [nextLoop, ho, hr]

theorem nextLoop_skip {dir : Directory} {idx : UInt64} {segments : List UInt64}
    {file : List UInt8} {open? : Option (List UInt8)}
    (ho : ensureFile dir idx open? = .ok file) (hr : readRecord file = none) :
    nextLoop dir (idx :: segments) open? = nextLoop dir segments none := by
  simp only [nextLoop, ho, hr]

/-- From a closed segment on, `next_record` returns the next record of the segments ahead. -/
theorem nextLoop_opens {dir : Directory} {segments : List UInt64} {contents : List (List UInt8)}
    (h : Opens dir segments contents) :
    ∃ r, nextLoop dir segments none = .ok ((contents.flatMap segmentRecords).head?, r) ∧
      Serves r (contents.flatMap segmentRecords).tail := by
  induction h with
  | nil =>
    exact ⟨_, rfl, ⟨[], .inl ⟨rfl, List.Forall₂.nil, rfl⟩⟩⟩
  | @cons idx c segments contents hidx hrest ih =>
    cases hr : readRecord c with
    | none =>
      rw [nextLoop_skip (by exact hidx) hr, List.flatMap_cons, segmentRecords_none hr, List.nil_append]
      exact ih
    | some p =>
      obtain ⟨payload, rest⟩ := p
      rw [nextLoop_file (by exact hidx) hr, List.flatMap_cons, segmentRecords_some hr]
      exact ⟨_, rfl, ⟨contents, .inr ⟨idx, segments, rest, rfl, rfl, hrest, rfl⟩⟩⟩

theorem nextRecord_serves {r : WalReader} {records : List (List UInt8)} (h : Serves r records) :
    ∃ r', r.nextRecord = .ok (records.head?, r') ∧ Serves r' records.tail := by
  obtain ⟨dir, segments, open?⟩ := r
  obtain ⟨contents, ⟨rfl, ho, rfl⟩ | ⟨idx, segments', file, rfl, rfl, ho, rfl⟩⟩ := h.ahead
  · exact nextLoop_opens ho
  · cases hr : readRecord file with
    | none =>
      rw [segmentRecords_none hr, List.nil_append]
      show ∃ r', nextLoop dir (idx :: segments') (some file) = _ ∧ _
      rw [nextLoop_skip rfl hr]
      exact nextLoop_opens ho
    | some p =>
      obtain ⟨payload, rest⟩ := p
      rw [segmentRecords_some hr]
      exact ⟨_, nextLoop_file rfl hr, ⟨contents, .inr ⟨idx, segments', rest, rfl, rfl, ho, rfl⟩⟩⟩

/-- A reader returns its records one by one, and `None` from then on. -/
theorem calls_serves {r : WalReader} {records : List (List UInt8)} (h : Serves r records) (n : Nat) :
    calls n r = .ok ((records.map some).take n ++ List.replicate (n - records.length) none) := by
  induction n generalizing r records with
  | zero => simp [calls]
  | succ n ih =>
    obtain ⟨r', hr, hserves⟩ := nextRecord_serves h
    simp only [calls, hr]
    show (do let rs ← calls n r'; return records.head? :: rs) = _
    rw [ih hserves]
    cases records with
    | nil => simp [List.replicate_succ, pure, Except.pure, bind, Except.bind]
    | cons p ps => simp [pure, Except.pure, bind, Except.bind]

/-- Reading a well-formed directory returns the records of its segments in order. -/
theorem calls_holds {dir : Directory} {contents : List (List UInt8)} (h : Holds dir contents)
    (n : Nat) :
    (openDir dir >>= calls n) = .ok (((contents.flatMap segmentRecords).map some).take n ++
      List.replicate (n - (contents.flatMap segmentRecords).length) none) := by
  have hopen : openDir dir = .ok ⟨dir, firstSegments contents.length, none⟩ := by
    rw [openDir, listSegments_eq h]
    rfl
  have hopens : Opens dir (firstSegments contents.length) contents := by
    refine List.forall₂_iff_get.mpr ⟨by simp [firstSegments], ?_⟩
    intro i hi hi'
    have hc := h.content i _ (List.getElem?_eq_getElem hi')
    simp only [firstSegments, List.get_eq_getElem, List.getElem_map, List.getElem_range, openFile,
      hc]
  rw [hopen]
  exact calls_serves ⟨contents, .inl ⟨rfl, hopens, rfl⟩⟩ n

end Flowlab.Replay.WalReader
