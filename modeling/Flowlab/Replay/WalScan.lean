import Flowlab.Replay.WalLog

namespace Flowlab.Replay.WalScan

open Std Framework Wal

/-- An open file and its cursor. -/
@[ext] structure OpenFile where
  content : List UInt8
  pos : Nat
  deriving DecidableEq, Repr

namespace OpenFile

/-- `File::open`, with the cursor at the start. -/
def start (content : List UInt8) : OpenFile := ⟨content, 0⟩

/-- `read_exact` into a buffer of `n` bytes: `none` is `UnexpectedEof`, which leaves the cursor at
the end. -/
def readExact (f : OpenFile) (n : Nat) : Option (List UInt8) × OpenFile :=
  if f.content.length - f.pos < n then (none, { f with pos := f.content.length })
  else (some (Bytes.slice f.content f.pos n), { f with pos := f.pos + n })

/-- What lies behind the cursor. -/
def rest (f : OpenFile) : List UInt8 := f.content.drop f.pos

end OpenFile

/-- The length in the first half of a header. -/
def headerLen (hdr : List UInt8) : Nat := Bytes.ofLe (hdr.take 4)

/-- The checksum in the second half of a header. -/
def headerCrc (hdr : List UInt8) : UInt32 := UInt32.ofNat (Bytes.ofLe (hdr.drop 4))

/-- The loop of `recover_segment_tail`; `none` when it takes more than `fuel` turns. -/
def recoverScan : Nat → OpenFile → UInt64 → Option UInt64
  | 0, _, _ => none
  | fuel + 1, file, offset =>
    match file.readExact magicHeader with
    | (none, _) => some offset
    | (some hdr, file) =>
      match file.readExact (headerLen hdr) with
      | (none, _) => some offset
      | (some payload, file) =>
        if crc32 payload ≠ headerCrc hdr then some offset
        else
          recoverScan fuel file
            (offset + (UInt64.ofNat magicHeader + UInt64.ofNat (headerLen hdr)))

def recoverSegmentTail (fuel : Nat) (dir : Directory) (path : List Char) :
    Option (Except WalError (Directory × UInt64)) :=
  match openFile dir path with
  | .error e => some (.error e)
  | .ok content =>
    match recoverScan fuel (.start content) 0 with
    | none => none
    | some offset =>
      if offset < UInt64.ofNat content.length then
        some (.ok (dir.insert path (content.take offset.toNat), offset))
      else some (.ok (dir, offset))

/-- `WalReader` as it stands in memory; its buffer is the value `next_record` returns. -/
structure Reader where
  dir : Directory
  segments : List UInt64
  segIdx : Nat
  file : Option OpenFile
  segmentOffset : UInt64

namespace Reader

/-- `WalReader::open`. -/
def openDir (dir : Directory) : Except WalError Reader := do
  let segments ← listSegments dir
  return ⟨dir, segments, 0, none, 0⟩

/-- `ensure_file`; it returns false exactly when it leaves no file open. -/
def ensureFile (r : Reader) : Except WalError Reader :=
  match r.file with
  | some _ => .ok r
  | none =>
    match r.segments[r.segIdx]? with
    | none => .ok r
    | some idx =>
      match openFile r.dir (segmentPath idx) with
      | .error e => .error e
      | .ok content => .ok { r with file := some (.start content), segmentOffset := 0 }

/-- The end of a segment: the next one is opened in the next turn. -/
def endSegment (r : Reader) : Reader := { r with file := none, segIdx := r.segIdx + 1 }

/-- `next_record`; `none` when its loop takes more than `fuel` turns. -/
def nextRecord : Nat → Reader → Option (Except WalError (Option (List UInt8) × Reader))
  | 0, _ => none
  | fuel + 1, r =>
    match r.ensureFile with
    | .error e => some (.error e)
    | .ok r =>
      match r.file with
      | none => some (.ok (none, r))
      | some f =>
        match f.readExact magicHeader with
        -- end of the segment
        | (none, _) => nextRecord fuel r.endSegment
        | (some hdr, f) =>
          match f.readExact (headerLen hdr) with
          -- torn tail: the payload is cut short
          | (none, _) => nextRecord fuel r.endSegment
          | (some buf, f) =>
            -- torn tail: the payload is corrupt
            if crc32 buf ≠ headerCrc hdr then nextRecord fuel r.endSegment
            else
              some (.ok (some buf, { r with
                file := some f
                segmentOffset := r.segmentOffset +
                  UInt64.ofNat (magicHeader + headerLen hdr) }))

/-- Call `next_record` until it returns `None`; `none` when that takes more than `fuel` calls. -/
def readAll : Nat → Reader → Option (Except WalError (List (List UInt8)))
  | 0, _ => none
  | fuel + 1, r =>
    match r.nextRecord (r.segments.length - r.segIdx + 1) with
    | none => none
    | some (.error e) => some (.error e)
    | some (.ok (none, _)) => some (.ok [])
    | some (.ok (some payload, r)) => (readAll fuel r).map (·.map (payload :: ·))

end Reader

/-- Open a directory and read everything. -/
def records (fuel : Nat) (dir : Directory) : Option (Except WalError (List (List UInt8))) :=
  match Reader.openDir dir with
  | .error e => some (.error e)
  | .ok r => r.readAll fuel

theorem readExact_none {f : OpenFile} {n : Nat} (h : f.rest.length < n) :
    ∃ f', f.readExact n = (none, f') := by
  rw [OpenFile.rest, List.length_drop] at h
  exact ⟨_, if_pos h⟩

theorem readExact_some {f : OpenFile} {n : Nat} (h : n ≤ f.rest.length) :
    ∃ f', f.readExact n = (some (f.rest.take n), f') ∧ f'.rest = f.rest.drop n := by
  have hlen := h
  rw [OpenFile.rest, List.length_drop] at hlen
  refine ⟨{ f with pos := f.pos + n }, ?_, ?_⟩
  · rw [OpenFile.readExact, if_neg (by omega)]
    rfl
  · simp only [OpenFile.rest, List.drop_drop]

theorem readRecord_reads (file : List UInt8) :
    readRecord file =
      if file.length < magicHeader then none
      else if (file.drop magicHeader).length < headerLen (file.take magicHeader) then none
      else if crc32 ((file.drop magicHeader).take (headerLen (file.take magicHeader))) ≠
        headerCrc (file.take magicHeader) then none
      else some ((file.drop magicHeader).take (headerLen (file.take magicHeader)),
        (file.drop magicHeader).drop (headerLen (file.take magicHeader))) := rfl

/-- Where no record follows, the reads of a turn fail in one of three ways. -/
theorem reads_none {f : OpenFile} (h : readRecord f.rest = none) :
    (∃ f', f.readExact magicHeader = (none, f')) ∨
    (∃ hdr f' f'', f.readExact magicHeader = (some hdr, f') ∧
      f'.readExact (headerLen hdr) = (none, f'')) ∨
    (∃ hdr payload f' f'', f.readExact magicHeader = (some hdr, f') ∧
      f'.readExact (headerLen hdr) = (some payload, f'') ∧ crc32 payload ≠ headerCrc hdr) := by
  by_cases hhdr : f.rest.length < magicHeader
  · exact Or.inl (readExact_none hhdr)
  · obtain ⟨f', hf', hrest⟩ := readExact_some (Nat.not_lt.mp hhdr)
    refine Or.inr ?_
    rw [readRecord_reads, if_neg hhdr, ← hrest] at h
    by_cases hlen : f'.rest.length < headerLen (f.rest.take magicHeader)
    · obtain ⟨f'', hf''⟩ := readExact_none hlen
      exact Or.inl ⟨_, f', f'', hf', hf''⟩
    · obtain ⟨f'', hf'', _⟩ := readExact_some (Nat.not_lt.mp hlen)
      refine Or.inr ⟨_, _, f', f'', hf', hf'', ?_⟩
      rw [if_neg hlen] at h
      split_ifs at h with hcrc
      exact hcrc

/-- Where a record follows, both reads succeed and leave the cursor behind it. -/
theorem reads_some {f : OpenFile} {payload rest : List UInt8}
    (h : readRecord f.rest = some (payload, rest)) :
    ∃ hdr f' f'', f.readExact magicHeader = (some hdr, f') ∧
      f'.readExact (headerLen hdr) = (some payload, f'') ∧ crc32 payload = headerCrc hdr ∧
      headerLen hdr = payload.length ∧ f''.rest = rest := by
  rw [readRecord_reads] at h
  split_ifs at h with hhdr hlen hcrc
  obtain ⟨f', hf', hrest⟩ := readExact_some (Nat.not_lt.mp hhdr)
  rw [← hrest] at h hlen hcrc
  obtain ⟨f'', hf'', hrest'⟩ := readExact_some (Nat.not_lt.mp hlen)
  obtain ⟨rfl, rfl⟩ := Prod.mk.inj (Option.some.inj h)
  refine ⟨_, f', f'', hf', hf'', not_not.mp hcrc, ?_, hrest'⟩
  rw [List.length_take]
  exact (Nat.min_eq_left (Nat.not_lt.mp hlen)).symm

theorem recoverScan_none {f : OpenFile} (h : readRecord f.rest = none) (fuel : Nat)
    (offset : UInt64) : recoverScan (fuel + 1) f offset = some offset := by
  rcases reads_none h with ⟨f', h1⟩ | ⟨hdr, f', f'', h1, h2⟩ | ⟨hdr, payload, f', f'', h1, h2, h3⟩
  · simp only [recoverScan, h1]
  · simp only [recoverScan, h1, h2]
  · simp only [recoverScan, h1, h2, if_pos h3]

theorem recoverScan_some {f : OpenFile} {payload rest : List UInt8}
    (h : readRecord f.rest = some (payload, rest)) :
    ∃ f' : OpenFile, f'.rest = rest ∧ ∀ fuel offset, recoverScan (fuel + 1) f offset =
      recoverScan fuel f' (offset + UInt64.ofNat (magicHeader + payload.length)) := by
  obtain ⟨hdr, f', f'', h1, h2, h3, h4, h5⟩ := reads_some h
  refine ⟨f'', h5, ?_⟩
  intro fuel offset
  rw [h4] at h2
  simp only [recoverScan, h1, h2, if_neg (not_not.mpr h3), h4, UInt64.ofNat_add]

/-- The recovery ends at the framed size of the records ahead. -/
theorem recoverScan_eq {fuel : Nat} {f : OpenFile} (hf : f.rest.length < fuel) (offset : UInt64) :
    recoverScan fuel f offset =
      some (offset + UInt64.ofNat (encode (segmentRecords f.rest)).length) := by
  induction fuel generalizing f offset with
  | zero => omega
  | succ fuel ih =>
    cases hr : readRecord f.rest with
    | none =>
      rw [recoverScan_none hr, segmentRecords_none hr]
      exact congrArg some (UInt64.add_zero offset).symm
    | some p =>
      obtain ⟨payload, rest⟩ := p
      have hlen := readRecord_length hr
      simp only [magicHeader] at hlen
      obtain ⟨f', hf', hstep⟩ := recoverScan_some hr
      rw [hstep, ih (by rw [hf']; omega), segmentRecords_some hr, encode_cons, List.length_append,
        length_frame, hf', UInt64.ofNat_add _ (encode _).length, UInt64.add_assoc]

/-- The scan of the file is the recovery over its unread part. -/
theorem recoverSegmentTail_refines {fuel : Nat} {dir : Directory} {path : List Char}
    {content : List UInt8} (ho : openFile dir path = .ok content) (hf : content.length < fuel) :
    recoverSegmentTail fuel dir path = some (Wal.recoverSegmentTail dir path) := by
  have hscan := recoverScan_eq (f := .start content) hf 0
  change _ = some (0 + UInt64.ofNat (encode (segmentRecords content)).length) at hscan
  rw [segmentRecords, ← recoverLoop_eq] at hscan
  rw [recoverSegmentTail, Wal.recoverSegmentTail, ho]
  simp only [hscan]
  split_ifs with hlt
  · exact congrArg some (if_pos hlt).symm
  · exact congrArg some (if_neg hlt).symm

namespace Reader

/-- The reader by the segments ahead of it and the unread part of the open one. -/
def ahead (r : Reader) : WalReader :=
  ⟨r.dir, r.segments.drop r.segIdx, r.file.map OpenFile.rest⟩

/-- An open file belongs to a segment of the list. -/
def Valid (r : Reader) : Prop := r.file ≠ none → r.segIdx < r.segments.length

theorem ahead_endSegment (r : Reader) {idx : UInt64} {segments : List UInt64}
    (h : r.segments.drop r.segIdx = idx :: segments) :
    r.endSegment.ahead = ⟨r.dir, segments, none⟩ := by
  simp only [ahead, endSegment, Option.map_none]
  rw [← List.drop_drop, h]
  rfl

/-- With an open file, a turn of the loop returns its next record or goes on behind it. -/
theorem nextRecord_turn {r : Reader} {f : OpenFile} (hf : r.file = some f) (fuel : Nat) :
    (readRecord f.rest = none ∧ r.nextRecord (fuel + 1) = r.endSegment.nextRecord fuel) ∨
    ∃ payload f' offset, readRecord f.rest = some (payload, f'.rest) ∧
      r.nextRecord (fuel + 1) =
        some (.ok (some payload, { r with file := some f', segmentOffset := offset })) := by
  have hopen : r.ensureFile = .ok r := by simp only [ensureFile, hf]
  cases hr : readRecord f.rest with
  | none =>
    refine Or.inl ⟨rfl, ?_⟩
    rcases reads_none hr with ⟨f', h1⟩ | ⟨hdr, f', f'', h1, h2⟩ |
      ⟨hdr, payload, f', f'', h1, h2, h3⟩
    · rw [nextRecord, hopen]
      simp only [hf, h1]
    · rw [nextRecord, hopen]
      simp only [hf, h1, h2]
    · rw [nextRecord, hopen]
      simp only [hf, h1, h2, if_pos h3]
  | some p =>
    obtain ⟨payload, rest⟩ := p
    obtain ⟨hdr, f', f'', h1, h2, h3, h4, h5⟩ := reads_some hr
    refine Or.inr ⟨payload, f'',
      r.segmentOffset + UInt64.ofNat (magicHeader + headerLen hdr), by rw [h5], ?_⟩
    rw [nextRecord, hopen]
    simp only [hf, h1, h2, if_neg (not_not.mpr h3)]

/-- With an open file, the loop is the one over the segments ahead. -/
theorem nextRecord_open {fuel : Nat} {r : Reader} {f : OpenFile} (hfile : r.file = some f)
    {idx : UInt64} {segments : List UInt64} (hseg : r.segments.drop r.segIdx = idx :: segments)
    (hend : (∃ e, r.endSegment.nextRecord fuel = some (.error e) ∧
        r.endSegment.ahead.nextRecord = .error e) ∨
      ∃ p r', r.endSegment.nextRecord fuel = some (.ok (p, r')) ∧
        r.endSegment.ahead.nextRecord = .ok (p, r'.ahead) ∧ r'.Valid) :
    (∃ e, r.nextRecord (fuel + 1) = some (.error e) ∧ r.ahead.nextRecord = .error e) ∨
      ∃ p r', r.nextRecord (fuel + 1) = some (.ok (p, r')) ∧
        r.ahead.nextRecord = .ok (p, r'.ahead) ∧ r'.Valid := by
  have hahead : r.ahead = ⟨r.dir, idx :: segments, some f.rest⟩ := by
    rw [ahead, hseg, hfile]
    rfl
  rcases nextRecord_turn hfile fuel with ⟨hnone, hturn⟩ | ⟨payload, f', offset, hsome, hturn⟩
  · have hskip : r.ahead.nextRecord = r.endSegment.ahead.nextRecord := by
      rw [hahead, ahead_endSegment r hseg]
      exact WalReader.nextLoop_skip rfl hnone
    rw [hturn, hskip]
    exact hend
  · refine Or.inr ⟨_, _, hturn, ?_, ?_⟩
    · rw [hahead]
      refine (WalReader.nextLoop_file rfl hsome).trans ?_
      simp only [ahead, hseg, Option.map_some]
    · intro _
      have hlen := congrArg List.length hseg
      rw [List.length_drop, List.length_cons] at hlen
      change r.segIdx < r.segments.length
      omega

/-- `next_record` with its file cursor does what it does over the unread parts. -/
theorem nextRecord_refines {fuel : Nat} {r : Reader} (hv : r.Valid)
    (hf : r.segments.length - r.segIdx < fuel) :
    (∃ e, r.nextRecord fuel = some (.error e) ∧ r.ahead.nextRecord = .error e) ∨
      ∃ p r', r.nextRecord fuel = some (.ok (p, r')) ∧
        r.ahead.nextRecord = .ok (p, r'.ahead) ∧ r'.Valid := by
  induction fuel generalizing r with
  | zero => omega
  | succ fuel ih =>
    have hclosed : r.endSegment.Valid := fun h => absurd rfl h
    cases hseg : r.segments.drop r.segIdx with
    | nil =>
      have hlen := List.drop_eq_nil_iff.mp hseg
      have hfile : r.file = none := by
        by_contra hne
        have hlt := hv hne
        omega
      have hnone : r.segments[r.segIdx]? = none := List.getElem?_eq_none hlen
      have hopen : r.ensureFile = .ok r := by simp only [ensureFile, hfile, hnone]
      refine Or.inr ⟨none, r, ?_, ?_, hv⟩
      · rw [nextRecord, hopen]
        simp only [hfile]
      · rw [ahead, hseg, hfile]
        rfl
    | cons idx segments =>
      have hlen := congrArg List.length hseg
      rw [List.length_drop, List.length_cons] at hlen
      have hgo : ∀ s : Reader, s.segments = r.segments → s.segIdx = r.segIdx →
          s.endSegment.segments.length - s.endSegment.segIdx < fuel := by
        intro s h1 h2
        change s.segments.length - (s.segIdx + 1) < fuel
        rw [h1, h2]
        omega
      cases hfile : r.file with
      | some f => exact nextRecord_open hfile hseg (ih hclosed (hgo r rfl rfl))
      | none =>
        have hget : r.segments[r.segIdx]? = some idx := by
          rw [← List.head?_drop, hseg]
          rfl
        cases ho : openFile r.dir (segmentPath idx) with
        | error e =>
          refine Or.inl ⟨e, ?_, ?_⟩
          · simp only [nextRecord, ensureFile, hfile, hget, ho]
          · rw [ahead, hseg, hfile]
            simp only [WalReader.nextRecord, Option.map_none, WalReader.nextLoop,
              WalReader.ensureFile, ho]
        | ok content =>
          -- opening the file first changes neither loop
          have hturn : r.nextRecord (fuel + 1) = ({ r with
              file := some (.start content), segmentOffset := 0 } : Reader).nextRecord
                (fuel + 1) := by
            rw [nextRecord, nextRecord]
            simp only [ensureFile, hfile, hget, ho]
          have hsame : r.ahead.nextRecord = ({ r with
              file := some (.start content), segmentOffset := 0 } : Reader).ahead.nextRecord := by
            simp only [ahead, hfile, hseg, WalReader.nextRecord, Option.map_none,
              Option.map_some, WalReader.nextLoop, WalReader.ensureFile, ho]
            rfl
          rw [hturn, hsame]
          exact nextRecord_open rfl hseg (ih (fun h => absurd rfl h) (hgo _ rfl rfl))

/-- A reader returns the records ahead of it and then none. -/
theorem readAll_serves {fuel : Nat} {r : Reader} (hv : r.Valid) {rs : List (List UInt8)}
    (hs : WalReader.Serves r.ahead rs) (hf : rs.length < fuel) :
    r.readAll fuel = some (.ok rs) := by
  induction fuel generalizing r rs with
  | zero => omega
  | succ fuel ih =>
    obtain ⟨w, hw, hnext⟩ := WalReader.nextRecord_serves hs
    rcases nextRecord_refines hv (Nat.lt_succ_self _) with ⟨e, _, he⟩ | ⟨p, r', hr, ha, hv'⟩
    · rw [hw] at he
      exact absurd he (by simp)
    · rw [hw] at ha
      obtain ⟨rfl, rfl⟩ := Prod.mk.inj (Except.ok.inj ha)
      rw [readAll, hr]
      cases rs with
      | nil => rfl
      | cons p ps =>
        have hrest := ih hv' hnext (by simpa using hf)
        simp only [List.head?_cons]
        rw [hrest]
        rfl

end Reader

/-- A directory with one segment. -/
def single (idx : UInt64) (content : List UInt8) : Directory :=
  (∅ : Directory).insert (segmentPath idx) content

theorem openFile_single (idx : UInt64) (content : List UInt8) :
    openFile (single idx content) (segmentPath idx) = .ok content := by
  rw [openFile, single, FiniteMap.get_insert, if_pos rfl]

theorem listSegments_single (idx : UInt64) (content : List UInt8) :
    listSegments (single idx content) = .ok [idx] := by
  have hkeys : (single idx content).keys = [segmentPath idx] := by
    have hlen : (single idx content).keys.length = 1 := by
      rw [ExtTreeMap.length_keys, single, FiniteMap.size_insert_new _ _ _ (by simp)]
      rfl
    have hmem : segmentPath idx ∈ (single idx content).keys := by
      rw [mem_keys_iff, single, FiniteMap.get_insert, if_pos rfl]
      simp
    obtain ⟨k, hk⟩ := List.length_eq_one_iff.mp hlen
    rw [hk] at hmem ⊢
    rw [List.mem_singleton.mp hmem]
  rw [listSegments, hkeys, List.foldlM_cons, pushSegment_segmentPath]
  rfl

/-- A record survives a cut behind it, and what follows it is cut. -/
theorem readRecord_take {file payload rest : List UInt8}
    (h : readRecord file = some (payload, rest)) (k : Nat) :
    readRecord (file.take (magicHeader + payload.length + k)) = some (payload, rest.take k) := by
  rw [readRecord_reads] at h
  split_ifs at h with hhdr hlen hcrc
  obtain ⟨hpay, hrest⟩ := Prod.mk.inj (Option.some.inj h)
  have hsize : headerLen (file.take magicHeader) = payload.length := by
    rw [← hpay, List.length_take]
    exact (Nat.min_eq_left (Nat.not_lt.mp hlen)).symm
  rw [hsize] at hpay hrest hcrc hlen
  rw [List.length_drop] at hlen
  have hhead : (file.take (magicHeader + payload.length + k)).take magicHeader =
      file.take magicHeader := by
    rw [List.take_take]
    congr 1
    omega
  have hbody : (file.take (magicHeader + payload.length + k)).drop magicHeader =
      (file.drop magicHeader).take (payload.length + k) := by
    rw [List.drop_take]
    congr 1
    omega
  have hcut : ((file.drop magicHeader).take (payload.length + k)).take payload.length =
      payload := by
    rw [List.take_take, Nat.min_eq_left (by omega), hpay]
  rw [hpay] at hcrc
  rw [readRecord_reads, hhead, hbody, hsize, hcut, if_neg, if_neg, if_neg hcrc, List.drop_take,
    hrest, Nat.add_sub_cancel_left]
  · rw [List.length_take, List.length_drop]
    omega
  · rw [List.length_take]
    omega

/-- The framed records take no more than the segment. -/
theorem length_encode_segmentRecords (file : List UInt8) :
    (encode (segmentRecords file)).length ≤ file.length := by
  induction hn : file.length using Nat.strong_induction_on generalizing file with
  | _ n ih =>
    cases hr : readRecord file with
    | none =>
      rw [segmentRecords_none hr]
      exact Nat.zero_le _
    | some p =>
      obtain ⟨payload, rest⟩ := p
      have hlen := readRecord_length hr
      have hrest := ih rest.length (by simp only [magicHeader] at hlen; omega) rest rfl
      rw [segmentRecords_some hr, encode_cons, List.length_append, length_frame]
      omega

/-- Cut to its framed records, a segment holds the same records. -/
theorem segmentRecords_take (file : List UInt8) :
    segmentRecords (file.take (encode (segmentRecords file)).length) = segmentRecords file := by
  induction hn : file.length using Nat.strong_induction_on generalizing file with
  | _ n ih =>
    cases hr : readRecord file with
    | none =>
      rw [segmentRecords_none hr]
      exact segmentRecords_none rfl
    | some p =>
      obtain ⟨payload, rest⟩ := p
      have hlen := readRecord_length hr
      have hrest := ih rest.length (by simp only [magicHeader] at hlen; omega) rest rfl
      rw [segmentRecords_some hr, encode_cons, List.length_append, length_frame,
        segmentRecords_some (readRecord_take hr _), hrest]

theorem length_encode (payloads : List (List UInt8)) :
    (encode payloads).length = (payloads.map (fun p => magicHeader + p.length)).sum := by
  rw [encode, List.length_flatMap]
  simp only [length_frame]

theorem records_single {fuel : Nat} {content : List UInt8} (hf : content.length < fuel)
    (idx : UInt64) : records fuel (single idx content) = some (.ok (segmentRecords content)) := by
  have hopen : Reader.openDir (single idx content) =
      .ok ⟨single idx content, [idx], 0, none, 0⟩ := by
    rw [Reader.openDir, listSegments_single]
    rfl
  have hserves : WalReader.Serves
      (Reader.ahead ⟨single idx content, [idx], 0, none, 0⟩) (segmentRecords content) := by
    refine ⟨[content], Or.inl ⟨rfl, ?_, by simp⟩⟩
    exact List.Forall₂.cons (openFile_single idx content) List.Forall₂.nil
  have hcount : (segmentRecords content).length ≤ content.length := by
    have hrecords := length_encode_le (segmentRecords content)
    have hle := length_encode_segmentRecords content
    simp only [magicHeader] at hrecords
    omega
  rw [records, hopen]
  exact Reader.readAll_serves (fun h => absurd rfl h) hserves (by omega)

theorem recover_single {fuel : Nat} {content : List UInt8} (hf : content.length < fuel)
    (hfile : content.length < 2 ^ 64) (idx : UInt64) :
    recoverSegmentTail fuel (single idx content) (segmentPath idx) =
      some (.ok (single idx (content.take (encode (segmentRecords content)).length),
        UInt64.ofNat (encode (segmentRecords content)).length)) := by
  have hle := length_encode_segmentRecords content
  have hscan := recoverScan_eq (f := .start content) hf 0
  rw [UInt64.zero_add] at hscan
  change _ = some (UInt64.ofNat (encode (segmentRecords content)).length) at hscan
  generalize (encode (segmentRecords content)).length = size at hle hscan ⊢
  have hoff : (UInt64.ofNat size).toNat = size :=
    UInt64.toNat_ofNat_of_lt' (show size < 2 ^ 64 by omega)
  have hlen : (UInt64.ofNat content.length).toNat = content.length :=
    UInt64.toNat_ofNat_of_lt' hfile
  rw [recoverSegmentTail, openFile_single]
  simp only [hscan]
  rw [hoff]
  split_ifs with hlt
  · have hput : (single idx content).insert (segmentPath idx) (content.take size) =
        single idx (content.take size) := by
      apply ExtTreeMap.ext_getElem?
      intro k
      simp only [single, FiniteMap.get_insert]
      split_ifs <;> rfl
    rw [hput]
  · rw [UInt64.lt_iff_toNat_lt, hoff, hlen] at hlt
    rw [List.take_of_length_le (by omega)]

end Flowlab.Replay.WalScan

namespace Flowlab.Replay

open Wal WalScan

/-- For any content of a segment file, whose length is a `u64`, the recovery and the reader agree: the recovery keeps the
framed size of the records that the reader returns, the reader returns the same from what is left,
and recovering that changes nothing. -/
theorem wal_scanners_agree (idx : UInt64) (content : List UInt8) (hfile : content.length < 2 ^ 64)
    {fuel : Nat} (hf : content.length < fuel) :
    ∃ rs offset,
      WalScan.records fuel (single idx content) = some (.ok rs) ∧
      WalScan.recoverSegmentTail fuel (single idx content) (segmentPath idx) =
        some (.ok (single idx (content.take offset.toNat), offset)) ∧
      offset.toNat = (rs.map (fun p => magicHeader + p.length)).sum ∧
      WalScan.records fuel (single idx (content.take offset.toNat)) = some (.ok rs) ∧
      WalScan.recoverSegmentTail fuel (single idx (content.take offset.toNat))
        (segmentPath idx) = some (.ok (single idx (content.take offset.toNat), offset)) := by
  have hle := length_encode_segmentRecords content
  have htake := segmentRecords_take content
  have hsum := length_encode (segmentRecords content)
  have hrec := recover_single hf hfile idx
  have hoff : (UInt64.ofNat (encode (segmentRecords content)).length).toNat =
      (encode (segmentRecords content)).length :=
    UInt64.toNat_ofNat_of_lt' (show _ < 2 ^ 64 by omega)
  have hshort : (content.take (encode (segmentRecords content)).length).length ≤
      content.length := by
    rw [List.length_take]
    omega
  have hagain := recover_single (hshort.trans_lt hf) (hshort.trans_lt hfile) idx
  rw [htake, List.take_take, Nat.min_self] at hagain
  have hread := records_single (hshort.trans_lt hf) idx
  rw [htake] at hread
  refine ⟨segmentRecords content, UInt64.ofNat (encode (segmentRecords content)).length,
    records_single hf idx, ?_, ?_, ?_, ?_⟩
  · rw [hoff]
    exact hrec
  · rw [hoff]
    exact hsum
  · rw [hoff]
    exact hread
  · rw [hoff]
    exact hagain

/-- A record with an empty payload and two stray bytes behind it. -/
theorem wal_scanners_agree_torn :
    ∃ rs offset,
      WalScan.records 11 (single 0 [0, 0, 0, 0, 0, 0, 0, 0, 7, 7]) = some (.ok rs) ∧
      WalScan.recoverSegmentTail 11 (single 0 [0, 0, 0, 0, 0, 0, 0, 0, 7, 7]) (segmentPath 0) =
        some (.ok (single 0 ([0, 0, 0, 0, 0, 0, 0, 0, 7, 7].take offset.toNat), offset)) ∧
      offset.toNat = (rs.map (fun p => magicHeader + p.length)).sum := by
  obtain ⟨rs, offset, h1, h2, h3, _⟩ := wal_scanners_agree 0 [0, 0, 0, 0, 0, 0, 0, 0, 7, 7]
    (by decide) (Nat.lt_succ_self _)
  exact ⟨rs, offset, h1, h2, h3⟩

end Flowlab.Replay
