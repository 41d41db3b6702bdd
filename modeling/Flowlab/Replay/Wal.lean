import Flowlab.Framework.Bytes
import Flowlab.Framework.FiniteMap
import Flowlab.Framework.Drain
import Flowlab.Framework.Outcome
import Mathlib.Data.List.Sort

namespace Flowlab.Replay

open Std Framework

/-- The kinds of I/O error that a file system without faults still has. -/
inductive IoError
  | notFound
  | alreadyExists
  | fileTooLarge
deriving DecidableEq, Repr

inductive WalError
  | io (kind : IoError)
  | badSegmentName (name : List Char)
  | crcMismatch (segment offset : UInt64)
  | payloadTooLarge (len : Nat)
deriving DecidableEq, Repr

namespace Wal

def crcShift (c : UInt32) : UInt32 :=
  if c &&& 1 != 0 then (0xEDB88320 : UInt32) ^^^ (c >>> 1) else c >>> 1

/-- `CRC32_TABLE`. -/
def crc32Table : List UInt32 := (List.range 256).map (fun i => crcShift^[8] (UInt32.ofNat i))

def crc32 (data : List UInt8) : UInt32 :=
  ~~~ data.foldl (fun crc b =>
    crc32Table.getD ((crc ^^^ b.toUInt32) &&& 0xFF).toNat 0 ^^^ (crc >>> 8)) 0xFFFFFFFF

/-- `MAGIC_HEADER`. -/
def magicHeader : Nat := 8

/-- A record as it stands in a segment. -/
def frame (payload : List UInt8) : List UInt8 :=
  Bytes.toLe 4 payload.length ++ (Bytes.toLe 4 (crc32 payload).toNat ++ payload)

/-- One round of the loops of `recover_segment_tail` and `next_record` on the unread part of a
segment. A short header, a short payload and a wrong checksum all end the segment. -/
def readRecord (file : List UInt8) : Option (List UInt8 × List UInt8) :=
  if file.length < magicHeader then none
  else
    let hdr := file.take magicHeader
    let len := Bytes.ofLe (hdr.take 4)
    let crc := UInt32.ofNat (Bytes.ofLe (hdr.drop 4))
    let rest := file.drop magicHeader
    if rest.length < len then none
    else if crc32 (rest.take len) ≠ crc then none
    else some (rest.take len, rest.drop len)

/-- The files of the directory by name. -/
abbrev Directory := ExtTreeMap (List Char) (List UInt8)

/-- `format!("wal-{:020}.log", idx)`. -/
def segmentPath (idx : UInt64) : List Char :=
  let digits := Nat.toDigits 10 idx.toNat
  ['w', 'a', 'l', '-'] ++ ((List.replicate (20 - digits.length) '0' ++ digits) ++
    ['.', 'l', 'o', 'g'])

/-- `str::parse::<u64>`. -/
def parseU64 (s : List Char) : Option UInt64 :=
  let digits := if s.head? = some '+' then s.tail else s
  if digits = [] then none
  else if digits.all Char.isDigit then
    if Nat.ofDigitChars 10 digits 0 < 2 ^ 64 then
      some (UInt64.ofNat (Nat.ofDigitChars 10 digits 0))
    else none
  else none

/-- The loop body of `list_segments`. -/
def pushSegment (out : List UInt64) (name : List Char) : Except WalError (List UInt64) :=
  match (name.dropPrefix? ['w', 'a', 'l', '-']).bind (·.dropSuffix? ['.', 'l', 'o', 'g']) with
  | none => .ok out
  | some stripped =>
    match parseU64 stripped with
    | none => .error (.badSegmentName name)
    | some idx => .ok (out ++ [idx])

/-- `list_segments` with the sort that every caller makes. -/
def listSegments (dir : Directory) : Except WalError (List UInt64) := do
  let segments ← dir.keys.foldlM pushSegment []
  return segments.insertionSort (· ≤ ·)

def openFile (dir : Directory) (path : List Char) : Except WalError (List UInt8) :=
  match dir[path]? with
  | none => .error (.io .notFound)
  | some content => .ok content

/-- `OpenOptions::create_new`. -/
def createNew (dir : Directory) (path : List Char) : Except WalError Directory :=
  match dir[path]? with
  | none => .ok (dir.insert path [])
  | some _ => .error (.io .alreadyExists)

/-- A write at the end of an open file; the length of a file is a `u64`. -/
def writeFile (dir : Directory) (path : List Char) (data : List UInt8) :
    Except WalError Directory := do
  let content ← openFile dir path
  if content.length + data.length < 2 ^ 64 then
    return dir.insert path (content ++ data)
  else
    throw (.io .fileTooLarge)

/-- The loop of `recover_segment_tail`. -/
def recoverLoop : Nat → List UInt8 → UInt64 → UInt64
  | 0, _, offset => offset
  | n + 1, file, offset =>
    match readRecord file with
    | none => offset
    | some (payload, rest) =>
      recoverLoop n rest (offset + UInt64.ofNat (magicHeader + payload.length))

def recoverSegmentTail (dir : Directory) (path : List Char) :
    Except WalError (Directory × UInt64) := do
  let file ← openFile dir path
  let offset := recoverLoop file.length file 0
  if offset < UInt64.ofNat file.length then
    return (dir.insert path (file.take offset.toNat), offset)
  else
    return (dir, offset)

end Wal

/-- The log with the directory it writes to; `buffer` is what its `BufWriter` holds back. -/
structure Wal where
  dir : Wal.Directory
  segmentSize : UInt64
  currentIndex : UInt64
  buffer : List UInt8
  currentBytes : UInt64

namespace Wal

/-- The capacity every `BufWriter` here is given. -/
def bufCapacity : Nat := 2 ^ 20

def openOrCreate (dir : Directory) (segmentSize : UInt64) : Except WalError Wal := do
  let segments ← listSegments dir
  match segments.getLast? with
  | some idx =>
    let (dir, bytes) ← recoverSegmentTail dir (segmentPath idx)
    let _ ← openFile dir (segmentPath idx)
    return ⟨dir, segmentSize, idx, [], bytes⟩
  | none =>
    let dir ← createNew dir (segmentPath 0)
    return ⟨dir, segmentSize, 0, [], 0⟩

/-- `BufWriter::flush`. -/
def flush (w : Wal) : Except WalError Wal := do
  let dir ← writeFile w.dir (segmentPath w.currentIndex) w.buffer
  return { w with dir := dir, buffer := [] }

/-- Write out what is held back when there is no room for `n` bytes more. -/
def flushFor (w : Wal) (n : Nat) : Except WalError Wal :=
  if n > bufCapacity - w.buffer.length then w.flush else .ok w

/-- The part of `BufWriter::write_all` for data that does not fit the buffer; data as long as the
buffer goes straight to the file. -/
def writeAllCold (w : Wal) (data : List UInt8) : Except WalError Wal := do
  let w ← w.flushFor data.length
  if data.length ≥ bufCapacity then
    return { w with dir := ← writeFile w.dir (segmentPath w.currentIndex) data }
  else
    return { w with buffer := w.buffer ++ data }

def writeAll (w : Wal) (data : List UInt8) : Except WalError Wal :=
  if data.length < bufCapacity - w.buffer.length then
    .ok { w with buffer := w.buffer ++ data }
  else
    w.writeAllCold data

def rotate (w : Wal) : Except WalError Wal := do
  let w ← w.flush
  let currentIndex := w.currentIndex + 1
  let dir ← createNew w.dir (segmentPath currentIndex)
  return { w with dir := dir, currentIndex := currentIndex, buffer := [], currentBytes := 0 }

/-- The three writes of `append` and its count of them. -/
def writeRecord (w : Wal) (payload : List UInt8) : Except WalError Wal := do
  let w ← w.writeAll (Bytes.toLe 4 payload.length)
  let w ← w.writeAll (Bytes.toLe 4 (crc32 payload).toNat)
  let w ← w.writeAll payload
  return { w with currentBytes := w.currentBytes + UInt64.ofNat (magicHeader + payload.length) }

/-- The rotation at the head of `append`. -/
def rotateFor (w : Wal) (payload : List UInt8) : Except WalError Wal :=
  if w.currentBytes + UInt64.ofNat (magicHeader + payload.length) > w.segmentSize then
    w.rotate
  else .ok w

def append (w : Wal) (payload : List UInt8) : Except WalError Wal :=
  if payload.length > 2 ^ 32 - 1 then
    .error (.payloadTooLarge payload.length)
  else do
    let w ← w.rotateFor payload
    w.writeRecord payload

/-- Flush and `fsync`, which leaves the contents of the files as they are. -/
def sync (w : Wal) : Except WalError Wal := w.flush

/-- Drop the log: its `BufWriter` writes out what it holds. -/
def close (w : Wal) : Except WalError Directory := do
  let w ← w.flush
  return w.dir

inductive Op
  | append (payload : List UInt8)
  | flush
  | sync
  | reopen (segmentSize : UInt64)
deriving DecidableEq, Repr

def step (w : Wal) : Op → Except WalError Wal
  | .append payload => w.append payload
  | .flush => w.flush
  | .sync => w.sync
  | .reopen segmentSize => do
    let dir ← w.close
    openOrCreate dir segmentSize

/-- Open the log in a directory, use it and close it. -/
def session (dir : Directory) (segmentSize : UInt64) (ops : List Op) : Except WalError Directory := do
  let w ← openOrCreate dir segmentSize
  let w ← ops.foldlM step w
  w.close

/-- The payloads handed to `append`, in order. -/
def appended (ops : List Op) : List (List UInt8) :=
  ops.filterMap fun
    | .append payload => some payload
    | _ => none

end Wal

/-- `segments` from the current one on, and the unread part of the segment that is open. -/
structure WalReader where
  dir : Wal.Directory
  segments : List UInt64
  file : Option (List UInt8)

namespace WalReader

open Wal

/-- `WalReader::open`. -/
def openDir (dir : Directory) : Except WalError WalReader := do
  let segments ← listSegments dir
  return ⟨dir, segments, none⟩

/-- `ensure_file`, with a segment left. -/
def ensureFile (dir : Directory) (idx : UInt64) : Option (List UInt8) → Except WalError (List UInt8)
  | some file => .ok file
  | none => openFile dir (segmentPath idx)

/-- The loop of `next_record` over the segments that are left. -/
def nextLoop (dir : Directory) :
    List UInt64 → Option (List UInt8) → Except WalError (Option (List UInt8) × WalReader)
  | [], none => .ok (none, ⟨dir, [], none⟩)
  | [], some file =>
    match readRecord file with
    | some (payload, rest) => .ok (some payload, ⟨dir, [], some rest⟩)
    | none => .ok (none, ⟨dir, [], none⟩)
  | idx :: segments, open? =>
    match ensureFile dir idx open? with
    | .error e => .error e
    | .ok file =>
      match readRecord file with
      | some (payload, rest) => .ok (some payload, ⟨dir, idx :: segments, some rest⟩)
      | none => nextLoop dir segments none

def nextRecord (r : WalReader) : Except WalError (Option (List UInt8) × WalReader) :=
  nextLoop r.dir r.segments r.file

/-- What `n` calls of `next_record` return. -/
def calls : Nat → WalReader → Except WalError (List (Option (List UInt8)))
  | 0, _ => .ok []
  | n + 1, r => do
    let (record, r) ← r.nextRecord
    let records ← calls n r
    return record :: records

end WalReader

end Flowlab.Replay
