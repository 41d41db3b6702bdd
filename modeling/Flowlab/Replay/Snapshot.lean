import Flowlab.Core.BookSnapshot

namespace Flowlab.Replay

open Flowlab.Core Framework

@[ext] structure Snapshot where
  seq : UInt64
  stateHash : UInt64
  bookData : List UInt8
  deriving DecidableEq, Repr

inductive SnapshotError where
  | truncated (len : Nat)
  | badMagic (magic : List UInt8)
  | badVersion (version : UInt32)
  | badLength (declared actual : Nat)
  deriving DecidableEq, Repr

namespace Snapshot

/-- `b"FLSN"`. -/
def magic : List UInt8 := [0x46, 0x4c, 0x53, 0x4e]

def version : UInt32 := 1

def headerLen : Nat := 4 + 4 + 8 + 8 + 4

/-- The declared length saturates at `u32::MAX`. -/
def toBytes (s : Snapshot) : List UInt8 :=
  magic ++ (le32 version ++ (le64 s.seq ++ (le64 s.stateHash ++
  (le32 (UInt32.ofNat (min s.bookData.length (2 ^ 32 - 1))) ++ s.bookData))))

def fromBytes (buf : List UInt8) : Except SnapshotError Snapshot :=
  if buf.length < headerLen then .error (.truncated buf.length)
  else if Bytes.slice buf 0 4 ≠ magic then .error (.badMagic (Bytes.slice buf 0 4))
  else if readU32 buf 4 ≠ version then .error (.badVersion (readU32 buf 4))
  else
    let seq := readU64 buf 8
    let stateHash := readU64 buf 16
    let declared := (readU32 buf 24).toNat
    let payload := buf.drop headerLen
    if declared > payload.length then .error (.badLength declared payload.length)
    else .ok ⟨seq, stateHash, payload.take declared⟩

/-- Reading a frame back, however long its payload is. -/
theorem fromBytes_frame (s : Snapshot) :
    fromBytes s.toBytes = .ok ⟨s.seq, s.stateHash, s.bookData.take (2 ^ 32 - 1)⟩ := by
  have hlen : s.toBytes.length = headerLen + s.bookData.length := by
    simp only [toBytes, List.length_append, length_le32, length_le64, headerLen, magic,
      List.length_cons, List.length_nil]
    omega
  have hmagic : Bytes.slice s.toBytes 0 4 = magic :=
    Bytes.slice_mid_of (a := []) (m := magic) rfl rfl
  have hversion : readU32 s.toBytes 4 = version :=
    readU32_mid (a := magic) version rfl rfl
  have hseq : readU64 s.toBytes 8 = s.seq :=
    readU64_mid (a := magic ++ le32 version) s.seq (by rw [List.append_assoc]; rfl) rfl
  have hhash : readU64 s.toBytes 16 = s.stateHash :=
    readU64_mid (a := magic ++ le32 version ++ le64 s.seq) s.stateHash
      (by simp only [List.append_assoc]; rfl) (by simp [magic])
  have hdecl : (readU32 s.toBytes 24).toNat = min s.bookData.length (2 ^ 32 - 1) := by
    rw [readU32_mid (a := magic ++ le32 version ++ le64 s.seq ++ le64 s.stateHash)
      (UInt32.ofNat (min s.bookData.length (2 ^ 32 - 1)))
      (by simp only [List.append_assoc]; rfl) (by simp [magic])]
    exact UInt32.toNat_ofNat_of_lt' (show min _ _ < 2 ^ 32 by omega)
  have hdrop : s.toBytes.drop headerLen = s.bookData := by
    have hsplit : s.toBytes = (magic ++ le32 version ++ le64 s.seq ++ le64 s.stateHash ++
        le32 (UInt32.ofNat (min s.bookData.length (2 ^ 32 - 1)))) ++ s.bookData := by
      simp only [toBytes, List.append_assoc]
    rw [hsplit]
    apply List.drop_left'
    simp [magic, headerLen]
  unfold fromBytes
  rw [if_neg (by omega), if_neg (not_not.mpr hmagic), if_neg (not_not.mpr hversion)]
  simp only [hseq, hhash, hdecl, hdrop]
  rw [if_neg (Nat.not_lt.mpr (Nat.min_le_left _ _)), Nat.min_comm, ← List.take_take,
    List.take_length]

/-- A frame whose payload is shorter than 2^32 bytes is read back whole. -/
theorem fromBytes_toBytes (s : Snapshot) (h : s.bookData.length < 2 ^ 32) :
    fromBytes s.toBytes = .ok s := by
  rw [fromBytes_frame, List.take_of_length_le (by omega)]

/-- A longer one is cut to what its length field can declare, and accepted. -/
theorem fromBytes_cut {s : Snapshot} (h : 2 ^ 32 ≤ s.bookData.length) :
    ∃ cut, fromBytes s.toBytes = .ok cut ∧ cut ≠ s := by
  refine ⟨_, fromBytes_frame s, ?_⟩
  intro heq
  have hlen := congrArg (fun t : Snapshot => t.bookData.length) heq
  simp only [List.length_take] at hlen
  omega

end Snapshot

/-- Taking a snapshot, framing it, and restoring book and frame gives back a book that cannot be
told from the original: it re-encodes to the same bytes, and every later event finds it in the
state of an uninterrupted run. -/
theorem snapshot_resume {M : Nat} (hM : M < 2 ^ 32) (instrumentId : UInt32) :
    (∀ es, ((HotOrderBook.new M instrumentId).run es).orders.data.length < 2 ^ 32 →
      ∃ b', HotOrderBook.fromSnapshotBytes M
          ((HotOrderBook.new M instrumentId).run es).toSnapshotBytes = .ok b' ∧
        b'.instrumentId = ((HotOrderBook.new M instrumentId).run es).instrumentId ∧
        b'.bids.ladder = ((HotOrderBook.new M instrumentId).run es).bids.ladder ∧
        b'.asks.ladder = ((HotOrderBook.new M instrumentId).run es).asks.ladder ∧
        b'.orders = ((HotOrderBook.new M instrumentId).run es).orders ∧
        b'.toSnapshotBytes = ((HotOrderBook.new M instrumentId).run es).toSnapshotBytes) ∧
    (∀ before after seq stateHash,
      ((HotOrderBook.new M instrumentId).run before).toSnapshotBytes.length < 2 ^ 32 →
      ∃ s b', Snapshot.fromBytes (Snapshot.toBytes ⟨seq, stateHash,
          ((HotOrderBook.new M instrumentId).run before).toSnapshotBytes⟩) = .ok s ∧
        s.seq = seq ∧ s.stateHash = stateHash ∧
        HotOrderBook.fromSnapshotBytes M s.bookData = .ok b' ∧
        (b'.run after).view = ((HotOrderBook.new M instrumentId).run (before ++ after)).view ∧
        (b'.run after).toSnapshotBytes =
          ((HotOrderBook.new M instrumentId).run (before ++ after)).toSnapshotBytes) := by
  constructor
  · intro es hs
    exact ⟨_, HotOrderBook.fromSnapshotBytes_toSnapshotBytes
      (HotOrderBook.sound_run hM instrumentId es hs), rfl, rfl, rfl, rfl, rfl⟩
  · intro before after seq stateHash hlen
    have hg := HotOrderBook.gridInv_run (HotOrderBook.gridInv_new hM instrumentId) before
    have hs : ((HotOrderBook.new M instrumentId).run before).orders.data.length < 2 ^ 32 := by
      rw [HotOrderBook.length_toSnapshotBytes hg.bids.count_le hg.asks.count_le] at hlen
      omega
    have hrun : (HotOrderBook.new M instrumentId).run (before ++ after) =
        ((HotOrderBook.new M instrumentId).run before).run after := List.foldl_append
    refine ⟨_, _, Snapshot.fromBytes_toBytes _ hlen, rfl, rfl,
      HotOrderBook.fromSnapshotBytes_toSnapshotBytes
        (HotOrderBook.sound_run hM instrumentId before hs), ?_, ?_⟩
    · rw [hrun]
    · rw [hrun]

/-- A cut through a short stream that fills and frees a slot. -/
theorem snapshot_resume_short :
    ∃ s b', Snapshot.fromBytes (Snapshot.toBytes ⟨9, 8, ((HotOrderBook.new 2 1).run
        [⟨0, 10, 5, 1, 1, 1, 0⟩, ⟨1, 0, 0, 1, 1, 2, 0⟩]).toSnapshotBytes⟩) = .ok s ∧
      s.seq = 9 ∧ s.stateHash = 8 ∧ HotOrderBook.fromSnapshotBytes 2 s.bookData = .ok b' ∧
      (b'.run [⟨2, 11, 6, 2, 1, 1, 0⟩]).view = ((HotOrderBook.new 2 1).run
        ([⟨0, 10, 5, 1, 1, 1, 0⟩, ⟨1, 0, 0, 1, 1, 2, 0⟩] ++ [⟨2, 11, 6, 2, 1, 1, 0⟩])).view ∧
      (b'.run [⟨2, 11, 6, 2, 1, 1, 0⟩]).toSnapshotBytes = ((HotOrderBook.new 2 1).run
        ([⟨0, 10, 5, 1, 1, 1, 0⟩, ⟨1, 0, 0, 1, 1, 2, 0⟩] ++
          [⟨2, 11, 6, 2, 1, 1, 0⟩])).toSnapshotBytes :=
  (snapshot_resume (M := 2) (by norm_num) 1).2 _ _ _ _ (by decide)

/-- Encoding and decoding gives the snapshot back or an error exactly below 2^32 bytes of book data:
the decoder refuses no frame of the encoder. -/
theorem snapshot_kept_iff (s : Snapshot) :
    (Snapshot.fromBytes s.toBytes = .ok s ∨ ∃ e, Snapshot.fromBytes s.toBytes = .error e) ↔
      s.bookData.length < 2 ^ 32 := by
  constructor
  · intro hkept
    by_contra hlong
    obtain ⟨cut, hcut, hne⟩ := Snapshot.fromBytes_cut (Nat.le_of_not_lt hlong)
    rcases hkept with hok | ⟨e, he⟩
    · exact hne (Except.ok.inj (hcut.symm.trans hok))
    · rw [hcut] at he
      exact absurd he (by simp)
  · intro hshort
    exact .inl (Snapshot.fromBytes_toBytes s hshort)

/-- 2^32 bytes of book data come back as one byte fewer. -/
theorem snapshot_cut_silently :
    ∃ cut, Snapshot.fromBytes (Snapshot.toBytes ⟨1, 2, List.replicate (2 ^ 32) 0⟩) = .ok cut ∧
      cut ≠ ⟨1, 2, List.replicate (2 ^ 32) 0⟩ := by
  apply Snapshot.fromBytes_cut
  rw [List.length_replicate]

end Flowlab.Replay
