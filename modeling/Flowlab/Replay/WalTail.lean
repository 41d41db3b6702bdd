import Flowlab.Replay.WalCrash

namespace Flowlab.Replay.Wal

open Framework

/-- A crash after the last segment was grown by `n` bytes, before any data reached them. -/
def extendLast (dir : Directory) (n : Nat) : Except WalError Directory := do
  let segments ← listSegments dir
  match segments.getLast? with
  | some idx => writeFile dir (segmentPath idx) (List.replicate n 0)
  | none => return dir

/-- Reading the log to the end delivers `payloads`, and `None` from then on. -/
def ReadsBack (dir : Directory) (payloads : List (List UInt8)) : Prop :=
  ∀ n, (WalReader.openDir dir >>= WalReader.calls n) =
    .ok ((payloads.map some).take n ++ List.replicate (n - payloads.length) none)

/-- The checksum of nothing is zero, so eight zero bytes are a record. -/
theorem frame_nil : frame [] = List.replicate 8 0 := by decide

theorem encode_replicate_nil (k : Nat) :
    encode (List.replicate k []) = List.replicate (8 * k) 0 := by
  induction k with
  | zero => rfl
  | succ k ih =>
    rw [List.replicate_succ, encode_cons, ih, frame_nil, List.replicate_append_replicate]
    congr 1
    omega

/-- A run of zero bytes is empty records, and too few bytes for one more. -/
theorem zeros_eq (n : Nat) :
    List.replicate n 0 = encode (List.replicate (n / 8) []) ++ List.replicate (n % 8) 0 := by
  rw [encode_replicate_nil, List.replicate_append_replicate, Nat.div_add_mod]

theorem readRecord_zeros {n : Nat} (h : n < 8) : readRecord (List.replicate n 0) = none := by
  rw [readRecord, if_pos (by rwa [List.length_replicate])]

/-- A log reads back in one way only. -/
theorem ReadsBack.unique {dir : Directory} {ps qs : List (List UInt8)} (hp : ReadsBack dir ps)
    (hq : ReadsBack dir qs) : ps = qs := by
  have hall (rs : List (List UInt8)) {n : Nat} (hn : rs.length ≤ n) :
      ((rs.map some).take n ++ List.replicate (n - rs.length) none).filterMap id = rs := by
    rw [List.take_of_length_le (by rwa [List.length_map]), List.filterMap_append,
      List.filterMap_replicate_of_none rfl, List.append_nil, List.filterMap_map]
    exact List.filterMap_some
  have heq := Except.ok.inj
    ((hp (ps.length + qs.length)).symm.trans (hq (ps.length + qs.length)))
  rw [← hall ps (Nat.le_add_right _ qs.length), heq, hall qs (Nat.le_add_left _ _)]

theorem extendLast_holds {dir : Directory} {done : List (List UInt8)} {last : List UInt8}
    (h : Holds dir (done ++ [last])) (n : Nat) :
    Outcome IsIo ((last ++ List.replicate n 0).length < 2 ^ 64)
      (fun grown => Holds grown (done ++ [last ++ List.replicate n 0])) (extendLast dir n) := by
  have hlist : listSegments dir = .ok (firstSegments (done.length + 1)) := by
    rw [listSegments_eq h, List.length_append]
    rfl
  rw [extendLast, hlist]
  simp only [bind, Except.bind, getLast_firstSegments]
  exact writeFile_holds h (List.replicate n 0)

/-- The zero bytes make the last segment longer by empty records. -/
theorem spread_zeros {done : List (List (List UInt8))} {last payloads : List (List UInt8)}
    (h : Spread 0 done last payloads) (k : Nat) :
    Spread 0 done (last ++ List.replicate k []) (payloads ++ List.replicate k []) where
  all := by rw [← List.append_assoc, h.all]
  short := by
    have hshort := h.short
    rw [List.length_append]
    omega
  small p hp := by
    rcases List.mem_append.mp hp with hp | hp
    · exact h.small p hp
    · rw [List.eq_of_mem_replicate hp]
      decide

/-- A log just opened can be closed again. -/
theorem close_layout {w : Wal} {done : List (List UInt8)} {cur : List UInt8}
    (h : Layout w done cur) (hroom : cur.length < 2 ^ 64) : ∃ dir, w.close = .ok dir := by
  obtain ⟨v, hflush, -⟩ := (flush_layout h).ok_of_room hroom
  exact ⟨v.dir, by rw [close, hflush]; rfl⟩

end Flowlab.Replay.Wal

namespace Flowlab.Replay

open Wal

/-- Let zero bytes follow the last segment of a log, and open the log again: every eight of them
read as one empty record that was never appended, so the log reads back what was appended exactly
when there are fewer than eight. -/
theorem wal_zero_tail (segmentSize : UInt64) (ops : List Op) (dir : Directory)
    (hdir : session ∅ segmentSize ops = .ok dir) (n : Nat) (grown : Directory)
    (hgrown : extendLast dir n = .ok grown) (segmentSize' : UInt64) :
    (∃ dir', session grown segmentSize' [] = .ok dir') ∧
    ∀ (ops' : List Op) (dir' : Directory), session grown segmentSize' ops' = .ok dir' →
      ReadsBack dir' (appended ops ++ List.replicate (n / 8) [] ++ appended ops') ∧
      (ReadsBack dir' (appended ops ++ appended ops') ↔ n < 8) := by
  have hstored := session_stored segmentSize ops (small_of_session hdir)
  rw [hdir] at hstored
  obtain ⟨done, last, hspread, hdisk⟩ := hstored
  have hspread' := spread_zeros hspread (n / 8)
  have hholds : Holds grown (done.map encode ++
      [encode (last ++ List.replicate (n / 8) []) ++ List.replicate (n % 8) 0]) := by
    have hextend := extendLast_holds hdisk n
    rw [hgrown] at hextend
    rw [encode_append, List.append_assoc, ← zeros_eq]
    exact hextend
  have hnone : readRecord (List.replicate (n % 8) 0) = none :=
    readRecord_zeros (Nat.mod_lt n (by decide))
  obtain ⟨w, hopen, hw⟩ := openOrCreate_torn hspread' hnone hholds segmentSize'
  refine ⟨?_, ?_⟩
  · have hfits := hholds.fits _ (List.mem_append_right _ (List.mem_singleton.mpr rfl))
    rw [List.length_append] at hfits
    have hsmall : ∀ p ∈ last ++ List.replicate (n / 8) [], p.length < 2 ^ 32 := by
      intro p hp
      exact hspread'.small p (hspread'.all ▸ List.mem_append_right _ hp)
    obtain ⟨w', hopen', hlayout, -⟩ := openOrCreate_layout hsmall hnone hholds segmentSize'
    obtain ⟨dir', hclose⟩ := close_layout hlayout (by omega)
    exact ⟨dir', by rw [session, hopen']; exact hclose⟩
  · intro ops' dir' hdir'
    have hstored' := session_logged hopen hw ops' (small_of_session hdir')
    rw [hdir'] at hstored'
    have hreads : ReadsBack dir' (appended ops ++ List.replicate (n / 8) [] ++ appended ops') :=
      calls_stored hstored'
    refine ⟨hreads, ?_, ?_⟩
    · intro hback
      have hlen := congrArg List.length (hback.unique hreads)
      simp only [List.length_append, List.length_replicate] at hlen
      omega
    · intro hn
      rwa [Nat.div_eq_of_lt hn, List.replicate_zero, List.append_nil] at hreads

/-- Seven zero bytes behind one record. -/
theorem wal_zero_tail_short :
    ∃ dir grown dir', session ∅ 100 [.append [1]] = .ok dir ∧ extendLast dir 7 = .ok grown ∧
      session grown 100 [] = .ok dir' ∧ ReadsBack dir' [[1]] := by
  obtain ⟨dir, hdir, done, last, hspread, hdisk⟩ :=
    (session_stored 100 [.append [1]] (by decide)).ok_of_room (by decide)
  have hlast : (encode last).length ≤ 9 := hspread.cur_le
  obtain ⟨grown, hgrown, -⟩ := (extendLast_holds hdisk 7).ok_of_room (by
    rw [List.length_append, List.length_replicate]
    omega)
  obtain ⟨⟨dir', hdir'⟩, hread⟩ := wal_zero_tail 100 [.append [1]] dir hdir 7 grown hgrown 100
  exact ⟨dir, grown, dir', hdir, hgrown, hdir', (hread [] dir' hdir').2.mpr (by decide)⟩

/-- Eight zero bytes behind one record: after the recovery a reader delivers a second, empty one. -/
theorem wal_zero_tail_record :
    (do
      let dir ← session ∅ 100 [.append [1]]
      let grown ← extendLast dir 8
      let dir' ← session grown 100 []
      WalReader.openDir dir' >>= WalReader.calls 3) = .ok [some [1], some [], none] ∧
      appended [.append [1]] = [[1]] := by
  refine ⟨?_, rfl⟩
  decide +kernel

end Flowlab.Replay
