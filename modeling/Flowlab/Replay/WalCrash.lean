import Flowlab.Replay.WalLog

namespace Flowlab.Replay.Wal

open Std Framework

/-- A crash that leaves the first `n` bytes of the last segment. -/
def truncateLast (dir : Directory) (n : Nat) : Except WalError Directory := do
  let segments ← listSegments dir
  match segments.getLast? with
  | some idx =>
    let file ← openFile dir (segmentPath idx)
    return dir.insert (segmentPath idx) (file.take n)
  | none => return dir

/-- The records that lie wholly inside the first `n` bytes. -/
def keptRecords : Nat → List (List UInt8) → List (List UInt8)
  | _, [] => []
  | n, p :: ps =>
    if magicHeader + p.length ≤ n then p :: keptRecords (n - (magicHeader + p.length)) ps else []

theorem keptRecords_initial (n : Nat) (ps : List (List UInt8)) : keptRecords n ps <+: ps := by
  induction ps generalizing n with
  | nil => exact List.prefix_rfl
  | cons p ps ih =>
    rw [keptRecords]
    split_ifs
    · exact List.cons_prefix_cons.mpr ⟨rfl, ih _⟩
    · exact List.nil_prefix

/-- A cut inside a record leaves no record: the header is short, or the payload is. -/
theorem readRecord_cut {p : List UInt8} (hp : p.length < 2 ^ 32) {n : Nat}
    (hn : n < magicHeader + p.length) (z : List UInt8) :
    readRecord ((frame p ++ z).take n) = none := by
  have hlen : ((frame p ++ z).take n).length = n := by
    rw [List.length_take, List.length_append, length_frame]
    omega
  by_cases hhdr : n < magicHeader
  · rw [readRecord, if_pos (by rwa [hlen])]
  · have hfour : min (min 4 magicHeader) n = 4 := by
      simp only [magicHeader] at hhdr ⊢
      omega
    have hread : Bytes.ofLe ((((frame p ++ z).take n).take magicHeader).take 4) = p.length := by
      rw [List.take_take, List.take_take, hfour, frame, List.append_assoc,
        List.take_left' (Bytes.length_toLe 4 _), Bytes.ofLe_toLe _ _ (by omega)]
    have hrest : (((frame p ++ z).take n).drop magicHeader).length < p.length := by
      rw [List.length_drop, hlen]
      omega
    simp only [readRecord, hread]
    rw [if_neg (by omega), if_pos hrest]

/-- The kept bytes are the kept records and a torn tail. -/
theorem take_encode {ps : List (List UInt8)} (h : ∀ p ∈ ps, p.length < 2 ^ 32) (n : Nat) :
    ∃ tail, (encode ps).take n = encode (keptRecords n ps) ++ tail ∧ readRecord tail = none := by
  induction ps generalizing n with
  | nil => exact ⟨[], by simp [encode, keptRecords], rfl⟩
  | cons p ps ih =>
    rw [encode_cons, keptRecords]
    split_ifs with hfit
    · obtain ⟨tail, htail, hnone⟩ :=
        ih (fun q hq => h q (List.mem_cons_of_mem _ hq)) (n - (magicHeader + p.length))
      refine ⟨tail, ?_, hnone⟩
      rw [List.take_append, length_frame, List.take_of_length_le (by rwa [length_frame]), htail,
        encode_cons, List.append_assoc]
    · exact ⟨_, rfl, readRecord_cut (h p List.mem_cons_self) (by omega) _⟩

/-- A listing names as many segments as there are. -/
theorem length_of_listSegments {dir : Directory} {contents : List (List UInt8)}
    {segments : List UInt64} (h : Holds dir contents) (hlist : listSegments dir = .ok segments) :
    contents.length = segments.length := by
  rw [← Except.ok.inj ((listSegments_eq h).symm.trans hlist), firstSegments, List.length_map,
    List.length_range]

/-- An append that succeeded was small enough for its length field. -/
theorem small_of_append {w v : Wal} {p : List UInt8} (h : w.append p = .ok v) :
    p.length < 2 ^ 32 := by
  have hle := (ok_of_check h).1
  omega

theorem small_of_step {w v : Wal} {op : Op} (h : w.step op = .ok v) :
    ∀ p ∈ appended [op], p.length < 2 ^ 32 := by
  intro p hp
  cases op with
  | append q =>
    rw [List.mem_singleton.mp hp]
    exact small_of_append h
  | flush => exact absurd hp (by simp [appended])
  | sync => exact absurd hp (by simp [appended])
  | reopen segmentSize => exact absurd hp (by simp [appended])

theorem small_of_run {w v : Wal} {ops : List Op} (h : ops.foldlM step w = .ok v) :
    ∀ p ∈ appended ops, p.length < 2 ^ 32 := by
  induction ops generalizing w with
  | nil => simp [appended]
  | cons op ops ih =>
    rw [List.foldlM_cons] at h
    obtain ⟨u, hstep, hrun⟩ := ok_of_bind h
    intro p hp
    rw [appended_cons] at hp
    rcases List.mem_append.mp hp with hp | hp
    · exact small_of_step hstep p hp
    · exact ih hrun p hp

theorem small_of_session {dir dir' : Directory} {segmentSize : UInt64} {ops : List Op}
    (h : session dir segmentSize ops = .ok dir') : ∀ p ∈ appended ops, p.length < 2 ^ 32 := by
  obtain ⟨w, -, h⟩ := ok_of_bind h
  obtain ⟨v, hrun, -⟩ := ok_of_bind h
  exact small_of_run hrun

theorem truncateLast_holds {dir : Directory} {done : List (List UInt8)} {last : List UInt8}
    (h : Holds dir (done ++ [last])) (n : Nat) :
    ∃ cut, truncateLast dir n = .ok cut ∧ Holds cut (done ++ [last.take n]) := by
  have hlist : listSegments dir = .ok (firstSegments (done.length + 1)) := by
    rw [listSegments_eq h, List.length_append]
    rfl
  have hfits : last.length < 2 ^ 64 := h.fits last (by simp)
  have hcut : (last.take n).length < 2 ^ 64 := (List.length_take_le' n last).trans_lt hfits
  refine ⟨_, ?_, h.setLast hcut⟩
  rw [truncateLast, hlist]
  simp only [bind, Except.bind, getLast_firstSegments, openFile_eq h.last]
  rfl

/-- What is kept of a log is spread over its segments like the log, but for the records lost. -/
theorem spread_kept {done : List (List (List UInt8))} {last payloads : List (List UInt8)}
    (h : Spread 0 done last payloads) (n : Nat) :
    Spread (last.length - (keptRecords n last).length) done (keptRecords n last)
      (done.flatten ++ keptRecords n last) where
  all := rfl
  short := by
    have hshort := h.short
    have hle := (keptRecords_initial n last).length_le
    rw [← h.all] at hshort
    simp only [List.length_append] at hshort ⊢
    omega
  small p hp := by
    refine h.small p ?_
    rw [← h.all]
    rcases List.mem_append.mp hp with hp | hp
    · exact List.mem_append_left _ hp
    · exact List.mem_append_right _ ((keptRecords_initial n last).subset hp)

/-- The records lost took up at least their headers. -/
theorem length_kept (n : Nat) (last : List (List UInt8)) :
    (encode (keptRecords n last)).length + magicHeader * (last.length - (keptRecords n last).length) ≤
      (encode last).length := by
  obtain ⟨lost, hlost⟩ := keptRecords_initial n last
  have hle := length_encode_le lost
  have henc := congrArg (fun ps => (encode ps).length) hlost
  have hlen := congrArg List.length hlost
  simp only [encode_append, List.length_append] at henc hlen
  rw [← hlen, Nat.add_sub_cancel_left]
  omega

end Flowlab.Replay.Wal

namespace Flowlab.Replay

open Wal Framework

/-- Cut the last segment of a log anywhere, open the log again and go on: a reader finds the records
that lie wholly inside the kept bytes, then those appended since, and then `None`. The only errors
of the second session are those of the file system, and it meets none while the two sessions take
less than `2 ^ 64` bytes. -/
theorem wal_survives_truncation (segmentSize : UInt64) (ops : List Op) (dir : Directory)
    (hdir : session ∅ segmentSize ops = .ok dir) :
    ∃ (done : List (List (List UInt8))) (last : List (List UInt8)),
      done.flatten ++ last = appended ops ∧ Holds dir (done.map encode ++ [encode last]) ∧
      ∀ n, ∃ cut, truncateLast dir n = .ok cut ∧
        ∀ (segmentSize' : UInt64) (ops' : List Op),
          (∀ dir', session cut segmentSize' ops' = .ok dir' → ∀ m,
            (WalReader.openDir dir' >>= WalReader.calls m) =
              .ok (((done.flatten ++ keptRecords n last ++ appended ops').map some).take m ++
                List.replicate
                  (m - (done.flatten ++ keptRecords n last ++ appended ops').length) none)) ∧
          ((∀ p ∈ appended ops', p.length < 2 ^ 32) →
            (∀ e, session cut segmentSize' ops' = .error e → ∃ kind, e = .io kind) ∧
            ((encode (appended ops ++ appended ops')).length < 2 ^ 64 →
              ∃ dir', session cut segmentSize' ops' = .ok dir')) := by
  have hstored := session_stored segmentSize ops (small_of_session hdir)
  rw [hdir] at hstored
  obtain ⟨done, last, hspread, hdisk⟩ := hstored
  refine ⟨done, last, hspread.all, hdisk, ?_⟩
  intro n
  obtain ⟨cut, hcut, hholds⟩ := truncateLast_holds hdisk n
  have hlast : ∀ p ∈ last, p.length < 2 ^ 32 := by
    intro p hp
    exact hspread.small p (hspread.all ▸ List.mem_append_right _ hp)
  obtain ⟨tail, htail, hnone⟩ := take_encode hlast n
  rw [htail] at hholds
  refine ⟨cut, hcut, ?_⟩
  intro segmentSize' ops'
  obtain ⟨w, hopen, hw⟩ := openOrCreate_torn (spread_kept hspread n) hnone hholds segmentSize'
  have houtcome := session_logged hopen hw ops'
  refine ⟨?_, ?_⟩
  · intro dir' hdir' m
    have hstored' := houtcome (small_of_session hdir')
    rw [hdir'] at hstored'
    exact calls_stored hstored' m
  · intro hsmall'
    refine ⟨?_, ?_⟩
    · intro e he
      have herr := houtcome hsmall'
      rw [he] at herr
      exact herr.1
    · intro hroom
      have hkept := length_kept n last
      obtain ⟨dir', hdir', -⟩ := (houtcome hsmall').ok_of_room (by
        rw [← hspread.all] at hroom
        simp only [encode_append, List.length_append] at hroom ⊢
        omega)
      exact ⟨dir', hdir'⟩

/-- Two records in one segment, a cut inside the second, and a record appended after it. -/
theorem wal_survives_truncation_torn :
    ∃ dir cut dir', session ∅ 100 [.append [1, 2], .append [3, 4]] = .ok dir ∧
      truncateLast dir 15 = .ok cut ∧ session cut 100 [.append [5]] = .ok dir' ∧
      (WalReader.openDir dir' >>= WalReader.calls 3) = .ok [some [1, 2], some [5], none] := by
  obtain ⟨dir, hdir, -⟩ := (session_stored 100 [.append [1, 2], .append [3, 4]]
    (by decide)).ok_of_room (by decide)
  obtain ⟨done, last, hall, hdisk, hcuts⟩ := wal_survives_truncation 100 _ dir hdir
  have hlist : (session ∅ 100 [.append [1, 2], .append [3, 4]] >>= listSegments) = .ok [0] := by
    decide +kernel
  have hnil : done = [] := by
    rw [hdir] at hlist
    have hlen := length_of_listSegments hdisk hlist
    simpa using hlen
  obtain rfl := hnil
  obtain rfl : last = [[1, 2], [3, 4]] := hall
  obtain ⟨cut, hcut, hnext⟩ := hcuts 15
  obtain ⟨hread, hopen⟩ := hnext 100 [.append [5]]
  obtain ⟨dir', hdir'⟩ := (hopen (by decide)).2 (by decide)
  exact ⟨dir, cut, dir', hdir, hcut, hdir', hread dir' hdir' 3⟩

end Flowlab.Replay
