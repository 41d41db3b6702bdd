import Flowlab.Replay.WalCrash

namespace Flowlab.Replay.Wal

open Std Framework

/-- A record whose payload was altered after its header was written. -/
def damagedFrame (p p' : List UInt8) : List UInt8 :=
  Bytes.toLe 4 p.length ++ (Bytes.toLe 4 (crc32 p).toNat ++ p')

/-- The log with the payload `p` of one record of segment `i` altered to `p'`. -/
def damage (dir : Directory) (i : Nat) (pre : List (List UInt8)) (p p' : List UInt8)
    (post : List (List UInt8)) : Directory :=
  dir.insert (segmentPath (UInt64.ofNat i)) (encode pre ++ (damagedFrame p p' ++ encode post))

/-- Giving one segment another content leaves the others in place. -/
theorem Holds.setAt {dir : Directory} {contents : List (List UInt8)} (h : Holds dir contents)
    {i : Nat} (hi : i < contents.length) {new : List UInt8} (hnew : new.length < 2 ^ 64) :
    Holds (dir.insert (segmentPath (UInt64.ofNat i)) new) (contents.set i new) := by
  have hcount := h.count
  constructor
  case count => rwa [List.length_set]
  case content =>
    intro j c hj
    have hjlt := (List.getElem?_eq_some_iff.mp hj).1
    rw [List.length_set] at hjlt
    rw [FiniteMap.get_insert]
    split_ifs with hname
    · obtain rfl : j = i := ofNat_injOn hcount hjlt hi (segmentPath_injective hname)
      rw [List.getElem?_set_self hi] at hj
      exact hj
    · have hne : i ≠ j := by
        intro he
        exact hname (by rw [he])
      rw [List.getElem?_set_ne hne] at hj
      exact h.content j c hj
  case fits =>
    intro c hc
    rcases List.mem_or_eq_of_mem_set hc with hc | rfl
    · exact h.fits c hc
    · exact hnew
  case named =>
    intro name c hc
    rw [List.length_set]
    rw [FiniteMap.get_insert] at hc
    split_ifs at hc with hname
    · exact ⟨i, hi, hname⟩
    · exact h.named name c hc

/-- A segment with a damaged record yields the records in front of it. -/
theorem segmentRecords_damaged {pre post : List (List UInt8)} {p p' : List UInt8}
    (hpre : ∀ q ∈ pre, q.length < 2 ^ 32) (hp : p.length < 2 ^ 32) (hlen : p'.length = p.length)
    (hcrc : crc32 p' ≠ crc32 p) :
    segmentRecords (encode pre ++ (damagedFrame p p' ++ encode post)) = pre := by
  refine segmentRecords_encode_append hpre ?_
  rw [damagedFrame, ← hlen, readRecord_header (by rwa [hlen]), if_pos hcrc]

theorem flatMap_segmentRecords_encode {segments : List (List (List UInt8))}
    (h : ∀ ps ∈ segments, ∀ p ∈ ps, p.length < 2 ^ 32) :
    (segments.map encode).flatMap segmentRecords = segments.flatten := by
  rw [List.flatMap_map, List.flatMap_def]
  refine congrArg List.flatten ((List.map_congr_left ?_).trans (List.map_id' _))
  intro ps hps
  exact segmentRecords_encode (h ps hps)

theorem flatten_around {segments : List (List (List UInt8))} {i : Nat} {ps : List (List UInt8)}
    (hi : segments[i]? = some ps) :
    (segments.take i).flatten ++ (ps ++ (segments.drop (i + 1)).flatten) = segments.flatten := by
  obtain ⟨hlt, hget⟩ := List.getElem?_eq_some_iff.mp hi
  rw [← List.flatten_cons, ← hget, List.getElem_cons_drop, ← List.flatten_append,
    List.take_append_drop]

/-- With a damaged record in segment `i`, what is left of that segment is passed over. -/
theorem calls_damage {dir : Directory} {segments : List (List (List UInt8))}
    (hdisk : Holds dir (segments.map encode))
    (hsmall : ∀ ps ∈ segments, ∀ p ∈ ps, p.length < 2 ^ 32) {i : Nat}
    {pre post : List (List UInt8)} {p p' : List UInt8}
    (hi : segments[i]? = some (pre ++ p :: post)) (hlen : p'.length = p.length)
    (hcrc : crc32 p' ≠ crc32 p) (n : Nat) :
    (WalReader.openDir (damage dir i pre p p' post) >>= WalReader.calls n) =
      .ok ((((segments.take i).flatten ++ pre ++ (segments.drop (i + 1)).flatten).map some).take n ++
        List.replicate
          (n - ((segments.take i).flatten ++ pre ++ (segments.drop (i + 1)).flatten).length) none) := by
  obtain ⟨hlt, hget⟩ := List.getElem?_eq_some_iff.mp hi
  have hmem : pre ++ p :: post ∈ segments := List.mem_of_getElem? hi
  have hseg := hsmall _ hmem
  have hfits : (encode pre ++ (damagedFrame p p' ++ encode post)).length < 2 ^ 64 := by
    have hold := hdisk.fits (encode (pre ++ p :: post)) (List.mem_map_of_mem hmem)
    rw [encode_append, encode_cons] at hold
    simp only [List.length_append, length_frame, damagedFrame, Bytes.length_toLe, magicHeader]
      at hold ⊢
    omega
  have hset := hdisk.setAt (i := i) (by rwa [List.length_map]) hfits
  have hrecords : ((segments.map encode).set i
      (encode pre ++ (damagedFrame p p' ++ encode post))).flatMap segmentRecords =
      (segments.take i).flatten ++ pre ++ (segments.drop (i + 1)).flatten := by
    rw [List.set_eq_take_append_cons_drop, if_pos (by rwa [List.length_map]), List.flatMap_append,
      List.flatMap_cons, ← List.map_take, ← List.map_drop,
      flatMap_segmentRecords_encode (fun ps hps => hsmall ps (List.mem_of_mem_take hps)),
      flatMap_segmentRecords_encode (fun ps hps => hsmall ps (List.mem_of_mem_drop hps)),
      segmentRecords_damaged (fun q hq => hseg q (List.mem_append_left _ hq))
        (hseg p (by simp)) hlen hcrc, List.append_assoc]
  have hcalls := WalReader.calls_holds hset n
  rwa [hrecords] at hcalls

end Flowlab.Replay.Wal

namespace Flowlab.Replay

open Wal Framework

/-- Alter the payload of one record so that its check fails. A reader first delivers the records in
front of it. In the last segment that is all it delivers; at the end of an earlier segment the
record is a torn tail, and the reader goes on with the next segment. -/
theorem wal_damaged_record (segmentSize : UInt64) (ops : List Op) (dir : Directory)
    (hdir : session ∅ segmentSize ops = .ok dir) :
    ∃ segments : List (List (List UInt8)),
      segments.flatten = appended ops ∧ Holds dir (segments.map encode) ∧
      ∀ (i : Nat) (pre post : List (List UInt8)) (p p' : List UInt8),
        segments[i]? = some (pre ++ p :: post) → p'.length = p.length → crc32 p' ≠ crc32 p →
        ∃ before after,
          before = (segments.take i).flatten ++ pre ∧ after = (segments.drop (i + 1)).flatten ∧
          before ++ p :: post ++ after = appended ops ∧
          (WalReader.openDir (damage dir i pre p p' post) >>= WalReader.calls before.length) =
            .ok (before.map some) ∧
          (i + 1 = segments.length → ∀ n,
            (WalReader.openDir (damage dir i pre p p' post) >>= WalReader.calls n) =
              .ok ((before.map some).take n ++ List.replicate (n - before.length) none)) ∧
          (post = [] → ∀ n,
            (WalReader.openDir (damage dir i pre p p' post) >>= WalReader.calls n) =
              .ok (((before ++ after).map some).take n ++
                List.replicate (n - (before ++ after).length) none)) := by
  have hstored := session_stored segmentSize ops (small_of_session hdir)
  rw [hdir] at hstored
  obtain ⟨done, last, hspread, hdisk⟩ := hstored
  have hall : (done ++ [last]).flatten = appended ops := by
    rw [List.flatten_append, List.flatten_singleton, hspread.all]
  have hholds : Holds dir ((done ++ [last]).map encode) := by
    rwa [List.map_append, List.map_singleton]
  refine ⟨done ++ [last], hall, hholds, ?_⟩
  generalize done ++ [last] = segments at hall hholds
  intro i pre post p p' hi hlen hcrc
  have hsmall : ∀ ps ∈ segments, ∀ q ∈ ps, q.length < 2 ^ 32 := by
    intro ps hps q hq
    exact small_of_session hdir q (hall ▸ List.mem_flatten.mpr ⟨ps, hps, hq⟩)
  have hcalls := calls_damage hholds hsmall hi hlen hcrc
  refine ⟨_, _, rfl, rfl, ?_, ?_, ?_, fun _ => hcalls⟩
  · rw [← hall, ← flatten_around hi, List.append_assoc, List.append_assoc, List.append_assoc]
  · have hzero : ((segments.take i).flatten ++ pre).length -
        ((segments.take i).flatten ++ pre ++ (segments.drop (i + 1)).flatten).length = 0 := by
      simp only [List.length_append]
      omega
    rw [hcalls, hzero, List.map_append, List.take_left' (List.length_map _), List.replicate_zero,
      List.append_nil]
  · intro hlast n
    rw [hcalls, hlast, List.drop_length, List.flatten_nil, List.append_nil]

/-- The second of three records in one segment is altered. -/
theorem wal_damaged_record_last :
    ∃ dir, session ∅ 100 [.append [1], .append [2], .append [3]] = .ok dir ∧
      (WalReader.openDir (damage dir 0 [[1]] [2] [9] [[3]]) >>= WalReader.calls 3) =
        .ok [some [1], none, none] := by
  obtain ⟨dir, hdir, -⟩ := (session_stored 100 [.append [1], .append [2], .append [3]]
    (by decide)).ok_of_room (by decide)
  obtain ⟨segments, hall, hdisk, hdamage⟩ := wal_damaged_record 100 _ dir hdir
  have hlist : (session ∅ 100 [.append [1], .append [2], .append [3]] >>= listSegments) =
      .ok [0] := by
    decide +kernel
  have hone : segments.length = 1 := by
    rw [hdir] at hlist
    have hlen := length_of_listSegments hdisk hlist
    simpa using hlen
  obtain ⟨ps, rfl⟩ := List.length_eq_one_iff.mp hone
  obtain rfl : ps = [[1], [2], [3]] := by simpa [appended] using hall
  obtain ⟨before, after, rfl, rfl, -, -, hlast, -⟩ :=
    hdamage 0 [[1]] [[3]] [2] [9] rfl rfl (by decide +kernel)
  exact ⟨dir, hdir, hlast rfl 3⟩

/-- Two segments of one record each. The first record is altered, and the second is delivered as if
nothing were missing. -/
theorem wal_damaged_record_skipped :
    ∃ dir, session ∅ 9 [.append [1], .append [2]] = .ok dir ∧ crc32 [9] ≠ crc32 [1] ∧
      openFile dir (segmentPath 0) = .ok (frame [1]) ∧
      (WalReader.openDir (damage dir 0 [] [1] [9] []) >>= WalReader.calls 2) =
        .ok [some [2], none] ∧
      ¬ [[2]] <+: appended [.append [1], .append [2]] := by
  obtain ⟨dir, hdir, -⟩ := (session_stored 9 [.append [1], .append [2]]
    (by decide)).ok_of_room (by decide)
  have hfile : (session ∅ 9 [.append [1], .append [2]] >>=
      fun dir => openFile dir (segmentPath 0)) = .ok (frame [1]) := by
    decide +kernel
  have hread : (session ∅ 9 [.append [1], .append [2]] >>=
      fun dir => WalReader.openDir (damage dir 0 [] [1] [9] []) >>= WalReader.calls 2) =
      .ok [some [2], none] := by
    decide +kernel
  rw [hdir] at hfile hread
  exact ⟨dir, hdir, by decide +kernel, hfile, hread, by decide⟩

end Flowlab.Replay
