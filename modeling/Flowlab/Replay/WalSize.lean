import Flowlab.Replay.WalCrash

namespace Flowlab.Replay.Wal

open Framework

/-- What writing to the segment leaves as it is. -/
def Uncounted (w v : Wal) : Prop := v.currentBytes = w.currentBytes ∧ v.segmentSize = w.segmentSize

theorem flush_uncounted {w v : Wal} (h : w.flush = .ok v) : Uncounted w v := by
  obtain ⟨dir, -, hv⟩ := ok_of_bind h
  obtain rfl := Except.ok.inj hv
  exact ⟨rfl, rfl⟩

theorem flushFor_uncounted {w v : Wal} {n : Nat} (h : w.flushFor n = .ok v) : Uncounted w v := by
  rw [flushFor] at h
  split_ifs at h
  · exact flush_uncounted h
  · obtain rfl := Except.ok.inj h
    exact ⟨rfl, rfl⟩

theorem writeAll_uncounted {w v : Wal} {data : List UInt8} (h : w.writeAll data = .ok v) :
    Uncounted w v := by
  rw [writeAll] at h
  split_ifs at h
  · obtain rfl := Except.ok.inj h
    exact ⟨rfl, rfl⟩
  · obtain ⟨u, hu, h⟩ := ok_of_bind h
    have hflush := flushFor_uncounted hu
    split_ifs at h
    · obtain ⟨dir, -, hv⟩ := ok_of_bind h
      obtain rfl := Except.ok.inj hv
      exact hflush
    · obtain rfl := Except.ok.inj h
      exact hflush

theorem writeRecord_counts {w v : Wal} {payload : List UInt8} (h : w.writeRecord payload = .ok v) :
    v.currentBytes = w.currentBytes + UInt64.ofNat (magicHeader + payload.length) ∧
      v.segmentSize = w.segmentSize := by
  obtain ⟨w₁, h₁, h⟩ := ok_of_bind h
  obtain ⟨w₂, h₂, h⟩ := ok_of_bind h
  obtain ⟨w₃, h₃, h⟩ := ok_of_bind h
  obtain rfl := Except.ok.inj h
  have hu₁ := writeAll_uncounted h₁
  have hu₂ := writeAll_uncounted h₂
  have hu₃ := writeAll_uncounted h₃
  refine ⟨?_, hu₃.2.trans (hu₂.2.trans hu₁.2)⟩
  show w₃.currentBytes + _ = _
  rw [hu₃.1, hu₂.1, hu₁.1]

theorem rotate_counts {w v : Wal} (h : w.rotate = .ok v) :
    v.currentBytes = 0 ∧ v.segmentSize = w.segmentSize := by
  obtain ⟨u, hu, h⟩ := ok_of_bind h
  obtain ⟨dir, -, h⟩ := ok_of_bind h
  obtain rfl := Except.ok.inj h
  exact ⟨rfl, (flush_uncounted hu).2⟩

/-- A flush that succeeds puts the whole segment on disk. -/
theorem flush_fits {w v : Wal} {done : List (List UInt8)} {cur : List UInt8} (h : Layout w done cur)
    (hv : w.flush = .ok v) : Layout v done cur ∧ Holds v.dir (done ++ [cur]) ∧ cur.length < 2 ^ 64 := by
  have hflush := flush_layout h
  rw [hv] at hflush
  obtain ⟨hlayout, hdisk, -⟩ := hflush
  exact ⟨hlayout, hdisk, hdisk.fits cur (by simp)⟩

/-- The records of a segment do not pass the segment size, unless there is only one. -/
def Bounded (segmentSize : UInt64) (records : List (List UInt8)) : Prop :=
  (encode records).length ≤ segmentSize.toNat ∨ records.length = 1

/-- The open log with the records of its finished segments and of the current one. The bound of the
current one waits for its bytes to be writable. -/
structure Sized (segmentSize : UInt64) (w : Wal) (done : List (List (List UInt8)))
    (cur : List (List UInt8)) : Prop where
  layout : Layout w (done.map encode) (encode cur)
  size : w.segmentSize = segmentSize
  counted : w.currentBytes = UInt64.ofNat (encode cur).length
  small : ∀ ps ∈ done ++ [cur], ∀ p ∈ ps, p.length < 2 ^ 32
  full : ∀ ps ∈ done, Bounded segmentSize ps
  last : (encode cur).length < 2 ^ 64 → Bounded segmentSize cur

variable {segmentSize : UInt64} {w v : Wal} {done : List (List (List UInt8))}
  {cur : List (List UInt8)}

theorem Sized.mem_last (h : Sized segmentSize w done cur) : ∀ p ∈ cur, p.length < 2 ^ 32 :=
  h.small cur (by simp)

theorem encode_concat (ps : List (List UInt8)) (p : List UInt8) :
    encode (ps ++ [p]) = encode ps ++ frame p := by
  rw [encode_append, encode_cons]
  exact congrArg _ (List.append_nil _)

/-- One more record in the current segment, if it may stand there. -/
theorem Sized.record (h : Sized segmentSize w done cur) {p : List UInt8} (hp : p.length < 2 ^ 32)
    (hlast : (encode (cur ++ [p])).length < 2 ^ 64 → Bounded segmentSize (cur ++ [p]))
    (hv : w.writeRecord p = .ok v) : Sized segmentSize v done (cur ++ [p]) := by
  have hlayout := writeRecord_layout h.layout p
  rw [hv] at hlayout
  obtain ⟨hcounted, hsize⟩ := writeRecord_counts hv
  constructor
  case layout =>
    rw [encode_concat]
    exact hlayout
  case size => rw [hsize, h.size]
  case counted =>
    rw [hcounted, h.counted, ← UInt64.ofNat_add, encode_concat, List.length_append, length_frame]
  case small =>
    intro ps hps q hq
    rcases List.mem_append.mp hps with hdone | hcur
    · exact h.small ps (List.mem_append_left _ hdone) q hq
    · rw [List.mem_singleton.mp hcur] at hq
      rcases List.mem_append.mp hq with hq | hq
      · exact h.mem_last q hq
      · rwa [List.mem_singleton.mp hq]
  case full => exact h.full
  case last => exact hlast

/-- A rotation finds the current segment written out, and starts an empty one. -/
theorem Sized.rotated (h : Sized segmentSize w done cur) (hv : w.rotate = .ok v) :
    Sized segmentSize v (done ++ [cur]) [] := by
  have hlayout := rotate_layout h.layout
  rw [hv] at hlayout
  obtain ⟨hcounted, hsize⟩ := rotate_counts hv
  obtain ⟨u, hflush, -⟩ := ok_of_bind hv
  have hfits := (flush_fits h.layout hflush).2.2
  constructor
  case layout =>
    rw [List.map_append]
    exact hlayout
  case size => rw [hsize, h.size]
  case counted => exact hcounted
  case small =>
    intro ps hps
    rcases List.mem_append.mp hps with hps | hnil
    · exact h.small ps hps
    · rw [List.mem_singleton.mp hnil]
      exact fun p hp => absurd hp List.not_mem_nil
  case full =>
    intro ps hps
    rcases List.mem_append.mp hps with hdone | hcur
    · exact h.full ps hdone
    · rw [List.mem_singleton.mp hcur]
      exact h.last hfits
  case last => exact fun _ => .inl (Nat.zero_le _)

theorem append_sized (h : Sized segmentSize w done cur) {p : List UInt8}
    (hv : w.append p = .ok v) : ∃ done cur, Sized segmentSize v done cur := by
  have hp := small_of_append hv
  obtain ⟨u, hrotate, hwrite⟩ := ok_of_bind (ok_of_check hv).2
  rw [rotateFor] at hrotate
  split_ifs at hrotate with hover
  · exact ⟨_, _, (h.rotated hrotate).record hp (fun _ => .inr rfl) hwrite⟩
  · obtain rfl := Except.ok.inj hrotate
    refine ⟨_, _, h.record hp ?_ hwrite⟩
    intro hfits
    have hlen : (encode (cur ++ [p])).length = (encode cur).length + (magicHeader + p.length) := by
      rw [encode_concat, List.length_append, length_frame]
    rw [h.counted, h.size, ← UInt64.ofNat_add, ← hlen, gt_iff_lt, UInt64.lt_iff_toNat_lt,
      UInt64.toNat_ofNat_of_lt' hfits] at hover
    exact .inl (Nat.le_of_not_lt hover)

theorem Sized.flushed (h : Sized segmentSize w done cur) (hv : w.flush = .ok v) :
    Sized segmentSize v done cur where
  layout := (flush_fits h.layout hv).1
  size := (flush_uncounted hv).2.trans h.size
  counted := (flush_uncounted hv).1.trans h.counted
  small := h.small
  full := h.full
  last := h.last

/-- Opened again, the log counts what the recovery found. -/
theorem Sized.reopened (h : Sized segmentSize w done cur) {dir : Directory}
    (hclose : w.close = .ok dir) (hv : openOrCreate dir segmentSize = .ok v) :
    Sized segmentSize v done cur := by
  obtain ⟨u, hflush, hdir⟩ := ok_of_bind hclose
  obtain rfl := Except.ok.inj hdir
  have hdisk := (flush_fits h.layout hflush).2.1
  rw [← List.append_nil (encode cur)] at hdisk
  have hnone : readRecord [] = none := rfl
  obtain ⟨v', hopen, hlayout, -, hsize, hcounted⟩ :=
    openOrCreate_layout h.mem_last hnone hdisk segmentSize
  obtain rfl := Except.ok.inj (hopen.symm.trans hv)
  exact ⟨hlayout, hsize, hcounted, h.small, h.full, h.last⟩

/-- The operation opens the log with this segment size, if it does open it. -/
def Op.KeepsSize (segmentSize : UInt64) : Op → Prop
  | .reopen size => size = segmentSize
  | _ => True

theorem step_sized (h : Sized segmentSize w done cur) {op : Op} (hop : op.KeepsSize segmentSize)
    (hv : w.step op = .ok v) : ∃ done cur, Sized segmentSize v done cur := by
  cases op with
  | append p => exact append_sized h hv
  | flush => exact ⟨_, _, h.flushed hv⟩
  | sync => exact ⟨_, _, h.flushed hv⟩
  | reopen size =>
    obtain rfl : size = segmentSize := hop
    obtain ⟨dir, hclose, hopen⟩ := ok_of_bind hv
    exact ⟨_, _, h.reopened hclose hopen⟩

theorem run_sized {ops : List Op} (h : Sized segmentSize w done cur)
    (hops : ∀ op ∈ ops, op.KeepsSize segmentSize) (hv : ops.foldlM step w = .ok v) :
    ∃ done cur, Sized segmentSize v done cur := by
  induction ops generalizing w done cur with
  | nil =>
    obtain rfl := Except.ok.inj hv
    exact ⟨_, _, h⟩
  | cons op ops ih =>
    rw [List.foldlM_cons] at hv
    obtain ⟨u, hstep, hrun⟩ := ok_of_bind hv
    obtain ⟨done', cur', hu⟩ := step_sized h (hops op List.mem_cons_self) hstep
    exact ih hu (fun x hx => hops x (List.mem_cons_of_mem _ hx)) hrun

/-- An operation writes out the current segment, or adds to it. -/
theorem step_fits {op : Op} {done : List (List UInt8)} {cur : List UInt8} (h : Layout w done cur)
    (hv : w.step op = .ok v) : cur.length < 2 ^ 64 ∨ ∃ data, Layout v done (cur ++ data) := by
  cases op with
  | append p =>
    obtain ⟨u, hrotate, hwrite⟩ := ok_of_bind (ok_of_check hv).2
    rw [rotateFor] at hrotate
    split_ifs at hrotate
    · obtain ⟨x, hflush, -⟩ := ok_of_bind hrotate
      exact .inl (flush_fits h hflush).2.2
    · obtain rfl := Except.ok.inj hrotate
      have hlayout := writeRecord_layout h p
      rw [hwrite] at hlayout
      exact .inr ⟨_, hlayout⟩
  | flush => exact .inl (flush_fits h hv).2.2
  | sync => exact .inl (flush_fits h hv).2.2
  | reopen size =>
    obtain ⟨dir, hclose, -⟩ := ok_of_bind hv
    obtain ⟨u, hflush, -⟩ := ok_of_bind hclose
    exact .inl (flush_fits h hflush).2.2

/-- If the rest of a session succeeds, the current segment can be written out now. -/
theorem run_fits {ops : List Op} {done : List (List UInt8)} {cur : List UInt8}
    (h : Layout w done cur) (hv : ops.foldlM step w = .ok v) {dir : Directory}
    (hclose : v.close = .ok dir) : cur.length < 2 ^ 64 := by
  induction ops generalizing w cur with
  | nil =>
    obtain rfl := Except.ok.inj hv
    obtain ⟨u, hflush, -⟩ := ok_of_bind hclose
    exact (flush_fits h hflush).2.2
  | cons op ops ih =>
    rw [List.foldlM_cons] at hv
    obtain ⟨u, hstep, hrun⟩ := ok_of_bind hv
    rcases step_fits h hstep with hlt | ⟨data, hu⟩
    · exact hlt
    · have hlt := ih hu hrun
      rw [List.length_append] at hlt
      omega

end Flowlab.Replay.Wal

namespace Flowlab.Replay

open Wal Framework

/-- In a session without errors that keeps one segment size, after every operation the count is the
length of the current segment, what is still in the buffer included, and no segment is longer than
the segment size but one that holds a single record. -/
theorem wal_segments_bounded (segmentSize : UInt64) (ops : List Op)
    (hops : ∀ op ∈ ops, op.KeepsSize segmentSize) (dir : Directory)
    (hdir : session ∅ segmentSize ops = .ok dir) (before : List Op) (hbefore : before <+: ops) :
    ∃ (w : Wal) (done : List (List UInt8)) (cur : List UInt8),
      (openOrCreate ∅ segmentSize >>= before.foldlM step) = .ok w ∧ Layout w done cur ∧
      w.currentBytes.toNat = cur.length ∧
      ∀ c ∈ done ++ [cur], c.length ≤ segmentSize.toNat ∨
        ∃ payload, payload.length < 2 ^ 32 ∧ c = frame payload := by
  obtain ⟨after, rfl⟩ := hbefore
  obtain ⟨w₀, hopen, hsession⟩ := ok_of_bind hdir
  obtain ⟨v, hrun, hclose⟩ := ok_of_bind hsession
  rw [List.foldlM_append] at hrun
  obtain ⟨w, hw, hrest⟩ := ok_of_bind hrun
  have hstart : Sized segmentSize w₀ [] [] := by
    obtain ⟨w', hopen', hlayout, hsize, hcounted⟩ := openOrCreate_new segmentSize
    obtain rfl := Except.ok.inj (hopen'.symm.trans hopen)
    exact ⟨hlayout, hsize, hcounted, by simp, by simp, fun _ => .inl (Nat.zero_le _)⟩
  obtain ⟨done, cur, h⟩ :=
    run_sized hstart (fun op hop => hops op (List.mem_append_left _ hop)) hw
  have hfits := run_fits h.layout hrest hclose
  refine ⟨w, done.map encode, encode cur, ?_, h.layout, ?_, ?_⟩
  · rw [hopen]
    exact hw
  · rw [h.counted, UInt64.toNat_ofNat_of_lt' hfits]
  · intro c hc
    obtain ⟨ps, hps, rfl⟩ : ∃ ps ∈ done ++ [cur], encode ps = c := by
      have hmap : c ∈ (done ++ [cur]).map encode := by rwa [List.map_append]
      exact List.mem_map.mp hmap
    have hbound : Bounded segmentSize ps := by
      rcases List.mem_append.mp hps with hdone | hcur
      · exact h.full ps hdone
      · rw [List.mem_singleton.mp hcur]
        exact h.last hfits
    rcases hbound with hle | hone
    · exact .inl hle
    · obtain ⟨p, rfl⟩ := List.length_eq_one_iff.mp hone
      refine .inr ⟨p, h.small [p] hps p (List.mem_singleton.mpr rfl), ?_⟩
      rw [← List.nil_append [p], encode_concat]
      rfl

/-- Segments of nine bytes: one record fits, the second starts a segment and is too long for it. -/
theorem wal_segments_bounded_long :
    ∃ (w : Wal) (done : List (List UInt8)) (cur : List UInt8),
      (openOrCreate ∅ 9 >>= [.append [1], .append [2, 3]].foldlM step) = .ok w ∧
      Layout w done cur ∧ w.currentBytes.toNat = cur.length ∧
      ∀ c ∈ done ++ [cur], c.length ≤ 9 ∨ ∃ payload, payload.length < 2 ^ 32 ∧ c = frame payload := by
  obtain ⟨dir, hdir, -⟩ := (session_stored 9 [.append [1], .append [2, 3], .reopen 9]
    (by decide)).ok_of_room (by decide)
  have hops : ∀ op ∈ [Op.append [1], .append [2, 3], .reopen 9], op.KeepsSize 9 := by
    simp [Op.KeepsSize]
  exact wal_segments_bounded 9 _ hops dir hdir [.append [1], .append [2, 3]] ⟨[.reopen 9], rfl⟩

end Flowlab.Replay
