import Flowlab.Replay.WalRead

namespace Flowlab.Replay.Wal

open Std Framework

def IsIo (e : WalError) : Prop := ∃ kind, e = .io kind

theorem Holds.last {dir : Directory} {done : List (List UInt8)} {old : List UInt8}
    (h : Holds dir (done ++ [old])) : dir[segmentPath (UInt64.ofNat done.length)]? = some old :=
  h.content done.length old (by simp)

/-- A file put under the next index, in a directory with the earlier segments and at most that one
more. -/
theorem holds_put {dir : Directory} {done : List (List UInt8)} {new : List UInt8}
    (hcount : done.length < 2 ^ 64) (hnew : new.length < 2 ^ 64)
    (hcontent : ∀ (i : Nat) (c : List UInt8), done[i]? = some c →
      dir[segmentPath (UInt64.ofNat i)]? = some c)
    (hfits : ∀ c ∈ done, c.length < 2 ^ 64)
    (hnamed : ∀ (name : List Char) (c : List UInt8), dir[name]? = some c →
      ∃ i < done.length + 1, name = segmentPath (UInt64.ofNat i)) :
    Holds (dir.insert (segmentPath (UInt64.ofNat done.length)) new) (done ++ [new]) := by
  have hlen : (done ++ [new]).length = done.length + 1 := by simp
  constructor
  case count => omega
  case content =>
    intro i c hi
    have hilt := (List.getElem?_eq_some_iff.mp hi).1
    rw [FiniteMap.get_insert]
    split_ifs with hname
    · obtain rfl : i = done.length := ofNat_injOn (n := done.length + 1) (by omega) (by omega)
        (by omega) (segmentPath_injective hname)
      simpa using hi
    · have hne : i ≠ done.length := by
        rintro rfl
        exact hname rfl
      rw [List.getElem?_append_left (by omega)] at hi
      exact hcontent i c hi
  case fits =>
    intro c hc
    rcases List.mem_append.mp hc with hold | hlast
    · exact hfits c hold
    · rw [List.mem_singleton.mp hlast]
      exact hnew
  case named =>
    intro name c hc
    rw [hlen]
    rw [FiniteMap.get_insert] at hc
    split_ifs at hc with hname
    · exact ⟨done.length, by omega, hname⟩
    · exact hnamed name c hc

/-- Giving the last segment another content leaves the others in place. -/
theorem Holds.setLast {dir : Directory} {done : List (List UInt8)} {old new : List UInt8}
    (h : Holds dir (done ++ [old])) (hnew : new.length < 2 ^ 64) :
    Holds (dir.insert (segmentPath (UInt64.ofNat done.length)) new) (done ++ [new]) := by
  have hlen : (done ++ [old]).length = done.length + 1 := by simp
  have hcount := h.count
  refine holds_put (by omega) hnew ?_ (fun c hc => h.fits c (List.mem_append_left _ hc)) ?_
  · intro i c hi
    have hilt := (List.getElem?_eq_some_iff.mp hi).1
    exact h.content i c (by rw [List.getElem?_append_left hilt]; exact hi)
  · intro name c hc
    rw [← hlen]
    exact h.named name c hc

theorem openFile_eq {dir : Directory} {path : List Char} {content : List UInt8}
    (h : dir[path]? = some content) : openFile dir path = .ok content := by
  simp only [openFile, h]

theorem writeFile_holds {dir : Directory} {done : List (List UInt8)} {old : List UInt8}
    (h : Holds dir (done ++ [old])) (data : List UInt8) :
    Outcome IsIo ((old ++ data).length < 2 ^ 64) (fun dir => Holds dir (done ++ [old ++ data]))
      (writeFile dir (segmentPath (UInt64.ofNat done.length)) data) := by
  have heq : writeFile dir (segmentPath (UInt64.ofNat done.length)) data =
      if old.length + data.length < 2 ^ 64 then
        .ok (dir.insert (segmentPath (UInt64.ofNat done.length)) (old ++ data))
      else .error (.io .fileTooLarge) := by
    rw [writeFile, openFile_eq h.last]
    rfl
  rw [heq, List.length_append]
  split_ifs with hfit
  · exact h.setLast (by rwa [List.length_append])
  · exact ⟨⟨_, rfl⟩, hfit⟩

/-- A new segment can be made as long as there is an index left; then the next index is that of the
first segment. -/
theorem createNew_holds {dir : Directory} {contents : List (List UInt8)} (h : Holds dir contents) :
    Outcome IsIo (contents.length < 2 ^ 64) (fun dir => Holds dir (contents ++ [[]]))
      (createNew dir (segmentPath (UInt64.ofNat contents.length))) := by
  simp only [createNew]
  rcases Nat.lt_or_ge contents.length (2 ^ 64) with hlt | hge
  · have hnew : dir[segmentPath (UInt64.ofNat contents.length)]? = none := by
      cases hget : dir[segmentPath (UInt64.ofNat contents.length)]? with
      | none => rfl
      | some c =>
        obtain ⟨i, hi, hname⟩ := h.named _ c hget
        have heq := ofNat_injOn (n := 2 ^ 64) (Nat.le_refl _) hlt (by omega)
          (segmentPath_injective hname)
        omega
    rw [hnew]
    refine holds_put hlt (by decide) h.content h.fits ?_
    intro name c hc
    obtain ⟨i, hi, hname⟩ := h.named name c hc
    exact ⟨i, by omega, hname⟩
  · have hfull : contents.length = 2 ^ 64 := Nat.le_antisymm h.count hge
    have hfirst := h.content 0 _ (List.getElem?_eq_getElem (by omega))
    have hwrap : UInt64.ofNat contents.length = UInt64.ofNat 0 := by
      rw [hfull]
      rfl
    rw [hwrap, hfirst]
    exact ⟨⟨_, rfl⟩, by omega⟩

/-- The finished segments and the current one, of which the end may still be in the buffer. -/
structure Layout (w : Wal) (done : List (List UInt8)) (cur : List UInt8) : Prop where
  onDisk : ∃ old, Holds w.dir (done ++ [old]) ∧ old ++ w.buffer = cur
  index : w.currentIndex = UInt64.ofNat done.length

theorem flush_layout {w : Wal} {done : List (List UInt8)} {cur : List UInt8}
    (h : Layout w done cur) :
    Outcome IsIo (cur.length < 2 ^ 64)
      (fun v => Layout v done cur ∧ Holds v.dir (done ++ [cur]) ∧ v.buffer = []) w.flush := by
  obtain ⟨old, hold, rfl⟩ := h.onDisk
  have hwrite := writeFile_holds hold w.buffer
  rw [← h.index] at hwrite
  refine hwrite.bind ?_
  intro dir hdir
  exact ⟨⟨⟨_, hdir, List.append_nil _⟩, h.index⟩, hdir, rfl⟩

/-- Data held back follows what the buffer already holds. -/
theorem Layout.hold {w : Wal} {done : List (List UInt8)} {cur : List UInt8}
    (h : Layout w done cur) (data : List UInt8) :
    Layout { w with buffer := w.buffer ++ data } done (cur ++ data) := by
  obtain ⟨old, hold, hcur⟩ := h.onDisk
  exact ⟨⟨old, hold, by rw [← hcur, List.append_assoc]⟩, h.index⟩

/-- Data that goes straight to the file finds the buffer empty. -/
theorem flushFor_layout {w : Wal} {done : List (List UInt8)} {cur : List UInt8}
    (h : Layout w done cur) (data : List UInt8) :
    Outcome IsIo ((cur ++ data).length < 2 ^ 64)
      (fun v => Layout v done cur ∧ (data.length ≥ bufCapacity → v.buffer = []))
      (w.flushFor data.length) := by
  simp only [flushFor]
  split_ifs with hspare
  · refine (flush_layout h).mono ?_ (fun v hv => ⟨hv.1, fun _ => hv.2.2⟩)
    intro hroom
    rw [List.length_append] at hroom
    omega
  · refine ⟨h, ?_⟩
    intro hlarge
    have hcap : 0 < bufCapacity := by decide
    exact List.eq_nil_of_length_eq_zero (by omega)

theorem writeAllCold_layout {w : Wal} {done : List (List UInt8)} {cur : List UInt8}
    (h : Layout w done cur) (data : List UInt8) :
    Outcome IsIo ((cur ++ data).length < 2 ^ 64) (fun v => Layout v done (cur ++ data))
      (w.writeAllCold data) := by
  refine (flushFor_layout h data).bind ?_
  intro v hnow
  obtain ⟨hv, hempty⟩ := hnow
  split_ifs with hlarge
  · obtain ⟨old, hold, hcur⟩ := hv.onDisk
    rw [hempty hlarge, List.append_nil] at hcur
    subst hcur
    have hwrite := writeFile_holds hold data
    rw [← hv.index] at hwrite
    refine hwrite.bind ?_
    intro dir hdir
    exact ⟨⟨_, hdir, by rw [hempty hlarge, List.append_nil]⟩, hv.index⟩
  · exact hv.hold data

theorem writeAll_layout {w : Wal} {done : List (List UInt8)} {cur : List UInt8}
    (h : Layout w done cur) (data : List UInt8) :
    Outcome IsIo ((cur ++ data).length < 2 ^ 64) (fun v => Layout v done (cur ++ data))
      (w.writeAll data) := by
  simp only [writeAll]
  split_ifs
  · exact h.hold data
  · exact writeAllCold_layout h data

theorem writeRecord_layout {w : Wal} {done : List (List UInt8)} {cur : List UInt8}
    (h : Layout w done cur) (payload : List UInt8) :
    Outcome IsIo ((cur ++ frame payload).length < 2 ^ 64)
      (fun v => Layout v done (cur ++ frame payload)) (w.writeRecord payload) := by
  have hlen := length_frame payload
  simp only [frame, List.length_append] at hlen
  refine ((writeAll_layout h _).mono ?_ (fun v hv => hv)).bind ?_
  · simp only [List.length_append, length_frame]
    omega
  intro v₁ h₁
  refine ((writeAll_layout h₁ _).mono ?_ (fun v hv => hv)).bind ?_
  · simp only [List.length_append, length_frame]
    omega
  intro v₂ h₂
  refine ((writeAll_layout h₂ payload).mono ?_ (fun v hv => hv)).bind ?_
  · simp only [List.length_append, length_frame]
    omega
  intro v₃ h₃
  rw [List.append_assoc, List.append_assoc] at h₃
  exact ⟨h₃.onDisk, h₃.index⟩

theorem rotate_layout {w : Wal} {done : List (List UInt8)} {cur : List UInt8}
    (h : Layout w done cur) :
    Outcome IsIo (cur.length < 2 ^ 64 ∧ done.length + 1 < 2 ^ 64)
      (fun v => Layout v (done ++ [cur]) []) w.rotate := by
  refine ((flush_layout h).mono (fun hroom => hroom.1) (fun v hv => hv)).bind ?_
  intro v hnow
  obtain ⟨hv, hdisk, -⟩ := hnow
  have hlen : (done ++ [cur]).length = done.length + 1 := by simp
  have hindex : v.currentIndex + 1 = UInt64.ofNat (done ++ [cur]).length := by
    rw [hlen, UInt64.ofNat_add, hv.index]
    rfl
  have hcreate := createNew_holds hdisk
  rw [← hindex] at hcreate
  refine (hcreate.mono (fun hroom => hlen ▸ hroom.2) (fun dir hdir => hdir)).bind ?_
  intro dir hdir
  exact ⟨⟨[], hdir, rfl⟩, hindex⟩

/-- The payloads of a log are spread over its segments in order. There are no more finished segments
than records, since a rotation is followed by a record, but for `spare` records cut off the end. -/
structure Spread (spare : Nat) (done : List (List (List UInt8)))
    (cur payloads : List (List UInt8)) : Prop where
  all : done.flatten ++ cur = payloads
  short : done.length ≤ payloads.length + spare
  small : ∀ p ∈ payloads, p.length < 2 ^ 32

/-- The open log holds `payloads`. -/
def Logged (spare : Nat) (w : Wal) (payloads : List (List UInt8)) : Prop :=
  ∃ done cur, Spread spare done cur payloads ∧ Layout w (done.map encode) (encode cur)

/-- The closed directory holds `payloads`. -/
def Stored (spare : Nat) (dir : Directory) (payloads : List (List UInt8)) : Prop :=
  ∃ done cur, Spread spare done cur payloads ∧ Holds dir (done.map encode ++ [encode cur])

theorem length_encode_le (payloads : List (List UInt8)) :
    magicHeader * payloads.length ≤ (encode payloads).length := by
  induction payloads with
  | nil => simp
  | cons p ps ih =>
    rw [encode_cons, List.length_append, length_frame, List.length_cons, Nat.mul_succ]
    omega

theorem Spread.cur_le {spare : Nat} {done : List (List (List UInt8))}
    {cur payloads : List (List UInt8)} (h : Spread spare done cur payloads) :
    (encode cur).length ≤ (encode payloads).length := by
  rw [← h.all, encode_append, List.length_append]
  omega

theorem rotateFor_logged {spare : Nat} {w : Wal} {payloads : List (List UInt8)}
    (h : Logged spare w payloads) {p : List UInt8} (hp : p.length < 2 ^ 32) :
    Outcome IsIo ((encode (payloads ++ [p])).length + magicHeader * spare < 2 ^ 64)
      (fun v => ∃ done cur, Spread spare done (cur ++ [p]) (payloads ++ [p]) ∧
        Layout v (done.map encode) (encode cur)) (w.rotateFor p) := by
  obtain ⟨done, cur, hspread, hlayout⟩ := h
  have hsmall : ∀ q ∈ payloads ++ [p], q.length < 2 ^ 32 := by
    intro q hq
    rcases List.mem_append.mp hq with hq | hq
    · exact hspread.small q hq
    · rwa [List.mem_singleton.mp hq]
  have hshort := hspread.short
  simp only [rotateFor]
  split_ifs
  · refine (rotate_layout hlayout).mono ?_ ?_
    · intro hroom
      have hcount := length_encode_le (payloads ++ [p])
      have hcur := hspread.cur_le
      rw [encode_append, List.length_append] at hroom hcount
      simp only [magicHeader, List.length_append, List.length_singleton] at hcount hroom
      rw [List.length_map]
      omega
    · intro v hv
      refine ⟨done ++ [cur], [], ⟨?_, ?_, hsmall⟩, ?_⟩
      · rw [List.flatten_concat, hspread.all, List.nil_append]
      · simp only [List.length_append, List.length_singleton]
        omega
      · rw [List.map_append]
        exact hv
  · refine ⟨done, cur, ⟨?_, ?_, hsmall⟩, hlayout⟩
    · rw [← List.append_assoc, hspread.all]
    · rw [List.length_append]
      omega

theorem append_logged {spare : Nat} {w : Wal} {payloads : List (List UInt8)}
    (h : Logged spare w payloads) {p : List UInt8} (hp : p.length < 2 ^ 32) :
    Outcome IsIo ((encode (payloads ++ [p])).length + magicHeader * spare < 2 ^ 64)
      (fun v => Logged spare v (payloads ++ [p])) (w.append p) := by
  simp only [append]
  rw [if_neg (by omega)]
  refine (rotateFor_logged h hp).bind ?_
  intro v hnow
  obtain ⟨done, cur, hspread, hlayout⟩ := hnow
  have hcur := hspread.cur_le
  have hframe : encode (cur ++ [p]) = encode cur ++ frame p := by
    rw [encode_append, encode_cons]
    exact congrArg _ (List.append_nil _)
  rw [hframe] at hcur
  refine (writeRecord_layout hlayout p).mono (fun hroom => by omega) ?_
  intro u hu
  exact ⟨done, cur ++ [p], hspread, hframe ▸ hu⟩

theorem flush_logged {spare : Nat} {w : Wal} {payloads : List (List UInt8)}
    (h : Logged spare w payloads) :
    Outcome IsIo ((encode payloads).length + magicHeader * spare < 2 ^ 64)
      (fun v => Logged spare v payloads ∧ Stored spare v.dir payloads) w.flush := by
  obtain ⟨done, cur, hspread, hlayout⟩ := h
  have hcur := hspread.cur_le
  refine (flush_layout hlayout).mono (fun hroom => by omega) ?_
  intro v hnow
  obtain ⟨hv, hdisk, -⟩ := hnow
  exact ⟨⟨done, cur, hspread, hv⟩, ⟨done, cur, hspread, hdisk⟩⟩

theorem close_logged {spare : Nat} {w : Wal} {payloads : List (List UInt8)}
    (h : Logged spare w payloads) :
    Outcome IsIo ((encode payloads).length + magicHeader * spare < 2 ^ 64)
      (fun dir => Stored spare dir payloads) w.close := by
  refine (flush_logged h).bind ?_
  intro v hnow
  obtain ⟨-, hv⟩ := hnow
  exact hv

/-- The recovery cuts off what follows the last whole record, and counts the bytes before it. -/
theorem recoverSegmentTail_torn {dir : Directory} {path : List Char} {payloads : List (List UInt8)}
    {tail : List UInt8} (hsmall : ∀ p ∈ payloads, p.length < 2 ^ 32) (ht : readRecord tail = none)
    (hfile : dir[path]? = some (encode payloads ++ tail))
    (hfits : (encode payloads ++ tail).length < 2 ^ 64) :
    ∃ dir', recoverSegmentTail dir path = .ok (dir', UInt64.ofNat (encode payloads).length) ∧
      (dir' = dir.insert path (encode payloads) ∨ dir' = dir ∧ tail = []) := by
  have hoffset : recoverLoop (encode payloads ++ tail).length (encode payloads ++ tail) 0 =
      UInt64.ofNat (encode payloads).length := by
    rw [recoverLoop_eq, UInt64.zero_add]
    exact congrArg (fun ps => UInt64.ofNat (encode ps).length)
      (segmentRecords_encode_append hsmall ht)
  have heq : recoverSegmentTail dir path =
      if UInt64.ofNat (encode payloads).length < UInt64.ofNat (encode payloads ++ tail).length then
        .ok (dir.insert path ((encode payloads ++ tail).take (UInt64.ofNat (encode payloads).length).toNat),
          UInt64.ofNat (encode payloads).length)
      else .ok (dir, UInt64.ofNat (encode payloads).length) := by
    rw [← hoffset, recoverSegmentTail, openFile_eq hfile]
    rfl
  rw [List.length_append] at hfits
  have hn : (UInt64.ofNat (encode payloads).length).toNat = (encode payloads).length :=
    UInt64.toNat_ofNat_of_lt' (show _ < 2 ^ 64 by omega)
  rw [heq, hn, List.take_left]
  split_ifs with hcut
  · exact ⟨_, rfl, Or.inl rfl⟩
  · refine ⟨_, rfl, Or.inr ⟨rfl, ?_⟩⟩
    rw [UInt64.lt_iff_toNat_lt, hn, List.length_append,
      UInt64.toNat_ofNat_of_lt' (show _ < 2 ^ 64 by omega)] at hcut
    exact List.eq_nil_of_length_eq_zero (by omega)

theorem getLast_firstSegments (n : Nat) :
    (firstSegments (n + 1)).getLast? = some (UInt64.ofNat n) := by
  simp [firstSegments, List.range_succ]

/-- The recovery on opening leaves the whole records of the last segment and counts their bytes. -/
theorem openOrCreate_layout {dir : Directory} {done : List (List UInt8)} {cur : List (List UInt8)}
    (hsmall : ∀ p ∈ cur, p.length < 2 ^ 32) {tail : List UInt8} (ht : readRecord tail = none)
    (hdisk : Holds dir (done ++ [encode cur ++ tail])) (segmentSize : UInt64) :
    ∃ w, openOrCreate dir segmentSize = .ok w ∧ Layout w done (encode cur) ∧ w.buffer = [] ∧
      w.segmentSize = segmentSize ∧ w.currentBytes = UInt64.ofNat (encode cur).length := by
  have hfits : (encode cur ++ tail).length < 2 ^ 64 := hdisk.fits _ (by simp)
  have hcur : (encode cur).length < 2 ^ 64 := by
    rw [List.length_append] at hfits
    omega
  have hlist : listSegments dir = .ok (firstSegments (done.length + 1)) := by
    rw [listSegments_eq hdisk, List.length_append]
    rfl
  obtain ⟨dir', hrecover, hdir'⟩ := recoverSegmentTail_torn hsmall ht hdisk.last hfits
  have hdisk' : Holds dir' (done ++ [encode cur]) := by
    rcases hdir' with rfl | ⟨rfl, rfl⟩
    · exact hdisk.setLast hcur
    · rwa [List.append_nil] at hdisk
  refine ⟨⟨dir', segmentSize, UInt64.ofNat done.length, [], UInt64.ofNat (encode cur).length⟩, ?_,
    ⟨⟨_, hdisk', List.append_nil _⟩, rfl⟩, rfl, rfl, rfl⟩
  rw [openOrCreate, hlist]
  simp only [bind, Except.bind, getLast_firstSegments, hrecover, openFile_eq hdisk'.last]
  rfl

/-- Opening a log whose last segment has a torn tail. -/
theorem openOrCreate_torn {spare : Nat} {dir : Directory} {done : List (List (List UInt8))}
    {cur payloads : List (List UInt8)} (hspread : Spread spare done cur payloads)
    {tail : List UInt8} (ht : readRecord tail = none)
    (hdisk : Holds dir (done.map encode ++ [encode cur ++ tail])) (segmentSize : UInt64) :
    ∃ w, openOrCreate dir segmentSize = .ok w ∧ Logged spare w payloads := by
  have hsmall : ∀ p ∈ cur, p.length < 2 ^ 32 := by
    intro p hp
    exact hspread.small p (hspread.all ▸ List.mem_append_right _ hp)
  obtain ⟨w, hopen, hlayout, -⟩ := openOrCreate_layout hsmall ht hdisk segmentSize
  exact ⟨w, hopen, done, cur, hspread, hlayout⟩

theorem openOrCreate_stored {spare : Nat} {dir : Directory} {payloads : List (List UInt8)}
    (h : Stored spare dir payloads) (segmentSize : UInt64) :
    ∃ w, openOrCreate dir segmentSize = .ok w ∧ Logged spare w payloads := by
  obtain ⟨done, cur, hspread, hdisk⟩ := h
  have hnone : readRecord [] = none := rfl
  refine openOrCreate_torn hspread hnone ?_ segmentSize
  rwa [List.append_nil]

theorem holds_empty : Holds ∅ [] where
  count := Nat.zero_le _
  content := by simp
  fits := by simp
  named := by simp

/-- In a directory without segments the log starts with an empty segment 0. -/
theorem openOrCreate_new (segmentSize : UInt64) :
    ∃ w, openOrCreate ∅ segmentSize = .ok w ∧ Layout w [] [] ∧ w.segmentSize = segmentSize ∧
      w.currentBytes = 0 := by
  have hlist : listSegments ∅ = .ok [] := listSegments_eq holds_empty
  have hroom : ([] : List (List UInt8)).length < 2 ^ 64 := by decide
  obtain ⟨dir, hcreate, hdir⟩ := (createNew_holds holds_empty).ok_of_room hroom
  refine ⟨⟨dir, segmentSize, 0, [], 0⟩, ?_, ⟨⟨[], hdir, rfl⟩, rfl⟩, rfl, rfl⟩
  rw [openOrCreate, hlist]
  simp only [bind, Except.bind, List.getLast?_nil]
  rw [show segmentPath 0 = segmentPath (UInt64.ofNat ([] : List (List UInt8)).length) from rfl,
    hcreate]
  rfl

theorem openOrCreate_empty (segmentSize : UInt64) :
    ∃ w, openOrCreate ∅ segmentSize = .ok w ∧ Logged 0 w [] := by
  obtain ⟨w, hopen, hlayout, -⟩ := openOrCreate_new segmentSize
  exact ⟨w, hopen, [], [], ⟨rfl, Nat.le_refl _, by simp⟩, hlayout⟩

theorem appended_cons (op : Op) (ops : List Op) :
    appended (op :: ops) = appended [op] ++ appended ops := by
  cases op <;> rfl

theorem step_logged {spare : Nat} {w : Wal} {payloads : List (List UInt8)}
    (h : Logged spare w payloads) (op : Op)
    (hsmall : ∀ p ∈ appended [op], p.length < 2 ^ 32) :
    Outcome IsIo ((encode (payloads ++ appended [op])).length + magicHeader * spare < 2 ^ 64)
      (fun v => Logged spare v (payloads ++ appended [op])) (w.step op) := by
  cases op with
  | append p => exact append_logged h (hsmall p (List.mem_singleton.mpr rfl))
  | flush =>
    rw [show appended [.flush] = [] from rfl, List.append_nil]
    exact (flush_logged h).mono (fun hroom => hroom) (fun v hv => hv.1)
  | sync =>
    rw [show appended [.sync] = [] from rfl, List.append_nil]
    exact (flush_logged h).mono (fun hroom => hroom) (fun v hv => hv.1)
  | reopen segmentSize =>
    rw [show appended [.reopen segmentSize] = [] from rfl, List.append_nil]
    refine (close_logged h).bind ?_
    intro dir hdir
    obtain ⟨v, hopen, hv⟩ := openOrCreate_stored hdir segmentSize
    rw [hopen]
    exact hv

/-- The payloads of a run are in the log, in order, whatever the operations between them. -/
theorem run_logged {spare : Nat} {w : Wal} {payloads : List (List UInt8)}
    (h : Logged spare w payloads) (ops : List Op)
    (hsmall : ∀ p ∈ appended ops, p.length < 2 ^ 32) :
    Outcome IsIo ((encode (payloads ++ appended ops)).length + magicHeader * spare < 2 ^ 64)
      (fun v => Logged spare v (payloads ++ appended ops)) (ops.foldlM step w) := by
  induction ops generalizing w payloads with
  | nil => exact (List.append_nil payloads).symm ▸ h
  | cons op ops ih =>
    rw [appended_cons] at hsmall ⊢
    rw [List.foldlM_cons]
    refine ((step_logged h op (fun p hp => hsmall p (List.mem_append_left _ hp))).mono ?_
      (fun v hv => hv)).bind ?_
    · intro hroom
      rw [← List.append_assoc, encode_append, List.length_append] at hroom
      omega
    · intro v hv
      rw [← List.append_assoc]
      exact ih hv (fun p hp => hsmall p (List.mem_append_right _ hp))

/-- A session on a directory whose log opens with `payloads` in it. -/
theorem session_logged {spare : Nat} {dir : Directory} {w : Wal} {payloads : List (List UInt8)}
    {segmentSize : UInt64} (hopen : openOrCreate dir segmentSize = .ok w)
    (hw : Logged spare w payloads) (ops : List Op)
    (hsmall : ∀ p ∈ appended ops, p.length < 2 ^ 32) :
    Outcome IsIo ((encode (payloads ++ appended ops)).length + magicHeader * spare < 2 ^ 64)
      (fun dir => Stored spare dir (payloads ++ appended ops)) (session dir segmentSize ops) := by
  rw [session, hopen]
  refine (run_logged hw ops hsmall).bind ?_
  intro v hv
  exact close_logged hv

theorem session_stored (segmentSize : UInt64) (ops : List Op)
    (hsmall : ∀ p ∈ appended ops, p.length < 2 ^ 32) :
    Outcome IsIo ((encode (appended ops)).length < 2 ^ 64)
      (fun dir => Stored 0 dir (appended ops)) (session ∅ segmentSize ops) := by
  obtain ⟨w, hopen, hw⟩ := openOrCreate_empty segmentSize
  exact session_logged hopen hw ops hsmall

theorem calls_stored {spare : Nat} {dir : Directory} {payloads : List (List UInt8)}
    (h : Stored spare dir payloads) (n : Nat) :
    (WalReader.openDir dir >>= WalReader.calls n) =
      .ok ((payloads.map some).take n ++ List.replicate (n - payloads.length) none) := by
  obtain ⟨done, cur, hspread, hdisk⟩ := h
  have hrecords : (done.map encode ++ [encode cur]).flatMap segmentRecords = payloads := by
    have hsmall : ∀ ps ∈ done ++ [cur], segmentRecords (encode ps) = ps := by
      intro ps hps
      refine segmentRecords_encode (fun p hp => hspread.small p ?_)
      rw [← hspread.all, ← List.flatten_concat]
      exact List.mem_flatten.mpr ⟨ps, hps, hp⟩
    have hmap : done.map encode ++ [encode cur] = (done ++ [cur]).map encode := by
      rw [List.map_append]
      rfl
    rw [hmap, List.flatMap_map, ← hspread.all, ← List.flatten_concat, List.flatMap_def]
    exact congrArg List.flatten ((List.map_congr_left hsmall).trans (List.map_id' _))
  have hcalls := WalReader.calls_holds hdisk n
  rw [hrecords] at hcalls
  exact hcalls

end Flowlab.Replay.Wal

namespace Flowlab.Replay

open Wal

/-- A log used in any way and closed is read back record by record, and then `None`. The only errors
on the way are those of the file system, and a log of less than `2 ^ 64` bytes meets none. -/
theorem wal_reads_back (segmentSize : UInt64) (ops : List Op)
    (hsmall : ∀ p ∈ appended ops, p.length < 2 ^ 32) :
    (∀ dir, session ∅ segmentSize ops = .ok dir → ∀ n,
      (WalReader.openDir dir >>= WalReader.calls n) =
        .ok (((appended ops).map some).take n ++
          List.replicate (n - (appended ops).length) none)) ∧
    (∀ e, session ∅ segmentSize ops = .error e → ∃ kind, e = .io kind) ∧
    ((encode (appended ops)).length < 2 ^ 64 → ∃ dir, session ∅ segmentSize ops = .ok dir) := by
  have houtcome := session_stored segmentSize ops hsmall
  refine ⟨?_, ?_, ?_⟩
  · intro dir hdir n
    rw [hdir] at houtcome
    exact calls_stored houtcome n
  · intro e he
    rw [he] at houtcome
    exact houtcome.1
  · intro hroom
    obtain ⟨dir, hdir, -⟩ := houtcome.ok_of_room hroom
    exact ⟨dir, hdir⟩

/-- Three records, one of them empty, with every segment too small for one. -/
theorem wal_reads_back_small :
    ∃ dir, session ∅ 0 [.append [1, 2], .reopen 3, .append [], .flush, .append [7]] = .ok dir ∧
      (WalReader.openDir dir >>= WalReader.calls 4) =
        .ok [some [1, 2], some [], some [7], none] := by
  have hall := wal_reads_back 0 [.append [1, 2], .reopen 3, .append [], .flush, .append [7]]
    (by decide)
  obtain ⟨dir, hdir⟩ := hall.2.2 (by decide)
  exact ⟨dir, hdir, hall.1 dir hdir 4⟩

end Flowlab.Replay
