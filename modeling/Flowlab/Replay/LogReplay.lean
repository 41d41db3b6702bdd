import Flowlab.Replay.EventLog

namespace Flowlab.Replay

open Flowlab.Core (ReplayState SequencedEvent Xxh3)
open Framework

/-- What is relied on of a mapping: it shows the bytes of the file, and a file with bytes in it can be
mapped. -/
structure Maps (mmap : List UInt8 → Except String (List UInt8)) : Prop where
  shows : ∀ file bytes, mmap file = .ok bytes → bytes = file
  maps : ∀ file, file ≠ [] → ∃ bytes, mmap file = .ok bytes

theorem Maps.eq {mmap : List UInt8 → Except String (List UInt8)} (h : Maps mmap)
    {file : List UInt8} (hsome : file ≠ []) : mmap file = .ok file := by
  obtain ⟨bytes, hbytes⟩ := h.maps file hsome
  rw [hbytes, h.shows file bytes hbytes]

theorem maps_ok : Maps .ok := by
  refine ⟨?_, fun file _ => ⟨file, rfl⟩⟩
  intro file bytes h
  cases h
  rfl

/-- The bytes of the first so many events. -/
theorem take_flatMap_bytes (es : List LoggedEvent) (k : Nat) :
    (es.flatMap LoggedEvent.bytes).take (eventSize * k) = (es.take k).flatMap LoggedEvent.bytes := by
  induction es generalizing k with
  | nil => simp
  | cons e es ih =>
    cases k with
    | zero => simp
    | succ k =>
      have hlen : eventSize * (k + 1) = e.bytes.length + eventSize * k := by
        rw [LoggedEvent.length_bytes, Nat.mul_succ, Nat.add_comm]
      rw [List.flatMap_cons, hlen, List.take_length_add_append, ih, List.take_succ_cons,
        List.flatMap_cons]

namespace EventLog

/-- The file is the bytes of the events. -/
structure Holds (l : EventLog) (es : List LoggedEvent) : Prop where
  file : l.file.getD [] = es.flatMap LoggedEvent.bytes
  opened : l.writer ≠ none → l.file ≠ none

variable {l m : EventLog} {es : List LoggedEvent}

/-- A write that tears no record. -/
theorem Holds.writeAll (h : l.Holds es) {events : List LoggedEvent} {n : UInt64} {arrived : Nat}
    (hwhole : eventSize ∣ arrived)
    (hstep : l.writeAll (events.flatMap LoggedEvent.bytes) n arrived = some m) :
    m.Holds (es ++ events.take (arrived / eventSize)) := by
  obtain ⟨hfile, _⟩ := h
  have hlen := Bytes.length_flatMap_of fun e (_ : e ∈ events) => e.length_bytes
  obtain ⟨k, rfl⟩ := hwhole
  rw [Nat.mul_div_cancel_left _ (by decide)]
  rw [EventLog.writeAll] at hstep
  split at hstep
  · rename_i file count hf hw
    rw [hf, Option.getD_some] at hfile
    split_ifs at hstep with hall
    · cases hstep
      have hk : events.length ≤ k := by
        rw [hlen] at hall
        exact Nat.le_of_mul_le_mul_left hall (by decide)
      refine ⟨?_, fun _ => Option.some_ne_none _⟩
      rw [Option.getD_some, hfile, List.take_of_length_le hk, List.flatMap_append]
    · cases hstep
      refine ⟨?_, fun _ => Option.some_ne_none _⟩
      rw [Option.getD_some, hfile, take_flatMap_bytes, List.flatMap_append]
  · cases hstep

theorem Holds.step (h : l.Holds es) {a : LogAct} (hwhole : a.Whole) (hstep : l.step a = some m) :
    m.Holds (a.logged es) := by
  cases a with
  | create =>
    simp only [EventLog.step, create] at hstep
    split_ifs at hstep
    cases hstep
    exact ⟨rfl, fun _ => Option.some_ne_none _⟩
  | append =>
    simp only [EventLog.step, append] at hstep
    split_ifs at hstep
    cases hstep
    exact ⟨h.file, fun _ => Option.some_ne_none _⟩
  | writeEvent event arrived =>
    refine h.writeAll (n := 1) hwhole ?_
    rw [List.flatMap_singleton]
    exact hstep
  | writeBatch events arrived => exact h.writeAll hwhole hstep
  | close =>
    simp only [EventLog.step] at hstep
    split_ifs at hstep
    cases hstep
    exact ⟨h.file, fun hw => absurd rfl hw⟩

theorem Holds.run {acts : List LogAct} (h : l.Holds es) (hwhole : ∀ a ∈ acts, a.Whole)
    (hrun : Steps.run EventLog.step l acts = some m) : m.Holds (acts.foldl LogAct.logged es) := by
  induction acts generalizing l es with
  | nil =>
    cases hrun
    exact h
  | cons a acts ih =>
    obtain ⟨n, hn, hrest⟩ := Steps.run_cons_some hrun
    exact ih (h.step (hwhole a List.mem_cons_self) hn)
      (fun b hb => hwhole b (List.mem_cons_of_mem a hb)) hrest

/-- The whole records of a cut file are the first events of the log. -/
theorem Holds.castSlice_cut (h : l.Holds es) {cut : List UInt8} (hcut : cut <+: l.file.getD [])
    (haligned : eventSize ∣ cut.length) :
    castSlice cut = es.take (cut.length / eventSize) ∧ cut.length / eventSize ≤ es.length := by
  have hlen := Bytes.length_flatMap_of fun e (_ : e ∈ es) => e.length_bytes
  have htake := List.prefix_iff_eq_take.mp hcut
  have hshort := hcut.length_le
  obtain ⟨k, hk⟩ := haligned
  rw [h.file, hk, take_flatMap_bytes] at htake
  rw [h.file, hlen] at hshort
  refine ⟨?_, Nat.div_le_of_le_mul hshort⟩
  rw [hk, Nat.mul_div_cancel_left _ (by decide), htake, castSlice_bytes]

end EventLog

/-- Nothing of a write is missing. -/
def LogAct.Complete : LogAct → Prop
  | .create | .append | .close => True
  | .writeEvent _ arrived => eventSize = arrived
  | .writeBatch events arrived => eventSize * events.length = arrived

theorem LogAct.Complete.whole {a : LogAct} (h : a.Complete) : a.Whole := by
  cases a with
  | create | append | close => exact trivial
  | writeEvent event arrived => exact dvd_of_eq h
  | writeBatch events arrived => exact h ▸ Nat.dvd_mul_right _ _

namespace EventLog

variable {l m : EventLog} {es : List LoggedEvent}

/-- A writer whose writes are complete counts the events of the log. -/
theorem count_step (h : l.Holds es) (hcount : ∀ c, l.count = some c → c = UInt64.ofNat es.length)
    {a : LogAct} (ha : a.Complete) (hstep : l.step a = some m) :
    ∀ c, m.count = some c → c = UInt64.ofNat (a.logged es).length := by
  intro c hc
  have hwrite : ∀ events : List LoggedEvent, ∀ arrived, eventSize * events.length = arrived →
      l.writeAll (events.flatMap LoggedEvent.bytes) (UInt64.ofNat events.length) arrived = some m →
      c = UInt64.ofNat (es ++ events.take (arrived / eventSize)).length := by
    rintro events _ rfl hw
    have hlen := Bytes.length_flatMap_of fun e (_ : e ∈ events) => e.length_bytes
    rw [writeAll] at hw
    split at hw
    · rename_i file count hf hold
      rw [if_pos hlen.le] at hw
      cases hw
      rw [← Option.some.inj hc, hcount count hold, Nat.mul_div_cancel_left _ (by decide),
        List.take_length, List.length_append, UInt64.ofNat_add]
    · cases hw
  cases a with
  | create =>
    simp only [step, create] at hstep
    split_ifs at hstep
    cases hstep
    exact (Option.some.inj hc).symm
  | append =>
    simp only [step, append] at hstep
    split_ifs at hstep
    cases hstep
    have hlen := Bytes.length_flatMap_of fun e (_ : e ∈ es) => e.length_bytes
    rw [← Option.some.inj hc, h.file, hlen, Nat.mul_div_cancel_left _ (by decide)]
    rfl
  | writeEvent event arrived =>
    refine hwrite [event] arrived ha ?_
    rw [List.flatMap_singleton]
    exact hstep
  | writeBatch events arrived => exact hwrite events arrived ha hstep
  | close =>
    simp only [step] at hstep
    split_ifs at hstep
    cases hstep
    cases hc

theorem count_run {acts : List LogAct} (h : l.Holds es)
    (hcount : ∀ c, l.count = some c → c = UInt64.ofNat es.length)
    (hcomplete : ∀ a ∈ acts, a.Complete) (hrun : Steps.run step l acts = some m) :
    ∀ c, m.count = some c → c = UInt64.ofNat (acts.foldl LogAct.logged es).length := by
  induction acts generalizing l es with
  | nil =>
    cases hrun
    exact hcount
  | cons a acts ih =>
    obtain ⟨n, hn, hrest⟩ := Steps.run_cons_some hrun
    have ha := hcomplete a List.mem_cons_self
    exact ih (h.step ha.whole hn) (count_step h hcount ha hn)
      (fun b hb => hcomplete b (List.mem_cons_of_mem a hb)) hrest

end EventLog

namespace ReplayEngine

variable {x : Xxh3} {mmap : List UInt8 → Except String (List UInt8)}

/-- Events numbered on from the last number are all accepted. -/
theorem accepted_numberedFrom {g : ReplayEngine} {i : Nat}
    (hlast : ∀ l, g.state.lastSeq = some l → l = UInt64.ofNat i) (es : List LoggedEvent) :
    Accepted x g (numberedFrom i es) := by
  induction es generalizing g i with
  | nil => exact trivial
  | cons e es ih =>
    refine ⟨?_, ih ?_⟩
    · intro l hl
      rw [hlast l hl]
    · intro l hl
      rw [← Option.some.inj hl, UInt64.ofNat_add]
      rfl

theorem length_numberedFrom (i : Nat) (es : List LoggedEvent) :
    (numberedFrom i es).length = es.length := by
  induction es generalizing i with
  | nil => rfl
  | cons e es ih => rw [numberedFrom, List.length_cons, ih, List.length_cons]

theorem replay_numbered (id : UInt32) (es : List LoggedEvent) :
    (new id).replay x (numberedFrom 0 es) =
      ((numberedFrom 0 es).foldl (accept x) (new id),
        .ok ((numberedFrom 0 es).foldl (accept x) (new id)).result) := by
  refine replay_all x (accepted_numberedFrom ?_ es)
  intro l hl
  cases hl

/-- An engine that waits for another number than 1 refuses the first event of a file. -/
theorem replay_used {g : ReplayEngine} {last : UInt64} (hlast : g.state.lastSeq = some last)
    (hused : last + 1 ≠ 1) {es : List LoggedEvent} (hsome : es ≠ []) :
    g.replay x (numberedFrom 0 es) =
      (g, .error (.sequenceGap (last + 1) 1 g.eventsProcessed)) := by
  obtain ⟨e, rest, rfl⟩ := List.exists_cons_of_ne_nil hsome
  have hrefuses : ¬ g.state.Follows ⟨UInt64.ofNat 0 + 1, 0, e.event, e.pad⟩ :=
    fun h => hused (h last hlast).symm
  obtain ⟨l, hl, _, hr⟩ := replay_refused x hrefuses (numberedFrom (0 + 1) rest)
  obtain rfl := Option.some.inj (hl.symm.trans hlast)
  exact hr

/-- A file of whole records. -/
theorem replayFromFile_aligned (hmap : Maps mmap) (g : ReplayEngine) {file : List UInt8}
    (hsome : file ≠ []) (haligned : eventSize ∣ file.length) :
    g.replayFromFile x mmap (.ok file) =
      ((g.replay x (numberedFrom 0 (castSlice file))).1,
        (g.replay x (numberedFrom 0 (castSlice file))).2.mapError .replay) := by
  have hmod : ¬ file.length % eventSize ≠ 0 := by simpa using Nat.mod_eq_zero_of_dvd haligned
  simp only [replayFromFile, hmap.eq hsome, if_neg hmod]
  split
  · rename_i g' e h
    rw [h]
    rfl
  · rename_i g' r h
    rw [h]
    rfl

/-- A file with a torn record. -/
theorem replayFromFile_torn (hmap : Maps mmap) (g : ReplayEngine) {file : List UInt8}
    (htorn : ¬ eventSize ∣ file.length) : ∃ reason,
    g.replayFromFile x mmap (.ok file) = (g, .error (.corruptedLog reason)) := by
  have hsome : file ≠ [] := by
    rintro rfl
    exact htorn (Nat.dvd_zero _)
  have hmod : file.length % eventSize ≠ 0 := fun h => htorn (Nat.dvd_of_mod_eq_zero h)
  simp only [replayFromFile, hmap.eq hsome, if_pos hmod]
  exact ⟨_, rfl⟩

/-- **A log replays as far as its last whole record.** A log is written in any sessions, begun anew
or continued, by single events and by batches, where a write may fail between two records; at the
end the file is cut anywhere but at its start. Cut inside a record it is refused, by every engine
and without a change of it. Cut between two records it brings a new engine exactly where the events
up to there do, numbered from 1, and an engine that does not wait for number 1 refuses it at its
first event. Where no write failed the writer counts what is in the log. -/
theorem log_replays (hmap : Maps mmap) {acts : List LogAct} {l : EventLog}
    (hwhole : ∀ a ∈ acts, a.Whole) (hrun : Steps.run EventLog.step ⟨none, none⟩ acts = some l)
    {cut : List UInt8} (hcut : cut <+: l.file.getD []) (hsome : cut ≠ []) :
    let es := acts.foldl LogAct.logged []
    let n := cut.length / eventSize
    let read := (numberedFrom 0 (es.take n)).foldl (accept x)
    (¬ eventSize ∣ cut.length → ∀ g : ReplayEngine, ∃ reason,
      g.replayFromFile x mmap (.ok cut) = (g, .error (.corruptedLog reason))) ∧
    (eventSize ∣ cut.length →
      (∀ id, (new id).replayFromFile x mmap (.ok cut) = (read (new id), .ok (read (new id)).result) ∧
        (read (new id)).eventsProcessed = UInt64.ofNat n ∧ n ≤ es.length) ∧
      ∀ g : ReplayEngine, ∀ last, g.state.lastSeq = some last → last + 1 ≠ 1 →
        g.replayFromFile x mmap (.ok cut) =
          (g, .error (.replay (.sequenceGap (last + 1) 1 g.eventsProcessed)))) ∧
    ((∀ a ∈ acts, a.Complete) → ∀ c, l.count = some c → c = UInt64.ofNat es.length) := by
  intro es n read
  have hstart : (EventLog.mk none none).Holds [] := ⟨rfl, fun hw => absurd rfl hw⟩
  have hholds := hstart.run hwhole hrun
  refine ⟨fun htorn g => replayFromFile_torn hmap g htorn, ?_, ?_⟩
  · intro haligned
    obtain ⟨hread, hle⟩ := hholds.castSlice_cut hcut haligned
    have hsplit := fun g => replayFromFile_aligned (x := x) hmap g hsome haligned
    simp only [hread] at hsplit
    refine ⟨?_, ?_⟩
    · intro id
      refine ⟨?_, ?_, hle⟩
      · rw [hsplit, replay_numbered]
        rfl
      · simp only [read]
        rw [eventsProcessed_foldl, length_numberedFrom, List.length_take, Nat.min_eq_left hle]
        exact UInt64.zero_add _
    · intro g last hlast hused
      have hpos : 0 < n :=
        Nat.div_pos (Nat.le_of_dvd (List.length_pos_of_ne_nil hsome) haligned) (by decide)
      have htaken : es.take n ≠ [] := by
        apply List.ne_nil_of_length_pos
        rw [List.length_take]
        exact Nat.lt_min.mpr ⟨hpos, hpos.trans_le hle⟩
      rw [hsplit, replay_used hlast hused htaken]
      rfl
  · intro hcomplete
    refine EventLog.count_run hstart ?_ hcomplete hrun
    intro c hc
    cases hc

/-- A bid, logged in one session, and its cancel, in a second. -/
def twoSessions : List LogAct :=
  [.create, .writeEvent ⟨⟨0, 10, 5, 1, 1, 1, 0⟩, (0, 0)⟩ 40, .close, .append,
    .writeBatch [⟨⟨1, 0, 2, 1, 1, 2, 0⟩, (0, 0)⟩] 40]

theorem whole_twoSessions : ∀ a ∈ twoSessions, a.Whole := by
  simp [twoSessions, LogAct.Whole, eventSize]

theorem log_replays_two : ∃ l, Steps.run EventLog.step ⟨none, none⟩ twoSessions = some l ∧
    (∃ reason, (new 1).replayFromFile lastBytes .ok (.ok ((l.file.getD []).take 50)) =
      (new 1, .error (.corruptedLog reason))) ∧
    (((new 1).replayFromFile lastBytes .ok (.ok ((l.file.getD []).take 40))).1.eventsProcessed = 1) := by
  obtain ⟨l, hrun, hlen⟩ : ∃ l, Steps.run EventLog.step ⟨none, none⟩ twoSessions = some l ∧
      (l.file.getD []).length = 80 := ⟨_, rfl, rfl⟩
  have hcut (k : Nat) (hk : k ≤ 80) : ((l.file.getD []).take k).length = k := by
    rw [List.length_take, hlen, Nat.min_eq_left hk]
  have hsome (k : Nat) (hk : k ≤ 80) (hpos : 0 < k) : (l.file.getD []).take k ≠ [] :=
    List.ne_nil_of_length_pos (by rw [hcut k hk]; exact hpos)
  obtain ⟨htorn, _, _⟩ := log_replays (x := lastBytes) maps_ok whole_twoSessions hrun
    (List.take_prefix 50 _) (hsome 50 (by decide) (by decide))
  obtain ⟨_, hwhole, _⟩ := log_replays (x := lastBytes) maps_ok whole_twoSessions hrun
    (List.take_prefix 40 _) (hsome 40 (by decide) (by decide))
  rw [hcut 50 (by decide)] at htorn
  rw [hcut 40 (by decide)] at hwhole
  refine ⟨l, hrun, htorn (by decide) (new 1), ?_⟩
  obtain ⟨hread, hcount, _⟩ := (hwhole (dvd_refl 40)).1 1
  rw [hread, hcount]
  rfl

/-- The events of a file that a new engine takes. -/
def fileHistory (file : List UInt8) : List Hashed := (numberedFrom 0 (castSlice file)).map hashed

theorem hashed_numberedFrom {i : Nat} {es es' : List LoggedEvent}
    (h : (numberedFrom i es).map hashed = (numberedFrom i es').map hashed) : es = es' := by
  induction es generalizing i es' with
  | nil =>
    cases es' with
    | nil => rfl
    | cons e' es' => cases h
  | cons e es ih =>
    cases es' with
    | nil => cases h
    | cons e' es' =>
      obtain ⟨hhead, htail⟩ := List.cons.inj h
      simp only [hashed, Prod.mk.injEq] at hhead
      rw [ih htail, LoggedEvent.ext hhead.2.1 hhead.2.2]

/-- What a new engine makes of a file it replays. -/
theorem finalHash_replayFromFile (hmap : Maps mmap) {id : UInt32} {file : List UInt8}
    {r : ReplayResult} (h : ((new id).replayFromFile x mmap (.ok file)).2 = .ok r) :
    eventSize ∣ file.length ∧ r.finalHash = HashChain.chain x.hash hashBlock 0 (fileHistory file) := by
  have hstart : ∀ l, (new id).state.lastSeq = some l → l = UInt64.ofNat 0 := by
    intro l hl
    cases hl
  have hfinal : ((numberedFrom 0 (castSlice file)).foldl (accept x) (new id)).result.finalHash =
      HashChain.chain x.hash hashBlock 0 (fileHistory file) := accept_hash x (new id) _
  by_cases haligned : eventSize ∣ file.length
  · refine ⟨haligned, ?_⟩
    rw [← hfinal]
    by_cases hsome : file = []
    · subst hsome
      simp only [replayFromFile] at h
      cases hm : mmap [] with
      | error e =>
        rw [hm] at h
        cases h
      | ok bytes =>
        obtain rfl := hmap.shows [] bytes hm
        rw [hm] at h
        cases h
        rfl
    · rw [replayFromFile_aligned hmap _ hsome haligned, replay_numbered] at h
      cases h
      rfl
  · obtain ⟨reason, htorn⟩ := replayFromFile_torn (x := x) hmap (new id) haligned
    rw [htorn] at h
    cases h

/-- **Equal hashes are equal files.** Two files, of any bytes, that new engines replay to one final
hash are the same file byte for byte, whatever instrument the engines were made for, or the hash
function fails on the events in them. -/
theorem same_hash_same_file (hmap : Maps mmap) {id id' : UInt32} {file file' : List UInt8}
    {r r' : ReplayResult} (h : ((new id).replayFromFile x mmap (.ok file)).2 = .ok r)
    (h' : ((new id').replayFromFile x mmap (.ok file')).2 = .ok r')
    (hhash : r.finalHash = r'.finalHash) :
    file = file' ∨ HashFails x (fileHistory file) (fileHistory file') := by
  obtain ⟨haligned, hfinal⟩ := finalHash_replayFromFile hmap h
  obtain ⟨haligned', hfinal'⟩ := finalHash_replayFromFile hmap h'
  rw [hfinal, hfinal'] at hhash
  rcases HashChain.same_of_chain hashBlock_inj hhash with hsame | hfails
  · refine .inl ?_
    rw [← flatMap_castSlice haligned, ← flatMap_castSlice haligned', hashed_numberedFrom hsame]
  · exact .inr hfails

/-- A bid at 10 or at 11, which the last bytes of the record do not show. -/
def loneBid (price : UInt64) : List UInt8 := LoggedEvent.bytes ⟨⟨0, price, 5, 1, 1, 1, 0⟩, (0, 0)⟩

theorem same_hash_same_file_bids : loneBid 10 = loneBid 11 ∨
    HashFails lastBytes (fileHistory (loneBid 10)) (fileHistory (loneBid 11)) := by
  obtain ⟨r, r', h, h', hhash⟩ : ∃ r r',
      ((new 1).replayFromFile lastBytes .ok (.ok (loneBid 10))).2 = .ok r ∧
      ((new 1).replayFromFile lastBytes .ok (.ok (loneBid 11))).2 = .ok r' ∧
      r.finalHash = r'.finalHash := ⟨_, _, rfl, rfl, by decide⟩
  exact same_hash_same_file maps_ok h h' hhash

end ReplayEngine

end Flowlab.Replay
