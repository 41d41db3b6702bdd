import Flowlab.Engine.Telemetry

namespace Flowlab.Engine

open Framework Pieces

theorem length_frameBytes {payload : List UInt8} (h : payload.length ≤ 2 ^ 20 - 2) :
    (frameBytes payload).length = 6 + payload.length := by
  rw [frameBytes_eq h, List.length_append, Bytes.length_toLe, length_frameBody]
  omega

/-- An entry behind which nothing counts gets one more. -/
theorem flatMap_modify {α β : Type} {g : α → List β} {f : α → α} {x : β} {l : List α} {i : Nat}
    (hi : i < l.length) (hlater : ∀ j a, l[j]? = some a → i < j → g a = [])
    (hf : ∀ a, g (f a) = g a ++ [x]) : (l.modify i f).flatMap g = l.flatMap g ++ [x] := by
  have hrest : (l.drop (i + 1)).flatMap g = [] := by
    rw [List.flatMap_eq_nil_iff]
    intro a ha
    obtain ⟨j, hj⟩ := List.mem_iff_getElem?.mp ha
    rw [List.getElem?_drop] at hj
    exact hlater _ a hj (by omega)
  have hsplit : l = l.take i ++ l[i] :: l.drop (i + 1) := by
    rw [← List.drop_eq_getElem_cons hi, List.take_append_drop]
  rw [List.modify_eq_take_cons_drop hi, List.flatMap_append, List.flatMap_cons, hf, hrest]
  conv_rhs => rw [hsplit, List.flatMap_append, List.flatMap_cons, hrest]
  simp

/-- A change that an account does not see. -/
theorem flatMap_modify_same {α β : Type} {g : α → List β} {f : α → α} (hf : ∀ a, g (f a) = g a)
    (l : List α) (i : Nat) : (l.modify i f).flatMap g = l.flatMap g := by
  have hmap : (l.modify i f).map g = l.map g := by
    apply List.ext_getElem?
    intro j
    rw [List.getElem?_map, List.getElem?_map, List.getElem?_modify]
    cases l[j]? with
    | none => rfl
    | some a =>
      simp only [Option.map_eq_map, Option.map_some]
      split_ifs
      · rw [hf]
      · rfl
  rw [List.flatMap_def, List.flatMap_def, hmap]

/-- A stream that ends within a frame ends the loop without handing the frame over. -/
theorem runOnce_cut {payload : List UInt8} (h : payload.length ≤ 2 ^ 20 - 2)
    {conn : List (List UInt8)} {k : Nat} (hk : k < (frameBytes payload).length)
    (hconn : conn.flatten = (frameBytes payload).take k) (fuel : Nat) :
    ∃ e, runOnce (fuel + 1) conn = some ([], e) := by
  rw [length_frameBytes h] at hk
  have hlen : conn.flatten.length = k := by
    rw [hconn, List.length_take, length_frameBytes h]
    omega
  by_cases h4 : k < 4
  · obtain ⟨e, he⟩ := readFull_short (hlen ▸ h4 : conn.flatten.length < 4) []
    exact ⟨.readLen e, by rw [runOnce, he]⟩
  · have hsplit := frameBytes_eq h
    have hhdr : (Bytes.toLe 4 (2 + payload.length)).length = 4 := Bytes.length_toLe _ _
    obtain ⟨conn₁, h1, hrest₁⟩ := readFull_ok (n := 4) conn (by omega) []
    rw [hconn, hsplit, List.nil_append, List.take_take, Nat.min_eq_left (by omega),
      List.take_left' hhdr] at h1
    have hn : Bytes.ofLe (Bytes.toLe 4 (2 + payload.length)) = 2 + payload.length :=
      Bytes.ofLe_toLe _ _ (by omega)
    have hsize : (UInt32.ofNat (2 + payload.length)).toNat = 2 + payload.length := by
      rw [UInt32.toNat_ofNat', Nat.mod_eq_of_lt (show 2 + payload.length < 2 ^ 32 by omega)]
    have hrange : ¬ (UInt32.ofNat (2 + payload.length) < 2 ∨
        (1 : UInt32) <<< 20 < UInt32.ofNat (2 + payload.length)) := by
      rw [UInt32.lt_iff_toNat_lt, UInt32.lt_iff_toNat_lt, hsize]
      change ¬ (2 + payload.length < 2 ∨ 2 ^ 20 < 2 + payload.length)
      omega
    have hless : conn₁.flatten.length < 2 + payload.length := by
      rw [hrest₁, List.length_drop, hlen]
      omega
    obtain ⟨e, he⟩ := readFull_short hless []
    refine ⟨.readPayload e, ?_⟩
    rw [runOnce]
    simp only [h1, hn, if_neg hrange, hsize, he]

/-- Wherever the bytes of some frames are cut, the client hands over the frames before the cut. -/
theorem runOnce_prefix {payloads : List (List UInt8)} (h : ∀ p ∈ payloads, p.length ≤ 2 ^ 20 - 2)
    {conn : List (List UInt8)} {k : Nat} (hconn : conn.flatten = (payloads.flatMap frameBytes).take k)
    {fuel : Nat} (hfuel : conn.flatten.length < fuel) :
    ∃ n e, runOnce fuel conn = some (payloads.take n, e) ∧
      ((payloads.flatMap frameBytes).length ≤ k → payloads.length ≤ n) := by
  induction payloads generalizing conn k fuel with
  | nil =>
    obtain ⟨fuel, rfl⟩ : ∃ m, fuel = m + 1 := ⟨fuel - 1, by omega⟩
    refine ⟨0, .readLen .eof, ?_, fun _ => Nat.le_refl _⟩
    rw [runOnce, readFull_eof (by simpa using hconn) (by omega)]
    rfl
  | cons payload payloads ih =>
    have hp := h payload List.mem_cons_self
    have hlen := length_frameBytes hp
    obtain ⟨fuel, rfl⟩ : ∃ m, fuel = m + 1 := ⟨fuel - 1, by omega⟩
    rw [List.flatMap_cons] at hconn ⊢
    rcases Nat.lt_or_ge k (frameBytes payload).length with hk | hk
    · rw [List.take_append_of_le_length hk.le] at hconn
      obtain ⟨e, he⟩ := runOnce_cut hp hk hconn fuel
      refine ⟨0, e, he, ?_⟩
      intro hall
      rw [List.length_append] at hall
      omega
    · rw [List.take_append, List.take_of_length_le hk] at hconn
      obtain ⟨conn', hrest, hturn⟩ := runOnce_frame hp hconn
      have hfuel' : conn'.flatten.length < fuel := by
        rw [hconn, List.length_append, ← hrest] at hfuel
        omega
      obtain ⟨n, e, he, hall⟩ := ih (fun p hm => h p (List.mem_cons_of_mem payload hm)) hrest hfuel'
      refine ⟨n + 1, e, ?_, ?_⟩
      · rw [hturn, he]
        rfl
      · intro hk'
        rw [List.length_append] at hk'
        exact Nat.succ_le_succ (hall (by omega))

section

variable {φ : Type} {encode : φ → Option (List UInt8)}

/-- No encoded frame is longer than the client takes. -/
def Short (encode : φ → Option (List UInt8)) : Prop :=
  ∀ frame payload, encode frame = some payload → payload.length ≤ 2 ^ 20 - 2

theorem Short.payloads (h : Short encode) (frames : List φ) :
    ∀ p ∈ frames.filterMap encode, p.length ≤ 2 ^ 20 - 2 := by
  intro p hp
  obtain ⟨frame, -, he⟩ := List.mem_filterMap.mp hp
  exact h frame p he

/-- What has been read of some frames is handed over frame by frame. -/
theorem dispatched_prefix (h : Short encode) {frames : List φ} {read : List (List UInt8)}
    (hread : read.flatten <+: wireOf encode frames) :
    dispatched read <+: frames.filterMap encode ∧
      (read.flatten = wireOf encode frames → dispatched read = frames.filterMap encode) := by
  have hconn := List.prefix_iff_eq_take.mp hread
  obtain ⟨n, e, he, hall⟩ := runOnce_prefix (h.payloads frames) hconn (Nat.lt_succ_self _)
  have hd : dispatched read = (frames.filterMap encode).take n := by
    rw [dispatched, he]
    rfl
  refine ⟨hd ▸ List.take_prefix n _, ?_⟩
  intro hwhole
  rw [hd, List.take_of_length_le (hall (by rw [hwhole]; exact Nat.le_refl _))]

theorem wireOf_append (frames frames' : List φ) :
    wireOf encode (frames ++ frames') = wireOf encode frames ++ wireOf encode frames' := by
  simp only [wireOf, List.filterMap_append, List.flatMap_append]

namespace Telemetry

variable {cap : ℕ+} {s t : Telemetry φ}

/-- A connection carries whole frames up to where it was cut. -/
structure StreamOk (encode : φ → Option (List UInt8)) (stream : Stream φ) : Prop where
  written : stream.written <+: wireOf encode stream.frames
  read : stream.read.flatten <+: stream.written

/-- What holds in every state. -/
structure Inv (encode : φ → Option (List UInt8)) (cap : ℕ+) (s : Telemetry φ) : Prop where
  order : (s.taken ++ s.queue).Sublist s.sent
  count : ∃ d, s.dropped = UInt64.ofNat d ∧ s.sent.length = s.taken.length + s.queue.length + d
  room : s.queue.length ≤ cap
  accepted : s.accepted ≤ s.streams.length
  later : ∀ i stream, s.streams[i]? = some stream → s.accepted ≤ i →
    stream.frames = [] ∧ stream.written = []
  streams : ∀ stream ∈ s.streams, StreamOk encode stream
  served : s.serving = true → 0 < s.accepted ∧
    ∀ stream, s.streams[s.accepted - 1]? = some stream → stream.written = wireOf encode stream.frames

theorem inv_start : Inv encode cap start where
  order := List.Sublist.refl _
  count := ⟨0, rfl, rfl⟩
  room := Nat.zero_le _
  accepted := Nat.le_refl _
  later := by simp [start]
  streams := by simp [start]
  served := by simp [start]

theorem getElem_modify {α : Type} {f : α → α} {l : List α} {i j : Nat} {b : α}
    (h : (l.modify i f)[j]? = some b) :
    (i = j ∧ ∃ a, l[j]? = some a ∧ f a = b) ∨ (i ≠ j ∧ l[j]? = some b) := by
  rw [List.getElem?_modify] at h
  split_ifs at h with hij
  · exact .inl ⟨hij, Option.map_eq_some_iff.mp h⟩
  · exact .inr ⟨hij, by simpa using h⟩

/-- The connection that the server works on. -/
theorem Inv.current (h : Inv encode cap s) (hserving : s.serving = true) :
    s.accepted - 1 < s.streams.length ∧
      ∀ j stream, s.streams[j]? = some stream → s.accepted - 1 < j → stream.frames = [] := by
  have hpos := (h.served hserving).1
  have hle := h.accepted
  exact ⟨by omega, fun j stream hj hlt => (h.later j stream hj (by omega)).1⟩

/-- The server takes a frame and puts it on the connection, or a part of it. -/
theorem Inv.take (h : Inv encode cap s) (hserving : s.serving = true) {frame : φ} {queue : List φ}
    (hqueue : s.queue = frame :: queue) {f : Stream φ → Stream φ} {goes : Bool}
    (hframes : ∀ stream, (f stream).frames = stream.frames ++ [frame])
    (hread : ∀ stream, (f stream).read = stream.read)
    (hwritten : ∀ stream, stream.written <+: (f stream).written)
    (hwire : ∀ stream, stream.written = wireOf encode stream.frames →
      (f stream).written <+: wireOf encode (f stream).frames ∧
        (goes = true → (f stream).written = wireOf encode (f stream).frames)) :
    Inv encode cap { s with
      queue := queue
      streams := s.streams.modify (s.accepted - 1) f
      serving := goes } := by
  obtain ⟨hlt, hbehind⟩ := h.current hserving
  obtain ⟨hpos, hexact⟩ := h.served hserving
  obtain ⟨d, hdropped, hcount⟩ := h.count
  have htaken : (s.streams.modify (s.accepted - 1) f).flatMap Stream.frames = s.taken ++ [frame] :=
    flatMap_modify hlt hbehind hframes
  have horder := h.order
  have hroom := h.room
  rw [hqueue] at horder hcount hroom
  refine ⟨?_, ⟨d, hdropped, ?_⟩, ?_, ?_, ?_, ?_, ?_⟩
  · rw [taken, htaken, List.append_assoc]
    exact horder
  · rw [taken, htaken, hcount, List.length_append, List.length_cons, List.length_singleton]
    dsimp only
    omega
  · rw [List.length_cons] at hroom
    exact (Nat.le_succ _).trans hroom
  · rw [List.length_modify]
    exact h.accepted
  · intro j stream hj hle
    rcases getElem_modify hj with ⟨hij, -⟩ | ⟨-, hj⟩
    · dsimp only at hle
      omega
    · exact h.later j stream hj hle
  · intro stream hmem
    obtain ⟨j, hj⟩ := List.mem_iff_getElem?.mp hmem
    rcases getElem_modify hj with ⟨hij, old, hold, rfl⟩ | ⟨-, hj⟩
    · subst hij
      refine ⟨(hwire old (hexact old hold)).1, ?_⟩
      rw [hread]
      exact (h.streams old (List.mem_of_getElem? hold)).read.trans (hwritten old)
    · exact h.streams stream (List.mem_of_getElem? hj)
  · intro hgoes
    refine ⟨hpos, ?_⟩
    intro stream hj
    rcases getElem_modify hj with ⟨-, old, hold, rfl⟩ | ⟨hne, -⟩
    · exact (hwire old (hexact old hold)).2 hgoes
    · exact absurd rfl hne

/-- The client reads what comes next on its connection. -/
theorem Inv.readPiece (h : Inv encode cap s) (n : Nat) :
    Inv encode cap { s with
      streams := s.streams.modify (s.streams.length - 1) (Stream.readPiece n) } := by
  have htaken : (s.streams.modify (s.streams.length - 1) (Stream.readPiece n)).flatMap Stream.frames =
      s.taken := by
    have hsame : ∀ stream : Stream φ, (stream.readPiece n).frames = stream.frames := fun _ => rfl
    exact flatMap_modify_same hsame s.streams _
  refine ⟨?_, ?_, h.room, ?_, ?_, ?_, ?_⟩
  · rw [taken, htaken]
    exact h.order
  · rw [taken, htaken]
    exact h.count
  · rw [List.length_modify]
    exact h.accepted
  · intro j stream hj hle
    rcases getElem_modify hj with ⟨-, old, hold, rfl⟩ | ⟨-, hj⟩
    · exact h.later j old hold hle
    · exact h.later j stream hj hle
  · intro stream hmem
    obtain ⟨j, hj⟩ := List.mem_iff_getElem?.mp hmem
    rcases getElem_modify hj with ⟨-, old, hold, rfl⟩ | ⟨-, hj⟩
    · obtain ⟨hwritten, hread⟩ := h.streams old (List.mem_of_getElem? hold)
      refine ⟨hwritten, ?_⟩
      obtain ⟨rest, hrest⟩ := hread
      have hdrop : old.written.drop old.read.flatten.length = rest := by
        rw [← hrest, List.drop_left]
      simp only [Stream.readPiece, List.flatten_append, List.flatten_singleton, hdrop]
      rw [← hrest]
      exact (List.prefix_append_right_inj _).mpr (List.take_prefix _ _)
    · exact h.streams stream (List.mem_of_getElem? hj)
  · intro hserving
    obtain ⟨hpos, hexact⟩ := h.served hserving
    refine ⟨hpos, ?_⟩
    intro stream hj
    rcases getElem_modify hj with ⟨-, old, hold, rfl⟩ | ⟨-, hj⟩
    · exact hexact old hold
    · exact hexact stream hj

theorem inv_step (h : Inv encode cap s) {a : TelemetryAct φ} (ht : s.step encode cap a = some t) :
    Inv encode cap t := by
  cases a <;> simp only [step] at ht
  case trySend frame =>
    obtain ⟨d, hdropped, hcount⟩ := h.count
    split_ifs at ht with hroom
    · cases ht
      refine ⟨?_, ⟨d, hdropped, ?_⟩, ?_, h.accepted, h.later, h.streams, h.served⟩
      · rw [← List.append_assoc]
        exact h.order.append_right [frame]
      · simp only [List.length_append, List.length_singleton, taken] at hcount ⊢
        omega
      · rw [List.length_append]
        exact hroom
    · cases ht
      refine ⟨h.order.trans (List.sublist_append_left _ _), ⟨d + 1, ?_, ?_⟩, h.room, h.accepted,
        h.later, h.streams, h.served⟩
      · rw [UInt64.ofNat_add, ← hdropped]
        rfl
      · simp only [List.length_append, List.length_singleton, taken] at hcount ⊢
        omega
  case dial =>
    split_ifs at ht
    cases ht
    have htaken : (s.streams ++ [Stream.empty]).flatMap Stream.frames = s.taken := by
      rw [List.flatMap_append]
      exact List.append_nil _
    refine ⟨?_, ?_, h.room, ?_, ?_, ?_, ?_⟩
    · rw [taken, htaken]
      exact h.order
    · rw [taken, htaken]
      exact h.count
    · rw [List.length_append]
      exact h.accepted.trans (Nat.le_succ _)
    · intro j stream hj hle
      rcases Nat.lt_or_ge j s.streams.length with hlt | hge
      · rw [List.getElem?_append_left hlt] at hj
        exact h.later j stream hj hle
      · rw [List.getElem?_append_right hge] at hj
        rw [List.mem_singleton.mp (List.mem_of_getElem? hj)]
        exact ⟨rfl, rfl⟩
    · intro stream hmem
      rcases List.mem_append.mp hmem with hmem | hmem
      · exact h.streams stream hmem
      · rw [List.mem_singleton.mp hmem]
        exact ⟨List.prefix_refl _, List.prefix_refl _⟩
    · intro hserving
      obtain ⟨hpos, hexact⟩ := h.served hserving
      refine ⟨hpos, ?_⟩
      intro stream hj
      have hle := h.accepted
      rw [List.getElem?_append_left (by dsimp only; omega)] at hj
      exact hexact stream hj
  case read n =>
    split_ifs at ht
    cases ht
    exact h.readPiece n
  case giveUp =>
    split_ifs at ht
    cases ht
    exact ⟨h.order, h.count, h.room, h.accepted, h.later, h.streams, h.served⟩
  case accept =>
    split_ifs at ht with hguard
    cases ht
    refine ⟨h.order, h.count, h.room, hguard.2, fun j stream hj hle =>
      h.later j stream hj (Nat.le_of_succ_le hle), h.streams, ?_⟩
    intro _
    refine ⟨Nat.succ_pos _, ?_⟩
    intro stream hj
    obtain ⟨hframes, hwritten⟩ := h.later s.accepted stream hj (Nat.le_refl _)
    rw [hframes, hwritten]
    rfl
  case acceptFail =>
    split_ifs at ht with hguard
    cases ht
    refine ⟨h.order, h.count, h.room, hguard.2, fun j stream hj hle =>
      h.later j stream hj (Nat.le_of_succ_le hle), h.streams, ?_⟩
    intro hserving
    exact absurd (hserving.symm.trans hguard.1) (by decide)
  case serve =>
    split at ht
    · rename_i frame queue hserving hqueue
      cases ht
      have htake : Inv encode cap { s with
          queue := queue
          streams := s.streams.modify (s.accepted - 1) (Stream.serve encode frame)
          serving := true } := h.take hserving hqueue
        (fun _ => rfl) (fun _ => rfl) (fun _ => List.prefix_append _ _) (fun stream hstream => by
          have hwire : (stream.serve encode frame).written =
              wireOf encode (stream.serve encode frame).frames := by
            simp only [Stream.serve, wireOf_append, hstream]
          exact ⟨hwire ▸ List.prefix_refl _, fun _ => hwire⟩)
      rwa [← hserving] at htake
    · cases ht
  case serveFail n =>
    split at ht
    · rename_i frame queue hserving hqueue
      split_ifs at ht
      cases ht
      refine h.take hserving hqueue (fun _ => rfl) (fun _ => rfl) (fun _ => List.prefix_append _ _)
        (fun stream hstream => ⟨?_, fun hgoes => Bool.noConfusion hgoes⟩)
      simp only [Stream.serveFail, wireOf_append, hstream]
      exact (List.prefix_append_right_inj _).mpr (List.take_prefix _ _)
    · cases ht

theorem Reachable.inv (h : Reachable encode cap s) : Inv encode cap s := by
  obtain ⟨acts, hrun⟩ := h
  exact Steps.run_keeps (fun hs ht => inv_step hs ht) inv_start hrun

theorem dispatched_stream (hshort : Short encode) (h : Inv encode cap s) {stream : Stream φ}
    (hmem : stream ∈ s.streams) : dispatched stream.read <+: stream.frames.filterMap encode ∧
      (stream.read.flatten = wireOf encode stream.frames →
        dispatched stream.read = stream.frames.filterMap encode) :=
  dispatched_prefix hshort ((h.streams stream hmem).read.trans (h.streams stream hmem).written)

theorem delivered_sublist (hshort : Short encode) (h : Inv encode cap s) :
    s.delivered.Sublist (s.sent.filterMap encode) := by
  have htaken : s.delivered.Sublist (s.taken.filterMap encode) := by
    rw [delivered, taken, List.filterMap_flatMap]
    exact List.Sublist.flatMap_right _ fun stream hmem =>
      (dispatched_stream hshort h hmem).1.sublist
  exact htaken.trans (((List.sublist_append_left _ _).trans h.order).filterMap encode)

/-- Whatever connections break and wherever: the channel keeps its bound and counts what it turns
away, every connection hands over its frames up to a cut, and all that the client gets is in the
order of the engine, nothing twice. -/
theorem frames_in_order (hshort : Short encode) (h : Reachable encode cap s) :
    s.delivered.Sublist (s.sent.filterMap encode) ∧ s.queue.length ≤ cap ∧
      s.dropped = UInt64.ofNat (s.sent.length - s.taken.length - s.queue.length) ∧
      (s.taken ++ s.queue).Sublist s.sent ∧
      ∀ stream ∈ s.streams, dispatched stream.read <+: stream.frames.filterMap encode ∧
        (stream.read.flatten = wireOf encode stream.frames →
          dispatched stream.read = stream.frames.filterMap encode) := by
  have hinv := h.inv
  obtain ⟨d, hdropped, hcount⟩ := hinv.count
  refine ⟨delivered_sublist hshort hinv, hinv.room, ?_, hinv.order,
    fun stream hmem => dispatched_stream hshort hinv hmem⟩
  rw [hdropped, hcount]
  congr 1
  omega

/-- The first frame fails to encode, the third finds the channel full, the connection breaks within
the fourth, and the client dials again. -/
def breakActs : List (TelemetryAct Nat) :=
  [.dial, .accept, .trySend 0, .trySend 1, .trySend 2, .serve, .serve, .read 9, .trySend 3,
    .serveFail 4, .read 9, .read 1, .giveUp, .dial, .accept, .trySend 4, .serve, .read 3, .read 20]

def someEncode (n : Nat) : Option (List UInt8) := [none, some [7, 8], some [], some [1], some []].getD n none

theorem someEncode_short : Short someEncode := by
  intro n payload hp
  have hmem : some payload ∈ [none, some [7, 8], some [], some [1], some []] := by
    rw [someEncode, List.getD_eq_getElem?_getD] at hp
    cases hn : [none, some [7, 8], some [], some [1], some ([] : List UInt8)][n]? with
    | none => simp [hn] at hp
    | some v =>
      rw [hn, Option.getD_some] at hp
      exact hp ▸ List.mem_of_getElem? hn
  have hlen : ∀ v ∈ [none, some [7, 8], some [], some [1], some ([] : List UInt8)],
      ∀ p ∈ v, p.length ≤ 2 ^ 20 - 2 := by decide
  exact hlen _ hmem payload rfl

theorem frames_in_order_break :
    ∃ s, Steps.run (step someEncode 2) start breakActs = some s ∧ s.sent = [0, 1, 2, 3, 4] ∧
      s.delivered = [[7, 8], []] ∧ s.delivered.Sublist (s.sent.filterMap someEncode) ∧
      s.dropped = 1 := by
  have hrun : ∃ s ∈ Steps.run (step someEncode 2) start breakActs, s.sent = [0, 1, 2, 3, 4] ∧
      s.delivered = [[7, 8], []] ∧ s.taken = [0, 1, 3, 4] ∧ s.queue = [] := by
    decide
  obtain ⟨s, hs, hsent, hdelivered, htaken, hqueue⟩ := hrun
  obtain ⟨horder, -, hdropped, -⟩ := frames_in_order someEncode_short ⟨_, hs⟩
  rw [hsent, htaken, hqueue] at hdropped
  exact ⟨s, hs, hsent, hdelivered, horder, hdropped⟩

end Telemetry

end

end Flowlab.Engine
