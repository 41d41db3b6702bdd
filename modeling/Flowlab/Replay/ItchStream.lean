import Flowlab.Replay.Itch

namespace Flowlab.Replay.Itch

open Framework
open Flowlab.Core (Event EventType Side)

/-- A message of a known type, with all of its bytes. -/
def WholeMessage (m : List UInt8) : Prop := ∃ t, m.head? = some t ∧ m.length = msgLength t

/-- The event of a message, if its type bears one. -/
def messageEvent (m : List UInt8) : Option Event :=
  match dispatch m with
  | .ok e => e
  | .error _ => none

/-- Bytes at whose front no whole message of a known type stands. -/
def Stuck (raw : List UInt8) : Prop :=
  ∃ t, raw.head? = some t ∧ (msgLength t = 0 ∨ raw.length < msgLength t)

theorem exists_window (raw : List UInt8) : ∃ mem, raw = window mem 0 raw.length := by
  refine ⟨fun i => raw.getD i 0, List.ext_getElem? ?_⟩
  intro i
  by_cases h : i < raw.length
  · rw [window_get _ h, Nat.zero_add, List.getD_eq_getElem?_getD, List.getElem?_eq_getElem h]
    rfl
  · rw [List.getElem?_eq_none (by omega), List.getElem?_eq_none (by simp; omega)]

theorem parseLoop_fuel {raw : List UInt8} {fuel i : Nat} (h : raw.length - i ≤ fuel)
    (out : List Event) (n : Nat) :
    parseLoop raw fuel i out n = parseLoop raw raw.length i out n := by
  obtain ⟨mem, hmem⟩ := exists_window raw
  rw [hmem, length_window, parseLoop_eq h, parseLoop_eq (Nat.sub_le _ _)]

theorem stopResult_count (mem : Nat → UInt8) (rawLen stop n count : Nat) :
    stopResult mem rawLen stop (n + count) = (stopResult mem rawLen stop count).map (n + ·) := by
  simp only [stopResult]
  split_ifs <;> rfl

/-- What is pushed and counted does not depend on what `out` and `n` were. -/
theorem parseLoop_from (raw : List UInt8) (out : List Event) (n : Nat) :
    ∃ pushed res, parseBuffer raw [] = .ok (pushed, res) ∧
      parseLoop raw raw.length 0 out n = .ok (out ++ pushed, res.map (n + ·)) := by
  obtain ⟨mem, hmem⟩ := exists_window raw
  have hempty := parseBuffer_eq mem raw.length []
  have hout : parseLoop (window mem 0 raw.length) raw.length 0 out n = _ :=
    parseLoop_eq (Nat.sub_le _ _) out n
  rw [← hmem, List.nil_append] at hempty
  rw [← hmem, stopResult_count] at hout
  exact ⟨_, _, hempty, hout⟩

theorem index_append_right (a b : List UInt8) {i : Nat} (h : i < b.length) :
    index (a ++ b) (a.length + i) = index b i := by
  rw [index, index, List.getElem?_append_right (by omega), Nat.add_sub_cancel_left,
    List.getElem?_eq_getElem h]

theorem range_append_right (a b : List UInt8) {i len : Nat} (h : i + len ≤ b.length) :
    range (a ++ b) (a.length + i) (a.length + i + len) = range b i (i + len) := by
  have hle : a.length + i + len ≤ (a ++ b).length := by
    rw [List.length_append]
    omega
  rw [range, range, if_pos hle, if_pos h]
  simp only [Bytes.slice, Nat.add_sub_cancel_left]
  rw [← List.drop_drop, List.drop_left]

/-- The loop behind `a` sees only what follows `a`. -/
theorem parseLoop_append_right (a b : List UInt8) (fuel i : Nat) (out : List Event) (n : Nat) :
    parseLoop (a ++ b) fuel (a.length + i) out n = parseLoop b fuel i out n := by
  induction fuel generalizing i out n with
  | zero => rfl
  | succ fuel ih =>
    rw [parseLoop, parseLoop]
    by_cases hi : i < b.length
    · rw [if_pos (show a.length + i < (a ++ b).length by rw [List.length_append]; omega),
        if_pos hi, index_append_right a b hi]
      obtain ⟨t, ht⟩ : ∃ t, index b i = .ok t := by
        rw [index, List.getElem?_eq_getElem hi]
        exact ⟨_, rfl⟩
      rw [ht]
      change (if _ then _ else _) = (if _ then _ else _)
      split_ifs with hz hlong hlong' hlong''
      · rfl
      · rfl
      · rw [List.length_append] at hlong
        omega
      · rw [List.length_append] at hlong
        omega
      · rw [range_append_right a b (by omega)]
        simp only [Nat.add_assoc, ih]
    · rw [if_neg (show ¬ a.length + i < (a ++ b).length by rw [List.length_append]; omega),
        if_neg hi]

/-- A whole message as a piece of memory that starts with its type. -/
theorem exists_window_whole {m : List UInt8} (h : WholeMessage m) :
    ∃ mem, m.head? = some (mem 0) ∧ msgLength (mem 0) ≠ 0 ∧
      m = window mem 0 (msgLength (mem 0)) := by
  obtain ⟨t, ht, hlen⟩ := h
  obtain ⟨mem, hmem⟩ := exists_window m
  have hpos : 0 < m.length := by
    cases m with
    | nil => simp at ht
    | cons x m => simp
  have hzero : mem 0 = t := by
    have hhead := ht
    rw [hmem, List.head?_eq_getElem?, window_get mem hpos] at hhead
    exact Option.some.inj hhead
  rw [hlen] at hmem
  exact ⟨mem, by rw [hzero, ht], by rw [hzero]; omega, by rw [hzero, ← hmem]⟩

theorem dispatch_whole {m : List UInt8} (h : WholeMessage m) :
    dispatch m = .ok (messageEvent m) := by
  obtain ⟨mem, _, hpos, hmem⟩ := exists_window_whole h
  have hok := dispatch_window hpos
  rw [← hmem] at hok
  rw [messageEvent, hok]

/-- A whole message in front adds its event and is passed over. -/
theorem parseLoop_whole {m : List UInt8} (h : WholeMessage m) (b : List UInt8)
    (out : List Event) (n : Nat) :
    parseLoop (m ++ b) (m ++ b).length 0 out n =
      parseLoop b b.length 0 (out ++ (messageEvent m).toList)
        (n + (messageEvent m).toList.length) := by
  obtain ⟨t, ht, hlen⟩ := h
  have hdispatch := dispatch_whole ⟨t, ht, hlen⟩
  obtain ⟨m', rfl⟩ : ∃ m', m = t :: m' := by
    cases m with
    | nil => simp at ht
    | cons x m' => exact ⟨m', by rw [Option.some.inj ht]⟩
  have hsize : (t :: m' ++ b).length = (m'.length + b.length) + 1 := by
    simp only [List.length_append, List.length_cons]
    omega
  have hrange : range (t :: m' ++ b) 0 (0 + msgLength t) = .ok (t :: m') := by
    rw [← hlen, range, if_pos (by rw [List.length_append]; omega), Bytes.slice, List.drop_zero,
      Nat.zero_add, Nat.sub_zero, List.take_left]
  have hcons : (t :: m').length = m'.length + 1 := rfl
  have hindex : index (t :: m' ++ b) 0 = .ok t := rfl
  rw [hsize, parseLoop, if_pos (by rw [hsize]; omega), hindex]
  change (if _ then _ else _) = _
  rw [if_neg (by omega), if_neg (by rw [List.length_append]; omega), hrange]
  change (dispatch (t :: m') >>= _) = _
  rw [hdispatch, ← hlen]
  cases messageEvent (t :: m') with
  | none =>
    rw [Option.toList_none, List.append_nil]
    change parseLoop _ _ (0 + _) out n = _
    rw [Nat.zero_add, ← Nat.add_zero (t :: m').length, parseLoop_append_right,
      parseLoop_fuel (by omega)]
    rfl
  | some e =>
    change parseLoop _ _ (0 + _) (out ++ [e]) (n + 1) = _
    rw [Nat.zero_add, ← Nat.add_zero (t :: m').length, parseLoop_append_right,
      parseLoop_fuel (by omega)]
    rfl

theorem parseLoop_messages {msgs : List (List UInt8)} (h : ∀ m ∈ msgs, WholeMessage m)
    (b : List UInt8) (out : List Event) (n : Nat) :
    parseLoop (msgs.flatten ++ b) (msgs.flatten ++ b).length 0 out n =
      parseLoop b b.length 0 (out ++ msgs.filterMap messageEvent)
        (n + (msgs.filterMap messageEvent).length) := by
  induction msgs generalizing out n with
  | nil => simp
  | cons m msgs ih =>
    rw [List.flatten_cons, List.append_assoc, parseLoop_whole (h m (by simp)),
      ih (fun x hx => h x (List.mem_cons_of_mem m hx)), Tagged.filterMap_cons_toList,
      List.append_assoc, List.length_append, Nat.add_assoc]

theorem parseLoop_stuck {raw : List UInt8} (h : Stuck raw) (out : List Event) (n : Nat) :
    ∃ e, parseLoop raw raw.length 0 out n = .ok (out, .error e) := by
  obtain ⟨t, ht, hstuck⟩ := h
  obtain ⟨raw', rfl⟩ : ∃ raw', raw = t :: raw' := by
    cases raw with
    | nil => simp at ht
    | cons x raw' => exact ⟨raw', by rw [Option.some.inj ht]⟩
  have hindex : index (t :: raw') 0 = .ok t := rfl
  by_cases hz : msgLength t = 0
  · refine ⟨"unknown ITCH message type", ?_⟩
    rw [List.length_cons, parseLoop, if_pos (by simp), hindex]
    change (if _ then _ else _) = _
    rw [if_pos hz]
    rfl
  · have hlong : 0 + msgLength t > (t :: raw').length := by
      rcases hstuck with h | h
      · exact absurd h hz
      · omega
    refine ⟨"truncated ITCH message", ?_⟩
    rw [List.length_cons, parseLoop, if_pos (by simp), hindex]
    change (if _ then _ else _) = _
    rw [if_neg hz, if_pos hlong]
    rfl

/-- Any bytes are whole messages and then nothing, or something that is none. -/
theorem exists_messages (raw : List UInt8) :
    ∃ (msgs : List (List UInt8)) (rest : List UInt8), raw = msgs.flatten ++ rest ∧
      (∀ m ∈ msgs, WholeMessage m) ∧
      (rest = [] ∨ Stuck rest) := by
  induction hn : raw.length using Nat.strong_induction_on generalizing raw with
  | _ n ih =>
    cases raw with
    | nil => exact ⟨[], [], rfl, by simp, Or.inl rfl⟩
    | cons t raw =>
      by_cases hstuck : msgLength t = 0 ∨ (t :: raw).length < msgLength t
      · exact ⟨[], t :: raw, rfl, by simp, Or.inr ⟨t, rfl, hstuck⟩⟩
      · obtain ⟨hz, hlong⟩ := not_or.mp hstuck
        have hlen : ((t :: raw).take (msgLength t)).length = msgLength t := by
          rw [List.length_take]
          omega
        have hwhole : WholeMessage ((t :: raw).take (msgLength t)) := by
          refine ⟨t, ?_, hlen⟩
          rw [List.head?_take, if_neg hz]
          rfl
        obtain ⟨msgs, rest, hrest, hall, hend⟩ := ih ((t :: raw).drop (msgLength t)).length
          (by rw [List.length_drop]; omega) _ rfl
        refine ⟨(t :: raw).take (msgLength t) :: msgs, rest, ?_, ?_, hend⟩
        · rw [List.flatten_cons, List.append_assoc, ← hrest, List.take_append_drop]
        · intro m hm
          rcases List.mem_cons.mp hm with rfl | hm
          · exact hwhole
          · exact hall m hm

/-- The types whose messages bear an event. -/
def eventTypes : List Char := ['A', 'F', 'D', 'X', 'E', 'C', 'P']

theorem messageEvent_isSome {m : List UInt8} (h : WholeMessage m) :
    (messageEvent m).isSome = true ↔ ∃ t, m.head? = some t ∧ Char.ofNat t.toNat ∈ eventTypes := by
  obtain ⟨mem, hhead, hpos, hmem⟩ := exists_window_whole h
  have htype : (∃ t, m.head? = some t ∧ Char.ofNat t.toNat ∈ eventTypes) ↔
      Char.ofNat (mem 0).toNat ∈ eventTypes := by
    rw [hhead]
    simp
  suffices hok : ∃ e, dispatch (window mem 0 (msgLength (mem 0))) = .ok e ∧
      (e.isSome = true ↔ Char.ofNat (mem 0).toNat ∈ eventTypes) by
    obtain ⟨e, he, hsome⟩ := hok
    rw [htype, messageEvent, hmem, he]
    exact hsome
  rw [dispatch_type hpos, msgLength]
  generalize Char.ofNat (mem 0).toNat = c
  split
  · exact ⟨_, parseSided_window mem le_rfl le_rfl .orderAdd, by simp [eventTypes]⟩
  · exact ⟨_, parseSided_window mem le_rfl (by decide) .orderAdd, by simp [eventTypes]⟩
  · exact ⟨_, parseOrderDelete_window mem le_rfl, by simp [eventTypes]⟩
  · exact ⟨_, parseOrderCancel_window mem le_rfl, by simp [eventTypes]⟩
  · exact ⟨_, parseOrderExecuted_window mem le_rfl, by simp [eventTypes]⟩
  · exact ⟨_, parseOrderExecuted_window mem (by decide), by simp [eventTypes]⟩
  · exact ⟨_, parseSided_window mem (by decide) le_rfl .trade, by simp [eventTypes]⟩
  · refine ⟨_, rfl, ?_⟩
    simp_all [eventTypes]

/-- Every byte string is parsed to an end without a panic. -/
theorem parseBuffer_returns (raw : List UInt8) (out : List Event) :
    ∃ pushed res, parseBuffer raw out = .ok (out ++ pushed, res) := by
  obtain ⟨pushed, res, _, hout⟩ := parseLoop_from raw out 0
  exact ⟨pushed, _, hout⟩

/-- What whole messages push and return. -/
theorem parseBuffer_messages {msgs : List (List UInt8)} (h : ∀ m ∈ msgs, WholeMessage m)
    (out : List Event) :
    parseBuffer msgs.flatten out =
      .ok (out ++ msgs.filterMap messageEvent, .ok (msgs.filterMap messageEvent).length) := by
  have hall := parseLoop_messages h [] out 0
  rw [List.append_nil, Nat.zero_add] at hall
  exact hall

/-- `parse_buffer` is Ok only on whole messages. -/
theorem messages_of_ok {raw : List UInt8} {out pushed : List Event} {n : Nat}
    (h : parseBuffer raw out = .ok (pushed, .ok n)) :
    ∃ msgs : List (List UInt8), raw = msgs.flatten ∧ ∀ m ∈ msgs, WholeMessage m := by
  obtain ⟨msgs, rest, rfl, hall, hend⟩ := exists_messages raw
  rcases hend with rfl | hstuck
  · exact ⟨msgs, by rw [List.append_nil], hall⟩
  · obtain ⟨e, he⟩ := parseLoop_stuck hstuck (out ++ msgs.filterMap messageEvent)
      (0 + (msgs.filterMap messageEvent).length)
    rw [parseBuffer, parseLoop_messages hall, he] at h
    exact absurd (Prod.mk.inj (Except.ok.inj h)).2 (by simp)

/-- For every byte string: more turns of the loop change nothing and no index is out of range; the
result is Ok exactly on a concatenation of whole messages of known types, and then the events of
the event-bearing ones have been pushed in order; and behind bytes that parse to Ok, parsing goes
on as it would from an empty start. -/
theorem parseBuffer_exact (raw : List UInt8) (out : List Event) :
    (∀ fuel, raw.length ≤ fuel → parseLoop raw fuel 0 out 0 = parseBuffer raw out) ∧
    (∃ pushed res, parseBuffer raw out = .ok (out ++ pushed, res) ∧
      ((∃ n, res = .ok n) ↔
        ∃ msgs : List (List UInt8), raw = msgs.flatten ∧ ∀ m ∈ msgs, WholeMessage m)) ∧
    (∀ msgs : List (List UInt8), raw = msgs.flatten → (∀ m ∈ msgs, WholeMessage m) →
      parseBuffer raw out =
          .ok (out ++ msgs.filterMap messageEvent, .ok (msgs.filterMap messageEvent).length) ∧
        ∀ m ∈ msgs, dispatch m = .ok (messageEvent m) ∧ ((messageEvent m).isSome = true ↔
          ∃ t, m.head? = some t ∧ Char.ofNat t.toNat ∈ eventTypes)) ∧
    (∀ (b : List UInt8) (pushed : List Event) (n : Nat),
      parseBuffer raw out = .ok (pushed, .ok n) →
      ∃ more res, parseBuffer b [] = .ok (more, res) ∧
        parseBuffer (raw ++ b) out = .ok (pushed ++ more, res.map (n + ·))) := by
  refine ⟨?_, ?_, ?_, ?_⟩
  · intro fuel hfuel
    exact parseLoop_fuel (by omega) out 0
  · obtain ⟨pushed, res, hres⟩ := parseBuffer_returns raw out
    refine ⟨pushed, res, hres, ?_, ?_⟩
    · rintro ⟨n, rfl⟩
      exact messages_of_ok hres
    · rintro ⟨msgs, rfl, hall⟩
      rw [parseBuffer_messages hall] at hres
      exact ⟨_, (Prod.mk.inj (Except.ok.inj hres)).2.symm⟩
  · rintro msgs rfl hall
    refine ⟨parseBuffer_messages hall out, ?_⟩
    intro m hm
    exact ⟨dispatch_whole (hall m hm), messageEvent_isSome (hall m hm)⟩
  · intro b pushed n hok
    obtain ⟨msgs, rfl, hall⟩ := messages_of_ok hok
    rw [parseBuffer_messages hall] at hok
    obtain ⟨rfl, hn⟩ := Prod.mk.inj (Except.ok.inj hok)
    obtain ⟨more, res, hb, hafter⟩ := parseLoop_from b
      (out ++ msgs.filterMap messageEvent) (0 + (msgs.filterMap messageEvent).length)
    refine ⟨more, res, hb, ?_⟩
    rw [parseBuffer, parseLoop_messages hall, hafter, Nat.zero_add, Except.ok.inj hn]

/-- A delete message, and the same with a byte of no known type behind it. -/
theorem parseBuffer_exact_delete :
    parseBuffer (0x44 :: List.replicate 18 0) [] =
        .ok ([messageEvent (0x44 :: List.replicate 18 0)].filterMap id, .ok 1) ∧
      parseBuffer (0x44 :: List.replicate 18 0 ++ [0xff]) [] =
        .ok ([messageEvent (0x44 :: List.replicate 18 0)].filterMap id,
          .error "unknown ITCH message type") := by
  have hwhole : ∀ m ∈ [(0x44 :: List.replicate 18 0 : List UInt8)], WholeMessage m := by
    intro m hm
    rw [List.mem_singleton.mp hm]
    exact ⟨0x44, rfl, rfl⟩
  have hone := ((parseBuffer_exact (0x44 :: List.replicate 18 0) []).2.2.1 _ rfl hwhole).1
  obtain ⟨more, res, hb, hab⟩ := (parseBuffer_exact (0x44 :: List.replicate 18 0) []).2.2.2
    [0xff] _ _ hone
  have hstuck : parseBuffer [0xff] [] = .ok ([], .error "unknown ITCH message type") := rfl
  rw [hstuck] at hb
  obtain ⟨rfl, rfl⟩ := Prod.mk.inj (Except.ok.inj hb)
  exact ⟨hone, hab⟩

end Flowlab.Replay.Itch
