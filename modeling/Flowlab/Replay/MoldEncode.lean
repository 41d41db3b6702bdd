import Flowlab.Replay.MoldUdp

namespace Flowlab.Replay

open Framework

/-- One message as the datagram carries it: its length and its bytes. -/
def encodeRecord (m : List UInt8) : List UInt8 := Bytes.toBe 2 m.length ++ m

/-- The datagram with the session, the number of the first message and the messages. -/
def MoldFrame.encode (session : List UInt8) (firstSeq : UInt64) (msgs : List (List UInt8)) :
    List UInt8 :=
  session ++ Bytes.toBe 8 firstSeq.toNat ++ Bytes.toBe 2 msgs.length ++ msgs.flatMap encodeRecord

/-- Messages with the numbers they get from `seq` on. -/
def numbered : UInt64 → List (List UInt8) → List Message
  | _, [] => []
  | seq, m :: msgs => (seq, m) :: numbered (seq + 1) msgs

theorem numbered_get (seq : UInt64) (msgs : List (List UInt8)) (i : Nat) :
    (numbered seq msgs)[i]? = msgs[i]?.map (fun m => (seq + UInt64.ofNat i, m)) := by
  induction msgs generalizing seq i with
  | nil => rfl
  | cons m msgs ih =>
    cases i with
    | zero => simp [numbered]
    | succ i =>
      rw [numbered, List.getElem?_cons_succ, List.getElem?_cons_succ, ih, UInt64.ofNat_add]
      congr 1
      funext m
      rw [UInt64.add_assoc, UInt64.add_comm 1]
      rfl

theorem length_encodeRecord (m : List UInt8) : (encodeRecord m).length = 2 + m.length := by
  rw [encodeRecord, List.length_append, Bytes.length_toBe]

theorem ofBe_encodeRecord {m : List UInt8} (h : m.length < 65536) (z : List UInt8) :
    Bytes.ofBe ((encodeRecord m ++ z).take 2) = m.length := by
  have htake : (encodeRecord m ++ z).take 2 = Bytes.toBe 2 m.length := by
    rw [encodeRecord, List.append_assoc, List.take_append_of_le_length (by simp),
      List.take_of_length_le (by simp)]
  rw [htake, Bytes.ofBe_toBe 2 m.length (by omega)]

/-- Encoded records are whole, and cut apart they are the messages. -/
theorem records_encode (seq : UInt64) {msgs : List (List UInt8)}
    (h : ∀ m ∈ msgs, m.length < 65536) :
    WholeRecords msgs.length (msgs.flatMap encodeRecord) ∧
      recordsOf msgs.length seq (msgs.flatMap encodeRecord) = numbered seq msgs := by
  induction msgs generalizing seq with
  | nil => exact ⟨trivial, rfl⟩
  | cons m msgs ih =>
    obtain ⟨hw, hr⟩ := ih (seq + 1) (fun x hx => h x (List.mem_cons_of_mem m hx))
    have hlen := ofBe_encodeRecord (h m (by simp)) (msgs.flatMap encodeRecord)
    have hrest : (encodeRecord m ++ msgs.flatMap encodeRecord).drop (2 + m.length) =
        msgs.flatMap encodeRecord := by
      rw [← length_encodeRecord, List.drop_left]
    have hbody : ((encodeRecord m ++ msgs.flatMap encodeRecord).drop 2).take m.length = m := by
      have hsplit : encodeRecord m ++ msgs.flatMap encodeRecord =
          Bytes.toBe 2 m.length ++ (m ++ msgs.flatMap encodeRecord) := by
        rw [encodeRecord, List.append_assoc]
      rw [hsplit]
      exact Bytes.slice_mid_of (by simp) rfl
    rw [List.flatMap_cons, List.length_cons]
    constructor
    · rw [WholeRecords, hlen, hrest, List.length_append, length_encodeRecord]
      exact ⟨by omega, by omega, hw⟩
    · rw [recordsOf, hlen, hrest, hbody, hr, numbered]

section

variable {session : List UInt8} {firstSeq : UInt64} {msgs : List (List UInt8)}

/-- A count strictly between 0 and 0xffff is neither a heartbeat nor the end of the session. -/
theorem not_special (h0 : 0 < msgs.length) (hn : msgs.length < 65535) :
    (UInt16.ofNat msgs.length == MoldHeader.heartbeat) = false ∧
      (UInt16.ofNat msgs.length == MoldHeader.endOfSession) = false := by
  have hdata : ∀ c : UInt16, (c.toNat = 0 ∨ c.toNat = 65535) →
      UInt16.ofNat msgs.length ≠ c := by
    intro c hc he
    have hval := congrArg UInt16.toNat he
    rw [UInt16.toNat_ofNat', Nat.mod_eq_of_lt (show msgs.length < 2 ^ 16 by omega)] at hval
    omega
  exact ⟨beq_eq_false_iff_ne.mpr (hdata _ (Or.inl rfl)),
    beq_eq_false_iff_ne.mpr (hdata _ (Or.inr rfl))⟩

theorem parse_encode (hs : session.length = 10) (h0 : 0 < msgs.length)
    (hn : msgs.length < 65535) :
    MoldFrame.parse (MoldFrame.encode session firstSeq msgs) =
      .ok ⟨⟨session, firstSeq, UInt16.ofNat msgs.length⟩, msgs.flatMap encodeRecord⟩ := by
  have hlen : (MoldFrame.encode session firstSeq msgs).length =
      20 + (msgs.flatMap encodeRecord).length := by
    simp only [MoldFrame.encode, List.length_append, Bytes.length_toBe, hs]
  have htake : (MoldFrame.encode session firstSeq msgs).take 10 = session := by
    rw [MoldFrame.encode, List.append_assoc, List.append_assoc, ← hs, List.take_left]
  have hseq : Bytes.slice (MoldFrame.encode session firstSeq msgs) 10 8 =
      Bytes.toBe 8 firstSeq.toNat := by
    rw [MoldFrame.encode, List.append_assoc, List.append_assoc]
    exact Bytes.slice_mid_of hs.symm (by simp)
  have hcount : Bytes.slice (MoldFrame.encode session firstSeq msgs) 18 2 =
      Bytes.toBe 2 msgs.length := by
    rw [MoldFrame.encode, List.append_assoc]
    exact Bytes.slice_mid_of (by simp [hs]) (by simp)
  have hdrop : (MoldFrame.encode session firstSeq msgs).drop MoldHeader.size =
      msgs.flatMap encodeRecord := by
    have hz : MoldHeader.size =
        (session ++ Bytes.toBe 8 firstSeq.toNat ++ Bytes.toBe 2 msgs.length).length := by
      simp [hs, MoldHeader.size]
    rw [MoldFrame.encode, hz, List.drop_left]
  have hfirst : Bytes.ofBe (Bytes.toBe 8 firstSeq.toNat) = firstSeq.toNat :=
    Bytes.ofBe_toBe 8 _ firstSeq.toNat_lt
  have hmany : Bytes.ofBe (Bytes.toBe 2 msgs.length) = msgs.length :=
    Bytes.ofBe_toBe 2 _ (by omega)
  obtain ⟨hbeat, hend⟩ := not_special h0 hn
  rw [MoldFrame.parse, hlen, if_neg (by simp [MoldHeader.size])]
  simp only [htake, hseq, hcount, hdrop, hfirst, hmany, UInt64.ofNat_toNat,
    MoldHeader.isHeartbeat, MoldHeader.isEndOfSession, hbeat, hend]
  rfl

theorem declared_encode (h0 : 0 < msgs.length) (hn : msgs.length < 65535) :
    MoldFrame.declared ⟨⟨session, firstSeq, UInt16.ofNat msgs.length⟩,
      msgs.flatMap encodeRecord⟩ = msgs.length := by
  obtain ⟨hbeat, hend⟩ := not_special h0 hn
  simp only [MoldFrame.declared, MoldHeader.isHeartbeat, MoldHeader.isEndOfSession, hbeat, hend]
  rw [UInt16.toNat_ofNat', Nat.mod_eq_of_lt (show msgs.length < 2 ^ 16 by omega)]
  rfl

end

/-- A datagram laid out as documented is parsed into its header, and its messages come out as they
went in, numbered from the first, and then no more. -/
theorem mold_roundtrip (session : List UInt8) (firstSeq : UInt64) (msgs : List (List UInt8))
    (hs : session.length = 10) (h0 : 0 < msgs.length) (hn : msgs.length < 65535)
    (hlen : ∀ m ∈ msgs, m.length < 65536) (hseq : firstSeq.toNat + msgs.length < 2 ^ 64) :
    ∃ f, MoldFrame.parse (MoldFrame.encode session firstSeq msgs) = .ok f ∧
      f.header.session = session ∧ f.header.sequence = firstSeq ∧
      f.header.count.toNat = msgs.length ∧
      ∃ items, MoldMessageIter.collect (msgs.length + 1) f.messages = some items ∧
        items.length = msgs.length ∧
        ∀ i m, msgs[i]? = some m → ∃ seq : UInt64, seq.toNat = firstSeq.toNat + i ∧
          items[i]? = some (.ok (seq, m)) := by
  obtain ⟨hw, hr⟩ := records_encode firstSeq hlen
  have hcount : (UInt16.ofNat msgs.length).toNat = msgs.length := by
    rw [UInt16.toNat_ofNat', Nat.mod_eq_of_lt (show msgs.length < 2 ^ 16 by omega)]
  have hdecl : MoldFrame.declared ⟨⟨session, firstSeq, UInt16.ofNat msgs.length⟩,
      msgs.flatMap encodeRecord⟩ = msgs.length := declared_encode h0 hn
  refine ⟨_, parse_encode hs h0 hn, rfl, rfl, hcount, (numbered firstSeq msgs).map .ok, ?_, ?_, ?_⟩
  · rw [MoldFrame.collect_wellFormed (Or.inr (Or.inr (by rw [hcount]; exact hw)))
      (by rw [hdecl]; omega), MoldFrame.records, hdecl, hr]
  · rw [List.length_map, ← hr, length_recordsOf]
  · intro i m hi
    obtain ⟨hlt, _⟩ := List.getElem?_eq_some_iff.mp hi
    refine ⟨firstSeq + UInt64.ofNat i, ?_, ?_⟩
    · rw [UInt64.toNat_add, UInt64.toNat_ofNat', Nat.mod_eq_of_lt (show i < 2 ^ 64 by omega)]
      exact Nat.mod_eq_of_lt (show firstSeq.toNat + i < 2 ^ 64 by omega)
    · rw [List.getElem?_map, numbered_get, hi]
      rfl

/-- Two messages, the first of them empty. -/
theorem mold_roundtrip_two :
    ∃ f, MoldFrame.parse (MoldFrame.encode (List.replicate 10 0x20) 100 [[], [7, 8]]) = .ok f ∧
      f.header.count.toNat = 2 ∧
      ∃ items, MoldMessageIter.collect 3 f.messages = some items ∧ items.length = 2 := by
  obtain ⟨f, hp, _, _, hc, items, hi, hl, _⟩ := mold_roundtrip (List.replicate 10 0x20) 100
    [[], [7, 8]] (by decide) (by decide) (by decide) (by decide) (by decide)
  exact ⟨f, hp, hc, items, hi, hl⟩

end Flowlab.Replay
