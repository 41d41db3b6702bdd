import Flowlab.Replay.Ring

namespace Flowlab.Replay

open Framework

/-- The offset of the byte at position `i` of the stream. -/
def slot (c : Capacity) (i : Nat) : Nat := dataOffset + i % c.size.toNat

theorem slot_ne {c : Capacity} {i j : Nat} (hij : i < j) (hj : j < i + c.size.toNat) :
    slot c i ≠ slot c j := by
  have hne := mod_ne_of_window hij hj
  simp only [slot]
  omega

/-- The free-running index of stream position `i` selects the cell `i % capacity`, also after it
passed `u64::MAX`. -/
theorem ofNat_and_mask (c : Capacity) (i : Nat) :
    (UInt64.ofNat i &&& c.mask).toNat = i % c.size.toNat := by
  rw [c.and_mask, UInt64.toNat_ofNat', Nat.mod_mod_of_dvd _ c.size_dvd]

theorem toNat_distance {a b : Nat} (hab : a ≤ b) (hlt : b - a < 2 ^ 64) :
    (UInt64.ofNat b - UInt64.ofNat a).toNat = b - a := by
  rw [UInt64.toNat_sub, UInt64.toNat_ofNat', UInt64.toNat_ofNat']
  omega

theorem mem_stores {c : Capacity} {lang : Lang} {w : Nat} {batch : List UInt8} {b : UInt8} {a : Nat}
    (hlen : batch.length ≤ c.size.toNat) :
    (b, a) ∈ stores c lang (UInt64.ofNat w) batch ↔
      ∃ j, batch[j]? = some b ∧ a = slot c (w + j) := by
  have hstart := Nat.mod_lt w c.size_pos
  rw [stores_eq, rustStores, ofNat_and_mask, mem_wrapped hstart hlen]
  simp only [slot, Nat.mod_add_mod]

theorem mem_readLoads {c : Capacity} {r n j a : Nat} (hlen : n ≤ c.size.toNat) :
    (j, a) ∈ readLoads c (UInt64.ofNat r) n ↔ j < n ∧ a = slot c (r + j) := by
  have hstart := Nat.mod_lt r c.size_pos
  rw [readLoads, ofNat_and_mask, mem_wrapped hstart (by simpa using hlen)]
  simp only [slot, Nat.mod_add_mod]
  constructor
  · intro hload
    obtain ⟨i, hi, rfl⟩ := hload
    obtain ⟨hin, rfl⟩ := List.getElem?_eq_some_iff.mp hi
    simpa using hin
  · intro hload
    obtain ⟨hj, rfl⟩ := hload
    exact ⟨j, by simp [hj], rfl⟩

/-- What holds of the writer when `w` bytes are published and `r` consumed. The index it loaded from
the reader may be an old one, which leaves it less room than there is. -/
def WriterInv (c : Capacity) (mem : Nat → UInt8) (w r : Nat) : Writer → Prop
  | .idle _ => True
  | .begun _ batch => batch.length < 2 ^ 64
  | .loadedWrite _ batch wi => batch.length < 2 ^ 64 ∧ wi = UInt64.ofNat w
  | .loaded _ batch wi ri => batch.length < 2 ^ 64 ∧ wi = UInt64.ofNat w ∧
      ∃ r₀, ri = UInt64.ofNat r₀ ∧ r₀ ≤ r ∧ w ≤ r₀ + c.size.toNat
  | .copying batch wi pending => wi = UInt64.ofNat w ∧ w + batch.length ≤ r + c.size.toNat ∧
      (∀ b a, (b, a) ∈ pending → ∃ j, batch[j]? = some b ∧ a = slot c (w + j)) ∧
      (∀ j b, batch[j]? = some b →
        (b, slot c (w + j)) ∈ pending ∨ mem (slot c (w + j)) = b)

/-- What holds of the reader when `log` is published and `r` of its bytes are consumed. -/
def ReaderInv (c : Capacity) (log : List UInt8) (r : Nat) : Reader → Prop
  | .idle _ => True
  | .begun _ => True
  | .loadedWrite _ wi => ∃ w₀, wi = UInt64.ofNat w₀ ∧ r ≤ w₀ ∧ w₀ ≤ log.length
  | .loaded _ wi ri => ri = UInt64.ofNat r ∧
      ∃ w₀, wi = UInt64.ofNat w₀ ∧ r ≤ w₀ ∧ w₀ ≤ log.length
  | .copying dst n pending => n ≤ dst.length ∧ r + n ≤ log.length ∧
      (∀ j a, (j, a) ∈ pending → j < n ∧ a = slot c (r + j)) ∧
      (∀ j, j < n → (j, slot c (r + j)) ∈ pending ∨ dst[j]? = log[r + j]?)

namespace Ring

/-- The unread bytes of the log lie in their cells, and each side is where its loads put it. -/
structure Inv (c : Capacity) (s : Ring) : Prop where
  consumed : s.consumed <+: s.log
  room : s.log.length ≤ s.consumed.length + c.size.toNat
  writeIdx : s.writeIdx = UInt64.ofNat s.log.length
  readIdx : s.readIdx = UInt64.ofNat s.consumed.length
  live : ∀ i, s.consumed.length ≤ i → i < s.log.length → s.log[i]? = some (s.mem (slot c i))
  writer : WriterInv c s.mem s.log.length s.consumed.length s.writer
  reader : ReaderInv c s.log s.consumed.length s.reader

theorem inv_create (c : Capacity) (mem : Nat → UInt8) : Inv c (create mem) where
  consumed := List.prefix_refl _
  room := Nat.zero_le _
  writeIdx := rfl
  readIdx := rfl
  live := fun i _ hi => absurd hi (Nat.not_lt_zero i)
  writer := trivial
  reader := trivial

namespace Inv

variable {c : Capacity} {s : Ring}

theorem setWriter (h : Inv c s) {p : Writer}
    (hp : WriterInv c s.mem s.log.length s.consumed.length p) : Inv c { s with writer := p } :=
  { consumed := h.consumed, room := h.room, writeIdx := h.writeIdx, readIdx := h.readIdx,
    live := h.live, writer := hp, reader := h.reader }

theorem setReader (h : Inv c s) {p : Reader} (hp : ReaderInv c s.log s.consumed.length p) :
    Inv c { s with reader := p } :=
  { consumed := h.consumed, room := h.room, writeIdx := h.writeIdx, readIdx := h.readIdx,
    live := h.live, writer := h.writer, reader := hp }

theorem distance (h : Inv c s) :
    (s.writeIdx - s.readIdx).toNat = s.log.length - s.consumed.length := by
  have hle := h.consumed.length_le
  have hroom := h.room
  have hsize := c.size.toNat_lt
  rw [h.writeIdx, h.readIdx]
  exact toNat_distance hle (by omega)

end Inv

end Ring

theorem writerInv_check {c : Capacity} {mem : Nat → UInt8} {w r : Nat} {lang : Lang}
    {batch : List UInt8} {wi ri : UInt64} (hle : r ≤ w)
    (h : WriterInv c mem w r (.loaded lang batch wi ri)) :
    WriterInv c mem w r (Ring.writeCheck c lang batch wi ri) := by
  obtain ⟨hlen, rfl, r₀, rfl, hr₀, hroom⟩ := h
  have hsize := c.size.toNat_lt
  have hdist : (UInt64.ofNat w - UInt64.ofNat r₀).toNat = w - r₀ :=
    toNat_distance (by omega) (by omega)
  have hfree : (c.size - (UInt64.ofNat w - UInt64.ofNat r₀)).toNat =
      c.size.toNat - (w - r₀) := by
    rw [UInt64.toNat_sub_of_le _ _ (by rw [UInt64.le_iff_toNat_le, hdist]; omega), hdist]
  simp only [Ring.writeCheck]
  split_ifs with hfull
  · trivial
  · rw [gt_iff_lt, UInt64.lt_iff_toNat_lt, hfree, UInt64.toNat_ofNat_of_lt' hlen] at hfull
    have hfit : batch.length ≤ c.size.toNat := by omega
    refine ⟨rfl, by omega, ?_, ?_⟩
    · intro b a hba
      exact (mem_stores hfit).mp hba
    · intro j b hb
      exact .inl ((mem_stores hfit).mpr ⟨j, hb, rfl⟩)

theorem writerInv_byte {c : Capacity} {mem : Nat → UInt8} {w r : Nat} {batch : List UInt8}
    {wi : UInt64} {pending : List Store} {i : Nat} {b : UInt8} {a : Nat} (hle : r ≤ w)
    (h : WriterInv c mem w r (.copying batch wi pending)) (hi : pending[i]? = some (b, a)) :
    WriterInv c (Function.update mem a b) w r (.copying batch wi (pending.eraseIdx i)) := by
  obtain ⟨hwi, hfit, hplan, hdone⟩ := h
  obtain ⟨j, hj, rfl⟩ := hplan b a (List.mem_of_getElem? hi)
  refine ⟨hwi, hfit, ?_, ?_⟩
  · intro b' a' hmem
    exact hplan b' a' (List.mem_of_mem_eraseIdx hmem)
  · intro j' b' hj'
    by_cases heq : slot c (w + j') = slot c (w + j)
    · right
      have hjj : j' = j := by
        have hlt := (List.getElem?_eq_some_iff.mp hj).1
        have hlt' := (List.getElem?_eq_some_iff.mp hj').1
        rcases Nat.lt_trichotomy j j' with hl | he | hg
        · exact absurd heq.symm (slot_ne (by omega) (by omega))
        · exact he.symm
        · exact absurd heq (slot_ne (by omega) (by omega))
      subst hjj
      rw [Function.update_self]
      exact Option.some.inj (hj.symm.trans hj')
    · rw [Function.update_of_ne heq]
      rcases hdone j' b' hj' with hpend | hmem
      · left
        obtain ⟨i', hi'⟩ := List.getElem?_of_mem hpend
        refine List.mem_eraseIdx_iff_getElem?.mpr ⟨i', ?_, hi'⟩
        rintro rfl
        rw [hi] at hi'
        exact heq (congrArg Prod.snd (Option.some.inj hi')).symm
      · exact .inr hmem

theorem readerInv_check {c : Capacity} {log : List UInt8} {r : Nat} {dst : List UInt8}
    {wi ri : UInt64} (hroom : log.length ≤ r + c.size.toNat)
    (h : ReaderInv c log r (.loaded dst wi ri)) :
    ReaderInv c log r (Ring.readCheck c dst wi ri) := by
  obtain ⟨rfl, w₀, rfl, hle, hw₀⟩ := h
  have hsize := c.size.toNat_lt
  have hdist : (UInt64.ofNat w₀ - UInt64.ofNat r).toNat = w₀ - r := toNat_distance hle (by omega)
  simp only [Ring.readCheck, hdist]
  generalize hn : (if w₀ - r > dst.length then dst.length else w₀ - r) = n
  have hmin : n ≤ dst.length ∧ n ≤ w₀ - r := by
    split_ifs at hn <;> omega
  split_ifs with hzero
  · trivial
  · have hfit : n ≤ c.size.toNat := by omega
    refine ⟨hmin.1, by omega, ?_, ?_⟩
    · intro j a hja
      exact (mem_readLoads hfit).mp hja
    · intro j hj
      exact .inl ((mem_readLoads hfit).mpr ⟨hj, rfl⟩)

theorem readerInv_byte {c : Capacity} {mem : Nat → UInt8} {log : List UInt8} {r n : Nat}
    {dst : List UInt8} {pending : List Load} {i j a : Nat}
    (hlive : ∀ k, r ≤ k → k < log.length → log[k]? = some (mem (slot c k)))
    (h : ReaderInv c log r (.copying dst n pending)) (hi : pending[i]? = some (j, a)) :
    ReaderInv c log r (.copying (dst.set j (mem a)) n (pending.eraseIdx i)) := by
  obtain ⟨hdst, hlog, hplan, hdone⟩ := h
  obtain ⟨hj, rfl⟩ := hplan j a (List.mem_of_getElem? hi)
  refine ⟨by simpa using hdst, hlog, ?_, ?_⟩
  · intro j' a' hmem
    exact hplan j' a' (List.mem_of_mem_eraseIdx hmem)
  · intro j' hj'
    by_cases heq : j' = j
    · subst heq
      right
      rw [List.getElem?_set_self (by omega), hlive (r + j') (by omega) (by omega)]
    · rw [List.getElem?_set_ne (fun he => heq he.symm)]
      rcases hdone j' hj' with hpend | hcopied
      · left
        obtain ⟨i', hi'⟩ := List.getElem?_of_mem hpend
        refine List.mem_eraseIdx_iff_getElem?.mpr ⟨i', ?_, hi'⟩
        rintro rfl
        rw [hi] at hi'
        exact heq (congrArg Prod.fst (Option.some.inj hi')).symm
      · exact .inr hcopied

/-- Publishing more leaves a reader's loads in range. -/
theorem ReaderInv.publish {c : Capacity} {log : List UInt8} {r : Nat} {p : Reader}
    (h : ReaderInv c log r p) (batch : List UInt8) : ReaderInv c (log ++ batch) r p := by
  cases p with
  | idle => trivial
  | begun => trivial
  | loadedWrite dst wi =>
    obtain ⟨w₀, hwi, hle, hw₀⟩ := h
    exact ⟨w₀, hwi, hle, by rw [List.length_append]; omega⟩
  | loaded dst wi ri =>
    obtain ⟨hri, w₀, hwi, hle, hw₀⟩ := h
    exact ⟨hri, w₀, hwi, hle, by rw [List.length_append]; omega⟩
  | copying dst n pending =>
    obtain ⟨hdst, hlog, hplan, hdone⟩ := h
    refine ⟨hdst, by rw [List.length_append]; omega, hplan, ?_⟩
    intro j hj
    rw [List.getElem?_append_left (by omega)]
    exact hdone j hj

/-- Consuming more leaves a writer's room in place. -/
theorem WriterInv.advance {c : Capacity} {mem : Nat → UInt8} {w r : Nat} {p : Writer}
    (h : WriterInv c mem w r p) (n : Nat) : WriterInv c mem w (r + n) p := by
  cases p with
  | idle => trivial
  | begun => exact h
  | loadedWrite => exact h
  | loaded lang batch wi ri =>
    obtain ⟨hlen, hwi, r₀, hri, hr₀, hroom⟩ := h
    exact ⟨hlen, hwi, r₀, hri, by omega, hroom⟩
  | copying batch wi pending =>
    obtain ⟨hwi, hfit, hplan, hdone⟩ := h
    exact ⟨hwi, by omega, hplan, hdone⟩

namespace Ring

variable {c : Capacity} {s t : Ring}

theorem Inv.writeByte (h : Inv c s) {batch : List UInt8} {wi : UInt64} {pending : List Store}
    {i : Nat} {st : Store} (hp : s.writer = .copying batch wi pending)
    (hi : pending[i]? = some st) :
    Inv c { s with mem := Function.update s.mem st.2 st.1
                   writer := .copying batch wi (pending.eraseIdx i) } := by
  have hle := h.consumed.length_le
  have hw := h.writer
  rw [hp] at hw
  refine { consumed := h.consumed, room := h.room, writeIdx := h.writeIdx, readIdx := h.readIdx,
           live := ?_, writer := writerInv_byte hle hw hi, reader := h.reader }
  intro k hk hlt
  obtain ⟨-, hfit, hplan, -⟩ := hw
  obtain ⟨j, hj, ha⟩ := hplan st.1 st.2 (List.mem_of_getElem? hi)
  have hjlt := (List.getElem?_eq_some_iff.mp hj).1
  have hk' : s.consumed.length ≤ k := hk
  have hlt' : k < s.log.length := hlt
  have hne : slot c k ≠ st.2 := ha ▸ slot_ne (by omega) (by omega)
  show s.log[k]? = some (Function.update s.mem st.2 st.1 (slot c k))
  rw [Function.update_of_ne hne]
  exact h.live k hk hlt

theorem Inv.writePublish (h : Inv c s) {batch : List UInt8} {wi : UInt64}
    (hp : s.writer = .copying batch wi []) :
    Inv c { s with writeIdx := wi + UInt64.ofNat batch.length
                   writer := .idle (.ok ())
                   written := s.written ++ [batch] } := by
  have hw := h.writer
  rw [hp] at hw
  obtain ⟨rfl, hfit, -, hdone⟩ := hw
  generalize ht : { s with writeIdx := UInt64.ofNat s.log.length + UInt64.ofNat batch.length
                           writer := Writer.idle (.ok ())
                           written := s.written ++ [batch] : Ring } = t
  have hlog : t.log = s.log ++ batch := by
    subst ht
    exact List.flatten_concat
  have hlen : t.log.length = s.log.length + batch.length := by rw [hlog, List.length_append]
  have hcons : t.consumed = s.consumed := by rw [← ht]
  have hmem : t.mem = s.mem := by rw [← ht]
  constructor
  case consumed => exact hcons ▸ hlog ▸ h.consumed.trans (List.prefix_append _ _)
  case room => rw [hlen, hcons]; exact hfit
  case writeIdx => rw [hlen, UInt64.ofNat_add, ← ht]
  case readIdx => rw [hcons, ← ht]; exact h.readIdx
  case live =>
    rw [hcons, hlen, hlog, hmem]
    intro k hk hlt
    rcases Nat.lt_or_ge k s.log.length with hold | hnew
    · rw [List.getElem?_append_left hold]
      exact h.live k hk hold
    · rw [List.getElem?_append_right hnew]
      have hb := List.getElem?_eq_getElem (l := batch) (i := k - s.log.length) (by omega)
      rcases hdone _ _ hb with hpend | hbyte
      · exact absurd hpend (by simp)
      · rw [hb, ← hbyte, Nat.add_sub_cancel' hnew]
  case writer => rw [← ht]; trivial
  case reader =>
    rw [hlog, hcons, show t.reader = s.reader by rw [← ht]]
    exact h.reader.publish batch

/-- With nothing left to copy, the buffer holds the next bytes of the log. -/
theorem take_dst {log dst : List UInt8} {r n : Nat}
    (h : ReaderInv c log r (.copying dst n [])) : dst.take n = (log.drop r).take n := by
  obtain ⟨hdst, hlog, -, hdone⟩ := h
  apply List.ext_getElem?
  intro j
  rw [List.getElem?_take, List.getElem?_take, List.getElem?_drop]
  split_ifs with hj
  · rcases hdone j hj with hpend | hcopied
    · exact absurd hpend (by simp)
    · exact hcopied
  · rfl

theorem Inv.readAdvance (h : Inv c s) {dst : List UInt8} {n : Nat}
    (hp : s.reader = .copying dst n []) :
    Inv c { s with readIdx := s.readIdx + UInt64.ofNat n
                   reader := .idle n
                   consumed := s.consumed ++ dst.take n } := by
  have hr := h.reader
  rw [hp] at hr
  have htake := take_dst hr
  obtain ⟨hdst, hlog, -, -⟩ := hr
  have hlen : (s.consumed ++ dst.take n).length = s.consumed.length + n := by
    rw [List.length_append, List.length_take, Nat.min_eq_left hdst]
  have hroom := h.room
  constructor
  case consumed =>
    rw [htake]
    have hpre : s.consumed = s.log.take s.consumed.length := List.prefix_iff_eq_take.mp h.consumed
    show s.consumed ++ (s.log.drop s.consumed.length).take n <+: s.log
    rw [hpre, List.length_take, Nat.min_eq_left h.consumed.length_le, ← List.take_add]
    exact List.take_prefix _ _
  case room =>
    show s.log.length ≤ (s.consumed ++ dst.take n).length + c.size.toNat
    omega
  case writeIdx => exact h.writeIdx
  case readIdx =>
    show s.readIdx + UInt64.ofNat n = UInt64.ofNat (s.consumed ++ dst.take n).length
    rw [hlen, UInt64.ofNat_add, h.readIdx]
  case live =>
    intro k hk hlt
    have hk' : (s.consumed ++ dst.take n).length ≤ k := hk
    exact h.live k (by omega) hlt
  case writer =>
    show WriterInv c s.mem s.log.length (s.consumed ++ dst.take n).length s.writer
    rw [hlen]
    exact h.writer.advance n
  case reader => trivial

theorem inv_stepWrite (h : Inv c s) {a : Act} (ht : s.stepWrite c a = some t) : Inv c t := by
  have hw := h.writer
  have hle := h.consumed.length_le
  cases a <;> simp only [stepWrite, reduceCtorEq] at ht
  case writeBegin lang batch =>
    split at ht
    · split_ifs at ht with hlen
      cases ht
      exact h.setWriter hlen
    · cases ht
  case writeLoadWrite =>
    split at ht
    · rename_i lang batch hp
      cases ht
      rw [hp] at hw
      exact h.setWriter ⟨hw, h.writeIdx⟩
    · cases ht
  case writeLoadRead =>
    split at ht
    · rename_i lang batch wi hp
      cases ht
      rw [hp] at hw
      exact h.setWriter ⟨hw.1, hw.2, _, h.readIdx, Nat.le_refl _, h.room⟩
    · cases ht
  case writeCheck =>
    split at ht
    · rename_i lang batch wi ri hp
      cases ht
      rw [hp] at hw
      exact h.setWriter (writerInv_check hle hw)
    · cases ht
  case writeByte i =>
    split at ht
    · rename_i batch wi pending hp
      obtain ⟨st, hst, rfl⟩ := Option.map_eq_some_iff.mp ht
      exact h.writeByte hp hst
    · cases ht
  case writePublish =>
    split at ht
    · rename_i batch wi hp
      cases ht
      exact h.writePublish hp
    · cases ht

theorem inv_stepRead (h : Inv c s) {a : Act} (ht : s.stepRead c a = some t) : Inv c t := by
  have hr := h.reader
  cases a <;> simp only [stepRead, reduceCtorEq] at ht
  case readBegin dst =>
    split at ht
    · cases ht
      exact h.setReader trivial
    · cases ht
  case readLoadWrite =>
    split at ht
    · cases ht
      exact h.setReader ⟨_, h.writeIdx, h.consumed.length_le, Nat.le_refl _⟩
    · cases ht
  case readLoadRead =>
    split at ht
    · rename_i dst wi hp
      cases ht
      rw [hp] at hr
      exact h.setReader ⟨h.readIdx, hr⟩
    · cases ht
  case readCheck =>
    split at ht
    · rename_i dst wi ri hp
      cases ht
      rw [hp] at hr
      exact h.setReader (readerInv_check h.room hr)
    · cases ht
  case readByte i =>
    split at ht
    · rename_i dst n pending hp
      obtain ⟨ld, hld, rfl⟩ := Option.map_eq_some_iff.mp ht
      rw [hp] at hr
      exact h.setReader (readerInv_byte h.live hr hld)
    · cases ht
  case readAdvance =>
    split at ht
    · rename_i dst n hp
      cases ht
      exact h.readAdvance hp
    · cases ht

theorem inv_step (h : Inv c s) {a : Act} (ht : s.step c a = some t) : Inv c t := by
  simp only [step] at ht
  split_ifs at ht
  · exact inv_stepRead h ht
  · exact inv_stepWrite h ht

/-- The invariant holds after every interleaving. -/
theorem inv_run (h : Inv c s) {acts : List Act} (ht : s.run c acts = some t) : Inv c t := by
  induction acts generalizing s with
  | nil => exact Option.some.inj ht ▸ h
  | cons a acts ih =>
    rw [run_cons] at ht
    obtain ⟨u, hu, hrest⟩ := Option.bind_eq_some_iff.mp ht
    exact ih (inv_step h hu) hrest

/-- Between calls, or past the test for room. -/
def Settled : Writer → Prop
  | .idle _ => True
  | .copying _ _ _ => True
  | _ => False

/-- A writer step inside a call either only moves the writer on, or leaves it settled. -/
theorem stepWrite_moves {a : Act} (hb : a.isWriteBegin = false) (ht : s.stepWrite c a = some t) :
    (¬ Settled s.writer ∧ t = { s with writer := t.writer }) ∨ Settled t.writer := by
  cases a <;> simp only [stepWrite, reduceCtorEq] at ht
  case writeBegin => cases hb
  case writeLoadWrite =>
    split at ht
    · rename_i lang batch hp
      cases ht
      exact .inl ⟨by simp [hp, Settled], rfl⟩
    · cases ht
  case writeLoadRead =>
    split at ht
    · rename_i lang batch wi hp
      cases ht
      exact .inl ⟨by simp [hp, Settled], rfl⟩
    · cases ht
  case writeCheck =>
    split at ht
    · cases ht
      right
      simp only [Ring.writeCheck]
      split_ifs <;> trivial
    · cases ht
  case writeByte i =>
    split at ht
    · obtain ⟨st, hst, rfl⟩ := Option.map_eq_some_iff.mp ht
      exact .inr trivial
    · cases ht
  case writePublish =>
    split at ht
    · cases ht
      exact .inr trivial
    · cases ht

/-- The reader does not see where the writer stands. -/
theorem stepRead_setWriter (c : Capacity) (s : Ring) (p : Writer) (a : Act) :
    { s with writer := p }.stepRead c a =
      (s.stepRead c a).map (fun t => { t with writer := p }) := by
  cases a <;> simp only [stepRead, Option.map_none]
  case readByte i =>
    split
    · rw [Option.map_map]
      rfl
    · rfl
  all_goals
    split <;> rfl

theorem stepRead_writer {a : Act} (ht : s.stepRead c a = some t) : t.writer = s.writer := by
  have heq := stepRead_setWriter c s s.writer a
  rw [ht, Option.map_some, Option.some.injEq] at heq
  rw [heq]

theorem settled_step {a : Act} (hb : a.isWriteBegin = false) (hs : Settled s.writer)
    (ht : s.step c a = some t) : Settled t.writer := by
  simp only [step] at ht
  split_ifs at ht
  · rw [stepRead_writer ht]
    exact hs
  · rcases stepWrite_moves hb ht with ⟨hn, -⟩ | hset
    · exact absurd hs hn
    · exact hset

theorem settled_run {acts : List Act} (hb : ∀ a ∈ acts, a.isWriteBegin = false)
    (hs : Settled s.writer) (ht : s.run c acts = some t) : Settled t.writer := by
  induction acts generalizing s with
  | nil => exact Option.some.inj ht ▸ hs
  | cons a acts ih =>
    rw [run_cons] at ht
    obtain ⟨u, hu, hrest⟩ := Option.bind_eq_some_iff.mp ht
    have hset := settled_step (hb a List.mem_cons_self) hs hu
    exact ih (fun x hx => hb x (List.mem_cons_of_mem _ hx)) hset hrest

/-- Up to its test for room a write leaves no trace: without its steps the same run is a run of the
reader alone. -/
theorem run_without_writer {acts : List Act} (hb : ∀ a ∈ acts, a.isWriteBegin = false)
    (ht : s.run c acts = some t) (hn : ¬ Settled t.writer) (p : Writer) :
    { s with writer := p }.run c (acts.filter Act.isRead) = some { t with writer := p } := by
  induction acts generalizing s with
  | nil =>
    rw [Option.some.inj ht]
    rfl
  | cons a acts ih =>
    rw [run_cons] at ht
    obtain ⟨u, hu, hrest⟩ := Option.bind_eq_some_iff.mp ht
    have hbs : ∀ x ∈ acts, x.isWriteBegin = false := fun x hx => hb x (List.mem_cons_of_mem _ hx)
    have htail := ih hbs hrest
    simp only [step] at hu
    split_ifs at hu with hread
    · rw [List.filter_cons_of_pos hread, run_cons, step, if_pos hread, stepRead_setWriter, hu]
      exact htail
    · rw [List.filter_cons_of_neg hread]
      rcases stepWrite_moves (hb a List.mem_cons_self) hu with ⟨-, heq⟩ | hset
      · rw [heq] at htail
        exact htail
      · exact absurd (settled_run hbs hset hrest) hn

theorem run_to_check {lang : Lang} {batch : List UInt8} {mid : List Act}
    (hb : ∀ a ∈ mid, a.isWriteBegin = false)
    (ht : s.run c (.writeBegin lang batch :: (mid ++ [.writeCheck])) = some t) :
    s.run c (mid.filter Act.isRead) = some { t with writer := s.writer } := by
  rw [run_cons] at ht
  obtain ⟨u, hu, hrest⟩ := Option.bind_eq_some_iff.mp ht
  rw [run_concat] at hrest
  obtain ⟨v, hv, hcheck⟩ := Option.bind_eq_some_iff.mp hrest
  have hus : { u with writer := s.writer } = s := by
    simp only [step, Act.isRead, Bool.false_eq_true, if_false, stepWrite] at hu
    split at hu
    · split_ifs at hu
      cases hu
      rfl
    · cases hu
  have hvt : ¬ Settled v.writer ∧ { v with writer := s.writer } = { t with writer := s.writer } := by
    simp only [step, Act.isRead, Bool.false_eq_true, if_false, stepWrite] at hcheck
    split at hcheck
    · rename_i hp
      cases hcheck
      exact ⟨by simp [hp, Settled], rfl⟩
    · cases hcheck
  have hrun := run_without_writer hb hv hvt.1 s.writer
  rw [hus, hvt.2] at hrun
  exact hrun

/-! What a step of the ring does to the bytes written, when no `write` begins. -/

/-- The batch of the `write` in progress. -/
def batchOf : Writer → Option (List UInt8)
  | .idle _ => none
  | .begun _ batch => some batch
  | .loadedWrite _ batch _ => some batch
  | .loaded _ batch _ _ => some batch
  | .copying batch _ _ => some batch

/-- The ring since `write(bytes)` was called on the log `log`: the call is in progress, was refused,
or has succeeded. -/
def Issued (log bytes : List UInt8) (s : Ring) : Prop :=
  (batchOf s.writer = some bytes ∧ s.log = log) ∨
  (∃ need avail, s.writer = .idle (.error (.full need avail)) ∧ avail < bytes.length ∧
    s.log = log) ∨
  (s.writer = .idle (.ok ()) ∧ s.log = log ++ bytes)

theorem Issued.log_of_ok {log bytes : List UInt8} (h : Issued log bytes s)
    (hs : s.writer = .idle (.ok ())) : s.log = log ++ bytes := by
  rcases h with ⟨hb, -⟩ | ⟨_, _, he, -⟩ | ⟨-, hlog⟩
  · rw [hs] at hb
    cases hb
  · rw [hs] at he
    cases he
  · exact hlog

theorem Issued.log_of_full {log bytes : List UInt8} {need avail : Nat} (h : Issued log bytes s)
    (hs : s.writer = .idle (.error (.full need avail))) : avail < bytes.length ∧ s.log = log := by
  rcases h with ⟨hb, -⟩ | ⟨_, _, he, hlt, hlog⟩ | ⟨he, -⟩
  · rw [hs] at hb
    cases hb
  · rw [hs] at he
    cases he
    exact ⟨hlt, hlog⟩
  · rw [hs] at he
    cases he

/-- All of the batch is in the log, or nothing of it. -/
theorem Issued.log_cases {log bytes : List UInt8} (h : Issued log bytes s) :
    s.log = log ∨ s.log = log ++ bytes := by
  rcases h with ⟨-, hlog⟩ | ⟨_, _, -, -, hlog⟩ | ⟨-, hlog⟩
  · exact .inl hlog
  · exact .inl hlog
  · exact .inr hlog

theorem stepRead_log {a : Act} (ht : s.stepRead c a = some t) :
    t.writer = s.writer ∧ t.log = s.log := by
  cases a <;> simp only [stepRead, reduceCtorEq] at ht
  case readByte i =>
    split at ht
    · obtain ⟨ld, -, rfl⟩ := Option.map_eq_some_iff.mp ht
      exact ⟨rfl, rfl⟩
    · cases ht
  all_goals
    split at ht
    · cases ht
      exact ⟨rfl, rfl⟩
    · cases ht

/-- A step of a `write` in progress. -/
theorem stepWrite_issued {a : Act} (hb : a.isWriteBegin = false) (ht : s.stepWrite c a = some t) :
    ∃ bytes, batchOf s.writer = some bytes ∧ Issued s.log bytes t := by
  cases a <;> simp only [stepWrite, reduceCtorEq] at ht
  case writeBegin => cases hb
  case writeLoadWrite =>
    split at ht
    · rename_i lang batch hp
      cases ht
      exact ⟨batch, by rw [hp]; rfl, .inl ⟨rfl, rfl⟩⟩
    · cases ht
  case writeLoadRead =>
    split at ht
    · rename_i lang batch wi hp
      cases ht
      exact ⟨batch, by rw [hp]; rfl, .inl ⟨rfl, rfl⟩⟩
    · cases ht
  case writeCheck =>
    split at ht
    · rename_i lang batch wi ri hp
      cases ht
      refine ⟨batch, by rw [hp]; rfl, ?_⟩
      simp only [Issued, writeCheck]
      split_ifs with hfull
      · have hle := Nat.mod_le batch.length (2 ^ 64)
        rw [gt_iff_lt, UInt64.lt_iff_toNat_lt, UInt64.toNat_ofNat'] at hfull
        exact .inr (.inl ⟨_, _, rfl, by omega, rfl⟩)
      · exact .inl ⟨rfl, rfl⟩
    · cases ht
  case writeByte i =>
    split at ht
    · rename_i batch wi pending hp
      obtain ⟨st, -, rfl⟩ := Option.map_eq_some_iff.mp ht
      exact ⟨batch, by rw [hp]; rfl, .inl ⟨rfl, rfl⟩⟩
    · cases ht
  case writePublish =>
    split at ht
    · rename_i batch wi hp
      cases ht
      exact ⟨batch, by rw [hp]; rfl, .inr (.inr ⟨rfl, List.flatten_concat⟩)⟩
    · cases ht

theorem step_cases {a : Act} (hb : a.isWriteBegin = false) (ht : s.step c a = some t) :
    (t.writer = s.writer ∧ t.log = s.log) ∨
      ∃ bytes, batchOf s.writer = some bytes ∧ Issued s.log bytes t := by
  simp only [step] at ht
  split_ifs at ht
  · exact .inl (stepRead_log ht)
  · exact .inr (stepWrite_issued hb ht)

theorem issued_step {log bytes : List UInt8} {a : Act} (h : Issued log bytes s)
    (hb : a.isWriteBegin = false) (ht : s.step c a = some t) : Issued log bytes t := by
  rcases step_cases hb ht with ⟨hw, hlog⟩ | ⟨batch, hbatch, hissued⟩
  · rw [Issued, hw, hlog]
    exact h
  · rcases h with ⟨hs, hlog⟩ | ⟨need, avail, hs, -⟩ | ⟨hs, -⟩
    · rw [hbatch] at hs
      rw [← Option.some.inj hs, ← hlog]
      exact hissued
    · rw [hs] at hbatch
      cases hbatch
    · rw [hs] at hbatch
      cases hbatch

theorem issued_begin {lang : Lang} {bytes : List UInt8}
    (ht : s.step c (.writeBegin lang bytes) = some t) : Issued s.log bytes t := by
  simp only [step, Act.isRead, Bool.false_eq_true, if_false, stepWrite] at ht
  split at ht
  · split_ifs at ht
    cases ht
    exact .inl ⟨rfl, rfl⟩
  · cases ht

/-- Between calls only the reader moves. -/
theorem idle_step {a : Act} {r : Except RingError Unit} (h : s.writer = .idle r)
    (hb : a.isWriteBegin = false) (ht : s.step c a = some t) :
    t.writer = .idle r ∧ t.log = s.log := by
  rcases step_cases hb ht with ⟨hw, hlog⟩ | ⟨batch, hbatch, -⟩
  · exact ⟨hw.trans h, hlog⟩
  · rw [h] at hbatch
    cases hbatch

/-! The same with the batches kept apart. -/

/-- The ring since `write(bytes)` was called when the batches `written` had gone in. -/
def Offered (written : List (List UInt8)) (bytes : List UInt8) (s : Ring) : Prop :=
  (batchOf s.writer = some bytes ∧ s.written = written) ∨
  ((∃ e, s.writer = .idle (.error e)) ∧ s.written = written) ∨
  (s.writer = .idle (.ok ()) ∧ s.written = written ++ [bytes])

theorem stepRead_written {a : Act} (ht : s.stepRead c a = some t) :
    t.writer = s.writer ∧ t.written = s.written := by
  refine ⟨stepRead_writer ht, ?_⟩
  cases a <;> simp only [stepRead, reduceCtorEq] at ht
  case readByte i =>
    split at ht
    · obtain ⟨ld, -, rfl⟩ := Option.map_eq_some_iff.mp ht
      rfl
    · cases ht
  all_goals
    split at ht
    · cases ht
      rfl
    · cases ht

theorem stepWrite_offered {a : Act} (hb : a.isWriteBegin = false) (ht : s.stepWrite c a = some t) :
    ∃ bytes, batchOf s.writer = some bytes ∧ Offered s.written bytes t := by
  cases a <;> simp only [stepWrite, reduceCtorEq] at ht
  case writeBegin => cases hb
  case writeLoadWrite =>
    split at ht
    · rename_i lang batch hp
      cases ht
      exact ⟨batch, by rw [hp]; rfl, .inl ⟨rfl, rfl⟩⟩
    · cases ht
  case writeLoadRead =>
    split at ht
    · rename_i lang batch wi hp
      cases ht
      exact ⟨batch, by rw [hp]; rfl, .inl ⟨rfl, rfl⟩⟩
    · cases ht
  case writeCheck =>
    split at ht
    · rename_i lang batch wi ri hp
      cases ht
      refine ⟨batch, by rw [hp]; rfl, ?_⟩
      simp only [Offered, writeCheck]
      split_ifs
      · exact .inr (.inl ⟨⟨_, rfl⟩, trivial⟩)
      · exact .inl ⟨rfl, trivial⟩
    · cases ht
  case writeByte i =>
    split at ht
    · rename_i batch wi pending hp
      obtain ⟨st, -, rfl⟩ := Option.map_eq_some_iff.mp ht
      exact ⟨batch, by rw [hp]; rfl, .inl ⟨rfl, rfl⟩⟩
    · cases ht
  case writePublish =>
    split at ht
    · rename_i batch wi hp
      cases ht
      exact ⟨batch, by rw [hp]; rfl, .inr (.inr ⟨rfl, rfl⟩)⟩
    · cases ht

/-! How far a `write` in progress is from its end. -/

def stepsLeft : Writer → Nat
  | .idle _ => 0
  | .begun _ batch => batch.length + 4
  | .loadedWrite _ batch _ => batch.length + 3
  | .loaded _ batch _ _ => batch.length + 2
  | .copying _ _ pending => pending.length + 1

/-- A `write` that begins has written nothing yet. -/
theorem offered_begin {lang : Lang} {bytes : List UInt8}
    (ht : s.step c (.writeBegin lang bytes) = some t) :
    batchOf t.writer = some bytes ∧ t.written = s.written ∧
      stepsLeft t.writer = bytes.length + 4 := by
  simp only [step, Act.isRead, Bool.false_eq_true, if_false, stepWrite] at ht
  split at ht
  · split_ifs at ht
    cases ht
    exact ⟨rfl, rfl, rfl⟩
  · cases ht

theorem length_stores (c : Capacity) (lang : Lang) (wi : UInt64) (batch : List UInt8) :
    (stores c lang wi batch).length = batch.length := by
  rw [stores_eq, rustStores, wrapped]
  split_ifs
  · simp
  · simp only [List.length_append, List.length_zipIdx, List.length_take, List.length_drop]
    omega

theorem stepWrite_left {a : Act} (hb : a.isWriteBegin = false) (ht : s.stepWrite c a = some t) :
    stepsLeft t.writer < stepsLeft s.writer := by
  cases a <;> simp only [stepWrite, reduceCtorEq] at ht
  case writeBegin => cases hb
  case writeByte i =>
    split at ht
    · rename_i batch wi pending hp
      obtain ⟨st, hst, rfl⟩ := Option.map_eq_some_iff.mp ht
      have hi := (List.getElem?_eq_some_iff.mp hst).1
      simp only [hp, stepsLeft, List.length_eraseIdx_of_lt hi]
      omega
    · cases ht
  case writeCheck =>
    split at ht
    · rename_i lang batch wi ri hp
      cases ht
      simp only [hp, writeCheck]
      split_ifs
      · simp [stepsLeft]
      · simp [stepsLeft, length_stores]
    · cases ht
  all_goals
    split at ht
    · rename_i hp
      cases ht
      simp [hp, stepsLeft]
    · cases ht

/-- A `write` in progress can always take a step. -/
theorem exists_stepWrite (c : Capacity) (h : batchOf s.writer ≠ none) :
    ∃ a t, a.isWriteBegin = false ∧ a.isRead = false ∧ s.step c a = some t := by
  cases hw : s.writer with
  | idle r => exact absurd (by rw [hw]; rfl) h
  | begun lang batch => exact ⟨.writeLoadWrite, _, rfl, rfl, by simp [step, Act.isRead, stepWrite, hw]; rfl⟩
  | loadedWrite lang batch wi =>
    exact ⟨.writeLoadRead, _, rfl, rfl, by simp [step, Act.isRead, stepWrite, hw]; rfl⟩
  | loaded lang batch wi ri =>
    exact ⟨.writeCheck, _, rfl, rfl, by simp [step, Act.isRead, stepWrite, hw]; rfl⟩
  | copying batch wi pending =>
    cases pending with
    | nil => exact ⟨.writePublish, _, rfl, rfl, by simp [step, Act.isRead, stepWrite, hw]; rfl⟩
    | cons st pending =>
      exact ⟨.writeByte 0, _, rfl, rfl, by simp [step, Act.isRead, stepWrite, hw]; rfl⟩

end Ring

/-- The single-writer single-reader ring under every interleaving of the two sides' steps: what is
in flight fits the buffer, the reader gets the written bytes in order, a refused write is as if it
had not been made, and the two writers lay a batch out alike. -/
theorem ring_spsc (c : Capacity) (mem : Nat → UInt8) {acts : List Act} {s : Ring}
    (h : (Ring.create mem).run c acts = some s) :
    (s.writeIdx = UInt64.ofNat s.written.flatten.length ∧
      s.readIdx = UInt64.ofNat s.consumed.length ∧
      s.consumed.length ≤ s.written.flatten.length ∧
      (s.writeIdx - s.readIdx).toNat = s.written.flatten.length - s.consumed.length ∧
      (s.writeIdx - s.readIdx).toNat ≤ c.size.toNat) ∧
    s.consumed <+: s.written.flatten ∧
    (∀ (lang : Lang) (batch : List UInt8) (mid : List Act) (need avail : Nat) (t : Ring),
      (∀ a ∈ mid, a.isWriteBegin = false) →
      s.run c (.writeBegin lang batch :: (mid ++ [.writeCheck])) = some t →
      t.writer = .idle (.error (.full need avail)) →
      s.run c (mid.filter Act.isRead) = some { t with writer := s.writer }) ∧
    ∀ (wi : UInt64) (batch : List UInt8), goStores c wi batch = rustStores c wi batch := by
  have hinv : Ring.Inv c s := Ring.inv_run (Ring.inv_create c mem) h
  have hle := hinv.consumed.length_le
  have hroom := hinv.room
  have hdist := hinv.distance
  refine ⟨⟨hinv.writeIdx, hinv.readIdx, hle, hdist, by omega⟩, hinv.consumed, ?_,
    goStores_eq_rustStores c⟩
  intro lang batch mid need avail t hb ht _
  exact Ring.run_to_check hb ht

/-- Three bytes go through a ring of four, and two more are written over its end; the second write
begins while the reader is inside its call. -/
def wrapActs : List Act :=
  [.writeBegin .rust [1, 2, 3], .writeLoadWrite, .writeLoadRead, .writeCheck,
    .writeByte 2, .writeByte 0, .writeByte 0, .writePublish,
    .readBegin [0, 0, 0, 0], .readLoadWrite, .writeBegin .go [4, 5], .readLoadRead,
    .readCheck, .readByte 1, .readByte 1, .readByte 0, .readAdvance,
    .writeLoadWrite, .writeLoadRead, .writeCheck, .writeByte 1, .writeByte 0, .writePublish]

theorem ring_spsc_wrap :
    ∃ s t : Ring, (Ring.create (fun _ => 0)).run ⟨4, 2, rfl⟩ wrapActs = some s ∧
      s.consumed = [1, 2, 3] ∧ s.mem 192 = 5 ∧ s.consumed <+: s.written.flatten ∧
      s.run ⟨4, 2, rfl⟩ (.writeBegin .rust [6, 7, 8] ::
        ([.writeLoadWrite, .readBegin [0], .writeLoadRead] ++ [.writeCheck])) = some t ∧
      s.run ⟨4, 2, rfl⟩ [.readBegin [0]] = some { t with writer := s.writer } := by
  have hrun : ∃ s ∈ (Ring.create (fun _ => 0)).run ⟨4, 2, rfl⟩ wrapActs,
      (s.consumed = [1, 2, 3] ∧ s.mem 192 = 5) ∧
      ∃ t ∈ s.run ⟨4, 2, rfl⟩ (.writeBegin .rust [6, 7, 8] ::
          ([.writeLoadWrite, .readBegin [0], .writeLoadRead] ++ [.writeCheck])),
        t.writer = .idle (.error (.full 3 2)) := by
    decide
  obtain ⟨s, hs, ⟨hcons, hmem⟩, t, ht, hfull⟩ := hrun
  obtain ⟨-, hpre, hrefused, -⟩ := ring_spsc ⟨4, 2, rfl⟩ (fun _ => 0) hs
  exact ⟨s, t, hs, hcons, hmem, hpre, ht,
    hrefused .rust [6, 7, 8] [.writeLoadWrite, .readBegin [0], .writeLoadRead] 3 2 t (by decide)
      ht hfull⟩

end Flowlab.Replay
