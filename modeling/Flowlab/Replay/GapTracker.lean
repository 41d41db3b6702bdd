import Flowlab.Replay.MoldUdp

namespace Flowlab.Replay

open Std Framework

/-- The payload of the earliest message with a sequence number. -/
def firstPayload (ms : List Message) (seq : UInt64) : Option (List UInt8) :=
  (ms.find? (fun m => decide (m.1 = seq))).map Prod.snd

theorem firstPayload_append {ms : List Message} {seq : UInt64} {p : List UInt8}
    (h : firstPayload ms seq = some p) (l : List Message) : firstPayload (ms ++ l) seq = some p := by
  simp only [firstPayload] at *
  obtain ⟨m, hm, hp⟩ := Option.map_eq_some_iff.mp h
  rw [List.find?_append, hm]
  exact congrArg some hp

theorem firstPayload_new {ms : List Message} {seq : UInt64} (h : ∀ m ∈ ms, m.1 ≠ seq)
    (p : List UInt8) : firstPayload (ms ++ [(seq, p)]) seq = some p := by
  have hnone : ms.find? (fun m => decide (m.1 = seq)) = none :=
    List.find?_eq_none.mpr (fun m hm => by simpa using h m hm)
  simp [firstPayload, List.find?_append, hnone]

theorem mem_of_firstPayload {ms : List Message} {seq : UInt64} {p : List UInt8}
    (h : firstPayload ms seq = some p) : (seq, p) ∈ ms := by
  obtain ⟨m, hm, hp⟩ := Option.map_eq_some_iff.mp h
  have hk : m.1 = seq := by simpa using List.find?_some hm
  have he : m = (seq, p) := Prod.ext hk hp
  exact he ▸ List.mem_of_find?_eq_some hm

namespace GapTracker

theorem firstPending_some {t : GapTracker} {k : UInt64} {v : List UInt8}
    (h : t.firstPending = some (k, v)) : t.pending[k]? = some v ∧
      ∀ (j : UInt64) (w : List UInt8), t.pending[j]? = some w → k.toNat ≤ j.toNat := by
  obtain ⟨hk, hmin⟩ := FiniteMap.head_toList h
  refine ⟨hk, ?_⟩
  intro j w hj
  rcases hmin j w hj with rfl | hlt
  · exact Nat.le_refl _
  · exact Nat.le_of_lt (UInt64.lt_iff_toNat_lt.mp (compare_eq_lt.mp hlt))

theorem firstPending_none {t : GapTracker} (h : t.firstPending = none) (k : UInt64) :
    t.pending[k]? = none := by
  have hnil : t.pending.toList = [] := List.head?_eq_none_iff.mp h
  cases hk : t.pending[k]? with
  | none => rfl
  | some v =>
    have hmem := ExtTreeMap.mem_toList_iff_getElem?_eq_some.mpr hk
    rw [hnil] at hmem
    exact absurd hmem (by simp)

theorem drainStep_fields (t : GapTracker) (seq : UInt64) :
    (t.drainStep seq).expected = t.expected + 1 ∧
    (t.drainStep seq).pending = t.pending.erase seq ∧
    (t.drainStep seq).maxBuffered = t.maxBuffered := by
  simp only [drainStep]
  split_ifs <;> exact ⟨rfl, rfl, rfl⟩

/-- The tracker after delivering `out` since `start`, when it kept `ms` and `gap` is a sequence
number it never saw. -/
structure Tracks (start gap : UInt64) (ms : List Message) (out : List Delivered) (t : GapTracker) :
    Prop where
  lower : start.toNat ≤ t.expected.toNat
  upper : t.expected.toNat ≤ gap.toNat
  seqs : out.map (fun d => d.sequence.toNat) =
    List.range' start.toNat (t.expected.toNat - start.toNat)
  paid : ∀ d ∈ out, firstPayload ms d.sequence = some d.payload
  reach : ∀ (k : UInt64) (v : List UInt8), t.pending[k]? = some v →
    t.expected.toNat ≤ k.toNat ∧ k ≠ gap ∧ firstPayload ms k = some v
  known : ∀ m ∈ ms, m.1.toNat < t.expected.toNat ∨ t.pending[m.1]? ≠ none
  room : t.pending.size ≤ t.maxBuffered

/-- Nothing contiguous is left in the buffer. -/
def Settled (t : GapTracker) : Prop :=
  ∀ (k : UInt64) (v : List UInt8), t.pending[k]? = some v → t.expected.toNat < k.toNat

theorem toNat_succ_of_lt {a g : UInt64} (h : a.toNat < g.toNat) : (a + 1).toNat = a.toNat + 1 := by
  have hg := g.toNat_lt
  rw [UInt64.toNat_add]
  exact Nat.mod_eq_of_lt (show a.toNat + 1 < 2 ^ 64 by omega)

/-- Delivering the expected message, wherever it came from. -/
theorem tracks_deliver {start gap : UInt64} {ms ms' : List Message} {out : List Delivered}
    {t t' : GapTracker} (h : Tracks start gap ms out t) {payload : List UInt8}
    (hne : t.expected ≠ gap) (hexp : t'.expected = t.expected + 1)
    (hmax : t'.maxBuffered = t.maxBuffered) (hsize : t'.pending.size ≤ t.pending.size)
    (hpend : ∀ k : UInt64, t'.pending[k]? = if k = t.expected then none else t.pending[k]?)
    (hext : ∀ (k : UInt64) (p : List UInt8), firstPayload ms k = some p → firstPayload ms' k = some p)
    (hpay : firstPayload ms' t.expected = some payload)
    (hms : ∀ m ∈ ms', m ∈ ms ∨ m.1 = t.expected) :
    Tracks start gap ms' (out ++ [⟨t.expected, payload⟩]) t' := by
  have hlow := h.lower
  have hup := h.upper
  have hlt : t.expected.toNat < gap.toNat := by
    have : t.expected.toNat ≠ gap.toNat := fun he => hne (UInt64.toNat_inj.mp he)
    omega
  have hsucc := toNat_succ_of_lt hlt
  constructor
  case lower =>
    rw [hexp, hsucc]
    omega
  case upper =>
    rw [hexp, hsucc]
    omega
  case seqs =>
    have hn : (t.expected + 1).toNat - start.toNat = t.expected.toNat - start.toNat + 1 := by omega
    rw [hexp, hn, List.range'_concat, List.map_append, h.seqs]
    simp only [List.map_cons, List.map_nil, Nat.one_mul]
    congr 2
    omega
  case paid =>
    intro d hd
    rcases List.mem_append.mp hd with hd | hd
    · exact hext _ _ (h.paid d hd)
    · rw [List.mem_singleton.mp hd]
      exact hpay
  case reach =>
    intro k v hk
    rw [hpend] at hk
    split_ifs at hk with hke
    obtain ⟨h1, h2, h3⟩ := h.reach k v hk
    refine ⟨?_, h2, hext k v h3⟩
    have : k.toNat ≠ t.expected.toNat := fun he => hke (UInt64.toNat_inj.mp he)
    rw [hexp, hsucc]
    omega
  case known =>
    intro m hm
    rw [hexp, hsucc, hpend]
    rcases hms m hm with hm | hm
    · by_cases hme : m.1 = t.expected
      · left
        rw [hme]
        omega
      · rw [if_neg hme]
        rcases h.known m hm with hk | hk
        · exact Or.inl (by omega)
        · exact Or.inr hk
    · left
      rw [hm]
      omega
  case room =>
    rw [hmax]
    exact hsize.trans h.room

/-- Every turn of the drain loop delivers the next message; with a turn for each buffered message
it leaves nothing contiguous behind. -/
theorem drain_tracks {start gap : UInt64} {ms : List Message} (fuel : Nat) {done out : List Delivered}
    {t : GapTracker} (h : Tracks start gap ms (done ++ out) t) :
    Tracks start gap ms (done ++ (t.drain fuel out).2) (t.drain fuel out).1 ∧
      (t.pending.size ≤ fuel → (t.drain fuel out).1.Settled) := by
  induction fuel generalizing t out with
  | zero =>
    refine ⟨h, ?_⟩
    intro hz k v hk
    have hpos := FiniteMap.size_erase_bound t.pending k v hk
    omega
  | succ fuel ih =>
    simp only [drain]
    cases hf : t.firstPending with
    | none =>
      refine ⟨h, ?_⟩
      intro _ k v hk
      rw [firstPending_none hf k] at hk
      exact absurd hk (by simp)
    | some m =>
      obtain ⟨seq, buf⟩ := m
      obtain ⟨hseq, hmin⟩ := firstPending_some hf
      obtain ⟨hexp, hpend, hmax⟩ := drainStep_fields t seq
      dsimp only
      split_ifs with he
      · obtain ⟨_, hgap, hpay⟩ := h.reach seq buf hseq
        have hsize := FiniteMap.size_erase_bound t.pending seq buf hseq
        rw [he] at hgap hpay hsize hexp hpend hmax ⊢
        have hstep : Tracks start gap ms (done ++ (out ++ [⟨t.expected, buf⟩]))
            (t.drainStep t.expected) := by
          rw [← List.append_assoc]
          refine tracks_deliver h hgap hexp hmax ?_ ?_ (fun _ _ h => h) hpay (fun m hm => Or.inl hm)
          · rw [hpend]
            omega
          · intro k
            rw [hpend, FiniteMap.get_erase]
        obtain ⟨h1, h2⟩ := ih hstep
        refine ⟨h1, fun hle => h2 ?_⟩
        rw [hpend]
        omega
      · refine ⟨h, ?_⟩
        intro _ k v hk
        have hle := (h.reach seq buf hseq).1
        have hkm := hmin k v hk
        have hne : seq.toNat ≠ t.expected.toNat := fun hs => he (UInt64.toNat_inj.mp hs)
        change t.expected.toNat < k.toNat
        omega

/-- The next message is dropped for lack of buffer space. -/
def overflows (t : GapTracker) (seq : UInt64) : Bool :=
  decide (t.expected < seq) && decide (t.maxBuffered ≤ t.pending.size)

theorem tracks_congr {start gap : UInt64} {ms : List Message} {out : List Delivered}
    {t t' : GapTracker} (h : Tracks start gap ms out t) (he : t'.expected = t.expected)
    (hp : t'.pending = t.pending) (hm : t'.maxBuffered = t.maxBuffered) :
    Tracks start gap ms out t' :=
  ⟨he ▸ h.lower, he ▸ h.upper, he ▸ h.seqs, h.paid, by rw [he, hp]; exact h.reach,
    by rw [he, hp]; exact h.known, by rw [hp, hm]; exact h.room⟩

/-- A message with a number already accounted for changes nothing but the record of what was kept. -/
theorem tracks_again {start gap : UInt64} {ms : List Message} {out : List Delivered}
    {t : GapTracker} (h : Tracks start gap ms out t) {m : Message}
    (hm : m.1.toNat < t.expected.toNat ∨ t.pending[m.1]? ≠ none) :
    Tracks start gap (ms ++ [m]) out t where
  lower := h.lower
  upper := h.upper
  seqs := h.seqs
  paid d hd := firstPayload_append (h.paid d hd) _
  reach k v hk := by
    obtain ⟨h1, h2, h3⟩ := h.reach k v hk
    exact ⟨h1, h2, firstPayload_append h3 _⟩
  known x hx := by
    rcases List.mem_append.mp hx with hx | hx
    · exact h.known x hx
    · rw [List.mem_singleton.mp hx]
      exact hm
  room := h.room

/-- A forward message joins the buffer. -/
theorem tracks_buffer {start gap : UInt64} {ms : List Message} {out : List Delivered}
    {t t' : GapTracker} (h : Tracks start gap ms out t) {seq : UInt64} (payload : List UInt8)
    (hgap : seq ≠ gap) (hlt : t.expected.toNat < seq.toNat) (hnew : t.pending[seq]? = none)
    (hroom : t.pending.size < t.maxBuffered) (he : t'.expected = t.expected)
    (hp : t'.pending = t.pending.insert seq payload) (hm : t'.maxBuffered = t.maxBuffered) :
    Tracks start gap (ms ++ [(seq, payload)]) out t' := by
  have hfresh : ∀ m ∈ ms, m.1 ≠ seq := by
    intro m hmem hs
    rcases h.known m hmem with hk | hk
    · rw [hs] at hk
      omega
    · rw [hs] at hk
      exact hk hnew
  refine ⟨he ▸ h.lower, he ▸ h.upper, he ▸ h.seqs, fun d hd => firstPayload_append (h.paid d hd) _,
    ?_, ?_, ?_⟩
  · intro k v hk
    rw [hp, FiniteMap.get_insert] at hk
    rw [he]
    split_ifs at hk with hks
    · rw [hks, ← Option.some.inj hk]
      exact ⟨Nat.le_of_lt hlt, hgap, firstPayload_new hfresh payload⟩
    · obtain ⟨h1, h2, h3⟩ := h.reach k v hk
      exact ⟨h1, h2, firstPayload_append h3 _⟩
  · intro m hmem
    rw [he, hp, FiniteMap.get_insert]
    rcases List.mem_append.mp hmem with hx | hx
    · split_ifs
      · exact Or.inr (by simp)
      · exact h.known m hx
    · rw [List.mem_singleton.mp hx, if_pos rfl]
      exact Or.inr (by simp)
  · rw [hp, hm, FiniteMap.size_insert_new _ _ _ hnew]
    exact hroom

theorem ingestOne_old {t : GapTracker} {seq : UInt64} (h : seq < t.expected) (payload : List UInt8)
    (out : List Delivered) :
    ∃ t', t.ingestOne seq payload out = (t', out) ∧ t'.expected = t.expected ∧
      t'.maxBuffered = t.maxBuffered ∧ t'.pending = t.pending := by
  rw [ingestOne, if_pos h]
  exact ⟨_, rfl, rfl, rfl, rfl⟩

theorem ingestOne_forward {t : GapTracker} {seq : UInt64} (h : t.expected.toNat < seq.toNat)
    (payload : List UInt8) (out : List Delivered) :
    ∃ t', t.ingestOne seq payload out = (t', out) ∧ t'.expected = t.expected ∧
      t'.maxBuffered = t.maxBuffered ∧
      t'.pending = if t.maxBuffered ≤ t.pending.size ∨ t.pending[seq]? ≠ none then t.pending
        else t.pending.insert seq payload := by
  have h1 : ¬ seq < t.expected := by rw [UInt64.lt_iff_toNat_lt]; omega
  have h2 : seq ≠ t.expected := by
    rintro rfl
    omega
  have hopen : ∃ u : GapTracker, u.expected = t.expected ∧ u.pending = t.pending ∧
      u.maxBuffered = t.maxBuffered ∧ u = if t.pending.isEmpty then
        { t with stats := { t.stats with gapsOpened := t.stats.gapsOpened + 1 } } else t := by
    refine ⟨_, ?_, ?_, ?_, rfl⟩ <;> split_ifs <;> rfl
  obtain ⟨u, he, hp, hm, hu⟩ := hopen
  rw [ingestOne, if_neg h1, if_neg h2]
  dsimp only
  rw [← hu, hm, hp]
  by_cases hfull : t.maxBuffered ≤ t.pending.size
  · rw [if_pos hfull, if_pos (Or.inl hfull)]
    exact ⟨_, rfl, he, rfl, rfl⟩
  · rw [if_neg hfull]
    by_cases hc : t.pending[seq]? ≠ none
    · have hcon : t.pending.contains seq = true := by
        rw [ExtTreeMap.contains_eq_isSome_getElem?]
        exact Option.isSome_iff_ne_none.mpr hc
      rw [if_pos hcon, if_pos (Or.inr hc)]
      exact ⟨_, rfl, he, rfl, rfl⟩
    · have hcon : ¬ t.pending.contains seq = true := by
        rw [ExtTreeMap.contains_eq_isSome_getElem?, not_not.mp hc]
        simp
      rw [if_neg hcon, if_neg (not_or.mpr ⟨hfull, hc⟩)]
      exact ⟨_, rfl, he, rfl, rfl⟩

theorem tracks_expected {start gap : UInt64} {ms : List Message} {done out : List Delivered}
    {t : GapTracker} (h : Tracks start gap ms (done ++ out) t) (hs : t.Settled)
    (payload : List UInt8) (hgap : t.expected ≠ gap) :
    Tracks start gap (ms ++ [(t.expected, payload)])
        (done ++ (t.ingestOne t.expected payload out).2) (t.ingestOne t.expected payload out).1 ∧
      (t.ingestOne t.expected payload out).1.Settled := by
  have hfresh : ∀ m ∈ ms, m.1 ≠ t.expected := by
    intro m hm he
    rcases h.known m hm with hk | hk
    · rw [he] at hk
      omega
    · obtain ⟨v, hv⟩ := Option.ne_none_iff_exists'.mp hk
      have := hs m.1 v hv
      rw [he] at this
      omega
  have hnone : t.pending[t.expected]? = none := by
    cases hv : t.pending[t.expected]? with
    | none => rfl
    | some v =>
      have := hs _ v hv
      omega
  have hdel : Tracks start gap (ms ++ [(t.expected, payload)])
      (done ++ (out ++ [⟨t.expected, payload⟩]))
      { t with
        expected := t.expected + 1
        stats := { t.stats with inOrderDelivered := t.stats.inOrderDelivered + 1 } } := by
    rw [← List.append_assoc]
    refine tracks_deliver h hgap rfl rfl (Nat.le_refl _) ?_
      (fun k p hk => firstPayload_append hk _) (firstPayload_new hfresh payload) ?_
    · intro k
      split_ifs with hk
      · rw [hk, hnone]
      · rfl
    · intro m hm
      rcases List.mem_append.mp hm with hm | hm
      · exact Or.inl hm
      · exact Or.inr (by rw [List.mem_singleton.mp hm])
  obtain ⟨ht, hset⟩ := drain_tracks t.pending.size hdel
  rw [ingestOne, if_neg (UInt64.lt_irrefl _), if_pos rfl]
  exact ⟨ht, hset (Nat.le_refl _)⟩

/-- One message, whatever becomes of it, keeps the account. -/
theorem ingestOne_tracks {start gap : UInt64} {ms : List Message} {done out : List Delivered}
    {t : GapTracker} (h : Tracks start gap ms (done ++ out) t) (hs : t.Settled) {seq : UInt64}
    (payload : List UInt8) (hgap : seq ≠ gap) :
    Tracks start gap (if t.overflows seq then ms else ms ++ [(seq, payload)])
        (done ++ (t.ingestOne seq payload out).2) (t.ingestOne seq payload out).1 ∧
      (t.ingestOne seq payload out).1.Settled := by
  rcases Nat.lt_trichotomy seq.toNat t.expected.toNat with hlt | heq | hgt
  · have hover : t.overflows seq = false := by
      have hn : ¬ t.expected < seq := by rw [UInt64.lt_iff_toNat_lt]; omega
      simp [overflows, hn]
    obtain ⟨t', hr, he, hm, hp⟩ := ingestOne_old (UInt64.lt_iff_toNat_lt.mpr hlt) payload out
    rw [hr, hover, if_neg (by simp)]
    refine ⟨tracks_again (tracks_congr h he hp hm) (Or.inl (by rw [he]; exact hlt)), ?_⟩
    intro k v hk
    rw [hp] at hk
    rw [he]
    exact hs k v hk
  · have he : seq = t.expected := UInt64.toNat_inj.mp heq
    subst he
    have hover : t.overflows t.expected = false := by simp [overflows]
    rw [hover, if_neg (by simp)]
    exact tracks_expected h hs payload hgap
  · obtain ⟨t', hr, he, hm, hp⟩ := ingestOne_forward hgt payload out
    have hset : t'.Settled := by
      intro k v hk
      rw [he]
      rw [hp] at hk
      split_ifs at hk with hc
      · exact hs k v hk
      · rw [FiniteMap.get_insert] at hk
        split_ifs at hk with hks
        · rw [hks]
          exact hgt
        · exact hs k v hk
    rw [hr]
    refine ⟨?_, hset⟩
    by_cases hfull : t.maxBuffered ≤ t.pending.size
    · have hover : t.overflows seq = true := by
        simp [overflows, UInt64.lt_iff_toNat_lt.mpr hgt, hfull]
      rw [hover, if_pos rfl]
      rw [if_pos (Or.inl hfull)] at hp
      exact tracks_congr h he hp hm
    · have hover : t.overflows seq = false := by simp [overflows, hfull]
      rw [hover, if_neg (by simp)]
      by_cases hc : t.pending[seq]? ≠ none
      · rw [if_pos (Or.inr hc)] at hp
        exact tracks_again (tracks_congr h he hp hm) (Or.inr (by rw [hp]; exact hc))
      · rw [if_neg (not_or.mpr ⟨hfull, hc⟩)] at hp
        exact tracks_buffer h payload hgap hgt (not_not.mp hc) (Nat.not_le.mp hfull) he hp hm

theorem drain_out (fuel : Nat) (t : GapTracker) (out : List Delivered) :
    t.drain fuel out = ((t.drain fuel []).1, out ++ (t.drain fuel []).2) := by
  induction fuel generalizing t out with
  | zero => simp [drain]
  | succ fuel ih =>
    simp only [drain]
    cases t.firstPending with
    | none => simp
    | some m =>
      dsimp only
      split_ifs
      · rw [ih _ (out ++ _), ih _ ([] ++ _)]
        simp
      · simp

/-- What a message does to the tracker and what it delivers do not depend on what was delivered. -/
theorem ingestOne_out (t : GapTracker) (seq : UInt64) (payload : List UInt8) (out : List Delivered) :
    t.ingestOne seq payload out =
      ((t.ingestOne seq payload []).1, out ++ (t.ingestOne seq payload []).2) := by
  simp only [ingestOne]
  split_ifs
  · simp
  · rw [drain_out _ _ (out ++ _), drain_out _ _ ([] ++ _)]
    simp
  all_goals simp

theorem ingestAll_cons (t : GapTracker) (m : Message) (ms : List Message) (out : List Delivered) :
    t.ingestAll (m :: ms) out =
      (t.ingestOne m.1 m.2 out).1.ingestAll ms (t.ingestOne m.1 m.2 out).2 := rfl

theorem ingestAll_out (t : GapTracker) (ms : List Message) (out : List Delivered) :
    t.ingestAll ms out = ((t.ingestAll ms []).1, out ++ (t.ingestAll ms []).2) := by
  induction ms generalizing t out with
  | nil => simp [ingestAll]
  | cons m ms ih =>
    rw [ingestAll_cons, ingestAll_cons, ingestOne_out t m.1 m.2 out, ih _ (out ++ _),
      ih _ (t.ingestOne m.1 m.2 []).2]
    simp

theorem ingestAll_append (t : GapTracker) (ms ns : List Message) (out : List Delivered) :
    t.ingestAll (ms ++ ns) out = (t.ingestAll ms out).1.ingestAll ns (t.ingestAll ms out).2 :=
  List.foldl_append

/-- The messages of a run that were not dropped for overflow, in order of arrival. -/
def kept (t : GapTracker) : List Message → List Message
  | [] => []
  | m :: ms =>
    (if t.overflows m.1 then [] else [m]) ++ kept (t.ingestOne m.1 m.2 []).1 ms

theorem ingestAll_tracks {start gap : UInt64} (ms : List Message) {known : List Message}
    {done : List Delivered} {t : GapTracker} (h : Tracks start gap known done t) (hs : t.Settled)
    (hgap : ∀ m ∈ ms, m.1 ≠ gap) :
    Tracks start gap (known ++ t.kept ms) (done ++ (t.ingestAll ms []).2) (t.ingestAll ms []).1 ∧
      (t.ingestAll ms []).1.Settled := by
  induction ms generalizing known done t with
  | nil => simpa [kept, ingestAll] using ⟨h, hs⟩
  | cons m ms ih =>
    have h' : Tracks start gap known (done ++ []) t := by rwa [List.append_nil]
    obtain ⟨h1, h2⟩ := ingestOne_tracks h' hs m.2 (hgap m (by simp))
    obtain ⟨h3, h4⟩ := ih h1 h2 (fun x hx => hgap x (List.mem_cons_of_mem m hx))
    rw [ingestAll_cons, ingestAll_out]
    refine ⟨?_, h4⟩
    rw [List.append_assoc] at h3
    have hk : known ++ t.kept (m :: ms) = (if t.overflows m.1 = true then known
        else known ++ [(m.1, m.2)]) ++ (t.ingestOne m.1 m.2 []).1.kept ms := by
      rw [kept]
      split_ifs <;> simp
    rw [hk]
    exact h3

theorem drain_maxBuffered (fuel : Nat) (t : GapTracker) (out : List Delivered) :
    (t.drain fuel out).1.maxBuffered = t.maxBuffered := by
  induction fuel generalizing t out with
  | zero => rfl
  | succ fuel ih =>
    simp only [drain]
    cases t.firstPending with
    | none => rfl
    | some m =>
      dsimp only
      split_ifs
      · rw [ih, (drainStep_fields t m.1).2.2]
      · rfl

theorem ingestAll_maxBuffered (t : GapTracker) (ms : List Message) (out : List Delivered) :
    (t.ingestAll ms out).1.maxBuffered = t.maxBuffered := by
  have hone (t : GapTracker) (seq : UInt64) (payload : List UInt8) (out : List Delivered) :
      (t.ingestOne seq payload out).1.maxBuffered = t.maxBuffered := by
    simp only [ingestOne]
    split_ifs <;> first | rfl | exact drain_maxBuffered _ _ _
  induction ms generalizing t out with
  | nil => rfl
  | cons m ms ih => rw [ingestAll_cons, ih, hone]

theorem tracks_start (start gap : UInt64) (maxBuffered : Nat) (h : start.toNat ≤ gap.toNat) :
    Tracks start gap [] [] (withCapacity start maxBuffered) ∧
      (withCapacity start maxBuffered).Settled := by
  constructor
  · refine ⟨Nat.le_refl _, h, by simp [withCapacity], by simp, ?_, by simp, by simp [withCapacity]⟩
    intro k v hk
    simp [withCapacity] at hk
  · intro k v hk
    simp [withCapacity] at hk

/-- A settled tracker reports the gap up to its smallest buffered number. -/
theorem openGap_eq {t : GapTracker} (hs : t.Settled) :
    t.openGap = t.pending.minKey?.map (fun k => (t.expected, k - 1)) := by
  have hmin : t.pending.minKey? = t.firstPending.map Prod.fst := by
    rw [ExtTreeMap.minKey?_eq_head?_keys, ← ExtTreeMap.map_fst_toList_eq_keys, List.head?_map]
    rfl
  rw [hmin, openGap]
  cases hf : t.firstPending with
  | none => rfl
  | some m =>
    have hlt := hs m.1 m.2 (firstPending_some hf).1
    dsimp only
    rw [if_pos (UInt64.lt_iff_toNat_lt.mpr hlt)]
    rfl

/-- A call of the public interface. -/
inductive Op where
  | single (seq : UInt64) (payload : List UInt8)
  | frame (f : MoldFrame)

def Op.messages : Op → List Message
  | .single seq payload => [(seq, payload)]
  | .frame f => f.records

def Op.WellFormed : Op → Prop
  | .single _ _ => True
  | .frame f => f.WellFormed

/-- Successive calls, with everything they return; `fuel` bounds the turns of each frame's loop. -/
def runOps (fuel : Nat) : GapTracker → List Op → Option (GapTracker × List Delivered)
  | t, [] => some (t, [])
  | t, .single seq payload :: ops =>
    let r := t.ingestSingle seq payload
    (runOps fuel r.1 ops).map (fun q => (q.1, r.2 ++ q.2))
  | t, .frame f :: ops =>
    match t.ingest fuel f with
    | none => none
    | some r => (runOps fuel r.1 ops).map (fun q => (q.1, r.2 ++ q.2))

/-- Well-formed calls come down to their messages, one after the other. -/
theorem runOps_eq {fuel : Nat} (hf : 2 ^ 16 ≤ fuel) (t : GapTracker) (ops : List Op)
    (hw : ∀ op ∈ ops, op.WellFormed) :
    runOps fuel t ops = some (t.ingestAll (ops.flatMap Op.messages) []) := by
  induction ops generalizing t with
  | nil => rfl
  | cons op ops ih =>
    have hrest := fun t => ih t (fun o ho => hw o (List.mem_cons_of_mem op ho))
    rw [List.flatMap_cons, ingestAll_append, ingestAll_out _ (ops.flatMap Op.messages)]
    cases op with
    | single seq payload =>
      rw [runOps, hrest]
      rfl
    | frame f =>
      have hfw : f.WellFormed := hw (.frame f) (by simp)
      have hlt : f.declared < fuel := by
        have h1 := f.declared_le
        have h2 := f.header.count.toNat_lt
        omega
      rw [runOps, MoldFrame.ingest_wellFormed hfw hlt]
      dsimp only
      rw [hrest]
      rfl

end GapTracker

/-- Whatever arrives, in whatever order: the tracker delivers every number from `start` up to
`expected` once and in order, with the payload it kept first, buffers at most `maxBuffered` later
ones, and reports the gap before them. -/
theorem gapTracker_in_order (start : UInt64) (maxBuffered : Nat) {fuel : Nat} (hf : 2 ^ 16 ≤ fuel)
    (ops : List GapTracker.Op) (hw : ∀ op ∈ ops, op.WellFormed)
    (hseq : ∀ m ∈ ops.flatMap GapTracker.Op.messages, m.1.toNat < 2 ^ 64 - 1) :
    ∃ t out, GapTracker.runOps fuel (GapTracker.withCapacity start maxBuffered) ops = some (t, out) ∧
      start.toNat ≤ t.expected.toNat ∧
      out.map (fun d => d.sequence.toNat) =
        List.range' start.toNat (t.expected.toNat - start.toNat) ∧
      (∀ d ∈ out, firstPayload ((GapTracker.withCapacity start maxBuffered).kept
        (ops.flatMap GapTracker.Op.messages)) d.sequence = some d.payload) ∧
      (∀ (k : UInt64) (v : List UInt8), t.pending[k]? = some v → t.expected.toNat < k.toNat) ∧
      t.pending.size ≤ maxBuffered ∧
      t.openGap = t.pending.minKey?.map (fun k => (t.expected, k - 1)) := by
  have hlast : (UInt64.ofNat (2 ^ 64 - 1)).toNat = 2 ^ 64 - 1 :=
    UInt64.toNat_ofNat_of_lt' (by norm_num)
  have hle : start.toNat ≤ (UInt64.ofNat (2 ^ 64 - 1)).toNat := by
    have := start.toNat_lt
    omega
  obtain ⟨h0, hs0⟩ := GapTracker.tracks_start start (UInt64.ofNat (2 ^ 64 - 1)) maxBuffered hle
  obtain ⟨ht, hs⟩ := GapTracker.ingestAll_tracks (ops.flatMap GapTracker.Op.messages) h0 hs0 (by
    intro m hm he
    have := hseq m hm
    rw [he, hlast] at this
    omega)
  rw [List.nil_append, List.nil_append] at ht
  have hroom := ht.room
  rw [GapTracker.ingestAll_maxBuffered] at hroom
  exact ⟨_, _, GapTracker.runOps_eq hf _ ops hw, ht.lower, ht.seqs, ht.paid, hs, hroom,
    GapTracker.openGap_eq hs⟩

/-- A forward message, a frame with the number before it, and the retransmit that closes the gap. -/
theorem gapTracker_in_order_short :
    ∃ t out, GapTracker.runOps (2 ^ 16) (GapTracker.withCapacity 1 4) [.single 3 [7],
        .frame ⟨⟨List.replicate 10 0x20, 2, 1⟩, [0, 1, 5]⟩, .single 1 [9]] = some (t, out) ∧
      out.map (fun d => d.sequence.toNat) = List.range' 1 (t.expected.toNat - 1) ∧
      t.pending.size ≤ 4 := by
  obtain ⟨t, out, hrun, _, hseqs, _, _, hroom, _⟩ := gapTracker_in_order 1 4 (Nat.le_refl _)
    [.single 3 [7], .frame ⟨⟨List.replicate 10 0x20, 2, 1⟩, [0, 1, 5]⟩, .single 1 [9]]
    (by
      intro op hop
      fin_cases hop
      · trivial
      · exact Or.inr (Or.inr ⟨by decide, by decide, trivial⟩)
      · trivial)
    (by decide)
  exact ⟨t, out, hrun, hseqs, hroom⟩

end Flowlab.Replay
