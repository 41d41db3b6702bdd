import Flowlab.Replay.GapTracker
import Mathlib.Data.List.Dedup

namespace Flowlab.Replay

open Std Framework

namespace GapTracker

/-- The sequence numbers of some messages, each once. -/
def distinctSeqs (ms : List Message) : List UInt64 := (ms.map Prod.fst).dedup

/-- When a buffer that may hold every number seen is full, it holds them all. -/
theorem pending_of_full {start gap : UInt64} {ms all : List Message} {out : List Delivered}
    {t : GapTracker} (h : Tracks start gap ms out t) (hsub : ∀ m ∈ ms, m ∈ all)
    (hcap : (distinctSeqs all).length ≤ t.maxBuffered) (hfull : t.maxBuffered ≤ t.pending.size)
    {m : Message} (hm : m ∈ all) : t.pending[m.1]? ≠ none := by
  have hkeys : t.pending.keys ⊆ distinctSeqs all := by
    intro k hk
    obtain ⟨v, hv⟩ := Option.isSome_iff_exists.mp
      (ExtTreeMap.isSome_getElem?_iff_mem.mpr (ExtTreeMap.mem_keys.mp hk))
    have hfirst := mem_of_firstPayload (h.reach k v hv).2.2
    exact List.mem_dedup.mpr (List.mem_map.mpr ⟨(k, v), hsub _ hfirst, rfl⟩)
  have hnd : t.pending.keys.Nodup := ExtTreeMap.nodup_keys
  have hlen : t.pending.keys.length = t.pending.size := ExtTreeMap.length_keys
  have hperm : t.pending.keys.Perm (distinctSeqs all) :=
    (List.subperm_of_subset hnd hkeys).perm_of_length_le (by omega)
  have hmem : m.1 ∈ t.pending.keys :=
    hperm.mem_iff.mpr (List.mem_dedup.mpr (List.mem_map.mpr ⟨m, hm, rfl⟩))
  exact Option.isSome_iff_ne_none.mp (ExtTreeMap.isSome_getElem?_iff_mem.mpr
    (ExtTreeMap.mem_keys.mp hmem))

/-- With room for every number, the account covers every message that arrived. -/
theorem ingestAll_tracks_all {start gap : UInt64} (ms : List Message) {known : List Message}
    {done : List Delivered} {t : GapTracker} (h : Tracks start gap known done t) (hs : t.Settled)
    (hgap : ∀ m ∈ ms, m.1 ≠ gap) (hcap : (distinctSeqs (known ++ ms)).length ≤ t.maxBuffered) :
    Tracks start gap (known ++ ms) (done ++ (t.ingestAll ms []).2) (t.ingestAll ms []).1 ∧
      (t.ingestAll ms []).1.Settled := by
  induction ms generalizing known done t with
  | nil => simpa [ingestAll] using ⟨h, hs⟩
  | cons m ms ih =>
    have h' : Tracks start gap known (done ++ []) t := by rwa [List.append_nil]
    obtain ⟨h1, h2⟩ := ingestOne_tracks h' hs m.2 (hgap m (by simp))
    have hall : Tracks start gap (known ++ [m]) (done ++ (t.ingestOne m.1 m.2 []).2)
        (t.ingestOne m.1 m.2 []).1 := by
      by_cases hover : t.overflows m.1 = true
      · rw [if_pos hover] at h1
        simp only [overflows, Bool.and_eq_true, decide_eq_true_eq] at hover
        obtain ⟨t', hr, _, _, hp⟩ :=
          ingestOne_forward (UInt64.lt_iff_toNat_lt.mp hover.1) m.2 []
        rw [if_pos (Or.inl hover.2)] at hp
        have hin := pending_of_full h (fun x hx => List.mem_append_left _ hx) hcap hover.2
          (m := m) (by simp)
        rw [hr] at h1 ⊢
        exact tracks_again h1 (Or.inr (by rw [hp]; exact hin))
      · rwa [if_neg hover] at h1
    have hmax : (t.ingestOne m.1 m.2 []).1.maxBuffered = t.maxBuffered :=
      ingestAll_maxBuffered t [m] []
    obtain ⟨h3, h4⟩ := ih hall h2 (fun x hx => hgap x (List.mem_cons_of_mem m hx))
      (by rw [hmax, List.append_assoc]; exact hcap)
    rw [ingestAll_cons, ingestAll_out]
    rw [List.append_assoc, List.append_assoc] at h3
    exact ⟨h3, h4⟩

/-- A number below `expected` was delivered, hence seen. -/
theorem seen_of_lt {start gap : UInt64} {ms : List Message} {out : List Delivered} {t : GapTracker}
    (h : Tracks start gap ms out t) {s : UInt64} (h1 : start.toNat ≤ s.toNat)
    (h2 : s.toNat < t.expected.toNat) : ∃ p, (s, p) ∈ ms := by
  have hmem : s.toNat ∈ out.map (fun d => d.sequence.toNat) := by
    rw [h.seqs, List.mem_range'_1]
    omega
  obtain ⟨d, hd, he⟩ := List.mem_map.mp hmem
  have hs : d.sequence = s := UInt64.toNat_inj.mp he
  exact ⟨d.payload, hs ▸ mem_of_firstPayload (h.paid d hd)⟩

theorem expected_unseen {start gap : UInt64} {ms : List Message} {out : List Delivered}
    {t : GapTracker} (h : Tracks start gap ms out t) (hs : t.Settled) {m : Message} (hm : m ∈ ms) :
    m.1 ≠ t.expected := by
  intro he
  rcases h.known m hm with hk | hk
  · rw [he] at hk
    omega
  · obtain ⟨v, hv⟩ := Option.ne_none_iff_exists'.mp hk
    have hlt := hs m.1 v hv
    rw [he] at hlt
    omega

/-- `expected` is the first number not seen, so the same messages give the same one. -/
theorem expected_le {start gap : UInt64} {ms ms' : List Message} {out out' : List Delivered}
    {t t' : GapTracker} (h : Tracks start gap ms out t) (hs : t.Settled)
    (h' : Tracks start gap ms' out' t') (hsub : ∀ m ∈ ms', m ∈ ms) :
    t'.expected.toNat ≤ t.expected.toNat := by
  by_contra hlt
  obtain ⟨p, hp⟩ := seen_of_lt h' h.lower (Nat.not_le.mp hlt)
  exact expected_unseen h hs (hsub _ hp) rfl

theorem pending_of_seen {start gap : UInt64} {ms : List Message} {out : List Delivered}
    {t : GapTracker} (h : Tracks start gap ms out t)
    (hcopy : ∀ m ∈ ms, ∀ n ∈ ms, m.1 = n.1 → m.2 = n.2) {k : UInt64} {v : List UInt8}
    (hm : (k, v) ∈ ms) (hk : t.expected.toNat < k.toNat) : t.pending[k]? = some v := by
  rcases h.known _ hm with hlt | hne
  · dsimp only at hlt
    omega
  · obtain ⟨w, hw⟩ := Option.ne_none_iff_exists'.mp hne
    have hmem := mem_of_firstPayload (h.reach k w hw).2.2
    have : v = w := hcopy _ hm _ hmem rfl
    rw [this]
    exact hw

theorem pending_eq {start gap : UInt64} {ms ms' : List Message} {out out' : List Delivered}
    {t t' : GapTracker} (h : Tracks start gap ms out t) (hs : t.Settled)
    (h' : Tracks start gap ms' out' t') (hs' : t'.Settled) (hiff : ∀ m, m ∈ ms ↔ m ∈ ms')
    (hcopy : ∀ m ∈ ms, ∀ n ∈ ms, m.1 = n.1 → m.2 = n.2) (he : t.expected = t'.expected) :
    t.pending = t'.pending := by
  have hcopy' : ∀ m ∈ ms', ∀ n ∈ ms', m.1 = n.1 → m.2 = n.2 := fun m hm n hn =>
    hcopy m ((hiff m).mpr hm) n ((hiff n).mpr hn)
  apply ExtTreeMap.ext_getElem?
  intro k
  apply Option.ext
  intro v
  constructor
  · intro hk
    exact pending_of_seen h' hcopy' ((hiff _).mp (mem_of_firstPayload (h.reach k v hk).2.2))
      (he ▸ hs k v hk)
  · intro hk
    exact pending_of_seen h hcopy ((hiff _).mpr (mem_of_firstPayload (h'.reach k v hk).2.2))
      (he ▸ hs' k v hk)

theorem delivered_eq {out out' : List Delivered}
    (hseq : out.map (fun d => d.sequence.toNat) = out'.map (fun d => d.sequence.toNat))
    (hpay : ∀ d ∈ out, ∀ d' ∈ out', d.sequence = d'.sequence → d.payload = d'.payload) :
    out = out' := by
  induction out generalizing out' with
  | nil => exact (List.map_eq_nil_iff.mp hseq.symm).symm
  | cons d out ih =>
    cases out' with
    | nil => simp at hseq
    | cons d' out' =>
      rw [List.map_cons, List.map_cons] at hseq
      obtain ⟨h1, h2⟩ := List.cons.inj hseq
      have hs : d.sequence = d'.sequence := UInt64.toNat_inj.mp h1
      have hd : d = d' := Delivered.ext hs (hpay d (by simp) d' (by simp) hs)
      rw [hd, ih h2 (fun a ha b hb => hpay a (List.mem_cons_of_mem d ha) b (List.mem_cons_of_mem d' hb))]

end GapTracker

/-- Two arrivals of the same messages, in any order and any grouping into frames, leave the same
stream, `expected` and buffer, as long as the buffer can hold every number and some number from
`start` on is missing. The stream is the run of numbers from `start` up to the first missing one. -/
theorem gapTracker_order_free (start : UInt64) (maxBuffered : Nat) {fuel : Nat} (hf : 2 ^ 16 ≤ fuel)
    (ops ops' : List GapTracker.Op) (hw : ∀ op ∈ ops, op.WellFormed)
    (hw' : ∀ op ∈ ops', op.WellFormed)
    (hperm : (ops.flatMap GapTracker.Op.messages).Perm (ops'.flatMap GapTracker.Op.messages))
    (hcopy : ∀ m ∈ ops.flatMap GapTracker.Op.messages, ∀ n ∈ ops.flatMap GapTracker.Op.messages,
      m.1 = n.1 → m.2 = n.2)
    (hcap : (GapTracker.distinctSeqs (ops.flatMap GapTracker.Op.messages)).length ≤ maxBuffered)
    (hmiss : ∃ gap : UInt64, start ≤ gap ∧
      ∀ m ∈ ops.flatMap GapTracker.Op.messages, m.1 ≠ gap) :
    ∃ t t' out out',
      GapTracker.runOps fuel (GapTracker.withCapacity start maxBuffered) ops = some (t, out) ∧
      GapTracker.runOps fuel (GapTracker.withCapacity start maxBuffered) ops' = some (t', out') ∧
      out = out' ∧ t.expected = t'.expected ∧ t.pending = t'.pending ∧
      out.map (fun d => d.sequence.toNat) =
        List.range' start.toNat (t.expected.toNat - start.toNat) ∧
      (∀ d ∈ out, (d.sequence, d.payload) ∈ ops.flatMap GapTracker.Op.messages) ∧
      (∀ s : UInt64, start ≤ s → s < t.expected →
        ∃ p, (s, p) ∈ ops.flatMap GapTracker.Op.messages) ∧
      (∀ p, (t.expected, p) ∉ ops.flatMap GapTracker.Op.messages) := by
  obtain ⟨gap, hge, hgap⟩ := hmiss
  obtain ⟨h0, hs0⟩ :=
    GapTracker.tracks_start start gap maxBuffered (UInt64.le_iff_toNat_le.mp hge)
  have hseqs : (GapTracker.distinctSeqs (ops'.flatMap GapTracker.Op.messages)).length ≤
      maxBuffered := by
    rw [GapTracker.distinctSeqs, ← ((hperm.map Prod.fst).dedup).length_eq]
    exact hcap
  obtain ⟨ht, hs⟩ := GapTracker.ingestAll_tracks_all (ops.flatMap GapTracker.Op.messages) h0 hs0
    hgap hcap
  obtain ⟨ht', hs'⟩ := GapTracker.ingestAll_tracks_all (ops'.flatMap GapTracker.Op.messages) h0 hs0
    (fun m hm => hgap m (hperm.mem_iff.mpr hm)) hseqs
  rw [List.nil_append, List.nil_append] at ht ht'
  have hexp := UInt64.toNat_inj.mp (Nat.le_antisymm
    (GapTracker.expected_le ht' hs' ht (fun m hm => hperm.mem_iff.mp hm))
    (GapTracker.expected_le ht hs ht' (fun m hm => hperm.mem_iff.mpr hm)))
  have hout := GapTracker.delivered_eq (by rw [ht.seqs, ht'.seqs, hexp]) (fun d hd d' hd' he =>
    hcopy _ (mem_of_firstPayload (ht.paid d hd)) _
      (hperm.mem_iff.mpr (mem_of_firstPayload (ht'.paid d' hd'))) he)
  refine ⟨_, _, _, _, GapTracker.runOps_eq hf _ ops hw, GapTracker.runOps_eq hf _ ops' hw', hout,
    hexp, GapTracker.pending_eq ht hs ht' hs' (fun m => hperm.mem_iff) hcopy hexp, ht.seqs,
    fun d hd => mem_of_firstPayload (ht.paid d hd), ?_, ?_⟩
  · intro s h1 h2
    exact GapTracker.seen_of_lt ht (UInt64.le_iff_toNat_le.mp h1) (UInt64.lt_iff_toNat_lt.mp h2)
  · intro p hp
    exact GapTracker.expected_unseen ht hs hp rfl

/-- Three messages, one of them twice, against a frame and a single. -/
theorem gapTracker_order_free_short :
    ∃ t t' out out',
      GapTracker.runOps (2 ^ 16) (GapTracker.withCapacity 1 2)
        [.single 2 [5], .single 2 [5], .single 1 [9]] = some (t, out) ∧
      GapTracker.runOps (2 ^ 16) (GapTracker.withCapacity 1 2)
        [.frame ⟨⟨List.replicate 10 0x20, 1, 2⟩, [0, 1, 9, 0, 1, 5]⟩, .single 2 [5]] =
          some (t', out') ∧
      out = out' ∧ t.expected = t'.expected ∧ t.pending = t'.pending := by
  obtain ⟨t, t', out, out', h, h', ho, he, hp, _⟩ := gapTracker_order_free 1 2 (Nat.le_refl _)
    [.single 2 [5], .single 2 [5], .single 1 [9]]
    [.frame ⟨⟨List.replicate 10 0x20, 1, 2⟩, [0, 1, 9, 0, 1, 5]⟩, .single 2 [5]]
    (by
      intro op hop
      fin_cases hop <;> trivial)
    (by
      intro op hop
      fin_cases hop
      · exact Or.inr (Or.inr ⟨by decide, by decide, by decide, by decide, trivial⟩)
      · trivial)
    (by decide) (by decide) (by decide) ⟨3, by decide, by decide⟩
  exact ⟨t, t', out, out', h, h', ho, he, hp⟩

/-- Past the last sequence number `expected` wraps to 0: from `start` = 2^64 - 1 the messages
2^64 - 1 and 0 are both delivered in this order, and only the first of them in the other. -/
theorem gapTracker_wraps :
    ([(0xffffffffffffffff, [1]), (0, [2])] : List Message).Perm
      [(0, [2]), (0xffffffffffffffff, [1])] ∧
    (GapTracker.distinctSeqs [(0xffffffffffffffff, [1]), (0, [2])]).length ≤ 2 ∧
    (GapTracker.runOps (2 ^ 16) (GapTracker.withCapacity 0xffffffffffffffff 2)
        [.single 0xffffffffffffffff [1], .single 0 [2]]).map Prod.snd ≠
      (GapTracker.runOps (2 ^ 16) (GapTracker.withCapacity 0xffffffffffffffff 2)
        [.single 0 [2], .single 0xffffffffffffffff [1]]).map Prod.snd := by
  decide

end Flowlab.Replay
