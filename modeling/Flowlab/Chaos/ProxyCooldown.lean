import Flowlab.Framework.Emission
import Flowlab.Chaos.LatencyArbProxy
import Flowlab.Chaos.PriceLevels

namespace Flowlab.Chaos

open Std Framework Framework.Machine
open Flowlab.Core (EventType SequencedEvent satSub64)

namespace LatencyArbProxyDetector

/-- The detector as it walks its triggers: the event applied, a large print of its own seeded. -/
def armed (d : LatencyArbProxyDetector) (etype : EventType) (ev : SequencedEvent) :
    LatencyArbProxyDetector :=
  let r := d.mutate etype ev.event
  r.1.seed ev r.2 d.toMiniBook.midprice

/-- A step with the touch read off the sorted keys of the book, which evaluates. -/
def processKeys (d : LatencyArbProxyDetector) (ev : SequencedEvent) :
    LatencyArbProxyDetector × Option ChaosEvent :=
  match EventType.fromU8 ev.event.eventType with
  | none => (d, none)
  | some .bookSnapshot => (d, none)
  | some etype =>
    let r := d.mutate etype ev.event
    (r.1.seed ev r.2 (MiniBook.mid d.bids.keys.getLast? d.asks.keys.head?)).react etype ev

theorem process_eq_keys : process = processKeys := by
  funext d ev
  cases htype : EventType.fromU8 ev.event.eventType with
  | none => simp only [process, processKeys, htype]
  | some etype => cases etype <;> simp only [process, processKeys, htype, MiniBook.midprice_eq_keys]

/-- A trigger that meets every flag condition at an event: its window is open, its burst complete
and, where reversion is required, the mid back in time. -/
def Ripe (d : LatencyArbProxyDetector) (etype : EventType) (ev : SequencedEvent)
    (trig : PendingTrigger) : Prop :=
  d.insideWindow ev trig = true ∧ (d.burst etype ev trig).burstQualified = true ∧
    (d.requireReversion = true →
      satSub64 ev.seq (d.burst etype ev trig).lastBurstSeq ≤ d.reactionSeq ∧
        d.reverted (d.burst etype ev trig) = true)

instance (d : LatencyArbProxyDetector) (etype : EventType) (ev : SequencedEvent)
    (trig : PendingTrigger) : Decidable (d.Ripe etype ev trig) :=
  inferInstanceAs (Decidable (_ ∧ _ ∧ (_ → _)))

/-- A trigger that was seeded at `s` is ripe as an event meets it. -/
def Completes (d : LatencyArbProxyDetector) (s : UInt64) (ev : SequencedEvent) : Prop :=
  match EventType.fromU8 ev.event.eventType with
  | none => False
  | some .bookSnapshot => False
  | some etype =>
    ∃ trig ∈ (d.armed etype ev).pending, trig.seq = s ∧ (d.armed etype ev).Ripe etype ev trig

/-- A visit keeps a flag that is there, and raises one for a ripe trigger. -/
theorem visit_flag (d : LatencyArbProxyDetector) (etype : EventType) (ev : SequencedEvent) (w : Walk)
    (trig : PendingTrigger) :
    ((d.visit etype ev w trig).flag.isSome = true ↔
      w.flag.isSome = true ∨ d.Ripe etype ev trig) ∧
    (∀ f, (d.visit etype ev w trig).flag = some f → w.flag = some f ∨ f.endSeq = ev.seq) := by
  simp only [visit, Ripe]
  cases hw : w.flag with
  | none =>
    split_ifs <;> simp_all [buildFlag]
  | some f =>
    split_ifs <;> simp_all

theorem walk_flag (d : LatencyArbProxyDetector) (etype : EventType) (ev : SequencedEvent)
    (trigs : List PendingTrigger) (w : Walk) :
    ((trigs.foldl (d.visit etype ev) w).flag.isSome = true ↔
      w.flag.isSome = true ∨ ∃ trig ∈ trigs, d.Ripe etype ev trig) ∧
    (∀ f, (trigs.foldl (d.visit etype ev) w).flag = some f → w.flag = some f ∨ f.endSeq = ev.seq) := by
  induction trigs generalizing w with
  | nil => exact ⟨by simp, fun _ hf => Or.inl hf⟩
  | cons trig trigs ih =>
    obtain ⟨hsome, hend⟩ := ih (d.visit etype ev w trig)
    obtain ⟨hvisit, hvend⟩ := d.visit_flag etype ev w trig
    constructor
    · rw [List.foldl_cons, hsome, hvisit]
      simp [or_assoc]
    · intro f hf
      rcases hend f hf with hf | hf
      · exact hvend f hf
      · exact Or.inr hf

/-- A step flags exactly when a trigger completes, and the flag ends at its event. -/
theorem process_flag_iff (d : LatencyArbProxyDetector) (ev : SequencedEvent) :
    ((d.process ev).2.isSome = true ↔ ∃ s, d.Completes s ev) ∧
    (∀ f, (d.process ev).2 = some f → f.endSeq = ev.seq) := by
  have hreact (etype : EventType) :
      (((d.armed etype ev).react etype ev).2.isSome = true ↔
        ∃ s, ∃ trig ∈ (d.armed etype ev).pending, trig.seq = s ∧
          (d.armed etype ev).Ripe etype ev trig) ∧
      ∀ f, ((d.armed etype ev).react etype ev).2 = some f → f.endSeq = ev.seq := by
    obtain ⟨hsome, hend⟩ := (d.armed etype ev).walk_flag etype ev (d.armed etype ev).pending
      ⟨[], none, (d.armed etype ev).refractoryUntil⟩
    simp only [Option.isSome_none, Bool.false_eq_true, false_or, reduceCtorEq] at hsome hend
    refine ⟨hsome.trans ?_, hend⟩
    constructor
    · rintro ⟨trig, htrig, hripe⟩
      exact ⟨trig.seq, trig, htrig, rfl, hripe⟩
    · rintro ⟨_, trig, htrig, _, hripe⟩
      exact ⟨trig, htrig, hripe⟩
  simp only [process, Completes]
  cases EventType.fromU8 ev.event.eventType with
  | none => simp
  | some etype =>
    cases etype with
    | bookSnapshot => simp
    | _ => exact hreact _

theorem burst_seq (d : LatencyArbProxyDetector) (etype : EventType) (ev : SequencedEvent)
    (trig : PendingTrigger) : (d.burst etype ev trig).seq = trig.seq := by
  simp only [burst]
  split_ifs <;> rfl

/-- A walk keeps triggers it was given, and arms the refractory period with its flag. -/
structure WalkStep (d : LatencyArbProxyDetector) (ev : SequencedEvent) (trigs : List PendingTrigger)
    (w w' : Walk) : Prop where
  keep : ∀ t ∈ w'.keep, t ∈ w.keep ∨ ∃ trig ∈ trigs, t.seq = trig.seq
  refractory : (w'.flag = w.flag ∧ w'.refractoryUntil = w.refractoryUntil) ∨
    (w'.flag ≠ none ∧ w'.refractoryUntil = satAdd64 ev.seq d.cooldownSeq)

theorem walkStep_visit (d : LatencyArbProxyDetector) (etype : EventType) (ev : SequencedEvent)
    (w : Walk) (trig : PendingTrigger) : WalkStep d ev [trig] w (d.visit etype ev w trig) := by
  have hsame : WalkStep d ev [trig] w w := ⟨fun t ht => Or.inl ht, Or.inl ⟨rfl, rfl⟩⟩
  have hkept : WalkStep d ev [trig] w { w with keep := w.keep ++ [d.burst etype ev trig] } := by
    refine ⟨fun t ht => ?_, Or.inl ⟨rfl, rfl⟩⟩
    rcases List.mem_append.mp ht with ht | ht
    · exact Or.inl ht
    · rw [List.mem_singleton.mp ht]
      exact Or.inr ⟨trig, by simp, d.burst_seq etype ev trig⟩
  simp only [visit]
  split_ifs
  · exact ⟨fun t ht => Or.inl ht, Or.inr ⟨by simp, rfl⟩⟩
  · exact hkept
  · exact hsame
  · exact ⟨fun t ht => Or.inl ht, Or.inr ⟨by simp, rfl⟩⟩
  · exact hsame
  · exact hkept
  · exact hsame

theorem walkStep_walk (d : LatencyArbProxyDetector) (etype : EventType) (ev : SequencedEvent)
    (trigs : List PendingTrigger) (w : Walk) :
    WalkStep d ev trigs w (trigs.foldl (d.visit etype ev) w) := by
  induction trigs generalizing w with
  | nil => exact ⟨fun t ht => Or.inl ht, Or.inl ⟨rfl, rfl⟩⟩
  | cons trig trigs ih =>
    have hvisit := d.walkStep_visit etype ev w trig
    have hrest := ih (d.visit etype ev w trig)
    rw [List.foldl_cons]
    constructor
    · intro t ht
      rcases hrest.keep t ht with ht | ⟨t', ht', hseq⟩
      · rcases hvisit.keep t ht with ht | ⟨t', ht', hseq⟩
        · exact Or.inl ht
        · exact Or.inr ⟨t', List.mem_cons.mpr (Or.inl (List.mem_singleton.mp ht')), hseq⟩
      · exact Or.inr ⟨t', List.mem_cons_of_mem trig ht', hseq⟩
    · rcases hrest.refractory with ⟨hf, hr⟩ | hr
      · rw [hf, hr]
        exact hvisit.refractory
      · exact Or.inr hr

/-- The triggers that an event meets were pending, or are its own. -/
theorem armed_pending {d : LatencyArbProxyDetector} {etype : EventType} {ev : SequencedEvent}
    {trig : PendingTrigger} (h : trig ∈ (d.armed etype ev).pending) :
    trig ∈ d.pending ∨ (d.refractoryUntil ≤ ev.seq ∧ trig.seq = ev.seq) := by
  have hmutate : (d.mutate etype ev.event).1.pending = d.pending ∧
      (d.mutate etype ev.event).1.refractoryUntil = d.refractoryUntil := by
    cases etype <;> exact ⟨rfl, rfl⟩
  simp only [armed, seed, hmutate] at h
  split_ifs at h with hrefractory
  · exact Or.inl (hmutate.1 ▸ h)
  · split at h
    · split_ifs at h
      · rcases List.mem_append.mp (List.mem_of_mem_tail h) with h | h
        · exact Or.inl h
        · rw [List.mem_singleton.mp h]
          exact Or.inr ⟨UInt64.not_lt.mp hrefractory, rfl⟩
      · rcases List.mem_append.mp h with h | h
        · exact Or.inl h
        · rw [List.mem_singleton.mp h]
          exact Or.inr ⟨UInt64.not_lt.mp hrefractory, rfl⟩
      · exact Or.inl (hmutate.1 ▸ h)
    · exact Or.inl (hmutate.1 ▸ h)

theorem armed_fields (d : LatencyArbProxyDetector) (etype : EventType) (ev : SequencedEvent) :
    (d.armed etype ev).refractoryUntil = d.refractoryUntil ∧
      (d.armed etype ev).cooldownSeq = d.cooldownSeq := by
  have hmutate : (d.mutate etype ev.event).1.refractoryUntil = d.refractoryUntil ∧
      (d.mutate etype ev.event).1.cooldownSeq = d.cooldownSeq := by
    cases etype <;> exact ⟨rfl, rfl⟩
  simp only [armed, seed]
  split_ifs
  · exact hmutate
  · split
    · split_ifs <;> exact hmutate
    · exact hmutate

/-- What a step does to the triggers and to the refractory period. -/
theorem process_pending (d : LatencyArbProxyDetector) (ev : SequencedEvent) :
    (d.process ev).1.cooldownSeq = d.cooldownSeq ∧
    (∀ t ∈ (d.process ev).1.pending, (∃ trig ∈ d.pending, t.seq = trig.seq) ∨
      (d.refractoryUntil ≤ ev.seq ∧ t.seq = ev.seq)) ∧
    (((d.process ev).2 = none ∧ (d.process ev).1.refractoryUntil = d.refractoryUntil) ∨
      ((d.process ev).2 ≠ none ∧
        (d.process ev).1.refractoryUntil = satAdd64 ev.seq d.cooldownSeq)) := by
  have hstay : (∀ t ∈ d.pending, (∃ trig ∈ d.pending, t.seq = trig.seq) ∨
      (d.refractoryUntil ≤ ev.seq ∧ t.seq = ev.seq)) := fun t ht => Or.inl ⟨t, ht, rfl⟩
  have hreact (etype : EventType) :
      ((d.armed etype ev).react etype ev).1.cooldownSeq = d.cooldownSeq ∧
      (∀ t ∈ ((d.armed etype ev).react etype ev).1.pending, (∃ trig ∈ d.pending, t.seq = trig.seq) ∨
        (d.refractoryUntil ≤ ev.seq ∧ t.seq = ev.seq)) ∧
      ((((d.armed etype ev).react etype ev).2 = none ∧
          ((d.armed etype ev).react etype ev).1.refractoryUntil = d.refractoryUntil) ∨
        (((d.armed etype ev).react etype ev).2 ≠ none ∧
          ((d.armed etype ev).react etype ev).1.refractoryUntil =
            satAdd64 ev.seq d.cooldownSeq)) := by
    obtain ⟨hrefractory, hcooldown⟩ := d.armed_fields etype ev
    have hwalk := (d.armed etype ev).walkStep_walk etype ev (d.armed etype ev).pending
      ⟨[], none, (d.armed etype ev).refractoryUntil⟩
    refine ⟨hcooldown, ?_, ?_⟩
    · intro t ht
      rcases hwalk.keep t ht with ht | ⟨trig, htrig, hseq⟩
      · exact absurd ht List.not_mem_nil
      · rcases armed_pending htrig with hmem | ⟨hopen, hown⟩
        · exact Or.inl ⟨trig, hmem, hseq⟩
        · exact Or.inr ⟨hopen, hseq.trans hown⟩
    · rcases hwalk.refractory with ⟨hf, hr⟩ | ⟨hf, hr⟩
      · exact Or.inl ⟨hf, hr.trans hrefractory⟩
      · exact Or.inr ⟨hf, hr.trans (congrArg (satAdd64 ev.seq) hcooldown)⟩
  simp only [process]
  cases EventType.fromU8 ev.event.eventType with
  | none => exact ⟨rfl, hstay, Or.inl ⟨rfl, rfl⟩⟩
  | some etype =>
    cases etype with
    | bookSnapshot => exact ⟨rfl, hstay, Or.inl ⟨rfl, rfl⟩⟩
    | _ => exact hreact _

theorem run_cooldownSeq (d : LatencyArbProxyDetector) (evs : List SequencedEvent) :
    (d.run evs).cooldownSeq = d.cooldownSeq := by
  induction evs generalizing d with
  | nil => rfl
  | cons ev evs ih => exact (ih (d.process ev).1).trans (d.process_pending ev).1

/-- During the cooldown nothing is seeded, unless at the last sequence number, where its end
saturates: every trigger that an event meets there was pending when the flag fired. -/
theorem armed_before_flag {d₀ : LatencyArbProxyDetector} {p m : List SequencedEvent}
    {e₁ e₂ : SequencedEvent} {f₁ : ChaosEvent} (h : LastEmission process (d₀.run p) e₁ m f₁)
    (hseq : (e₁ :: (m ++ [e₂])).Pairwise fun a b => a.seq ≤ b.seq)
    (hsoon : e₂.seq.toNat < e₁.seq.toNat + d₀.cooldownSeq.toNat) (etype : EventType) :
    ∀ trig ∈ ((d₀.run (p ++ e₁ :: m)).armed etype e₂).pending,
      trig.seq.toNat = 2 ^ 64 - 1 ∨ ∃ t ∈ (d₀.run (p ++ [e₁])).pending, t.seq = trig.seq := by
  have hlater := (List.pairwise_cons.mp hseq).2
  obtain ⟨_, _, hlast⟩ := List.pairwise_append.mp hlater
  have hsaturated {j : SequencedEvent} (hj : j.seq ≤ e₂.seq) {t : UInt64}
      (ht : t = satAdd64 e₁.seq d₀.cooldownSeq) (hopen : t ≤ j.seq) :
      j.seq.toNat = 2 ^ 64 - 1 := by
    rw [ht, UInt64.le_iff_toNat_le, satAdd64_toNat] at hopen
    have := UInt64.le_iff_toNat_le.mp hj
    have := j.seq.toNat_lt
    omega
  have hfired : d₀.run (p ++ [e₁]) = ((d₀.run p).process e₁).1 := List.foldl_append
  have hinv := h.rule (P := fun d => d.cooldownSeq = d₀.cooldownSeq ∧
      d.refractoryUntil = satAdd64 e₁.seq d₀.cooldownSeq ∧
      ∀ trig ∈ d.pending,
        trig.seq.toNat = 2 ^ 64 - 1 ∨ ∃ t ∈ (d₀.run (p ++ [e₁])).pending, t.seq = trig.seq) ?_ ?_
  · obtain ⟨_, hrefractory, hbound⟩ := hinv
    have hrun : d₀.run (p ++ e₁ :: m) = after process (d₀.run p) (e₁ :: m) := List.foldl_append
    intro trig htrig
    rw [hrun] at htrig
    rcases armed_pending htrig with hmem | ⟨hopen, hown⟩
    · exact hbound trig hmem
    · rw [hown]
      exact Or.inl (hsaturated (UInt64.le_refl _) hrefractory hopen)
  · obtain ⟨hcooldown, _, hcases⟩ := (d₀.run p).process_pending e₁
    rw [d₀.run_cooldownSeq] at hcooldown hcases
    refine ⟨hcooldown, ?_, fun t ht => Or.inr ⟨t, hfired ▸ ht, rfl⟩⟩
    rcases hcases with ⟨hnone, _⟩ | ⟨_, hr⟩
    · rw [h.emits] at hnone
      exact absurd hnone (by simp)
    · exact hr
  · intro d j hj hd hquiet
    obtain ⟨hcool, hrefractory, hbound⟩ := hd
    obtain ⟨hcool', hfrom, hcases⟩ := d.process_pending j
    refine ⟨hcool'.trans hcool, ?_, fun t ht => ?_⟩
    · rcases hcases with ⟨_, hr⟩ | ⟨hflag, _⟩
      · exact hr.trans hrefractory
      · exact absurd hquiet hflag
    · rcases hfrom t ht with ⟨trig, htrig, hs⟩ | ⟨hopen, hs⟩
      · exact hs ▸ hbound trig htrig
      · rw [hs]
        exact Or.inl (hsaturated (hlast j hj e₂ (by simp)) hrefractory hopen)

/-- What completes during the cooldown was pending when the flag fired. -/
theorem completes_before_flag {d₀ : LatencyArbProxyDetector} {p m : List SequencedEvent}
    {e₁ e₂ : SequencedEvent} {f₁ : ChaosEvent} (h : LastEmission process (d₀.run p) e₁ m f₁)
    (hseq : (e₁ :: (m ++ [e₂])).Pairwise fun a b => a.seq ≤ b.seq)
    (hsoon : e₂.seq.toNat < e₁.seq.toNat + d₀.cooldownSeq.toNat) {s : UInt64}
    (hs : (d₀.run (p ++ e₁ :: m)).Completes s e₂) :
    s.toNat = 2 ^ 64 - 1 ∨ ∃ t ∈ (d₀.run (p ++ [e₁])).pending, t.seq = s := by
  simp only [Completes] at hs
  split at hs
  · exact absurd hs id
  · exact absurd hs id
  · obtain ⟨trig, htrig, rfl, _⟩ := hs
    exact armed_before_flag h hseq hsoon _ trig htrig

end LatencyArbProxyDetector

/-- Over nondecreasing sequence numbers, every two successive flags of a run are at least the cooldown
apart exactly when no trigger that was pending as a flag fired (or, where the end of the cooldown
saturates, was seeded at the last sequence number) completes at an event before the cooldown is over. -/
theorem flags_apart_iff (d₀ : LatencyArbProxyDetector) {evs : List SequencedEvent}
    (hseq : evs.Pairwise fun a b => a.seq ≤ b.seq) :
    (∀ p e₁ m e₂ f₁ f₂, p ++ e₁ :: (m ++ [e₂]) <+: evs →
        LastEmission LatencyArbProxyDetector.process (d₀.run p) e₁ m f₁ →
        ((d₀.run (p ++ e₁ :: m)).process e₂).2 = some f₂ →
        f₁.endSeq.toNat + d₀.cooldownSeq.toNat ≤ f₂.endSeq.toNat) ↔
      (∀ p e₁ m e₂ f₁, p ++ e₁ :: (m ++ [e₂]) <+: evs →
        LastEmission LatencyArbProxyDetector.process (d₀.run p) e₁ m f₁ →
        e₂.seq.toNat < e₁.seq.toNat + d₀.cooldownSeq.toNat →
        ∀ s, s.toNat = 2 ^ 64 - 1 ∨ (∃ t ∈ (d₀.run (p ++ [e₁])).pending, t.seq = s) →
          ¬ (d₀.run (p ++ e₁ :: m)).Completes s e₂) := by
  constructor
  · intro h p e₁ m e₂ f₁ hp h₁ hsoon s _ hs
    obtain ⟨f₂, hf₂⟩ := Option.isSome_iff_exists.mp
      (((d₀.run (p ++ e₁ :: m)).process_flag_iff e₂).1.mpr ⟨s, hs⟩)
    have hapart := h p e₁ m e₂ f₁ f₂ hp h₁ hf₂
    rw [((d₀.run p).process_flag_iff e₁).2 f₁ h₁.emits,
      ((d₀.run (p ++ e₁ :: m)).process_flag_iff e₂).2 f₂ hf₂] at hapart
    omega
  · intro h p e₁ m e₂ f₁ f₂ hp h₁ hf₂
    obtain ⟨s, hs⟩ := ((d₀.run (p ++ e₁ :: m)).process_flag_iff e₂).1.mp (by simp [hf₂])
    rw [((d₀.run p).process_flag_iff e₁).2 f₁ h₁.emits,
      ((d₀.run (p ++ e₁ :: m)).process_flag_iff e₂).2 f₂ hf₂]
    by_contra hfar
    have hsoon : e₂.seq.toNat < e₁.seq.toNat + d₀.cooldownSeq.toNat := by omega
    have horder := (List.pairwise_append.mp (hseq.sublist hp.sublist)).2.1
    have hpending := LatencyArbProxyDetector.completes_before_flag h₁ horder hsoon hs
    exact h p e₁ m e₂ f₁ hp h₁ hsoon s hpending hs

/-- A touch and two large prints against the ask, with one reaction on the bid between them. -/
def twoPrints : List SequencedEvent :=
  [⟨1, 0, ⟨1, 9999, 100, 11, 1, 1, 0⟩, 0, 0⟩, ⟨2, 0, ⟨2, 10001, 200, 21, 1, 1, 1⟩, 0, 0⟩,
    ⟨3, 0, ⟨3, 0, 60, 21, 1, 4, 0⟩, 0, 0⟩, ⟨4, 0, ⟨4, 9999, 10, 0, 1, 2, 0⟩, 0, 0⟩,
    ⟨5, 0, ⟨5, 0, 60, 21, 1, 4, 0⟩, 0, 0⟩]

/-- With a cooldown of one, the next two reactions may flag one print each. -/
theorem flags_apart_iff_one :
    ∃ f₁ f₂, (((LatencyArbProxyDetector.new 50 0 32 5 50 2 false 0 1).run twoPrints).process
        ⟨6, 0, ⟨6, 9999, 10, 0, 1, 2, 0⟩, 0, 0⟩).2 = some f₁ ∧
      (((LatencyArbProxyDetector.new 50 0 32 5 50 2 false 0 1).run
        (twoPrints ++ [⟨6, 0, ⟨6, 9999, 10, 0, 1, 2, 0⟩, 0, 0⟩])).process
          ⟨7, 0, ⟨7, 9999, 10, 0, 1, 2, 0⟩, 0, 0⟩).2 = some f₂ ∧
      f₁.endSeq.toNat + 1 ≤ f₂.endSeq.toNat := by
  have hstrict : List.Pairwise (fun a b : SequencedEvent => a.seq < b.seq)
      (twoPrints ++ [⟨6, 0, ⟨6, 9999, 10, 0, 1, 2, 0⟩, 0, 0⟩,
        ⟨7, 0, ⟨7, 9999, 10, 0, 1, 2, 0⟩, 0, 0⟩]) := by decide
  have h₁ : (((LatencyArbProxyDetector.new 50 0 32 5 50 2 false 0 1).run twoPrints).process
      ⟨6, 0, ⟨6, 9999, 10, 0, 1, 2, 0⟩, 0, 0⟩).2.isSome = true := by
    simp only [LatencyArbProxyDetector.run, LatencyArbProxyDetector.process_eq_keys]
    decide
  have h₂ : (((LatencyArbProxyDetector.new 50 0 32 5 50 2 false 0 1).run
      (twoPrints ++ [⟨6, 0, ⟨6, 9999, 10, 0, 1, 2, 0⟩, 0, 0⟩])).process
        ⟨7, 0, ⟨7, 9999, 10, 0, 1, 2, 0⟩, 0, 0⟩).2.isSome = true := by
    simp only [LatencyArbProxyDetector.run, LatencyArbProxyDetector.process_eq_keys]
    decide
  obtain ⟨f₁, hf₁⟩ := Option.isSome_iff_exists.mp h₁
  obtain ⟨f₂, hf₂⟩ := Option.isSome_iff_exists.mp h₂
  refine ⟨f₁, f₂, hf₁, hf₂, (flags_apart_iff (LatencyArbProxyDetector.new 50 0 32 5 50 2 false 0 1)
    (hstrict.imp UInt64.le_of_lt)).mpr ?_ twoPrints _ [] _ f₁ f₂ List.prefix_rfl
      ⟨hf₁, by simp⟩ hf₂⟩
  intro p e₁ m e₂ _ hp _ hsoon
  -- no event has a sequence number within one of another
  have horder := (List.pairwise_append.mp (hstrict.sublist hp.sublist)).2.1
  have hlt := (List.pairwise_cons.mp horder).1 e₂ (by simp)
  rw [UInt64.lt_iff_toNat_lt] at hlt
  change e₂.seq.toNat < e₁.seq.toNat + 1 at hsoon
  omega

/-- With a burst of two and a cooldown of 1000, the next two reactions flag one print each. -/
theorem flags_one_apart :
    ∃ f₁ f₂, LastEmission LatencyArbProxyDetector.process
        ((LatencyArbProxyDetector.new 50 0 32 5 50 2 false 0 1000).run twoPrints)
        ⟨6, 0, ⟨6, 9999, 10, 0, 1, 2, 0⟩, 0, 0⟩ [] f₁ ∧
      (((LatencyArbProxyDetector.new 50 0 32 5 50 2 false 0 1000).run
        (twoPrints ++ [⟨6, 0, ⟨6, 9999, 10, 0, 1, 2, 0⟩, 0, 0⟩])).process
          ⟨7, 0, ⟨7, 9999, 10, 0, 1, 2, 0⟩, 0, 0⟩).2 = some f₂ ∧
      ¬ f₁.endSeq.toNat + 1000 ≤ f₂.endSeq.toNat := by
  have h₁ : (((LatencyArbProxyDetector.new 50 0 32 5 50 2 false 0 1000).run twoPrints).process
      ⟨6, 0, ⟨6, 9999, 10, 0, 1, 2, 0⟩, 0, 0⟩).2.map ChaosEvent.endSeq = some 6 := by
    simp only [LatencyArbProxyDetector.run, LatencyArbProxyDetector.process_eq_keys]
    decide
  have h₂ : (((LatencyArbProxyDetector.new 50 0 32 5 50 2 false 0 1000).run
      (twoPrints ++ [⟨6, 0, ⟨6, 9999, 10, 0, 1, 2, 0⟩, 0, 0⟩])).process
        ⟨7, 0, ⟨7, 9999, 10, 0, 1, 2, 0⟩, 0, 0⟩).2.map ChaosEvent.endSeq = some 7 := by
    simp only [LatencyArbProxyDetector.run, LatencyArbProxyDetector.process_eq_keys]
    decide
  obtain ⟨f₁, hf₁, hend₁⟩ := Option.map_eq_some_iff.mp h₁
  obtain ⟨f₂, hf₂, hend₂⟩ := Option.map_eq_some_iff.mp h₂
  exact ⟨f₁, f₂, ⟨hf₁, by simp⟩, hf₂, by rw [hend₁, hend₂]; decide⟩

end Flowlab.Chaos
