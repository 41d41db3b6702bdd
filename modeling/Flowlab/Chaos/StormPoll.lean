import Flowlab.Chaos.Storm

namespace Flowlab.Chaos

open Framework Rounding Writer
open Flowlab.Core (Event EventType Side SequencedEvent satSub64 satSub32 satSub32_toNat)

instance lawfulMax64 : Std.LawfulOrderSup UInt64 where
  max_le_iff a b c := by
    show (if a ≤ b then b else a) ≤ c ↔ a ≤ c ∧ b ≤ c
    split_ifs with h
    · exact ⟨fun hc => ⟨UInt64.le_trans h hc, hc⟩, fun hc => hc.2⟩
    · have hle : b ≤ a := UInt64.le_of_lt (UInt64.not_le.mp h)
      exact ⟨fun hc => ⟨hc, UInt64.le_trans hle hc⟩, fun hc => hc.1⟩

theorem cyclesFromDuration_ne_zero (durationNs periodNs : UInt64) {minimum : UInt32}
    (h : 0 < minimum.toNat) : ¬ cyclesFromDuration durationNs periodNs minimum = 0 := by
  intro hz
  have h0 : (0 : UInt32).toNat = 0 := rfl
  have hcast := congrArg UInt32.toNat hz
  simp only [cyclesFromDuration, toNat_max32] at hcast
  omega

/-- A generator has work to do when it is spawned. -/
theorem spawn_unfinished (spec : StormSpec) (basePrice : UInt64) (restart : UInt32) :
    (spawnGenerator spec basePrice restart).finished = false := by
  obtain ⟨kind, severity, durationNs, seed⟩ := spec
  cases kind with
  | phantomLiquidity => exact decide_eq_false (cyclesFromDuration_ne_zero durationNs _ (by decide))
  | spoof => exact decide_eq_false (cyclesFromDuration_ne_zero durationNs _ (by decide))
  | quoteStuff => exact decide_eq_false (cyclesFromDuration_ne_zero durationNs _ (by decide))
  | flashCrash => exact decide_eq_false (cyclesFromDuration_ne_zero durationNs _ (by decide))
  | latencyArbitrage => exact decide_eq_false (cyclesFromDuration_ne_zero durationNs _ (by decide))
  | cancellationStorm => rfl
  | momentumIgnition =>
    refine decide_eq_false ?_
    intro hz
    have h0 : (0 : UInt32).toNat = 0 := rfl
    have h40 : (40 : UInt32).toNat = 40 := rfl
    have hcast := congrArg UInt32.toNat hz
    simp only [MomentumIgnitionGenerator.new, toNat_max32] at hcast
    omega

theorem spawn_bounded (spec : StormSpec) (basePrice : UInt64) (restart : UInt32) :
    (spawnGenerator spec basePrice restart).Bounded := by
  obtain ⟨kind, severity, durationNs, seed⟩ := spec
  cases kind with
  | phantomLiquidity => trivial
  | spoof => trivial
  | flashCrash => trivial
  | momentumIgnition => trivial
  | cancellationStorm => exact rfl
  | quoteStuff =>
    exact ⟨lerp_round_le severity 4 6 (by norm_num) (by norm_num),
      lerp_round_le severity 8 16 (by norm_num) (by norm_num)⟩
  | latencyArbitrage => exact lerp_round_le severity 4 16 (by norm_num) (by norm_num)

theorem spawn_touchFits (spec : StormSpec) {basePrice : UInt64} (h : basePrice.toNat < 2 ^ 62)
    (restart : UInt32) : (spawnGenerator spec basePrice restart).TouchFits := by
  obtain ⟨kind, severity, durationNs, seed⟩ := spec
  cases kind with
  | momentumIgnition => exact MomentumIgnitionGenerator.new_touchRoom _ severity h true
  | _ => trivial

namespace PollLoop

theorem turn_cases {basePrice nowNs : UInt64} {s x t : PollLoop}
    (h : turn basePrice nowNs s = some (x, t)) :
    x = s ∧ s.steps < 32 ∧ (s.active.generator.finished = true ∧ t = s.respawn basePrice ∨
      s.active.generator.finished = false ∧ t = s.step nowNs) := by
  simp only [turn] at h
  split_ifs at h with hsteps hfin hdue
  · obtain ⟨rfl, rfl⟩ := Prod.mk.inj (Option.some.inj h)
    exact ⟨rfl, not_le.mp hsteps, .inl ⟨hfin, rfl⟩⟩
  · obtain ⟨rfl, rfl⟩ := Prod.mk.inj (Option.some.inj h)
    exact ⟨rfl, not_le.mp hsteps, .inr ⟨Bool.eq_false_iff.mpr hfin, rfl⟩⟩

/-- The most turns left: two a step, and one for a generator that has finished. -/
def turnsLeft (s : PollLoop) : ℕ := 2 * (32 - s.steps) + s.active.generator.finished.toNat

theorem turnsLeft_turn {basePrice nowNs : UInt64} (s x t : PollLoop)
    (h : turn basePrice nowNs s = some (x, t)) : t.turnsLeft < s.turnsLeft := by
  obtain ⟨-, hlt, ⟨hfin, rfl⟩ | ⟨hfin, rfl⟩⟩ := turn_cases h
  · have hnew : (s.respawn basePrice).active.generator.finished = false := spawn_unfinished _ _ _
    have hsteps : (s.respawn basePrice).steps = s.steps := rfl
    simp only [turnsLeft, hfin, hnew, hsteps, Bool.toNat_true, Bool.toNat_false]
    omega
  · have hsteps : (s.step nowNs).steps = s.steps + 1 := rfl
    have hle := Bool.toNat_le (s.step nowNs).active.generator.finished
    simp only [turnsLeft, hfin, hsteps, Bool.toNat_false]
    omega

/-- What the loop keeps: the numbers of its events rise from the base to the next one, which every
step moves by a bounded amount. -/
structure Ordered (base : ℕ) (s : PollLoop) : Prop where
  bounded : s.active.generator.Bounded
  steps_le : s.steps ≤ 32
  rises : Rises base (seqs s.out) s.nextSeq.toNat
  next_le : s.nextSeq.toNat ≤ base + s.steps * 2 ^ 34

/-- The number after a batch that rises from `seq`. -/
theorem rises_next {seq : UInt64} {n : ℕ} {es : List SequencedEvent}
    (h : Rises seq.toNat (seqs es) (seq.toNat + n)) (hroom : seq.toNat + n < 2 ^ 64) :
    let next := match (es.map (·.seq)).max? with
      | some maxSeq => satAdd64 maxSeq 1
      | none => seq
    Rises seq.toNat (seqs es) next.toNat ∧ next.toNat ≤ seq.toNat + n := by
  cases hm : (es.map (·.seq)).max? with
  | none =>
    have hnil : es = [] := List.map_eq_nil_iff.mp (List.max?_eq_none_iff.mp hm)
    rw [hnil]
    exact ⟨le_rfl, Nat.le_add_right _ _⟩
  | some m =>
    obtain ⟨hmem, hmax⟩ := List.max?_eq_some_iff.mp hm
    obtain ⟨e, he, rfl⟩ := List.mem_map.mp hmem
    have hmem' : e.seq.toNat ∈ seqs es := List.mem_map.mpr ⟨e, he, rfl⟩
    have hlo := h.ge _ hmem'
    have hhi := h.lt _ hmem'
    have hnext : (satAdd64 e.seq 1).toNat = e.seq.toNat + 1 := by
      have h1 : (1 : UInt64).toNat = 1 := rfl
      rw [satAdd64_toNat, h1]
      omega
    dsimp only
    rw [hnext]
    refine ⟨h.below (by omega) ?_, by omega⟩
    intro x hx
    obtain ⟨e', he', rfl⟩ := List.mem_map.mp hx
    have hle := UInt64.le_iff_toNat_le.mp (hmax _ (List.mem_map.mpr ⟨e', he', rfl⟩))
    omega

theorem Ordered.turn {base : ℕ} (hbase : base < 2 ^ 63) {basePrice nowNs : UInt64} {s x t : PollLoop}
    (h : s.Ordered base) (ht : s.turn basePrice nowNs = some (x, t)) : t.Ordered base := by
  obtain ⟨-, hlt, ⟨hfin, rfl⟩ | ⟨hfin, rfl⟩⟩ := turn_cases ht
  · exact ⟨spawn_bounded _ _ _, h.steps_le, h.rises, h.next_le⟩
  · have hev := h.bounded.stepEvents_le
    have hnext := h.next_le
    have hroom : s.nextSeq.toNat + s.active.generator.stepEvents < 2 ^ 64 := by omega
    have hbatch := (s.active.generator.step_batch nowNs s.nextSeq).seqs hroom
    obtain ⟨hr, hle⟩ := rises_next hbatch hroom
    refine ⟨h.bounded.step nowNs s.nextSeq hfin, hlt, ?_, ?_⟩
    · have hall := h.rises.append hr
      rw [seqs, seqs, ← List.map_append] at hall
      exact hall
    · have hsteps : (s.step nowNs).steps = s.steps + 1 := rfl
      have hle' : (s.step nowNs).nextSeq.toNat ≤ s.nextSeq.toNat + s.active.generator.stepEvents := hle
      rw [hsteps]
      omega

end PollLoop

namespace StormOrchestrator

variable {fuel : ℕ}

theorem pollLoop_ends (hfuel : 65 ≤ fuel) (o : StormOrchestrator) (active : ActiveStorm)
    (nowNs baseSeq : UInt64) :
    (o.pollLoop fuel active nowNs baseSeq).2.turn o.basePrice nowNs = none := by
  refine Drain.drain_ends PollLoop.turnsLeft PollLoop.turnsLeft_turn ?_
  have hle := Bool.toNat_le active.generator.finished
  simp only [PollLoop.turnsLeft]
  omega

/-- A poll returns: nothing of a storm that is over, else what its loop has written. -/
theorem poll_cases (hfuel : 65 ≤ fuel) (o : StormOrchestrator) (nowNs baseSeq : UInt64) :
    ∃ es o', o.poll fuel nowNs baseSeq = some (es, o') ∧ o'.basePrice = o.basePrice ∧
      (es = [] ∧ o'.active = none ∧ o.turns fuel nowNs baseSeq = [] ∨
        ∃ active, o.active = some active ∧ es = (o.pollLoop fuel active nowNs baseSeq).2.out ∧
          o.turns fuel nowNs baseSeq = (o.pollLoop fuel active nowNs baseSeq).1 ∧
          (o'.active = none ∨ o'.active = some (o.pollLoop fuel active nowNs baseSeq).2.active)) := by
  cases ha : o.active with
  | none => exact ⟨[], o, by rw [poll, ha], rfl, .inl ⟨rfl, ha, by rw [turns, ha]⟩⟩
  | some active =>
    by_cases hexp : o.hasExpired nowNs = true
    · refine ⟨[], o.stop, ?_, rfl, .inl ⟨rfl, rfl, ?_⟩⟩
      · rw [poll, ha]
        exact if_pos hexp
      · rw [turns, ha]
        exact if_pos hexp
    · have hpoll : o.poll fuel nowNs baseSeq =
          some ((o.pollLoop fuel active nowNs baseSeq).2.out,
            if hasExpired { o with active := some (o.pollLoop fuel active nowNs baseSeq).2.active } nowNs
            then stop { o with active := some (o.pollLoop fuel active nowNs baseSeq).2.active }
            else { o with active := some (o.pollLoop fuel active nowNs baseSeq).2.active }) := by
        rw [poll, ha]
        simp only [pollLoop_ends hfuel, hexp, Option.isSome_none, Bool.false_eq_true, if_false]
      have hturns : o.turns fuel nowNs baseSeq = (o.pollLoop fuel active nowNs baseSeq).1 := by
        rw [turns, ha]
        exact if_neg hexp
      refine ⟨_, _, hpoll, ?_, .inr ⟨active, rfl, rfl, hturns, ?_⟩⟩
      · split_ifs <;> rfl
      · split_ifs
        · exact .inl rfl
        · exact .inr rfl

/-- What the storm is made with and every turn keeps holds after any polls. -/
theorem polls_hold {P : ActiveStorm → Prop} {basePrice : UInt64}
    (hturn : ∀ nowNs s x t, P s.active → PollLoop.turn basePrice nowNs s = some (x, t) → P t.active)
    (hfuel : 65 ≤ fuel) {o : StormOrchestrator} (ho : o.basePrice = basePrice)
    (hP : ∀ a, o.active = some a → P a) (ps : List (UInt64 × UInt64)) :
    ∃ es o', o.polls fuel ps = some (es, o') ∧ o'.basePrice = basePrice ∧
      ∀ a, o'.active = some a → P a := by
  induction ps generalizing o with
  | nil => exact ⟨[], o, rfl, ho, hP⟩
  | cons p ps ih =>
    obtain ⟨es, o', hpoll, hbase, hcases⟩ := o.poll_cases hfuel p.1 p.2
    have hP' : ∀ a, o'.active = some a → P a := by
      intro a ha
      rcases hcases with ⟨-, hnone, -⟩ | ⟨active, hact, -, -, hnone | hsome⟩
      · rw [hnone] at ha
        exact absurd ha (by simp)
      · rw [hnone] at ha
        exact absurd ha (by simp)
      · rw [hsome] at ha
        rw [← Option.some.inj ha]
        exact Drain.drain_keeps (P := fun s => P s.active)
          (fun s x t hs hr _ => hturn p.1 s x t hs (ho ▸ hr)) fuel (hP active hact)
          (fun _ _ => trivial)
    obtain ⟨fs, o'', hpolls, hbase', hP''⟩ := ih (hbase.trans ho) hP'
    refine ⟨es ++ fs, o'', ?_, hbase', hP''⟩
    rw [polls, hpoll]
    simp only [hpolls, Option.map_some]

end StormOrchestrator

/-- A storm's generator keeps within its sizes, and its touches within 64 bits. -/
def ActiveStorm.Sized (basePrice : UInt64) (a : ActiveStorm) : Prop :=
  a.generator.Bounded ∧ (basePrice.toNat < 2 ^ 62 → a.generator.TouchFits)

theorem PollLoop.turn_sized {basePrice nowNs : UInt64} {s x t : PollLoop}
    (h : s.active.Sized basePrice) (ht : s.turn basePrice nowNs = some (x, t)) :
    x.active.Sized basePrice ∧ t.active.Sized basePrice := by
  obtain ⟨rfl, -, ⟨hfin, rfl⟩ | ⟨hfin, rfl⟩⟩ := turn_cases ht
  · exact ⟨h, spawn_bounded _ _ _, fun hbase => spawn_touchFits _ hbase _⟩
  · exact ⟨h, h.1.step _ _ hfin, fun hbase => (h.2 hbase).step _ _⟩

/-- Every step of the loop counts, and nothing else does. -/
theorem PollLoop.turn_steps {basePrice nowNs : UInt64} (s x t : PollLoop)
    (h : s.turn basePrice nowNs = some (x, t)) :
    t.steps = s.steps + (!x.active.generator.finished).toNat := by
  obtain ⟨rfl, -, ⟨hfin, rfl⟩ | ⟨hfin, rfl⟩⟩ := turn_cases h
  · rw [hfin]
    rfl
  · rw [hfin]
    rfl

namespace StormOrchestrator

variable {fuel : ℕ}

theorem start_sized (basePrice : UInt64) (spec : StormSpec) (startNs : UInt64) :
    ∀ a, ((new basePrice).start spec startNs).1.active = some a → a.Sized basePrice := by
  intro a ha
  rw [← Option.some.inj ha]
  exact ⟨spawn_bounded _ _ _, fun hbase => spawn_touchFits _ hbase _⟩

/-- One poll of a storm whose generator keeps within its sizes. -/
theorem poll_ordered (hfuel : 65 ≤ fuel) (o : StormOrchestrator)
    (hs : ∀ a, o.active = some a → a.Sized o.basePrice) (nowNs baseSeq : UInt64)
    (hbase : baseSeq.toNat < 2 ^ 63) :
    (∃ batch o', o.poll fuel nowNs baseSeq = some (batch, o') ∧
      batch.Pairwise (fun a b => a.seq < b.seq) ∧ ∀ e ∈ batch, baseSeq ≤ e.seq) ∧
    (o.turns fuel nowNs baseSeq).countP (fun s => !s.active.generator.finished) ≤ 32 ∧
    ∀ s ∈ o.turns fuel nowNs baseSeq, (s.respawn o.basePrice).active.generator.finished = false ∧
      (o.basePrice.toNat < 2 ^ 62 → s.active.generator.TouchFits) := by
  obtain ⟨es, o', hpoll, -, ⟨rfl, -, hturns⟩ | ⟨active, hact, rfl, hturns, -⟩⟩ :=
    o.poll_cases hfuel nowNs baseSeq
  · rw [hturns]
    exact ⟨⟨[], o', hpoll, List.Pairwise.nil, fun e he => absurd he (by simp)⟩, Nat.zero_le _,
      fun s hs => absurd hs (by simp)⟩
  · have hstart : PollLoop.Ordered baseSeq.toNat ⟨active, [], baseSeq, 0⟩ :=
      ⟨(hs active hact).1, Nat.zero_le 32, le_rfl, Nat.le_add_right _ _⟩
    have hend : (o.pollLoop fuel active nowNs baseSeq).2.Ordered baseSeq.toNat :=
      Drain.drain_keeps (fun s x t h ht _ => PollLoop.Ordered.turn hbase h ht) fuel hstart
        (fun _ _ => trivial)
    have hsized : ∀ s ∈ (o.pollLoop fuel active nowNs baseSeq).1, s.active.Sized o.basePrice :=
      Drain.drain_items (P := fun s => s.active.Sized o.basePrice)
        (fun s x t h ht => PollLoop.turn_sized h ht) fuel (hs active hact)
    have hcount : (o.pollLoop fuel active nowNs baseSeq).2.steps =
        0 + (o.pollLoop fuel active nowNs baseSeq).1.countP (fun s => !s.active.generator.finished) :=
      Drain.drain_count PollLoop.turn_steps fuel _
    refine ⟨⟨_, o', hpoll, ?_, ?_⟩, ?_, ?_⟩
    · have hp := hend.rises.pairwise
      rw [seqs, List.pairwise_map] at hp
      exact hp.imp (fun h => UInt64.lt_iff_toNat_lt.mpr h)
    · intro e he
      exact UInt64.le_iff_toNat_le.mpr (hend.rises.ge _ (List.mem_map.mpr ⟨e, he, rfl⟩))
    · rw [hturns]
      have hle := hend.steps_le
      omega
    · intro s hmem
      rw [hturns] at hmem
      exact ⟨spawn_unfinished _ _ _, (hsized s hmem).2⟩

/-- However often its generator was replaced, a storm answers every poll after at most 32 steps of a
generator, which is never finished when spawned and never overflows the sum of its touches; the
events are numbered upwards from the base. -/
theorem storm_poll_ordered (hfuel : 65 ≤ fuel) (basePrice : UInt64) (spec : StormSpec)
    (startNs : UInt64) (ps : List (UInt64 × UInt64)) (nowNs baseSeq : UInt64)
    (hbase : baseSeq.toNat < 2 ^ 63) :
    ∃ es o, polls fuel ((new basePrice).start spec startNs).1 ps = some (es, o) ∧
      (∃ batch o', o.poll fuel nowNs baseSeq = some (batch, o') ∧
        batch.Pairwise (fun a b => a.seq < b.seq) ∧ ∀ e ∈ batch, baseSeq ≤ e.seq) ∧
      (o.turns fuel nowNs baseSeq).countP (fun s => !s.active.generator.finished) ≤ 32 ∧
      ∀ s ∈ o.turns fuel nowNs baseSeq, (s.respawn basePrice).active.generator.finished = false ∧
        (basePrice.toNat < 2 ^ 62 → s.active.generator.TouchFits) := by
  obtain ⟨es, o, hpolls, rfl, hs⟩ := polls_hold (P := ActiveStorm.Sized basePrice)
    (fun _ _ _ _ h ht => (PollLoop.turn_sized h ht).2) hfuel rfl (start_sized basePrice spec startNs) ps
  exact ⟨es, o, hpolls, o.poll_ordered hfuel hs nowNs baseSeq hbase⟩

/-- A flash crash polled twice, at a later base. -/
theorem storm_poll_ordered_crash :
    ∃ es o, polls 65 ((new 100000).start ⟨.flashCrash, .fin (9 / 10), 10000000, 7⟩ 1000000).1
        [(1000000, 1)] = some (es, o) ∧
      (∃ batch o', o.poll 65 5000000 50 = some (batch, o') ∧
        batch.Pairwise (fun a b => a.seq < b.seq) ∧ ∀ e ∈ batch, 50 ≤ e.seq) ∧
      (o.turns 65 5000000 50).countP (fun s => !s.active.generator.finished) ≤ 32 ∧
      ∀ s ∈ o.turns 65 5000000 50, (s.respawn 100000).active.generator.finished = false ∧
        ((100000 : UInt64).toNat < 2 ^ 62 → s.active.generator.TouchFits) :=
  storm_poll_ordered le_rfl 100000 ⟨.flashCrash, .fin (9 / 10), 10000000, 7⟩ 1000000 [(1000000, 1)]
    5000000 50 (by decide)

end StormOrchestrator

end Flowlab.Chaos
