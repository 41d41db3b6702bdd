import Flowlab.Chaos.StormPoll
import Flowlab.Framework.Pacing

namespace Flowlab.Chaos

open Framework Pacing

namespace Generator

/-- `step_period_ns`, which every generator has. -/
def stepPeriodNs : Generator → UInt64
  | phantomLiquidity g => g.stepPeriodNs
  | quoteStuff g => g.stepPeriodNs
  | spoof g => g.stepPeriodNs
  | cancellationStorm g => g.stepPeriodNs
  | momentumIgnition g => g.stepPeriodNs
  | flashCrash g => g.stepPeriodNs
  | latencyArbProxy g => g.stepPeriodNs

end Generator

theorem CancellationStormGenerator.phase_period (g : CancellationStormGenerator) :
    g.phase.1.stepPeriodNs = g.stepPeriodNs := by
  rw [phase]
  split_ifs <;> rfl

/-- A step of a generator that has not finished is followed by the next one a period later. -/
theorem Generator.step_nextDue (g : Generator) (nowNs baseSeq : UInt64) (h : g.finished = false) :
    (g.step nowNs baseSeq).2.nextDueNs = satAdd64 nowNs g.stepPeriodNs := by
  cases g with
  | phantomLiquidity g => rfl
  | quoteStuff g => rfl
  | spoof g => rfl
  | cancellationStorm g => exact congrArg (satAdd64 nowNs) g.phase_period
  | momentumIgnition g => rfl
  | flashCrash g => rfl
  | latencyArbProxy g => exact (g.step_fields nowNs baseSeq h).2.2.2

/-- A generator is due as soon as it is spawned. -/
theorem spawn_due (spec : StormSpec) (basePrice : UInt64) (restart : UInt32) :
    (spawnGenerator spec basePrice restart).nextDueNs = 0 := by
  obtain ⟨kind, severity, durationNs, seed⟩ := spec
  cases kind <;> rfl

/-- The clocks of generators, whose times saturate. -/
def stormClock : Clock Generator where
  done := Generator.finished
  due g := g.nextDueNs.toNat
  period g := g.stepPeriodNs.toNat
  top := 2 ^ 64 - 1

theorem Generator.step_due (g : Generator) (nowNs baseSeq : UInt64) (h : g.finished = false) :
    stormClock.due (g.step nowNs baseSeq).2 =
      min (nowNs.toNat + stormClock.period g) stormClock.top := by
  show (g.step nowNs baseSeq).2.nextDueNs.toNat = _
  rw [g.step_nextDue nowNs baseSeq h, satAdd64_toNat]
  rfl

namespace PollLoop

/-- A turn as it is seen from outside: when, and for which generator. -/
def seen (nowNs : UInt64) (s : PollLoop) : ℕ × Generator := (nowNs.toNat, s.active.generator)

/-- The turns that the loop takes. -/
inductive Turned (basePrice nowNs : UInt64) (s : PollLoop) : PollLoop → Prop
  | step (hgo : s.active.generator.finished = false) (hdue : s.active.generator.nextDueNs ≤ nowNs) :
    Turned basePrice nowNs s (s.step nowNs)
  | respawn (hsteps : s.steps < 32) (hend : s.active.generator.finished = true) :
    Turned basePrice nowNs s (s.respawn basePrice)

theorem turn_turned {basePrice nowNs : UInt64} {s x t : PollLoop}
    (h : turn basePrice nowNs s = some (x, t)) : x = s ∧ Turned basePrice nowNs s t := by
  simp only [turn] at h
  split_ifs at h with hsteps hfin hdue
  · obtain ⟨rfl, rfl⟩ := Prod.mk.inj (Option.some.inj h)
    exact ⟨rfl, .respawn (not_le.mp hsteps) hfin⟩
  · obtain ⟨rfl, rfl⟩ := Prod.mk.inj (Option.some.inj h)
    exact ⟨rfl, .step (Bool.eq_false_iff.mpr hfin) (UInt64.not_lt.mp hdue)⟩

/-- After a replacement the loop goes on with a step of the new generator. -/
theorem turn_respawn (basePrice nowNs : UInt64) {s : PollLoop} (hsteps : s.steps < 32) :
    turn basePrice nowNs (s.respawn basePrice) =
      some (s.respawn basePrice, (s.respawn basePrice).step nowNs) := by
  have hgo : (s.respawn basePrice).active.generator.finished = false := spawn_unfinished _ _ _
  have hdue : (s.respawn basePrice).active.generator.nextDueNs = 0 := spawn_due _ _ _
  have hlate : ¬ nowNs < (s.respawn basePrice).active.generator.nextDueNs := by
    rw [hdue]
    exact UInt64.not_lt.mpr (UInt64.le_iff_toNat_le.mpr (Nat.zero_le _))
  rw [turn, if_neg (show ¬ 32 ≤ (s.respawn basePrice).steps from not_le.mpr hsteps), hgo,
    if_neg Bool.false_ne_true, if_neg hlate]

/-- The turns of a loop that has ended, followed by what comes after it: by induction on the fuel, two
rounds at once where a generator is replaced. -/
theorem drain_trace {basePrice nowNs : UInt64} (htop : nowNs.toNat < stormClock.top) {lo : ℕ}
    (hlo : lo ≤ nowNs.toNat) (n : ℕ) {s : PollLoop} {rest : List (ℕ × Generator)}
    (hend : turn basePrice nowNs (drain (turn basePrice nowNs) n s).2 = none)
    (hrest : Trace stormClock nowNs.toNat
      (drain (turn basePrice nowNs) n s).2.active.generator rest) :
    Trace stormClock lo s.active.generator
      ((drain (turn basePrice nowNs) n s).1.map (seen nowNs) ++ rest) := by
  induction n using Nat.strongRecOn generalizing lo s with
  | ind n ih =>
    cases hturn : turn basePrice nowNs s with
    | none =>
      rw [Drain.drain_none hturn] at hrest ⊢
      exact hrest.mono hlo
    | some p =>
      obtain ⟨x, t⟩ := p
      obtain ⟨rfl, hturned⟩ := turn_turned hturn
      cases n with
      | zero => exact absurd (hturn.symm.trans hend) (by simp)
      | succ n =>
        rw [Drain.drain_some hturn] at hend hrest ⊢
        cases hturned with
        | step hgo hdue =>
          exact .step hlo htop hgo (UInt64.le_iff_toNat_le.mp hdue)
            (Generator.step_due _ nowNs _ hgo) (ih n (Nat.lt_succ_self n) le_rfl hend hrest)
        | respawn hsteps hfin =>
          have hnext := turn_respawn basePrice nowNs hsteps
          cases n with
          | zero => exact absurd (hnext.symm.trans hend) (by simp)
          | succ n =>
            rw [Drain.drain_some hnext] at hend hrest ⊢
            have hgo : (x.respawn basePrice).active.generator.finished = false :=
              spawn_unfinished _ _ _
            exact .restart hlo htop hfin hgo (Generator.step_due _ nowNs _ hgo)
              (ih n (by omega) le_rfl hend hrest)

end PollLoop

namespace StormOrchestrator

variable {fuel : ℕ}

/-- All turns of some polls, each with its time and the generator it was for. -/
def pollsTurns (fuel : ℕ) : StormOrchestrator → List (UInt64 × UInt64) → List (ℕ × Generator)
  | _, [] => []
  | o, (nowNs, baseSeq) :: ps =>
    (o.turns fuel nowNs baseSeq).map (PollLoop.seen nowNs) ++
      match o.poll fuel nowNs baseSeq with
      | none => []
      | some (_, o) => pollsTurns fuel o ps

/-- Once a storm is over there are no more turns. -/
theorem pollsTurns_idle {o : StormOrchestrator} (h : o.active = none)
    (ps : List (UInt64 × UInt64)) : o.pollsTurns fuel ps = [] := by
  induction ps generalizing o with
  | nil => rfl
  | cons p ps ih =>
    have hpoll : o.poll fuel p.1 p.2 = some ([], o) := by rw [poll, h]
    rw [pollsTurns, turns, h, hpoll]
    exact ih h

/-- A storm that takes turns has time left. -/
theorem turns_live {o : StormOrchestrator} {active : ActiveStorm} (h : o.active = some active)
    {nowNs baseSeq : UInt64} (hne : o.turns fuel nowNs baseSeq ≠ []) :
    nowNs.toNat < stormClock.top := by
  rw [turns, h] at hne
  by_cases hexp : o.hasExpired nowNs = true
  · exact absurd (if_pos hexp) hne
  · have hlt : ¬ active.expiresAtNs ≤ nowNs := by
      rw [hasExpired, h] at hexp
      simpa using hexp
    have hbefore := UInt64.lt_iff_toNat_lt.mp (UInt64.not_le.mp hlt)
    have hword := active.expiresAtNs.toNat_lt
    show nowNs.toNat < 2 ^ 64 - 1
    omega

theorem pollsTurns_trace (hfuel : 65 ≤ fuel) {ps : List (UInt64 × UInt64)}
    (hmono : ps.Pairwise fun p q => p.1 ≤ q.1) {o : StormOrchestrator} {lo : ℕ}
    (hlo : ∀ p ∈ ps, lo ≤ p.1.toNat) {active : ActiveStorm} (h : o.active = some active) :
    Trace stormClock lo active.generator (o.pollsTurns fuel ps) := by
  induction ps generalizing o lo active with
  | nil => exact .stop lo _
  | cons p ps ih =>
    obtain ⟨hp, hps⟩ := List.pairwise_cons.mp hmono
    obtain ⟨es, o', hpoll, -, hcases⟩ := o.poll_cases hfuel p.1 p.2
    have hlater : ∀ q ∈ ps, p.1.toNat ≤ q.1.toNat := fun q hq =>
      UInt64.le_iff_toNat_le.mp (hp q hq)
    rw [pollsTurns, hpoll]
    show Trace stormClock lo active.generator
      ((o.turns fuel p.1 p.2).map (PollLoop.seen p.1) ++ o'.pollsTurns fuel ps)
    rcases hcases with ⟨-, hidle, hnone⟩ | ⟨a, ha, -, hturns, hnext⟩
    · rw [hnone, pollsTurns_idle hidle]
      exact .stop lo _
    · obtain rfl := Option.some.inj (h.symm.trans ha)
      have hrest : Trace stormClock p.1.toNat
          (o.pollLoop fuel active p.1 p.2).2.active.generator (o'.pollsTurns fuel ps) := by
        rcases hnext with hidle | hlive
        · rw [pollsTurns_idle hidle]
          exact .stop _ _
        · exact ih hps hlater hlive
      have hlop := hlo p List.mem_cons_self
      by_cases hnil : o.turns fuel p.1 p.2 = []
      · have hsame : (o.pollLoop fuel active p.1 p.2).2 = ⟨active, [], p.2, 0⟩ := by
          rw [hturns] at hnil
          exact Drain.drain_stays hnil
        rw [hnil]
        rw [hsame] at hrest
        exact hrest.mono hlop
      · rw [hturns]
        exact PollLoop.drain_trace (turns_live h hnil) hlop fuel
          (o.pollLoop_ends hfuel active p.1 p.2) hrest

theorem start_unfinished (basePrice : UInt64) (spec : StormSpec) (startNs : UInt64) :
    ∃ active, ((new basePrice).start spec startNs).1.active = some active ∧
      active.generator.finished = false :=
  ⟨_, rfl, spawn_unfinished _ _ _⟩

/-- The steps of a storm, restarts included, are a period of the earlier one apart exactly if no
generator is replaced before its next step would have been due. -/
theorem storm_paced_iff (hfuel : 65 ≤ fuel) (basePrice : UInt64) (spec : StormSpec)
    (startNs : UInt64) (ps : List (UInt64 × UInt64)) (hmono : ps.Pairwise fun p q => p.1 ≤ q.1) :
    let turns := ((new basePrice).start spec startNs).1.pollsTurns fuel ps
    (turns.filter fun x => !x.2.finished).Pairwise
        (fun a b => a.1 + a.2.stepPeriodNs.toNat ≤ b.1) ↔
      ∀ x ∈ turns, x.2.finished = true → x.2.nextDueNs.toNat ≤ x.1 := by
  intro turns
  obtain ⟨active, hactive, hgo⟩ := start_unfinished basePrice spec startNs
  have htrace : Trace stormClock 0 active.generator turns :=
    pollsTurns_trace hfuel hmono (fun _ _ => Nat.zero_le _) hactive
  exact htrace.spaced_iff hgo

/-- Two bursts of three, a period apart. -/
theorem storm_paced_iff_two :
    ((((new 100000).start ⟨.flashCrash, .fin 1, 240000000, 7⟩ 1000000).1.pollsTurns 65
        [(1000000, 1), (81000000, 50), (120000000, 99)]).filter fun x => !x.2.finished).Pairwise
      fun a b => a.1 + a.2.stepPeriodNs.toNat ≤ b.1 := by
  have hmono : [(1000000, 1), (81000000, 50), (120000000, 99)].Pairwise
      fun p q : UInt64 × UInt64 => p.1 ≤ q.1 := by decide
  have hpatient : ∀ x ∈ ((new 100000).start ⟨.flashCrash, .fin 1, 240000000, 7⟩
      1000000).1.pollsTurns 65 [(1000000, 1), (81000000, 50), (120000000, 99)],
      x.2.finished = true → x.2.nextDueNs.toNat ≤ x.1 := by decide +kernel
  exact (storm_paced_iff le_rfl 100000 ⟨.flashCrash, .fin 1, 240000000, 7⟩ 1000000
    [(1000000, 1), (81000000, 50), (120000000, 99)] hmono).mpr hpatient

/-- A storm of ten milliseconds makes the bursts of its flash crash at one instant: the generator has
finished with its first burst, and the next generator is due at once. -/
theorem storm_not_paced :
    ¬ ∀ (basePrice : UInt64) (spec : StormSpec) (startNs : UInt64) (ps : List (UInt64 × UInt64)),
      (ps.Pairwise fun p q => p.1 ≤ q.1) →
      ((((new basePrice).start spec startNs).1.pollsTurns 65 ps).filter
          fun x => !x.2.finished).Pairwise fun a b => a.1 + a.2.stepPeriodNs.toNat ≤ b.1 := by
  intro h
  have hpaced := h 100000 ⟨.flashCrash, .fin 1, 10000000, 7⟩ 1000000 [(1000000, 1)]
    (List.pairwise_singleton _ _)
  have htwo : ¬ ((((((new 100000).start ⟨.flashCrash, .fin 1, 10000000, 7⟩
      1000000).1.pollsTurns 65 [(1000000, 1)]).take 3).filter fun x => !x.2.finished).Pairwise
        fun a b => a.1 + a.2.stepPeriodNs.toNat ≤ b.1) := by
    decide +kernel
  exact htwo (hpaced.sublist ((List.take_sublist 3 _).filter _))

end StormOrchestrator

end Flowlab.Chaos
