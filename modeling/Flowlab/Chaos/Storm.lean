import Flowlab.Framework.Drain
import Flowlab.Chaos.GeneratorLife

namespace Flowlab.Chaos

open Framework Rounding Writer
open Flowlab.Core (Event EventType Side SequencedEvent satSub64 satSub32 satSub32_toNat)

structure StormSpec where
  kind : ChaosKind
  severity : Fp
  durationNs : UInt64
  seed : UInt64
  deriving DecidableEq

inductive StormMode where
  | idle
  | active
  deriving DecidableEq, Repr

structure StormSnapshot where
  mode : StormMode
  kind : Option ChaosKind
  severity : Fp
  seed : UInt64
  startedAtNs : UInt64
  expiresAtNs : UInt64
  restarts : UInt32
  deriving DecidableEq

def StormSnapshot.idle : StormSnapshot := ⟨.idle, none, .fin 0, 0, 0, 0, 0⟩

structure ActiveStorm where
  spec : StormSpec
  startedAtNs : UInt64
  expiresAtNs : UInt64
  restarts : UInt32
  generator : Generator
  deriving DecidableEq

structure StormOrchestrator where
  basePrice : UInt64
  active : Option ActiveStorm
  deriving DecidableEq

def cyclesFromDuration (durationNs periodNs : UInt64) (minimum : UInt32) : UInt32 :=
  let cycles := satAdd64 durationNs (satSub64 periodNs 1) / max periodNs 1
  max minimum (min cycles 0xFFFFFFFF).toUInt32

def spawnGenerator (spec : StormSpec) (basePrice : UInt64) (restart : UInt32) : Generator :=
  let seed := spec.seed + restart.toUInt64
  match spec.kind with
  | .phantomLiquidity => .phantomLiquidity
      (.new seed spec.severity basePrice (cyclesFromDuration spec.durationNs 5000000 4))
  | .cancellationStorm => .cancellationStorm (.new seed spec.severity basePrice)
  | .momentumIgnition => .momentumIgnition (.new seed spec.severity basePrice true)
  | .flashCrash => .flashCrash
      (.new seed spec.severity basePrice true (cyclesFromDuration spec.durationNs 80000000 1))
  | .latencyArbitrage => .latencyArbProxy
      (.new seed spec.severity basePrice (cyclesFromDuration spec.durationNs 40000000 1))
  | .quoteStuff => .quoteStuff
      (.new seed spec.severity basePrice (cyclesFromDuration spec.durationNs 10000000 1))
  | .spoof => .spoof
      (.new seed spec.severity basePrice (cyclesFromDuration spec.durationNs 5000000 4))

/-- The loop of `poll`: the storm, the events so far, the next sequence number and the steps taken. -/
structure PollLoop where
  active : ActiveStorm
  out : List SequencedEvent
  nextSeq : UInt64
  steps : ℕ
  deriving DecidableEq

namespace PollLoop

/-- A finished generator is replaced; this counts as no step. -/
def respawn (basePrice : UInt64) (s : PollLoop) : PollLoop :=
  let restarts := satAdd32 s.active.restarts 1
  { s with active := { s.active with
      restarts := restarts
      generator := spawnGenerator s.active.spec basePrice restarts } }

def step (nowNs : UInt64) (s : PollLoop) : PollLoop :=
  let r := s.active.generator.step nowNs s.nextSeq
  { active := { s.active with generator := r.2 }
    out := s.out ++ r.1
    nextSeq :=
      match (r.1.map (·.seq)).max? with
      | some maxSeq => satAdd64 maxSeq 1
      | none => s.nextSeq
    steps := s.steps + 1 }

/-- One turn of the loop, with the state it was taken from; none once the loop is left. -/
def turn (basePrice nowNs : UInt64) (s : PollLoop) : Option (PollLoop × PollLoop) :=
  if 32 ≤ s.steps then none
  else if s.active.generator.finished then some (s, s.respawn basePrice)
  else if nowNs < s.active.generator.nextDueNs then none
  else some (s, s.step nowNs)

end PollLoop

namespace StormOrchestrator

def new (basePrice : UInt64) : StormOrchestrator := ⟨basePrice, none⟩

def snapshot (o : StormOrchestrator) : StormSnapshot :=
  match o.active with
  | some active => ⟨.active, some active.spec.kind, active.spec.severity, active.spec.seed,
      active.startedAtNs, active.expiresAtNs, active.restarts⟩
  | none => .idle

def start (o : StormOrchestrator) (spec : StormSpec) (nowNs : UInt64) :
    StormOrchestrator × StormSnapshot :=
  let spec := { spec with
    severity := spec.severity.clamp (.fin 0) (.fin 1)
    durationNs := max spec.durationNs 1 }
  let expiresAtNs := satAdd64 nowNs spec.durationNs
  let generator := spawnGenerator spec o.basePrice 0
  let o := { o with active := some ⟨spec, nowNs, expiresAtNs, 0, generator⟩ }
  (o, o.snapshot)

def stop (o : StormOrchestrator) : StormOrchestrator := { o with active := none }

def hasExpired (o : StormOrchestrator) (nowNs : UInt64) : Bool :=
  match o.active with
  | some active => active.expiresAtNs ≤ nowNs
  | none => false

/-- The loop of a poll, run for at most `fuel` turns: the states its turns were taken from, and the
last. -/
def pollLoop (fuel : ℕ) (o : StormOrchestrator) (active : ActiveStorm) (nowNs baseSeq : UInt64) :
    List PollLoop × PollLoop :=
  drain (PollLoop.turn o.basePrice nowNs) fuel ⟨active, [], baseSeq, 0⟩

/-- `poll`; none if its loop has not ended within the fuel. -/
def poll (fuel : ℕ) (o : StormOrchestrator) (nowNs baseSeq : UInt64) :
    Option (List SequencedEvent × StormOrchestrator) :=
  match o.active with
  | none => some ([], o)
  | some active =>
    if o.hasExpired nowNs then some ([], o.stop)
    else
      let r := o.pollLoop fuel active nowNs baseSeq
      if (r.2.turn o.basePrice nowNs).isSome then none
      else
        let o := { o with active := some r.2.active }
        some (r.2.out, if o.hasExpired nowNs then o.stop else o)

/-- The turns of a poll. -/
def turns (fuel : ℕ) (o : StormOrchestrator) (nowNs baseSeq : UInt64) : List PollLoop :=
  match o.active with
  | none => []
  | some active =>
    if o.hasExpired nowNs then [] else (o.pollLoop fuel active nowNs baseSeq).1

/-- Poll after poll: all events, and the orchestrator left. -/
def polls (fuel : ℕ) : StormOrchestrator → List (UInt64 × UInt64) →
    Option (List SequencedEvent × StormOrchestrator)
  | o, [] => some ([], o)
  | o, (nowNs, baseSeq) :: ps =>
    match o.poll fuel nowNs baseSeq with
    | none => none
    | some (es, o) => (polls fuel o ps).map (fun r => (es ++ r.1, r.2))

end StormOrchestrator

end Flowlab.Chaos
