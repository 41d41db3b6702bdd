import Flowlab.Framework.HashChain
import Flowlab.Replay.Engine

namespace Flowlab.Replay

open Flowlab.Core (Event ReplayState SequencedEvent Xxh3)
open Framework

/-- What the running hash reads of an event: everything but its channel. -/
abbrev Hashed := UInt64 × Event × UInt8 × UInt8

def hashed (ev : SequencedEvent) : Hashed := (ev.seq, ev.event, ev.pad)

/-- The 56 bytes `process` hashes. -/
def hashBlock (stateHash : UInt64) (b : Hashed) : List UInt8 :=
  Bytes.toLe 8 stateHash.toNat ++ Bytes.toLe 8 b.1.toNat ++
    (SequencedEvent.mk b.1 0 b.2.1 b.2.2).eventBytes

/-- The 56 bytes determine the hash before and the event. -/
theorem hashBlock_inj (s t : UInt64) (b c : Hashed) (h : hashBlock s b = hashBlock t c) :
    s = t ∧ b = c := by
  obtain ⟨seq, event, pad⟩ := b
  obtain ⟨seq', event', pad'⟩ := c
  simp only [hashBlock, SequencedEvent.eventBytes, List.append_assoc] at h
  obtain ⟨hs, h⟩ := Bytes.toLe8_append_inj h
  obtain ⟨hseq, h⟩ := Bytes.toLe8_append_inj h
  obtain ⟨hts, h⟩ := Bytes.toLe8_append_inj h
  obtain ⟨hprice, h⟩ := Bytes.toLe8_append_inj h
  obtain ⟨hqty, h⟩ := Bytes.toLe8_append_inj h
  obtain ⟨hid, h⟩ := Bytes.toLe8_append_inj h
  obtain ⟨hinstrument, h⟩ := Bytes.toLe_append_inj (by simpa using event.instrumentId.toNat_lt)
    (by simpa using event'.instrumentId.toNat_lt) h
  obtain ⟨htype, hside, hpad₁, hpad₂, _⟩ := by simpa only [List.cons.injEq] using h
  refine ⟨hs, Prod.ext hseq (Prod.ext ?_ (Prod.ext hpad₁ hpad₂))⟩
  exact Event.ext hts hprice hqty hid (UInt32.toNat_inj.mp hinstrument) htype hside

namespace ReplayEngine

/-- The events a call of `replay` accepts. -/
def taken (x : Xxh3) (g : ReplayEngine) : List SequencedEvent → List SequencedEvent
  | [] => []
  | ev :: evs =>
    match g.state.process x ev with
    | (_, .error _) => []
    | (s, .ok _) => ev :: taken x ⟨s, g.eventsProcessed + 1⟩ evs

/-- One call after the other, failed ones included. -/
def session (x : Xxh3) (g : ReplayEngine) (calls : List (List SequencedEvent)) : ReplayEngine :=
  calls.foldl (fun g evs => (g.replay x evs).1) g

/-- The events the calls accept. -/
def history (x : Xxh3) (g : ReplayEngine) : List (List SequencedEvent) → List SequencedEvent
  | [] => []
  | evs :: calls => g.taken x evs ++ history x (g.replay x evs).1 calls

theorem replay_taken (x : Xxh3) (g : ReplayEngine) (evs : List SequencedEvent) :
    (g.replay x evs).1 = (g.taken x evs).foldl (accept x) g := by
  induction evs generalizing g with
  | nil => rfl
  | cons ev evs ih =>
    by_cases h : g.state.Follows ev
    · simp only [replay, taken, ReplayState.process_accepted x h, List.foldl_cons]
      exact ih _
    · obtain ⟨last, _, _, hproc⟩ := ReplayState.process_refused x h
      simp only [replay, taken, hproc, List.foldl_nil]

/-- A session is what its history makes of the engine. -/
theorem session_history (x : Xxh3) (g : ReplayEngine) (calls : List (List SequencedEvent)) :
    g.session x calls = (g.history x calls).foldl (accept x) g := by
  induction calls generalizing g with
  | nil => rfl
  | cons evs calls ih =>
    rw [history, List.foldl_append, ← replay_taken]
    exact ih _

theorem accept_hash (x : Xxh3) (g : ReplayEngine) (p : List SequencedEvent) :
    (p.foldl (accept x) g).state.stateHash =
      HashChain.chain x.hash hashBlock g.state.stateHash (p.map hashed) := by
  induction p generalizing g with
  | nil => rfl
  | cons ev p ih =>
    rw [List.foldl_cons, ih, List.map_cons, HashChain.chain, HashChain.chain, List.foldl_cons]
    rfl

/-- An engine sees no more of an event than the hash does. -/
theorem foldl_of_hashed (x : Xxh3) (g : ReplayEngine) {p q : List SequencedEvent}
    (h : p.map hashed = q.map hashed) : p.foldl (accept x) g = q.foldl (accept x) g := by
  induction p generalizing g q with
  | nil =>
    have hq : q = [] := List.map_eq_nil_iff.mp h.symm
    rw [hq]
  | cons ev p ih =>
    obtain ⟨ev', q', rfl, hhead, htail⟩ := List.map_eq_cons_iff.mp h.symm
    have hsame : accept x g ev = accept x g ev' := by
      simp only [hashed, Prod.mk.injEq] at hhead
      obtain ⟨hseq, hevent, hpad⟩ := hhead
      simp only [accept, ReplayState.accept, SequencedEvent.eventBytes, hseq, hevent, hpad]
    rw [List.foldl_cons, List.foldl_cons, hsame]
    exact ih _ htail.symm

/-- The hash function fails on two histories: two different blocks collide, or the histories differ in
length and a block comes out as the initial 0. -/
def HashFails (x : Xxh3) (p q : List Hashed) : Prop :=
  HashChain.Collision x.hash (HashChain.inputs x.hash hashBlock 0 p)
      (HashChain.inputs x.hash hashBlock 0 q) ∨
    (p.length ≠ q.length ∧ (HashChain.Returns x.hash 0 (HashChain.inputs x.hash hashBlock 0 p) ∨
      HashChain.Returns x.hash 0 (HashChain.inputs x.hash hashBlock 0 q)))

/-- **Equal hashes are equal histories.** Two engines, each after any calls of `replay`, failed ones
included: with the same final hash they have accepted the same events, and with them come to the same
book, position and count, or the hash function fails on what they accepted. -/
theorem same_hash_same_history (x : Xxh3) (id id' : UInt32)
    (calls calls' : List (List SequencedEvent))
    (h : ((new id).session x calls).state.hash = ((new id').session x calls').state.hash) :
    (((new id).history x calls).map hashed = ((new id').history x calls').map hashed ∧
      (id = id' → (new id).session x calls = (new id').session x calls')) ∨
    HashFails x (((new id).history x calls).map hashed)
      (((new id').history x calls').map hashed) := by
  simp only [ReplayState.hash, session_history, accept_hash] at h
  rcases HashChain.same_of_chain hashBlock_inj h with hsame | hfails
  · refine .inl ⟨hsame, ?_⟩
    rintro rfl
    rw [session_history, session_history]
    exact foldl_of_hashed x _ hsame
  · exact .inr hfails

/-- A hash that keeps the last eight bytes it reads. -/
def lastBytes : Xxh3 := ⟨fun bytes => UInt64.ofNat (Bytes.ofLe (bytes.drop 48)), fun _ h => h⟩

/-- A bid and its cancel. -/
def addThenCancel : List SequencedEvent :=
  [⟨7, 0, ⟨0, 10, 5, 1, 1, 1, 0⟩, (0, 0)⟩, ⟨8, 0, ⟨1, 0, 2, 1, 1, 2, 0⟩, (0, 0)⟩]

/-- The cancel comes on another channel, after an attempt with a number missing. -/
def addGapCancel : List (List SequencedEvent) :=
  [addThenCancel.take 1, [⟨9, 0, ⟨1, 0, 2, 1, 1, 2, 0⟩, (0, 0)⟩],
    [⟨8, 5, ⟨1, 0, 2, 1, 1, 2, 0⟩, (0, 0)⟩]]

theorem same_hash_same_history_gap :
    (((new 1).history lastBytes [addThenCancel]).map hashed =
        ((new 1).history lastBytes addGapCancel).map hashed ∧
      ((1 : UInt32) = 1 → (new 1).session lastBytes [addThenCancel] =
        (new 1).session lastBytes addGapCancel)) ∨
    HashFails lastBytes (((new 1).history lastBytes [addThenCancel]).map hashed)
      (((new 1).history lastBytes addGapCancel).map hashed) :=
  same_hash_same_history lastBytes 1 1 _ _ (by decide)

end ReplayEngine

end Flowlab.Replay
