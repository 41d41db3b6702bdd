import Flowlab.Core.L2Hash
import Flowlab.Framework.Bytes
import Flowlab.Framework.HashChain

namespace Flowlab.Verify

open Flowlab.Core (Xxh3)
open Framework

/-- The Rust hasher of `hasher.rs`. -/
structure StateHasher where
  state : UInt64
  deriving DecidableEq, Repr

namespace StateHasher

def new : StateHasher := ⟨0⟩

def update (x : Xxh3) (h : StateHasher) (data : List UInt8) : StateHasher :=
  ⟨x.hash (Bytes.toLe 8 h.state.toNat ++ data)⟩

def digest (h : StateHasher) : UInt64 := h.state

def reset (_ : StateHasher) : StateHasher := ⟨0⟩

end StateHasher

/-- The streaming interface of xxHash. -/
structure Xxh3Stream where
  State : Type
  reset : State
  update : State → List UInt8 → State
  digest : State → UInt64

/-- What the streaming interface documents: the digest is that of the concatenated input. -/
def Xxh3Stream.Streams (st : Xxh3Stream) (x : Xxh3) : Prop :=
  ∀ chunks : List (List UInt8), st.digest (chunks.foldl st.update st.reset) = x.hash chunks.flatten

/-- The C++ hasher of `hasher.cpp`. -/
structure CppStateHasher where
  state : UInt64
  deriving DecidableEq, Repr

namespace CppStateHasher

def new : CppStateHasher := ⟨0⟩

def stackBuf : Nat := 4096

/-- The loop that writes the previous state. -/
def prevLe (h : CppStateHasher) : List UInt8 :=
  (List.range 8).map fun i => ((h.state >>> UInt64.ofNat (i * 8)) &&& 0xff).toUInt8

/-- Inputs that fit the stack buffer are hashed at once, longer ones through the stream. -/
def update (x : Xxh3) (st : Xxh3Stream) (h : CppStateHasher) (data : List UInt8) :
    CppStateHasher :=
  let total := 8 + data.length
  if total ≤ stackBuf then ⟨x.hash (h.prevLe ++ data)⟩
  else ⟨st.digest (st.update (st.update st.reset h.prevLe) data)⟩

def digest (h : CppStateHasher) : UInt64 := h.state

def reset (_ : CppStateHasher) : CppStateHasher := ⟨0⟩

end CppStateHasher

/-- The mutating calls of either hasher. -/
inductive HasherOp where
  | update (data : List UInt8)
  | reset
  deriving DecidableEq, Repr

def StateHasher.run (x : Xxh3) (ops : List HasherOp) : StateHasher :=
  ops.foldl (fun h op =>
    match op with
    | .update data => h.update x data
    | .reset => h.reset) .new

def CppStateHasher.run (x : Xxh3) (st : Xxh3Stream) (ops : List HasherOp) : CppStateHasher :=
  ops.foldl (fun h op =>
    match op with
    | .update data => h.update x st data
    | .reset => h.reset) .new

/-- The chunks fed since the last reset. -/
def chunks (ops : List HasherOp) : List (List UInt8) :=
  ops.foldl (fun fed op =>
    match op with
    | .update data => fed ++ [data]
    | .reset => []) []

inductive VerificationError where
  | hashMismatch (rustHash cppHash : UInt64)
  deriving DecidableEq, Repr

structure CrossLanguageVerifier where
  rustHash : UInt64
  cppHash : UInt64
  deriving DecidableEq, Repr

namespace CrossLanguageVerifier

def new : CrossLanguageVerifier := ⟨0, 0⟩

def setRustHash (v : CrossLanguageVerifier) (hash : UInt64) : CrossLanguageVerifier :=
  { v with rustHash := hash }

def setCppHash (v : CrossLanguageVerifier) (hash : UInt64) : CrossLanguageVerifier :=
  { v with cppHash := hash }

def verify (v : CrossLanguageVerifier) : Except VerificationError Unit :=
  if v.rustHash = v.cppHash then .ok () else .error (.hashMismatch v.rustHash v.cppHash)

end CrossLanguageVerifier

/-- The eight shifted bytes are the little-endian ones. -/
theorem CppStateHasher.prevLe_eq (h : CppStateHasher) : h.prevLe = Bytes.toLe 8 h.state.toNat := by
  obtain ⟨s⟩ := h
  have hbyte (k : Nat) (hk : k < 8) :
      ((s >>> UInt64.ofNat (k * 8)) &&& 0xff).toUInt8 = UInt8.ofNat (s.toNat / 256 ^ k) := by
    apply UInt8.toNat_inj.mp
    have hshift : (UInt64.ofNat (k * 8)).toNat % 64 = k * 8 := by
      rw [UInt64.toNat_ofNat']
      omega
    have hpow : 2 ^ (k * 8) = 256 ^ k := by
      rw [Nat.mul_comm, pow_mul]
      norm_num
    rw [UInt64.toNat_toUInt8, UInt64.toNat_and, UInt64.toNat_shiftRight, hshift,
      Nat.shiftRight_eq_div_pow, hpow, UInt8.toNat_ofNat']
    change (s.toNat / 256 ^ k &&& 255) % 256 = _
    rw [Nat.and_two_pow_sub_one_eq_mod _ 8]
    norm_num
  simp only [prevLe, List.range, List.range.loop, List.map_cons, List.map_nil]
  rw [hbyte 0, hbyte 1, hbyte 2, hbyte 3, hbyte 4, hbyte 5, hbyte 6, hbyte 7]
  all_goals try omega
  simp only [Bytes.toLe, Nat.div_div_eq_div_mul]
  norm_num

/-- The buffered and the streamed update are the Rust one. -/
theorem CppStateHasher.update_eq {x : Xxh3} {st : Xxh3Stream} (hst : st.Streams x)
    (h : CppStateHasher) (data : List UInt8) :
    (h.update x st data).state = (StateHasher.update x ⟨h.state⟩ data).state := by
  simp only [update, StateHasher.update, prevLe_eq]
  split_ifs
  · rfl
  · have hpieces := hst [Bytes.toLe 8 h.state.toNat, data]
    simpa using hpieces

/-- What an update hashes. -/
def feed (state : UInt64) (data : List UInt8) : List UInt8 := Bytes.toLe 8 state.toNat ++ data

theorem feed_inj (s t : UInt64) (a b : List UInt8) (h : feed s a = feed t b) : s = t ∧ a = b :=
  Bytes.toLe8_append_inj h

/-- A run is the chain over the chunks since the last reset. -/
theorem StateHasher.run_chain (x : Xxh3) (ops : List HasherOp) :
    (run x ops).state = HashChain.chain x.hash feed 0 (chunks ops) := by
  induction ops using List.reverseRecOn with
  | nil => rfl
  | append_singleton ops op ih =>
    rw [run, chunks, List.foldl_append, List.foldl_append]
    cases op with
    | reset => rfl
    | update data =>
      change x.hash (feed (run x ops).state data) = HashChain.chain x.hash feed 0 (chunks ops ++ [data])
      rw [HashChain.chain_concat, ih]

/-- Both hashers go through the same states. -/
theorem CppStateHasher.run_state {x : Xxh3} {st : Xxh3Stream} (hst : st.Streams x)
    (ops : List HasherOp) : (run x st ops).state = (StateHasher.run x ops).state := by
  induction ops using List.reverseRecOn with
  | nil => rfl
  | append_singleton ops op ih =>
    rw [run, StateHasher.run, List.foldl_append, List.foldl_append]
    cases op with
    | reset => rfl
    | update data =>
      change (update x st (run x st ops) data).state = ((StateHasher.run x ops).update x data).state
      rw [update_eq hst, ih]

/-- The two digests of a Rust and a C++ hasher, compared. -/
def compare (x : Xxh3) (st : Xxh3Stream) (ops cppOps : List HasherOp) :
    Except VerificationError Unit :=
  ((CrossLanguageVerifier.new.setRustHash (StateHasher.run x ops).digest).setCppHash
    (CppStateHasher.run x st cppOps).digest).verify

/-- **The verifier accepts exactly equal inputs.** Whatever the Rust and the C++ hasher were fed, in
chunks of any length and with any resets, equal chunks since the last reset pass, and what passes
was fed equal chunks, unless two different inputs to xxh3 collide or one comes out as the initial 0. -/
theorem verify_tells (x : Xxh3) (st : Xxh3Stream) (hst : st.Streams x) (ops cppOps : List HasherOp) :
    (chunks ops = chunks cppOps → compare x st ops cppOps = .ok ()) ∧
    (compare x st ops cppOps = .ok () → chunks ops = chunks cppOps ∨
      HashChain.Collision x.hash (HashChain.inputs x.hash feed 0 (chunks ops))
        (HashChain.inputs x.hash feed 0 (chunks cppOps)) ∨
      ((chunks ops).length ≠ (chunks cppOps).length ∧
        (HashChain.Returns x.hash 0 (HashChain.inputs x.hash feed 0 (chunks ops)) ∨
          HashChain.Returns x.hash 0 (HashChain.inputs x.hash feed 0 (chunks cppOps))))) := by
  have hcompare : compare x st ops cppOps = .ok () ↔
      HashChain.chain x.hash feed 0 (chunks ops) = HashChain.chain x.hash feed 0 (chunks cppOps) := by
    rw [← StateHasher.run_chain, ← StateHasher.run_chain, ← CppStateHasher.run_state hst cppOps]
    simp only [compare, CrossLanguageVerifier.verify, CrossLanguageVerifier.setRustHash,
      CrossLanguageVerifier.setCppHash, StateHasher.digest, CppStateHasher.digest]
    split_ifs with h
    · simp [h]
    · simp [h]
  refine ⟨?_, ?_⟩
  · intro h
    rw [hcompare, h]
  · intro h
    exact HashChain.same_of_chain feed_inj (hcompare.mp h)

/-- A hash for runs on fixed inputs. -/
def firstBytes : Xxh3 := ⟨fun bytes => UInt64.ofNat (Bytes.ofLe bytes), fun _ h => h⟩

/-- A stream that gathers its input. -/
def gathering (x : Xxh3) : Xxh3Stream := ⟨List UInt8, [], (· ++ ·), x.hash⟩

theorem streams_gathering (x : Xxh3) : (gathering x).Streams x := by
  intro chunks
  have hfold (s : List UInt8) : chunks.foldl (· ++ ·) s = s ++ chunks.flatten := by
    induction chunks generalizing s with
    | nil => simp
    | cons c cs ih => rw [List.foldl_cons, ih, List.flatten_cons, List.append_assoc]
  exact congrArg x.hash (hfold [])

/-- A reset on one side makes up for what it was fed before. -/
theorem verify_tells_reset :
    compare firstBytes (gathering firstBytes) [.update [1, 2]]
      [.update [7], .reset, .update [1, 2]] = .ok () :=
  (verify_tells _ _ (streams_gathering _) _ _).1 (by decide)

end Flowlab.Verify
