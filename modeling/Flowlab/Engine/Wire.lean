import Flowlab.Framework.Bytes
import Flowlab.Framework.Pieces

namespace Flowlab.Engine

open Framework Pieces

def wireVersion : UInt16 := 2

/-- One turn of the loop of `handle_client` behind a successful `encode`: the buffer with four bytes
for the length, the version and the payload, and then the length put in. -/
def frameBytes (payload : List UInt8) : List UInt8 :=
  let buf := List.replicate 4 0 ++ Bytes.toLe 2 wireVersion.toNat ++ payload
  let len : UInt32 := 2 + UInt32.ofNat payload.length
  Bytes.toLe 4 len.toNat ++ buf.drop 4

/-- The bytes `handle_client` writes for the frames it receives; a frame that fails to encode is
skipped. -/
def handleClient {φ : Type} (encode : φ → Option (List UInt8)) : List φ → List UInt8
  | [] => []
  | frame :: frames =>
    match encode frame with
    | none => handleClient encode frames
    | some payload => frameBytes payload ++ handleClient encode frames

def minSupportedWireVersion : UInt16 := 1

def maxSupportedWireVersion : UInt16 := 2

def isSupportedWireVersion (ver : UInt16) : Bool :=
  minSupportedWireVersion ≤ ver && ver ≤ maxSupportedWireVersion

/-- Why `runOnce` returned. -/
inductive RunError where
  | readLen (e : Ended)
  | frameSizeOutOfRange (n : UInt32)
  | readPayload (e : Ended)
  | unsupportedWireVersion (ver : UInt16)
  deriving DecidableEq, Repr

/-- The loop of `runOnce` on a connection whose bytes arrive in pieces: what it handed to
`dispatchJSON`, and the error it returned. `none` when it takes more than `fuel` turns. -/
def runOnce : Nat → List (List UInt8) → Option (List (List UInt8) × RunError)
  | 0, _ => none
  | fuel + 1, conn =>
    match readFull [] 4 conn with
    | (.error e, _) => some ([], .readLen e)
    | (.ok hdr, conn) =>
      let n := UInt32.ofNat (Bytes.ofLe hdr)
      if n < 2 ∨ (1 : UInt32) <<< 20 < n then some ([], .frameSizeOutOfRange n)
      else
        match readFull [] n.toNat conn with
        | (.error e, _) => some ([], .readPayload e)
        | (.ok buf, conn) =>
          let ver := UInt16.ofNat (Bytes.ofLe (buf.take 2))
          if isSupportedWireVersion ver then
            (runOnce fuel conn).map (fun r => (buf.drop 2 :: r.1, r.2))
          else some ([], .unsupportedWireVersion ver)

/-- The part of a frame that its length counts. -/
def frameBody (payload : List UInt8) : List UInt8 := Bytes.toLe 2 wireVersion.toNat ++ payload

theorem length_frameBody (payload : List UInt8) :
    (frameBody payload).length = 2 + payload.length := by
  rw [frameBody, List.length_append, Bytes.length_toLe]

/-- Up to the limit the length is exact. -/
theorem frameBytes_eq {payload : List UInt8} (h : payload.length ≤ 2 ^ 20 - 2) :
    frameBytes payload = Bytes.toLe 4 (2 + payload.length) ++ frameBody payload := by
  have hlen : (2 + UInt32.ofNat payload.length).toNat = 2 + payload.length := by
    rw [UInt32.toNat_add, UInt32.toNat_ofNat',
      Nat.mod_eq_of_lt (show payload.length < 2 ^ 32 by omega)]
    exact Nat.mod_eq_of_lt (show 2 + payload.length < 2 ^ 32 by omega)
  simp only [frameBytes, hlen]
  rfl

theorem handleClient_eq {φ : Type} (encode : φ → Option (List UInt8)) (frames : List φ) :
    handleClient encode frames = (frames.filterMap encode).flatMap frameBytes := by
  induction frames with
  | nil => rfl
  | cons frame frames ih =>
    rw [handleClient, List.filterMap_cons]
    cases encode frame with
    | none => exact ih
    | some payload =>
      dsimp only
      rw [ih, List.flatMap_cons]

/-- A frame at the front of the stream is handed over and passed. -/
theorem runOnce_frame {payload rest : List UInt8} (h : payload.length ≤ 2 ^ 20 - 2)
    {conn : List (List UInt8)} (hconn : conn.flatten = frameBytes payload ++ rest) :
    ∃ conn', conn'.flatten = rest ∧ ∀ fuel, runOnce (fuel + 1) conn =
      (runOnce fuel conn').map (fun r => (payload :: r.1, r.2)) := by
  rw [frameBytes_eq h, List.append_assoc] at hconn
  have hlen : (Bytes.toLe 4 (2 + payload.length)).length = 4 := Bytes.length_toLe _ _
  have hbody := length_frameBody payload
  obtain ⟨conn₁, h1, hrest₁⟩ := readFull_ok (n := 4) conn
    (by rw [hconn, List.length_append]; omega) []
  rw [hconn, List.nil_append, List.take_left' hlen] at h1
  rw [hconn, List.drop_left' hlen] at hrest₁
  obtain ⟨conn₂, h2, hrest₂⟩ := readFull_ok (n := 2 + payload.length) conn₁
    (by rw [hrest₁, List.length_append]; omega) []
  rw [hrest₁, List.nil_append, List.take_left' hbody] at h2
  rw [hrest₁, List.drop_left' hbody] at hrest₂
  have hn : Bytes.ofLe (Bytes.toLe 4 (2 + payload.length)) = 2 + payload.length :=
    Bytes.ofLe_toLe _ _ (by omega)
  have hsize : (UInt32.ofNat (2 + payload.length)).toNat = 2 + payload.length := by
    rw [UInt32.toNat_ofNat', Nat.mod_eq_of_lt (show 2 + payload.length < 2 ^ 32 by omega)]
  have hrange : ¬ (UInt32.ofNat (2 + payload.length) < 2 ∨
      (1 : UInt32) <<< 20 < UInt32.ofNat (2 + payload.length)) := by
    rw [UInt32.lt_iff_toNat_lt, UInt32.lt_iff_toNat_lt, hsize]
    change ¬ (2 + payload.length < 2 ∨ 2 ^ 20 < 2 + payload.length)
    omega
  have hver : (frameBody payload).take 2 = Bytes.toLe 2 wireVersion.toNat :=
    List.take_left' (Bytes.length_toLe _ _)
  have hdrop : (frameBody payload).drop 2 = payload :=
    List.drop_left' (Bytes.length_toLe _ _)
  have hok : isSupportedWireVersion
      (UInt16.ofNat (Bytes.ofLe (Bytes.toLe 2 wireVersion.toNat))) = true := by decide
  refine ⟨conn₂, hrest₂, ?_⟩
  intro fuel
  rw [runOnce]
  simp only [h1, hn, if_neg hrange, hsize, h2, hver, hok, hdrop, if_true]

/-- However the bytes of the server are split across reads, the client hands over the payloads it
was sent, in order, and stops only at the end of the stream. -/
theorem telemetry_roundtrip {φ : Type} (encode : φ → Option (List UInt8)) (frames : List φ)
    (h : ∀ payload ∈ frames.filterMap encode, payload.length ≤ 2 ^ 20 - 2)
    (conn : List (List UInt8)) (hconn : conn.flatten = handleClient encode frames) {fuel : Nat}
    (hf : (frames.filterMap encode).length < fuel) :
    runOnce fuel conn = some (frames.filterMap encode, .readLen .eof) := by
  rw [handleClient_eq] at hconn
  generalize frames.filterMap encode = payloads at h hconn hf ⊢
  induction payloads generalizing fuel conn with
  | nil =>
    obtain ⟨fuel, rfl⟩ : ∃ k, fuel = k + 1 := ⟨fuel - 1, by omega⟩
    rw [runOnce, readFull_eof hconn (by omega)]
  | cons payload payloads ih =>
    obtain ⟨fuel, rfl⟩ : ∃ k, fuel = k + 1 := ⟨fuel - 1, by omega⟩
    rw [List.flatMap_cons] at hconn
    obtain ⟨conn', hrest, hturn⟩ := runOnce_frame (h payload (by simp)) hconn
    rw [hturn, ih conn' (fun p hp => h p (List.mem_cons_of_mem payload hp)) hrest
      (by simpa using hf)]
    rfl

/-- Two frames and one that fails to encode, in pieces that cut both headers. -/
theorem telemetry_roundtrip_split :
    runOnce 3 [[4, 0], [0, 0, 2], [], [0, 7, 8, 2, 0, 0], [0, 2, 0]] =
      some ([[7, 8], []], .readLen .eof) :=
  telemetry_roundtrip (fun n : Nat => [some [7, 8], none, some []].getD n none) [0, 1, 2]
    (by decide) [[4, 0], [0, 0, 2], [], [0, 7, 8, 2, 0, 0], [0, 2, 0]] (by decide) (by decide)

end Flowlab.Engine
