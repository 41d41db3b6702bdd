import Mathlib.Tactic

namespace Flowlab.Framework.Provenance

section

variable {σ ι κ ω : Type*}

/-- A state together with the owners of every key: who has put something there since it was last
not held. -/
structure Traced (σ κ ω : Type*) where
  state : σ
  owners : κ → Set ω

variable (next : σ → ι → σ) (held : σ → κ → Prop) (places : σ → ι → κ → ω → Prop)

/-- One step of the machine, with the owners carried along. -/
def Traced.step (t : Traced σ κ ω) (i : ι) : Traced σ κ ω where
  state := next t.state i
  owners k := {w | held (next t.state i) k ∧ (w ∈ t.owners k ∨ places t.state i k w)}

def Traced.run (t : Traced σ κ ω) (is : List ι) : Traced σ κ ω :=
  is.foldl (Traced.step next held places) t

/-- A start whose holdings all belong to `w`. -/
def Traced.start (s : σ) (w : ω) : Traced σ κ ω := ⟨s, fun k => {v | held s k ∧ v = w}⟩

variable {next held places}

theorem Traced.run_state (t : Traced σ κ ω) (is : List ι) :
    (t.run next held places is).state = is.foldl next t.state :=
  (List.foldl_hom Traced.state (fun _ _ => rfl)).symm

/-- Everything held belongs to `w`, and to nobody else. -/
def Traced.OwnedBy (held : σ → κ → Prop) (t : Traced σ κ ω) (w : ω) : Prop :=
  ∀ k, t.owners k = {v | held t.state k ∧ v = w}

theorem Traced.OwnedBy.owners {t : Traced σ κ ω} {w : ω} (h : t.OwnedBy held w) {k : κ}
    (hk : held t.state k) : t.owners k = {w} := by
  rw [h k]
  ext v
  exact and_iff_right hk

/-- The owner stays when a step creates nothing but what the owner places and nobody else places
anything. -/
theorem Traced.OwnedBy.step {t : Traced σ κ ω} {w : ω} (h : t.OwnedBy held w) {i : ι}
    (hcreated : ∀ k, held (next t.state i) k → held t.state k ∨ places t.state i k w)
    (hplaces : ∀ k v, places t.state i k v → v = w) :
    (t.step next held places i).OwnedBy held w := by
  intro k
  ext v
  change held (next t.state i) k ∧ (v ∈ t.owners k ∨ places t.state i k v) ↔
    held (next t.state i) k ∧ v = w
  refine and_congr_right (fun hk => ?_)
  rw [h k]
  constructor
  · intro hv
    rcases hv with hv | hv
    · exact hv.2
    · exact hplaces k v hv
  · intro hv
    rcases hcreated k hk with hold | hnew
    · exact Or.inl ⟨hold, hv⟩
    · exact Or.inr (hv ▸ hnew)

/-- A step that holds and places nothing leaves everything to whoever comes next. -/
theorem Traced.owned_of_empty {t : Traced σ κ ω} {i : ι} (hnone : ∀ k, ¬ held (next t.state i) k)
    (w : ω) : (t.step next held places i).OwnedBy held w := by
  intro k
  ext v
  exact ⟨fun hv => absurd hv.1 (hnone k), fun hv => absurd hv.1 (hnone k)⟩

end

end Flowlab.Framework.Provenance
