import Mathlib.Tactic

namespace Flowlab.Framework.HashChain

section

variable {S B D : Type*} (hash : D → S) (encode : S → B → D)

/-- The running hash after the blocks, each hashed together with the hash before it. -/
def chain (s : S) (bs : List B) : S := bs.foldl (fun s b => hash (encode s b)) s

/-- What is hashed on the way. -/
def inputs : S → List B → List D
  | _, [] => []
  | s, b :: bs => encode s b :: inputs (hash (encode s b)) bs

/-- Two inputs that differ and have one hash. -/
def Collision (l m : List D) : Prop := ∃ u ∈ l, ∃ v ∈ m, u ≠ v ∧ hash u = hash v

/-- An input that hashes to the value the chain starts from. -/
def Returns (s : S) (l : List D) : Prop := ∃ u ∈ l, hash u = s

theorem chain_concat (s : S) (bs : List B) (b : B) :
    chain hash encode s (bs ++ [b]) = hash (encode (chain hash encode s bs) b) := by
  rw [chain, List.foldl_append]
  rfl

theorem inputs_concat (s : S) (bs : List B) (b : B) :
    inputs hash encode s (bs ++ [b]) =
      inputs hash encode s bs ++ [encode (chain hash encode s bs) b] := by
  induction bs generalizing s with
  | nil => rfl
  | cons c bs ih => rw [List.cons_append, inputs, ih, inputs, List.cons_append, chain, chain,
      List.foldl_cons]

variable {hash encode}

theorem Collision.concat {l m : List D} (h : Collision hash l m) (u v : D) :
    Collision hash (l ++ [u]) (m ++ [v]) := by
  obtain ⟨a, ha, b, hb, hab⟩ := h
  exact ⟨a, List.mem_append_left _ ha, b, List.mem_append_left _ hb, hab⟩

theorem Returns.concat {s : S} {l : List D} (h : Returns hash s l) (u : D) :
    Returns hash s (l ++ [u]) := by
  obtain ⟨a, ha, has⟩ := h
  exact ⟨a, List.mem_append_left _ ha, has⟩

/-- The last block is among what was hashed. -/
theorem last_mem (s : S) (bs : List B) (b : B) :
    encode (chain hash encode s bs) b ∈ inputs hash encode s (bs ++ [b]) := by
  rw [inputs_concat]
  exact List.mem_append_right _ (List.mem_singleton_self _)

/-- Two chains that end in one hash have hashed the same blocks, unless a collision can be read off
them; blocks of different number need a hash that comes back to the start. -/
theorem same_of_chain (hinj : ∀ s t b c, encode s b = encode t c → s = t ∧ b = c) {s : S}
    {p q : List B} (h : chain hash encode s p = chain hash encode s q) :
    p = q ∨ Collision hash (inputs hash encode s p) (inputs hash encode s q) ∨
      (p.length ≠ q.length ∧ (Returns hash s (inputs hash encode s p) ∨
        Returns hash s (inputs hash encode s q))) := by
  induction p using List.reverseRecOn generalizing q with
  | nil =>
    rcases List.eq_nil_or_concat q with rfl | ⟨q, c, rfl⟩
    · exact .inl rfl
    · rw [List.concat_eq_append] at h ⊢
      have hback : hash (encode (chain hash encode s q) c) = s :=
        (chain_concat hash encode s q c).symm.trans h.symm
      exact .inr (.inr ⟨by simp, .inr ⟨_, last_mem s q c, hback⟩⟩)
  | append_singleton p b ih =>
    rcases List.eq_nil_or_concat q with rfl | ⟨q, c, rfl⟩
    · have hback : hash (encode (chain hash encode s p) b) = s :=
        (chain_concat hash encode s p b).symm.trans h
      exact .inr (.inr ⟨by simp, .inl ⟨_, last_mem s p b, hback⟩⟩)
    · rw [List.concat_eq_append] at h ⊢
      by_cases hsame :
          encode (chain hash encode s p) b = encode (chain hash encode s q) c
      · -- the last blocks are the same, and the chains before them end in one hash
        obtain ⟨hstate, rfl⟩ := hinj _ _ _ _ hsame
        rcases ih hstate with rfl | hcol | ⟨hlen, hret⟩
        · exact .inl rfl
        · rw [inputs_concat, inputs_concat]
          exact .inr (.inl (hcol.concat _ _))
        · rw [inputs_concat, inputs_concat]
          refine .inr (.inr ⟨by simpa using hlen, ?_⟩)
          exact hret.imp (fun hr => hr.concat _) (fun hr => hr.concat _)
      · rw [chain_concat, chain_concat] at h
        exact .inr (.inl ⟨_, last_mem s p b, _, last_mem s q c, hsame, h⟩)

end

end Flowlab.Framework.HashChain
