import Mathlib.Data.List.Basic
import Mathlib.Data.List.OfFn
import Mathlib.Data.List.GetD

namespace Flowlab.Framework.FixedArray

/-- `memmove` inside a fixed array: `len` cells starting at `src` land at `dst`.
Every cell is read before any is written, so the ranges may overlap. -/
def memmove {α : Type*} {n : Nat} (v : Vector α n) (dst src len : Nat) : Vector α n :=
  Vector.ofFn fun i =>
    if dst ≤ i.val ∧ i.val < dst + len then v.toList.getD (src + (i.val - dst)) v[i] else v[i]

theorem memmove_zero {α : Type*} {n : Nat} (v : Vector α n) (dst src : Nat) :
    memmove v dst src 0 = v := by
  apply Vector.ext
  intro i hi
  rw [memmove, Vector.getElem_ofFn, if_neg (by simp)]
  rfl

theorem toList_memmove {α : Type*} {n : Nat} (v : Vector α n) (dst src len : Nat)
    (hs : src + len ≤ n) (hd : dst + len ≤ n) :
    (memmove v dst src len).toList =
      v.toList.take dst ++ (v.toList.drop src).take len ++ v.toList.drop (dst + len) := by
  apply List.ext_getElem
  · simp only [Vector.length_toList, List.length_append, List.length_take, List.length_drop]
    omega
  · intro i hi hj
    have hin : i < n := by simpa using hi
    simp only [memmove, Vector.toList_ofFn, List.getElem_ofFn]
    by_cases h1 : i < dst
    · rw [if_neg (by omega)]
      rw [List.getElem_append_left (by simp; omega), List.getElem_append_left (by simp; omega)]
      simp
    · by_cases h2 : i < dst + len
      · rw [if_pos ⟨by omega, h2⟩]
        rw [List.getElem_append_left (by simp; omega), List.getElem_append_right (by simp; omega)]
        have hlt : src + (i - dst) < v.toList.length := by simp; omega
        rw [List.getD_eq_getElem _ _ hlt]
        have hmin : min dst n = dst := by omega
        simp [hmin]
      · rw [if_neg (by omega), List.getElem_append_right (by simp; omega)]
        have hlen : (v.toList.take dst ++ (v.toList.drop src).take len).length = dst + len := by
          simp only [List.length_append, List.length_take, List.length_drop, Vector.length_toList]
          omega
        have hidx : dst + len + (i - (dst + len)) = i := by omega
        simp [hlen, hidx]

/-- Opening a slot: shift the live cells from `pos` right by one and store `x` there. -/
theorem open_slot {α : Type*} {n : Nat} (v : Vector α n) (cnt pos : Nat) (x : α)
    (hp : pos ≤ cnt) (hc : cnt < n) :
    ((memmove v (pos + 1) pos (cnt - pos)).toList.set pos x).take (cnt + 1) =
        (v.toList.take cnt).take pos ++ [x] ++ (v.toList.take cnt).drop pos ∧
      ((memmove v (pos + 1) pos (cnt - pos)).toList.set pos x).drop (cnt + 1) =
        v.toList.drop (cnt + 1) := by
  have hm := toList_memmove v (pos + 1) pos (cnt - pos) (by omega) (by omega)
  have he : pos + 1 + (cnt - pos) = cnt + 1 := by omega
  rw [he] at hm
  have hpl : pos < v.toList.length := by simp; omega
  have hset : (memmove v (pos + 1) pos (cnt - pos)).toList.set pos x =
      (v.toList.take pos ++ x :: (v.toList.drop pos).take (cnt - pos)) ++ v.toList.drop (cnt + 1) := by
    rw [hm, List.take_succ_eq_append_getElem hpl]
    simp only [List.append_assoc]
    have htake : (v.toList.take pos).length = pos := List.length_take_of_le hpl.le
    rw [List.set_append_right _ _ htake.le, htake]
    simp
  have hlen : (v.toList.take pos ++ x :: (v.toList.drop pos).take (cnt - pos)).length = cnt + 1 := by
    simp only [List.length_append, List.length_take, List.length_cons, List.length_drop,
      Vector.length_toList]
    omega
  rw [hset]
  constructor
  · rw [List.take_left' hlen]
    simp [List.take_take, List.drop_take, hp]
  · rw [List.drop_left' hlen]

/-- Closing a slot: shift the live cells after `i` left by one and clear the last live cell. -/
theorem close_slot {α : Type*} {n : Nat} (v : Vector α n) (cnt i : Nat) (d : α)
    (hi : i < cnt) (hc : cnt ≤ n) :
    ((memmove v i (i + 1) (cnt - i - 1)).toList.set (cnt - 1) d).take (cnt - 1) =
        (v.toList.take cnt).take i ++ (v.toList.take cnt).drop (i + 1) ∧
      ((memmove v i (i + 1) (cnt - i - 1)).toList.set (cnt - 1) d).drop (cnt - 1) =
        d :: v.toList.drop cnt := by
  have hm := toList_memmove v i (i + 1) (cnt - i - 1) (by omega) (by omega)
  have he : i + (cnt - i - 1) = cnt - 1 := by omega
  rw [he] at hm
  have hlast : cnt - 1 < v.toList.length := by simp; omega
  have hdrop : v.toList.drop (cnt - 1) = v.toList[cnt - 1] :: v.toList.drop cnt := by
    rw [List.drop_eq_getElem_cons hlast]
    congr 2
    omega
  have hlen : (v.toList.take i ++ (v.toList.drop (i + 1)).take (cnt - i - 1)).length = cnt - 1 := by
    simp only [List.length_append, List.length_take, List.length_drop, Vector.length_toList]
    omega
  have hset : (memmove v i (i + 1) (cnt - i - 1)).toList.set (cnt - 1) d =
      (v.toList.take i ++ (v.toList.drop (i + 1)).take (cnt - i - 1)) ++ d :: v.toList.drop cnt := by
    rw [hm, hdrop, List.set_append_right _ _ (by omega), hlen]
    simp
  rw [hset]
  constructor
  · rw [List.take_left' hlen]
    have hmin : min i cnt = i := by omega
    have hsub : cnt - (i + 1) = cnt - i - 1 := by omega
    simp [List.take_take, List.drop_take, hmin, hsub]
  · rw [List.drop_left' hlen]

end Flowlab.Framework.FixedArray
