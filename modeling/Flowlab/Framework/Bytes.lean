import Mathlib.Tactic

namespace Flowlab.Framework.Bytes

/-- The `w` low-order bytes of `n`, least significant first. -/
def toLe : Nat → Nat → List UInt8
  | 0, _ => []
  | w + 1, n => UInt8.ofNat n :: toLe w (n / 256)

def ofLe : List UInt8 → Nat
  | [] => 0
  | b :: bs => b.toNat + 256 * ofLe bs

def toBe (w n : Nat) : List UInt8 := (toLe w n).reverse

def ofBe (bs : List UInt8) : Nat := ofLe bs.reverse

/-- `buf[p..p + n]`. -/
def slice (buf : List UInt8) (p n : Nat) : List UInt8 := (buf.drop p).take n

@[simp] theorem length_toLe (w n : Nat) : (toLe w n).length = w := by
  induction w generalizing n with
  | zero => rfl
  | succ w ih => simp [toLe, ih]

theorem ofLe_toLe (w n : Nat) (h : n < 256 ^ w) : ofLe (toLe w n) = n := by
  induction w generalizing n with
  | zero =>
    have hz : n = 0 := by simpa using h
    rw [hz]
    rfl
  | succ w ih =>
    have hq : n / 256 < 256 ^ w := by
      apply Nat.div_lt_of_lt_mul
      rwa [pow_succ, mul_comm] at h
    have hb : (UInt8.ofNat n).toNat = n % 256 := by simp
    rw [toLe, ofLe, ih (n / 256) hq, hb]
    omega

theorem ofLe_lt (bs : List UInt8) : ofLe bs < 256 ^ bs.length := by
  induction bs with
  | nil => simp [ofLe]
  | cons b bs ih =>
    have hb := b.toNat_lt
    rw [ofLe, List.length_cons, pow_succ]
    omega

theorem toLe_ofLe (bs : List UInt8) : toLe bs.length (ofLe bs) = bs := by
  induction bs with
  | nil => rfl
  | cons b bs ih =>
    have hb := b.toNat_lt
    have hhead : UInt8.ofNat (b.toNat + 256 * ofLe bs) = b := by
      apply UInt8.toNat_inj.mp
      rw [UInt8.toNat_ofNat']
      omega
    have htail : (b.toNat + 256 * ofLe bs) / 256 = ofLe bs := by omega
    rw [List.length_cons, ofLe, toLe, hhead, htail, ih]

/-- A field in front of equal bytes is the same field in front of the same rest. -/
theorem toLe_append_inj {w m n : Nat} (hm : m < 256 ^ w) (hn : n < 256 ^ w) {a b : List UInt8}
    (h : toLe w m ++ a = toLe w n ++ b) : m = n ∧ a = b := by
  obtain ⟨hfield, hrest⟩ := List.append_inj h (by rw [length_toLe, length_toLe])
  refine ⟨?_, hrest⟩
  rw [← ofLe_toLe w m hm, hfield, ofLe_toLe w n hn]

theorem toLe8_append_inj {m n : UInt64} {a b : List UInt8}
    (h : toLe 8 m.toNat ++ a = toLe 8 n.toNat ++ b) : m = n ∧ a = b := by
  obtain ⟨hfield, hrest⟩ := toLe_append_inj (by simpa using m.toNat_lt)
    (by simpa using n.toNat_lt) h
  exact ⟨UInt64.toNat_inj.mp hfield, hrest⟩

@[simp] theorem length_toBe (w n : Nat) : (toBe w n).length = w := by
  rw [toBe, List.length_reverse, length_toLe]

theorem ofBe_toBe (w n : Nat) (h : n < 256 ^ w) : ofBe (toBe w n) = n := by
  rw [ofBe, toBe, List.reverse_reverse, ofLe_toLe w n h]

/-- A field written after `a` and before `z` is read back at its offset. -/
theorem slice_mid (a m z : List UInt8) :
    slice (a ++ (m ++ z)) a.length m.length = m := by
  simp [slice]

theorem slice_mid_of {a m z : List UInt8} {p n : Nat} (hp : p = a.length)
    (hn : n = m.length) : slice (a ++ (m ++ z)) p n = m := by
  rw [hp, hn, slice_mid]

/-- Read `n` items of width `w` one after the other from offset `p`. -/
def readItems {α : Type*} (read : List UInt8 → α) (w : Nat) (buf : List UInt8) :
    Nat → Nat → List α
  | 0, _ => []
  | n + 1, p => read (slice buf p w) :: readItems read w buf n (p + w)

theorem length_readItems {α : Type*} (read : List UInt8 → α) (w : Nat) (buf : List UInt8)
    (n p : Nat) : (readItems read w buf n p).length = n := by
  induction n generalizing p with
  | zero => rfl
  | succ n ih => rw [readItems, List.length_cons, ih]

theorem length_flatMap_of {α : Type*} {write : α → List UInt8} {w : Nat} {l : List α}
    (hw : ∀ x ∈ l, (write x).length = w) : (l.flatMap write).length = w * l.length := by
  induction l with
  | nil => simp
  | cons x l ih =>
    rw [List.flatMap_cons, List.length_append, hw x (by simp),
      ih (fun y hy => hw y (List.mem_cons_of_mem x hy)), List.length_cons, Nat.mul_succ, Nat.add_comm]

/-- Items written back to back are read back in order. -/
theorem readItems_flatMap {α : Type*} {read : List UInt8 → α} {write : α → List UInt8} {w : Nat}
    {buf z : List UInt8} {l : List α} (hw : ∀ x ∈ l, (write x).length = w)
    (hr : ∀ x ∈ l, read (write x) = x) {a : List UInt8} {p : Nat}
    (hb : buf = a ++ (l.flatMap write ++ z)) (hp : p = a.length) :
    readItems read w buf l.length p = l := by
  induction l generalizing a p with
  | nil => rfl
  | cons x l ih =>
    have hx := hw x (by simp)
    rw [List.flatMap_cons, List.append_assoc] at hb
    have hhead : slice buf p w = write x := by rw [hb, slice_mid_of hp hx.symm]
    rw [List.length_cons, readItems, hhead, hr x (by simp)]
    rw [ih (fun y hy => hw y (List.mem_cons_of_mem x hy))
      (fun y hy => hr y (List.mem_cons_of_mem x hy)) (a := a ++ write x)
      (by rw [hb, List.append_assoc]) (by rw [List.length_append, hx, hp])]

theorem slice_append (buf : List UInt8) (p m n : Nat) :
    slice buf p m ++ slice buf (p + m) n = slice buf p (m + n) := by
  rw [slice, slice, slice, List.take_add, List.drop_drop]

/-- A field inside a prefix reads the same in the whole. -/
theorem slice_prefix {cut buf : List UInt8} (hc : cut <+: buf) {p n : Nat}
    (h : p + n ≤ cut.length) : slice cut p n = slice buf p n := by
  obtain ⟨z, rfl⟩ := hc
  have hlen : n ≤ (cut.drop p).length := by
    rw [List.length_drop]
    omega
  rw [slice, slice, List.drop_append_of_le_length (by omega), List.take_append_of_le_length hlen]

theorem length_slice {buf : List UInt8} {p n : Nat} (h : p + n ≤ buf.length) :
    (slice buf p n).length = n := by
  rw [slice, List.length_take, List.length_drop]
  omega

/-! Reads that panic past the end of the buffer: `none` is the panic. -/

/-- `&buf[p..p + n]`. -/
def slice? (buf : List UInt8) (p n : Nat) : Option (List UInt8) :=
  if p + n ≤ buf.length then some (slice buf p n) else none

theorem slice?_eq {buf : List UInt8} {p n : Nat} (h : p + n ≤ buf.length) :
    slice? buf p n = some (slice buf p n) := if_pos h

def readItems? {α : Type} (read : List UInt8 → Option α) (w : Nat) (buf : List UInt8) :
    Nat → Nat → Option (List α)
  | 0, _ => some []
  | n + 1, p => do
    let s ← slice? buf p w
    let x ← read s
    let xs ← readItems? read w buf n (p + w)
    return x :: xs

/-- Items that lie in the buffer are read without a panic. -/
theorem readItems?_eq {α : Type} {read? : List UInt8 → Option α} {read : List UInt8 → α} {w : Nat}
    {buf : List UInt8} (hr : ∀ s, s.length = w → read? s = some (read s)) {n p : Nat}
    (h : p + w * n ≤ buf.length) :
    readItems? read? w buf n p = some (readItems read w buf n p) := by
  induction n generalizing p with
  | zero => rfl
  | succ n ih =>
    rw [Nat.mul_succ] at h
    have hs : p + w ≤ buf.length := by omega
    have hx := hr (slice buf p w) (length_slice hs)
    simp only [readItems?, readItems, slice?_eq hs, hx, ih (p := p + w) (by omega),
      Option.bind_eq_bind, Option.bind_some, Option.pure_def]

end Flowlab.Framework.Bytes
