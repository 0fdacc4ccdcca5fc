import Mathlib

/-!
# Numbers in network byte order
-/

namespace PgShard.Wire

abbrev Bytes := List UInt8

/-- The last `w` bytes of a number, the most significant first. -/
def be : Nat → Nat → Bytes
  | 0, _ => []
  | w + 1, n => be w (n / 256) ++ [UInt8.ofNat n]

def value (bs : Bytes) : Nat := bs.foldl (fun n b => n * 256 + b.toNat) 0

@[simp] lemma length_be (w n : Nat) : (be w n).length = w := by
  induction w generalizing n with
  | zero => rfl
  | succ w ih => simp [be, ih]

lemma value_append (bs : Bytes) (b : UInt8) : value (bs ++ [b]) = value bs * 256 + b.toNat := by
  simp [value, List.foldl_append]

lemma value_lt (bs : Bytes) : value bs < 256 ^ bs.length := by
  induction bs using List.reverseRecOn with
  | nil => exact Nat.one_pos
  | append_singleton bs b ih =>
    have hb : b.toNat < 256 := b.toNat_lt
    rw [value_append, List.length_append, List.length_singleton, Nat.pow_succ]
    omega

lemma value_be {w n : Nat} (h : n < 256 ^ w) : value (be w n) = n := by
  induction w generalizing n with
  | zero =>
    have hn : n = 0 := by simpa using h
    subst hn
    rfl
  | succ w ih =>
    have hdiv : n / 256 < 256 ^ w := by
      rw [Nat.pow_succ] at h
      exact Nat.div_lt_of_lt_mul (by omega)
    rw [be, value_append, ih hdiv, UInt8.toNat_ofNat']
    omega

lemma be_value (bs : Bytes) : be bs.length (value bs) = bs := by
  induction bs using List.reverseRecOn with
  | nil => rfl
  | append_singleton bs b ih =>
    have hb : b.toNat < 256 := b.toNat_lt
    have hdiv : (value bs * 256 + b.toNat) / 256 = value bs := by omega
    have hlast : UInt8.ofNat (value bs * 256 + b.toNat) = b := by
      apply UInt8.toNat_inj.mp
      rw [UInt8.toNat_ofNat']
      omega
    rw [List.length_append, List.length_singleton, be, value_append, hdiv, ih, hlast]

end PgShard.Wire
