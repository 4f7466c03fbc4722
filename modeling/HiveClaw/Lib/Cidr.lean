import HiveClaw.Lib.IpAddr
import Mathlib.Data.BitVec

/-!
# Networks of addresses

A network is an address with the number of bits that count. Software keeps it
as a masked word, and tests an address by masking it, too.

* `and_mask_eq_iff` — equal under the mask of the first bits means equal in
  these bits.
* `Network.Contains` — an address agrees with the network in these bits.
* `mapped_bits` — the first bits of an IPv4 address written as IPv6.
-/

namespace Lib

-- ---
-- Masks
-- ---

/-- The word of `w` bits of which the first `n` are set. -/
def mask (w n : Nat) : BitVec w := if n = 0 then 0 else BitVec.allOnes w <<< (w - n)

variable {n w : Nat}

theorem getMsbD_mask {i : Nat} (hn : n ≤ w) : (mask w n).getMsbD i = decide (i < n) := by
  unfold mask
  split
  · next hzero =>
    subst hzero
    simp
  · rw [BitVec.getMsbD_shiftLeft, BitVec.getMsbD_allOnes]
    exact decide_eq_decide.mpr (by omega)

/-- Two words are equal under a mask exactly if their first bits are equal. -/
theorem and_mask_eq_iff (hn : n ≤ w) (x y : BitVec w) :
    x &&& mask w n = y &&& mask w n ↔ ∀ i < n, x.getMsbD i = y.getMsbD i := by
  constructor
  · intro h i hi
    have hbit := congrArg (fun z : BitVec w => z.getMsbD i) h
    simpa only [BitVec.getMsbD_and, getMsbD_mask hn, hi, decide_true,
      Bool.and_true] using hbit
  · intro h
    refine BitVec.eq_of_getMsbD_eq fun i hi => ?_
    rw [BitVec.getMsbD_and, BitVec.getMsbD_and, getMsbD_mask hn]
    by_cases hlow : i < n
    · rw [h i hlow]
    · simp [hlow]

-- ---
-- Addresses as words
-- ---

-- `u32::from`
def V4.bits (x : V4) : BitVec 32 :=
  BitVec.ofNat 32 (((x.a.val * 256 + x.b.val) * 256 + x.c.val) * 256 + x.d.val)

-- `u128::from`
def V6.bits (x : V6) : BitVec 128 :=
  BitVec.ofNat 128 (x.groups.foldl (fun n g => n * 65536 + g.val) 0)

/-- The address that an IPv4-mapped address stands for; any other address itself. -/
def IpAddr.unmapped : IpAddr → IpAddr
  | .v4 x => .v4 x
  | .v6 x =>
    match x.mapped with
    | some y => .v4 y
    | none => .v6 x

/-- The bits of an IPv4-mapped address: the first is clear, and the 81st is set. -/
theorem mapped_bits {x : V6} {y : V4} (h : x.mapped = some y) :
    x.bits.getMsbD 0 = false ∧ x.bits.getMsbD 80 = true := by
  obtain ⟨groups, hlength⟩ := x
  unfold V6.mapped at h
  dsimp only at h
  split at h
  · next g k =>
    have hg := g.isLt
    have hk := k.isLt
    have hfold : V6.bits ⟨[0, 0, 0, 0, 0, 0xffff, g, k], hlength⟩ =
        BitVec.ofNat 128 ((65535 * 65536 + g.val) * 65536 + k.val) := rfl
    rw [hfold]
    constructor
    · rw [BitVec.getMsbD, BitVec.getLsbD_ofNat, Nat.testBit_eq_decide_div_mod_eq]
      simp
      omega
    · rw [BitVec.getMsbD, BitVec.getLsbD_ofNat, Nat.testBit_eq_decide_div_mod_eq]
      simp
      omega
  · cases h

-- ---
-- Networks
-- ---

/-- The number of bits of an address. -/
def IpAddr.width : IpAddr → Nat
  | .v4 _ => 32
  | .v6 _ => 128

/-- A network. -/
structure Network where
  address : IpAddr
  bits : Nat
  bits_le : bits ≤ address.width

/-- The address agrees with the network in the bits that count. -/
def Network.Contains (n : Network) (a : IpAddr) : Prop :=
  match n.address, a with
  | .v4 x, .v4 y => ∀ i < n.bits, x.bits.getMsbD i = y.bits.getMsbD i
  | .v6 x, .v6 y => ∀ i < n.bits, x.bits.getMsbD i = y.bits.getMsbD i
  | _, _ => False

end Lib
