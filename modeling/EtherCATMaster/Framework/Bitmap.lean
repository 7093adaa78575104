import Mathlib.Data.Nat.Bitwise
import Mathlib.Logic.Function.Basic

namespace EtherCATMaster.Framework

/-- A set of numbers as words of 32 bits: whether `i` is in it. -/
def marked (map : Nat → UInt32) (i : Nat) : Bool := (map (i/32)).toNat.testBit (i%32)

/-- The word of `i`, with the bit of `i` set. -/
def mark (map : Nat → UInt32) (i : Nat) : Nat → UInt32 :=
  Function.update map (i/32) (map (i/32) ||| (1 : UInt32) <<< UInt32.ofNat (i%32))

/-- The numbers of a block that begins at `i`. -/
def markBlock (map : Nat → UInt32) : Nat → Nat → Nat → UInt32
  | _,0 => map
  | i,n+1 => markBlock (mark map i) (i+1) n

theorem oneBit_toNat {b : Nat} (hb : b<32) : ((1 : UInt32) <<< UInt32.ofNat b).toNat=2^b := by
  have hlt : 2^b<2^32 := Nat.pow_lt_pow_right (by decide) hb
  have hsmall : b<2^32 := hb.trans (by decide)
  rw [UInt32.toNat_shiftLeft,UInt32.toNat_ofNat',Nat.mod_eq_of_lt hsmall,Nat.mod_eq_of_lt hb,
    Nat.shiftLeft_eq]
  exact (Nat.one_mul _).symm ▸ Nat.mod_eq_of_lt hlt

theorem and_oneBit {b : Nat} (hb : b<32) (word : UInt32) :
    word &&& (1 : UInt32) <<< UInt32.ofNat b≠0 ↔ word.toNat.testBit b=true := by
  have hand : (word &&& (1 : UInt32) <<< UInt32.ofNat b).toNat=(word.toNat.testBit b).toNat*2^b := by
    rw [UInt32.toNat_and,oneBit_toNat hb,Nat.and_two_pow]
  rw [Ne,← UInt32.toNat_inj,hand]
  cases word.toNat.testBit b with
  | false => simp
  | true => simp

@[simp] theorem marked_mark (map : Nat → UInt32) (i j : Nat) :
    marked (mark map i) j=(marked map j || decide (i=j)) := by
  have hi := Nat.mod_lt i (show 0 < 32 by decide)
  rw [marked,marked,mark,Function.update_apply]
  by_cases hword : j/32=i/32
  · rw [if_pos hword,hword,UInt32.toNat_or,oneBit_toNat hi,Nat.testBit_or,Nat.testBit_two_pow]
    congr 1
    rw [decide_eq_decide]
    constructor
    · intro hbit
      omega
    · intro hij
      omega
  · rw [if_neg hword]
    have hne : i≠j := by
      intro hij
      rw [hij] at hword
      exact hword rfl
    simp [hne]

theorem marked_markBlock (n : Nat) : ∀ (map : Nat → UInt32) (i j : Nat),
    marked (markBlock map i n) j=(marked map j || decide (i ≤ j ∧ j < i+n)) := by
  induction n with
  | zero =>
    intro map i j
    simp [markBlock]
  | succ n ih =>
    intro map i j
    rw [markBlock,ih,marked_mark,Bool.or_assoc,← Bool.decide_or]
    congr 2
    apply propext
    omega

end EtherCATMaster.Framework
