import Mathlib.Tactic.Ring
import Mathlib.Tactic.Linarith

namespace EtherCATMaster.Framework

/-- What ends an evaluation. -/
inductive Fault where
  | divisionByZero
  | overflow
  deriving DecidableEq, Repr

def signed64 (x : Int) : Except Fault Int :=
  if -2^63 ≤ x ∧ x<2^63 then .ok x else .error .overflow

def quotient64 (x y : Int) : Except Fault Int :=
  if y=0 then .error .divisionByZero else signed64 (x.tdiv y)

def quotient32 (x y : UInt32) : Except Fault UInt32 :=
  if y=0 then .error .divisionByZero else .ok (x/y)

theorem signed64_ok {x : Int} (hlo : -2^63 ≤ x) (hhi : x<2^63) : signed64 x=.ok x :=
  if_pos ⟨hlo,hhi⟩

theorem quotient64_ok {x y : Int} (hx : 0 ≤ x) (hhi : x<2^63) (hy : 0<y) :
    quotient64 x y=.ok (x/y) := by
  have hle : x/y ≤ x := Int.ediv_le_self y hx
  have hnonneg : 0 ≤ x/y := Int.ediv_nonneg hx (Int.le_of_lt hy)
  rw [quotient64,if_neg (by omega),Int.tdiv_eq_ediv_of_nonneg hx]
  exact signed64_ok (by omega) (by omega)

theorem quotient32_ok {x y : UInt32} (hy : y≠0) : quotient32 x y=.ok (x/y) := if_neg hy

theorem quotient32_zero (x : UInt32) : quotient32 x 0=.error .divisionByZero := rfl

theorem ok_bind {E α β : Type} {x : Except E α} {f : α → Except E β} {a : α} (h : x=.ok a) :
    (x >>= f)=f a := by
  rw [h]
  rfl

theorem error_bind {E α β : Type} {x : Except E α} {f : α → Except E β} {e : E}
    (h : x=.error e) : (x >>= f)=.error e := by
  rw [h]
  rfl

/-- The multiple of `c` that comes next after a time, at most `c` later. -/
theorem next_multiple {t c : Int} (hc : 0<c) :
    t<t/c*c+c ∧ t/c*c+c ≤ t+c ∧ c ∣ t/c*c+c := by
  have hlow := Int.ediv_mul_le t (Int.ne_of_gt hc)
  have hhigh := Int.lt_ediv_add_one_mul_self t hc
  refine ⟨?_,by omega,?_⟩
  · calc t<(t/c+1)*c := hhigh
      _=t/c*c+c := by ring
  · exact Int.dvd_add (Int.dvd_mul_left _ _) (Int.dvd_refl c)

end EtherCATMaster.Framework
