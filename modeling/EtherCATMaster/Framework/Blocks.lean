import Mathlib.Algebra.BigOperators.Group.List.Basic
import Mathlib.Algebra.Ring.Nat
import Mathlib.Data.Nat.Basic
import Mathlib.Tactic.SplitIfs

namespace EtherCATMaster.Framework

section Position

/-- The block that a position is in, when blocks of these sizes follow one another. -/
def blockOf : List Nat → Nat → Nat
  | [],_ => 0
  | size::rest,x => if x < size then 0 else blockOf rest (x-size)+1

theorem blockOf_mono (blocks : List Nat) {x y : Nat} (h : x ≤ y) :
    blockOf blocks x ≤ blockOf blocks y := by
  induction blocks generalizing x y with
  | nil => exact Nat.le_refl _
  | cons size rest ih =>
    rw [blockOf,blockOf]
    by_cases hx : x < size
    · rw [if_pos hx]
      exact Nat.zero_le _
    · rw [if_neg hx,if_neg (by omega)]
      exact Nat.succ_le_succ (ih (by omega))

theorem blockOf_succ_le {blocks : List Nat} (hpos : ∀ size ∈ blocks,0 < size) (x : Nat) :
    blockOf blocks (x+1) ≤ blockOf blocks x+1 := by
  induction blocks generalizing x with
  | nil => exact Nat.zero_le _
  | cons size rest ih =>
    have hrest : ∀ size ∈ rest,0 < size := fun y hy => hpos y (List.mem_cons_of_mem size hy)
    rw [blockOf,blockOf]
    by_cases hx : x+1 < size
    · rw [if_pos hx]
      exact Nat.zero_le _
    · rw [if_neg hx]
      by_cases hlast : x < size
      · -- the first position of the rest
        rw [if_pos hlast,show x+1-size=0 by omega]
        apply Nat.succ_le_succ
        cases rest with
        | nil => exact Nat.le_refl _
        | cons next rest =>
          rw [blockOf,if_pos (hrest next List.mem_cons_self)]
      · rw [if_neg hlast,show x+1-size=x-size+1 by omega]
        exact Nat.succ_le_succ (ih hrest (x-size))

theorem blockOf_step {blocks : List Nat} (hpos : ∀ size ∈ blocks,0 < size) (x : Nat) :
    blockOf blocks (x+1)=
      blockOf blocks x+if blockOf blocks x≠blockOf blocks (x+1) then 1 else 0 := by
  have hgap := blockOf_succ_le hpos x
  have hmono := blockOf_mono blocks (show x ≤ x+1 by omega)
  split_ifs <;> omega

theorem blockOf_append_left {xs : List Nat} (ys : List Nat) {x : Nat} (h : x<xs.sum) :
    blockOf (xs++ys) x=blockOf xs x := by
  induction xs generalizing x with
  | nil => exact absurd h (Nat.not_lt_zero x)
  | cons size rest ih =>
    rw [List.sum_cons] at h
    rw [List.cons_append,blockOf,blockOf]
    by_cases hx : x < size
    · rw [if_pos hx,if_pos hx]
    · rw [if_neg hx,if_neg hx,ih (by omega)]

theorem blockOf_append_right (xs ys : List Nat) (x : Nat) :
    blockOf (xs++ys) (xs.sum+x)=xs.length+blockOf ys x := by
  induction xs with
  | nil => rw [List.nil_append,List.sum_nil,List.length_nil,Nat.zero_add,Nat.zero_add]
  | cons size rest ih =>
    rw [List.cons_append,List.sum_cons,List.length_cons,blockOf,if_neg (by omega),
      show size+rest.sum+x-size=rest.sum+x by omega,ih]
    omega

theorem blockOf_sum_add (blocks : List Nat) (x : Nat) :
    blockOf blocks (blocks.sum+x)=blocks.length := by
  have h := blockOf_append_right blocks [] x
  rw [List.append_nil] at h
  exact h

theorem blockOf_last {blocks : List Nat} {last x : Nat} (h : x<blocks.sum+last) :
    blockOf (blocks++[last]) x=blockOf blocks x := by
  by_cases hx : x<blocks.sum
  · exact blockOf_append_left _ hx
  · obtain ⟨d,rfl⟩ := Nat.exists_eq_add_of_le (Nat.not_lt.mp hx)
    rw [blockOf_append_right,blockOf_sum_add,blockOf,if_pos (by omega),Nat.add_zero]

end Position

section Touched

def touched (P : Nat → Prop) [DecidablePred P] : List Nat → Nat
  | [] => 0
  | size::rest => (if ∃ x,x < size ∧ P x then 1 else 0)+touched (fun x => P (size+x)) rest

variable {P Q : Nat → Prop} [DecidablePred P] [DecidablePred Q]

theorem touched_congr {blocks : List Nat} (h : ∀ x,x<blocks.sum → (P x ↔ Q x)) :
    touched P blocks=touched Q blocks := by
  induction blocks generalizing P Q with
  | nil => rfl
  | cons size rest ih =>
    rw [List.sum_cons] at h
    have hfirst : (∃ x,x < size ∧ P x) ↔ ∃ x,x < size ∧ Q x :=
      exists_congr (fun x => and_congr_right (fun hx => h x (by omega)))
    rw [touched,touched,if_congr hfirst rfl rfl,ih (fun x hx => h (size+x) (by omega))]

theorem touched_none {blocks : List Nat} (h : ∀ x,x<blocks.sum → ¬P x) : touched P blocks=0 := by
  induction blocks generalizing P with
  | nil => rfl
  | cons size rest ih =>
    rw [List.sum_cons] at h
    rw [touched,if_neg,ih (fun x hx => h (size+x) (by omega))]
    rintro ⟨x,hx,hP⟩
    exact h x (by omega) hP

/-- One more position, behind all others. It counts if its block has none of them. -/
theorem touched_insert (blocks : List Nat) (q : Nat) (hbefore : ∀ x,P x → x<q)
    (hq : q<blocks.sum) [Decidable (∃ x,P x ∧ blockOf blocks x=blockOf blocks q)] :
    touched (fun x => P x ∨ x=q) blocks=touched P blocks+
      if ∃ x,P x ∧ blockOf blocks x=blockOf blocks q then 0 else 1 := by
  classical
  induction blocks generalizing P q with
  | nil => exact absurd hq (Nat.not_lt_zero q)
  | cons size rest ih =>
    rw [List.sum_cons] at hq
    rw [touched,touched]
    by_cases hin : q < size
    · -- in the first block, and nothing is behind it
      have hrest : touched (fun x => P (size+x)) rest=0 := by
        apply touched_none
        intro x _ hP
        have := hbefore _ hP
        omega
      have hrest' : touched (fun x => P (size+x) ∨ size+x=q) rest=0 := by
        apply touched_none
        rintro x - (hP|heq)
        · have := hbefore _ hP
          omega
        · omega
      have hsame : (∃ x,P x ∧ blockOf (size::rest) x=blockOf (size::rest) q) ↔
          ∃ x,x < size ∧ P x := by
        constructor
        · rintro ⟨x,hP,-⟩
          exact ⟨x,(hbefore x hP).trans hin,hP⟩
        · rintro ⟨x,hx,hP⟩
          refine ⟨x,hP,?_⟩
          rw [blockOf,blockOf,if_pos hx,if_pos hin]
      rw [hrest,hrest',if_pos ⟨q,hin,.inr rfl⟩,if_congr hsame rfl rfl]
      split_ifs <;> rfl
    · obtain ⟨d,rfl⟩ := Nat.exists_eq_add_of_le (Nat.not_lt.mp hin)
      have hfirst : (∃ x,x < size ∧ (P x ∨ x=size+d)) ↔ ∃ x,x < size ∧ P x := by
        constructor
        · rintro ⟨x,hx,hP|rfl⟩
          · exact ⟨x,hx,hP⟩
          · omega
        · rintro ⟨x,hx,hP⟩
          exact ⟨x,hx,.inl hP⟩
      have hnext := ih (P := fun x => P (size+x)) d
        (fun x hP => by have := hbefore _ hP; omega) (by omega)
      have hcongr : touched (fun x => P (size+x) ∨ size+x=size+d) rest=
          touched (fun x => P (size+x) ∨ x=d) rest :=
        touched_congr (fun x _ => or_congr_right (by omega))
      have hsame : (∃ x,P x ∧ blockOf (size::rest) x=blockOf (size::rest) (size+d)) ↔
          ∃ x,P (size+x) ∧ blockOf rest x=blockOf rest d := by
        rw [blockOf,if_neg hin,Nat.add_sub_cancel_left]
        constructor
        · rintro ⟨x,hP,heq⟩
          rw [blockOf] at heq
          split_ifs at heq with hx
          obtain ⟨y,rfl⟩ := Nat.exists_eq_add_of_le (Nat.not_lt.mp hx)
          rw [Nat.add_sub_cancel_left] at heq
          exact ⟨y,hP,Nat.succ.inj heq⟩
        · rintro ⟨x,hP,heq⟩
          refine ⟨_,hP,?_⟩
          rw [blockOf,if_neg (by omega),Nat.add_sub_cancel_left,heq]
      rw [hcongr,hnext,if_congr hfirst rfl rfl,if_congr hsame rfl rfl,Nat.add_assoc]

/-- A range of positions touches the blocks from that of its first to that of its last one. -/
theorem touched_range {blocks : List Nat} (hpos : ∀ size ∈ blocks,0 < size) (last start n : Nat)
    (hn : start+n<blocks.sum+last) :
    touched (fun x => start ≤ x ∧ x < start+(n+1)) (blocks++[last])+blockOf blocks start=
      blockOf blocks (start+n)+1 := by
  classical
  have hsum : (blocks++[last]).sum=blocks.sum+last := by
    rw [List.sum_append,List.sum_singleton]
  induction n with
  | zero =>
    have hone := touched_insert (P := fun _ => False) (blocks++[last]) start
      (fun x hx => hx.elim) (by omega)
    have hcongr : touched (fun x => start ≤ x ∧ x < start+(0+1)) (blocks++[last])=
        touched (fun x => False ∨ x=start) (blocks++[last]) := by
      apply touched_congr
      intro x _
      rw [false_or]
      omega
    rw [hcongr,hone,touched_none (fun x _ => not_false),if_neg (fun ⟨_,hx,_⟩ => hx),
      Nat.add_zero start]
    omega
  | succ n ih =>
    have hnext := touched_insert (P := fun x => start ≤ x ∧ x < start+(n+1)) (blocks++[last])
      (start+(n+1)) (fun x hx => hx.2) (by omega)
    have hcongr : touched (fun x => start ≤ x ∧ x < start+(n+1+1)) (blocks++[last])=
        touched (fun x => (start ≤ x ∧ x < start+(n+1)) ∨ x=start+(n+1)) (blocks++[last]) :=
      touched_congr (fun x _ => by omega)
    have hih := ih (by omega)
    have hgap : blockOf blocks (start+(n+1)) ≤ blockOf blocks (start+n)+1 :=
      blockOf_succ_le hpos (start+n)
    have hmono : blockOf blocks (start+n) ≤ blockOf blocks (start+(n+1)) :=
      blockOf_mono blocks (Nat.le_succ (start+n))
    -- the new position is in the block of the last one, or in the next
    have hsame : (∃ x,(start ≤ x ∧ x < start+(n+1)) ∧
        blockOf (blocks++[last]) x=blockOf (blocks++[last]) (start+(n+1))) ↔
        blockOf blocks (start+n)=blockOf blocks (start+(n+1)) := by
      rw [blockOf_last hn]
      constructor
      · rintro ⟨x,hx,heq⟩
        rw [blockOf_last (by omega)] at heq
        have hle := blockOf_mono blocks (show x ≤ start+n by omega)
        omega
      · intro heq
        refine ⟨start+n,by omega,?_⟩
        rw [blockOf_last (by omega)]
        exact heq
    rw [hcongr,hnext,if_congr hsame rfl rfl]
    split_ifs <;> omega

end Touched

end EtherCATMaster.Framework
