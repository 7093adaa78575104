import Mathlib.Data.List.Basic
import Mathlib.Data.List.Nodup
import Mathlib.Logic.Function.Basic

namespace EtherCATMaster.Framework

variable {α : Type*}

/-- The index after `i` in an array of `n` cells that is used in a circle. -/
def ringNext (n i : Nat) : Nat := if i+1≥n then 0 else i+1

/-- The cell `k` places after `start`. -/
def ringIndex (n start k : Nat) : Nat := if start+k<n then start+k else start+k-n

/-- How many places after `start` cell `i` lies. -/
def ringOffset (n start i : Nat) : Nat := if start ≤ i then i-start else i+n-start

theorem ringNext_lt {n i : Nat} (h : i<n) : ringNext n i<n := by
  simp only [ringNext]
  split_ifs <;> omega

theorem ringIndex_lt {n start k : Nat} (hs : start<n) (hk : k ≤ n) : ringIndex n start k<n := by
  simp only [ringIndex]
  split_ifs <;> omega

theorem ringIndex_zero {n start : Nat} (hs : start<n) : ringIndex n start 0=start := by
  simp only [ringIndex]
  split_ifs <;> omega

theorem ringNext_index {n start k : Nat} (hs : start<n) (hk : k<n) :
    ringNext n (ringIndex n start k)=ringIndex n start (k+1) := by
  simp only [ringNext,ringIndex]
  split_ifs <;> omega

theorem ringIndex_next {n start k : Nat} (hs : start<n) (hk : k+1 ≤ n) :
    ringIndex n (ringNext n start) k=ringIndex n start (k+1) := by
  simp only [ringNext,ringIndex]
  split_ifs <;> omega

theorem ringOffset_self {n start : Nat} : ringOffset n start start=0 := by
  simp [ringOffset]

theorem ringOffset_index {n start k : Nat} (hs : start<n) (hk : k<n) :
    ringOffset n start (ringIndex n start k)=k := by
  simp only [ringOffset,ringIndex]
  split_ifs <;> omega

theorem ringIndex_offset {n start i : Nat} (hs : start<n) (hi : i<n) :
    ringIndex n start (ringOffset n start i)=i := by
  simp only [ringOffset,ringIndex]
  split_ifs <;> omega

theorem ringOffset_next {n start i : Nat} (hs : start<n) (hi : i<n) :
    ringOffset n (ringNext n start) i=if i=start then n-1 else ringOffset n start i-1 := by
  simp only [ringOffset,ringNext]
  split_ifs <;> omega

theorem ringOffset_eq_zero {n start i : Nat} (hs : start<n) :
    ringOffset n start i=0 ↔ i=start := by
  simp only [ringOffset]
  split_ifs <;> omega

/-- The contents of `count` cells from `start` on. -/
def ringList (n : Nat) (cells : Nat → α) (start count : Nat) : List α :=
  (List.range count).map fun k => cells (ringIndex n start k)

@[simp] theorem ringList_length (n : Nat) (cells : Nat → α) (start count : Nat) :
    (ringList n cells start count).length=count := by
  simp [ringList]

theorem ringList_pop {n : Nat} (cells : Nat → α) {start count : Nat} (hs : start<n)
    (hc : count+1 ≤ n) :
    ringList n cells start (count+1)=
      cells start::ringList n cells (ringNext n start) count := by
  simp only [ringList,List.range_succ_eq_map,List.map_cons,List.map_map,ringIndex_zero hs]
  refine congrArg (cells start::·) ?_
  apply List.map_congr_left
  intro k hk
  have hk' : k<count := List.mem_range.mp hk
  change cells (ringIndex n start (k+1))=_
  rw [ringIndex_next hs (by omega)]

theorem ringList_push {n : Nat} (cells : Nat → α) {start count : Nat} (v : α) (hs : start<n)
    (hc : count<n) :
    ringList n (Function.update cells (ringIndex n start count) v) start (count+1)=
      ringList n cells start count++[v] := by
  simp only [ringList,List.range_succ,List.map_append,List.map_cons,List.map_nil,
    Function.update_self]
  refine congrArg (·++[v]) ?_
  apply List.map_congr_left
  intro k hk
  have hk' : k<count := List.mem_range.mp hk
  apply Function.update_of_ne
  intro h
  have ho := congrArg (ringOffset n start) h
  rw [ringOffset_index hs (by omega),ringOffset_index hs hc] at ho
  omega

theorem ringList_update_start {n : Nat} (cells : Nat → α) {start count : Nat} (v : α)
    (hs : start<n) (hc : count+1 ≤ n) :
    ringList n (Function.update cells start v) (ringNext n start) count=
      ringList n cells (ringNext n start) count := by
  apply List.map_congr_left
  intro k hk
  have hk' : k<count := List.mem_range.mp hk
  rw [ringIndex_next hs (by omega)]
  apply Function.update_of_ne
  intro h
  have ho := congrArg (ringOffset n start) h
  rw [ringOffset_index hs (by omega),ringOffset_self] at ho
  omega

theorem ringIndex_full (n start : Nat) : ringIndex n start n=start := by
  simp only [ringIndex]
  split_ifs <;> omega

theorem ringIndex_eq_start {n start k : Nat} (hs : start<n) (hk : k ≤ n) (hpos : 0<k) :
    ringIndex n start k=start ↔ k=n := by
  constructor
  · intro h
    by_contra hne
    have ho := congrArg (ringOffset n start) h
    rw [ringOffset_index hs (by omega),ringOffset_self] at ho
    omega
  · intro h
    rw [h]
    exact ringIndex_full n start

end EtherCATMaster.Framework
