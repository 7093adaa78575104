import Mathlib.Algebra.BigOperators.Group.List.Basic
import Mathlib.Algebra.Field.Basic
import Mathlib.Algebra.CharZero.Defs
import Mathlib.Data.Nat.Cast.Order.Ring
import Mathlib.Data.List.Induction
import Mathlib.Order.Bounds.Basic
import Mathlib.Order.MinMax
import Mathlib.Tactic.FieldSimp
import Mathlib.Tactic.Ring

namespace EtherCATMaster.Framework

section Mean

variable {R : Type*} [Field R]

def mean (xs : List R) : R := xs.sum/xs.length

theorem mean_concat [CharZero R] (xs : List R) (x : R) :
    mean (xs++[x])=mean xs+(x-mean xs)/(xs.length+1 : R) := by
  have hnext : (xs.length+1 : R)≠0 := Nat.cast_add_one_ne_zero xs.length
  have hmean : mean (xs++[x])=(xs.sum+x)/(xs.length+1 : R) := by
    rw [mean,List.sum_append,List.sum_singleton,List.length_append,List.length_singleton,
      Nat.cast_add,Nat.cast_one]
  rw [hmean]
  cases xs with
  | nil => simp [mean]
  | cons y ys =>
    have hlength : ((y::ys).length : R)≠0 := Nat.cast_ne_zero.mpr (Nat.succ_ne_zero ys.length)
    rw [mean]
    field_simp
    ring

end Mean

section Extrema

variable {α : Type*} [LinearOrder α]

/-- The smaller value, where `mark` stands for none so far. -/
def lesser (mark acc x : α) : α := if acc=mark ∨ x < acc then x else acc

def greater (acc x : α) : α := if acc < x then x else acc

theorem greater_eq_max (acc x : α) : greater acc x=max acc x := by
  rw [greater]
  split_ifs with h
  · exact (max_eq_right h.le).symm
  · exact (max_eq_left (not_lt.mp h)).symm

theorem greatest_concat {xs : List α} {x m : α} (h : IsGreatest {y | y ∈ xs} m) :
    IsGreatest {y | y ∈ xs++[x]} (greater m x) := by
  have hset : {y | y ∈ xs++[x]}=insert x {y | y ∈ xs} := by
    ext y
    simp [or_comm]
  rw [hset,greater_eq_max,max_comm]
  exact h.insert x

theorem foldl_greater {start : α} {xs : List α} (hne : xs≠[]) (hlow : ∀ x ∈ xs,start ≤ x) :
    IsGreatest {x | x ∈ xs} (xs.foldl greater start) := by
  induction xs using List.reverseRecOn with
  | nil => exact absurd rfl hne
  | append_singleton xs x ih =>
    rw [List.foldl_concat]
    by_cases hxs : xs=[]
    · subst hxs
      have hx : greater start x=x := by
        rw [greater_eq_max]
        exact max_eq_right (hlow x (List.mem_singleton_self x))
      rw [List.foldl_nil,hx]
      simp
    · exact greatest_concat (ih hxs (fun y hy => hlow y (List.mem_append_left [x] hy)))

variable {mark : α}

theorem foldl_lesser_mem {xs : List α} (hne : xs≠[]) :
    xs.foldl (lesser mark) mark ∈ xs := by
  induction xs using List.reverseRecOn with
  | nil => exact absurd rfl hne
  | append_singleton xs x ih =>
    rw [List.foldl_concat,lesser]
    split_ifs with h
    · exact List.mem_append_right xs (List.mem_singleton_self x)
    · have hxs : xs≠[] := by
        rintro rfl
        exact h (.inl rfl)
      exact List.mem_append_left [x] (ih hxs)

theorem foldl_lesser_le {xs : List α} (hmark : mark ∉ xs) :
    ∀ x ∈ xs,xs.foldl (lesser mark) mark ≤ x := by
  induction xs using List.reverseRecOn with
  | nil => exact fun x hx => absurd hx (List.not_mem_nil)
  | append_singleton xs x ih =>
    have hold : mark ∉ xs := fun h => hmark (List.mem_append_left [x] h)
    intro y hy
    rw [List.foldl_concat,lesser]
    by_cases hxs : xs=[]
    · subst hxs
      rw [List.foldl_nil,if_pos (.inl rfl)]
      exact (List.mem_singleton.mp hy).ge
    have hset : xs.foldl (lesser mark) mark≠mark := by
      intro heq
      exact hold (heq ▸ foldl_lesser_mem hxs)
    rcases List.mem_append.mp hy with hy|hy
    · have hacc := ih hold y hy
      split_ifs with h
      · exact (h.resolve_left hset).le.trans hacc
      · exact hacc
    · obtain rfl := List.mem_singleton.mp hy
      split_ifs with h
      · exact le_rfl
      · exact not_lt.mp (fun hlt => h (.inr hlt))

theorem foldl_lesser_eq_mark {xs : List α} (hne : xs≠[]) (hlow : ∀ x ∈ xs,mark ≤ x) :
    xs.foldl (lesser mark) mark=mark ↔ xs.getLast? = some mark := by
  induction xs using List.reverseRecOn with
  | nil => exact absurd rfl hne
  | append_singleton xs x _ =>
    have hx : mark ≤ x := hlow x (List.mem_append_right xs (List.mem_singleton_self x))
    rw [List.foldl_concat,List.getLast?_concat,Option.some_inj,lesser]
    split_ifs with h
    · exact Iff.rfl
    · obtain ⟨hacc,hle⟩ := not_or.mp h
      constructor
      · exact fun heq => absurd heq hacc
      · rintro rfl
        have hxs : xs≠[] := by
          rintro rfl
          exact hacc rfl
        have hmem := hlow _ (List.mem_append_left [x] (@foldl_lesser_mem _ _ x _ hxs))
        exact le_antisymm (not_lt.mp hle) hmem

theorem foldl_lesser_least_iff {xs : List α} (hne : xs≠[]) (hlow : ∀ x ∈ xs,mark ≤ x) :
    IsLeast {x | x ∈ xs} (xs.foldl (lesser mark) mark) ↔
      (mark ∈ xs → xs.getLast? = some mark) := by
  constructor
  · intro h hmem
    have heq := le_antisymm (h.2 hmem) (hlow _ h.1)
    exact (foldl_lesser_eq_mark hne hlow).mp heq
  · intro h
    refine ⟨foldl_lesser_mem hne,?_⟩
    by_cases hmem : mark ∈ xs
    · have heq := (foldl_lesser_eq_mark hne hlow).mpr (h hmem)
      intro x hx
      rw [heq]
      exact hlow x hx
    · exact fun x hx => foldl_lesser_le hmem x hx

end Extrema

end EtherCATMaster.Framework
