import Mathlib.Data.List.Nodup
import Mathlib.Data.List.TakeWhile

namespace EtherCATMaster.Framework

variable {α κ : Type*} [DecidableEq κ] (key : α → κ)

def rowOf (k : κ) (rows : List α) : Option α := rows.find? fun row => key row=k

def put (rows : List α) (row : α) : List α :=
  match rows with
  | [] => [row]
  | r::rows => if key r=key row then row::rows else r::put rows row

def putUpTo (room : ℕ) : List α → List α → Bool × List α
  | [],rows => (true,rows)
  | row::news,rows =>
      if key row ∉ rows.map key ∧ room ≤ rows.length then (false,rows)
      else putUpTo room news (put key rows row)

def knownOf (rows news : List α) : List α := news.takeWhile fun row => key row ∈ rows.map key

/-- The last row of each key that is known is there in this very form, and the first row of a new key
has no room. -/
def Settled (room : ℕ) (news rows : List α) : Prop :=
  (∀ row ∈ knownOf key rows news,
    rowOf key (key row) rows=rowOf key (key row) (knownOf key rows news).reverse) ∧
  ((∀ row ∈ news,key row ∈ rows.map key) ∨ room ≤ rows.length)

instance [DecidableEq α] (room : ℕ) (news rows : List α) : Decidable (Settled key room news rows) :=
  inferInstanceAs (Decidable (_ ∧ _))

variable {key}

theorem rowOf_isSome_iff {k : κ} {rows : List α} :
    (rowOf key k rows).isSome ↔ k ∈ rows.map key := by
  rw [rowOf,List.find?_isSome,List.mem_map]
  simp

theorem rowOf_key {k : κ} {rows : List α} {row : α} (h : rowOf key k rows=some row) :
    row ∈ rows ∧ key row=k :=
  ⟨List.mem_of_find?_eq_some h,
    of_decide_eq_true (List.find?_some (p := fun row => decide (key row=k)) h)⟩

theorem put_keys (rows : List α) (row : α) :
    (put key rows row).map key=
      if key row ∈ rows.map key then rows.map key else rows.map key++[key row] := by
  induction rows with
  | nil => rfl
  | cons r rows ih =>
    rw [put]
    by_cases hr : key r=key row
    · rw [if_pos hr,List.map_cons,List.map_cons,← hr,if_pos List.mem_cons_self]
    · have hmem : key row ∈ (r::rows).map key ↔ key row ∈ rows.map key := by
        rw [List.map_cons,List.mem_cons]
        exact or_iff_right (fun h => hr h.symm)
      rw [if_neg hr,List.map_cons,ih]
      by_cases hrow : key row ∈ rows.map key
      · rw [if_pos hrow,if_pos (hmem.mpr hrow),List.map_cons]
      · rw [if_neg hrow,if_neg (fun h => hrow (hmem.mp h)),List.map_cons,List.cons_append]

theorem put_length (rows : List α) (row : α) :
    (put key rows row).length=
      if key row ∈ rows.map key then rows.length else rows.length+1 := by
  rw [← List.length_map (f := key),put_keys]
  split_ifs
  · exact List.length_map key
  · rw [List.length_append,List.length_map,List.length_singleton]

theorem put_nodup {rows : List α} (h : (rows.map key).Nodup) (row : α) :
    ((put key rows row).map key).Nodup := by
  rw [put_keys]
  split_ifs with hrow
  · exact h
  · exact List.nodup_append.mpr ⟨h,List.nodup_singleton _,fun k hk l hl heq =>
      hrow (List.mem_singleton.mp hl ▸ heq ▸ hk)⟩

theorem foldl_put_cons (news : List α) (r : α) (rows : List α) :
    news.foldl (put key) (r::rows)=
      (rowOf key (key r) news.reverse).getD r::
        (news.filter fun row => key row≠key r).foldl (put key) rows := by
  induction news generalizing r rows with
  | nil => rfl
  | cons row news ih =>
    have hlast : rowOf key (key r) (row::news).reverse=
        (rowOf key (key r) news.reverse).or (if key row=key r then some row else none) := by
      rw [rowOf,List.reverse_cons,List.find?_append,List.find?_singleton,rowOf]
      simp
    rw [List.foldl_cons,put,hlast]
    by_cases hr : key r=key row
    · rw [if_pos hr,ih,if_pos hr.symm,List.filter_cons_of_neg (by simpa using hr.symm),hr]
      cases rowOf key (key row) news.reverse <;> rfl
    · have hrow : ¬key row=key r := fun h => hr h.symm
      rw [if_neg hr,ih,if_neg hrow,List.filter_cons_of_pos (by simpa using hrow),List.foldl_cons]
      cases rowOf key (key r) news.reverse <;> rfl

/-- Putting rows changes nothing exactly when the last one of each key is there already. -/
theorem foldl_put_eq_iff (news rows : List α) :
    news.foldl (put key) rows=rows ↔
      ∀ row ∈ news,rowOf key (key row) rows=rowOf key (key row) news.reverse := by
  induction rows generalizing news with
  | nil =>
    cases news with
    | nil => simp
    | cons row news =>
      constructor
      · intro h
        rw [List.foldl_cons,put,foldl_put_cons] at h
        cases h
      · intro h
        have hsome : (rowOf key (key row) (row::news).reverse).isSome := by
          rw [rowOf_isSome_iff,List.map_reverse,List.mem_reverse]
          exact List.mem_cons_self
        rw [← h row List.mem_cons_self] at hsome
        cases hsome
  | cons r rows ih =>
    rw [foldl_put_cons,List.cons.injEq,ih]
    have hother : ∀ k,k≠key r → rowOf key k (news.filter fun row => key row≠key r).reverse=
        rowOf key k news.reverse := by
      intro k hk
      rw [rowOf,← List.filter_reverse,List.find?_filter,rowOf]
      congr 1
      funext row
      by_cases hrow : key row=k
      · simp [hrow,hk]
      · simp [hrow]
    have hrest : ∀ k,k≠key r → rowOf key k (r::rows)=rowOf key k rows := by
      intro k hk
      have hr : ¬key r=k := fun h => hk h.symm
      rw [rowOf,List.find?_cons_of_neg (by simpa using hr),rowOf]
    have hfirst : rowOf key (key r) (r::rows)=some r := by
      rw [rowOf,List.find?_cons_of_pos (by simp)]
    constructor
    · rintro ⟨hr,hrows⟩ row hrow
      by_cases hk : key row=key r
      · have hmem : key r ∈ news.reverse.map key := by
          rw [List.map_reverse,List.mem_reverse,← hk]
          exact List.mem_map_of_mem hrow
        obtain ⟨last,hlast⟩ := Option.isSome_iff_exists.mp (rowOf_isSome_iff.mpr hmem)
        rw [hlast] at hr
        rw [hk,hfirst,hlast]
        exact congrArg some hr.symm
      · rw [hrest _ hk,hrows row (List.mem_filter.mpr ⟨hrow,by simpa using hk⟩),hother _ hk]
    · intro h
      constructor
      · cases hlast : rowOf key (key r) news.reverse with
        | none => rfl
        | some last =>
          obtain ⟨hmem,hk⟩ := rowOf_key hlast
          have hrow := h last (List.mem_reverse.mp hmem)
          rw [hk,hfirst,hlast] at hrow
          exact (Option.some.inj hrow).symm
      · intro row hrow
        obtain ⟨hmem,hk⟩ := List.mem_filter.mp hrow
        have hk := of_decide_eq_true hk
        rw [← hrest _ hk,h row hmem,hother _ hk]

section Room

variable {room : ℕ}

theorem putUpTo_length_ge (news rows : List α) :
    rows.length ≤ (putUpTo key room news rows).2.length := by
  induction news generalizing rows with
  | nil => exact Nat.le_refl _
  | cons row news ih =>
    rw [putUpTo]
    split_ifs
    · exact Nat.le_refl _
    · have hput := @put_length _ _ _ key rows row
      have hle := ih (put key rows row)
      split_ifs at hput <;> omega

theorem putUpTo_keeps {P : List α → Prop} {news : List α}
    (hput : ∀ rows,∀ row ∈ news,P rows → ¬(key row ∉ rows.map key ∧ room ≤ rows.length) →
      P (put key rows row))
    {rows : List α} (h : P rows) : P (putUpTo key room news rows).2 := by
  induction news generalizing rows with
  | nil => exact h
  | cons row news ih =>
    rw [putUpTo]
    split_ifs with hfull
    · exact h
    · exact ih (fun rows r hr => hput rows r (List.mem_cons_of_mem row hr))
        (hput rows row List.mem_cons_self h hfull)

theorem putUpTo_takeWhile (news rows : List α) :
    (putUpTo key room news rows).2=
      (putUpTo key room (news.dropWhile fun row => key row ∈ rows.map key)
        ((news.takeWhile fun row => key row ∈ rows.map key).foldl (put key) rows)).2 := by
  generalize hkeys : rows.map key=keys
  induction news generalizing rows with
  | nil => rfl
  | cons row news ih =>
    by_cases hrow : key row ∈ keys
    · have hsame : (put key rows row).map key=keys := by
        rw [put_keys,hkeys,if_pos hrow]
      have hroom : ¬(key row ∉ rows.map key ∧ room ≤ rows.length) := by
        rw [hkeys]
        exact fun h => h.1 hrow
      have hknown : decide (key row ∈ keys)=true := decide_eq_true hrow
      rw [putUpTo,if_neg hroom,ih _ hsame,
        List.takeWhile_cons_of_pos (p := fun row => decide (key row ∈ keys)) hknown,
        List.dropWhile_cons_of_pos (p := fun row => decide (key row ∈ keys)) hknown,
        List.foldl_cons]
    · have hno : ¬decide (key row ∈ keys)=true := fun h => hrow (of_decide_eq_true h)
      rw [List.takeWhile_cons_of_neg (p := fun row => decide (key row ∈ keys)) hno,
        List.dropWhile_cons_of_neg (p := fun row => decide (key row ∈ keys)) hno,List.foldl_nil]

theorem foldl_put_keys {keys : List κ} {news rows : List α} (hrows : rows.map key=keys)
    (h : ∀ row ∈ news,key row ∈ keys) : (news.foldl (put key) rows).map key=keys := by
  induction news generalizing rows with
  | nil => exact hrows
  | cons row news ih =>
    rw [List.foldl_cons]
    apply ih
    · rw [put_keys,hrows,if_pos (h row List.mem_cons_self)]
    · exact fun r hr => h r (List.mem_cons_of_mem row hr)

/-- A table is the same afterwards exactly when the rows are settled in it. -/
theorem putUpTo_eq_iff (news rows : List α) :
    (putUpTo key room news rows).2=rows ↔ Settled key room news rows := by
  rw [putUpTo_takeWhile,Settled,← foldl_put_eq_iff,knownOf]
  have hkeys := @foldl_put_keys _ _ _ key _ (news.takeWhile fun row => key row ∈ rows.map key) rows rfl
    (fun row hrow => of_decide_eq_true
      (List.mem_takeWhile_imp (p := fun row => decide (key row ∈ rows.map key)) hrow))
  have hlength := congrArg List.length hkeys
  rw [List.length_map,List.length_map] at hlength
  have hall : (∀ row ∈ news,key row ∈ rows.map key) ↔
      news.dropWhile (fun row => key row ∈ rows.map key)=[] := by
    rw [List.dropWhile_eq_nil_iff]
    simp
  rw [hall]
  generalize (news.takeWhile fun row => key row ∈ rows.map key).foldl (put key) rows=known
    at hkeys hlength ⊢
  cases hrest : news.dropWhile (fun row => key row ∈ rows.map key) with
  | nil => simp [putUpTo]
  | cons row rest =>
    have hnew : key row ∉ known.map key := by
      rw [hkeys]
      have hhead := List.head?_dropWhile_not (fun row => decide (key row ∈ rows.map key)) news
      rw [hrest] at hhead
      simpa using hhead
    rw [putUpTo]
    by_cases hroom : room ≤ known.length
    · rw [if_pos ⟨hnew,hroom⟩]
      have hroom' : room ≤ rows.length := hlength ▸ hroom
      simp [hroom']
    · have hroom' : ¬room ≤ rows.length := hlength ▸ hroom
      rw [if_neg (fun h => hroom h.2)]
      constructor
      · intro h
        have hput := @put_length _ _ _ key known row
        rw [if_neg hnew] at hput
        have hle := @putUpTo_length_ge _ _ _ key room rest (put key known row)
        rw [h] at hle
        omega
      · rintro ⟨-,hno|hno⟩
        · cases hno
        · exact absurd hno hroom'

end Room

end EtherCATMaster.Framework
