import EtherCATMaster.Mapping.Fmmus
import Mathlib.Algebra.BigOperators.Group.List.Basic
import Mathlib.Algebra.Ring.Nat

namespace EtherCATMaster.Mapping

def smBytes (l : List Sm) : Nat := (l.map fun x => x.smLength.toNat).sum

@[simp] theorem smBytes_nil : smBytes []=0 := rfl

@[simp] theorem smBytes_cons (x : Sm) (l : List Sm) :
    smBytes (x::l)=x.smLength.toNat+smBytes l := rfl

/-- The test of the mapping functions for one FMMU: a sync manager does not begin behind the end of
the one before. -/
def Sm.Connects (x y : Sm) : Prop := ¬y.startAddr>x.startAddr+x.smLength

instance Sm.Connects.decidable (x y : Sm) : Decidable (x.Connects y) :=
  inferInstanceAs (Decidable (¬_))

def Sm.Follows (x y : Sm) : Prop := y.startAddr.toNat=x.startAddr.toNat+x.smLength.toNat

instance Sm.Follows.decidable (x y : Sm) : Decidable (x.Follows y) :=
  inferInstanceAs (Decidable (_=_))

def contiguousBytes : List Sm → Nat
  | [] => 0
  | [x] => x.smLength.toNat
  | x::y::rest => x.smLength.toNat+if x.Follows y then contiguousBytes (y::rest) else 0

def runOf : Sm → List Sm → List Sm × List Sm
  | _,[] => ([],[])
  | x,y::rest => if x.Connects y then (y::(runOf y rest).1,(runOf y rest).2) else ([],y::rest)

def consRun (x : Sm) : List (List Sm) → List (List Sm)
  | [] => [[x]]
  | run::runs => (x::run)::runs

def smRuns : List Sm → List (List Sm)
  | [] => []
  | [x] => [[x]]
  | x::y::rest =>
      if x.Connects y then consRun x (smRuns (y::rest)) else [x]::smRuns (y::rest)

theorem smRuns_cons (l : List Sm) : ∀ x,
    smRuns (x::l)=(x::(runOf x l).1)::smRuns (runOf x l).2 := by
  induction l with
  | nil => exact fun _ => rfl
  | cons y rest ih =>
    intro x
    rw [smRuns,runOf]
    by_cases hconnects : x.Connects y
    · rw [if_pos hconnects,if_pos hconnects,ih]
      rfl
    · rw [if_neg hconnects,if_neg hconnects]

theorem runOf_bytes (l : List Sm) : ∀ x,
    smBytes (runOf x l).1+smBytes (runOf x l).2=smBytes l := by
  induction l with
  | nil => exact fun _ => rfl
  | cons y rest ih =>
    intro x
    rw [runOf]
    split_ifs
    · have hrest := ih y
      simp only [smBytes_cons]
      omega
    · rw [smBytes_nil,Nat.zero_add]

theorem consRun_bytes (x : Sm) (runs : List (List Sm)) :
    ((consRun x runs).map smBytes).sum=x.smLength.toNat+(runs.map smBytes).sum := by
  cases runs with
  | nil => rfl
  | cons run runs =>
    rw [consRun,List.map_cons,List.map_cons,List.sum_cons,List.sum_cons,smBytes_cons,Nat.add_assoc]

theorem smRuns_bytes (l : List Sm) : ((smRuns l).map smBytes).sum=smBytes l := by
  induction l with
  | nil => rfl
  | cons x rest ih =>
    cases rest with
    | nil => rfl
    | cons y rest =>
      rw [smRuns]
      split_ifs
      · rw [consRun_bytes,ih]
        rfl
      · rw [List.map_cons,List.sum_cons,ih]
        rfl

theorem Sm.Follows.connects {x y : Sm} (h : x.Follows y) : x.Connects y := by
  have hlt := y.startAddr.toNat_lt
  rw [Sm.Follows] at h
  intro hgap
  rw [gt_iff_lt,UInt16.lt_iff_toNat_lt,UInt16.toNat_add,← h,Nat.mod_eq_of_lt hlt] at hgap
  exact absurd hgap (lt_irrefl _)

theorem contiguousBytes_runOf (l : List Sm) : ∀ x,
    contiguousBytes (x::l)=contiguousBytes (x::(runOf x l).1) := by
  induction l with
  | nil => exact fun _ => rfl
  | cons y rest ih =>
    intro x
    rw [runOf]
    by_cases hconnects : x.Connects y
    · rw [if_pos hconnects,contiguousBytes,contiguousBytes,ih]
    · have hapart : ¬x.Follows y := fun hf => hconnects hf.connects
      rw [if_neg hconnects,contiguousBytes,contiguousBytes,if_neg hapart,Nat.add_zero]

theorem contiguousBytes_le (l : List Sm) : contiguousBytes l ≤ smBytes l := by
  induction l with
  | nil => exact le_rfl
  | cons x rest ih =>
    cases rest with
    | nil =>
      rw [contiguousBytes,smBytes_cons]
      exact Nat.le_add_right _ _
    | cons y rest =>
      rw [contiguousBytes,smBytes_cons]
      split_ifs
      · exact Nat.add_le_add_left ih _
      · omega

/-- What the code gives the FMMUs of a direction with `total` bytes: the sync managers of each, and
its length. `byteCount` goes on over all FMMUs. -/
def fmmuPlan (total : Nat) : List (List Sm) → Nat → Nat → List (List Sm × Nat)
  | [],_,_ => []
  | run::rest,byteCount,fmmuDone =>
      if fmmuDone < total then
        let size := if byteCount+smBytes run+fmmuDone>total then total-fmmuDone
          else byteCount+smBytes run
        (run,size)::fmmuPlan total rest (byteCount+smBytes run) (fmmuDone+size)
      else []

/-- But for empty ones at the beginning, all bytes are in the first group, or in the first two, and
the bytes of a group are those of the contiguous run it begins with. -/
def TwoRuns (total : Nat) : List (List Sm) → Prop
  | [] => True
  | run::rest =>
      if smBytes run=0 then TwoRuns total rest
      else contiguousBytes run=smBytes run ∧ (smBytes run=total ∨
        ∀ second ∈ rest.head?,contiguousBytes second=smBytes second ∧
          smBytes run+smBytes second=total)

instance TwoRuns.decidable (total : Nat) : (runs : List (List Sm)) → Decidable (TwoRuns total runs)
  | [] => isTrue trivial
  | run::rest =>
      have := TwoRuns.decidable total rest
      inferInstanceAs (Decidable (if smBytes run=0 then TwoRuns total rest
        else contiguousBytes run=smBytes run ∧ (smBytes run=total ∨
          ∀ second ∈ rest.head?,contiguousBytes second=smBytes second ∧
            smBytes run+smBytes second=total)))

section Plan

variable {total : Nat}

theorem fmmuPlan_done (runs : List (List Sm)) (byteCount : Nat) {fmmuDone : Nat}
    (h : ¬fmmuDone < total) : fmmuPlan total runs byteCount fmmuDone=[] := by
  cases runs with
  | nil => rfl
  | cons run rest => rw [fmmuPlan,if_neg h]

theorem fmmuPlan_sum (runs : List (List Sm)) : ∀ {byteCount fmmuDone : Nat},fmmuDone ≤ total →
    total ≤ byteCount+(runs.map smBytes).sum → (runs=[] → fmmuDone=total) →
    ((fmmuPlan total runs byteCount fmmuDone).map Prod.snd).sum=total-fmmuDone := by
  induction runs with
  | nil =>
    intro byteCount fmmuDone _ _ hend
    rw [hend rfl,Nat.sub_self]
    rfl
  | cons run rest ih =>
    intro byteCount fmmuDone hdone hall hend
    rw [List.map_cons,List.sum_cons] at hall
    by_cases hmore : fmmuDone < total
    · rw [fmmuPlan,if_pos hmore]
      simp only [List.map_cons,List.sum_cons]
      split_ifs with hlast
      · rw [ih (by omega) (by omega) fun _ => by omega]
        omega
      · rw [ih (by omega) (by omega) fun hnil => ?_]
        · omega
        · rw [hnil,List.map_nil,List.sum_nil] at hall
          omega
    · rw [fmmuPlan_done _ _ hmore,show fmmuDone=total by omega,Nat.sub_self]
      rfl

theorem fmmuPlan_second {size : Nat} (hsize : 0 < size) (rest : List (List Sm))
    (hall : size+(rest.map smBytes).sum=total) :
    (∀ p ∈ fmmuPlan total rest size size,p.2=contiguousBytes p.1) ↔
      (size=total ∨ ∀ second ∈ rest.head?,contiguousBytes second=smBytes second ∧
        size+smBytes second=total) := by
  by_cases hone : size=total
  · rw [fmmuPlan_done _ _ (by omega)]
    exact iff_of_true (fun p hp => by cases hp) (.inl hone)
  · cases rest with
    | nil =>
      rw [List.map_nil,List.sum_nil] at hall
      exact absurd hall hone
    | cons second later =>
      rw [List.map_cons,List.sum_cons] at hall
      have hle := contiguousBytes_le second
      rw [fmmuPlan,if_pos (by omega)]
      simp only [List.mem_cons,forall_eq_or_imp,List.head?_cons,Option.mem_some_iff,forall_eq',
        hone,false_or]
      split_ifs with hlast
      · rw [fmmuPlan_done _ _ (by omega)]
        constructor
        · rintro ⟨hlength,-⟩
          exact ⟨by omega,by omega⟩
        · rintro ⟨hlength,hboth⟩
          exact ⟨by omega,fun p hp => by cases hp⟩
      · constructor
        · rintro ⟨hlength,-⟩
          omega
        · rintro ⟨hlength,hboth⟩
          omega

theorem fmmuPlan_iff (hpos : 0 < total) (runs : List (List Sm))
    (hall : (runs.map smBytes).sum=total) :
    (∀ p ∈ fmmuPlan total runs 0 0,p.2=contiguousBytes p.1) ↔ TwoRuns total runs := by
  induction runs with
  | nil => exact iff_of_true (fun p hp => by cases hp) trivial
  | cons run rest ih =>
    rw [List.map_cons,List.sum_cons] at hall
    have hle := contiguousBytes_le run
    have hfirst : fmmuPlan total (run::rest) 0 0=
        (run,smBytes run)::fmmuPlan total rest (smBytes run) (smBytes run) := by
      simp only [fmmuPlan,if_pos hpos,Nat.zero_add,Nat.add_zero]
      rw [if_neg (by omega)]
    rw [hfirst,TwoRuns]
    simp only [List.mem_cons,forall_eq_or_imp]
    by_cases hempty : smBytes run=0
    · rw [if_pos hempty,hempty]
      rw [hempty,Nat.zero_add] at hall
      rw [← ih hall]
      exact ⟨fun h => h.2,fun h => ⟨by omega,h⟩⟩
    · rw [if_neg hempty,fmmuPlan_second (by omega) rest hall]
      exact and_congr_left fun _ => eq_comm

end Plan

end EtherCATMaster.Mapping
