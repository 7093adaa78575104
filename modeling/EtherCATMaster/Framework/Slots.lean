import Mathlib.Data.List.Basic
import Mathlib.Logic.Function.Basic

namespace EtherCATMaster.Framework

variable {S C : Type}

/-- A loop over the slots from 1 to `n`. A visit works on its own slot and tells what it does. -/
def visitSlots (visit : ℕ → S → S × List C) : ℕ → (ℕ → S) → (ℕ → S) × List (ℕ × C)
  | 0,slots => (slots,[])
  | n+1,slots =>
    let r := visitSlots visit n slots
    let v := visit (n+1) (r.1 (n+1))
    (Function.update r.1 (n+1) v.1,r.2++v.2.map fun c => (n+1,c))

variable (visit : ℕ → S → S × List C)

theorem visitSlots_outside {n i : ℕ} (slots : ℕ → S) (h : ¬(1 ≤ i ∧ i ≤ n)) :
    (visitSlots visit n slots).1 i=slots i := by
  induction n with
  | zero => rfl
  | succ n ih =>
    rw [visitSlots]
    simp only
    rw [Function.update_of_ne (by omega),ih (by omega)]

theorem visitSlots_slot {n i : ℕ} (slots : ℕ → S) (hpos : 1 ≤ i) (h : i ≤ n) :
    (visitSlots visit n slots).1 i=(visit i (slots i)).1 := by
  induction n with
  | zero => omega
  | succ n ih =>
    have hfound := visitSlots_outside visit slots (show ¬(1 ≤ n+1 ∧ n+1 ≤ n) by omega)
    rw [visitSlots]
    simp only
    rcases Nat.lt_or_eq_of_le h with hlt|heq
    · rw [Function.update_of_ne (by omega),ih (by omega)]
    · rw [heq,Function.update_self,hfound]

theorem mem_visitSlots {n i : ℕ} {c : C} (slots : ℕ → S) :
    (i,c) ∈ (visitSlots visit n slots).2 ↔ (1 ≤ i ∧ i ≤ n) ∧ c ∈ (visit i (slots i)).2 := by
  induction n with
  | zero =>
    simp [visitSlots]
    omega
  | succ n ih =>
    have hfound := visitSlots_outside visit slots (show ¬(1 ≤ n+1 ∧ n+1 ≤ n) by omega)
    rw [visitSlots]
    simp only [List.mem_append,List.mem_map,ih,hfound,Prod.mk.injEq]
    constructor
    · intro h
      rcases h with ⟨hin,hc⟩|⟨c',hc,hi,rfl⟩
      · exact ⟨⟨hin.1,by omega⟩,hc⟩
      · rw [← hi]
        exact ⟨⟨by omega,Nat.le_refl _⟩,hc⟩
    · intro h
      obtain ⟨⟨hpos,hle⟩,hc⟩ := h
      rcases Nat.lt_or_eq_of_le hle with hlt|heq
      · exact .inl ⟨⟨hpos,by omega⟩,hc⟩
      · rw [heq] at hc
        exact .inr ⟨c,hc,heq.symm,rfl⟩

end EtherCATMaster.Framework
