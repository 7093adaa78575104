import Mathlib.Data.List.Basic

namespace EtherCATMaster.Framework

variable {α : Type} {p : α → Bool} {l l' : List α} {a : α}

def OneHit (p : α → Bool) (l : List α) : Prop := l.Pairwise fun a b => ¬(p a=true ∧ p b=true)

namespace OneHit

theorem perm (hperm : l.Perm l') : OneHit p l ↔ OneHit p l' :=
  hperm.pairwise_iff fun h hab => h ⟨hab.2,hab.1⟩

theorem index_unique (h : OneHit p l) {i j : Nat} {b : α} (hi : l[i]?=some a) (hj : l[j]?=some b)
    (ha : p a=true) (hb : p b=true) : i=j := by
  obtain ⟨hil,rfl⟩ := List.getElem?_eq_some_iff.mp hi
  obtain ⟨hjl,rfl⟩ := List.getElem?_eq_some_iff.mp hj
  rcases Nat.lt_trichotomy i j with hlt|heq|hlt
  · exact absurd ⟨ha,hb⟩ (List.pairwise_iff_getElem.mp h i j hil hjl hlt)
  · exact heq
  · exact absurd ⟨hb,ha⟩ (List.pairwise_iff_getElem.mp h j i hjl hil hlt)

theorem find_iff (h : OneHit p l) : l.find? p=some a ↔ a ∈ l ∧ p a=true := by
  constructor
  · intro hfind
    exact ⟨List.mem_of_find?_eq_some hfind,List.find?_some hfind⟩
  · rintro ⟨hmem,ha⟩
    obtain ⟨b,hfind⟩ : ∃ b,l.find? p=some b := by
      rw [← Option.isSome_iff_exists,List.find?_isSome]
      exact ⟨a,hmem,ha⟩
    obtain ⟨i,hi⟩ := List.mem_iff_getElem?.mp hmem
    obtain ⟨j,hj⟩ := List.mem_iff_getElem?.mp (List.mem_of_find?_eq_some hfind)
    have hij := h.index_unique hi hj ha (List.find?_some hfind)
    rw [hij,hj] at hi
    rw [hfind,hi]

theorem find_perm (h : OneHit p l) (hperm : l.Perm l') : l'.find? p=l.find? p := by
  apply Option.ext
  intro a
  rw [h.find_iff,((perm hperm).mp h).find_iff,hperm.mem_iff]

end OneHit

end EtherCATMaster.Framework
