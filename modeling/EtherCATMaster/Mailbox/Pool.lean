import EtherCATMaster.Framework.Ring
import Mathlib.Data.List.Perm.Subperm

namespace EtherCATMaster.Mailbox

open EtherCATMaster.Framework

/-- `EC_MBXPOOLSIZE`, as the build sets it. -/
def mbxPoolSize : Nat := 32

/-- The free list of the mailbox pool. A mailbox is named by its place in the pool. -/
structure MbxPool where
  listhead : Nat
  listtail : Nat
  listcount : Nat
  mbxemptylist : Nat → Nat

def initMbxPool : MbxPool := ⟨0,0,mbxPoolSize,fun item => item⟩

def getMbx (pool : MbxPool) : Option Nat × MbxPool :=
  if pool.listcount>0 then
    (some (pool.mbxemptylist pool.listtail),
      { pool with
        listtail := ringNext mbxPoolSize pool.listtail
        listcount := pool.listcount-1 })
  else (none,pool)

def dropMbx (pool : MbxPool) (item : Nat) : MbxPool :=
  if item < mbxPoolSize then
    { pool with
      mbxemptylist := Function.update pool.mbxemptylist pool.listhead item
      listhead := ringNext mbxPoolSize pool.listhead
      listcount := pool.listcount+1 }
  else pool

/-- The mailboxes in the free list, the next one to be handed out first. -/
def MbxPool.free (pool : MbxPool) : List Nat :=
  ringList mbxPoolSize pool.mbxemptylist pool.listtail pool.listcount

/-- The free list lies between tail and head. -/
structure MbxPool.Wf (pool : MbxPool) : Prop where
  tail : pool.listtail < mbxPoolSize
  count : pool.listcount ≤ mbxPoolSize
  head : pool.listhead=ringIndex mbxPoolSize pool.listtail pool.listcount
  cells : ∀ i < mbxPoolSize,pool.mbxemptylist i < mbxPoolSize

theorem MbxPool.free_length (pool : MbxPool) : pool.free.length=pool.listcount :=
  ringList_length _ _ _ _

theorem initMbxPool_free : initMbxPool.free=List.range mbxPoolSize := by decide

theorem initMbxPool_wf : initMbxPool.Wf := ⟨by decide,by decide,by decide,fun _ hi => hi⟩

theorem MbxPool.Wf.items {pool : MbxPool} (h : pool.Wf) : ∀ m ∈ pool.free,m < mbxPoolSize := by
  intro m hm
  obtain ⟨k,hk,rfl⟩ := List.mem_map.mp hm
  have hcount := h.count
  have hk' : k < pool.listcount := List.mem_range.mp hk
  exact h.cells _ (ringIndex_lt h.tail (by omega))

theorem getMbx_some {pool : MbxPool} (h : pool.Wf) {m : Nat} (hm : (getMbx pool).1=some m) :
    pool.free=m::(getMbx pool).2.free ∧ (getMbx pool).2.Wf := by
  have htail := h.tail
  have hcount := h.count
  have hhead := h.head
  simp only [getMbx] at hm ⊢
  split_ifs at hm ⊢ with hc
  simp only [Option.some.injEq] at hm
  have hpop : pool.free=m::ringList mbxPoolSize pool.mbxemptylist
      (ringNext mbxPoolSize pool.listtail) (pool.listcount-1) := by
    have hone : pool.listcount-1+1=pool.listcount := Nat.sub_add_cancel hc
    have := ringList_pop pool.mbxemptylist htail (show pool.listcount-1+1 ≤ mbxPoolSize by omega)
    rw [hone,hm] at this
    exact this
  refine ⟨hpop,ringNext_lt htail,by simp only; omega,?_,h.cells⟩
  simp only [hhead,ringNext,ringIndex]
  split_ifs <;> omega

theorem getMbx_none {pool : MbxPool} (hm : (getMbx pool).1=none) :
    pool.free=[] ∧ (getMbx pool).2=pool := by
  simp only [getMbx] at hm ⊢
  split_ifs at hm ⊢ with hc
  have hz : pool.listcount=0 := by omega
  exact ⟨List.length_eq_zero_iff.mp (pool.free_length.trans hz),rfl⟩

theorem dropMbx_free {pool : MbxPool} (h : pool.Wf) {item : Nat} (hi : item < mbxPoolSize)
    (hc : pool.listcount < mbxPoolSize) :
    (dropMbx pool item).free=pool.free++[item] ∧ (dropMbx pool item).Wf := by
  have htail := h.tail
  have hhead := h.head
  have hfree : (dropMbx pool item).free=pool.free++[item] := by
    rw [dropMbx,if_pos hi,MbxPool.free]
    simp only [hhead]
    exact ringList_push pool.mbxemptylist item htail hc
  refine ⟨hfree,?_,?_,?_,?_⟩
  · rw [dropMbx,if_pos hi]
    exact htail
  · rw [dropMbx,if_pos hi]
    exact hc
  · rw [dropMbx,if_pos hi]
    simp only [hhead]
    exact ringNext_index htail hc
  · intro i hi'
    rw [dropMbx,if_pos hi]
    simp only [Function.update_apply]
    split_ifs
    · exact hi
    · exact h.cells i hi'

theorem count_lt_of_nodup {pool : MbxPool} (hwf : pool.Wf) {m : Nat} (hm : m < mbxPoolSize)
    (hnd : (m::pool.free).Nodup) : pool.listcount < mbxPoolSize := by
  have hsub : m::pool.free ⊆ List.range mbxPoolSize := by
    intro x hx
    rcases List.mem_cons.mp hx with rfl|hx
    · exact List.mem_range.mpr hm
    · exact List.mem_range.mpr (hwf.items x hx)
  have hlen := (List.subperm_of_subset hnd hsub).length_le
  rw [List.length_cons,List.length_range,MbxPool.free_length] at hlen
  omega

end EtherCATMaster.Mailbox
