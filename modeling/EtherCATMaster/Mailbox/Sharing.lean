import EtherCATMaster.Mailbox.Account
import Mathlib.Data.List.Perm.Basic

namespace EtherCATMaster.Mailbox

open EtherCATMaster.Framework

variable {σ : Type} {port : Port σ} {own : List Nat} {c : Client σ}

/-- Every mailbox is in one place: with the call, drawn by another user, or free. -/
structure Shared (own : List Nat) (c : Client σ) : Prop where
  wf : c.pool.Wf
  nodup : (own++(c.held++c.pool.free)).Nodup
  items : ∀ m ∈ own++c.held,m < mbxPoolSize

theorem Shared.start (env : σ) : Shared [] (Client.start env) := by
  refine ⟨initMbxPool_wf,?_,by simp [Client.start]⟩
  change initMbxPool.free.Nodup
  rw [initMbxPool_free]
  exact List.nodup_range

/-- Mailboxes have changed their places, and none is lost. -/
structure Passed (own : List Nat) (c : Client σ) (own' : List Nat) (c' : Client σ) : Prop where
  shared : Shared own' c'
  all : (own'++(c'.held++c'.pool.free)).Perm (own++(c.held++c.pool.free))

theorem Passed.trans {own' own'' : List Nat} {c' c'' : Client σ} (h : Passed own c own' c')
    (h' : Passed own' c' own'' c'') : Passed own c own'' c'' := ⟨h'.shared,h'.all.trans h.all⟩

theorem Passed.before {own' own'' : List Nat} {c' c'' : Client σ} (h : Passed own c own' c') :
    Passed own c own'' c'' ↔ Passed own' c' own'' c'' :=
  ⟨fun hall => ⟨hall.shared,hall.all.trans h.all.symm⟩,h.trans⟩

theorem Shared.passed {own' : List Nat} {c' : Client σ} (h : Shared own c) (hwf : c'.pool.Wf)
    (hperm : (own'++(c'.held++c'.pool.free)).Perm (own++(c.held++c.pool.free))) :
    Passed own c own' c' := by
  refine ⟨⟨hwf,hperm.nodup_iff.mpr h.nodup,?_⟩,hperm⟩
  intro m hm
  have hmem : m ∈ own'++(c'.held++c'.pool.free) := by
    rw [← List.append_assoc]
    exact List.mem_append_left _ hm
  have hall := hperm.subset hmem
  rw [← List.append_assoc] at hall
  rcases List.mem_append.mp hall with hm|hm
  · exact h.items m hm
  · exact h.wf.items m hm

theorem Shared.same {c' : Client σ} (h : Shared own c) (hpool : c'.pool=c.pool)
    (hheld : c'.held=c.held) : Passed own c own c' := by
  apply h.passed
  · rw [hpool]
    exact h.wf
  · rw [hpool,hheld]

theorem Shared.get (h : Shared own c) :
    Passed own c ((getMbx c.pool).1.toList++own) { c with pool := (getMbx c.pool).2 } := by
  cases hg : (getMbx c.pool).1 with
  | none =>
    obtain ⟨-,hsame⟩ := getMbx_none hg
    rw [hsame]
    exact h.same rfl rfl
  | some m =>
    obtain ⟨hfree,hwf⟩ := getMbx_some h.wf hg
    apply h.passed hwf
    simp only [Option.toList_some,List.cons_append,List.nil_append,hfree]
    have h1 : (c.held++m::(getMbx c.pool).2.free).Perm (m::(c.held++(getMbx c.pool).2.free)) :=
      List.perm_middle
    exact (List.perm_middle.symm).trans (List.Perm.append_left own h1.symm)

theorem Shared.release {m : Nat} {held : List Nat} (h : Shared own c) (hm : m < mbxPoolSize)
    {own' : List Nat}
    (hperm : (m::(own'++(held++c.pool.free))).Perm (own++(c.held++c.pool.free))) :
    Passed own c own' { c with pool := dropMbx c.pool m, held := held } := by
  have hnd := hperm.nodup_iff.mpr h.nodup
  have hsub : (m::c.pool.free).Sublist (m::(own'++(held++c.pool.free))) := by
    apply List.Sublist.cons_cons
    rw [← List.append_assoc]
    exact List.sublist_append_right _ _
  obtain ⟨hfree,hwf⟩ :=
    dropMbx_free h.wf hm (count_lt_of_nodup h.wf hm (hnd.sublist hsub))
  apply h.passed hwf
  simp only [hfree]
  refine List.Perm.trans ?_ hperm
  rw [← List.append_assoc,← List.append_assoc,← List.append_assoc]
  exact List.perm_append_singleton m _

theorem Shared.drop {m : Nat} (h : Shared (m::own) c) :
    Passed (m::own) c own { c with pool := dropMbx c.pool m } :=
  h.release (h.items m (by simp)) (List.Perm.refl _)

/-- What another user does leaves the mailboxes of the call alone. -/
theorem Shared.move (h : Shared own c) (mv : Move) :
    Passed own c own (c.move mv) ∧ ∀ m ∈ own,(c.move mv).buffers m=c.buffers m := by
  cases mv with
  | draw =>
    simp only [Client.move]
    cases hg : getMbx c.pool with
    | mk got pool =>
      cases got with
      | none => exact ⟨h.same rfl rfl,fun _ _ => rfl⟩
      | some m =>
        refine ⟨?_,fun _ _ => rfl⟩
        obtain ⟨hfree,hwf⟩ := getMbx_some h.wf (by rw [hg])
        rw [hg] at hfree hwf
        apply h.passed hwf
        rw [hfree]
        exact List.Perm.append_left own List.perm_middle.symm
  | fill k bytes =>
    simp only [Client.move]
    cases hk : c.held[k]? with
    | none => exact ⟨h.same rfl rfl,fun _ _ => rfl⟩
    | some m =>
      refine ⟨h.same rfl rfl,?_⟩
      intro x hx
      have hheld : m ∈ c.held := List.mem_of_getElem? hk
      have hne : x≠m := by
        intro heq
        have hdisjoint := (List.nodup_append.mp h.nodup).2.2 x hx m
          (List.mem_append_left _ hheld)
        exact hdisjoint heq
      simp only [Client.store,Function.update_of_ne hne]
  | release k =>
    simp only [Client.move]
    cases hk : c.held[k]? with
    | none => exact ⟨h.same rfl rfl,fun _ _ => rfl⟩
    | some m =>
      refine ⟨?_,fun _ _ => rfl⟩
      have hheld : m ∈ c.held := List.mem_of_getElem? hk
      apply h.release (h.items m (List.mem_append_right _ hheld))
      obtain ⟨hlt,hval⟩ := List.getElem?_eq_some_iff.mp hk
      have hperm := List.getElem_cons_eraseIdx_perm hlt
      rw [hval] at hperm
      exact (List.perm_middle.symm).trans
        (List.Perm.append_left own (List.Perm.append_right c.pool.free hperm))

theorem Shared.moves (mvs : List Move) : ∀ {c : Client σ},Shared own c →
    Passed own c own (mvs.foldl Client.move c) ∧
      ∀ m ∈ own,(mvs.foldl Client.move c).buffers m=c.buffers m := by
  induction mvs with
  | nil =>
    intro c h
    exact ⟨h.same rfl rfl,fun _ _ => rfl⟩
  | cons mv mvs ih =>
    intro c h
    obtain ⟨hmove,hbuffers⟩ := h.move mv
    obtain ⟨hmoves,hbuffers'⟩ := ih hmove.shared
    exact ⟨hmove.trans hmoves,fun m hm => (hbuffers' m hm).trans (hbuffers m hm)⟩

theorem Shared.interfere (port : Port σ) (h : Shared own c) :
    Passed own c own (c.interfere port) ∧ ∀ m ∈ own,(c.interfere port).buffers m=c.buffers m := by
  have h' : Shared own { c with env := (port.others c.env).2 } := ⟨h.wf,h.nodup,h.items⟩
  obtain ⟨hpassed,hbuffers⟩ := h'.moves (port.others c.env).1
  exact ⟨⟨hpassed.shared,hpassed.all⟩,hbuffers⟩

def SharedAccount (own : List Nat) (c : Client σ) (own' : List Nat) (c' : Client σ) : Prop :=
  Shared own c → Passed own c own' c'

theorem sharedAccount_ledger : MbxLedger port SharedAccount := by
  refine ⟨⟨?_,?_⟩,?_,?_,?_,?_⟩
  · intro own c h
    exact h.same rfl rfl
  · intro o c o' c' o'' c'' h1 h2 h
    have hfirst := h1 h
    exact hfirst.trans (h2 hfirst.shared)
  · intro own c c' hpool hheld h
    exact h.same hpool hheld
  · intro own c h
    exact (h.interfere port).1
  · intro own c h
    exact h.get
  · intro own m c h
    exact h.drop

end EtherCATMaster.Mailbox
