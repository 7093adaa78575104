import EtherCATMaster.Mailbox.Link

namespace EtherCATMaster.Mailbox

open EtherCATMaster.Framework

variable {σ : Type} {port : Port σ}

/-- Nobody else uses the pool. -/
def Alone (port : Port σ) : Prop := ∀ e,(port.others e).1=[]

/-- An account of the mailboxes a call has in its hands, the one it took last at the front: drawing
one adds it, giving one back takes it off, and nothing else changes it, least of all what the
others at the pool do. -/
structure MbxLedger (port : Port σ) (T : List Nat → Client σ → List Nat → Client σ → Prop) : Prop
    extends Ledger T where
  quiet : ∀ own c c',c'.pool=c.pool → c'.held=c.held → T own c own c'
  others : ∀ own c,T own c own (c.interfere port)
  get : ∀ own c,T own c ((getMbx c.pool).1.toList++own) { c with pool := (getMbx c.pool).2 }
  drop : ∀ own m c,T (m::own) c own { c with pool := dropMbx c.pool m }

variable {T : List Nat → Client σ → List Nat → Client σ → Prop} {own : List Nat} {α : Type}

theorem interfere_alone (h : Alone port) (c : Client σ) :
    c.interfere port={ c with env := (port.others c.env).2 } := by
  simp only [Client.interfere,h c.env,List.foldl_nil]

theorem interfere_pool (h : Alone port) (c : Client σ) : (c.interfere port).pool=c.pool := by
  simp only [Client.interfere,h c.env,List.foldl_nil]

theorem getMbxM_pool (h : Alone port) {mbx : Option Nat} {c c' : Client σ}
    (hr : getMbxM port c=.ok (mbx,c')) :
    mbx=(getMbx c.pool).1 ∧ c'.pool=(getMbx c.pool).2 := by
  rw [← interfere_pool h c]
  cases hr
  exact ⟨rfl,rfl⟩

/-- A part of a call that leaves the pool alone, and lets nobody else at it. -/
def Quiet (x : MbxM σ α) : Prop :=
  ∀ c a c',x c=.ok (a,c') → c'.pool=c.pool ∧ c'.held=c.held

theorem Quiet.accounts {x : MbxM σ α} (hx : Quiet x) (hT : MbxLedger port T) :
    Accounts T own x (fun _ => own) := by
  intro c a c' hc
  obtain ⟨hpool,hheld⟩ := hx c a c' hc
  exact hT.quiet own c c' hpool hheld

theorem quiet_pushError (e : MbxError) : Quiet (pushError e : MbxM σ Unit) := by
  intro c a c' hc
  cases hc
  exact ⟨rfl,rfl⟩

theorem quiet_nextMbxCnt (cfg : SlaveCfg) : Quiet (nextMbxCnt cfg : MbxM σ UInt8) := by
  intro c a c' hc
  cases hc
  exact ⟨rfl,rfl⟩

theorem quiet_clearMbx (m : Nat) : Quiet (clearMbx m : MbxM σ Unit) := by
  intro c a c' hc
  cases hc
  exact ⟨rfl,rfl⟩

theorem quiet_fillMbx (m : Nat) (bytes : List UInt8) : Quiet (fillMbx m bytes : MbxM σ Unit) := by
  intro c a c' hc
  cases hc
  exact ⟨rfl,rfl⟩

theorem quiet_content (m : Nat) : Quiet (content m : MbxM σ (List UInt8)) := by
  intro c a c' hc
  cases hc
  exact ⟨rfl,rfl⟩

theorem quiet_writeSlave (bytes : List UInt8) : Quiet (writeSlave port bytes) := by
  intro c a c' hc
  cases hc
  exact ⟨rfl,rfl⟩

theorem quiet_mbxEmpty : Quiet (mbxEmpty port) := by
  intro c a c' hc
  cases hc
  exact ⟨rfl,rfl⟩

theorem quiet_askMailbox : Quiet (askMailbox port) := by
  intro c a c' hc
  cases hc
  exact ⟨rfl,rfl⟩

theorem quiet_pure (a : α) : Quiet (pure a : MbxM σ α) := by
  intro c b c' hc
  cases pure_ok.mp hc
  exact ⟨rfl,rfl⟩

theorem Quiet.bind {β : Type} {x : MbxM σ α} {f : α → MbxM σ β} (hx : Quiet x)
    (hf : ∀ a,Quiet (f a)) : Quiet (x >>= f) := by
  intro c b c'' hb
  obtain ⟨a,c',ha,hb⟩ := bind_ok.mp hb
  obtain ⟨hpool,hheld⟩ := hf a c' b c'' hb
  obtain ⟨hpool',hheld'⟩ := hx c a c' ha
  exact ⟨hpool.trans hpool',hheld.trans hheld'⟩

theorem quiet_reportHandled (mbx : List UInt8) : Quiet (reportHandled mbx : MbxM σ Unit) := by
  simp only [reportHandled]
  split_ifs
  · exact quiet_pushError _
  · exact quiet_pushError _
  · exact quiet_pure _

theorem getMbxM_accounts (hT : MbxLedger port T) :
    Accounts T own (getMbxM port) (fun m => m.toList++own) := by
  intro c a c' hc
  cases hc
  refine hT.trans _ _ _ _ _ _ (hT.others own c) ?_
  exact hT.get own (c.interfere port)

theorem dropMbxM_accounts (hT : MbxLedger port T) (m : Nat) :
    Accounts T (m::own) (dropMbxM port m) (fun _ => own) := by
  intro c a c' hc
  cases hc
  refine hT.trans _ _ _ _ _ _ (hT.others (m::own) c) ?_
  exact hT.drop own m (c.interfere port)

theorem peek_accounts (hT : MbxLedger port T) (m : Nat) :
    Accounts T own (peek port m) (fun _ => own) := by
  intro c a c' hc
  cases hc
  exact hT.others own c

theorem dropMbxIn_accounts (hT : MbxLedger port T) (mbx : Option Nat) :
    Accounts T (mbx.toList++own) (dropMbxIn port mbx) (fun _ => own) := by
  cases mbx with
  | none => exact hT.pure () rfl
  | some m => exact dropMbxM_accounts hT m

theorem quiet_writeMailbox (cfg : SlaveCfg) (m : Nat) : Quiet (writeMailbox port cfg m) := by
  simp only [writeMailbox]
  split_ifs
  · refine (quiet_content m).bind ?_
    intro mbx
    refine (quiet_writeSlave _).bind ?_
    intro wkc
    split_ifs
    · refine quiet_mbxEmpty.bind ?_
      intro empty
      split_ifs
      · exact (quiet_writeSlave _).bind (fun _ => quiet_pure _)
      · exact quiet_pure _
    · exact quiet_pure _
  · exact quiet_pure _

/-- The mailbox handed to `mbxSend` is given back, whatever becomes of the write. -/
theorem mbxSend_accounts (hT : MbxLedger port T) (cfg : SlaveCfg) (m : Nat) :
    Accounts T (m::own) (mbxSend port cfg m) (fun _ => own) := by
  refine hT.bind ((quiet_writeMailbox cfg m).accounts hT) ?_
  intro wkc
  refine hT.bind (dropMbxM_accounts hT m) ?_
  intro _
  exact hT.pure wkc rfl

theorem readAttempt_accounts (hT : MbxLedger port T) (cfg : SlaveCfg)
    (mbxin : Option Nat) (a : Attempt) :
    Accounts T (mbxin.toList++own) (readAttempt port cfg mbxin a)
      (fun r => r.1.toList++(r.2.mbx.toList++own)) := by
  simp only [readAttempt]
  split_ifs
  · exact hT.pure _ rfl
  · cases mbxin with
    | none => exact Ledger.throw _
    | some m =>
      refine hT.bind ((quiet_fillMbx m _).accounts hT) ?_
      intro _
      refine hT.bind ((quiet_content m).accounts hT) ?_
      intro mbx
      split_ifs
      · refine hT.bind ((quiet_reportHandled mbx).accounts hT) ?_
        intro _
        refine hT.bind (dropMbxM_accounts hT m) ?_
        intro _
        exact hT.pure _ rfl
      · exact hT.pure _ rfl

theorem readAttempt_none {cfg : SlaveCfg} {mbxin : Option Nat} {a : Attempt} {c c' : Client σ}
    {r : Option Nat × Received} (hr : readAttempt port cfg mbxin a c=.ok (r,c'))
    (hw : r.2.wkc ≤ 0) : r.2.mbx=none := by
  simp only [readAttempt] at hr
  split_ifs at hr with ha
  · cases pure_ok.mp hr
    rfl
  · cases mbxin with
    | none => exact absurd hr throw_ok
    | some m =>
      obtain ⟨_,_,_,hr⟩ := bind_ok.mp hr
      obtain ⟨mbx,_,_,hr⟩ := bind_ok.mp hr
      split_ifs at hr
      · obtain ⟨_,_,_,hr⟩ := bind_ok.mp hr
        obtain ⟨_,_,_,hr⟩ := bind_ok.mp hr
        cases pure_ok.mp hr
        rfl
      · cases pure_ok.mp hr
        exact absurd hw ha

theorem readLoop_null {cfg : SlaveCfg} : ∀ (as : List Attempt) {c c' : Client σ} {r : Received},
    readLoop port cfg none as c=.ok (r,c') →
      r.mbx=none ∧ (as.find? fun a => decide (0 < a.wkc))=none := by
  intro as
  induction as with
  | nil =>
    intro c c' r hr
    cases pure_ok.mp hr
    exact ⟨rfl,rfl⟩
  | cons a rest ih =>
    intro c c' r hr
    rw [readLoop] at hr
    obtain ⟨s,c1,ha,hr⟩ := bind_ok.mp hr
    simp only [readAttempt] at ha
    split_ifs at ha with hw
    · cases pure_ok.mp ha
      have hnot : decide (0 < a.wkc)=false := by simpa using hw
      rw [List.find?_cons_of_neg (by simp [hnot])]
      split_ifs at hr with hgo
      · exact ih hr
      · obtain ⟨_,_,_,hr⟩ := bind_ok.mp hr
        cases pure_ok.mp hr
        refine ⟨rfl,?_⟩
        have hnil : rest=[] := by
          by_contra hne
          exact hgo ⟨hw,hne⟩
        rw [hnil]
        rfl
    · exact absurd ha throw_ok

/-- The outcomes of one read into the mailbox `m`. -/
theorem readAttempt_cases {cfg : SlaveCfg} {m : Nat} {a : Attempt} {c c' : Client σ}
    {r : Option Nat × Received} (hr : readAttempt port cfg (some m) a c=.ok (r,c')) :
    (a.wkc ≤ 0 ∧ r=(some m,Received.none a.wkc) ∧ c'=c) ∨
      (0 < a.wkc ∧ r=(none,Received.none 0) ∧
        handledInReceive (overwrite (c.buffers m) (a.bytes.take cfg.mbxRl.toNat)) a.hooked=true) ∨
      (0 < a.wkc ∧
        r=(none,⟨a.wkc,some m,overwrite (c.buffers m) (a.bytes.take cfg.mbxRl.toNat)⟩) ∧
        c'=c.store m (a.bytes.take cfg.mbxRl.toNat) ∧
        handledInReceive (overwrite (c.buffers m) (a.bytes.take cfg.mbxRl.toNat))
          a.hooked=false) := by
  simp only [readAttempt] at hr
  by_cases hw : a.wkc ≤ 0
  · rw [if_pos hw] at hr
    cases pure_ok.mp hr
    exact .inl ⟨hw,rfl,rfl⟩
  · rw [if_neg hw] at hr
    have hpos : 0 < a.wkc := by omega
    obtain ⟨_,c1,hfill,hr⟩ := bind_ok.mp hr
    obtain ⟨mbx,c2,hcontent,hr⟩ := bind_ok.mp hr
    cases hfill
    cases hcontent
    have hmbx : (c.store m (a.bytes.take cfg.mbxRl.toNat)).buffers m=
        overwrite (c.buffers m) (a.bytes.take cfg.mbxRl.toNat) := Function.update_self _ _ _
    rw [hmbx] at hr
    by_cases hh : handledInReceive (overwrite (c.buffers m) (a.bytes.take cfg.mbxRl.toNat))
        a.hooked=true
    · rw [if_pos hh] at hr
      obtain ⟨_,_,_,hr⟩ := bind_ok.mp hr
      obtain ⟨_,_,_,hr⟩ := bind_ok.mp hr
      cases pure_ok.mp hr
      exact .inr (.inl ⟨hpos,rfl,hh⟩)
    · rw [if_neg hh] at hr
      cases pure_ok.mp hr
      exact .inr (.inr ⟨hpos,rfl,rfl,by simpa using hh⟩)

theorem readLoop_held (as : List Attempt) : ∀ {mbxin : Option Nat} {c c' : Client σ}
    {r : Received},readLoop port cfg mbxin as c=.ok (r,c') → 0 < r.wkc → r.mbx≠none := by
  induction as with
  | nil =>
    intro mbxin c c' r hr hw
    cases pure_ok.mp hr
    exact absurd hw (lt_irrefl _)
  | cons a rest ih =>
    intro mbxin c c' r hr hw
    obtain ⟨s,c1,ha,hr⟩ := bind_ok.mp hr
    by_cases hgo : s.2.wkc ≤ 0 ∧ rest≠[]
    · rw [if_pos hgo] at hr
      exact ih hr hw
    · rw [if_neg hgo] at hr
      obtain ⟨_,c2,-,hr⟩ := bind_ok.mp hr
      cases pure_ok.mp hr
      cases mbxin with
      | none =>
        simp only [readAttempt] at ha
        split_ifs at ha with hle
        · cases pure_ok.mp ha
          exact absurd hw (not_lt.mpr hle)
        · exact absurd ha throw_ok
      | some m =>
        rcases readAttempt_cases ha with ⟨hle,hs,-⟩|⟨-,hs,-⟩|⟨-,hs,-⟩
        · rw [hs] at hw
          exact absurd hw (not_lt.mpr hle)
        · rw [hs] at hw
          exact absurd hw (lt_irrefl _)
        · rw [hs]
          simp

theorem mbxReceive_held {c c' : Client σ} {r : Received}
    (hr : mbxReceive port cfg c=.ok (r,c')) (hw : 0 < r.wkc) : r.mbx≠none := by
  rw [mbxReceive] at hr
  split_ifs at hr
  · obtain ⟨reading,c1,-,hr⟩ := bind_ok.mp hr
    cases reading with
    | silent wkc =>
      cases pure_ok.mp hr
      simp only [Received.none] at hw
      split_ifs at hw with hpos
      · exact absurd hw (by decide)
      · exact absurd hw hpos
    | full first rest =>
      obtain ⟨mbxin,c2,-,hr⟩ := bind_ok.mp hr
      exact readLoop_held (first::rest) hr hw
  · cases pure_ok.mp hr
    exact absurd hw (lt_irrefl _)

theorem readLoop_accounts (hT : MbxLedger port T) (cfg : SlaveCfg)
    (rest : List Attempt) : ∀ (mbxin : Option Nat) (a : Attempt),
    Accounts T (mbxin.toList++own) (readLoop port cfg mbxin (a::rest))
      (fun r => r.mbx.toList++own) := by
  induction rest with
  | nil =>
    intro mbxin a
    simp only [readLoop]
    refine hT.bind (readAttempt_accounts hT cfg mbxin a) ?_
    intro r
    simp only [ne_eq,not_true,and_false,if_false]
    refine hT.bind (dropMbxIn_accounts hT r.1) ?_
    intro _
    exact hT.pure _ rfl
  | cons b rest ih =>
    intro mbxin a
    rw [readLoop]
    refine hT.bind_of (readAttempt_accounts hT cfg mbxin a) ?_
    intro r hr
    obtain ⟨c,c',hr⟩ := hr
    split_ifs with hgo
    · rw [readAttempt_none hr hgo.1]
      exact ih r.1 b
    · refine hT.bind (dropMbxIn_accounts hT r.1) ?_
      intro _
      exact hT.pure _ rfl

theorem mbxReceive_accounts (hT : MbxLedger port T) (cfg : SlaveCfg) :
    Accounts T own (mbxReceive port cfg) (fun r => r.mbx.toList++own) := by
  simp only [mbxReceive]
  split_ifs
  · refine hT.bind (quiet_askMailbox.accounts hT) ?_
    intro reading
    cases reading with
    | silent wkc => exact hT.pure _ rfl
    | full first rest =>
      refine hT.bind (getMbxM_accounts hT) ?_
      intro mbxin
      exact readLoop_accounts hT cfg rest mbxin first
  · exact hT.pure _ rfl

/-- The account of the free list: what is free and what is in hand stays the same. -/
def PoolAccount (own : List Nat) (c : Client σ) (own' : List Nat) (c' : Client σ) : Prop :=
  c.pool.Wf → (own++c.pool.free).Nodup → (∀ m ∈ own,m < mbxPoolSize) →
    c'.pool.Wf ∧ (own'++c'.pool.free).Perm (own++c.pool.free)

theorem mem_of_perm {own own' free free' : List Nat} (hperm : (own'++free').Perm (own++free))
    (hown : ∀ m ∈ own,m < mbxPoolSize) (hfree : ∀ m ∈ free,m < mbxPoolSize) :
    ∀ m ∈ own',m < mbxPoolSize := by
  intro m hm
  have hmem := hperm.subset (List.mem_append_left free' hm)
  rcases List.mem_append.mp hmem with hm|hm
  · exact hown m hm
  · exact hfree m hm

theorem poolAccount_ledger (h : Alone port) : MbxLedger port PoolAccount := by
  refine ⟨⟨?_,?_⟩,?_,?_,?_,?_⟩
  · intro own c hwf _ _
    exact ⟨hwf,List.Perm.refl _⟩
  · intro o c o' c' o'' c'' h1 h2 hwf hnd hlt
    obtain ⟨hwf',hperm⟩ := h1 hwf hnd hlt
    obtain ⟨hwf'',hperm'⟩ := h2 hwf' (hperm.nodup_iff.mpr hnd) (mem_of_perm hperm hlt hwf.items)
    exact ⟨hwf'',hperm'.trans hperm⟩
  · intro own c c' hpool _ hwf _ _
    rw [hpool]
    exact ⟨hwf,List.Perm.refl _⟩
  · intro own c hwf _ _
    rw [interfere_pool h]
    exact ⟨hwf,List.Perm.refl _⟩
  · intro own c hwf _ _
    cases hg : (getMbx c.pool).1 with
    | none =>
      obtain ⟨-,hsame⟩ := getMbx_none hg
      simp only [hsame]
      exact ⟨hwf,List.Perm.refl _⟩
    | some m =>
      obtain ⟨hfree,hwf'⟩ := getMbx_some hwf hg
      refine ⟨hwf',?_⟩
      rw [hfree]
      exact List.perm_middle.symm
  · intro own m c hwf hnd hlt
    have hm := hlt m List.mem_cons_self
    have hnd' : (m::c.pool.free).Nodup := by
      refine hnd.sublist ?_
      exact List.Sublist.cons_cons m (List.sublist_append_right own c.pool.free)
    obtain ⟨hfree,hwf'⟩ := dropMbx_free hwf hm (count_lt_of_nodup hwf hm hnd')
    refine ⟨hwf',?_⟩
    rw [hfree]
    have h1 : (own++(c.pool.free++[m])).Perm (own++(m::c.pool.free)) :=
      List.Perm.append_left own (List.perm_append_singleton m c.pool.free)
    exact h1.trans List.perm_middle

/-- The account of the number of free mailboxes, which is kept even where one is given back
twice. -/
def CountAccount (own : List Nat) (c : Client σ) (own' : List Nat) (c' : Client σ) : Prop :=
  c.pool.listtail < mbxPoolSize → (∀ i < mbxPoolSize,c.pool.mbxemptylist i < mbxPoolSize) →
    (∀ m ∈ own,m < mbxPoolSize) →
    (c'.pool.listtail < mbxPoolSize ∧ (∀ i < mbxPoolSize,c'.pool.mbxemptylist i < mbxPoolSize)) ∧
      (∀ m ∈ own',m < mbxPoolSize) ∧
      own'.length+c'.pool.listcount=own.length+c.pool.listcount

theorem countAccount_ledger (h : Alone port) : MbxLedger port CountAccount := by
  refine ⟨⟨?_,?_⟩,?_,?_,?_,?_⟩
  · intro own c ht hc ho
    exact ⟨⟨ht,hc⟩,ho,rfl⟩
  · intro o c o' c' o'' c'' h1 h2 ht hc ho
    obtain ⟨⟨ht',hc'⟩,ho',hn⟩ := h1 ht hc ho
    obtain ⟨hcell,ho'',hn'⟩ := h2 ht' hc' ho'
    exact ⟨hcell,ho'',hn'.trans hn⟩
  · intro own c c' hpool _ ht hc ho
    rw [hpool]
    exact ⟨⟨ht,hc⟩,ho,rfl⟩
  · intro own c ht hc ho
    rw [interfere_pool h]
    exact ⟨⟨ht,hc⟩,ho,rfl⟩
  · intro own c ht hc ho
    simp only [getMbx]
    split_ifs with hpos
    · refine ⟨⟨ringNext_lt ht,hc⟩,?_,?_⟩
      · intro m hm
        rcases List.mem_cons.mp hm with rfl|hm
        · exact hc _ ht
        · exact ho m hm
      · simp only [Option.toList_some,List.cons_append,List.nil_append,List.length_cons]
        omega
    · exact ⟨⟨ht,hc⟩,ho,rfl⟩
  · intro own m c ht hc ho
    have hm := ho m List.mem_cons_self
    simp only [dropMbx,if_pos hm]
    refine ⟨⟨ht,?_⟩,fun x hx => ho x (List.mem_cons_of_mem m hx),?_⟩
    · intro i hi
      simp only [Function.update_apply]
      split_ifs
      · exact hm
      · exact hc i hi
    · simp only [List.length_cons]
      omega

/-- A call alone at the pool, with `n` mailboxes free or in its hands. -/
structure Stock (n : Nat) (own : List Nat) (c : Client σ) : Prop where
  tail : c.pool.listtail < mbxPoolSize
  cells : ∀ i < mbxPoolSize,c.pool.mbxemptylist i < mbxPoolSize
  items : ∀ m ∈ own,m < mbxPoolSize
  total : own.length+c.pool.listcount=n

section Stock

variable {n : Nat} {c c' : Client σ} {a : α}

theorem Stock.start (h : c.pool.Wf) : Stock c.pool.listcount [] c :=
  ⟨h.tail,h.cells,fun _ hm => absurd hm List.not_mem_nil,Nat.zero_add _⟩

theorem Stock.run {x : MbxM σ α} {own' : α → List Nat} (h : Stock n own c)
    (hx : Accounts CountAccount own x own') (hr : x c=.ok (a,c')) : Stock n (own' a) c' := by
  obtain ⟨⟨htail,hcells⟩,hitems,htotal⟩ := hx c a c' hr h.tail h.cells h.items
  exact ⟨htail,hcells,hitems,htotal.trans h.total⟩

theorem Stock.drawn (halone : Alone port) (h : Stock n own c) {m : Nat}
    (hr : getMbxM port c=.ok (some m,c')) : own.length < n := by
  have htotal := (h.run (getMbxM_accounts (countAccount_ledger halone)) hr).total
  simp only [Option.toList_some,List.cons_append,List.nil_append,List.length_cons] at htotal
  omega

end Stock

end EtherCATMaster.Mailbox
