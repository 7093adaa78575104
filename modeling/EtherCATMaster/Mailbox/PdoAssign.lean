import EtherCATMaster.Framework.Run
import EtherCATMaster.Mailbox.PdoMap

namespace EtherCATMaster.Mailbox

open EtherCATMaster.Framework

/-- A read of a subindex into a variable of so many bytes. -/
structure SdoRequest where
  index : UInt16
  subindex : UInt8
  size : Nat
  deriving DecidableEq, Repr

/-- Where `ecx_readPDOassign` waits for a reply, with the variables that are in use there. -/
inductive AssignRead where
  | count
  | pdo (nidx idxloop : UInt16) (bsize : UInt32)
  | subcount (nidx idxloop idx : UInt16) (bsize : UInt32)
  | entry (nidx idxloop idx subidx subidxloop : UInt16) (bsize : UInt32)
  | done (bsize : UInt32)
  deriving DecidableEq, Repr

def pdoHead (nidx idxloop : UInt16) (bsize : UInt32) : AssignRead :=
  if idxloop ≤ nidx then .pdo nidx idxloop bsize else .done bsize

def entryHead (nidx idxloop idx subidx subidxloop : UInt16) (bsize : UInt32) : AssignRead :=
  if subidxloop ≤ subidx then .entry nidx idxloop idx subidx subidxloop bsize
  else pdoHead nidx (idxloop+1) bsize

namespace AssignRead

def request (pdoAssign : UInt16) : AssignRead → Option SdoRequest
  | .count => some ⟨pdoAssign,0,2⟩
  | .pdo _ idxloop _ => some ⟨pdoAssign,idxloop.toUInt8,2⟩
  | .subcount _ _ idx _ => some ⟨idx,0,1⟩
  | .entry _ _ idx _ subidxloop _ => some ⟨idx,subidxloop.toUInt8,4⟩
  | .done _ => none

/-- What is done with the reply. Only the first one is looked at for success: the variable of a read
that fails stays as it is, which is zero. -/
def next : AssignRead → SdoRead → AssignRead
  | .count,r =>
    let rdat := get16 (overwrite [0,0] r.data) 0
    if r.wkc>0 ∧ rdat>0 then pdoHead rdat 1 0 else .done 0
  | .pdo nidx idxloop bsize,r =>
    let idx := get16 (overwrite [0,0] r.data) 0
    if idx>0 then .subcount nidx idxloop idx bsize else pdoHead nidx (idxloop+1) bsize
  | .subcount nidx idxloop idx bsize,r =>
    entryHead nidx idxloop idx (byteAt (overwrite [0] r.data) 0).toUInt16 1 bsize
  | .entry nidx idxloop idx subidx subidxloop bsize,r =>
    let rdat2 := get32 (overwrite [0,0,0,0] r.data) 0
    entryHead nidx idxloop idx subidx (subidxloop+1)
      (if loByte rdat2<0xff then bsize+loByte rdat2 else bsize+0xff)
  | .done bsize,_ => .done bsize

end AssignRead

/-- `ecx_readPDOassign` after its first `n` reads. -/
def assignAt (replies : ℕ → SdoRead) : ℕ → AssignRead := trace AssignRead.next .count replies

/-- The function returns after finitely many reads. -/
def AssignReturns (replies : ℕ → SdoRead) : Prop := ∃ n bsize,assignAt replies n=.done bsize

/-- The slave says that the greatest number of PDOs is assigned. -/
def CountsForever (r : SdoRead) : Prop := r.wkc>0 ∧ get16 (overwrite [0,0] r.data) 0=0xffff

section Termination

theorem succ_toNat {i n : UInt16} (h : i ≤ n) (hn : n<0xffff) : (i+1).toNat=i.toNat+1 := by
  have hi : i.toNat ≤ n.toNat := UInt16.le_iff_toNat_le.mp h
  have hlt : n.toNat<65535 := UInt16.lt_iff_toNat_lt.mp hn
  rw [UInt16.toNat_add]
  exact Nat.mod_eq_of_lt (by simp; omega)

theorem lt_greatest {n : UInt16} (h : n≠0xffff) : n<0xffff := by
  have hlt := n.toNat_lt
  have hne : n.toNat≠65535 := fun heq => h (UInt16.toNat_inj.mp heq)
  exact UInt16.lt_iff_toNat_lt.mpr (by simp; omega)

theorem pdoHead_greatest (idxloop : UInt16) (bsize : UInt32) :
    pdoHead 0xffff idxloop bsize=.pdo 0xffff idxloop bsize := by
  have hlt := idxloop.toNat_lt
  exact if_pos (UInt16.le_iff_toNat_le.mpr (by simp; omega))

def AssignRead.Endless : AssignRead → Prop
  | .pdo nidx _ _ => nidx=0xffff
  | .subcount nidx _ _ _ => nidx=0xffff
  | .entry nidx _ _ _ _ _ => nidx=0xffff
  | _ => False

theorem pdoHead_endless (idxloop : UInt16) (bsize : UInt32) :
    (pdoHead 0xffff idxloop bsize).Endless := by
  rw [pdoHead_greatest]
  rfl

theorem entryHead_endless (idxloop idx subidx subidxloop : UInt16) (bsize : UInt32) :
    (entryHead 0xffff idxloop idx subidx subidxloop bsize).Endless := by
  unfold entryHead
  split_ifs with h
  · rfl
  · exact pdoHead_endless _ _

theorem AssignRead.Endless.next {s : AssignRead} (h : s.Endless) (r : SdoRead) :
    (s.next r).Endless := by
  cases s with
  | count => exact h.elim
  | pdo nidx idxloop bsize =>
    cases h
    rw [AssignRead.next]
    split_ifs with hidx
    · rfl
    · exact pdoHead_endless _ _
  | subcount nidx idxloop idx bsize =>
    cases h
    exact entryHead_endless _ _ _ _ _
  | entry nidx idxloop idx subidx subidxloop bsize =>
    cases h
    exact entryHead_endless _ _ _ _ _
  | done bsize => exact h.elim

theorem endless_of_countsForever {r : SdoRead} (h : CountsForever r) :
    (AssignRead.next .count r).Endless := by
  rw [AssignRead.next,h.2,if_pos ⟨h.1,by decide⟩]
  exact pdoHead_endless 1 0

def AssignRead.Inside : AssignRead → Prop
  | .pdo nidx idxloop _ => idxloop ≤ nidx ∧ nidx<0xffff
  | .subcount nidx idxloop _ _ => idxloop ≤ nidx ∧ nidx<0xffff
  | .entry nidx idxloop _ subidx subidxloop _ =>
    (idxloop ≤ nidx ∧ nidx<0xffff) ∧ subidxloop ≤ subidx ∧ subidx.toNat<256
  | _ => False

def AssignRead.left : AssignRead → ℕ
  | .pdo nidx idxloop _ => 300*(nidx.toNat+1-idxloop.toNat)
  | .subcount nidx idxloop _ _ => 300*(nidx.toNat-idxloop.toNat)+299
  | .entry nidx idxloop _ subidx subidxloop _ =>
    300*(nidx.toNat-idxloop.toNat)+(subidx.toNat+1-subidxloop.toNat)
  | _ => 0

def Falls (bound : ℕ) (s : AssignRead) : Prop :=
  (∃ bsize,s=.done bsize) ∨ (s.Inside ∧ s.left < bound)

theorem pdoHead_falls {nidx idxloop : UInt16} (h : idxloop ≤ nidx) (hn : nidx<0xffff)
    (bsize : UInt32) {bound : ℕ} (hbound : 300*(nidx.toNat-idxloop.toNat) < bound) :
    Falls bound (pdoHead nidx (idxloop+1) bsize) := by
  have hsucc := succ_toNat h hn
  unfold pdoHead
  split_ifs with hle
  · right
    refine ⟨⟨hle,hn⟩,?_⟩
    change 300*(nidx.toNat+1-(idxloop+1).toNat) < bound
    omega
  · exact .inl ⟨bsize,rfl⟩

theorem entryHead_falls {nidx idxloop idx subidx subidxloop : UInt16} (h : idxloop ≤ nidx)
    (hn : nidx<0xffff) (hsub : subidx.toNat<256) (bsize : UInt32) {bound : ℕ}
    (hbound : 300*(nidx.toNat-idxloop.toNat)+(subidx.toNat+1-subidxloop.toNat) < bound) :
    Falls bound (entryHead nidx idxloop idx subidx subidxloop bsize) := by
  unfold entryHead
  split_ifs with hle
  · exact .inr ⟨⟨⟨h,hn⟩,hle,hsub⟩,hbound⟩
  · exact pdoHead_falls h hn bsize (by omega)

theorem AssignRead.Inside.next {s : AssignRead} (h : s.Inside) (r : SdoRead) :
    Falls s.left (s.next r) := by
  cases s with
  | count => exact h.elim
  | pdo nidx idxloop bsize =>
    obtain ⟨hle,hn⟩ := h
    have hnat := UInt16.le_iff_toNat_le.mp hle
    rw [AssignRead.next]
    split_ifs with hidx
    · refine .inr ⟨⟨hle,hn⟩,?_⟩
      change 300*(nidx.toNat-idxloop.toNat)+299 < 300*(nidx.toNat+1-idxloop.toNat)
      omega
    · apply pdoHead_falls hle hn
      change _ < 300*(nidx.toNat+1-idxloop.toNat)
      omega
  | subcount nidx idxloop idx bsize =>
    obtain ⟨hle,hn⟩ := h
    have hbyte := (byteAt (overwrite [0] r.data) 0).toNat_lt
    apply entryHead_falls hle hn
    · simpa using hbyte
    · change _ < 300*(nidx.toNat-idxloop.toNat)+299
      simp
      omega
  | entry nidx idxloop idx subidx subidxloop bsize =>
    obtain ⟨⟨hle,hn⟩,hsub,hbyte⟩ := h
    have hsucc : (subidxloop+1).toNat=subidxloop.toNat+1 :=
      succ_toNat hsub (UInt16.lt_iff_toNat_lt.mpr (by simp; omega))
    have hnat := UInt16.le_iff_toNat_le.mp hsub
    apply entryHead_falls hle hn hbyte
    change _ < 300*(nidx.toNat-idxloop.toNat)+(subidx.toNat+1-subidxloop.toNat)
    omega
  | done bsize => exact h.elim

variable {replies : ℕ → SdoRead}

theorem returns_of_inside {n : ℕ} (h : (assignAt replies n).Inside) : AssignReturns replies := by
  obtain ⟨N,bsize,hdone⟩ := eventually_of_rank
    (D := fun n => ∃ bsize,assignAt replies n=.done bsize)
    (W := fun n m => (assignAt replies n).Inside ∧ (assignAt replies n).left=m)
    (by
      intro n m hw
      obtain ⟨hinside,rfl⟩ := hw
      rcases hinside.next (replies n) with hdone|hfewer
      · exact .inl hdone
      · exact .inr ⟨_,hfewer.2,hfewer.1,rfl⟩) ⟨h,rfl⟩
  exact ⟨N+1,bsize,hdone⟩

theorem not_returns_of_endless (h : (assignAt replies 1).Endless) : ¬AssignReturns replies := by
  have hforever : ∀ n,(assignAt replies (n+1)).Endless := by
    intro n
    induction n with
    | zero => exact h
    | succ n ih => exact ih.next (replies (n+1))
  intro hreturns
  obtain ⟨n,bsize,hdone⟩ := hreturns
  cases n with
  | zero => cases hdone
  | succ n =>
    have hendless := hforever n
    rw [hdone] at hendless
    exact hendless

theorem assignReturns_iff : AssignReturns replies ↔ ¬CountsForever (replies 0) := by
  have hfirst : assignAt replies 1=AssignRead.next .count (replies 0) := rfl
  constructor
  · intro hreturns hforever
    apply not_returns_of_endless _ hreturns
    rw [hfirst]
    exact endless_of_countsForever hforever
  · intro h
    rw [AssignRead.next] at hfirst
    split_ifs at hfirst with hpos
    · have hone : (1 : UInt16) ≤ get16 (overwrite [0,0] (replies 0).data) 0 :=
        UInt16.le_iff_toNat_le.mpr (UInt16.lt_iff_toNat_lt.mp hpos.2)
      have hless := lt_greatest fun heq => h ⟨hpos.1,heq⟩
      apply returns_of_inside (n := 1)
      rw [hfirst,pdoHead,if_pos hone]
      exact ⟨hone,hless⟩
    · exact ⟨1,0,hfirst⟩

end Termination

/-- The objects of a slave, as they are read subindex by subindex. -/
abbrev Dictionary := UInt16 → UInt8 → Option (List UInt8)

namespace Dictionary

variable (d : Dictionary)

/-- An object that is there and fits in the variable is read. -/
def reply (q : SdoRequest) : SdoRead :=
  match d q.index q.subindex with
  | some data => if data.length ≤ q.size then ⟨1,data.length,data⟩ else ⟨0,q.size,[]⟩
  | none => ⟨0,q.size,[]⟩

/-- What such a read finds. Without an object that fits it is 0. -/
def value (index : UInt16) (subindex : UInt8) (size : Nat) : Nat :=
  leValue (d.reply ⟨index,subindex,size⟩).data

def pdoBits (idx : UInt16) : Nat :=
  ((List.range' 1 (d.value idx 0 1)).map fun k => d.value idx (UInt8.ofNat k) 4%256).sum

def pdoIndex (pdoAssign : UInt16) (i : Nat) : UInt16 :=
  UInt16.ofNat (d.value pdoAssign (UInt8.ofNat i) 2)

/-- Over all assigned PDOs with an index. -/
def assignedBits (pdoAssign : UInt16) : Nat :=
  ((List.range' 1 (d.value pdoAssign 0 2)).map fun i =>
    if d.pdoIndex pdoAssign i=0 then 0 else d.pdoBits (d.pdoIndex pdoAssign i)).sum

/-- The replies are what the dictionary has. -/
def Answers (pdoAssign : UInt16) (replies : ℕ → SdoRead) : Prop :=
  ∀ n q,(assignAt replies n).request pdoAssign=some q → replies n=d.reply q

end Dictionary

section Sum

theorem leValue_zeros (data : List UInt8) (k : Nat) :
    leValue (data++List.replicate k 0)=leValue data := by
  induction data with
  | nil =>
    induction k with
    | zero => rfl
    | succ k ih => simpa [List.replicate_succ,leValue] using ih
  | cons b bs ih => simp only [List.cons_append,leValue,ih]

theorem leValue_overwrite {data : List UInt8} {n : Nat} (h : data.length ≤ n) :
    leValue (((overwrite (List.replicate n 0) data).drop 0).take n)=leValue data := by
  have hlen : (data++List.replicate (n-data.length) 0).length=n := by
    simp
    omega
  rw [overwrite,List.drop_replicate,List.drop_zero,List.take_of_length_le hlen.le,leValue_zeros]

theorem byteAt_overwrite {data : List UInt8} (h : data.length ≤ 1) :
    byteAt (overwrite [0] data) 0=UInt8.ofNat (leValue data) := by
  match data,h with
  | [],_ => rfl
  | [b],_ => simp [overwrite,byteAt,leValue]

theorem loByte_ofNat (v : Nat) : loByte (UInt32.ofNat v)=UInt32.ofNat (v%256) := by
  apply UInt32.toNat_inj.mp
  rw [loByte,UInt32.toNat_and,UInt32.toNat_ofNat',UInt32.toNat_ofNat']
  change v%2^32 &&& (2^8-1)=_
  rw [Nat.and_two_pow_sub_one_eq_mod]
  omega

theorem reply_length (d : Dictionary) (q : SdoRequest) : (d.reply q).data.length ≤ q.size := by
  unfold Dictionary.reply
  cases d q.index q.subindex with
  | none => simp
  | some data =>
    dsimp only
    split_ifs with h
    · exact h
    · simp

theorem value_lt (d : Dictionary) (index : UInt16) (subindex : UInt8) (size : Nat) :
    d.value index subindex size<256^size :=
  (leValue_lt _).trans_le (Nat.pow_le_pow_right (by decide) (reply_length d _))

variable (d : Dictionary) (pdoAssign : UInt16)

def AssignRead.turn (s : AssignRead) : AssignRead :=
  match s.request pdoAssign with
  | some q => s.next (d.reply q)
  | none => s

def Leads (s t : AssignRead) : Prop := ∃ k,(AssignRead.turn d pdoAssign)^[k] s=t

variable {d pdoAssign}

theorem AssignRead.turn_eq {s : AssignRead} {q : SdoRequest} (h : s.request pdoAssign=some q) :
    s.turn d pdoAssign=s.next (d.reply q) := by
  rw [AssignRead.turn,h]

theorem Leads.turn {s t : AssignRead} (h : Leads d pdoAssign (s.turn d pdoAssign) t) :
    Leads d pdoAssign s t := by
  obtain ⟨k,hk⟩ := h
  exact ⟨k+1,by rw [Function.iterate_succ_apply,hk]⟩

theorem Leads.trans {s t u : AssignRead} (h : Leads d pdoAssign s t) (h' : Leads d pdoAssign t u) :
    Leads d pdoAssign s u := by
  obtain ⟨k,rfl⟩ := h
  obtain ⟨m,rfl⟩ := h'
  exact ⟨m+k,by rw [Function.iterate_add_apply]⟩

theorem assignAt_turn {replies : ℕ → SdoRead} (h : d.Answers pdoAssign replies) (n : ℕ) :
    assignAt replies n=(AssignRead.turn d pdoAssign)^[n] .count := by
  induction n with
  | zero => rfl
  | succ n ih =>
    rw [Function.iterate_succ_apply',← ih]
    change (assignAt replies n).next (replies n)=(assignAt replies n).turn d pdoAssign
    rw [AssignRead.turn]
    cases hcase : assignAt replies n with
    | done bsize => rfl
    | _ =>
      have hreply := h n
      rw [hcase] at hreply
      rw [hreply _ rfl]
      rfl

theorem entry_value (idx : UInt16) (k : UInt8) :
    loByte (get32 (overwrite [0,0,0,0] (d.reply ⟨idx,k,4⟩).data) 0)=
      UInt32.ofNat (d.value idx k 4%256) := by
  have hget : get32 (overwrite [0,0,0,0] (d.reply ⟨idx,k,4⟩).data) 0=
      UInt32.ofNat (d.value idx k 4) :=
    congrArg UInt32.ofNat (leValue_overwrite (reply_length d ⟨idx,k,4⟩))
  rw [hget,loByte_ofNat]

theorem word_value (index : UInt16) (k : UInt8) :
    get16 (overwrite [0,0] (d.reply ⟨index,k,2⟩).data) 0=UInt16.ofNat (d.value index k 2) :=
  congrArg UInt16.ofNat (leValue_overwrite (reply_length d ⟨index,k,2⟩))

theorem counter_succ (k : Nat) : UInt16.ofNat k+1=UInt16.ofNat (k+1) :=
  (UInt16.ofNat_add k 1).symm

theorem counter_le_iff {k : Nat} (hk : k<65536) (n : UInt16) : UInt16.ofNat k ≤ n ↔ k ≤ n.toNat := by
  rw [UInt16.le_iff_toNat_le,UInt16.toNat_ofNat',Nat.mod_eq_of_lt hk]

theorem counter_byte (k : Nat) : (UInt16.ofNat k).toUInt8=UInt8.ofNat k := by
  apply UInt8.toNat_inj.mp
  simp

/-- The loop over the entries from one on, of which `n` remain. -/
theorem entries_lead (nidx idxloop idx subidx : UInt16) (n : Nat) : ∀ (k : Nat) (bsize : UInt32),
    subidx.toNat+1=k+n → k+n ≤ 256 →
    Leads d pdoAssign (entryHead nidx idxloop idx subidx (UInt16.ofNat k) bsize)
      (pdoHead nidx (idxloop+1) (bsize+UInt32.ofNat
        ((List.range' k n).map fun k => d.value idx (UInt8.ofNat k) 4%256).sum)) := by
  induction n with
  | zero =>
    intro k bsize hk hmax
    have hpast : ¬UInt16.ofNat k ≤ subidx := by
      rw [counter_le_iff (by omega)]
      omega
    rw [entryHead,if_neg hpast]
    exact ⟨0,by simp⟩
  | succ n ih =>
    intro k bsize hk hmax
    have hin : UInt16.ofNat k ≤ subidx := by
      rw [counter_le_iff (by omega)]
      omega
    have hrest := ih (k+1) (bsize+UInt32.ofNat (d.value idx (UInt8.ofNat k) 4%256)) (by omega)
      (by omega)
    rw [entryHead,if_pos hin]
    apply Leads.turn
    rw [AssignRead.turn_eq rfl,AssignRead.next,loByte_capped,entry_value,counter_succ,counter_byte]
    rw [List.range'_succ,List.map_cons,List.sum_cons,UInt32.ofNat_add,← UInt32.add_assoc]
    exact hrest

theorem pdo_leads (nidx idxloop idx : UInt16) (bsize : UInt32) :
    Leads d pdoAssign (.subcount nidx idxloop idx bsize)
      (pdoHead nidx (idxloop+1) (bsize+UInt32.ofNat (d.pdoBits idx))) := by
  have hlt : d.value idx 0 1<256 := value_lt d idx 0 1
  have hcount : (byteAt (overwrite [0] (d.reply ⟨idx,0,1⟩).data) 0).toUInt16.toNat=
      d.value idx 0 1 := by
    rw [byteAt_overwrite (reply_length d ⟨idx,0,1⟩)]
    change (UInt8.ofNat (d.value idx 0 1)).toUInt16.toNat=_
    rw [UInt8.toNat_toUInt16,UInt8.toNat_ofNat',Nat.mod_eq_of_lt hlt]
  exact Leads.turn (entries_lead nidx idxloop idx _ (d.value idx 0 1) 1 bsize (by omega) (by omega))

/-- The loop over the PDOs from one on, of which `n` remain. -/
theorem pdos_lead (nidx : UInt16) (n : Nat) : ∀ (i : Nat) (bsize : UInt32),
    nidx.toNat+1=i+n → nidx<0xffff →
    Leads d pdoAssign (pdoHead nidx (UInt16.ofNat i) bsize)
      (.done (bsize+UInt32.ofNat ((List.range' i n).map fun i =>
        if d.pdoIndex pdoAssign i=0 then 0 else d.pdoBits (d.pdoIndex pdoAssign i)).sum)) := by
  induction n with
  | zero =>
    intro i bsize hi hless
    have hnat := UInt16.lt_iff_toNat_lt.mp hless
    have hpast : ¬UInt16.ofNat i ≤ nidx := by
      rw [counter_le_iff (by simp at hnat; omega)]
      omega
    rw [pdoHead,if_neg hpast]
    exact ⟨0,by simp⟩
  | succ n ih =>
    intro i bsize hi hless
    have hin : UInt16.ofNat i ≤ nidx := by
      have hnat := nidx.toNat_lt
      rw [counter_le_iff (by omega)]
      omega
    rw [pdoHead,if_pos hin,List.range'_succ,List.map_cons,List.sum_cons,UInt32.ofNat_add,
      ← UInt32.add_assoc]
    apply Leads.turn
    rw [AssignRead.turn_eq rfl,AssignRead.next,counter_byte,word_value]
    change Leads d pdoAssign (if d.pdoIndex pdoAssign i>0 then _ else _) _
    by_cases hidx : d.pdoIndex pdoAssign i=0
    · have hrest := ih (i+1) bsize (by omega) hless
      rw [if_neg (by rw [hidx]; decide),if_pos hidx,counter_succ]
      simpa using hrest
    · have hrest := ih (i+1) (bsize+UInt32.ofNat (d.pdoBits (d.pdoIndex pdoAssign i))) (by omega)
        hless
      rw [if_pos (UInt16.pos_iff_ne_zero.mpr hidx),if_neg hidx]
      apply (pdo_leads nidx (UInt16.ofNat i) _ bsize).trans
      rw [counter_succ]
      exact hrest

theorem sum_map_le (f : Nat → Nat) (bound : Nat) (l : List Nat) (h : ∀ x,f x ≤ bound) :
    (l.map f).sum ≤ l.length*bound := by
  induction l with
  | nil => simp
  | cons x l ih =>
    have hx := h x
    rw [List.map_cons,List.sum_cons,List.length_cons,Nat.succ_mul]
    omega

theorem assignedBits_lt (h : d.value pdoAssign 0 2 ≤ 254) : d.assignedBits pdoAssign<2^32 := by
  have hpdo : ∀ idx,d.pdoBits idx ≤ 255*255 := by
    intro idx
    have hlt : d.value idx 0 1<256 := value_lt d idx 0 1
    have hsum := sum_map_le _ 255 (List.range' 1 (d.value idx 0 1)) fun k => Nat.lt_succ_iff.mp (Nat.mod_lt (d.value idx (UInt8.ofNat k) 4) (by decide))
    rw [List.length_range'] at hsum
    exact hsum.trans (Nat.mul_le_mul_right _ (by omega))
  have hsum := sum_map_le
    (fun i => if d.pdoIndex pdoAssign i=0 then 0 else d.pdoBits (d.pdoIndex pdoAssign i)) (255*255)
    (List.range' 1 (d.value pdoAssign 0 2))
    (by
      intro i
      split_ifs
      · omega
      · exact hpdo _)
  rw [List.length_range'] at hsum
  have hmax := Nat.mul_le_mul_right (255*255) h
  change d.assignedBits pdoAssign ≤ _ at hsum
  omega

theorem assign_leads (h : d.value pdoAssign 0 2<65535) :
    Leads d pdoAssign .count (.done (UInt32.ofNat (d.assignedBits pdoAssign))) := by
  apply Leads.turn
  rw [AssignRead.turn_eq rfl,AssignRead.next,word_value]
  have hnat : (UInt16.ofNat (d.value pdoAssign 0 2)).toNat=d.value pdoAssign 0 2 := by
    rw [UInt16.toNat_ofNat',Nat.mod_eq_of_lt (by omega)]
  split_ifs with hpos
  · have hless : UInt16.ofNat (d.value pdoAssign 0 2)<0xffff := by
      apply UInt16.lt_iff_toNat_lt.mpr
      rw [hnat]
      exact h
    have hrun : Leads d pdoAssign _ _ :=
      pdos_lead _ (d.value pdoAssign 0 2) 1 0 (by omega) hless
    rw [UInt32.zero_add] at hrun
    exact hrun
  · have hzero : d.value pdoAssign 0 2=0 := by
      by_contra hne
      have hread : (d.reply ⟨pdoAssign,0,2⟩).wkc>0 := by
        unfold Dictionary.value at hne
        unfold Dictionary.reply at hne ⊢
        split at hne
        · split_ifs at hne ⊢
          · exact Int.one_pos
          · exact absurd rfl hne
        · exact absurd rfl hne
      apply hpos
      refine ⟨hread,UInt16.lt_iff_toNat_lt.mpr ?_⟩
      rw [hnat]
      exact Nat.pos_of_ne_zero hne
    have hnone : d.assignedBits pdoAssign=0 := by
      rw [Dictionary.assignedBits,hzero]
      rfl
    rw [hnone]
    exact ⟨0,rfl⟩

variable (d pdoAssign)

/-- The replies of a slave with these objects, 0 where none is asked for. -/
def Dictionary.replies (n : ℕ) : SdoRead :=
  match ((AssignRead.turn d pdoAssign)^[n] .count).request pdoAssign with
  | some q => d.reply q
  | none => ⟨0,0,[]⟩

theorem Dictionary.answers_replies : d.Answers pdoAssign (d.replies pdoAssign) := by
  have hrun : ∀ n,assignAt (d.replies pdoAssign) n=(AssignRead.turn d pdoAssign)^[n] .count := by
    intro n
    induction n with
    | zero => rfl
    | succ n ih =>
      rw [Function.iterate_succ_apply',← ih]
      change (assignAt (d.replies pdoAssign) n).next (d.replies pdoAssign n)=_
      rw [Dictionary.replies,← ih,AssignRead.turn]
      cases assignAt (d.replies pdoAssign) n <;> rfl
  intro n q hrequest
  rw [hrun] at hrequest
  rw [Dictionary.replies,hrequest]

end Sum

/-- Reading an assignment: for any replies the function returns if and only if it is not told to
count to the greatest number, and from a dictionary with at most 254 PDOs it returns the sum of the
low bytes of their entries. -/
theorem assign_reading_iff (replies : ℕ → SdoRead) :
    (AssignReturns replies ↔ ¬CountsForever (replies 0)) ∧
    ∀ (d : Dictionary) (pdoAssign : UInt16),d.Answers pdoAssign replies →
      d.value pdoAssign 0 2 ≤ 254 →
      ∃ n bsize,assignAt replies n=.done bsize ∧ bsize.toNat=d.assignedBits pdoAssign := by
  constructor
  · exact assignReturns_iff
  · intro d pdoAssign hreplies hfew
    have hcount : d.value pdoAssign 0 2<65535 := by omega
    obtain ⟨n,hn⟩ := assign_leads hcount
    refine ⟨n,_,(assignAt_turn hreplies n).trans hn,?_⟩
    rw [UInt32.toNat_ofNat']
    exact Nat.mod_eq_of_lt (assignedBits_lt hfew)

/-- Two PDOs and a place without one. The entries of the second come with a subindex missing. -/
def twoAssigned : Dictionary := fun index subindex =>
  if index=0x1c12 then
    (if subindex=0 then some [3] else if subindex=1 then some [0x00,0x16]
    else if subindex=3 then some [0x01,0x16] else none)
  else if index=0x1600 then
    (if subindex=0 then some [2] else if subindex=1 then some [0x10,0x00,0x40,0x60]
    else if subindex=2 then some [0x20,0x00,0x7a,0x60] else none)
  else if index=0x1601 then
    (if subindex=0 then some [2] else if subindex=2 then some [0x08,0x00,0x60,0x60] else none)
  else none

theorem two_assigned_summed :
    ∃ n bsize,assignAt (twoAssigned.replies 0x1c12) n=.done bsize ∧ bsize.toNat=56 := by
  have hbits : twoAssigned.assignedBits 0x1c12=56 := by decide
  rw [← hbits]
  exact (assign_reading_iff (twoAssigned.replies 0x1c12)).2 twoAssigned 0x1c12
    (twoAssigned.answers_replies 0x1c12) (by decide)

/-- A slave that answers the first read with two bytes of ones and no other. -/
def onesReply : ℕ → SdoRead
  | 0 => ⟨1,2,[0xff,0xff]⟩
  | _ => ⟨0,2,[]⟩

/-- The function keeps reading from it. -/
theorem ones_never_return : ¬AssignReturns onesReply :=
  fun h => assignReturns_iff.mp h ⟨by decide,by decide⟩

section Mailbox

variable {σ : Type} (port : Port σ) (cfg : SlaveCfg) (fuel : Nat) (pdoAssign : UInt16)

/-- The reads through the mailbox that lead from one place to another. -/
inductive ReadsTo : AssignRead → Client σ → AssignRead → Client σ → Prop where
  | refl (s : AssignRead) (c : Client σ) : ReadsTo s c s c
  | read {s t : AssignRead} {q : SdoRequest} {r : SdoRead} {c c1 c' : Client σ}
      (hrequest : s.request pdoAssign=some q)
      (hread : sdoRead port cfg fuel q.index q.subindex false q.size c=.ok (r,c1))
      (hrest : ReadsTo (s.next r) c1 t c') : ReadsTo s c t c'

variable {port cfg fuel pdoAssign}

theorem ReadsTo.trans {s t u : AssignRead} {c c1 c' : Client σ}
    (h : ReadsTo port cfg fuel pdoAssign s c t c1)
    (h' : ReadsTo port cfg fuel pdoAssign t c1 u c') : ReadsTo port cfg fuel pdoAssign s c u c' := by
  induction h with
  | refl s c => exact h'
  | read hrequest hread _ ih => exact .read hrequest hread (ih h')

theorem ReadsTo.replies {s t : AssignRead} {c c' : Client σ}
    (h : ReadsTo port cfg fuel pdoAssign s c t c') : ∃ rs,runFrom AssignRead.next s rs=t := by
  induction h with
  | refl s c => exact ⟨[],rfl⟩
  | @read s t q r c c1 c' _ _ _ ih =>
    obtain ⟨rs,hrs⟩ := ih
    exact ⟨r::rs,hrs⟩

theorem readPdoEntries_reads (nidx idxloop idx subidx : UInt16) (n : Nat) :
    ∀ (k : Nat) (bsize : UInt32) {b : UInt32} {c c' : Client σ},subidx.toNat+1=k+n → k+n ≤ 256 →
    readPdoEntries port cfg fuel idx n k bsize c=.ok (b,c') →
    ReadsTo port cfg fuel pdoAssign (entryHead nidx idxloop idx subidx (UInt16.ofNat k) bsize) c
      (pdoHead nidx (idxloop+1) b) c' := by
  induction n with
  | zero =>
    intro k bsize b c c' hk hmax h
    have hpast : ¬UInt16.ofNat k ≤ subidx := by
      rw [counter_le_iff (by omega)]
      omega
    cases pure_ok.mp h
    rw [entryHead,if_neg hpast]
    exact .refl _ _
  | succ n ih =>
    intro k bsize b c c' hk hmax h
    have hin : UInt16.ofNat k ≤ subidx := by
      rw [counter_le_iff (by omega)]
      omega
    obtain ⟨r,c1,hread,hrest⟩ := bind_ok.mp h
    rw [entryHead,if_pos hin]
    rw [← counter_byte] at hread
    apply ReadsTo.read rfl hread
    rw [AssignRead.next,counter_succ]
    exact ih (k+1) _ (by omega) (by omega) hrest

theorem readPdoAssignLoop_reads (nidx : UInt16) (hless : nidx<0xffff) (n : Nat) :
    ∀ (i : Nat) (bsize : UInt32) {b : UInt32} {c c' : Client σ},nidx.toNat+1=i+n →
    readPdoAssignLoop port cfg fuel pdoAssign n i bsize c=.ok (b,c') →
    ReadsTo port cfg fuel pdoAssign (pdoHead nidx (UInt16.ofNat i) bsize) c (.done b) c' := by
  induction n with
  | zero =>
    intro i bsize b c c' hi h
    have hnat := UInt16.lt_iff_toNat_lt.mp hless
    have hpast : ¬UInt16.ofNat i ≤ nidx := by
      rw [counter_le_iff (by simp at hnat; omega)]
      omega
    cases pure_ok.mp h
    rw [pdoHead,if_neg hpast]
    exact .refl _ _
  | succ n ih =>
    intro i bsize b c c' hi h
    have hin : UInt16.ofNat i ≤ nidx := by
      have hnat := nidx.toNat_lt
      rw [counter_le_iff (by omega)]
      omega
    obtain ⟨r,c1,hread,hrest⟩ := bind_ok.mp h
    rw [pdoHead,if_pos hin]
    rw [← counter_byte] at hread
    apply ReadsTo.read rfl hread
    rw [AssignRead.next]
    split_ifs at hrest ⊢ with hidx
    · obtain ⟨r2,c2,hcount,hrest⟩ := bind_ok.mp hrest
      obtain ⟨bits,c3,hentries,hrest⟩ := bind_ok.mp hrest
      have hbyte := (byteAt (overwrite [0] r2.data) 0).toNat_lt
      apply ReadsTo.read rfl hcount
      rw [AssignRead.next]
      apply (readPdoEntries_reads nidx _ _ _ _ 1 bsize
        (by rw [UInt8.toNat_toUInt16,Nat.add_comm]) (by omega) hentries).trans
      rw [counter_succ]
      exact ih (i+1) bits (by omega) hrest
    · rw [counter_succ]
      exact ih (i+1) bsize (by omega) hrest

theorem readPdoAssign_reads {bsize : UInt32} {c c' : Client σ}
    (h : readPdoAssign port cfg fuel pdoAssign c=.ok (bsize,c')) :
    ReadsTo port cfg fuel pdoAssign .count c (.done bsize) c' := by
  obtain ⟨r,c1,hread,hrest⟩ := bind_ok.mp h
  apply ReadsTo.read rfl hread
  rw [AssignRead.next]
  split_ifs at hrest ⊢ with hpos hgreatest
  · exact absurd hrest throw_ok
  · exact readPdoAssignLoop_reads _ (lt_greatest hgreatest) _ 1 0 (Nat.add_comm _ _) hrest
  · cases pure_ok.mp hrest
    exact .refl _ _

theorem readPdoAssign_endless {r : SdoRead} {c c1 : Client σ}
    (hread : sdoRead port cfg fuel pdoAssign 0 false 2 c=.ok (r,c1)) (h : CountsForever r) :
    readPdoAssign port cfg fuel pdoAssign c=.error .unfinished ∧
      (AssignRead.next .count r).Endless := by
  constructor
  · rw [readPdoAssign,run_bind hread,h.2,if_pos ⟨h.1,by decide⟩,if_pos rfl]
    rfl
  · exact endless_of_countsForever h

end Mailbox

end EtherCATMaster.Mailbox
