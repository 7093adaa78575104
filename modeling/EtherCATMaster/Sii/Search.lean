import EtherCATMaster.Sii.Cache

namespace EtherCATMaster.Sii
open EtherCATMaster.Framework

def ectSiiStart : Nat := 0x0040
def ectSiiPdo : UInt16 := 50

variable {σ : Type}

def siiReadWord (ctx : SiiContext σ) (fuel : Nat) (slave : UInt16) (a : Int16) :
    SiiM σ (UInt16 × Int16) := do
  let low ← siigetbyte ctx fuel slave a.toUInt16
  let high ← siigetbyte ctx fuel slave (a+1).toUInt16
  pure (low.toUInt16+(high.toUInt16 <<< 8),a+1+1)

/-- The loop of `ecx_siifind`: the category read last, and the cursor. -/
def siifindLoop (ctx : SiiContext σ) (fuel : Nat) (slave cat : UInt16) :
    Nat → UInt16 → Int16 → SiiM σ (UInt16 × Int16)
  | 0,_,_ => throw .unfinished
  | steps+1,p,a =>
    if p≠cat ∧ p≠0xffff then do
      let (p,a) ← siiReadWord ctx fuel slave a
      -- the sum is stored back into 16 bits
      let (p,a) ← siiReadWord ctx fuel slave (a+(p <<< 1).toInt16)
      siifindLoop ctx fuel slave cat steps p a
    else pure (p,a)

/-- `ecx_siifind` -/
def siifind (ctx : SiiContext σ) (fuel steps : Nat) (slave cat : UInt16) : SiiM σ Int16 := do
  let st ← get
  let eectl := st.eepPdi slave
  let (p,a) ← siiReadWord ctx fuel slave (Int16.ofNat (ectSiiStart <<< 1))
  let (p,a) ← siifindLoop ctx fuel slave cat steps p a
  let a := if p≠cat then 0 else a
  if eectl then
    -- if EEPROM control was previously PDI then restore
    let _ ← eeprom2pdi ctx slave
    pure a
  else pure a

/-- The word of the contents at a place, as it is read. -/
def siiWord (rom : Nat → UInt8) (n : Nat) : UInt16 :=
  (siiByte rom n).toUInt16+((siiByte rom (n+1)).toUInt16 <<< 8)

/-- The section that follows the one at `n`, by its length. -/
def nextSection (rom : Nat → UInt8) (n : Nat) : Nat := n+4+2*(siiWord rom (n+2)).toNat

/-- The sections from the start of the SII area on, up to the end mark. -/
inductive SectionAt (rom : Nat → UInt8) : Nat → Prop
  | start : SectionAt rom (ectSiiStart <<< 1)
  | next {n : Nat} : SectionAt rom n → siiWord rom n≠0xffff → SectionAt rom (nextSection rom n)

variable {rom : Nat → UInt8} {cat : UInt16}

theorem siiWord_past {n : Nat} (hn : ecMaxEepBuf ≤ n) : siiWord rom n=0xffff := by
  rw [siiWord,siiByte,siiByte,if_neg (Nat.not_lt.mpr hn),if_neg (by omega)]
  rfl

/-- The place where following the lengths ends: at a section of the category, or at the end. -/
def sectionEnd (rom : Nat → UInt8) (cat : UInt16) (n : Nat) : Nat :=
  if n<ecMaxEepBuf ∧ siiWord rom n≠cat ∧ siiWord rom n≠0xffff then
    sectionEnd rom cat (nextSection rom n)
  else n
termination_by ecMaxEepBuf-n
decreasing_by
  rw [nextSection]
  omega

/-- The places that a cursor of 16 bits comes to, from `n` to where it stops. -/
inductive CursorWalk (rom : Nat → UInt8) (cat : UInt16) : Nat → Nat → Prop
  | stop {n : Nat} : siiWord rom n=cat ∨ siiWord rom n=0xffff → CursorWalk rom cat n n
  | step {n m : Nat} : siiWord rom n≠cat → siiWord rom n≠0xffff →
      CursorWalk rom cat (nextSection rom n%2^16) m → CursorWalk rom cat n m

/-- From this place on the cursor comes to an end without a positive address. -/
def Misses (rom : Nat → UInt8) (cat : UInt16) (n : Nat) : Prop :=
  ∃ m,CursorWalk rom cat n m ∧ (siiWord rom m≠cat ∨ 2^15 ≤ m+2)

/-- The search returns, and what it returns as a positive address is the place of a section of the
category. -/
def FindsSection (ctx : SiiContext σ) (fuel : Nat) (slave cat : UInt16) (rom : Nat → UInt8)
    (st : SiiState σ) : Prop :=
  (∃ steps a st',siifind ctx fuel steps slave cat st=.ok (a,st')) ∧
    ∀ steps a st',siifind ctx fuel steps slave cat st=.ok (a,st') → 0 < a →
      ∃ n,SectionAt rom n ∧ siiWord rom n=cat ∧ a.toInt=n+2

theorem cursor_mod (k : Nat) : Int16.ofNat (k%2^16)=Int16.ofNat k := by
  rw [← UInt16.toInt16_ofNat',← UInt16.toInt16_ofNat']
  congr 1
  apply UInt16.toNat_inj.mp
  rw [UInt16.toNat_ofNat',UInt16.toNat_ofNat',Nat.mod_mod]

theorem cursor_address (k : Nat) : (Int16.ofNat k).toUInt16.toNat=k%2^16 := by
  rw [Int16.toUInt16_ofNat',UInt16.toNat_ofNat']

theorem double_length (p : UInt16) : (p <<< 1).toInt16=Int16.ofNat (2*p.toNat) := by
  have hshift : p <<< 1=UInt16.ofNat (2*p.toNat) := by
    apply UInt16.toNat_inj.mp
    rw [UInt16.toNat_shiftLeft,UInt16.toNat_ofNat',show (1 : UInt16).toNat%16=1 from rfl,
      Nat.shiftLeft_eq,Nat.mul_comm]
  rw [hshift,UInt16.toInt16_ofNat']

theorem nextSection_even (rom : Nat → UInt8) {n : Nat} (hn : n%2=0) : nextSection rom n%2=0 := by
  rw [nextSection]
  omega

theorem CursorWalk.even {n m : Nat} (h : CursorWalk rom cat n m) : n%2=0 → m%2=0 := by
  induction h with
  | stop _ => exact id
  | @step n m _ _ _ ih =>
    intro hn
    have heven := nextSection_even rom hn
    exact ih (by omega)

section Searching

variable {ctx : SiiContext σ} {fuel : Nat} {slave : UInt16} {contents : UInt16 → Nat → UInt8}
  {st : SiiState σ}

theorem siiReadWord_run (hs : Readable ctx fuel contents slave) (h : Cached contents st) {k : Nat}
    (hk : k%2^16+1<2^16) :
    ∃ st',siiReadWord ctx fuel slave (Int16.ofNat k) st=
        .ok ((siiWord (contents slave) (k%2^16),Int16.ofNat (k+2)),st') ∧ Cached contents st' := by
  obtain ⟨st1,-,hlow,h1,-⟩ := siigetbyte_reads hs h (Int16.ofNat k).toUInt16
  obtain ⟨st2,-,hhigh,h2,-⟩ := siigetbyte_reads hs h1 (Int16.ofNat (k+1)).toUInt16
  rw [cursor_address] at hlow hhigh
  have hnext : (k+1)%2^16=k%2^16+1 := by omega
  rw [hnext] at hhigh
  refine ⟨st2,?_,h2⟩
  rw [siiReadWord,run_bind hlow]
  have hmoved : Int16.ofNat k+1=Int16.ofNat (k+1) := (Int16.ofNat_add k 1).symm
  rw [hmoved,run_bind hhigh]
  refine congrArg (fun a => Except.ok ((_,a),_)) ?_
  exact (Int16.ofNat_add (k+1) 1).symm

theorem siifindLoop_step (hs : Readable ctx fuel contents slave) (h : Cached contents st) {n : Nat}
    (hn : n%2=0) (hcat : siiWord (contents slave) n≠cat)
    (hmore : siiWord (contents slave) n≠0xffff) :
    ∃ st',Cached contents st' ∧ ∀ steps,siifindLoop ctx fuel slave cat (steps+1)
        (siiWord (contents slave) n) (Int16.ofNat (n+2)) st=
      siifindLoop ctx fuel slave cat steps
        (siiWord (contents slave) (nextSection (contents slave) n%2^16))
        (Int16.ofNat (nextSection (contents slave) n%2^16+2)) st' := by
  have hlt : n<ecMaxEepBuf := by
    by_contra hpast
    exact hmore (siiWord_past (Nat.not_lt.mp hpast))
  have hbuf : ecMaxEepBuf=4096 := rfl
  have heven := nextSection_even (contents slave) hn
  obtain ⟨st1,hlength,h1⟩ := siiReadWord_run hs h (show (n+2)%2^16+1<2^16 by omega)
  obtain ⟨st2,hcategory,h2⟩ := siiReadWord_run hs h1
    (show nextSection (contents slave) n%2^16+1<2^16 by omega)
  rw [Nat.mod_eq_of_lt (show n+2<2^16 by omega)] at hlength
  have hjump : Int16.ofNat (n+2+2)+(siiWord (contents slave) (n+2) <<< 1).toInt16=
      Int16.ofNat (nextSection (contents slave) n) := by
    rw [double_length,← Int16.ofNat_add]
    rfl
  have hplace : Int16.ofNat (nextSection (contents slave) n+2)=
      Int16.ofNat (nextSection (contents slave) n%2^16+2) := by
    rw [Int16.ofNat_add,Int16.ofNat_add,cursor_mod]
  refine ⟨st2,h2,fun steps => ?_⟩
  rw [siifindLoop,if_pos ⟨hcat,hmore⟩,run_bind hlength]
  dsimp only
  rw [hjump,run_bind hcategory,hplace]

theorem siifindLoop_walks (hs : Readable ctx fuel contents slave) {n m : Nat}
    (hwalk : CursorWalk (contents slave) cat n m) :
    ∀ {st : SiiState σ},Cached contents st → n%2=0 → ∃ steps st',
      siifindLoop ctx fuel slave cat steps (siiWord (contents slave) n) (Int16.ofNat (n+2)) st=
        .ok ((siiWord (contents slave) m,Int16.ofNat (m+2)),st') ∧ Cached contents st' := by
  induction hwalk with
  | @stop n hend =>
    intro st h _
    refine ⟨1,st,?_,h⟩
    have hnot : ¬(siiWord (contents slave) n≠cat ∧ siiWord (contents slave) n≠0xffff) := by
      rintro ⟨hcat,hmore⟩
      exact hend.elim hcat hmore
    rw [siifindLoop,if_neg hnot]
    rfl
  | @step n m hcat hmore _ ih =>
    intro st h hn
    obtain ⟨st1,h1,hstep⟩ := siifindLoop_step hs h hn hcat hmore
    have heven := nextSection_even (contents slave) hn
    obtain ⟨steps,st',hrun,h'⟩ := ih h1 (by omega)
    exact ⟨steps+1,st',(hstep steps).trans hrun,h'⟩

theorem siifindLoop_walked (hs : Readable ctx fuel contents slave) (steps : Nat) :
    ∀ {n : Nat} {st st' : SiiState σ} {r : UInt16 × Int16},Cached contents st → n%2=0 →
      siifindLoop ctx fuel slave cat steps (siiWord (contents slave) n) (Int16.ofNat (n+2)) st=
        .ok (r,st') →
      ∃ m,CursorWalk (contents slave) cat n m ∧
        r=(siiWord (contents slave) m,Int16.ofNat (m+2)) := by
  induction steps with
  | zero =>
    intro n st st' r _ _ hrun
    exact absurd hrun throw_ok
  | succ steps ih =>
    intro n st st' r h hn hrun
    by_cases hgo : siiWord (contents slave) n≠cat ∧ siiWord (contents slave) n≠0xffff
    · obtain ⟨st1,h1,hstep⟩ := siifindLoop_step hs h hn hgo.1 hgo.2
      rw [hstep] at hrun
      have heven := nextSection_even (contents slave) hn
      obtain ⟨m,hwalk,hr⟩ := ih h1 (by omega) hrun
      exact ⟨m,.step hgo.1 hgo.2 hwalk,hr⟩
    · rw [siifindLoop,if_neg hgo] at hrun
      cases pure_ok.mp hrun
      refine ⟨n,.stop ?_,rfl⟩
      by_contra hnone
      exact hgo ⟨fun hcat => hnone (.inl hcat),fun hend => hnone (.inr hend)⟩

/-- The address that the search returns where it stops at `m`. -/
def foundAddress (rom : Nat → UInt8) (cat : UInt16) (m : Nat) : Int16 :=
  if siiWord rom m≠cat then 0 else Int16.ofNat (m+2)

theorem siifind_start (hs : Readable ctx fuel contents slave) (h : Cached contents st) :
    ∃ st1,Cached contents st1 ∧ ∀ steps cat,siifind ctx fuel steps slave cat st=(do
      let (p,a) ← siifindLoop ctx fuel slave cat steps
        (siiWord (contents slave) (ectSiiStart <<< 1)) (Int16.ofNat ((ectSiiStart <<< 1)+2))
      let a := if p≠cat then 0 else a
      if st.eepPdi slave then
        let _ ← eeprom2pdi ctx slave
        pure a
      else pure a : SiiM σ Int16) st1 := by
  obtain ⟨st1,hfirst,h1⟩ := siiReadWord_run hs h
    (show (ectSiiStart <<< 1)%2^16+1<2^16 by decide)
  refine ⟨st1,h1,fun steps cat => ?_⟩
  rw [siifind,run_bind (siiState_run st),run_bind hfirst]
  rfl

theorem siifind_walks (hs : Readable ctx fuel contents slave) (h : Cached contents st) {m : Nat}
    (hwalk : CursorWalk (contents slave) cat (ectSiiStart <<< 1) m) :
    ∃ steps st',siifind ctx fuel steps slave cat st=
      .ok (foundAddress (contents slave) cat m,st') ∧ Cached contents st' := by
  obtain ⟨st1,h1,hstart⟩ := siifind_start hs h
  obtain ⟨steps,st2,hloop,h2⟩ := siifindLoop_walks hs hwalk h1 (by decide)
  obtain ⟨pdi,t,hend⟩ := eeprom2pdi_end ctx slave (st.eepPdi slave)
    (foundAddress (contents slave) cat m) st2
  refine ⟨steps,_,?_,show Cached contents { st2 with eepPdi := pdi,env := t } from h2⟩
  rw [hstart,run_bind hloop]
  exact hend

theorem siifind_walked (hs : Readable ctx fuel contents slave) (h : Cached contents st)
    {steps : Nat} {a : Int16} {st' : SiiState σ}
    (hrun : siifind ctx fuel steps slave cat st=.ok (a,st')) :
    ∃ m,CursorWalk (contents slave) cat (ectSiiStart <<< 1) m ∧
      a=foundAddress (contents slave) cat m := by
  obtain ⟨st1,h1,hstart⟩ := siifind_start hs h
  rw [hstart] at hrun
  obtain ⟨r,st2,hloop,hrun⟩ := bind_ok.mp hrun
  obtain ⟨m,hwalk,rfl⟩ := siifindLoop_walked hs steps h1 (by decide) hloop
  obtain ⟨pdi,t,hend⟩ := eeprom2pdi_end ctx slave (st.eepPdi slave)
    (foundAddress (contents slave) cat m) st2
  have hpair : Except.ok (a,st')=Except.ok (foundAddress (contents slave) cat m,_) :=
    hrun.symm.trans hend
  injection hpair with hpair
  exact ⟨m,hwalk,congrArg Prod.fst hpair⟩

end Searching

theorem CursorWalk.lt {n m : Nat} (h : CursorWalk rom cat n m) : n<2^16 → m<2^16 := by
  induction h with
  | stop _ => exact id
  | step _ _ _ ih => exact fun _ => ih (Nat.mod_lt _ (by decide))

theorem CursorWalk.unique {n m m' : Nat} (h : CursorWalk rom cat n m) :
    CursorWalk rom cat n m' → m=m' := by
  induction h with
  | @stop n hend =>
    intro h'
    cases h' with
    | stop _ => rfl
    | step hcat hmore _ => exact absurd hend (fun h => h.elim hcat hmore)
  | @step n m hcat hmore _ ih =>
    intro h'
    cases h' with
    | stop hend => exact absurd hend (fun h => h.elim hcat hmore)
    | step _ _ hrest => exact ih hrest

theorem address_pos {m : Nat} (hm : m%2=0) (hlt : m<2^16) :
    0<Int16.ofNat (m+2) ↔ m+2<2^15 := by
  have hmod : ((m+2 : Nat) : Int).bmod (2^16)=(Int16.ofNat (m+2)).toInt := by
    rw [Int16.toInt_ofNat']
    rfl
  rw [Int16.lt_iff_toInt_lt,← hmod,Int16.toInt_zero,Int.bmod_def]
  split_ifs <;> omega

theorem address_toInt {m : Nat} (hlt : m+2<2^15) : (Int16.ofNat (m+2)).toInt=m+2 :=
  Int16.toInt_ofNat_of_lt hlt

theorem sectionEnd_stops (rom : Nat → UInt8) (cat : UInt16) (n : Nat) :
    siiWord rom (sectionEnd rom cat n)=cat ∨ siiWord rom (sectionEnd rom cat n)=0xffff := by
  induction n using sectionEnd.induct rom cat with
  | case1 n hgo ih =>
    rw [sectionEnd,if_pos hgo]
    exact ih
  | case2 n hstop =>
    rw [sectionEnd,if_neg hstop]
    by_cases hlt : n<ecMaxEepBuf
    · by_contra hnone
      exact hstop ⟨hlt,fun hcat => hnone (.inl hcat),fun hend => hnone (.inr hend)⟩
    · exact .inr (siiWord_past (Nat.not_lt.mp hlt))

/-- The cursor follows the lengths as long as they do not lead past 64 KiB. There it goes on at the
place that its 16 bits give. -/
theorem cursorWalk_sectionEnd (rom : Nat → UInt8) (cat : UInt16) (n : Nat) : n<2^16 →
    (sectionEnd rom cat n<2^16 → CursorWalk rom cat n (sectionEnd rom cat n)) ∧
    (2^16 ≤ sectionEnd rom cat n → ∀ m,
      CursorWalk rom cat n m ↔ CursorWalk rom cat (sectionEnd rom cat n%2^16) m) := by
  induction n using sectionEnd.induct rom cat with
  | case1 n hgo ih =>
    obtain ⟨hlt,hcat,hmore⟩ := hgo
    intro _
    rw [sectionEnd,if_pos ⟨hlt,hcat,hmore⟩]
    have hstep : ∀ m,CursorWalk rom cat n m ↔ CursorWalk rom cat (nextSection rom n%2^16) m := by
      intro m
      constructor
      · intro h
        cases h with
        | stop hstop => exact absurd hstop (fun h => h.elim hcat hmore)
        | step _ _ hrest => exact hrest
      · exact .step hcat hmore
    by_cases hfits : nextSection rom n<2^16
    · rw [Nat.mod_eq_of_lt hfits] at hstep
      obtain ⟨hwithin,hpast⟩ := ih hfits
      exact ⟨fun h => (hstep _).mpr (hwithin h),fun h m => (hstep m).trans (hpast h m)⟩
    · have hbuf : ecMaxEepBuf=4096 := rfl
      have hend : sectionEnd rom cat (nextSection rom n)=nextSection rom n := by
        rw [sectionEnd,if_neg (fun h => absurd h.1 (by omega))]
      rw [hend]
      exact ⟨fun h => absurd h hfits,fun _ => hstep⟩
  | case2 n hstop =>
    intro hlt
    have hends := sectionEnd_stops rom cat n
    rw [sectionEnd,if_neg hstop] at hends ⊢
    exact ⟨fun _ => .stop hends,fun h => absurd hlt (Nat.not_lt.mpr h)⟩

theorem SectionAt.toEnd (cat : UInt16) {n : Nat} (h : SectionAt rom n) :
    sectionEnd rom cat n=sectionEnd rom cat (ectSiiStart <<< 1) ∨
      sectionEnd rom cat (ectSiiStart <<< 1) ≤ n := by
  induction h with
  | start => exact .inl rfl
  | @next n _ _ ih =>
    have hle : n ≤ nextSection rom n := by
      rw [nextSection]
      omega
    obtain heq|hpast := ih
    · by_cases hgo : n<ecMaxEepBuf ∧ siiWord rom n≠cat ∧ siiWord rom n≠0xffff
      · rw [sectionEnd,if_pos hgo] at heq
        exact .inl heq
      · rw [sectionEnd,if_neg hgo] at heq
        exact .inr (heq ▸ hle)
    · exact .inr (hpast.trans hle)

theorem SectionAt.end_mem {n : Nat} : SectionAt rom n → SectionAt rom (sectionEnd rom cat n) := by
  induction n using sectionEnd.induct rom cat with
  | case1 n hgo ih =>
    intro h
    rw [sectionEnd,if_pos hgo]
    exact ih (h.next hgo.2.2)
  | case2 n hstop =>
    intro h
    rw [sectionEnd,if_neg hstop]
    exact h

section Found

variable {ctx : SiiContext σ} {fuel : Nat} {slave : UInt16} {contents : UInt16 → Nat → UInt8}
  {st : SiiState σ}

/-- The search ends rightly exactly if the lengths lead to a place below 64 KiB, or the cursor goes
on from the place that its 16 bits give without finding anything. -/
theorem siifind_iff (hs : Readable ctx fuel contents slave) (h : Cached contents st) :
    FindsSection ctx fuel slave cat (contents slave) st ↔
      sectionEnd (contents slave) cat (ectSiiStart <<< 1)<2^16 ∨
        Misses (contents slave) cat (sectionEnd (contents slave) cat (ectSiiStart <<< 1)%2^16) := by
  have hstart : ectSiiStart <<< 1<2^16 := by decide
  obtain ⟨hwithin,hpast⟩ := cursorWalk_sectionEnd (contents slave) cat _ hstart
  constructor
  · rintro ⟨⟨steps,a,st',hrun⟩,hplace⟩
    by_cases hlt : sectionEnd (contents slave) cat (ectSiiStart <<< 1)<2^16
    · exact .inl hlt
    · have hge := Nat.not_lt.mp hlt
      obtain ⟨m,hwalk,ha⟩ := siifind_walked hs h hrun
      refine .inr ⟨m,(hpast hge m).mp hwalk,?_⟩
      by_contra hfound
      have hcat : siiWord (contents slave) m=cat := by
        by_contra hne
        exact hfound (.inl hne)
      have hsmall : m+2<2^15 := Nat.not_le.mp fun hle => hfound (.inr hle)
      rw [foundAddress,if_neg (not_not_intro hcat)] at ha
      subst ha
      obtain ⟨n,hsection,hn,haddress⟩ := hplace _ _ _ hrun
        ((address_pos (hwalk.even (by decide)) (by omega)).mpr hsmall)
      have hnm : n=m := by
        rw [address_toInt hsmall] at haddress
        omega
      subst hnm
      -- the place would be a section before the one where the lengths lead past 64 KiB
      obtain heq|hle := hsection.toEnd cat
      · rw [sectionEnd,if_neg (fun hgo => hgo.2.1 hcat)] at heq
        omega
      · omega
  · intro hcond
    obtain ⟨m,hwalk,hright⟩ : ∃ m,CursorWalk (contents slave) cat (ectSiiStart <<< 1) m ∧
        (SectionAt (contents slave) m ∨ siiWord (contents slave) m≠cat ∨ 2^15 ≤ m+2) := by
      obtain hlt|⟨m,hwalk,hmiss⟩ := hcond
      · exact ⟨_,hwithin hlt,.inl (SectionAt.start.end_mem)⟩
      · by_cases hlt : sectionEnd (contents slave) cat (ectSiiStart <<< 1)<2^16
        · exact ⟨_,hwithin hlt,.inl (SectionAt.start.end_mem)⟩
        · exact ⟨m,(hpast (Nat.not_lt.mp hlt) m).mpr hwalk,.inr hmiss⟩
    obtain ⟨steps,st',hrun,-⟩ := siifind_walks hs h hwalk
    refine ⟨⟨steps,_,st',hrun⟩,?_⟩
    intro steps' a st2 hrun' hpos
    obtain ⟨m',hwalk',rfl⟩ := siifind_walked hs h hrun'
    cases hwalk.unique hwalk'
    rw [foundAddress] at hpos ⊢
    by_cases hcat : siiWord (contents slave) m≠cat
    · rw [if_pos hcat] at hpos
      exact absurd hpos (by decide)
    · rw [if_neg hcat] at hpos ⊢
      have hsmall := (address_pos (hwalk.even (by decide)) (hwalk.lt hstart)).mp hpos
      obtain hsection|hne|hle := hright
      · exact ⟨m,hsection,not_not.mp hcat,address_toInt hsmall⟩
      · exact absurd hne hcat
      · omega

end Found

/-- Contents that begin with these bytes at the start of the SII area, and are erased elsewhere. -/
def areaContents (area : List UInt8) (_ : UInt16) (a : Nat) : UInt8 :=
  if a<ectSiiStart <<< 1 then 0 else area.getD (a-(ectSiiStart <<< 1)) 0xff

/-- A section of one word, then one of the category that is searched. -/
theorem second_section_found :
    FindsSection (lineContext (areaContents [10,0,1,0,7,7,50,0,0,0]) fun _ => false) 1 1 50
      (areaContents [10,0,1,0,7,7,50,0,0,0] 1) (SiiState.start 0) := by
  refine (siifind_iff (lineContext_readable _ _ 0 1) (start_cached _ _)).mpr (.inl ?_)
  rw [sectionEnd,if_pos (by decide),sectionEnd,if_neg (by decide)]
  decide

/-- A section of 65534 words: the cursor comes back to it and never leaves it. -/
theorem long_section_endless :
    ¬FindsSection (lineContext (areaContents [10,0,0xfe,0xff]) fun _ => false) 1 1 50
      (areaContents [10,0,0xfe,0xff] 1) (SiiState.start 0) := by
  rintro ⟨⟨steps,a,st',hrun⟩,-⟩
  obtain ⟨m,hwalk,-⟩ := siifind_walked (lineContext_readable _ _ 0 1) (start_cached _ _) hrun
  have hturn : nextSection (areaContents [10,0,0xfe,0xff] 1) 128%2^16=128 := by decide
  have hnone : ∀ {n m : Nat},CursorWalk (areaContents [10,0,0xfe,0xff] 1) 50 n m →
      n=128 → False := by
    intro n m h
    induction h with
    | stop hend =>
      rintro rfl
      revert hend
      decide
    | step _ _ _ ih =>
      rintro rfl
      exact ih hturn
  exact hnone hwalk rfl

end EtherCATMaster.Sii
