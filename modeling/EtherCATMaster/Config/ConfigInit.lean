import EtherCATMaster.Config.ScanRun

namespace EtherCATMaster.Config

open EtherCATMaster.Framework EtherCATMaster.Sii
open EtherCATMaster.Dll (ecStateInit ecStateAck)

def scannedSlave (g0 : Segment) (place : Nat) : ConfiguredSlave where
  configadr := UInt16.ofNat place+ecNodeoffset
  aliasadr := (g0.stations (lastHolder g0 place)).word ectRegAlias
  eep8byte := (g0.stations (lastHolder g0 place)).eep8byte
  eepMan := 0
  eepId := 0
  eepRev := 0

/-- How far the first loop is. -/
structure Scanning (g0 : Segment) (i : Nat) (r : ScanLocals) (st : SiiState Segment) : Prop where
  numbered : Numbered g0 i st.env
  flags : ∀ slave,st.eepPdi slave=false
  loaded : ∀ p,1 ≤ p → p ≤ i → Loaded (st.env.stations p) ectSiiManuf
  entered : ∀ p,1 ≤ p → p ≤ i → r.1 (UInt16.ofNat p)=scannedSlave g0 p
  empty : ∀ p,i<p → p ≤ g0.connected → r.1 (UInt16.ofNat p)=⟨0,0,false,0,0,0⟩

/-- How far a loop is that enters one number of each slave and asks for the next. -/
structure Identifying (g0 : Segment) (enter : UInt32 → ConfiguredSlave → ConfiguredSlave)
    (eeproma next : UInt16) (slavelist0 : UInt16 → ConfiguredSlave) (i : Nat)
    (slavelist : UInt16 → ConfiguredSlave) (st : SiiState Segment) : Prop where
  numbered : Numbered g0 g0.connected st.env
  flags : ∀ slave,st.eepPdi slave=false
  done : ∀ p,1 ≤ p → p ≤ i → Loaded (st.env.stations p) next ∧
    slavelist (UInt16.ofNat p)=enter ((g0.stations p).sii eeproma) (slavelist0 (UInt16.ofNat p))
  todo : ∀ p,i<p → p ≤ g0.connected → Loaded (st.env.stations p) eeproma ∧
    slavelist (UInt16.ofNat p)=slavelist0 (UInt16.ofNat p)

variable {g0 : Segment} (fuel : Nat) {st : SiiState Segment} {i : Nat}

/-- One round of the first loop. -/
theorem Scanning.step (hn : g0.connected+ecNodeoffset.toNat<0xfffe) (hi : i<g0.connected)
    {r : ScanLocals} (h : Scanning g0 i r st) :
    ∃ r' st',addressSlave segmentPort (fuel+1) (UInt16.ofNat (i+1)) r st=.ok (r',st') ∧
      Scanning g0 (i+1) r' st' := by
  have hoffset : ecNodeoffset.toNat=0x1000 := rfl
  have hk : (UInt16.ofNat (i+1)).toNat=i+1 := UInt16.toNat_ofNat_of_lt' (by
    change i+1<2^16
    omega)
  have hconnected := h.numbered.kept.connected
  have hpos : 0 < (UInt16.ofNat (i+1)).toNat := by omega
  have hin : (UInt16.ofNat (i+1)).toNat ≤ st.env.connected := by omega
  have hc : st.env.connected<2^16 := by omega
  have hf := h.numbered.kept.fares
  -- the line once the slave has its address
  have hnext := h.numbered.next hi hk
  obtain ⟨haddressed,hresponds⟩ := hnext.responds hi hn
  have hlast := hnext.kept.alike (lastHolder g0 (i+1))
  have hstadr := hnext.low (i+1) (by omega) (Nat.le_refl _)
  let s1 := (st.env.stations (i+1)).write ectRegStadr (le16 (UInt16.ofNat (i+1)+ecNodeoffset))
  let st1 : SiiState Segment := { st with env := st.env.put (i+1) s1 }
  let st2 : SiiState Segment := { st with env := st.env.giveAddress (UInt16.ofNat (i+1)) }
  obtain ⟨w,hitype⟩ := aprdw_run st hf (1-UInt16.ofNat (i+1)) ectRegPdictl
  have haddress := apwrw_run st hf hc hpos hin ectRegStadr (UInt16.ofNat (i+1)+ecNodeoffset)
  have hcontrol := apwrw_run st1 hf hc hpos hin ectRegDlctl (if UInt16.ofNat (i+1)=1 then 1 else 0)
  have hread := aprdw_stadr st2 hf hc hpos hin
  have halias := fprdInto_run st2 hresponds ectRegAlias r.2.1
  have hestat := fprdInto_run st2 hresponds ectRegEepstat r.2.2
  rw [hk] at haddress hcontrol hread
  rw [show (st2.env.stations (i+1)).stadr=_ from hstadr] at hread
  rw [read_word _ (by decide),show (st2.env.stations (lastHolder g0 (i+1))).word ectRegAlias=_ from
    hlast.aliasadr] at halias
  have hwide : (st2.env.stations (lastHolder g0 (i+1))).eep8byte=
      (g0.stations (lastHolder g0 (i+1))).eep8byte := congrArg Prod.snd hlast.fixed
  have hstat : get16 ((st2.env.stations (lastHolder g0 (i+1))).read ectRegEepstat 2) 0=
      (g0.stations (lastHolder g0 (i+1))).eepstat := by
    rw [Station.read,if_pos rfl,Station.eepstat,hwide]
    exact get16_le16 [] _ []
  rw [hstat] at hestat
  have hempty := h.empty (i+1) (by omega) (by omega)
  have hentry : (if (g0.stations (lastHolder g0 (i+1))).eepstat &&& ecEstatR64≠0 then true
      else (r.1 (UInt16.ofNat (i+1))).eep8byte)=(scannedSlave g0 (i+1)).eep8byte := by
    rw [hempty,Station.eepstat,scannedSlave]
    cases (g0.stations (lastHolder g0 (i+1))).eep8byte <;> rfl
  obtain ⟨slavelist,hslavelist⟩ : ∃ slavelist,
      slavelist=Function.update r.1 (UInt16.ofNat (i+1)) (scannedSlave g0 (i+1)) := ⟨_,rfl⟩
  have hown : slavelist (UInt16.ofNat (i+1))=scannedSlave g0 (i+1) := by
    rw [hslavelist,Function.update_self]
  have hadr : (slavelist (UInt16.ofNat (i+1))).configadr=UInt16.ofNat (i+1)+ecNodeoffset := by
    rw [hown]
    rfl
  have hcommand := readeeprom1_run st2 slavelist fuel hresponds (h.flags _) hadr ectSiiManuf
  let line := st2.env.write .station (UInt16.ofNat (i+1)+ecNodeoffset) ectRegEepctl
    (readCommand ectSiiManuf)
  have hrun : addressSlave segmentPort (fuel+1) (UInt16.ofNat (i+1)) r st=
      .ok ((slavelist,((g0.stations (lastHolder g0 (i+1))).word ectRegAlias,
        (g0.stations (lastHolder g0 (i+1))).eepstat)),{ st2 with env := line }) := by
    have hlist : Function.update r.1 (UInt16.ofNat (i+1)) { r.1 (UInt16.ofNat (i+1)) with
        configadr := UInt16.ofNat (i+1)+ecNodeoffset
        aliasadr := (g0.stations (lastHolder g0 (i+1))).word ectRegAlias
        eep8byte := (scannedSlave g0 (i+1)).eep8byte }=slavelist := by
      rw [hempty,hslavelist]
      rfl
    have hst2 : st1.env.put (i+1) ((st1.env.stations (i+1)).write ectRegDlctl
        (le16 (if UInt16.ofNat (i+1)=1 then 1 else 0)))=st2.env := by
      change (st.env.put (i+1) s1).put (i+1) (((st.env.put (i+1) s1).stations (i+1)).write _ _)=
        st.env.giveAddress _
      rw [put_put,put_station,Segment.giveAddress,hk]
    rw [hst2] at hcontrol
    rw [addressSlave,run_bind hitype,run_bind haddress,run_bind hcontrol,run_bind hread,
      run_bind halias,run_bind hestat]
    dsimp only
    rw [hentry,hlist,run_bind hcommand]
    rfl
  have hconnected2 : (st.env.giveAddress (UInt16.ofNat (i+1))).connected=g0.connected :=
    hnext.kept.connected
  have hplace : i+1 ∈ (st.env.giveAddress (UInt16.ofNat (i+1))).addressed .station (UInt16.ofNat (i+1)+ecNodeoffset) :=
    mem_addressed.mpr ⟨⟨by omega,by omega⟩,hstadr⟩
  refine ⟨_,_,hrun,hnext.command _ _,h.flags,fun p hp hle => ?_,fun p hp hle => ?_,fun p hp hle => ?_⟩
  · change Loaded (((st.env.giveAddress _).write _ _ _ _).stations p) _
    rw [write_station]
    by_cases heq : p=i+1
    · subst heq
      rw [if_pos hplace]
      exact command_loaded (hnext.ours (i+1) (by omega) (by omega)) _
    · have hother : p ∉ (st.env.giveAddress (UInt16.ofNat (i+1))).addressed .station
          (UInt16.ofNat (i+1)+ecNodeoffset) := by
        intro hin
        have hsel : ((st.env.giveAddress (UInt16.ofNat (i+1))).stations p).stadr=_ :=
          (mem_addressed.mp hin).2
        rw [hnext.low p hp hle,offset_inj (by omega) (by omega)] at hsel
        exact heq hsel
      have hsame : (st.env.giveAddress (UInt16.ofNat (i+1))).stations p=st.env.stations p := by
        rw [Segment.giveAddress,hk,put_other heq]
      rw [if_neg hother,hsame]
      exact h.loaded p hp (by omega)
  · by_cases heq : p=i+1
    · rw [heq]
      exact hown
    · change slavelist (UInt16.ofNat p)=_
      rw [hslavelist,Function.update_of_ne (fun hsame => heq ((ofNat_inj (by omega) (by omega)).mp hsame))]
      exact h.entered p hp (by omega)
  · change slavelist (UInt16.ofNat p)=_
    rw [hslavelist,Function.update_of_ne
      (fun hsame => absurd ((ofNat_inj (by omega) (by omega)).mp hsame) (by omega))]
    exact h.empty p (by omega) hle

/-- One round of a loop that enters a number. -/
theorem Identifying.step (hn : g0.connected+ecNodeoffset.toNat<0xfffe) (hi : i<g0.connected)
    {enter : UInt32 → ConfiguredSlave → ConfiguredSlave}
    (henter : ∀ v c,(enter v c).configadr=c.configadr) {eeproma next : UInt16}
    {slavelist0 slavelist : UInt16 → ConfiguredSlave}
    (hlist : ∀ p,1 ≤ p → p ≤ g0.connected →
      (slavelist0 (UInt16.ofNat p)).configadr=UInt16.ofNat p+ecNodeoffset)
    (h : Identifying g0 enter eeproma next slavelist0 i slavelist st) :
    ∃ slavelist' st',identifySlave segmentPort (fuel+1) enter next (UInt16.ofNat (i+1)) slavelist st=
        .ok (slavelist',st') ∧
      Identifying g0 enter eeproma next slavelist0 (i+1) slavelist' st' := by
  have hoffset : ecNodeoffset.toNat=0x1000 := rfl
  have hconnected := h.numbered.kept.connected
  obtain ⟨hloaded,hentry⟩ := h.todo (i+1) (by omega) (by omega)
  have hadr := hlist (i+1) (by omega) (by omega)
  have haddressed := h.numbered.alone hn (show 1 ≤ i+1 by omega) (by omega)
  have hresponds : Responds st.env (UInt16.ofNat (i+1)+ecNodeoffset) (i+1) :=
    ⟨h.numbered.kept.fares,by rw [haddressed]; rfl⟩
  have hread := readeeprom2_run st slavelist fuel hresponds
    (by rw [hentry]; exact hadr)
  have halike := h.numbered.kept.alike (i+1)
  have hvalue : UInt32.ofNat (leValue ((st.env.stations (i+1)).read ectRegEepdat 4))=
      (g0.stations (i+1)).sii eeproma := by
    rw [show (st.env.stations (i+1)).read ectRegEepdat 4=_ from hloaded,← halike.sii]
    rfl
  rw [hvalue] at hread
  obtain ⟨slavelist',hslavelist⟩ : ∃ slavelist',slavelist'=Function.update slavelist
      (UInt16.ofNat (i+1))
      (enter ((g0.stations (i+1)).sii eeproma) (slavelist0 (UInt16.ofNat (i+1)))) := ⟨_,rfl⟩
  have hown : slavelist' (UInt16.ofNat (i+1))=
      enter ((g0.stations (i+1)).sii eeproma) (slavelist0 (UInt16.ofNat (i+1))) := by
    rw [hslavelist,Function.update_self]
  let line := st.env.write .station (UInt16.ofNat (i+1)+ecNodeoffset) ectRegEepctl (readCommand next)
  have hcommand := readeeprom1_run st slavelist' fuel hresponds (h.flags _)
    (by rw [hown,henter]; exact hadr) next
  have hstation : ∀ p,((st.env.write .station (UInt16.ofNat (i+1)+ecNodeoffset) ectRegEepctl
      (readCommand next)).stations p)=
        if p=i+1 then (st.env.stations p).write ectRegEepctl (readCommand next)
        else st.env.stations p := by
    intro p
    rw [write_station,haddressed]
    simp only [List.mem_singleton]
  have hothers : ∀ p,p≠i+1 → p ≤ g0.connected →
      slavelist' (UInt16.ofNat p)=slavelist (UInt16.ofNat p) := by
    intro p hne hle
    rw [hslavelist]
    exact Function.update_of_ne (fun hsame => hne ((ofNat_inj (by omega) (by omega)).mp hsame)) _ _
  have hrun : identifySlave segmentPort (fuel+1) enter next (UInt16.ofNat (i+1)) slavelist st=
      .ok (slavelist',{ st with env := line }) := by
    rw [identifySlave,run_bind hread,hentry,← hslavelist]
    exact run_bind hcommand
  refine ⟨slavelist',_,hrun,h.numbered.command _ _,h.flags,fun p hp hle => ?_,fun p hp hle => ?_⟩
  · rw [hstation]
    by_cases heq : p=i+1
    · subst heq
      rw [if_pos rfl]
      exact ⟨command_loaded (h.numbered.ours _ hp (by omega)) _,hown⟩
    · rw [if_neg heq,hothers p heq (by omega)]
      exact h.done p hp (by omega)
  · rw [hstation,if_neg (by omega),hothers p (by omega) hle]
    exact h.todo p (by omega) hle

section Start

/-- The addresses are as they were. -/
structure Unnumbered (g0 g : Segment) : Prop where
  kept : Kept g0 g
  stadr : ∀ p,(g.stations p).stadr=(g0.stations p).stadr

theorem broadcast_run {g : Segment} (hf : g.fares=[]) (ado : UInt16) (data : List UInt8) :
    ∃ wkc,segmentPort.broadcast ado data g=.ok (wkc,g.write .broadcast 0 ado data) :=
  ⟨_,congrArg Except.ok (callWrite_answered hf)⟩

theorem Unnumbered.write {g : Segment} {ado : UInt16} (data : List UInt8) (h : Unnumbered g0 g)
    (hado : ectRegAlias.toNat+2 ≤ ado.toNat) :
    Unnumbered g0 (g.write .broadcast 0 ado data) := by
  have hreg : ectRegAlias.toNat=ectRegStadr.toNat+2 := rfl
  exact ⟨h.kept.write fun s => write_alike s data hado,
    fun p => (stadr_kept (by omega)).trans (h.stadr p)⟩

theorem writeAll_run (writes : List (UInt16 × List UInt8))
    (hall : ∀ w ∈ writes,ectRegAlias.toNat+2 ≤ w.1.toNat) {g : Segment} (h : Unnumbered g0 g) :
    ∃ g',writeAll segmentPort writes g=.ok ((),g') ∧ Unnumbered g0 g' ∧
      ∀ front w,writes=front++[w] → ∃ g1,Unnumbered g0 g1 ∧ g'=g1.write .broadcast 0 w.1 w.2 := by
  induction writes generalizing g with
  | nil => exact ⟨g,rfl,h,fun front w hlast => absurd hlast (by simp)⟩
  | cons w rest ih =>
    obtain ⟨ado,data⟩ := w
    have hado : ectRegAlias.toNat+2 ≤ ado.toNat := hall _ List.mem_cons_self
    obtain ⟨wkc,hfirst⟩ := broadcast_run h.kept.fares ado data
    obtain ⟨g',hrest,h',hlast⟩ := ih (fun w hw => hall w (List.mem_cons_of_mem _ hw))
      (h.write data hado)
    refine ⟨g',?_,h',fun front w hsplit => ?_⟩
    · rw [writeAll,run_bind hfirst]
      exact hrest
    · cases front with
      | nil =>
        obtain ⟨rfl,rfl⟩ := List.cons.inj hsplit
        cases hrest
        exact ⟨g,h,rfl⟩
      | cons x front => exact hlast front w (List.cons.inj hsplit).2

theorem addressed_broadcast (g : Segment) (adp : UInt16) :
    (g.addressed .broadcast adp).length=g.connected := by
  have hall : g.addressed .broadcast adp=List.range' 1 g.connected :=
    List.filter_eq_self.mpr fun _ _ => rfl
  rw [hall,List.length_range']

theorem detectSlaves_run {ecMaxslave : Nat} (h : Unnumbered g0 st.env) (hpos : 0 < g0.connected)
    (hmax : g0.connected<ecMaxslave) : ∃ g',onPort (detectSlaves segmentPort ecMaxslave) st=
      .ok ((g0.connected,g0.connected),{ st with env := g' }) ∧ Unnumbered g0 g' := by
  have hado : ectRegAlias.toNat+2 ≤ ectRegDlalias.toNat ∧
      ectRegAlias.toNat+2 ≤ ectRegAlctl.toNat := by decide
  obtain ⟨_,hfirst⟩ := broadcast_run h.kept.fares ectRegDlalias [0]
  have h1 := h.write [0] hado.1
  obtain ⟨_,hsecond⟩ := broadcast_run h1.kept.fares ectRegAlctl (le16 (ecStateInit ||| ecStateAck))
  have h2 := h1.write (le16 (ecStateInit ||| ecStateAck)) hado.2
  obtain ⟨_,hthird⟩ := broadcast_run h2.kept.fares ectRegAlctl (le16 (ecStateInit ||| ecStateAck))
  have h3 := h2.write (le16 (ecStateInit ||| ecStateAck)) hado.2
  generalize (((st.env.write .broadcast 0 ectRegDlalias [0]).write .broadcast 0 ectRegAlctl
    (le16 (ecStateInit ||| ecStateAck))).write .broadcast 0 ectRegAlctl
      (le16 (ecStateInit ||| ecStateAck)))=g3 at *
  refine ⟨g3,onPort_run st ?_,h3⟩
  have hcount : (fun g => .ok (segmentPort.brd ectRegType 2 g) :
      Program SiiHalt Segment (Int × List UInt8)) g3=
        .ok (((g0.connected : Int),g3.read .broadcast 0 ectRegType 2),g3) := by
    have hcall : segmentPort.brd ectRegType 2 g3=_ := callRead_answered h3.kept.fares
    change Except.ok (segmentPort.brd ectRegType 2 g3)=_
    rw [hcall,addressed_broadcast,h3.kept.connected]
  rw [detectSlaves,run_bind hfirst,run_bind hsecond,run_bind hthird,run_bind hcount]
  dsimp only
  rw [if_pos (by omega),if_pos (by omega)]
  rfl

theorem setSlavesToDefault_run (h : Unnumbered g0 st.env) : ∃ g',
    onPort (setSlavesToDefault segmentPort) st=.ok ((),{ st with env := g' }) ∧
      Numbered g0 0 g' := by
  have hall : ∀ w ∈ defaultWrites,ectRegAlias.toNat+2 ≤ w.1.toNat := by decide
  obtain ⟨g',hrun,h',hlast⟩ := writeAll_run defaultWrites hall h
  refine ⟨g',onPort_run st hrun,h'.kept,?_,fun p hp hle => by omega,fun p _ => h'.stadr p⟩
  obtain ⟨g1,h1,rfl⟩ := hlast (defaultWrites.dropLast) (ectRegEepcfg,[0]) rfl
  intro p hp hle
  have hconnected := h'.kept.connected
  have hin : p ∈ g1.addressed .broadcast 0 := mem_addressed.mpr ⟨⟨hp,hle⟩,trivial⟩
  rw [write_station,if_pos hin,(write_eepcfg _ 0).2.2]
  rfl

end Start

/-- Two slaves that have changed places since the last scan. -/
def swappedLine : SiiState Segment := SiiState.start
  { stations := fun place =>
      if place=1 then blankStation.write ectRegStadr (le16 0x1002)
      else if place=2 then blankStation.write ectRegStadr (le16 0x1001)
      else blankStation
    connected := 2
    fares := []
    timer := [] }

end EtherCATMaster.Config
