import EtherCATMaster.Dll.Transfers

namespace EtherCATMaster.Dll

open Framework

/-- What `ECAT_ServoGetStatus` reads; the name of the state is left out. -/
structure ServoStatus where
  statusword : UInt16
  controlword : UInt16
  modeDisplay : Int8
  targetPosition : Int32
  targetVelocity : Int32
  actualPosition : Int32
  actualVelocity : Int32
  errorCode : UInt16
  targetReached : Bool
  fault : Bool
  warning : Bool

def servoGetStatus (slave : Int) (s : Session) : Int × Option ServoStatus :=
  if slave ≤ 0 then (ecatInvalidArgument,none)
  else
    let status := readSdoU16 slave 0x6041 0 s
    if status.1≠ecatOk then (status.1,none)
    else
      (ecatOk,some
        { statusword := status.2
          controlword := (readSdoU16 slave 0x6040 0 s).2
          modeDisplay := (readSdoU8 slave 0x6061 0 s).2.toInt8
          targetPosition := (readSdoI32 slave 0x607A 0 s).2
          targetVelocity := (readSdoI32 slave 0x60FF 0 s).2
          actualPosition := (readSdoI32 slave 0x6064 0 s).2
          actualVelocity := (readSdoI32 slave 0x606C 0 s).2
          errorCode := (readSdoU16 slave 0x603F 0 s).2
          targetReached := status.2 &&& 0x0400≠0
          fault := status.2 &&& 0x0008≠0
          warning := status.2 &&& 0x0080≠0 })

def servoWriteControlword (slave : Int) (controlword : UInt16) : Call :=
  writeSdoU16 slave 0x6040 0 controlword

def servoTrackActualTargetOnce (slave : Int) : Call := fun s =>
  let actual := readSdoI32 slave 0x6064 0 s
  if actual.1≠ecatOk then (actual.1,s) else writeSdoI32 slave 0x607A 0 actual.2 s

def servoFaultReset (slave : Int) : Call := fun s =>
  if slave ≤ 0 then (ecatInvalidArgument,s)
  else
    ((servoWriteControlword slave 0x0080).andThen (servoWriteControlword slave 0x0006)) s

/-- `ECAT_ServoEnable` after the fault has been reset. What tracking returns is ignored. -/
def servoSwitchOn (slave : Int) : Call := fun s =>
  ((servoWriteControlword slave 0x0006).andThen
    ((servoWriteControlword slave 0x0007).andThen (servoWriteControlword slave 0x000F)))
      (servoTrackActualTargetOnce slave s).2

def servoEnable (slave : Int) : Call := fun s =>
  if slave ≤ 0 then (ecatInvalidArgument,s)
  else if (servoGetStatus slave s).2.any ServoStatus.fault then
    ((servoFaultReset slave).andThen (servoSwitchOn slave)) s
  else servoSwitchOn slave s

def servoSetMode (slave : Int) (mode : Int8) : Call := fun s =>
  if slave ≤ 0 then (ecatInvalidArgument,s) else writeSdoI8 slave 0x6060 0 mode s

def writeLimit (slave : Int) (index : UInt16) (value : UInt32) : Call := fun s =>
  if value>0 then writeSdoU32 slave index 0 value s else (ecatOk,s)

def servoMoveAbs (slave : Int) (target : Int32) (velocity acceleration deceleration : UInt32) :
    Call := fun s =>
  if slave ≤ 0 then (ecatInvalidArgument,s)
  else
    ((servoSetMode slave 1).andThen
      ((writeLimit slave 0x6081 velocity).andThen
        ((writeLimit slave 0x6083 acceleration).andThen
          ((writeLimit slave 0x6084 deceleration).andThen
            ((writeSdoI32 slave 0x607A 0 target).andThen
              ((servoEnable slave).andThen
                ((servoWriteControlword slave 0x003F).andThen
                  (servoWriteControlword slave 0x000F)))))))) s

def servoGetPosition (slave : Int) (s : Session) : Int × Int32 :=
  if slave ≤ 0 then (ecatInvalidArgument,0) else readSdoI32 slave 0x6064 0 s

def servoMoveRel (slave : Int) (distance : Int32) (velocity acceleration deceleration : UInt32) :
    Call := fun s =>
  if slave ≤ 0 then (ecatInvalidArgument,s)
  else
    let current := servoGetPosition slave s
    if current.1≠ecatOk then (current.1,s)
    else
      let target := current.2.toInt+distance.toInt
      if target < -2147483648 ∨ target>2147483647 then (ecatInvalidArgument,s)
      else servoMoveAbs slave (Int32.ofInt target) velocity acceleration deceleration s

def SdoWrite.IsSetPoint (w : SdoWrite) : Prop := w.index=0x6040 ∧ w.data=le16 0x003F

/-- Whenever a call has written the new set-point, the target was this one. -/
def Commands (call : Call) (s : Session) (target : Int32) : Prop :=
  ∀ w ∈ (call s).2.log.drop s.log.length,w.IsSetPoint → w.before 0x607A 0=le32 target.toUInt32

/-- What a session has behind it: no set-point, and the position of the slave stands. -/
structure Ahead (slave : Int) (s s' : Session) : Prop where
  has : s'.Has slave
  actual : s'.objects slave 0x6064 0=s.objects slave 0x6064 0
  log : ∃ more,s'.log=s.log ++ more ∧ ∀ w ∈ more,¬w.IsSetPoint

section Moves

variable {slave : Int} {s s' s'' : Session}

theorem Ahead.refl (h : s.Has slave) : Ahead slave s s :=
  ⟨h,rfl,[],(List.append_nil _).symm,fun _ hw => nomatch hw⟩

theorem Ahead.trans (h : Ahead slave s s') (h' : Ahead slave s' s'') : Ahead slave s s'' := by
  obtain ⟨more,hmore,hnone⟩ := h.log
  obtain ⟨more',hmore',hnone'⟩ := h'.log
  refine ⟨h'.has,h'.actual.trans h.actual,more ++ more',?_,?_⟩
  · rw [hmore',hmore,List.append_assoc]
  · intro w hw
    rcases List.mem_append.mp hw with hw|hw
    · exact hnone w hw
    · exact hnone' w hw

theorem Ahead.put (h : Ahead slave s s') {index : UInt16} {data : List UInt8}
    (hindex : (0x6064 : UInt16)≠index) (hset : index=0x6040 → data≠le16 0x003F) :
    Ahead slave s (s'.put slave index 0 data) := by
  apply h.trans
  refine ⟨h.has.put,?_,[⟨slave,index,0,data,s'.objects slave⟩],rfl,?_⟩
  · exact if_neg (fun hc => hindex hc.2.1)
  · intro w hw
    rw [List.mem_singleton.mp hw]
    exact fun hw => hset hw.1 hw.2

theorem writeLimit_ahead (h : s.Has slave) (value : UInt32) {index : UInt16}
    (hindex : (0x6064 : UInt16)≠index) (hset : index≠0x6040) :
    ∃ s',writeLimit slave index value s=(ecatOk,s') ∧ Ahead slave s s' := by
  by_cases hv : value>0
  · have hdata : le32 value≠[] := List.ne_nil_of_length_pos (by rw [le32_length]; decide)
    refine ⟨s.put slave index 0 (le32 value),?_,(Ahead.refl h).put hindex (absurd · hset)⟩
    rw [writeLimit,if_pos hv]
    exact writeSdo_ok h hdata
  · exact ⟨s,if_neg hv,Ahead.refl h⟩

theorem servoWriteControlword_ok (h : s.Has slave) (controlword : UInt16) :
    servoWriteControlword slave controlword s=
      (ecatOk,s.put slave 0x6040 0 (le16 controlword)) :=
  writeSdo_ok h (List.ne_nil_of_length_pos (by rw [le16_length]; decide))

def Session.tracked (s : Session) (slave : Int) : List UInt8 :=
  if (s.objects slave 0x6064 0).length=4 then s.objects slave 0x6064 0
  else s.objects slave 0x607A 0

theorem servoTrack_ahead (h : s.Has slave) :
    Ahead slave s (servoTrackActualTargetOnce slave s).2 ∧
      (servoTrackActualTargetOnce slave s).2.objects slave 0x607A 0=s.tracked slave := by
  by_cases hlen : (s.objects slave 0x6064 0).length=4
  · have hread := readSized_ok h (by decide) hlen
    have htrack : servoTrackActualTargetOnce slave s=
        (ecatOk,s.put slave 0x607A 0 (s.objects slave 0x6064 0)) := by
      rw [servoTrackActualTargetOnce,readSdoI32,hread]
      simp only
      rw [if_neg (not_not.mpr rfl),writeSdoI32,writeSdoU32,UInt32.toUInt32_toInt32,
        le32_get32 hlen]
      exact writeSdo_ok h (List.ne_nil_of_length_pos (by omega))
    rw [htrack,Session.tracked,if_pos hlen]
    exact ⟨(Ahead.refl h).put (by decide) (absurd · (by decide)),if_pos ⟨rfl,rfl,rfl⟩⟩
  · have hread := readSized_fails h (by decide) hlen
    have htrack : (servoTrackActualTargetOnce slave s).2=s := by
      rw [servoTrackActualTargetOnce,readSdoI32]
      simp only
      rw [if_pos hread]
    rw [htrack,Session.tracked,if_neg hlen]
    exact ⟨Ahead.refl h,rfl⟩

theorem controlword_ahead (h : Ahead slave s s') {controlword : UInt16}
    (hword : le16 controlword≠le16 0x003F) :
    ∃ s'',servoWriteControlword slave controlword s'=(ecatOk,s'') ∧ Ahead slave s s'' ∧
      s''.objects slave 0x607A 0=s'.objects slave 0x607A 0 :=
  ⟨_,servoWriteControlword_ok h.has controlword,h.put (by decide) (fun _ => hword),
    if_neg (fun hc => absurd hc.2.1 (by decide))⟩

theorem servoSwitchOn_ahead (h : s.Has slave) :
    ∃ s',servoSwitchOn slave s=(ecatOk,s') ∧ Ahead slave s s' ∧
      s'.objects slave 0x607A 0=s.tracked slave := by
  obtain ⟨htrack,htarget⟩ := servoTrack_ahead h
  obtain ⟨s1,hrun1,h1,hkept1⟩ := controlword_ahead htrack (show le16 0x0006≠_ by decide)
  obtain ⟨s2,hrun2,h2,hkept2⟩ := controlword_ahead h1 (show le16 0x0007≠_ by decide)
  obtain ⟨s3,hrun3,h3,hkept3⟩ := controlword_ahead h2 (show le16 0x000F≠_ by decide)
  refine ⟨s3,?_,h3,by rw [hkept3,hkept2,hkept1,htarget]⟩
  rw [servoSwitchOn,Call.andThen_ok hrun1,Call.andThen_ok hrun2,hrun3]

theorem servoEnable_ahead (h : s.Has slave) :
    ∃ s',servoEnable slave s=(ecatOk,s') ∧ Ahead slave s s' ∧
      s'.objects slave 0x607A 0=s.tracked slave := by
  have hslave : ¬slave ≤ 0 := Int.not_le.mpr h.positive
  rw [servoEnable,if_neg hslave]
  by_cases hfault : (servoGetStatus slave s).2.any ServoStatus.fault
  · rw [if_pos hfault]
    obtain ⟨s1,hrun1,h1,hkept1⟩ :=
      controlword_ahead (Ahead.refl h) (show le16 0x0080≠_ by decide)
    obtain ⟨s2,hrun2,h2,hkept2⟩ := controlword_ahead h1 (show le16 0x0006≠_ by decide)
    have hreset : servoFaultReset slave s=(ecatOk,s2) := by
      rw [servoFaultReset,if_neg hslave,Call.andThen_ok hrun1,hrun2]
    obtain ⟨s3,hrun3,h3,htarget⟩ := servoSwitchOn_ahead h2.has
    refine ⟨s3,?_,h2.trans h3,?_⟩
    · rw [Call.andThen_ok hreset,hrun3]
    · rw [htarget,Session.tracked,Session.tracked,h2.actual,hkept2,hkept1]
  · rw [if_neg hfault]
    exact servoSwitchOn_ahead h

theorem servoMoveAbs_ahead (h : s.Has slave) (target : Int32)
    (velocity acceleration deceleration : UInt32) :
    ∃ s',servoMoveAbs slave target velocity acceleration deceleration s=
        ((servoWriteControlword slave 0x003F).andThen (servoWriteControlword slave 0x000F)) s' ∧
      Ahead slave s s' ∧
      s'.objects slave 0x607A 0=
        if (s.objects slave 0x6064 0).length=4 then s.objects slave 0x6064 0
        else le32 target.toUInt32 := by
  have hslave : ¬slave ≤ 0 := Int.not_le.mpr h.positive
  have hmode : servoSetMode slave 1 s=(ecatOk,s.put slave 0x6060 0 [1]) := by
    rw [servoSetMode,if_neg hslave]
    exact writeSdo_ok h (List.cons_ne_nil _ _)
  have h0 : Ahead slave s (s.put slave 0x6060 0 [1]) :=
    (Ahead.refl h).put (by decide) (absurd · (by decide))
  obtain ⟨s1,hrun1,h1⟩ := writeLimit_ahead h0.has velocity
    (show (0x6064 : UInt16)≠0x6081 by decide) (by decide)
  obtain ⟨s2,hrun2,h2⟩ := writeLimit_ahead h1.has acceleration
    (show (0x6064 : UInt16)≠0x6083 by decide) (by decide)
  obtain ⟨s3,hrun3,h3⟩ := writeLimit_ahead h2.has deceleration
    (show (0x6064 : UInt16)≠0x6084 by decide) (by decide)
  have htarget : writeSdoI32 slave 0x607A 0 target s3=
      (ecatOk,s3.put slave 0x607A 0 (le32 target.toUInt32)) :=
    writeSdo_ok h3.has (List.ne_nil_of_length_pos (by rw [le32_length]; decide))
  have h4 : Ahead slave s (s3.put slave 0x607A 0 (le32 target.toUInt32)) :=
    (((h0.trans h1).trans h2).trans h3).put (by decide) (absurd · (by decide))
  obtain ⟨s5,hrun5,h5,htracked⟩ := servoEnable_ahead h4.has
  refine ⟨s5,?_,h4.trans h5,?_⟩
  · rw [servoMoveAbs,if_neg hslave,Call.andThen_ok hmode,Call.andThen_ok hrun1,
      Call.andThen_ok hrun2,Call.andThen_ok hrun3,Call.andThen_ok htarget,Call.andThen_ok hrun5]
  · rw [htracked,Session.tracked,h4.actual]
    have hstored : (s3.put slave 0x607A 0 (le32 target.toUInt32)).objects slave 0x607A 0=
        le32 target.toUInt32 := if_pos ⟨rfl,rfl,rfl⟩
    rw [hstored]

/-- The move commands its target when the slave is there already, or when its position is not
read. -/
theorem servoMoveAbs_commands (h : s.Has slave) (target : Int32)
    (velocity acceleration deceleration : UInt32) :
    Commands (servoMoveAbs slave target velocity acceleration deceleration) s target ↔
      ((s.objects slave 0x6064 0).length=4 →
        s.objects slave 0x6064 0=le32 target.toUInt32) := by
  obtain ⟨s',hrun,hahead,htarget⟩ :=
    servoMoveAbs_ahead h target velocity acceleration deceleration
  obtain ⟨more,hmore,hnone⟩ := hahead.log
  have hword := servoWriteControlword_ok hahead.has 0x003F
  have hlog : ((servoMoveAbs slave target velocity acceleration deceleration s).2.log).drop
      s.log.length=more ++ [⟨slave,0x6040,0,le16 0x003F,s'.objects slave⟩,
        ⟨slave,0x6040,0,le16 0x000F,(s'.put slave 0x6040 0 (le16 0x003F)).objects slave⟩] := by
    rw [hrun,Call.andThen_ok hword,servoWriteControlword_ok hahead.has.put]
    change ((s'.log ++ [_]) ++ [_]).drop s.log.length=_
    rw [hmore,List.append_assoc,List.append_assoc,List.drop_left]
    rfl
  rw [Commands,hlog]
  constructor
  · intro hall hlen
    have hset := hall _ (List.mem_append_right _ List.mem_cons_self) ⟨rfl,rfl⟩
    simp only at hset
    rw [htarget,if_pos hlen] at hset
    exact hset
  · intro hactual w hw hset
    rcases List.mem_append.mp hw with hw|hw
    · exact absurd hset (hnone w hw)
    · rcases List.mem_cons.mp hw with rfl|hw
      · simp only
        rw [htarget]
        by_cases hlen : (s.objects slave 0x6064 0).length=4
        · rw [if_pos hlen]
          exact hactual hlen
        · rw [if_neg hlen]
      · rw [List.mem_singleton.mp hw] at hset
        exact absurd hset.2 (show ¬le16 0x000F=le16 0x003F by decide)

/-- The position that a move starts from. -/
def Session.position (s : Session) (slave : Int) : Int32 :=
  (get32 (s.objects slave 0x6064 0) 0).toInt32

theorem bytes_eq_iff (hlen : (s.objects slave 0x6064 0).length=4) (target : Int32) :
    s.objects slave 0x6064 0=le32 target.toUInt32 ↔ s.position slave=target := by
  have hbytes := le32_get32 hlen
  constructor
  · intro h
    have hback := get32_le32 [] target.toUInt32 []
    rw [List.append_nil,List.nil_append,List.length_nil] at hback
    rw [Session.position,h,hback,Int32.toInt32_toUInt32]
  · intro h
    rw [← h,Session.position,UInt32.toUInt32_toInt32,hbytes]

/-- A relative move adds a distance that the jump protection then takes away. -/
theorem servoMoveRel_commands (h : s.Has slave) (distance : Int32)
    (velocity acceleration deceleration : UInt32) :
    Commands (servoMoveRel slave distance velocity acceleration deceleration) s
        (Int32.ofInt ((s.position slave).toInt+distance.toInt)) ↔
      ((s.objects slave 0x6064 0).length=4 →
        -2147483648 ≤ (s.position slave).toInt+distance.toInt →
        (s.position slave).toInt+distance.toInt ≤ 2147483647 → distance=0) := by
  have hslave : ¬slave ≤ 0 := Int.not_le.mpr h.positive
  have hrefused : ∀ code target,
      servoMoveRel slave distance velocity acceleration deceleration s=(code,s) →
      Commands (servoMoveRel slave distance velocity acceleration deceleration) s target := by
    intro code target hrun w hw
    rw [hrun,List.drop_length] at hw
    exact nomatch hw
  by_cases hlen : (s.objects slave 0x6064 0).length=4
  · have hread : servoGetPosition slave s=(ecatOk,s.position slave) := by
      rw [servoGetPosition,if_neg hslave,readSdoI32,readSized_ok h (by decide) hlen]
      rfl
    by_cases hout : (s.position slave).toInt+distance.toInt < -2147483648 ∨
        (s.position slave).toInt+distance.toInt>2147483647
    · have hrun : servoMoveRel slave distance velocity acceleration deceleration s=
          (ecatInvalidArgument,s) := by
        rw [servoMoveRel,if_neg hslave,hread]
        simp only
        rw [if_neg (not_not.mpr rfl),if_pos hout]
      constructor
      · intro _ _ hlo hhi
        omega
      · intro _
        exact hrefused _ _ hrun
    · have hrun : servoMoveRel slave distance velocity acceleration deceleration s=
          servoMoveAbs slave (Int32.ofInt ((s.position slave).toInt+distance.toInt)) velocity
            acceleration deceleration s := by
        rw [servoMoveRel,if_neg hslave,hread]
        simp only
        rw [if_neg (not_not.mpr rfl),if_neg hout]
      have hsum : (Int32.ofInt ((s.position slave).toInt+distance.toInt)).toInt=
          (s.position slave).toInt+distance.toInt :=
        Int32.toInt_ofInt_of_le (by omega) (by omega)
      have habs := servoMoveAbs_commands h
        (Int32.ofInt ((s.position slave).toInt+distance.toInt)) velocity acceleration deceleration
      rw [Commands] at habs ⊢
      rw [hrun,habs,bytes_eq_iff hlen]
      constructor
      · intro hsame _ _ _
        have heq := congrArg Int32.toInt (hsame hlen)
        rw [hsum] at heq
        have hzero : distance.toInt=(0 : Int32).toInt := by
          rw [Int32.toInt_zero]
          omega
        exact Int32.toInt_inj.mp hzero
      · intro hzero _
        have hd := hzero hlen (by omega) (by omega)
        rw [← Int32.toInt_inj,hsum,hd,Int32.toInt_zero]
        omega
  · have hread : (servoGetPosition slave s).1≠ecatOk := by
      rw [servoGetPosition,if_neg hslave]
      exact readSized_fails h (by decide) hlen
    have hrun : servoMoveRel slave distance velocity acceleration deceleration s=
        ((servoGetPosition slave s).1,s) := by
      rw [servoMoveRel,if_neg hslave]
      simp only
      rw [if_pos hread]
    constructor
    · intro _ hfour
      exact absurd hfour hlen
    · intro _
      exact hrefused _ _ hrun

/-- The moves command their targets exactly when the drive is at the target already, or when its
position cannot be read or the sum does not fit. -/
theorem moves_command_iff_at_target (h : s.Has slave) (target distance : Int32)
    (velocity acceleration deceleration : UInt32) :
    (Commands (servoMoveAbs slave target velocity acceleration deceleration) s target ↔
        ((s.objects slave 0x6064 0).length=4 → s.position slave=target)) ∧
      (Commands (servoMoveRel slave distance velocity acceleration deceleration) s
          (Int32.ofInt ((s.position slave).toInt+distance.toInt)) ↔
        ((s.objects slave 0x6064 0).length=4 →
          -2147483648 ≤ (s.position slave).toInt+distance.toInt →
          (s.position slave).toInt+distance.toInt ≤ 2147483647 → distance=0)) := by
  refine ⟨?_,servoMoveRel_commands h distance velocity acceleration deceleration⟩
  rw [servoMoveAbs_commands h]
  constructor
  · intro hat hlen
    exact (bytes_eq_iff hlen target).mp (hat hlen)
  · intro hat hlen
    exact (bytes_eq_iff hlen target).mpr (hat hlen)

/-- One drive that is switched on and stands at position 0. -/
def standingDrive : Session where
  workerRunning := true
  slavecount := 1
  objects := fun _ index _ =>
    if index=0x6041 then le16 0x0637 else if index=0x6064 then le32 0 else []
  log := []

theorem standingDrive_commanded :
    standingDrive.Has 1 ∧ Commands (servoMoveAbs 1 0 500 100 100) standingDrive 0 := by
  have hhas : standingDrive.Has 1 := ⟨rfl,by decide,by decide⟩
  exact ⟨hhas,(moves_command_iff_at_target hhas 0 0 500 100 100).1.mpr (fun _ => by decide)⟩

/-- A move of the drive to position 1000 sets the new set-point with target 0. -/
theorem move_commands_old_position :
    ¬∀ (s : Session) (slave : Int) (target : Int32) (velocity acceleration deceleration : UInt32),
      s.Has slave →
      Commands (servoMoveAbs slave target velocity acceleration deceleration) s target := by
  intro hall
  have hhas : standingDrive.Has 1 := ⟨rfl,by decide,by decide⟩
  have hbytes := (servoMoveAbs_commands hhas 1000 0 0 0).mp
    (hall standingDrive 1 1000 0 0 0 hhas) (by decide)
  revert hbytes
  decide

end Moves

end EtherCATMaster.Dll
