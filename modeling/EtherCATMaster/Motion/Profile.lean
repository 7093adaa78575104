import EtherCATMaster.Motion.Cia402
import EtherCATMaster.Math.ConstantJerk
import Mathlib.Algebra.Order.Floor.Ring
import Mathlib.Data.Rat.Floor

namespace EtherCATMaster.Motion

open EtherCATMaster.Math

/-- `sqrt` of math.h. The other operations on doubles are those of an ordered field. -/
class HasSqrt (R : Type) where
  sqrt : R → R

/-- Rationals run the model. Their root is exact on squares and rounded down elsewhere. -/
instance : HasSqrt ℚ := ⟨fun x => (Nat.sqrt (x.num.toNat*x.den) : ℚ)/x.den⟩

/-- Doubles are read as elements of an ordered field `R`; integers of the source keep their
machine types and are converted where the source casts them. -/
structure Cia402MotionCommand (R : Type) where
  type : Cia402MotionType
  targetPosition : Int32
  targetVelocity : Int32
  profileVelocity : Int32
  acceleration : UInt32
  deceleration : UInt32
  mode : Int8
  pulseCycles : Int32
  relative : Bool
  profileType : Int32
  jerkRatio : R

structure Cia402PdoOutput where
  controlword : UInt16
  targetPosition : Int32
  targetVelocity : Int32
  mode : Int8
  deriving DecidableEq, Repr

/-- One entry of the six `planner_segment_*` arrays. -/
structure ScurveSegment (R : Type) where
  startS : R
  kin : JerkState R
  jerk : R
  time : R

structure Cia402MotionProfile (R : Type) where
  type : Cia402MotionType
  active : Bool
  done : Bool
  relative : Bool
  cycles : Int64
  position : R
  velocity : R
  targetPosition : R
  targetVelocity : R
  maxVelocity : R
  acceleration : R
  deceleration : R
  accelerationState : R
  plannerValid : Bool
  plannerStartPosition : R
  plannerDistance : R
  plannerDirection : R
  plannerElapsedS : R
  plannerTotalS : R
  plannerSegments : List (ScurveSegment R)
  profileType : Cia402ProfileType
  jerkRatio : R
  outputPosition : Int32
  outputVelocity : Int32

variable {R : Type} [Field R] [LinearOrder R]

def positionEpsilon : R := 1/2
def velocityEpsilon : R := 1/2
def scurveSolveIterations : Nat := 80

def absDouble (value : R) : R := if value<0 then -value else value
def maxDouble (lhs rhs : R) : R := if lhs>rhs then lhs else rhs
def minDouble (lhs rhs : R) : R := if lhs < rhs then lhs else rhs

def clampDouble (value minValue maxValue : R) : R :=
  if value < minValue then minValue
  else if value>maxValue then maxValue
  else value

def normalizeProfileType (profileType : Int32) : Cia402ProfileType :=
  if profileType=0 then .lms
  else if profileType=1 then .trapezoidal
  else if profileType=2 then .scurve
  else if profileType=3 then .jerkRatio
  else .trapezoidal

def normalizeJerkRatio (jerkRatio : R) : R := clampDouble jerkRatio 0 1

/-- Saturates, then rounds half away from zero. The C cast truncates toward zero, which is
the floor of a nonnegative and the ceiling of a negative argument. -/
def roundToI32 [FloorRing R] (value : R) : Int32 :=
  if value>2147483647 then Int32.maxValue
  else if value< -2147483648 then Int32.minValue
  else Int32.ofInt (if value≥0 then ⌊value+1/2⌋ else ⌈value-1/2⌉)

def configuredSpeed (value : Int32) : R :=
  let speed := absDouble (value.toInt : R)
  if speed>0 then speed else 1000

def configuredAccel (value : UInt32) (referenceSpeed : R) : R :=
  if value>0 then (value.toNat : R) else maxDouble 10000 (referenceSpeed*10)

def cia402MotionInit : Cia402MotionCommand R where
  type := .none
  targetPosition := 0
  targetVelocity := 0
  profileVelocity := 0
  acceleration := 0
  deceleration := 0
  mode := 0
  pulseCycles := 20
  relative := false
  profileType := 1
  jerkRatio := 3/4

/-- The zeroed structure, marked done. A zero profile type is the LMS one. -/
def cia402ProfileReset : Cia402MotionProfile R where
  type := .none
  active := false
  done := true
  relative := false
  cycles := 0
  position := 0
  velocity := 0
  targetPosition := 0
  targetVelocity := 0
  maxVelocity := 0
  acceleration := 0
  deceleration := 0
  accelerationState := 0
  plannerValid := false
  plannerStartPosition := 0
  plannerDistance := 0
  plannerDirection := 0
  plannerElapsedS := 0
  plannerTotalS := 0
  plannerSegments := List.replicate 7 ⟨0,⟨0,0,0⟩,0,0⟩
  profileType := .lms
  jerkRatio := 0
  outputPosition := 0
  outputVelocity := 0

/-- Limits of one motion: the target velocity, and the speed and ramps resolved from the
command with the given reference speed. -/
def Cia402MotionProfile.limit (profile : Cia402MotionProfile R) (command : Cia402MotionCommand R)
    (targetVelocity referenceSpeed : R) : Cia402MotionProfile R :=
  { profile with
    targetVelocity := targetVelocity
    maxVelocity := referenceSpeed
    acceleration := configuredAccel command.acceleration referenceSpeed
    deceleration := configuredAccel command.deceleration referenceSpeed }

def cia402ProfileBegin (command : Cia402MotionCommand R)
    (actualPosition actualVelocity : Int32) : Cia402MotionProfile R :=
  let started : Cia402MotionProfile R :=
    { cia402ProfileReset with
      type := command.type
      active := true
      done := false
      relative := command.relative
      position := (actualPosition.toInt : R)
      velocity := (actualVelocity.toInt : R)
      outputPosition := actualPosition
      outputVelocity := actualVelocity
      profileType := normalizeProfileType command.profileType
      jerkRatio := normalizeJerkRatio command.jerkRatio }
  match command.type with
  | .none => cia402ProfileReset
  | .profilePosition =>
      let profile :=
        { started.limit command 0 (configuredSpeed command.profileVelocity) with
          targetPosition :=
            if command.relative then (actualPosition.toInt : R)+(command.targetPosition.toInt : R)
            else (command.targetPosition.toInt : R) }
      if absDouble (profile.targetPosition-profile.position) ≤ positionEpsilon ∧
          absDouble profile.velocity ≤ velocityEpsilon then
        { profile with position := profile.targetPosition, velocity := 0, done := true }
      else profile
  | .jogVelocity =>
      started.limit command (command.targetVelocity.toInt : R)
        (configuredSpeed command.targetVelocity)
  | .servoStop => started.limit command 0 (configuredSpeed actualVelocity)
  | .home =>
      started.limit command (command.targetVelocity.toInt : R)
        (configuredSpeed command.targetVelocity)

def rampVelocity (current target acceleration deceleration dtS : R) : R :=
  let delta := target-current
  if absDouble delta ≤ velocityEpsilon then target
  else
    let limit := (if target=0 ∨ absDouble target<absDouble current then deceleration
      else acceleration)*dtS
    if limit ≤ 0 then target
    else if absDouble delta ≤ limit then target
    else current+(if delta>0 then limit else -limit)

def profileRampTimeS (profile : Cia402MotionProfile R) : R :=
  match profile.profileType with
  | .lms => 35/100
  | .scurve => 25/100
  | .jerkRatio => 3/100+normalizeJerkRatio profile.jerkRatio*(30/100)
  | .trapezoidal => 0

/-- The slewed acceleration is both stored in the profile and returned. -/
def slewAcceleration (profile : Cia402MotionProfile R) (targetAcceleration dtS : R) :
    Cia402MotionProfile R :=
  let rampTime := profileRampTimeS profile
  let maxAcceleration := maxDouble profile.acceleration profile.deceleration
  if rampTime ≤ 0 then { profile with accelerationState := targetAcceleration }
  else if maxAcceleration ≤ 0 then { profile with accelerationState := targetAcceleration }
  else
    let maxDelta := maxAcceleration/rampTime*dtS
    let delta := targetAcceleration-profile.accelerationState
    if absDouble delta ≤ maxDelta then { profile with accelerationState := targetAcceleration }
    else
      { profile with
        accelerationState := profile.accelerationState+(if delta>0 then maxDelta else -maxDelta) }

/-- Both callers store the returned velocity in the profile; it is stored here. -/
def rampVelocityByProfile (profile : Cia402MotionProfile R) (target dtS : R) :
    Cia402MotionProfile R :=
  if profileRampTimeS profile ≤ 0 then
    { profile with
      velocity := rampVelocity profile.velocity target profile.acceleration profile.deceleration dtS }
  else
    let delta := target-profile.velocity
    if absDouble delta ≤ velocityEpsilon then
      { profile with accelerationState := 0, velocity := target }
    else
      let limitAcceleration :=
        if target=0 ∨ absDouble target<absDouble profile.velocity then profile.deceleration
        else profile.acceleration
      let slewed := slewAcceleration profile
        (if delta>0 then limitAcceleration else -limitAcceleration) dtS
      let nextVelocity := profile.velocity+slewed.accelerationState*dtS
      if (delta>0 ∧ nextVelocity>target) ∨ (delta<0 ∧ nextVelocity<target) then
        { slewed with velocity := target, accelerationState := 0 }
      else { slewed with velocity := nextVelocity }

structure ScurvePhase (R : Type) where
  tj : R
  ta : R
  distance : R

def scurvePhaseFromPeakVelocity [HasSqrt R] (peakVelocity acceleration jerk : R) : ScurvePhase R :=
  if peakVelocity ≤ 0 ∨ acceleration ≤ 0 ∨ jerk ≤ 0 then ⟨0,0,0⟩
  else
    let fullTj := acceleration/jerk
    if peakVelocity≥acceleration*fullTj then
      let ta := peakVelocity/acceleration-fullTj
      ⟨fullTj,ta,acceleration*fullTj*fullTj+3/2*acceleration*fullTj*ta+1/2*acceleration*ta*ta⟩
    else
      let tj := HasSqrt.sqrt (peakVelocity/jerk)
      ⟨tj,0,peakVelocity*tj⟩

def scurveDistanceForPeakVelocity [HasSqrt R]
    (peakVelocity acceleration deceleration accelJerk decelJerk : R) : R :=
  (scurvePhaseFromPeakVelocity peakVelocity acceleration accelJerk).distance+
    (scurvePhaseFromPeakVelocity peakVelocity deceleration decelJerk).distance

/-- The bisection loop; `low` and `high` after `n` halvings. -/
def scurveSolvePeak (distanceFor : R → R) (distance : R) : Nat → R → R → R × R
  | 0,low,high => (low,high)
  | n+1,low,high =>
      let mid := (low+high)*(1/2)
      if distanceFor mid ≤ distance then scurveSolvePeak distanceFor distance n mid high
      else scurveSolvePeak distanceFor distance n low mid

def scurveAdvanceSegment (kin : JerkState R) (jerk duration : R) : JerkState R :=
  let dt2 := duration*duration
  let dt3 := dt2*duration
  ⟨kin.position+(kin.velocity*duration+1/2*kin.acceleration*dt2+jerk*dt3/6),
    kin.velocity+(kin.acceleration*duration+1/2*jerk*dt2),
    kin.acceleration+jerk*duration⟩

/-- The loop that stores each segment and advances to the next; it returns the elapsed time. -/
def scurveStoreSegments : List (R × R) → R → JerkState R → List (ScurveSegment R) × R
  | [],elapsed,_ => ([],elapsed)
  | (jerk,time)::rest,elapsed,kin =>
      let tail := scurveStoreSegments rest (elapsed+time) (scurveAdvanceSegment kin jerk time)
      (⟨elapsed,kin,jerk,time⟩::tail.1,tail.2)

/-- Peak velocity and cruise time of a move of the given distance. -/
def scurvePeakAndCruise [HasSqrt R] (profile : Cia402MotionProfile R)
    (distance accelJerk decelJerk : R) : R × R :=
  let distanceFor := fun peak =>
    scurveDistanceForPeakVelocity peak profile.acceleration profile.deceleration accelJerk decelJerk
  let accelDecelDistance := distanceFor profile.maxVelocity
  if distance≥accelDecelDistance then
    (profile.maxVelocity,(distance-accelDecelDistance)/profile.maxVelocity)
  else
    ((scurveSolvePeak distanceFor distance scurveSolveIterations 0 profile.maxVelocity).1,0)

def scurveSegmentTable (accelPhase decelPhase : ScurvePhase R)
    (cruiseTime accelJerk decelJerk : R) : List (R × R) :=
  [(accelJerk,accelPhase.tj),(0,accelPhase.ta),(-accelJerk,accelPhase.tj),(0,cruiseTime),
    (-decelJerk,decelPhase.tj),(0,decelPhase.ta),(decelJerk,decelPhase.tj)]

/-- Clears the planner fields; every failing return leaves them so, up to the segments stored
before the last test. -/
def Cia402MotionProfile.clearPlan (profile : Cia402MotionProfile R) : Cia402MotionProfile R :=
  { profile with
    plannerValid := false
    plannerElapsedS := 0
    plannerTotalS := 0
    plannerSegments := List.replicate 7 ⟨0,⟨0,0,0⟩,0,0⟩ }

/-- Returns the profile and whether a plan was built. -/
def scurveBuildPositionPlan [HasSqrt R] (profile : Cia402MotionProfile R) :
    Cia402MotionProfile R × Bool :=
  let cleared := profile.clearPlan
  let distance := absDouble (profile.targetPosition-profile.position)
  if distance ≤ positionEpsilon then (cleared,false)
  else if absDouble profile.velocity>velocityEpsilon then (cleared,false)
  else if profile.maxVelocity ≤ 0 ∨ profile.acceleration ≤ 0 ∨ profile.deceleration ≤ 0 then
    (cleared,false)
  else if profileRampTimeS profile ≤ 0 then (cleared,false)
  else
    let rampTime := maxDouble (profileRampTimeS profile) (1/1000)
    let accelJerk := profile.acceleration/rampTime
    let decelJerk := profile.deceleration/rampTime
    if accelJerk ≤ 0 ∨ decelJerk ≤ 0 then (cleared,false)
    else
      let peak := scurvePeakAndCruise profile distance accelJerk decelJerk
      if peak.1 ≤ velocityEpsilon then (cleared,false)
      else
        let stored := scurveStoreSegments
          (scurveSegmentTable
            (scurvePhaseFromPeakVelocity peak.1 profile.acceleration accelJerk)
            (scurvePhaseFromPeakVelocity peak.1 profile.deceleration decelJerk)
            peak.2 accelJerk decelJerk) 0 ⟨0,0,0⟩
        if stored.2 ≤ 0 then ({ cleared with plannerSegments := stored.1 },false)
        else
          ({ cleared with
              plannerValid := true
              plannerStartPosition := profile.position
              plannerDistance := distance
              plannerDirection := if profile.targetPosition≥profile.position then 1 else -1
              plannerTotalS := stored.2
              plannerSegments := stored.1 },true)

def stepPositionProfileTrapezoidal (profile : Cia402MotionProfile R) (dtS : R) :
    Cia402MotionProfile R :=
  if profile.done then profile
  else
    let error := profile.targetPosition-profile.position
    let remaining := absDouble error
    if remaining ≤ positionEpsilon ∧ absDouble profile.velocity ≤ velocityEpsilon then
      { profile with position := profile.targetPosition, velocity := 0, done := true }
    else
      let direction : R := if error≥0 then 1 else -1
      let along := profile.velocity*direction
      let velocityAlong :=
        if along<0 then
          let slower := along+profile.deceleration*dtS
          if slower>0 then 0 else slower
        else
          let stopDistance := along*along/(2*profile.deceleration)
          if remaining ≤ stopDistance+positionEpsilon then
            let slower := along-profile.deceleration*dtS
            if slower<0 then 0 else slower
          else
            let faster := along+profile.acceleration*dtS
            if faster>profile.maxVelocity then profile.maxVelocity else faster
      let velocity := direction*velocityAlong
      let position := profile.position+velocity*dtS
      if (direction>0 ∧ position≥profile.targetPosition) ∨
          (direction<0 ∧ position ≤ profile.targetPosition) then
        { profile with position := profile.targetPosition, velocity := 0, done := true }
      else { profile with position := position, velocity := velocity }

/-- The search loop: the first segment that ends at or after `elapsed`, else the last one. -/
def findSegment (elapsed : R) : List (ScurveSegment R) → ScurveSegment R
  | [] => ⟨0,⟨0,0,0⟩,0,0⟩
  | [segment] => segment
  | segment::next::rest =>
      if elapsed ≤ segment.startS+segment.time then segment else findSegment elapsed (next::rest)

/-- Position, velocity and acceleration of the plan at a time, before the final clamps. -/
def planSample (segments : List (ScurveSegment R)) (elapsed : R) : JerkState R :=
  let segment := findSegment elapsed segments
  let tau := clampDouble (elapsed-segment.startS) 0 segment.time
  let tau2 := tau*tau
  let tau3 := tau2*tau
  ⟨segment.kin.position+segment.kin.velocity*tau+1/2*segment.kin.acceleration*tau2+
      segment.jerk*tau3/6,
    segment.kin.velocity+segment.kin.acceleration*tau+1/2*segment.jerk*tau2,
    segment.kin.acceleration+segment.jerk*tau⟩

/-- One cycle along a valid plan. -/
def followPositionPlan (profile : Cia402MotionProfile R) (dtS : R) : Cia402MotionProfile R :=
  let elapsedS := profile.plannerElapsedS+dtS
  if elapsedS≥profile.plannerTotalS then
    { profile with
      plannerElapsedS := elapsedS
      position := profile.targetPosition
      velocity := 0
      accelerationState := 0
      done := true }
  else
    let sample := planSample profile.plannerSegments (clampDouble elapsedS 0 profile.plannerTotalS)
    let position := minDouble (maxDouble sample.position 0) profile.plannerDistance
    let velocity := minDouble (maxDouble sample.velocity 0) profile.maxVelocity
    { profile with
      plannerElapsedS := elapsedS
      position := profile.plannerStartPosition+profile.plannerDirection*position
      velocity := profile.plannerDirection*velocity
      accelerationState := profile.plannerDirection*sample.acceleration }

def stepPositionProfileSmooth [HasSqrt R] (profile : Cia402MotionProfile R) (dtS : R) :
    Cia402MotionProfile R :=
  if profile.done then profile
  else if profile.plannerValid then followPositionPlan profile dtS
  else
    let built := scurveBuildPositionPlan profile
    if built.2 then followPositionPlan built.1 dtS
    else stepPositionProfileTrapezoidal built.1 dtS

def stepPositionProfile [HasSqrt R] (profile : Cia402MotionProfile R) (dtS : R) :
    Cia402MotionProfile R :=
  if profileRampTimeS profile ≤ 0 then stepPositionProfileTrapezoidal profile dtS
  else stepPositionProfileSmooth profile dtS

/-- Cycle time in seconds. -/
def periodSeconds (periodUs : Int32) : R :=
  (if periodUs>0 then (periodUs.toInt : R) else 1000)/1000000

/-- The profile `cia402_profile_step` works on: begun anew unless it is active and of the
type commanded. -/
def profileInForce (profile : Cia402MotionProfile R) (command : Cia402MotionCommand R)
    (actualPosition actualVelocity : Int32) : Cia402MotionProfile R :=
  if profile.active=false ∨ profile.type≠command.type then
    cia402ProfileBegin command actualPosition actualVelocity
  else profile

def Cia402MotionProfile.emitted (profile : Cia402MotionProfile R) (output : Cia402PdoOutput) :
    Cia402MotionProfile R :=
  { profile with
    outputPosition := output.targetPosition
    outputVelocity := output.targetVelocity
    cycles := profile.cycles+1 }

/-- New profile and outputs; the return value of the source is the `done` flag of the new
profile, or 1 for a command without motion. -/
def cia402ProfileStep [FloorRing R] [HasSqrt R] (profile : Cia402MotionProfile R)
    (command : Cia402MotionCommand R) (actualPosition actualVelocity periodUs : Int32)
    (output : Cia402PdoOutput) : Cia402MotionProfile R × Cia402PdoOutput × Bool :=
  let current := profileInForce profile command actualPosition actualVelocity
  -- A positive period is already a positive time; the second test of the source cannot fire.
  let dtS : R := periodSeconds periodUs
  let finish := fun (next : Cia402MotionProfile R) (out : Cia402PdoOutput) =>
    (next.emitted out,out,next.done)
  match command.type with
  | .none => (profile,output,true)
  | .profilePosition =>
      let next := stepPositionProfile current dtS
      finish next
        ⟨0x000f,roundToI32 next.position,roundToI32 next.velocity,
          if command.mode≠0 then command.mode else Cia402Mode.csp.code⟩
  | .jogVelocity =>
      let ramped := rampVelocityByProfile current current.targetVelocity dtS
      let next :=
        { ramped with
          position := (actualPosition.toInt : R)
          done := ramped.targetVelocity=0 ∧ absDouble ramped.velocity ≤ velocityEpsilon }
      finish next
        ⟨0x000f,actualPosition,roundToI32 next.velocity,
          if command.mode≠0 then command.mode else Cia402Mode.csv.code⟩
  | .servoStop =>
      let ramped := rampVelocityByProfile current 0 dtS
      let stopped := absDouble ramped.velocity ≤ velocityEpsilon
      let next :=
        { ramped with
          position := (actualPosition.toInt : R)
          done := stopped
          velocity := if stopped then 0 else ramped.velocity }
      finish next
        ⟨0x010f,actualPosition,roundToI32 next.velocity,
          if command.mode≠0 then command.mode else Cia402Mode.csv.code⟩
  | .home =>
      let ramped := rampVelocityByProfile current current.targetVelocity dtS
      let next := { ramped with position := (actualPosition.toInt : R), done := false }
      finish next ⟨0x001f,actualPosition,roundToI32 next.velocity,Cia402Mode.homing.code⟩

end EtherCATMaster.Motion
