import Mathlib.Logic.Function.Basic
import Mathlib.Data.List.Basic

namespace EtherCATMaster.Clock

/-- The registers of a slave that the topology and the clocks are read from. `dcTime` are the
latched times of its ports, `dcSof` is the start of frame in 64 bit. -/
structure Registers where
  escSup : UInt16
  dlStatus : UInt16
  dcTime : Nat → Int32
  dcSof : UInt64

/-- An entry of `slavelist`. A number of a slave is below EC_MAXSLAVE, it never wraps. -/
structure Slave where
  hasdc : Bool
  topology : Nat
  activeports : UInt8
  parent : Nat
  consumedports : UInt8
  entryport : Nat
  parentport : Nat
  pdelay : Int32
  dcRtA : Int32
  dcRtB : Int32
  dcRtC : Int32
  dcRtD : Int32
  group : Nat

def blankSlave : Slave := ⟨false,0,0,0,0,0,0,0,0,0,0,0,0⟩

def portUp (dlStatus : UInt16) : Nat → Bool
  | 0 => dlStatus &&& 0x0300 == 0x0200
  | 1 => dlStatus &&& 0x0c00 == 0x0800
  | 2 => dlStatus &&& 0x3000 == 0x2000
  | 3 => dlStatus &&& 0xc000 == 0x8000
  | _ => false

/-- `PORTM0` to `PORTM3` -/
def portMask : Nat → UInt8
  | 0 => 0x01
  | 1 => 0x02
  | 2 => 0x04
  | 3 => 0x08
  | _ => 0

/-- The number of ports with a link, and their mask. -/
def readTopology (dlStatus : UInt16) : Nat × UInt8 :=
  [0,1,2,3].foldl (fun (h,b) port =>
    if portUp dlStatus port then (h+1,b ||| portMask port) else (h,b)) (0,0)

/-- What a slave adds to `topoc`: -1 for an endpoint, 1 for a split and 2 for a cross. -/
def topologyStep : Nat → Int
  | 1 => -1
  | 3 => 1
  | 4 => 2
  | _ => 0

/-- The loop that searches the parent of a slave, from the slave before it downwards. -/
def parentSearch (topology : Nat → Nat) : Nat → Int → Nat
  | 0,_ => 0
  | slavec+1,topoc =>
      if (topoc+topologyStep (topology (slavec+1)) ≥ 0 ∧ topology (slavec+1)>1) ∨ slavec+1=1 then
        slavec+1
      else parentSearch topology slavec (topoc+topologyStep (topology (slavec+1)))

/-- The part of `ecx_config_init` that finds out how a slave is connected. -/
def initSlave (reg : Nat → Registers) (slavelist : Nat → Slave) (slave : Nat) : Nat → Slave :=
  Function.update slavelist slave
    { slavelist slave with
      hasdc := (reg slave).escSup &&& 0x04>0
      topology := (readTopology (reg slave).dlStatus).1
      activeports := (readTopology (reg slave).dlStatus).2
      parent :=
        if slave>1 then parentSearch (fun i => (slavelist i).topology) (slave-1) 0 else 0 }

def configTopology (reg : Nat → Registers) (slavecount : Nat) : Nat → Slave :=
  (List.range' 1 slavecount).foldl (initSlave reg) (fun _ => blankSlave)

theorem parentSearch_congr {top top' : Nat → Nat} {n : Nat} (h : ∀ i,0 < i → i ≤ n → top i=top' i)
    (topoc : Int) : parentSearch top n topoc=parentSearch top' n topoc := by
  induction n generalizing topoc with
  | zero => rfl
  | succ n ih =>
    simp only [parentSearch]
    rw [h (n+1) (by omega) (Nat.le_refl _),ih (fun i h0 hi => h i h0 (by omega))]

/-- What `ecx_config_init` has stored for a slave. -/
def connected (reg : Nat → Registers) (slave : Nat) : Slave :=
  { blankSlave with
    hasdc := (reg slave).escSup &&& 0x04>0
    topology := (readTopology (reg slave).dlStatus).1
    activeports := (readTopology (reg slave).dlStatus).2
    parent :=
      if slave>1 then parentSearch (fun i => (readTopology (reg i).dlStatus).1) (slave-1) 0
      else 0 }

theorem configTopology_eq (reg : Nat → Registers) (slavecount i : Nat) :
    configTopology reg slavecount i=
      if 0 < i ∧ i ≤ slavecount then connected reg i else blankSlave := by
  induction slavecount generalizing i with
  | zero => rw [if_neg (by omega)]; rfl
  | succ n ih =>
    have hlast : configTopology reg (n+1)=initSlave reg (configTopology reg n) (1+n) := by
      rw [configTopology,List.range'_concat,List.foldl_append,Nat.one_mul]
      rfl
    rw [hlast]
    by_cases hi : i=1+n
    · subst hi
      have hblank : configTopology reg n (1+n)=blankSlave := by
        rw [ih,if_neg (by omega)]
      have hsearch : parentSearch (fun i => (configTopology reg n i).topology) (1+n-1) 0=
          parentSearch (fun i => (readTopology (reg i).dlStatus).1) (1+n-1) 0 := by
        apply parentSearch_congr
        intro j hj hle
        rw [ih,if_pos (by omega)]
        rfl
      rw [initSlave,Function.update_self,hblank,hsearch,
        if_pos (show 0<1+n ∧ 1+n ≤ n+1 by omega)]
      rfl
    · rw [initSlave,Function.update_of_ne hi,ih]
      by_cases hle : 0 < i ∧ i ≤ n
      · rw [if_pos hle,if_pos (by omega)]
      · rw [if_neg hle,if_neg (by omega)]

end EtherCATMaster.Clock
