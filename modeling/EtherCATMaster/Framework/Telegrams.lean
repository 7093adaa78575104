import EtherCATMaster.Framework.ByteStream

namespace EtherCATMaster.Framework

/-- A telegram: what one command does on the line, and what has become of it. -/
structure Telegram where
  command : UInt8
  index : UInt8
  adp : UInt16
  ado : UInt16
  irpt : UInt16
  data : List UInt8
  wkc : UInt16
  deriving DecidableEq, Repr

namespace Telegram

variable (t : Telegram)

def size : Nat := 12+t.data.length

def lengthWord (follows : Bool) : Nat := t.data.length+if follows=true then 2^15 else 0

def header (follows : Bool) : List UInt8 :=
  [t.command,t.index]++le16 t.adp++le16 t.ado++leBytes 2 (t.lengthWord follows)++le16 t.irpt

def encode (follows : Bool) : List UInt8 := t.header follows++(t.data++le16 t.wkc)

def Short : Prop := t.data.length < 2^11

variable {t}

@[simp] theorem header_length (follows : Bool) : (t.header follows).length=10 := rfl

@[simp] theorem encode_length (follows : Bool) : (t.encode follows).length=t.size := by
  rw [encode,List.length_append,List.length_append,header_length,le16_length,size]
  omega

theorem lengthWord_lt (h : t.Short) (follows : Bool) : t.lengthWord follows < 2^16 := by
  rw [Short] at h
  rw [lengthWord]
  cases follows
  · rw [if_neg Bool.false_ne_true]
    omega
  · rw [if_pos rfl]
    omega

theorem lengthWord_length (h : t.Short) (follows : Bool) :
    t.lengthWord follows%2^11=t.data.length := by
  rw [Short] at h
  rw [lengthWord]
  cases follows
  · rw [if_neg Bool.false_ne_true]
    omega
  · rw [if_pos rfl]
    omega

theorem lengthWord_follows (h : t.Short) (follows : Bool) :
    decide (t.lengthWord follows/2^15=1)=follows := by
  rw [Short] at h
  rw [lengthWord]
  cases follows
  · rw [if_neg Bool.false_ne_true,decide_eq_false (by omega)]
  · rw [if_pos rfl,decide_eq_true (by omega)]

end Telegram

/-- The telegram at the front, whether another one follows, and the bytes behind it. -/
def readTelegram (bytes : List UInt8) : Option (Telegram × Bool × List UInt8) :=
  let word := leValue ((bytes.drop 6).take 2)
  let length := word%2^11
  if bytes.length < 12+length then none
  else some (
    { command := bytes.getD 0 0
      index := bytes.getD 1 0
      adp := get16 bytes 2
      ado := get16 bytes 4
      irpt := get16 bytes 8
      data := (bytes.drop 10).take length
      wkc := get16 bytes (10+length) },
    decide (word/2^15=1),bytes.drop (12+length))

theorem readTelegram_encode {t : Telegram} (h : t.Short) (follows : Bool) (rest : List UInt8) :
    readTelegram (t.encode follows++rest)=some (t,follows,rest) := by
  have hword : leValue (((t.encode follows++rest).drop 6).take 2)=t.lengthWord follows :=
    leValue_leBytes 2 (t.lengthWord follows) (t.lengthWord_lt h follows)
  have hlength := t.lengthWord_length h follows
  have hbytes : t.encode follows++rest=t.header follows++(t.data++(le16 t.wkc++rest)) := by
    rw [Telegram.encode,List.append_assoc,List.append_assoc]
  have hadp : get16 (t.encode follows++rest) 2=t.adp := get16_le16 [t.command,t.index] t.adp _
  have hado : get16 (t.encode follows++rest) 4=t.ado :=
    get16_le16 ([t.command,t.index]++le16 t.adp) t.ado _
  have hirpt : get16 (t.encode follows++rest) 8=t.irpt :=
    get16_le16 ([t.command,t.index]++le16 t.adp++le16 t.ado++leBytes 2 (t.lengthWord follows))
      t.irpt _
  have hdata : ((t.encode follows++rest).drop 10).take t.data.length=t.data := by
    rw [hbytes,List.drop_left' (t.header_length follows)]
    exact List.take_left' rfl
  have hwkc : get16 (t.encode follows++rest) (10+t.data.length)=t.wkc := by
    have hfront : (t.header follows++t.data).length=10+t.data.length := by
      rw [List.length_append,Telegram.header_length]
    rw [hbytes,← List.append_assoc,← hfront]
    exact get16_le16 _ _ _
  have hrest : (t.encode follows++rest).drop (12+t.data.length)=rest :=
    List.drop_left' (t.encode_length follows)
  have henough : ¬(t.encode follows++rest).length < 12+t.data.length := by
    rw [List.length_append,t.encode_length,Telegram.size]
    omega
  simp only [readTelegram,hword,hlength]
  rw [if_neg henough,hadp,hado,hirpt,hdata,hwkc,hrest,t.lengthWord_follows h]
  rfl

def encodeTelegrams : List Telegram → List UInt8
  | [] => []
  | t::rest => t.encode (!rest.isEmpty)++encodeTelegrams rest

/-- The chain of telegrams in a frame, of no more than the given number. Nothing is left over. -/
def parseTelegrams : Nat → List UInt8 → Option (List Telegram)
  | 0,_ => none
  | n+1,bytes =>
      match readTelegram bytes with
      | none => none
      | some (t,true,rest) => (parseTelegrams n rest).map (t::·)
      | some (t,false,rest) => if rest=[] then some [t] else none

theorem parseTelegrams_encode {ts : List Telegram} (hne : ts≠[]) (h : ∀ t ∈ ts,t.Short) {n : Nat}
    (hn : ts.length ≤ n) : parseTelegrams n (encodeTelegrams ts)=some ts := by
  induction ts generalizing n with
  | nil => exact absurd rfl hne
  | cons t rest ih =>
    rw [List.length_cons] at hn
    obtain ⟨m,rfl⟩ := Nat.exists_eq_succ_of_ne_zero (by omega : n≠0)
    have ht := h t List.mem_cons_self
    rw [encodeTelegrams,parseTelegrams,readTelegram_encode ht]
    cases rest with
    | nil => rfl
    | cons u us =>
      have hrest := ih (List.cons_ne_nil u us) (fun x hx => h x (List.mem_cons_of_mem _ hx))
        (n := m) (by omega)
      simp only [List.isEmpty_cons,Bool.not_false,hrest,Option.map_some]

/-- The bytes behind the ethernet header: the length of all telegrams and the type of the frame, and
the telegrams. -/
def frameBytes (ts : List Telegram) : List UInt8 :=
  leBytes 2 (0x1000+(encodeTelegrams ts).length)++encodeTelegrams ts

def parseFrame (bytes : List UInt8) : Option (List Telegram) :=
  let word := leValue (bytes.take 2)
  if word/2^12=1 ∧ bytes.length=2+word%2^11 then parseTelegrams bytes.length (bytes.drop 2)
  else none

theorem size_le_encode {ts : List Telegram} {t : Telegram} (h : t ∈ ts) :
    t.size ≤ (encodeTelegrams ts).length := by
  induction ts with
  | nil => cases h
  | cons u rest ih =>
    rw [encodeTelegrams,List.length_append,Telegram.encode_length]
    rcases List.mem_cons.mp h with rfl|hrest
    · omega
    · have := ih hrest
      omega

theorem length_le_encode (ts : List Telegram) : ts.length ≤ (encodeTelegrams ts).length := by
  induction ts with
  | nil => exact Nat.le_refl 0
  | cons t rest ih =>
    rw [encodeTelegrams,List.length_append,Telegram.encode_length,Telegram.size,List.length_cons]
    omega

theorem parseFrame_frameBytes {ts : List Telegram} (hne : ts≠[])
    (h : (encodeTelegrams ts).length < 2^11) : parseFrame (frameBytes ts)=some ts := by
  have hshort : ∀ t ∈ ts,t.Short := by
    intro t ht
    have hle := size_le_encode ht
    rw [Telegram.size] at hle
    exact Nat.lt_of_le_of_lt (Nat.le_trans (Nat.le_add_left _ _) hle) h
  have hword : leValue ((frameBytes ts).take 2)=0x1000+(encodeTelegrams ts).length := by
    rw [frameBytes,List.take_left' (leBytes_length _ _)]
    exact leValue_leBytes _ _ (by omega)
  have hlength : (frameBytes ts).length=2+(encodeTelegrams ts).length := by
    rw [frameBytes,List.length_append,leBytes_length]
  have hdrop : (frameBytes ts).drop 2=encodeTelegrams ts := List.drop_left' (leBytes_length _ _)
  have hcount := length_le_encode ts
  simp only [parseFrame,hword,hlength,hdrop]
  rw [if_pos ⟨by omega,by omega⟩]
  exact parseTelegrams_encode hne hshort (by omega)

def dataPlace : List Telegram → Nat → Nat
  | [],_ => 10
  | _::_,0 => 10
  | t::ts,k+1 => t.size+dataPlace ts k

theorem encode_dataPlace {ts : List Telegram} {k : Nat} {t : Telegram} (h : ts[k]?=some t) :
    ((encodeTelegrams ts).drop (dataPlace ts k)).take t.data.length=t.data := by
  induction ts generalizing k with
  | nil => cases h
  | cons u rest ih =>
    cases k with
    | zero =>
      cases h
      rw [encodeTelegrams,dataPlace,Telegram.encode,List.append_assoc,List.append_assoc,
        List.drop_left' (t.header_length _)]
      exact List.take_left' rfl
    | succ k =>
      rw [encodeTelegrams,dataPlace,← List.drop_drop,List.drop_left' (u.encode_length _)]
      exact ih h

theorem dataPlace_congr {ts us : List Telegram}
    (h : ts.map Telegram.size=us.map Telegram.size) (k : Nat) : dataPlace ts k=dataPlace us k := by
  induction ts generalizing us k with
  | nil =>
    rw [List.map_nil] at h
    rw [List.map_eq_nil_iff.mp h.symm]
  | cons t ts ih =>
    cases us with
    | nil => cases h
    | cons u us =>
      rw [List.map_cons,List.map_cons] at h
      obtain ⟨hsize,hrest⟩ := List.cons.inj h
      cases k with
      | zero => rfl
      | succ k => rw [dataPlace,dataPlace,hsize,ih hrest]

end EtherCATMaster.Framework
