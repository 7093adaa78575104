import EtherCATMaster.Dll.FailedImport

namespace EtherCATMaster.Dll

open Framework

section Match

/-- The loop over the candidates, with the fallback so far. -/
def dbFindFrom (vendorId productCode revision : UInt32) :
    Option DbEntry → List DbEntry → Option DbEntry
  | fallback,[] => fallback
  | fallback,candidate::rest =>
      if candidate.vendorId≠vendorId ∨ candidate.productCode≠productCode then
        dbFindFrom vendorId productCode revision fallback rest
      else if candidate.revision=revision then some candidate
      else if fallback.isNone ∨ candidate.revision=0 then
        dbFindFrom vendorId productCode revision (some candidate) rest
      else dbFindFrom vendorId productCode revision fallback rest

def dbFindMatch (vendorId productCode revision : UInt32) (entries : List DbEntry) :
    Int × Option DbEntry :=
  match dbFindFrom vendorId productCode revision none entries with
  | some entry => (ecatOk,some entry)
  | none => (ecatError,none)

def deviceOf (vendorId productCode : UInt32) (entries : List DbEntry) : Option DbEntry :=
  entries.find? fun entry => entry.vendorId=vendorId ∧ entry.productCode=productCode

/-- The exact revision, else revision 0, else the first entry of the device. -/
def bestMatch (vendorId productCode revision : UInt32) (entries : List DbEntry) :
    Option DbEntry :=
  (rowOf DbEntry.ident (vendorId,productCode,revision) entries).or
    ((rowOf DbEntry.ident (vendorId,productCode,0) entries).or
      (deviceOf vendorId productCode entries))

variable {vendorId productCode revision : UInt32}

theorem rowOf_ident_cons (candidate : DbEntry) (rest : List DbEntry) :
    rowOf DbEntry.ident (vendorId,productCode,revision) (candidate::rest)=
      if (candidate.vendorId=vendorId ∧ candidate.productCode=productCode) ∧
          candidate.revision=revision then some candidate
      else rowOf DbEntry.ident (vendorId,productCode,revision) rest := by
  rw [rowOf,List.find?_cons,rowOf]
  have hkey : decide (candidate.ident=(vendorId,productCode,revision))=
      decide ((candidate.vendorId=vendorId ∧ candidate.productCode=productCode) ∧
        candidate.revision=revision) := by
    simp [DbEntry.ident,and_assoc]
  rw [hkey]
  split_ifs with h
  · rw [decide_eq_true h]
  · rw [decide_eq_false h]

theorem deviceOf_cons (candidate : DbEntry) (rest : List DbEntry) :
    deviceOf vendorId productCode (candidate::rest)=
      if candidate.vendorId=vendorId ∧ candidate.productCode=productCode then some candidate
      else deviceOf vendorId productCode rest := by
  rw [deviceOf,List.find?_cons,deviceOf]
  split_ifs with h
  · rw [decide_eq_true h]
  · rw [decide_eq_false h]

/-- A fallback gives way to the revision 0, of which there is only one. -/
theorem dbFindFrom_eq {entries : List DbEntry} (h : (entries.map DbEntry.ident).Nodup)
    (fallback : Option DbEntry) :
    dbFindFrom vendorId productCode revision fallback entries=
      (rowOf DbEntry.ident (vendorId,productCode,revision) entries).or
        ((rowOf DbEntry.ident (vendorId,productCode,0) entries).or
          (fallback.or (deviceOf vendorId productCode entries))) := by
  induction entries generalizing fallback with
  | nil => cases fallback <;> rfl
  | cons candidate rest ih =>
    obtain ⟨hnew,hrest⟩ := List.nodup_cons.mp h
    have hexactly := @rowOf_ident_cons vendorId productCode revision candidate rest
    have hzeroth := @rowOf_ident_cons vendorId productCode 0 candidate rest
    have hfirst := @deviceOf_cons vendorId productCode candidate rest
    rw [dbFindFrom]
    by_cases hdevice : candidate.vendorId=vendorId ∧ candidate.productCode=productCode
    · have hsame : ¬(candidate.vendorId≠vendorId ∨ candidate.productCode≠productCode) := by
        rintro (hno|hno)
        · exact hno hdevice.1
        · exact hno hdevice.2
      rw [if_pos hdevice] at hfirst
      rw [if_neg hsame,hfirst]
      by_cases hexact : candidate.revision=revision
      · rw [if_pos ⟨hdevice,hexact⟩] at hexactly
        rw [if_pos hexact,hexactly]
        rfl
      rw [if_neg (fun hno => hexact hno.2)] at hexactly
      rw [if_neg hexact,hexactly]
      by_cases hzero : candidate.revision=0
      · -- The other entries of the device have another revision.
        have hnone : rowOf DbEntry.ident (vendorId,productCode,0) rest=none := by
          rw [← Option.not_isSome_iff_eq_none,rowOf_isSome_iff,← hdevice.1,← hdevice.2,← hzero]
          exact hnew
        rw [if_pos ⟨hdevice,hzero⟩] at hzeroth
        rw [if_pos (Or.inr hzero),hzeroth,ih hrest,hnone]
        rfl
      · rw [if_neg (fun hno => hzero hno.2)] at hzeroth
        rw [hzeroth]
        cases fallback with
        | none =>
          rw [if_pos (.inl Option.isNone_none),ih hrest]
          rfl
        | some entry =>
          rw [if_neg (by simp [hzero]),ih hrest]
          rfl
    · have hother : candidate.vendorId≠vendorId ∨ candidate.productCode≠productCode :=
        not_and_or.mp hdevice
      rw [if_neg (fun hno => hdevice hno.1)] at hexactly hzeroth
      rw [if_neg hdevice] at hfirst
      rw [if_pos hother,ih hrest,hexactly,hzeroth,hfirst]

end Match

/-- A call that changes the table. -/
inductive DbCall where
  | importXml (call : XmlImport) (reloading saving : Disk)
  | reload (disk : Disk)

def Database.step (db : Database) : DbCall → Database
  | .importXml call reloading saving => (dbImportXmlOn reloading saving call db).2
  | .reload disk => (dbReload disk db).2

/-- No two entries are of the same device in the same revision. -/
def Distinct (entries : List DbEntry) : Prop := (entries.map DbEntry.ident).Nodup

instance (entries : List DbEntry) : Decidable (Distinct entries) :=
  inferInstanceAs (Decidable (List.Nodup _))

def Written (index : Option (List UInt8)) : Prop :=
  index=none ∨ ∃ saved,Distinct saved ∧ index=some (indexText saved)

/-- No table yet, on an index that is missing or has been written by a save. -/
def Fresh (db : Database) : Prop := db.entries=[] ∧ Written db.index

/-- What every call keeps. -/
structure Sound (db : Database) : Prop where
  distinct : Distinct db.entries
  room : db.entries.length ≤ ecatMaxDbEntries
  written : Written db.index

theorem Fresh.sound {db : Database} (h : Fresh db) : Sound db := by
  refine ⟨?_,?_,h.2⟩
  · rw [h.1]
    exact List.nodup_nil
  · rw [h.1]
    exact Nat.zero_le _

theorem restored_ident (entry : DbEntry) : (restored entry).ident=entry.ident := by
  rw [restored_eq]
  rfl

theorem dbLoadLine_room {entries : List DbEntry} (h : entries.length ≤ ecatMaxDbEntries)
    (line : List UInt8) : (dbLoadLine entries line).length ≤ ecatMaxDbEntries := by
  unfold dbLoadLine
  dsimp only
  split_ifs with hempty hheader hrefused
  · exact h
  · exact h
  · exact h
  · rw [List.length_append,List.length_singleton]
    have hlt : ¬entries.length≥ecatMaxDbEntries := fun hno => hrefused (.inr (.inr hno))
    omega

theorem dbLoadLine_entryLine (entries : List DbEntry) (entry : DbEntry) :
    dbLoadLine entries (entryLine entry)=entries ∨
      dbLoadLine entries (entryLine entry)=entries++[restored entry] := by
  unfold dbLoadLine
  dsimp only
  split_ifs with hempty hheader hrefused
  · exact .inl rfl
  · exact .inl rfl
  · exact .inl rfl
  · exact .inr rfl

theorem loadLines_sublist (saved loaded : List DbEntry) :
    ∃ kept : List DbEntry,kept.Sublist saved ∧
      ((saved.map entryLine).map fun line => line++[10]).foldl
        (fun entries line => dbLoadLine entries (trimInPlace line)) loaded=
        loaded++kept.map restored := by
  induction saved generalizing loaded with
  | nil => exact ⟨[],.slnil,(List.append_nil loaded).symm⟩
  | cons entry saved ih =>
    rw [List.map_cons,List.map_cons,List.foldl_cons,trim_entryLine]
    rcases dbLoadLine_entryLine loaded entry with hsame|hadded
    · obtain ⟨kept,hsub,hload⟩ := ih loaded
      exact ⟨kept,hsub.cons entry,by rw [hsame,hload]⟩
    · obtain ⟨kept,hsub,hload⟩ := ih (loaded++[restored entry])
      exact ⟨entry::kept,hsub.cons_cons entry,by rw [hadded,hload]; simp⟩

theorem indexEntries_distinct {index : Option (List UInt8)} (h : Written index) :
    Distinct (indexEntries index) := by
  rcases h with rfl|⟨saved,hsaved,rfl⟩
  · exact List.nodup_nil
  obtain ⟨kept,hsub,hload⟩ := loadLines_sublist saved []
  have hheader : dbLoadLine [] (trimInPlace (indexHeader++[10]))=[] := by decide
  rw [indexEntries,linesFrom_indexText,List.map_cons,List.foldl_cons,hheader,hload,List.nil_append,
    Distinct,List.map_map]
  have hident : DbEntry.ident ∘ restored=DbEntry.ident := funext restored_ident
  rw [hident]
  exact hsaved.sublist (hsub.map DbEntry.ident)

theorem indexEntries_room (index : Option (List UInt8)) :
    (indexEntries index).length ≤ ecatMaxDbEntries := by
  cases index with
  | none => exact Nat.zero_le _
  | some content =>
    exact loadLines_keep (P := fun entries => entries.length ≤ ecatMaxDbEntries)
      (fun _ line h => dbLoadLine_room h line) _ (Nat.zero_le _)

variable {db : Database}

theorem Sound.save (h : Sound db) (disk : Disk) : Sound (dbSave disk db).2 := by
  unfold dbSave
  split_ifs
  · exact h
  · exact h
  · exact ⟨h.distinct,h.room,.inr ⟨db.entries,h.distinct,rfl⟩⟩

theorem Sound.reload (h : Sound db) (disk : Disk) : Sound (dbReload disk db).2 := by
  by_cases hdirs : disk.dirs=true
  · by_cases hread : disk.reads=true ∧ db.index.isSome=true
    · obtain ⟨content,hcontent⟩ := Option.isSome_iff_exists.mp hread.2
      rw [dbReload_index hdirs hread.1 hcontent]
      exact ⟨indexEntries_distinct h.written,indexEntries_room _,h.written⟩
    · rw [dbReload_none hdirs hread]
      have hempty : Sound { db with entries := [] } :=
        ⟨List.nodup_nil,Nat.zero_le _,h.written⟩
      exact hempty.save disk
  · have hsame : dbReload disk db=(ecatError,db) := by
      rw [dbReload,Bool.eq_false_of_not_eq_true hdirs]
      rfl
    rw [hsame]
    exact h

theorem Sound.merge (h : Sound db) (saving : Disk) (xml storedPath now : List UInt8) :
    Sound (mergeAndSave saving xml storedPath now db).2 := by
  have hmerged : Sound
      { db with entries := (dbUpsertXmlEntries xml storedPath now db.entries).2 } := by
    rw [dbUpsertXmlEntries_eq]
    have hkeeps := @putUpTo_keeps _ _ _ DbEntry.ident ecatMaxDbEntries
      (fun rows => Distinct rows ∧ rows.length ≤ ecatMaxDbEntries)
      (deviceEntries xml storedPath now) ?_ db.entries ⟨h.distinct,h.room⟩
    · exact ⟨hkeeps.1,hkeeps.2,h.written⟩
    · rintro rows entry - ⟨hdistinct,hroom⟩ hfits
      refine ⟨put_nodup hdistinct entry,?_⟩
      rw [put_length]
      split_ifs with hknown
      · exact hroom
      · have hlt : ¬ecatMaxDbEntries ≤ rows.length := fun hfull => hfits ⟨hknown,hfull⟩
        omega
  unfold mergeAndSave
  dsimp only
  split_ifs
  · exact hmerged
  · exact hmerged.save saving

theorem Sound.step (h : Sound db) (call : DbCall) : Sound (db.step call) := by
  cases call with
  | reload disk => exact h.reload disk
  | importXml call reloading saving =>
    rw [Database.step]
    unfold dbImportXmlOn
    cases firstDevice call with
    | none => exact h
    | some p =>
      dsimp only
      split_ifs
      · exact h
      · exact h.reload reloading
      · exact (h.reload reloading).merge saving _ _ _

/-- Every run on a fresh database keeps the keys distinct and within the room, and a lookup returns
the best match. -/
theorem database_lookup (start : Database) (hstart : Fresh start) (calls : List DbCall) :
    Distinct (runFrom Database.step start calls).entries ∧
      (runFrom Database.step start calls).entries.length ≤ ecatMaxDbEntries ∧
      ∀ vendorId productCode revision,
        dbFindMatch vendorId productCode revision (runFrom Database.step start calls).entries=
          (bestMatch vendorId productCode revision
            (runFrom Database.step start calls).entries).elim (ecatError,none)
            fun entry => (ecatOk,some entry) := by
  have hsound : Sound (runFrom Database.step start calls) :=
    invariant_runFrom (C := fun _ _ => True) (fun _ call h _ => h.step call) hstart.sound along_true
  refine ⟨hsound.distinct,hsound.room,?_⟩
  intro vendorId productCode revision
  rw [dbFindMatch,dbFindFrom_eq hsound.distinct,Option.none_or,bestMatch]
  split
  · rename_i hfound
    rw [hfound]
    rfl
  · rename_i hnone
    rw [hnone]
    rfl

def keyEntry (vendorId productCode revision : UInt32) : DbEntry :=
  { blankEntry with vendorId := vendorId, productCode := productCode, revision := revision }

/-- Two revisions of a device in the index. -/
def twoRevisions : Database :=
  ⟨ascii "C:\\db",some (indexText [keyEntry 1 2 7,keyEntry 1 2 8]),[]⟩

/-- A third revision is imported, and then the table is loaded again and searched. -/
theorem third_revision_found :
    dbFindMatch 1 2 0 (runFrom Database.step twoRevisions
      [.importXml driveImport workingDisk workingDisk,.reload workingDisk]).entries=
      (bestMatch 1 2 0 (runFrom Database.step twoRevisions
        [.importXml driveImport workingDisk workingDisk,.reload workingDisk]).entries).elim
        (ecatError,none) fun entry => (ecatOk,some entry) :=
  (database_lookup twoRevisions ⟨rfl,.inr ⟨_,by decide,rfl⟩⟩
    [.importXml driveImport workingDisk workingDisk,.reload workingDisk]).2.2 1 2 0

end EtherCATMaster.Dll
