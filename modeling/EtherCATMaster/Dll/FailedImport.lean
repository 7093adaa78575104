import EtherCATMaster.Dll.Merge
import EtherCATMaster.Dll.Persistence

namespace EtherCATMaster.Dll

open Framework

def indexEntries : Option (List UInt8) → List DbEntry
  | none => []
  | some content =>
      (linesFrom 10 (lineSize-1) [] content).foldl
        (fun entries line => dbLoadLine entries (trimInPlace line)) []

def mergeAndSave (saving : Disk) (xml storedPath now : List UInt8) (db : Database) :
    Int × Database :=
  let upserted := dbUpsertXmlEntries xml storedPath now db.entries
  if upserted.1≠ecatOk then (upserted.1,{ db with entries := upserted.2 })
  else dbSave saving { db with entries := upserted.2 }

/-- The XML of a call and its first device, where the import does not end before its first access
to the database. -/
def firstDevice (call : XmlImport) : Option (List UInt8 × DbEntry) :=
  if call.xmlPath=[] then none
  else do
    let xml ← readFileText call.file
    let first ← parseXmlDevice xml
    return (xml,first)

/-- `ECAT_DbImportXml` on a disk that may be another one in the reload and in the save. -/
def dbImportXmlOn (reloading saving : Disk) (call : XmlImport) (db : Database) : Int × Database :=
  match firstDevice call with
  | none => (if call.xmlPath=[] then ecatInvalidArgument else ecatError,db)
  | some (xml,first) =>
      if !call.disk.dirs ∨ !call.disk.copies then (ecatError,db)
      else
        let loaded := dbReload reloading db
        if loaded.1≠ecatOk then loaded
        else mergeAndSave saving xml (buildXmlStorePath db.root first call.xmlPath)
          (currentTimeText call.now) loaded.2

theorem dbImportXmlOn_disk (call : XmlImport) (db : Database) :
    dbImportXmlOn call.disk call.disk call db=dbImportXml call db := by
  by_cases hpath : call.xmlPath=[]
  · simp only [dbImportXmlOn,dbImportXml,firstDevice,if_pos hpath]
  · simp only [dbImportXmlOn,dbImportXml,firstDevice,if_neg hpath]
    cases readFileText call.file with
    | none => rfl
    | some xml =>
      dsimp only
      cases hparse : parseXmlDevice xml with
      | none => simp [hparse]
      | some first =>
        simp only [hparse,Option.bind_eq_bind,Option.bind_some]
        rfl

def reloads (reloading : Disk) (call : XmlImport) : Option (List UInt8 × DbEntry) :=
  if call.disk.dirs ∧ call.disk.copies ∧ reloading.dirs then firstDevice call else none

/-- The table before the call, as it is loaded again from the index if the call comes to this. -/
def entriesBefore (reloading : Disk) (call : XmlImport) (db : Database) : List DbEntry :=
  if (reloads reloading call).isSome then indexEntries db.index else db.entries

theorem entriesBefore_of_agrees {db : Database} (h : db.entries=indexEntries db.index)
    (reloading : Disk) (call : XmlImport) : entriesBefore reloading call db=db.entries := by
  rw [entriesBefore,h]
  exact ite_self _

/-- Nothing has changed. -/
structure Kept (before : List DbEntry) (db after : Database) : Prop where
  entries : after.entries=before
  index : after.index=db.index

/-- A failure of the call does no harm: it does not come to the reload; or it has its table from the
index, and the devices are settled there; or it has no index that it could read and it cannot write
one, and there are no entries. -/
def Harmless (reloading : Disk) (call : XmlImport) (db : Database) : Prop :=
  match reloads reloading call with
  | none => True
  | some (xml,first) =>
      if reloading.reads ∧ db.index.isSome then
        Settled DbEntry.ident ecatMaxDbEntries
          (deviceEntries xml (buildXmlStorePath db.root first call.xmlPath)
            (currentTimeText call.now))
          (indexEntries db.index)
      else reloading.writes=false ∧ indexEntries db.index=[]

instance (reloading : Disk) (call : XmlImport) (db : Database) :
    Decidable (Harmless reloading call db) := by
  unfold Harmless
  split
  · exact isTrue trivial
  · exact inferInstanceAs (Decidable (ite _ _ _))

theorem dbSave_error {disk : Disk} {db : Database} (h : (dbSave disk db).1≠ecatOk) :
    (dbSave disk db).2=db := by
  unfold dbSave at h ⊢
  split_ifs at h ⊢ with hdirs hwrites
  · rfl
  · rfl
  · exact absurd rfl h

variable {saving reloading : Disk} {xml storedPath now : List UInt8} {db : Database}

theorem mergeAndSave_error (h : (mergeAndSave saving xml storedPath now db).1≠ecatOk) :
    (mergeAndSave saving xml storedPath now db).2=
      { db with
        entries := (putUpTo DbEntry.ident ecatMaxDbEntries (deviceEntries xml storedPath now)
          db.entries).2 } := by
  have hmerged : (dbUpsertXmlEntries xml storedPath now db.entries).2=
      (putUpTo DbEntry.ident ecatMaxDbEntries (deviceEntries xml storedPath now)
        db.entries).2 := congrArg Prod.snd (dbUpsertXmlEntries_eq xml storedPath now db.entries)
  rw [← hmerged]
  unfold mergeAndSave at h ⊢
  dsimp only at h ⊢
  split_ifs at h ⊢ with hrefused
  · rfl
  · exact dbSave_error h

theorem dbReload_index {content : List UInt8} (hdirs : reloading.dirs=true)
    (hreads : reloading.reads=true) (hindex : db.index=some content) :
    dbReload reloading db=(ecatOk,{ db with entries := indexEntries db.index }) := by
  rw [dbReload,hdirs,hreads,hindex]
  rfl

theorem dbReload_none (hdirs : reloading.dirs=true)
    (hread : ¬(reloading.reads=true ∧ db.index.isSome=true)) :
    dbReload reloading db=dbSave reloading { db with entries := [] } := by
  have hnone : (if reloading.reads=true then db.index else none)=none := by
    split_ifs with hreads
    · exact Option.not_isSome_iff_eq_none.mp (fun h => hread ⟨hreads,h⟩)
    · rfl
  rw [dbReload,hdirs,hnone]
  rfl

theorem indexEntries_empty : indexEntries (some (indexText []))=[] := by
  have h := @dbReload_saved ⟨[],none,[]⟩ admissible_nil
  exact congrArg (fun r => r.2.entries) h

theorem merge_kept_iff
    (h : (mergeAndSave saving xml storedPath now
      { db with entries := indexEntries db.index }).1≠ecatOk) :
    Kept (indexEntries db.index) db
        (mergeAndSave saving xml storedPath now { db with entries := indexEntries db.index }).2 ↔
      Settled DbEntry.ident ecatMaxDbEntries (deviceEntries xml storedPath now)
        (indexEntries db.index) := by
  rw [mergeAndSave_error h,← putUpTo_eq_iff]
  exact ⟨fun hkept => hkept.entries,fun heq => ⟨heq,rfl⟩⟩

theorem merge_fresh (db : Database) {first : DbEntry} (hfirst : parseXmlDevice xml=some first)
    (h : (mergeAndSave saving xml storedPath now { db with entries := [] }).1≠ecatOk) :
    (mergeAndSave saving xml storedPath now { db with entries := [] }).2.entries≠[] := by
  rw [mergeAndSave_error h]
  intro hnil
  obtain ⟨-,hnone|hroom⟩ := (putUpTo_eq_iff _ _).mp hnil
  · obtain ⟨entry,hentry⟩ := List.exists_mem_of_ne_nil _ (deviceEntries_ne_nil hfirst)
    cases hnone entry hentry
  · cases hroom

theorem firstDevice_parsed {call : XmlImport} {first : DbEntry}
    (h : firstDevice call=some (xml,first)) : parseXmlDevice xml=some first := by
  unfold firstDevice at h
  split_ifs at h
  simp only [Option.bind_eq_bind,Option.bind_eq_some_iff] at h
  obtain ⟨text,-,found,hparse,hsame⟩ := h
  cases hsame
  exact hparse

/-- A failing import changes nothing exactly when it is harmless. -/
theorem failed_import_kept_iff (call : XmlImport) (reloading saving : Disk) (db : Database)
    (hfailed : (dbImportXmlOn reloading saving call db).1≠ecatOk) :
    Kept (entriesBefore reloading call db) db (dbImportXmlOn reloading saving call db).2 ↔
      Harmless reloading call db := by
  have herror : (ecatError : Int)≠ecatOk := by decide
  rw [entriesBefore,Harmless,reloads]
  cases hdevice : firstDevice call with
  | none =>
    have hresult : (dbImportXmlOn reloading saving call db).2=db := by
      rw [dbImportXmlOn,hdevice]
    rw [hresult,ite_self]
    exact ⟨fun _ => trivial,fun _ => ⟨rfl,rfl⟩⟩
  | some p =>
    obtain ⟨xml,first⟩ := p
    have hparse := firstDevice_parsed hdevice
    unfold dbImportXmlOn at hfailed ⊢
    rw [hdevice] at hfailed ⊢
    dsimp only at hfailed ⊢
    by_cases hcopy : (!call.disk.dirs)=true ∨ (!call.disk.copies)=true
    · have hno : ¬(call.disk.dirs=true ∧ call.disk.copies=true ∧ reloading.dirs=true) := by
        rintro ⟨hdirs,hcopies,-⟩
        rw [hdirs,hcopies] at hcopy
        revert hcopy
        decide
      rw [if_pos hcopy,if_neg hno]
      exact ⟨fun _ => trivial,fun _ => ⟨rfl,rfl⟩⟩
    rw [if_neg hcopy] at hfailed ⊢
    obtain ⟨hdirs,hcopies⟩ : call.disk.dirs=true ∧ call.disk.copies=true := by
      simpa using hcopy
    by_cases hreload : reloading.dirs=true
    · have hyes : call.disk.dirs=true ∧ call.disk.copies=true ∧ reloading.dirs=true :=
        ⟨hdirs,hcopies,hreload⟩
      rw [if_pos hyes,Option.isSome_some,if_pos rfl]
      dsimp only
      by_cases hread : reloading.reads=true ∧ db.index.isSome=true
      · obtain ⟨content,hcontent⟩ := Option.isSome_iff_exists.mp hread.2
        have hloaded := dbReload_index hreload hread.1 hcontent
        rw [hloaded,if_neg (fun h => h rfl)] at hfailed ⊢
        rw [if_pos hread]
        exact merge_kept_iff hfailed
      rw [if_neg hread]
      rw [dbReload_none hreload hread] at hfailed ⊢
      by_cases hwrites : reloading.writes=true
      · -- The index has been overwritten, and the table has been started afresh.
        have hsaved : dbSave reloading { db with entries := [] }=
            (ecatOk,{ db with index := some (indexText []), entries := [] }) := by
          rw [dbSave,hreload,hwrites]
          rfl
        rw [hsaved,if_neg (fun h => h rfl)] at hfailed ⊢
        have hfresh := merge_fresh { db with index := some (indexText []) } hparse hfailed
        have hmerged := mergeAndSave_error hfailed
        constructor
        · intro hkept
          have hindex : db.index=some (indexText []) := by
            rw [← hkept.index,hmerged]
          have hentries := hkept.entries
          rw [hindex,indexEntries_empty] at hentries
          exact absurd hentries hfresh
        · rintro ⟨hno,-⟩
          rw [hwrites] at hno
          cases hno
      · have hrefused : reloading.writes=false := Bool.eq_false_of_not_eq_true hwrites
        have hsaved : dbSave reloading { db with entries := [] }=
            (ecatError,{ db with entries := [] }) := by
          rw [dbSave,hreload,hrefused]
          rfl
        rw [hsaved,if_pos herror]
        constructor
        · exact fun hkept => ⟨hrefused,hkept.entries.symm⟩
        · exact fun h => ⟨h.2.symm,rfl⟩
    · have hno : ¬(call.disk.dirs=true ∧ call.disk.copies=true ∧ reloading.dirs=true) :=
        fun h => hreload h.2.2
      have hloaded : dbReload reloading db=(ecatError,db) := by
        rw [dbReload,Bool.eq_false_of_not_eq_true hreload]
        rfl
      rw [if_neg hno,hloaded,if_pos herror]
      exact ⟨fun _ => trivial,fun _ => ⟨rfl,rfl⟩⟩

theorem dbImportXmlOn_unsaved (reloading : Disk) {saving : Disk} (hsaving : saving.writes=false)
    (call : XmlImport) (db : Database) : (dbImportXmlOn reloading saving call db).1≠ecatOk := by
  have herror : (ecatError : Int)≠ecatOk := by decide
  have hsave : ∀ db,dbSave saving db=(ecatError,db) := by
    intro db
    rw [dbSave,hsaving]
    exact ite_self _
  rw [dbImportXmlOn]
  cases firstDevice call with
  | none =>
    dsimp only
    split_ifs
    · exact (by decide : (ecatInvalidArgument : Int)≠ecatOk)
    · exact herror
  | some p =>
    dsimp only
    by_cases hcopy : (!call.disk.dirs)=true ∨ (!call.disk.copies)=true
    · rw [if_pos hcopy]
      exact herror
    · rw [if_neg hcopy]
      by_cases hload : (dbReload reloading db).1≠ecatOk
      · rw [if_pos hload]
        exact hload
      · rw [if_neg hload,mergeAndSave,hsave]
        split_ifs with hmerged
        · exact hmerged
        · exact herror

/-- A disk on which the index cannot be written. -/
def readOnlyDisk : Disk := { workingDisk with writes := false }

def driveImport : XmlImport :=
  importOf "C:\\in\\drive.xml" "<Slave VendorId=\"1\" ProductCode=\"2\"><Name>Drive</Name></Slave>"

/-- The same device is imported twice within a second, and the second save fails. -/
theorem repeated_import_kept :
    Kept (entriesBefore workingDisk driveImport (dbImportXml driveImport
        (emptyDatabase (ascii "C:\\db"))).2)
      (dbImportXml driveImport (emptyDatabase (ascii "C:\\db"))).2
      (dbImportXmlOn workingDisk readOnlyDisk driveImport
        (dbImportXml driveImport (emptyDatabase (ascii "C:\\db"))).2).2 :=
  (failed_import_kept_iff driveImport workingDisk readOnlyDisk
    (dbImportXml driveImport (emptyDatabase (ascii "C:\\db"))).2
    (dbImportXmlOn_unsaved workingDisk rfl _ _)).mpr (by decide +kernel)

/-- The save of a first import fails: the device stays in the table. -/
theorem failed_import_changes :
    ¬∀ (call : XmlImport) (reloading saving : Disk) (db : Database),
      (dbImportXmlOn reloading saving call db).1≠ecatOk →
      Kept (entriesBefore reloading call db) db (dbImportXmlOn reloading saving call db).2 := by
  intro hall
  have hkept := hall driveImport workingDisk readOnlyDisk
    ⟨ascii "C:\\db",some (indexText []),[]⟩ (dbImportXmlOn_unsaved workingDisk rfl _ _)
  have hentries := hkept.entries
  revert hentries
  decide +kernel

end EtherCATMaster.Dll
