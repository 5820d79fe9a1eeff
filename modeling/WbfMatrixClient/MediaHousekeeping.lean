import WbfMatrixClient.Lib.Runs

/-!
# The housekeeping of the media pool

A download writes a pending file, moves it into the pool under its hash and has the row of
the media record it. The writer of the cache removes what is not wanted: pending files that
nobody downloads, files of the pool that no row names, and the oldest ones. It is told which
pending files are in use, when its job was asked for.
-/

namespace WbfMatrixClient
namespace MediaHousekeeping

open Function

structure Row where
  mxc : String
  /-- The pending file of the media has its name from here. -/
  id : Nat
  complete : Bool
  poolFile : Option String

structure PendingFile where
  /-- Not written to for longer than the protection lasts. -/
  expired : Bool
  /-- Of the format of this version. -/
  current : Bool

inductive Kind where
  | chunked
  | matrix
deriving DecidableEq

/-- Where a download stands. -/
inductive Phase where
  | begun
  | opened
  | writing
  | finishing
  | adopted (hash : String)
  | measured (hash : String)
  | recorded

/-- The download has its pending file. -/
def Phase.onFile : Phase → Bool
  | .opened | .writing | .finishing => true
  | _ => false

/-- The file that was moved into the pool and not recorded yet. -/
def Phase.owed : Phase → Option String
  | .adopted hash | .measured hash => some hash
  | _ => none

structure Download where
  mxc : String
  id : Nat
  kind : Kind
  phase : Phase

/-- A file that a job of the writer removes, while a download needs it or not. -/
structure Removal where
  name : String
  live : Bool

/-- A download that is reported complete, and whether the file is there that its row names. -/
structure Report where
  mxc : String
  there : Bool
deriving DecidableEq

structure State where
  rows : List Row
  downloads : List Download
  pending : Nat → Option PendingFile
  /-- The seek file beside a pending one, and whether it has expired. -/
  seek : Nat → Option Bool
  pool : String → Bool
  reading : String → Bool
  openNames : Nat → Bool
  /-- The names in use that a job was asked for with. -/
  snapshots : Nat → Nat → Bool
  removals : List Removal
  reports : List Report

def State.start : State where
  rows := []
  downloads := []
  pending := fun _ => none
  seek := fun _ => none
  pool := fun _ => false
  reading := fun _ => false
  openNames := fun _ => false
  snapshots := fun _ _ => false
  removals := []
  reports := []

inductive Action where
  | begin (mxc : String) (id : Nat) (kind : Kind)
  | openFile (mxc : String) (resumes : Bool)
  | nameFile (mxc : String)
  | land (mxc : String)
  | landSeek (mxc : String)
  | stop (mxc : String) (discards : Bool)
  | finish (mxc : String)
  | adopt (mxc : String) (hash : String)
  | measure (mxc : String)
  | mediaFinish (mxc : String)
  | report (mxc : String)
  | mediaReset (mxc : String)
  | pass (id : Nat)
  | openReader (hash : String)
  | closeReader (hash : String)
  | snapshot (job : Nat)
  | sweepRow (mxc : String) (damaged : Bool)
  | sweepPending (job : Nat) (id : Nat)
  | sweepSeek (job : Nat) (id : Nat)
  | sweepFile (hash : String)
  | collectGarbage (mxc : String)
  | delLocalCopy (mxc : String)

namespace State

def findMedia (s : State) (mxc : String) : Option Row :=
  s.rows.find? fun row => row.mxc = mxc

def findDownload (s : State) (mxc : String) : Option Download :=
  s.downloads.find? fun download => download.mxc = mxc

/-- How many rows name the file of the pool. -/
def mediaReferences (s : State) (hash : String) : Nat :=
  s.rows.countP fun row => row.poolFile = some hash

/-- An unfinished row has the pending file. -/
def isClaimed (s : State) (id : Nat) : Bool :=
  s.rows.any fun row => row.id = id ∧ !row.complete

def resetRow (s : State) (mxc : String) : State :=
  { s with
    rows := s.rows.map fun row =>
      if row.mxc = mxc then { row with complete := false, poolFile := none } else row }

def setPhase (s : State) (mxc : String) (phase : Phase) : State :=
  { s with
    downloads := s.downloads.map fun download =>
      if download.mxc = mxc then { download with phase := phase } else download }

def dropDownload (s : State) (mxc : String) : State :=
  { s with downloads := s.downloads.filter fun download => download.mxc ≠ mxc }

def setName (s : State) (id : Nat) (isOpen : Bool) : State :=
  { s with openNames := update s.openNames id isOpen }

/-- A download starts. That of the other kind is registered with its name at once. -/
def startDownload (s : State) (mxc : String) (id : Nat) (kind : Kind) : State :=
  { s with
    downloads := s.downloads ++ [{ mxc := mxc, id := id, kind := kind, phase := .begun }]
    openNames := if kind = .matrix then update s.openNames id true else s.openNames }

/-- A download is writing the pending file. -/
def isWritten (s : State) (id : Nat) : Bool :=
  s.downloads.any fun download => download.id = id ∧ download.phase.onFile

/-- A download has moved the file into the pool and not recorded it yet. -/
def isOwed (s : State) (hash : String) : Bool :=
  s.downloads.any fun download => download.phase.owed = some hash

def removePool (s : State) (hash : String) : State :=
  { s with
    pool := update s.pool hash false
    removals := s.removals ++ [{ name := hash, live := s.pool hash && s.isOwed hash }] }

def removePending (s : State) (id : Nat) : State :=
  { s with
    pending := update s.pending id none
    removals := s.removals ++
      [{ name := "m" ++ toString id, live := (s.pending id).isSome && s.isWritten id }] }

def removeSeek (s : State) (id : Nat) : State :=
  { s with
    seek := update s.seek id none
    removals := s.removals ++
      [{ name := "m" ++ toString id ++ ".seek", live := (s.seek id).isSome && s.isWritten id }] }

/-- The file of a row goes with it, unless another row names it or somebody reads it. -/
def delPool (s : State) : Option String → State
  | some hash => if s.mediaReferences hash ≤ 1 ∧ !s.reading hash then s.removePool hash else s
  | none => s

def deleteRow (s : State) (mxc : String) : State :=
  { s with rows := s.rows.filter fun row => row.mxc ≠ mxc }

/-- The row names no file, or one that is there. -/
def namesFile (s : State) (mxc : String) : Bool :=
  match s.findMedia mxc with
  | some row => row.poolFile.all s.pool
  | none => true

def step (s : State) : Action → State
  | .begin mxc id kind =>
      match s.findDownload mxc, s.findMedia mxc with
      | none, some row => s.startDownload mxc row.id kind
      | none, none =>
          if s.rows.any fun row => row.id = id then s
          else
            let s : State := { s with
              rows := s.rows ++ [{ mxc := mxc, id := id, complete := false, poolFile := none }] }
            s.startDownload mxc id kind
      | some _, _ => s
  | .openFile mxc resumes =>
      match s.findDownload mxc with
      | some { id, kind, phase := .begun, .. } =>
          let s : State := { s with
            pending :=
              if resumes ∧ kind = .chunked ∧ (s.pending id).any PendingFile.current then s.pending
              else update s.pending id (some { expired := false, current := true }) }
          s.setPhase mxc (if kind = .matrix then .writing else .opened)
      | _ => s
  | .nameFile mxc =>
      match s.findDownload mxc with
      | some { id, phase := .opened, .. } => (s.setPhase mxc .writing).setName id true
      | _ => s
  | .land mxc =>
      match s.findDownload mxc with
      | some { id, phase := .writing, .. } =>
          { s with
            pending := update s.pending id
              ((s.pending id).map fun file => { file with expired := false }) }
      | _ => s
  | .landSeek mxc =>
      match s.findDownload mxc with
      | some { id, kind := .chunked, phase := .writing, .. } =>
          { s with seek := update s.seek id (some false) }
      | _ => s
  | .stop mxc discards =>
      match s.findDownload mxc with
      | some { id, .. } =>
          let s : State := { s with
            pending := if discards then update s.pending id none else s.pending
            seek := if discards then update s.seek id none else s.seek }
          (s.setName id false).dropDownload mxc
      | none => s
  | .finish mxc =>
      match s.findDownload mxc with
      | some { id, kind := .chunked, phase := .writing, .. } =>
          (s.setPhase mxc .finishing).setName id false
      | some { id, kind := .matrix, phase := .writing, .. } =>
          if (s.findMedia mxc).any fun row => row.id = id then s.setPhase mxc .finishing else s
      | _ => s
  | .adopt mxc hash =>
      match s.findDownload mxc with
      | some { id, phase := .finishing, .. } =>
          if (s.pending id).isSome then
            let s : State := { s with
              pending := update s.pending id none
              pool := update s.pool hash true }
            s.setPhase mxc (.adopted hash)
          else
            s
      | _ => s
  | .measure mxc =>
      match s.findDownload mxc with
      | some { phase := .adopted hash, .. } =>
          if s.pool hash then s.setPhase mxc (.measured hash) else s
      | _ => s
  | .mediaFinish mxc =>
      match s.findDownload mxc with
      | some { phase := .measured hash, .. } =>
          let s : State := { s with
            rows := s.rows.map fun row =>
              if row.mxc = mxc then { row with complete := true, poolFile := some hash } else row }
          s.setPhase mxc .recorded
      | _ => s
  | .report mxc =>
      match s.findDownload mxc with
      | some { id, phase := .recorded, .. } =>
          let s : State := { s with
            reports := s.reports ++ [{ mxc := mxc, there := s.namesFile mxc }] }
          (s.setName id false).dropDownload mxc
      | _ => s
  | .mediaReset mxc => s.resetRow mxc
  | .pass id =>
      { s with
        pending := update s.pending id
          ((s.pending id).map fun file => { file with expired := true })
        seek := update s.seek id ((s.seek id).map fun _ => true) }
  | .openReader hash =>
      if s.pool hash then { s with reading := update s.reading hash true } else s
  | .closeReader hash => { s with reading := update s.reading hash false }
  | .snapshot job => { s with snapshots := update s.snapshots job s.openNames }
  | .sweepRow mxc damaged =>
      match s.findMedia mxc with
      | some { complete := true, poolFile, .. } =>
          if damaged ∨ !poolFile.any s.pool then s.resetRow mxc else s
      | _ => s
  | .sweepPending job id =>
      match s.pending id with
      | none => s
      | some file =>
          if s.snapshots job id then s
          else if !s.isClaimed id ∨ file.expired ∨ !file.current then s.removePending id
          else s
  | .sweepSeek job id =>
      match s.seek id with
      | none => s
      | some expired =>
          if s.snapshots job id then s
          else if !s.isClaimed id ∨ expired then s.removeSeek id
          else s
  | .sweepFile hash =>
      if s.pool hash ∧ s.mediaReferences hash = 0 ∧ !s.reading hash then s.removePool hash else s
  | .collectGarbage mxc =>
      match s.findMedia mxc with
      | some { complete := true, poolFile := some hash, .. } =>
          if s.reading hash then s
          else if s.mediaReferences hash ≤ 1 then (s.removePool hash).resetRow mxc
          else s.resetRow mxc
      | _ => s
  | .delLocalCopy mxc =>
      match s.findMedia mxc with
      | none => s
      | some row =>
          if s.openNames row.id then s
          else
            ((s.delPool row.poolFile).removePending row.id).removeSeek row.id |>.deleteRow mxc

end State

/-- No job of the writer meets a file in the time in which it looks as if nobody wanted it.
A pending file that is written is among the names that a sweep was asked for with, or an
unfinished row has it and it is neither too old nor of another format. A file that was moved
into the pool and is not recorded is named by another row, or somebody reads it, when a job
comes to it. -/
def Clear (s : State) : Action → Bool
  | .sweepPending job id => s.isWritten id → s.snapshots job id ∨ s.isClaimed id ∧
      (s.pending id).all fun file => !file.expired ∧ file.current
  | .sweepSeek job id => s.isWritten id → s.snapshots job id ∨ s.isClaimed id ∧
      (s.seek id).all fun expired => !expired
  | .sweepFile hash => s.isOwed hash → s.mediaReferences hash ≠ 0 ∨ s.reading hash
  | .collectGarbage mxc => (s.findMedia mxc).all fun row => row.poolFile.all fun hash =>
      s.isOwed hash → s.reading hash ∨ 1 < s.mediaReferences hash
  | .delLocalCopy mxc => (s.findMedia mxc).all fun row => s.openNames row.id ∨
      (!s.isWritten row.id ∧ row.poolFile.all fun hash =>
        s.isOwed hash → s.reading hash ∨ 1 < s.mediaReferences hash)
  | _ => true

structure Kept (s : State) : Prop where
  rows : ∀ row ∈ s.rows, ∀ hash, row.poolFile = some hash → s.pool hash = true
  owed : ∀ download ∈ s.downloads, ∀ hash, download.phase.owed = some hash → s.pool hash = true
  removals : ∀ removal ∈ s.removals, removal.live = false
  reports : ∀ report ∈ s.reports, report.there = true

theorem kept_start : Kept .start :=
  ⟨fun _ h => absurd h List.not_mem_nil, fun _ h => absurd h List.not_mem_nil,
    fun _ h => absurd h List.not_mem_nil, fun _ h => absurd h List.not_mem_nil⟩

section Steps

variable {s s' : State}

section

variable (hs : Kept s)

include hs

/-- No file of the pool goes. -/
theorem Kept.same (hrows : s'.rows = s.rows) (hpool : s'.pool = s.pool)
    (hdownloads : ∀ download ∈ s'.downloads, ∀ hash, download.phase.owed = some hash → s.pool hash =
      true) (hremovals : s'.removals = s.removals) (hreports : s'.reports = s.reports) :
    Kept s' := by
  obtain ⟨hnamed, _, hremoved, hreported⟩ := hs
  constructor
  case rows =>
    rw [hrows, hpool]
    exact hnamed
  case owed =>
    rw [hpool]
    exact hdownloads
  case removals =>
    rw [hremovals]
    exact hremoved
  case reports =>
    rw [hreports]
    exact hreported

theorem Kept.resetRow (mxc : String) : Kept (s.resetRow mxc) := by
  refine ⟨fun row hrow hash hnames => ?_, hs.owed, hs.removals, hs.reports⟩
  obtain ⟨before, hbefore, rfl⟩ := List.mem_map.mp hrow
  by_cases hsame : before.mxc = mxc
  · rw [if_pos hsame] at hnames
    cases hnames
  · rw [if_neg hsame] at hnames
    exact hs.rows before hbefore hash hnames

theorem Kept.setPhase (mxc : String) {phase : Phase}
    (howed : ∀ hash, phase.owed = some hash → s.pool hash = true) :
    Kept (s.setPhase mxc phase) := by
  refine hs.same rfl rfl (fun download hdownload hash hphase => ?_) rfl rfl
  obtain ⟨before, hbefore, rfl⟩ := List.mem_map.mp hdownload
  by_cases hsame : before.mxc = mxc
  · rw [if_pos hsame] at hphase
    exact howed hash hphase
  · rw [if_neg hsame] at hphase
    exact hs.owed before hbefore hash hphase

theorem Kept.setName (id : Nat) (isOpen : Bool) :
    Kept (s.setName id isOpen) := hs.same rfl rfl hs.owed rfl rfl

theorem Kept.dropDownload (mxc : String) :
    Kept (s.dropDownload mxc) :=
  hs.same rfl rfl (fun download hdownload => hs.owed download (List.mem_filter.mp hdownload).1) rfl rfl

theorem Kept.startDownload (mxc : String) (id : Nat) (kind : Kind) :
    Kept (s.startDownload mxc id kind) := by
  refine hs.same rfl rfl (fun download hdownload hash howed => ?_) rfl rfl
  rcases List.mem_append.mp hdownload with hold | hnew
  · exact hs.owed download hold hash howed
  · rw [List.mem_singleton.mp hnew] at howed
    cases howed

end

theorem findDownload_mem {mxc : String} {download : Download}
    (h : s.findDownload mxc = some download) :
    download ∈ s.downloads := List.mem_of_find?_eq_some h

variable {hash : String}

/-- A file that no download owes and no row names but those that go is removed. -/
theorem Kept.removePool (hs : Kept s) (howed : s.isOwed hash = false)
    (hnames : ∀ row ∈ s'.rows, row ∈ s.rows ∧ row.poolFile ≠ some hash ∨ row.poolFile = none)
    (hpool : s'.pool = update s.pool hash false) (hdownloads : s'.downloads = s.downloads)
    (hremovals : ∀ removal ∈ s'.removals, removal ∈ s.removals ∨ removal.live = false)
    (hreports : s'.reports = s.reports) : Kept s' := by
  have hkeeps : ∀ other, other ≠ hash → s.pool other = true → s'.pool other = true := by
    intro other hne hthere
    rw [hpool, update_of_ne hne]
    exact hthere
  constructor
  case rows =>
    intro row hrow other hother
    rcases hnames row hrow with ⟨hold, hne⟩ | hnone
    · refine hkeeps other ?_ (hs.rows row hold other hother)
      rintro rfl
      exact hne hother
    · rw [hnone] at hother
      cases hother
  case owed =>
    rw [hdownloads]
    intro download hdownload other hother
    refine hkeeps other ?_ (hs.owed download hdownload other hother)
    rintro rfl
    have hany : s.isOwed other = true :=
      List.any_eq_true.mpr ⟨download, hdownload, decide_eq_true hother⟩
    rw [howed] at hany
    cases hany
  case removals =>
    intro removal hremoval
    exact (hremovals removal hremoval).elim (hs.removals removal) id
  case reports =>
    rw [hreports]
    exact hs.reports

theorem unnamed_of_references (h : s.mediaReferences hash = 0) :
    ∀ row ∈ s.rows, row.poolFile ≠ some hash := by
  intro row hrow hnames
  exact List.countP_eq_zero.mp h row hrow (decide_eq_true hnames)

/-- The only row that names a file is the one that was found. -/
theorem unnamed_of_found {mxc : String} {row : Row} (hfound : s.findMedia mxc = some row)
    (hnames : row.poolFile = some hash) (hone : s.mediaReferences hash ≤ 1) :
    ∀ other ∈ s.rows, other.mxc ≠ mxc → other.poolFile ≠ some hash := by
  intro other hother hne hsame
  have hrow : row ∈ s.rows := List.mem_of_find?_eq_some hfound
  have hmxc : row.mxc = mxc := of_decide_eq_true (List.find?_some hfound :)
  have hin : row ∈ s.rows.filter fun row => row.poolFile = some hash :=
    List.mem_filter.mpr ⟨hrow, decide_eq_true hnames⟩
  have hin' : other ∈ s.rows.filter fun row => row.poolFile = some hash :=
    List.mem_filter.mpr ⟨hother, decide_eq_true hsame⟩
  rw [State.mediaReferences, List.countP_eq_length_filter] at hone
  cases hlist : s.rows.filter fun row => row.poolFile = some hash with
  | nil =>
    rw [hlist] at hin
    cases hin
  | cons first others =>
    rw [hlist] at hin hin' hone
    have hnil : others = [] := by
      rw [List.length_cons] at hone
      exact List.length_eq_zero_iff.mp (by omega)
    rw [hnil, List.mem_singleton] at hin hin'
    rw [hin', ← hin] at hne
    exact hne hmxc

section

variable (hs : Kept s)

include hs

theorem Kept.report (mxc : String) :
    Kept { s with reports := s.reports ++ [{ mxc := mxc, there := s.namesFile mxc }] } := by
  refine ⟨hs.rows, hs.owed, hs.removals, fun report hreport => ?_⟩
  rcases List.mem_append.mp hreport with hold | hnew
  · exact hs.reports report hold
  · rw [List.mem_singleton.mp hnew]
    simp only [State.namesFile]
    split
    · rename_i row hfound
      cases hnames : row.poolFile with
      | none => rfl
      | some hash => exact hs.rows row (List.mem_of_find?_eq_some hfound) hash hnames
    · rfl

/-- The row of a download names the file that was moved into the pool for it. -/
theorem Kept.mediaFinish (mxc : String) (hthere : s.pool hash = true) :
    Kept { s with
      rows := s.rows.map fun row =>
        if row.mxc = mxc then { row with complete := true, poolFile := some hash } else row } := by
  refine ⟨fun row hrow other hnames => ?_, hs.owed, hs.removals, hs.reports⟩
  obtain ⟨before, hbefore, rfl⟩ := List.mem_map.mp hrow
  by_cases hsame : before.mxc = mxc
  · rw [if_pos hsame] at hnames
    cases hnames
    exact hthere
  · rw [if_neg hsame] at hnames
    exact hs.rows before hbefore other hnames

theorem Kept.adopt (id : Nat) (mxc hash : String) :
    Kept ({ s with
      pending := update s.pending id none
      pool := update s.pool hash true }.setPhase mxc (.adopted hash)) := by
  have hmore : ∀ other, s.pool other = true → update s.pool hash true other = true := by
    intro other hthere
    rw [update_apply]
    split_ifs
    · rfl
    · exact hthere
  have hadopted : Kept { s with
      pending := update s.pending id none
      pool := update s.pool hash true } :=
    ⟨fun row hrow other hnames => hmore other (hs.rows row hrow other hnames),
      fun download hdownload other howed => hmore other (hs.owed download hdownload other howed),
      hs.removals, hs.reports⟩
  refine hadopted.setPhase mxc fun other howed => ?_
  cases howed
  exact update_self ..

theorem Kept.removePending {id : Nat} (hidle : s.isWritten id = false) :
    Kept (s.removePending id) := by
  refine ⟨hs.rows, hs.owed, fun removal hremoval => ?_, hs.reports⟩
  rcases List.mem_append.mp hremoval with hold | hnew
  · exact hs.removals removal hold
  · rw [List.mem_singleton.mp hnew]
    simp [hidle]

theorem Kept.removeSeek {id : Nat} (hidle : s.isWritten id = false) : Kept (s.removeSeek id) := by
  refine ⟨hs.rows, hs.owed, fun removal hremoval => ?_, hs.reports⟩
  rcases List.mem_append.mp hremoval with hold | hnew
  · exact hs.removals removal hold
  · rw [List.mem_singleton.mp hnew]
    simp [hidle]

omit hs in
theorem removePool_removals (howed : s.isOwed hash = false) :
    ∀ removal ∈ (s.removePool hash).removals, removal ∈ s.removals ∨ removal.live = false := by
  intro removal hremoval
  refine (List.mem_append.mp hremoval).imp_right fun hnew => ?_
  rw [List.mem_singleton.mp hnew]
  simp [howed]

theorem Kept.collectGarbage {mxc : String} (hclear : Clear s (.collectGarbage mxc) = true) :
    Kept (s.step (.collectGarbage mxc)) := by
  unfold State.step
  dsimp only
  split
  · rename_i rowMxc id hash hfound
    split_ifs with hreading hone
    · exact hs
    · have hidle : s.isOwed hash = false := by
        rw [Clear, hfound] at hclear
        by_contra howed
        rw [Bool.not_eq_false] at howed
        have hother := of_decide_eq_true hclear howed
        rcases hother with hreads | hmany
        · exact hreading hreads
        · omega
      refine hs.removePool hidle (fun row hrow => ?_) rfl rfl
        (removePool_removals hidle) rfl
      obtain ⟨before, hbefore, rfl⟩ := List.mem_map.mp hrow
      by_cases hsame : before.mxc = mxc
      · rw [if_pos hsame]
        exact .inr rfl
      · rw [if_neg hsame]
        exact .inl ⟨hbefore, unnamed_of_found hfound rfl hone before hbefore hsame⟩
    · exact hs.resetRow mxc
  · exact hs

theorem Kept.delLocalCopy {mxc : String} (hclear : Clear s (.delLocalCopy mxc) = true) :
    Kept (s.step (.delLocalCopy mxc)) := by
  unfold State.step
  dsimp only
  split
  · exact hs
  · rename_i row hfound
    split_ifs with hopen
    · exact hs
    · rw [Clear, hfound] at hclear
      obtain ⟨hidle, hpool⟩ := (of_decide_eq_true hclear).resolve_left hopen
      have hidle : s.isWritten row.id = false := by simpa using hidle
      have hdeleted : Kept ((s.delPool row.poolFile).deleteRow mxc) ∧
          (s.delPool row.poolFile).isWritten row.id = false := by
        cases hnames : row.poolFile with
        | none =>
          exact ⟨⟨fun other hother => hs.rows other (List.mem_filter.mp hother).1, hs.owed,
            hs.removals, hs.reports⟩, hidle⟩
        | some hash =>
          simp only [State.delPool]
          split_ifs with hremoves
          · obtain ⟨hone, hreading⟩ := hremoves
            have howed : s.isOwed hash = false := by
              rw [hnames] at hpool
              by_contra howed
              rw [Bool.not_eq_false] at howed
              rcases of_decide_eq_true hpool howed with hreads | hmany
              · simp [hreads] at hreading
              · omega
            refine ⟨hs.removePool howed (fun other hother => ?_)
              rfl rfl (removePool_removals howed) rfl, hidle⟩
            obtain ⟨hold, hne⟩ := List.mem_filter.mp hother
            exact .inl ⟨hold, unnamed_of_found hfound hnames hone other hold (of_decide_eq_true hne)⟩
          · exact ⟨⟨fun other hother => hs.rows other (List.mem_filter.mp hother).1, hs.owed,
              hs.removals, hs.reports⟩, hidle⟩
      obtain ⟨hkept, hstill⟩ := hdeleted
      have hpending := hkept.removePending hstill
      exact hpending.removeSeek hstill

theorem Kept.step {action : Action} (hclear : Clear s action = true) : Kept (s.step action) := by
  cases action with
  | begin mxc id kind =>
    unfold State.step
    dsimp only
    split
    · exact hs.startDownload ..
    · split_ifs
      · exact hs
      · refine Kept.startDownload ?_ mxc id kind
        refine ⟨fun row hrow hash hnames => ?_, hs.owed, hs.removals, hs.reports⟩
        rcases List.mem_append.mp hrow with hold | hnew
        · exact hs.rows row hold hash hnames
        · rw [List.mem_singleton.mp hnew] at hnames
          cases hnames
    · exact hs
  | openFile mxc resumes =>
    unfold State.step
    dsimp only
    split
    · refine Kept.setPhase ?_ mxc fun hash howed => ?_
      · exact hs.same rfl rfl hs.owed rfl rfl
      · split_ifs at howed <;> cases howed
    · exact hs
  | nameFile mxc =>
    unfold State.step
    dsimp only
    split
    · exact (hs.setPhase mxc fun _ howed => by cases howed).setName ..
    · exact hs
  | land mxc | landSeek mxc =>
    unfold State.step
    dsimp only
    split
    · exact hs.same rfl rfl hs.owed rfl rfl
    · exact hs
  | stop mxc discards =>
    unfold State.step
    dsimp only
    split
    · refine Kept.dropDownload (Kept.setName ?_ _ _) mxc
      exact hs.same rfl rfl hs.owed rfl rfl
    · exact hs
  | finish mxc =>
    unfold State.step
    dsimp only
    split
    · exact (hs.setPhase mxc fun _ howed => by cases howed).setName ..
    · split_ifs
      · exact hs.setPhase mxc fun _ howed => by cases howed
      · exact hs
    · exact hs
  | adopt mxc hash =>
    unfold State.step
    dsimp only
    split
    · split_ifs
      · exact hs.adopt _ mxc hash
      · exact hs
    · exact hs
  | measure mxc =>
    unfold State.step
    dsimp only
    split
    · split_ifs with hthere
      · refine hs.setPhase mxc fun other howed => ?_
        cases howed
        exact hthere
      · exact hs
    · exact hs
  | mediaFinish mxc =>
    unfold State.step
    dsimp only
    split
    · rename_i found
      exact (hs.mediaFinish mxc (hs.owed _ (findDownload_mem found) _ rfl)).setPhase mxc nofun
    · exact hs
  | report mxc =>
    unfold State.step
    dsimp only
    split
    · exact ((hs.report mxc).setName _ _).dropDownload mxc
    · exact hs
  | mediaReset mxc => exact hs.resetRow mxc
  | pass id | closeReader hash | snapshot job => exact hs.same rfl rfl hs.owed rfl rfl
  | openReader hash =>
    unfold State.step
    dsimp only
    split_ifs
    · exact hs.same rfl rfl hs.owed rfl rfl
    · exact hs
  | sweepRow mxc damaged =>
    unfold State.step
    dsimp only
    split
    · split_ifs
      · exact hs.resetRow mxc
      · exact hs
    · exact hs
  | sweepPending job id =>
    unfold State.step
    dsimp only
    split
    · exact hs
    · rename_i file hfile
      split_ifs with hused hgoes
      · exact hs
      · refine hs.removePending ?_
        by_contra hwritten
        rw [Bool.not_eq_false] at hwritten
        have hsafe := (of_decide_eq_true hclear hwritten).resolve_left hused
        rw [hfile] at hsafe
        obtain ⟨hclaimed, hfresh⟩ := hsafe
        simp_all
      · exact hs
  | sweepSeek job id =>
    unfold State.step
    dsimp only
    split
    · exact hs
    · rename_i expired hfile
      split_ifs with hused hgoes
      · exact hs
      · refine hs.removeSeek ?_
        by_contra hwritten
        rw [Bool.not_eq_false] at hwritten
        have hsafe := (of_decide_eq_true hclear hwritten).resolve_left hused
        rw [hfile] at hsafe
        obtain ⟨hclaimed, hfresh⟩ := hsafe
        simp_all
      · exact hs
  | sweepFile hash =>
    unfold State.step
    dsimp only
    split_ifs with hremoves
    · obtain ⟨_, hnone, hreading⟩ := hremoves
      have howed : s.isOwed hash = false := by
        by_contra howed
        rw [Bool.not_eq_false] at howed
        rcases of_decide_eq_true hclear howed with hnamed | hreads
        · exact hnamed hnone
        · simp [hreads] at hreading
      exact hs.removePool howed
        (fun row hrow => .inl ⟨hrow, unnamed_of_references hnone row hrow⟩) rfl rfl
        (removePool_removals howed) rfl
    · exact hs
  | collectGarbage mxc => exact hs.collectGarbage hclear
  | delLocalCopy mxc => exact hs.delLocalCopy hclear

end

end Steps

/-- In every run in which no job meets a file while it looks as if nobody wanted it, no job
removes a file that a download needs, and the file of a row is there whenever its download is
reported complete. -/
theorem downloads_kept (actions : List Action)
    (hclear : Runs.Along State.step (fun s action => Clear s action = true) .start actions) :
    (∀ removal ∈ (Runs.run State.step .start actions).removals, removal.live = false) ∧
      ∀ report ∈ (Runs.run State.step .start actions).reports, report.there = true := by
  have hkept := Runs.run_invariant_along Kept (fun _ _ hclear hs => Kept.step hs hclear) actions _
    hclear kept_start
  exact ⟨hkept.removals, hkept.reports⟩

/-- A file is downloaded while a sweep and a collection run. -/
def exampleSwept : List Action :=
  [.begin "m" 1 .chunked, .openFile "m" false, .nameFile "m", .snapshot 0, .land "m", .pass 1,
    .sweepRow "m" false, .sweepPending 0 1, .collectGarbage "m", .finish "m", .adopt "m" "h",
    .measure "m", .mediaFinish "m", .sweepFile "h", .report "m"]

theorem downloads_kept_swept :
    (Runs.run State.step .start exampleSwept).reports = [{ mxc := "m", there := true }] ∧
      ∀ report ∈ (Runs.run State.step .start exampleSwept).reports, report.there = true := by
  refine ⟨by decide +kernel, (downloads_kept exampleSwept ?_).2⟩
  exact ⟨rfl, rfl, rfl, rfl, rfl, rfl, rfl, by decide +kernel, by decide +kernel, rfl, rfl, rfl, rfl,
    by decide +kernel, rfl, trivial⟩

/-- A sweep removes the file that was just moved into the pool, and the download is reported
complete. -/
theorem sweeps_adopted :
    ¬((∀ removal ∈ (Runs.run State.step .start
        [.begin "m" 1 .chunked, .openFile "m" false, .nameFile "m", .land "m", .finish "m",
          .adopt "m" "h", .measure "m", .snapshot 0, .sweepFile "h", .mediaFinish "m",
          .report "m"]).removals, removal.live = false) ∧
      ∀ report ∈ (Runs.run State.step .start
        [.begin "m" 1 .chunked, .openFile "m" false, .nameFile "m", .land "m", .finish "m",
          .adopt "m" "h", .measure "m", .snapshot 0, .sweepFile "h", .mediaFinish "m",
          .report "m"]).reports, report.there = true) := by decide +kernel

end MediaHousekeeping
end WbfMatrixClient
