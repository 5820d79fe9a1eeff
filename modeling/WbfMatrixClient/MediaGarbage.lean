import Mathlib.Algebra.Group.Int.Defs
import Mathlib.Algebra.GroupWithZero.Nat
import Mathlib.Data.Char
import Mathlib.Data.List.Dedup
import Mathlib.Data.List.Lex
import WbfMatrixClient.Lib.Jobs
import WbfMatrixClient.Wire

/-!
# Collecting the garbage of the media pool

Both passes run on the writer of the cache, so nobody else changes a row while they do. The files
are not theirs alone: before each thing that a pass does, others open and close files and put new
ones there, and each thing can fail. What is removed is noted with who had it open.
-/

namespace WbfMatrixClient
namespace MediaGarbage

open Jobs Function

abbrev Name := List Char

local instance : LawfulBEq Name := List.instLawfulBEq

def seekSuffix : Name := ['.', 's', 'e', 'e', 'k']

structure MediaEntry where
  id : Nat
  mxc : String
  poolFile : Option Name
  verified : Nat
  fileSize : Option Nat
  segmentsWritten : Nat
  complete : Bool
  bytesOnDisk : Nat
  lastUsedAt : Int64
deriving DecidableEq

def MediaEntry.reset (entry : MediaEntry) : MediaEntry :=
  { entry with
    poolFile := none, complete := false, verified := 0, segmentsWritten := 0, bytesOnDisk := 0 }

/-- The table of media. A media has one row, and a row its own id. -/
structure MediaTable where
  rows : List MediaEntry
  mxcs : (rows.map MediaEntry.mxc).Nodup
  ids : (rows.map MediaEntry.id).Nodup

namespace MediaTable

variable (table : MediaTable)

def mediaReset (mxc : String) : MediaTable where
  rows := table.rows.map fun row => if row.mxc = mxc then row.reset else row
  mxcs := by
    rw [List.map_map]
    convert table.mxcs using 2
    funext row
    simp only [comp_apply]
    split_ifs <;> rfl
  ids := by
    rw [List.map_map]
    convert table.ids using 2
    funext row
    simp only [comp_apply]
    split_ifs <;> rfl

def mediaReferences (name : Name) : Nat :=
  table.rows.countP fun row => row.poolFile = some name

/-- The files of complete rows, each once. -/
def completeFiles : List (Option Name) :=
  ((table.rows.filter MediaEntry.complete).map MediaEntry.poolFile).dedup

/-- The most bytes that a complete row says the file has. -/
def fileBytes (file : Option Name) : Nat :=
  ((table.rows.filter fun row => row.complete ∧ row.poolFile = file).map
    MediaEntry.bytesOnDisk).foldl max 0

def mediaBytesOnDisk : Nat :=
  (table.completeFiles.map table.fileBytes).sum

def listMediaByLastUsed : List MediaEntry :=
  (table.rows.filter MediaEntry.complete).mergeSort fun first second =>
    first.lastUsedAt < second.lastUsedAt ∨
      first.lastUsedAt = second.lastUsedAt ∧ first.mxc ≤ second.mxc

/-- The number in the name of a pending file. -/
def pendingId : Name → Option Nat
  | 'm' :: digits =>
      if digits ≠ [] ∧ digits.all Char.isDigit then
        let id := digits.foldl (fun id digit => 10 * id + (digit.toNat - '0'.toNat)) 0
        if id < 2 ^ 63 then some id else none
      else none
  | _ => none

def findMediaByPendingName (name : Name) : Option MediaEntry :=
  (pendingId name).bind fun id => table.rows.find? fun row => row.id = id

/-- An unfinished row has the pending file of this name. -/
def isClaimed (owner : Name) : Bool :=
  (table.findMediaByPendingName owner).any fun row => !row.complete

end MediaTable

structure PoolFile where
  shard : Name
  name : Name
  size : Nat
  /-- What a reader finds in it, if it opens. -/
  plainLen : Option Nat

structure PendingFile where
  name : Name
  /-- When it was last written to, in nanoseconds. -/
  modified : Int
  /-- Of the format of this version. -/
  current : Bool

structure Pool where
  files : List PoolFile
  readers : Name → Nat
  pending : List PendingFile

/-- What others do to the pool. -/
inductive Other where
  | openReader (name : Name)
  | closeReader (name : Name)
  | putFile (file : PoolFile)
  | putPending (file : PendingFile)
  | takePending (name : Name)

def isHexDigit (c : Char) : Bool :=
  c.isDigit ∨ ('a' ≤ c ∧ c ≤ 'f') ∨ ('A' ≤ c ∧ c ≤ 'F')

def isPoolName (name : Name) : Bool :=
  4 ≤ name.length ∧ name.all isHexDigit

/-- The file is where its name says. -/
def PoolFile.isAt (file : PoolFile) (name : Name) : Bool :=
  file.shard = name.take 2 ∧ file.name = name

namespace Pool

variable (pool : Pool)

def find (name : Name) : Option PoolFile :=
  pool.files.find? fun file => file.isAt name

def findPending (name : Name) : Option PendingFile :=
  pool.pending.find? fun file => file.name = name

def remove (name : Name) : Pool :=
  { pool with files := pool.files.filter fun file => !file.isAt name }

def discard (name : Name) : Pool :=
  { pool with pending := pool.pending.filter fun file => file.name ≠ name }

def after : Other → Pool
  | .openReader name =>
      if (pool.find name).any fun file => file.plainLen.isSome then
        { pool with readers := update pool.readers name (pool.readers name + 1) }
      else pool
  | .closeReader name =>
      { pool with readers := update pool.readers name (pool.readers name - 1) }
  | .putFile file =>
      { pool with files :=
          (pool.files.filter fun old => old.shard ≠ file.shard ∨ old.name ≠ file.name) ++ [file] }
  | .putPending file => { pool with pending := (pool.discard file.name).pending ++ [file] }
  | .takePending name => pool.discard name

def listFiles : List Name :=
  ((pool.files.filter fun file => (file.shard.map Char.utf8Size).sum = 2).map
    PoolFile.name).mergeSort fun first second => first ≤ second

def listPending : List Name :=
  (pool.pending.map PendingFile.name).mergeSort fun first second => first ≤ second

end Pool

/-- What others do before the pass does the next thing, and the error if that fails. -/
structure Turn where
  others : List Other
  fails : Option SdkError

/-- A file of the pool that was removed: its readers when the pass asked for them, and when it
was removed, and what others did in between. -/
structure Removal where
  name : Name
  asked : Nat
  readers : Nat
  since : List Other

/-- A pending file that was removed, as the pass found it when it asked how old it is and what
format it has. -/
structure Discard where
  owner : Name
  isSeek : Bool
  dated : Option PendingFile
  header : Option PendingFile

structure World where
  table : MediaTable
  pool : Pool
  turns : List Turn
  asked : Nat
  since : List Other
  removals : List Removal
  discards : List Discard

def World.start (table : MediaTable) (pool : Pool) (turns : List Turn) : World :=
  { table := table, pool := pool, turns := turns, asked := 0, since := [], removals := [],
    discards := [] }

/-- The others have their turn. -/
def World.wait (w : World) : Option SdkError × World :=
  match w.turns with
  | [] => (none, w)
  | turn :: turns =>
      (turn.fails, { w with
        turns := turns
        pool := turn.others.foldl Pool.after w.pool
        since := w.since ++ turn.others })

abbrev Pass (α : Type) := Job SdkError World α

namespace Pass

def waitTurn : Pass (Option SdkError) :=
  fun w => (.ok w.wait.1, w.wait.2)

/-- What comes next is done, or it fails. -/
def attempt : Pass Unit := do
  match ← waitTurn with
  | none => pure ()
  | some error => Job.throw error

def mediaBytesOnDisk : Pass Nat := do
  attempt
  return (← Job.get).table.mediaBytesOnDisk

def listMediaByLastUsed : Pass (List MediaEntry) := do
  attempt
  return (← Job.get).table.listMediaByLastUsed

def mediaReferences (name : Name) : Pass Nat := do
  attempt
  return (← Job.get).table.mediaReferences name

def findMediaByPendingName (name : Name) : Pass (Option MediaEntry) := do
  attempt
  return (← Job.get).table.findMediaByPendingName name

def mediaReset (mxc : String) : Pass Unit := do
  attempt
  Job.modify fun w => { w with table := w.table.mediaReset mxc }

section Files

variable (quoted : Name → String)

def pathOf (name : Name) : Pass Unit :=
  if isPoolName name then pure ()
  else Job.throw (.usage ("pool file name " ++ quoted name ++ " is not a hex hash"))

def isOpen (name : Name) : Pass Bool := do
  let _ ← waitTurn
  pathOf quoted name
  Job.modify fun w => { w with asked := w.pool.readers name, since := [] }
  return 0 < (← Job.get).asked

def remove (name : Name) : Pass Unit := do
  pathOf quoted name
  attempt
  Job.modify fun w => { w with
    pool := w.pool.remove name
    removals := w.removals ++ [{
      name := name
      asked := w.asked
      readers := w.pool.readers name
      since := w.since }] }

end Files

def openComplete (entry : MediaEntry) : Pass Bool := do
  match entry.complete, entry.poolFile, ← waitTurn with
  | true, some name, none =>
      let found := ((← Job.get).pool.find name).bind PoolFile.plainLen
      return isPoolName name ∧ found.isSome ∧ found = entry.fileSize
  | _, _, _ => return false

def listPending : Pass (List Name) := do
  attempt
  return (← Job.get).pool.listPending

def listFiles : Pass (List Name) := do
  attempt
  return (← Job.get).pool.listFiles

/-- The pending file, if it is there and can be looked at. -/
def look (name : Name) : Pass (Option PendingFile) := do
  match ← waitTurn with
  | none => return (← Job.get).pool.findPending name
  | some _ => return none

/-- A seek file is not looked into. -/
def lookInto (isSeek : Bool) (name : Name) : Pass (Option PendingFile) :=
  if isSeek then pure none else look name

def discard (removed : Discard) : Pass Unit := do
  attempt
  Job.modify fun w => { w with
    pool := w.pool.discard (if removed.isSeek then removed.owner ++ seekSuffix else removed.owner)
    discards := w.discards ++ [removed] }

end Pass

structure GarbageReport where
  bytesBefore : Nat
  bytesAfter : Nat
  filesRemoved : Nat
  filesInUse : Nat
  stillOverQuota : Bool

def saturatingSub (a b : Int64) : Int :=
  max (-2 ^ 63) (min (2 ^ 63 - 1) (a.toInt - b.toInt))

/-- A duration, given in nanoseconds, in milliseconds. -/
def protectMillis (protect : Nat) : Int :=
  min (protect / 10 ^ 6 : Nat) (2 ^ 63 - 1)

/-- The row was used so lately that its file stays. -/
def isProtected (protect : Nat) (now : Int64) (entry : MediaEntry) : Bool :=
  saturatingSub now entry.lastUsedAt < protectMillis protect

section Passes

variable (quoted : Name → String)

/-- The file of a row goes with it if no other row names it. -/
def collectEntry (quota protect : Nat) (now : Int64) (entry : MediaEntry)
    (report : GarbageReport) : Pass (ForInStep GarbageReport) :=
  if report.bytesAfter ≤ quota then pure (.done report)
  else if isProtected protect now entry then pure (.done report)
  else
    match entry.poolFile with
    | none => pure (.yield report)
    | some name => do
        if ← Pass.isOpen quoted name then
          pure (.yield { report with filesInUse := report.filesInUse + 1 })
        else if (← Pass.mediaReferences name) ≤ 1 then do
          Pass.remove quoted name
          Pass.mediaReset entry.mxc
          pure (.yield { report with
            filesRemoved := report.filesRemoved + 1
            bytesAfter := report.bytesAfter - entry.bytesOnDisk })
        else do
          Pass.mediaReset entry.mxc
          pure (.yield report)

def collectGarbage (quota protect : Nat) (now : Int64) : Pass GarbageReport := do
  let bytesBefore ← Pass.mediaBytesOnDisk
  let report : GarbageReport :=
    { bytesBefore := bytesBefore, bytesAfter := bytesBefore, filesRemoved := 0, filesInUse := 0,
      stillOverQuota := false }
  if bytesBefore ≤ quota then pure report
  else do
    let entries ← Pass.listMediaByLastUsed
    let report ← Job.each (collectEntry quoted quota protect now) entries report
    let bytesAfter ← Pass.mediaBytesOnDisk
    pure { report with bytesAfter := bytesAfter, stillOverQuota := quota < bytesAfter }

structure SweepReport where
  resetRows : Nat
  removedPending : Nat
  removedOrphanFiles : Nat

def sweepRow (entry : MediaEntry) (report : SweepReport) : Pass (ForInStep SweepReport) := do
  if ← Pass.openComplete entry then pure (.yield report)
  else do
    Pass.mediaReset entry.mxc
    pure (.yield { report with resetRows := report.resetRows + 1 })

/-- The name without the suffix of a seek file, and whether it had it. -/
def ownerOf (name : Name) : Name × Bool :=
  if seekSuffix <:+ name then (name.take (name.length - seekSuffix.length), true)
  else (name, false)

/-- Not written to for as long as the protection lasts. -/
def isExpired (protect : Nat) (now : Int) (file : PendingFile) : Bool :=
  file.modified ≤ now ∧ protect ≤ now - file.modified

def sweepPending (protect : Nat) (now : Int) (inUse : List Name) (name : Name)
    (report : SweepReport) : Pass (ForInStep SweepReport) :=
  let (owner, isSeek) := ownerOf name
  if owner ∈ inUse then pure (.yield report)
  else do
    let claimed := (← Pass.findMediaByPendingName owner).any fun entry => !entry.complete
    let dated ← Pass.look name
    let header ← Pass.lookInto isSeek name
    let isOldFormat := !isSeek && !header.any PendingFile.current
    if !claimed || dated.any (isExpired protect now) || isOldFormat then do
      Pass.discard { owner := owner, isSeek := isSeek, dated := dated, header := header }
      pure (.yield { report with removedPending := report.removedPending + 1 })
    else pure (.yield report)

def sweepFile (name : Name) (report : SweepReport) : Pass (ForInStep SweepReport) := do
  if (← Pass.mediaReferences name) = 0 then do
    if ← Pass.isOpen quoted name then pure (.yield report)
    else do
      Pass.remove quoted name
      pure (.yield { report with removedOrphanFiles := report.removedOrphanFiles + 1 })
  else pure (.yield report)

def sweep (protect : Nat) (now : Int) (inUse : List Name) : Pass SweepReport := do
  let report : SweepReport := { resetRows := 0, removedPending := 0, removedOrphanFiles := 0 }
  let entries ← Pass.listMediaByLastUsed
  let report ← Job.each sweepRow entries report
  let names ← Pass.listPending
  let report ← Job.each (sweepPending protect now inUse) names report
  let files ← Pass.listFiles
  Job.each (sweepFile quoted) files report

end Passes

/-- What others do does not change it. -/
def Stable (P : World → Prop) : Prop :=
  ∀ w, P w → P w.wait.2

/-- A fact about the rows and about what was removed. -/
def Noted (F : MediaTable → List Removal → List Discard → Prop) (w : World) : Prop :=
  F w.table w.removals w.discards

/-- A file is open when it goes only if it was opened after the pass asked for its readers. -/
structure Watched (name : Name) (w : World) : Prop where
  asked : w.asked = 0
  readers : 0 < w.pool.readers name → .openReader name ∈ w.since

structure Harmless (removal : Removal) : Prop where
  asked : removal.asked = 0
  readers : 0 < removal.readers → .openReader removal.name ∈ removal.since

theorem readers_after {pool : Pool} {other : Other} {name : Name}
    (h : 0 < (pool.after other).readers name) :
    0 < pool.readers name ∨ other = .openReader name := by
  cases other with
  | openReader opened =>
    by_cases hsame : opened = name
    · rw [hsame]
      exact .inr rfl
    · left
      rw [Pool.after] at h
      split_ifs at h
      · simpa only [update_of_ne (Ne.symm hsame)] using h
      · exact h
  | closeReader closed =>
    left
    by_cases hsame : name = closed
    · subst hsame
      simp only [Pool.after, update_self] at h
      omega
    · simpa only [Pool.after, update_of_ne hsame] using h
  | putFile _ | putPending _ | takePending _ => exact .inl h

theorem readers_foldl {name : Name} :
    ∀ (others : List Other) {pool : Pool},
      0 < (others.foldl Pool.after pool).readers name →
      0 < pool.readers name ∨ .openReader name ∈ others := by
  intro others
  induction others with
  | nil =>
    intro pool h
    exact .inl h
  | cons other others ih =>
    intro pool h
    rcases ih h with hopen | hlater
    · rcases readers_after hopen with hbefore | rfl
      · exact .inl hbefore
      · exact .inr List.mem_cons_self
    · exact .inr (List.mem_cons_of_mem _ hlater)

theorem stable_watched (name : Name) : Stable (Watched name) := by
  intro w h
  unfold World.wait
  split
  · exact h
  · refine ⟨h.asked, fun hopen => List.mem_append.mpr ?_⟩
    exact (readers_foldl _ hopen).imp_left h.readers

section Things

variable {F G : MediaTable → List Removal → List Discard → Prop}

/-- Others change no row and note nothing. -/
theorem stable_noted : Stable (Noted F) := by
  intro w h
  unfold World.wait
  split <;> exact h

theorem stable_noted_watched (name : Name) :
    Stable fun w => Noted F w ∧ Watched name w :=
  fun w h => ⟨stable_noted w h.1, stable_watched name w h.2⟩

variable {P : World → Prop} {α : Type}

variable {E : World → Prop}

theorem waitTurn_spec (hP : Stable P) :
    Triple P Pass.waitTurn (fun _ => P) E := hP

theorem attempt_spec (hP : Stable P) : Triple P Pass.attempt (fun _ => P) P := by
  refine .bind (waitTurn_spec hP) fun failed => ?_
  cases failed with
  | none => exact .pure fun _ h => h
  | some error => exact .throw fun _ h => h

/-- What is read is read of the state, and nothing changes. -/
theorem read_spec (hP : Stable P) (f : World → α) :
    Triple P (do Pass.attempt; return f (← Job.get)) (fun a w => a = f w ∧ P w) P := by
  refine .bind (attempt_spec hP) fun _ => ?_
  refine .bind (R := fun seen w => seen = w ∧ P w) (.get fun _ h => ⟨rfl, h⟩) fun seen => ?_
  exact .pure fun w h => ⟨by rw [h.1], h.2⟩

theorem mediaReset_spec (mxc : String)
    (hG : ∀ table removals discards, F table removals discards → G (table.mediaReset mxc) removals
      discards) :
    Triple (Noted F) (Pass.mediaReset mxc) (fun _ => Noted G) (Noted F) :=
  .bind (attempt_spec stable_noted) fun _ => .modify fun _ h => hG _ _ _ h

variable (quoted : Name → String)

theorem pathOf_spec (name : Name) : Triple P (Pass.pathOf quoted name) (fun _ => P) P := by
  unfold Pass.pathOf
  split_ifs
  · exact .pure fun _ h => h
  · exact .throw fun _ h => h

/-- A file that is not open is watched from then on. -/
theorem isOpen_spec (name : Name) :
    Triple (Noted F) (Pass.isOpen quoted name)
      (fun held w => Noted F w ∧ (held = false → Watched name w)) (Noted F) := by
  refine .bind (waitTurn_spec stable_noted) fun _ => ?_
  refine .bind (pathOf_spec quoted name) fun _ => ?_
  refine .bind (R := fun _ w => Noted F w ∧ w.asked = w.pool.readers name) ?_ fun _ => ?_
  · exact .modify fun _ h => ⟨h, rfl⟩
  · refine .bind (R := fun seen w => seen = w ∧ Noted F w ∧ w.asked = w.pool.readers name)
      (.get fun _ h => ⟨rfl, h⟩) fun seen => ?_
    refine .pure fun w h => ?_
    obtain ⟨rfl, hnoted, hasked⟩ := h
    refine ⟨hnoted, fun hheld => ?_⟩
    have hnone : seen.asked = 0 := by simpa using hheld
    exact ⟨hnone, fun hopen => by omega⟩

theorem remove_spec (name : Name)
    (hG : ∀ table removals discards removal, F table removals discards → removal.name = name →
      Harmless removal → G table (removals ++ [removal]) discards) :
    Triple (fun w => Noted F w ∧ Watched name w) (Pass.remove quoted name) (fun _ => Noted G)
      (Noted F) := by
  refine .bind (R := fun _ w => Noted F w ∧ Watched name w) ?_ fun _ => ?_
  · exact (pathOf_spec quoted name).weaken (fun _ h => h) (fun _ _ h => h) fun _ h => h.1
  refine .bind (R := fun _ w => Noted F w ∧ Watched name w) ?_ fun _ => ?_
  · exact (attempt_spec (stable_noted_watched name)).weaken (fun _ h => h) (fun _ _ h => h)
      fun _ h => h.1
  · exact .modify fun _ h => hG _ _ _ _ h.1 rfl ⟨h.2.asked, h.2.readers⟩

theorem openComplete_spec (entry : MediaEntry) :
    Triple (Noted F) (Pass.openComplete entry) (fun _ => Noted F) E := by
  refine .bind (waitTurn_spec stable_noted) fun failed => ?_
  split
  · exact .bind (R := fun _ => Noted F) (.get fun _ h => h) fun _ => .pure fun _ h => h
  · exact .pure fun _ h => h

theorem look_spec (name : Name) : Triple (Noted F) (Pass.look name) (fun _ => Noted F) E := by
  refine .bind (waitTurn_spec stable_noted) fun failed => ?_
  cases failed with
  | none => exact .bind (R := fun _ => Noted F) (.get fun _ h => h) fun _ => .pure fun _ h => h
  | some _ => exact .pure fun _ h => h

theorem lookInto_spec (isSeek : Bool) (name : Name) :
    Triple (Noted F) (Pass.lookInto isSeek name) (fun _ => Noted F) E := by
  cases isSeek with
  | true => exact .pure fun _ h => h
  | false => exact look_spec name

theorem discard_spec (removed : Discard)
    (hG : ∀ table removals discards, F table removals discards → G table removals (discards ++
      [removed])) :
    Triple (Noted F) (Pass.discard removed) (fun _ => Noted G) (Noted F) :=
  .bind (attempt_spec stable_noted) fun _ => .modify fun _ h => hG _ _ _ h

end Things

end MediaGarbage
end WbfMatrixClient
