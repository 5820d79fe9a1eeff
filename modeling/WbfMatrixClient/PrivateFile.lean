import Mathlib.Data.List.Pairwise
import WbfMatrixClient.Lib.ByteFile
import WbfMatrixClient.Lib.Runs

/-!
# Writing a private file

The key file and the name of the current account are replaced by `write_private`: the bytes
go into a scratch file beside the path, which is synced and then renamed over the path. The
name of the scratch file carries the number of the process.

A file is what its inode holds, a directory says which inode a name stands for. Calls and
readers keep their inode when its name goes to another one. A cut of the power takes back the
last changes of the directory and leaves anything in a file that was not synced.
-/

namespace WbfMatrixClient
namespace PrivateFile

open Function

abbrev Content := List UInt8

/-- The names at one moment: the path, and the scratch file of a process. -/
structure Dir where
  path : Option Nat
  scratch : Nat → Option Nat

/-- Where a call stands. -/
inductive Phase where
  | begun
  | writing (inode written : Nat)
  | synced (inode : Nat)
  | refused
  /-- Whether the path had the bytes of the call after its rename. -/
  | renamed (put : Bool)
  | returned (put : Bool)
  | failed
deriving DecidableEq

/-- The file a call has open. -/
def Phase.inode : Phase → Option Nat
  | .writing inode _ | .synced inode => some inode
  | _ => none

structure Call where
  pid : Nat
  bytes : Content
  phase : Phase

structure Reader where
  inode : Nat
  got : Content

structure State where
  content : Nat → Content
  /-- What the file holds is on the disk. -/
  durable : Nat → Bool
  next : Nat
  /-- The directory and what it was before, newest first. -/
  dir : Dir
  before : List Dir
  calls : List Call
  readers : List Reader
  /-- What readers of the path have seen. -/
  seen : List (Option Content)

/-- The path has an old content, or there is nothing. -/
def State.start (old : Option Content) : State where
  content := fun _ => old.getD []
  durable := fun _ => true
  next := 1
  dir := { path := old.map fun _ => 0, scratch := fun _ => none }
  before := []
  calls := []
  readers := []
  seen := []

/-- The process of a call has died. -/
def Call.stopped (call : Call) : Call :=
  match call.phase with
  | .returned _ => call
  | _ => { call with phase := .failed }

inductive Action where
  | begin (pid : Nat) (bytes : Content)
  | openScratch (call : Nat)
  | write (call count : Nat)
  | sync (call : Nat)
  | rename (call : Nat) (refused : Bool)
  | removeScratch (call : Nat)
  | ret (call : Nat)
  /-- An operation of the call before its rename fails. -/
  | fail (call : Nat)
  | openPath
  | read (reader count : Nat)
  | kill (pid : Nat)
  | cutPower (back : Nat) (left : Nat → Content)

namespace State

def setPhase (s : State) (index : Nat) (phase : Phase) : State :=
  { s with calls := s.calls.modify index fun call => { call with phase := phase } }

def setDir (s : State) (dir : Dir) : State :=
  { s with dir := dir, before := s.dir :: s.before }

/-- Opened with create and truncate. -/
def openFile (s : State) (index pid : Nat) : State :=
  match s.dir.scratch pid with
  | some inode =>
      let s : State := { s with
        content := update s.content inode []
        durable := update s.durable inode false }
      s.setPhase index (.writing inode 0)
  | none =>
      let s : State := { s with
        content := update s.content s.next []
        durable := update s.durable s.next false
        next := s.next + 1
        dir := { s.dir with scratch := update s.dir.scratch pid (some s.next) }
        before := s.dir :: s.before }
      s.setPhase index (.writing (s.next - 1) 0)

/-- What a whole read of the path would give now. -/
def pathContent (s : State) : Option Content :=
  s.dir.path.map s.content

def step (s : State) : Action → State
  | .begin pid bytes =>
      { s with calls := s.calls ++ [{ pid := pid, bytes := bytes, phase := .begun }] }
  | .openScratch index =>
      match s.calls[index]? with
      | some { pid, phase := .begun, .. } => s.openFile index pid
      | _ => s
  | .write index count =>
      match s.calls[index]? with
      | some { bytes, phase := .writing inode written, .. } =>
          let piece := (bytes.drop written).take count
          let s : State := { s with
            content := update s.content inode
              (ByteFile.writeAt (s.content inode) written piece)
            durable := update s.durable inode false }
          s.setPhase index (.writing inode (written + piece.length))
      | _ => s
  | .sync index =>
      match s.calls[index]? with
      | some { bytes, phase := .writing inode written, .. } =>
          if bytes.length ≤ written then
            let s : State := { s with durable := update s.durable inode true }
            s.setPhase index (.synced inode)
          else
            s
      | _ => s
  | .rename index refused =>
      match s.calls[index]? with
      | some { pid, bytes, phase := .synced _ } =>
          match s.dir.scratch pid, refused with
          | some inode, false =>
              let s := s.setDir
                { path := some inode, scratch := update s.dir.scratch pid none }
              s.setPhase index (.renamed (s.pathContent = some bytes))
          | _, _ => s.setPhase index .refused
      | _ => s
  | .removeScratch index =>
      match s.calls[index]? with
      | some { pid, phase := .refused, .. } =>
          let s := s.setDir
            { s.dir with scratch := update s.dir.scratch pid none }
          s.setPhase index .failed
      | _ => s
  | .ret index =>
      match s.calls[index]? with
      | some { phase := .renamed put, .. } => s.setPhase index (.returned put)
      | _ => s
  | .fail index =>
      match s.calls[index]? with
      | some { phase := .begun, .. } | some { phase := .writing _ _, .. } =>
          s.setPhase index .failed
      | _ => s
  | .openPath =>
      match s.dir.path with
      | some inode => { s with readers := s.readers ++ [{ inode := inode, got := [] }] }
      | none => { s with seen := s.seen ++ [none] }
  | .read index count =>
      match s.readers[index]? with
      | some { inode, got } =>
          if (s.content inode).length ≤ got.length then
            { s with
              readers := s.readers.eraseIdx index
              seen := s.seen ++ [some got] }
          else
            { s with
              readers := s.readers.set index
                { inode := inode, got := got ++ ((s.content inode).drop got.length).take count } }
      | none => s
  | .kill pid =>
      { s with calls := s.calls.map fun call => if call.pid = pid then call.stopped else call }
  | .cutPower back left =>
      match (s.dir :: s.before).drop back with
      | dir :: before =>
          { s with
            content := fun inode => if s.durable inode then s.content inode else left inode
            durable := fun _ => true
            dir := dir
            before := before
            calls := s.calls.map Call.stopped
            readers := [] }
      | [] => s

end State

/-- No other call of the same process has the scratch file open when a call opens it. -/
def Clear (s : State) : Action → Bool
  | .openScratch index =>
      match s.calls[index]? with
      | some { pid, phase := .begun, .. } =>
          s.calls.all fun call => call.pid = pid → call.phase.inode = none
      | _ => true
  | _ => true

/-- The old content, or the complete bytes of a call. -/
def Written (old : Option Content) (calls : List Call) (content : Option Content) : Prop :=
  content = old ∨ ∃ call ∈ calls, content = some call.bytes

instance (old : Option Content) (calls : List Call) (content : Option Content) :
    Decidable (Written old calls content) :=
  inferInstanceAs (Decidable (_ ∨ _))

/-- The path is replaced as a whole: nothing else has been seen there, it holds nothing else, and
no call returned without an error that had not put its bytes there. -/
def Atomic (old : Option Content) (s : State) : Prop :=
  (∀ content ∈ s.seen, Written old s.calls content) ∧
    Written old s.calls s.pathContent ∧
    ∀ call ∈ s.calls, call.phase ≠ .returned false

instance (old : Option Content) (s : State) : Decidable (Atomic old s) :=
  inferInstanceAs (Decidable (_ ∧ _ ∧ _))

/-- What has been done of a call. -/
def CallKept (content : Nat → Content) (durable : Nat → Bool) (bytes : Content) : Phase → Prop
  | .writing inode written => written ≤ bytes.length ∧ content inode = bytes.take written
  | .synced inode => content inode = bytes ∧ durable inode = true
  | .renamed put | .returned put => put = true
  | _ => True

/-- At no moment was a scratch file one that had been at the path. -/
def Apart : List Dir → Prop
  | [] => True
  | dir :: before =>
      (∀ older ∈ dir :: before, ∀ pid inode,
        dir.scratch pid = some inode → older.path ≠ some inode) ∧ Apart before

def State.dirs (s : State) : List Dir :=
  s.dir :: s.before

structure DirsKept (old : Option Content) (s : State) : Prop where
  whole : ∀ dir ∈ s.dirs, Written old s.calls (dir.path.map s.content)
  durable : ∀ dir ∈ s.dirs, ∀ inode, dir.path = some inode → s.durable inode = true
  apart : Apart s.dirs
  own : ∀ dir ∈ s.dirs, ∀ pid pid' inode,
    dir.scratch pid = some inode → dir.scratch pid' = some inode → pid = pid'
  pathFresh : ∀ dir ∈ s.dirs, ∀ inode, dir.path = some inode → inode < s.next
  scratchFresh : ∀ dir ∈ s.dirs, ∀ pid inode, dir.scratch pid = some inode → inode < s.next

/-- The file a call has open is its own, and is not at the path. -/
structure HeldKept (s : State) (pid inode : Nat) : Prop where
  fresh : inode < s.next
  apart : ∀ dir ∈ s.dirs, dir.path ≠ some inode
  own : ∀ other, s.dir.scratch other = some inode → other = pid
  name : ∀ other, s.dir.scratch pid = some other → other = inode

structure Kept (old : Option Content) (s : State) : Prop where
  dirs : DirsKept old s
  held : ∀ (index : Nat) (call : Call) (inode : Nat), s.calls[index]? = some call → call.phase.inode = some inode →
    HeldKept s call.pid inode
  alone : ∀ (index index' : Nat) (call call' : Call) (inode inode' : Nat),
    s.calls[index]? = some call → s.calls[index']? = some call' →
      call.phase.inode = some inode → call'.phase.inode = some inode' →
        inode = inode' ∨ call.pid = call'.pid → index = index'
  calls : ∀ (index : Nat) (call : Call), s.calls[index]? = some call →
    CallKept s.content s.durable call.bytes call.phase
  readers : ∀ reader ∈ s.readers, (∃ dir ∈ s.dirs, dir.path = some reader.inode) ∧
    reader.got = (s.content reader.inode).take reader.got.length
  seen : ∀ content ∈ s.seen, Written old s.calls content

theorem kept_start (old : Option Content) : Kept old (.start old) := by
  have hdirs : DirsKept old (.start old) := by
    refine ⟨fun dir hdir => ?_, fun _ _ _ _ => rfl, ⟨fun _ _ pid inode h => ?_, trivial⟩,
      fun dir hdir pid _ inode h => ?_, fun dir hdir inode h => ?_, fun dir hdir pid inode h => ?_⟩
    · obtain rfl := List.mem_singleton.mp hdir
      left
      cases old <;> rfl
    · cases h
    · obtain rfl := List.mem_singleton.mp hdir
      cases h
    · obtain rfl := List.mem_singleton.mp hdir
      cases old with
      | none => cases h
      | some text =>
        cases h
        exact Nat.zero_lt_one
    · obtain rfl := List.mem_singleton.mp hdir
      cases h
  exact ⟨hdirs, fun _ _ _ h => by simp [State.start] at h, fun _ _ _ _ _ _ h => by simp [State.start] at h,
    fun _ _ h => by simp [State.start] at h, fun _ h => (List.not_mem_nil h).elim,
    fun _ h => (List.not_mem_nil h).elim⟩

section Steps

variable {old : Option Content} {s : State}

theorem Written.mono {calls calls' : List Call} {content : Option Content}
    (h : Written old calls content)
    (hcalls : ∀ call ∈ calls, ∃ call' ∈ calls', call'.bytes = call.bytes) :
    Written old calls' content := by
  refine h.imp_right ?_
  rintro ⟨call, hcall, rfl⟩
  obtain ⟨call', hcall', hbytes⟩ := hcalls call hcall
  exact ⟨call', hcall', by rw [hbytes]⟩

theorem Apart.drop {dirs : List Dir} (h : Apart dirs) (count : Nat) : Apart (dirs.drop count) := by
  induction count generalizing dirs with
  | zero => exact h
  | succ count ih =>
    cases dirs with
    | nil => trivial
    | cons dir before => exact ih h.2

/-- The calls change their phase and keep their bytes. -/
theorem DirsKept.calls (hs : DirsKept old s) {calls : List Call}
    (hcalls : ∀ call ∈ s.calls, ∃ call' ∈ calls, call'.bytes = call.bytes) :
    DirsKept old { s with calls := calls } :=
  ⟨fun dir hdir => (hs.whole dir hdir).mono hcalls, hs.durable, hs.apart, hs.own, hs.pathFresh,
    hs.scratchFresh⟩

theorem setPhase_calls (index : Nat) (phase : Phase) :
    ∀ call ∈ s.calls, ∃ call' ∈ (s.setPhase index phase).calls, call'.bytes = call.bytes := by
  intro call hcall
  obtain ⟨place, hplace⟩ := List.mem_iff_getElem?.mp hcall
  have hmod : (s.setPhase index phase).calls[place]? =
      some (if index = place then { call with phase := phase } else call) := by
    simp [State.setPhase, List.getElem?_modify, hplace]
  refine ⟨_, List.mem_of_getElem? hmod, ?_⟩
  split_ifs <;> rfl

variable {index : Nat} {phase : Phase} {call : Call}

/-- A call after one of them has changed its phase. -/
theorem setPhase_get {place : Nat} (h : (s.setPhase index phase).calls[place]? = some call) :
    ∃ earlier, s.calls[place]? = some earlier ∧ earlier.pid = call.pid ∧
      earlier.bytes = call.bytes ∧
      call.phase = if place = index then phase else earlier.phase := by
  simp only [State.setPhase, List.getElem?_modify, Option.map_eq_map, Option.map_eq_some_iff] at h
  obtain ⟨earlier, hearlier, rfl⟩ := h
  refine ⟨earlier, hearlier, ?_⟩
  by_cases hsame : index = place
  · simp [hsame]
  · simp [hsame, Ne.symm hsame]

theorem Kept.release (hs : Kept old s) (index : Nat) (hnone : phase.inode = none)
    (hkept : ∀ bytes, CallKept s.content s.durable bytes phase) :
    Kept old (s.setPhase index phase) := by
  have hhas : ∀ (place : Nat) (call : Call) (inode : Nat), (s.setPhase index phase).calls[place]? = some call →
      call.phase.inode = some inode →
        ∃ earlier, s.calls[place]? = some earlier ∧ earlier.pid = call.pid ∧
          earlier.phase.inode = some inode := by
    intro place call inode hcall hinode
    obtain ⟨earlier, hearlier, hpid, -, hphase⟩ := setPhase_get hcall
    refine ⟨earlier, hearlier, hpid, ?_⟩
    split_ifs at hphase with hsame
    · rw [hphase, hnone] at hinode
      cases hinode
    · rw [← hphase]
      exact hinode
  refine ⟨hs.dirs.calls (setPhase_calls index phase), fun place call inode hcall hinode => ?_,
    fun place place' call call' inode inode' hcall hcall' hinode hinode' hsame => ?_,
    fun place call hcall => ?_, hs.readers,
    fun content hcontent => (hs.seen content hcontent).mono (setPhase_calls index phase)⟩
  · obtain ⟨earlier, hearlier, hpid, hheld⟩ := hhas place call inode hcall hinode
    rw [← hpid]
    obtain ⟨hfresh, hapart, hown, hname⟩ := hs.held place earlier inode hearlier hheld
    exact ⟨hfresh, hapart, hown, hname⟩
  · obtain ⟨earlier, hearlier, hpid, hheld⟩ := hhas place call inode hcall hinode
    obtain ⟨earlier', hearlier', hpid', hheld'⟩ := hhas place' call' inode' hcall' hinode'
    refine hs.alone place place' earlier earlier' inode inode' hearlier hearlier' hheld hheld' ?_
    rw [hpid, hpid']
    exact hsame
  · obtain ⟨earlier, hearlier, -, hbytes, hphase⟩ := setPhase_get hcall
    rw [hphase, ← hbytes]
    split_ifs
    · exact hkept _
    · exact hs.calls place earlier hearlier

/-- What a call has done is about its own file. -/
theorem CallKept.other {content content' : Nat → Content} {durable durable' : Nat → Bool}
    {bytes : Content} (h : CallKept content durable bytes phase)
    (hsame : ∀ inode, phase.inode = some inode → content' inode = content inode ∧ durable' inode =
      durable inode) : CallKept content' durable' bytes phase := by
  cases phase with
  | writing inode written =>
    obtain ⟨hlength, hcontent⟩ := h
    exact ⟨hlength, by rw [(hsame inode rfl).1, hcontent]⟩
  | synced inode =>
    obtain ⟨hcontent, hdurable⟩ := h
    obtain ⟨hcontent', hdurable'⟩ := hsame inode rfl
    exact ⟨by rw [hcontent', hcontent], by rw [hdurable', hdurable]⟩
  | renamed put | returned put => exact h
  | begun | refused | failed => trivial

/-- A call changes a file that nobody else has open and that is not at the path. -/
theorem Kept.hold (hs : Kept old s) (inode : Nat) (phase : Phase)
    (hcall : s.calls[index]? = some call) (hinode : phase.inode = some inode)
    (hheld : HeldKept s call.pid inode)
    (hothers : ∀ (place : Nat) (other : Call) (inode' : Nat), s.calls[place]? = some other → place ≠
      index → other.phase.inode = some inode' → inode' ≠ inode ∧ other.pid ≠ call.pid)
    (text : Content) (flag : Bool)
    (hkept : CallKept (update s.content inode text) (update s.durable inode flag)
      call.bytes phase) :
    Kept old ({ s with
      content := update s.content inode text
      durable := update s.durable inode flag }.setPhase index phase) := by
  have hpaths : ∀ dir ∈ s.dirs, ∀ inode', dir.path = some inode' → inode' ≠ inode := by
    rintro dir hdir inode' hpath rfl
    exact hheld.apart dir hdir hpath
  refine ⟨?_, fun place other inode' hother hinode' => ?_,
    fun place place' other other' inode₁ inode₂ hother hother' hinode₁ hinode₂ hsame => ?_,
    fun place other hother => ?_, fun reader hreader => ?_,
    fun content hcontent => (hs.seen content hcontent).mono (setPhase_calls index phase)⟩
  · refine DirsKept.calls (s := { s with
      content := update s.content inode text
      durable := update s.durable inode flag }) ?_ (setPhase_calls index phase)
    refine ⟨fun dir hdir => ?_, fun dir hdir inode' hpath => ?_, hs.dirs.apart, hs.dirs.own,
      hs.dirs.pathFresh, hs.dirs.scratchFresh⟩
    · have hwhole := hs.dirs.whole dir hdir
      cases hpath : dir.path with
      | none =>
        rw [hpath] at hwhole
        exact hwhole
      | some inode' =>
        rw [hpath, Option.map_some] at hwhole
        show Written old s.calls (some (update s.content inode text inode'))
        rw [update_of_ne (hpaths dir hdir inode' hpath)]
        exact hwhole
    · have hne := hpaths dir hdir inode' hpath
      show update s.durable inode flag inode' = true
      rw [update_of_ne hne]
      exact hs.dirs.durable dir hdir inode' hpath
  · obtain ⟨earlier, hearlier, hpid, -, hphase⟩ := setPhase_get hother
    rw [hphase] at hinode'
    split_ifs at hinode' with hsame
    · subst hsame
      have hfound : earlier = call := Option.some.inj (hearlier.symm.trans hcall)
      rw [hinode] at hinode'
      cases hinode'
      rw [← hpid, hfound]
      exact ⟨hheld.fresh, hheld.apart, hheld.own, hheld.name⟩
    · rw [← hpid]
      obtain ⟨hfresh, hapart, hown, hname⟩ := hs.held place earlier inode' hearlier hinode'
      exact ⟨hfresh, hapart, hown, hname⟩
  · obtain ⟨earlier, hearlier, hpid, -, hphase⟩ := setPhase_get hother
    obtain ⟨earlier', hearlier', hpid', -, hphase'⟩ := setPhase_get hother'
    rw [hphase] at hinode₁
    rw [hphase'] at hinode₂
    rw [← hpid, ← hpid'] at hsame
    split_ifs at hinode₁ hinode₂ with hplace hplace' hplace'
    · rw [hplace, hplace']
    · subst hplace
      have hfound : earlier = call := Option.some.inj (hearlier.symm.trans hcall)
      rw [hinode] at hinode₁
      cases hinode₁
      obtain ⟨hne, hpids⟩ := hothers place' earlier' inode₂ hearlier' hplace' hinode₂
      rw [hfound] at hsame
      exact (hsame.elim (fun h => hne h.symm) fun h => hpids h.symm).elim
    · subst hplace'
      have hfound : earlier' = call := Option.some.inj (hearlier'.symm.trans hcall)
      rw [hinode] at hinode₂
      cases hinode₂
      obtain ⟨hne, hpids⟩ := hothers place earlier inode₁ hearlier hplace hinode₁
      rw [hfound] at hsame
      exact (hsame.elim hne hpids).elim
    · exact hs.alone place place' earlier earlier' inode₁ inode₂ hearlier hearlier' hinode₁ hinode₂
        hsame
  · obtain ⟨earlier, hearlier, -, hbytes, hphase⟩ := setPhase_get hother
    rw [hphase, ← hbytes]
    split_ifs with hsame
    · subst hsame
      have hfound : earlier = call := Option.some.inj (hearlier.symm.trans hcall)
      rw [hfound]
      exact hkept
    · refine (hs.calls place earlier hearlier).other fun inode' hinode' => ?_
      have hne := (hothers place earlier inode' hearlier hsame hinode').1
      exact ⟨update_of_ne hne .., update_of_ne hne ..⟩
  · obtain ⟨⟨dir, hdir, hpath⟩, hgot⟩ := hs.readers reader hreader
    refine ⟨⟨dir, hdir, hpath⟩, ?_⟩
    show reader.got = (update s.content inode text reader.inode).take reader.got.length
    rw [update_of_ne (hpaths dir hdir _ hpath)]
    exact hgot

variable {inode : Nat}

section

variable (hs : Kept old s)

include hs

/-- The other calls have other files, when one has one. -/
theorem Kept.others (hcall : s.calls[index]? = some call) (hinode : call.phase.inode = some inode) :
    ∀ (place : Nat) (other : Call) (inode' : Nat), s.calls[place]? = some other → place ≠ index →
      other.phase.inode = some inode' → inode' ≠ inode ∧ other.pid ≠ call.pid := by
  intro place other inode' hother hne hinode'
  constructor
  · rintro rfl
    exact hne (hs.alone place index other call inode' inode' hother hcall hinode' hinode (.inl rfl))
  · intro hpid
    exact hne (hs.alone place index other call inode' inode hother hcall hinode' hinode (.inr hpid))

/-- A name goes to another file, and no call has it open that is then at the path. -/
theorem Kept.setDir {dir : Dir} (hwhole : Written old s.calls (dir.path.map s.content))
    (hdurable : ∀ inode, dir.path = some inode → s.durable inode = true)
    (hpaths : ∀ inode, dir.path = some inode → inode < s.next)
    (hscratch : ∀ pid inode, dir.scratch pid = some inode → s.dir.scratch pid = some inode)
    (hapart : ∀ pid inode, dir.scratch pid = some inode → dir.path ≠ some inode)
    (hheld : ∀ (index : Nat) (call : Call) (inode : Nat), s.calls[index]? = some call →
      call.phase.inode = some inode → dir.path ≠ some inode) : Kept old (s.setDir dir) := by
  have hcases : ∀ {other : Dir}, other ∈ (s.setDir dir).dirs → other = dir ∨ other ∈ s.dirs :=
    fun hother => List.mem_cons.mp hother
  have hcurrent : s.dir ∈ s.dirs := List.mem_cons_self
  refine ⟨⟨fun other hother => ?_, fun other hother inode hpath => ?_, ⟨fun older holder pid inode
      hname => ?_, hs.dirs.apart⟩, fun other hother pid pid' inode hname hname' => ?_,
      fun other hother inode hpath => ?_, fun other hother pid inode hname => ?_⟩,
    fun index call inode hcall hinode => ?_, hs.alone, hs.calls, fun reader hreader => ?_, hs.seen⟩
  · rcases hcases hother with rfl | hold
    · exact hwhole
    · exact hs.dirs.whole other hold
  · rcases hcases hother with rfl | hold
    · exact hdurable inode hpath
    · exact hs.dirs.durable other hold inode hpath
  · rcases hcases holder with rfl | hold
    · exact hapart pid inode hname
    · exact hs.dirs.apart.1 older hold pid inode (hscratch pid inode hname)
  · rcases hcases hother with rfl | hold
    · exact hs.dirs.own s.dir hcurrent pid pid' inode (hscratch pid inode hname)
        (hscratch pid' inode hname')
    · exact hs.dirs.own other hold pid pid' inode hname hname'
  · rcases hcases hother with rfl | hold
    · exact hpaths inode hpath
    · exact hs.dirs.pathFresh other hold inode hpath
  · rcases hcases hother with rfl | hold
    · exact hs.dirs.scratchFresh s.dir hcurrent pid inode (hscratch pid inode hname)
    · exact hs.dirs.scratchFresh other hold pid inode hname
  · have hbefore := hs.held index call inode hcall hinode
    refine ⟨hbefore.fresh, fun other hother => ?_,
      fun other hname => hbefore.own other (hscratch other inode hname),
      fun other hname => hbefore.name other (hscratch call.pid other hname)⟩
    rcases hcases hother with rfl | hold
    · exact hheld index call inode hcall hinode
    · exact hbefore.apart other hold
  · obtain ⟨⟨other, hother, hpath⟩, hgot⟩ := hs.readers reader hreader
    exact ⟨⟨other, List.mem_cons_of_mem _ hother, hpath⟩, hgot⟩

theorem Kept.create (pid : Nat)
    (hidle : ∀ call ∈ s.calls, call.pid = pid → call.phase.inode = none) :
    Kept old { s with
      next := s.next + 1
      dir := { s.dir with scratch := update s.dir.scratch pid (some s.next) }
      before := s.dir :: s.before } := by
  have hcurrent : s.dir ∈ s.dirs := List.mem_cons_self
  have hname : ∀ other inode,
      update s.dir.scratch pid (some s.next) other = some inode →
        other = pid ∧ inode = s.next ∨ other ≠ pid ∧ s.dir.scratch other = some inode := by
    intro other inode h
    rw [update_apply] at h
    split_ifs at h with hsame
    · exact .inl ⟨hsame, (Option.some.inj h).symm⟩
    · exact .inr ⟨hsame, h⟩
  have hpath : ∀ dir ∈ s.dirs, dir.path ≠ some s.next := by
    intro dir hdir h
    exact Nat.lt_irrefl _ (hs.dirs.pathFresh dir hdir _ h)
  have hscratch : ∀ other, s.dir.scratch other ≠ some s.next := by
    intro other h
    exact Nat.lt_irrefl _ (hs.dirs.scratchFresh s.dir hcurrent other _ h)
  refine ⟨⟨fun other hother => ?_, fun other hother inode h => ?_, ⟨fun older holder other inode h =>
      ?_, hs.dirs.apart⟩, fun other hother pid₁ pid₂ inode h₁ h₂ => ?_,
      fun other hother inode h => ?_, fun other hother pid' inode h => ?_⟩,
    fun index call inode hcall hinode => ?_, hs.alone, hs.calls, fun reader hreader => ?_, hs.seen⟩
  · rcases List.mem_cons.mp hother with rfl | hold
    · exact hs.dirs.whole s.dir hcurrent
    · exact hs.dirs.whole other hold
  · rcases List.mem_cons.mp hother with rfl | hold
    · exact hs.dirs.durable s.dir hcurrent inode h
    · exact hs.dirs.durable other hold inode h
  · have hdir : ∃ dir ∈ s.dirs, older.path = dir.path := by
      rcases List.mem_cons.mp holder with rfl | hold
      · exact ⟨s.dir, hcurrent, rfl⟩
      · exact ⟨older, hold, rfl⟩
    obtain ⟨dir, hdir, hsame⟩ := hdir
    rw [hsame]
    rcases hname other inode h with ⟨-, rfl⟩ | ⟨-, hold⟩
    · exact hpath dir hdir
    · exact hs.dirs.apart.1 dir hdir other inode hold
  · rcases List.mem_cons.mp hother with rfl | hold
    · rcases hname pid₁ inode h₁ with ⟨rfl, rfl⟩ | ⟨-, hold₁⟩
      · rcases hname pid₂ _ h₂ with ⟨rfl, -⟩ | ⟨-, hold₂⟩
        · rfl
        · exact (hscratch pid₂ hold₂).elim
      · rcases hname pid₂ _ h₂ with ⟨rfl, rfl⟩ | ⟨-, hold₂⟩
        · exact (hscratch pid₁ hold₁).elim
        · exact hs.dirs.own s.dir hcurrent pid₁ pid₂ inode hold₁ hold₂
    · exact hs.dirs.own other hold pid₁ pid₂ inode h₁ h₂
  · show inode < s.next + 1
    rcases List.mem_cons.mp hother with rfl | hold
    · exact Nat.lt_succ_of_lt (hs.dirs.pathFresh s.dir hcurrent inode h)
    · exact Nat.lt_succ_of_lt (hs.dirs.pathFresh other hold inode h)
  · show inode < s.next + 1
    rcases List.mem_cons.mp hother with rfl | hold
    · rcases hname pid' inode h with ⟨-, rfl⟩ | ⟨-, hold⟩
      · exact Nat.lt_succ_self _
      · exact Nat.lt_succ_of_lt (hs.dirs.scratchFresh s.dir hcurrent pid' inode hold)
    · exact Nat.lt_succ_of_lt (hs.dirs.scratchFresh other hold pid' inode h)
  · obtain ⟨hfresh, hapart, hown, hnames⟩ := hs.held index call inode hcall hinode
    refine ⟨Nat.lt_succ_of_lt hfresh, fun other hother => ?_, fun other h => ?_, fun other h => ?_⟩
    · rcases List.mem_cons.mp hother with rfl | hold
      · exact hapart s.dir hcurrent
      · exact hapart other hold
    · rcases hname other inode h with ⟨-, rfl⟩ | ⟨-, hold⟩
      · exact (Nat.lt_irrefl _ hfresh).elim
      · exact hown other hold
    · rcases hname call.pid other h with ⟨rfl, rfl⟩ | ⟨-, hold⟩
      · rw [hidle call (List.mem_of_getElem? hcall) rfl] at hinode
        cases hinode
      · exact hnames other hold
  · obtain ⟨⟨other, hother, h⟩, hgot⟩ := hs.readers reader hreader
    exact ⟨⟨other, List.mem_cons_of_mem _ hother, h⟩, hgot⟩

/-- A call opens the scratch file, which no other call of its process has open. -/
theorem Kept.openFile {index : Nat} {call : Call} (hcall : s.calls[index]? = some call)
    (hidle : ∀ other ∈ s.calls, other.pid = call.pid → other.phase.inode = none) :
    Kept old (s.openFile index call.pid) := by
  have hcurrent : s.dir ∈ s.dirs := List.mem_cons_self
  have hpids : ∀ (place : Nat) (other : Call) (inode : Nat), s.calls[place]? = some other →
      other.phase.inode = some inode → other.pid ≠ call.pid := by
    intro place other inode hother hinode hpid
    rw [hidle other (List.mem_of_getElem? hother) hpid] at hinode
    cases hinode
  have hempty : ∀ inode, CallKept (update s.content inode [])
      (update s.durable inode false) call.bytes (.writing inode 0) :=
    fun inode => ⟨Nat.zero_le _, by rw [update_self, List.take_zero]⟩
  simp only [State.openFile]
  split
  · rename_i inode hname
    refine hs.hold inode (.writing inode 0) hcall rfl ⟨hs.dirs.scratchFresh s.dir hcurrent _ inode hname,
      fun dir hdir => hs.dirs.apart.1 dir hdir call.pid inode hname,
      fun other hother => hs.dirs.own s.dir hcurrent other call.pid inode hother hname,
      fun other hother => Option.some.inj (hother.symm.trans hname)⟩ ?_ [] false (hempty inode)
    intro place other inode' hother _ hinode'
    have hne := hpids place other inode' hother hinode'
    refine ⟨?_, hne⟩
    rintro rfl
    exact hne ((hs.held place other inode' hother hinode').own call.pid hname).symm
  · have hcreated := hs.create call.pid hidle
    refine hcreated.hold s.next (.writing s.next 0) hcall rfl ⟨Nat.lt_succ_self _, fun dir hdir h => ?_,
      fun other hother => ?_, fun other hother => ?_⟩ ?_ [] false (hempty s.next)
    · have hpath : dir.path ≠ some s.next := by
        rcases List.mem_cons.mp hdir with rfl | hold
        · exact fun h => Nat.lt_irrefl _ (hs.dirs.pathFresh s.dir hcurrent _ h)
        · exact fun h => Nat.lt_irrefl _ (hs.dirs.pathFresh dir hold _ h)
      exact hpath h
    · by_contra hne
      have hold : s.dir.scratch other = some s.next := by
        rw [← update_of_ne hne (some s.next) s.dir.scratch]
        exact hother
      exact Nat.lt_irrefl _ (hs.dirs.scratchFresh s.dir hcurrent other _ hold)
    · have hnew : update s.dir.scratch call.pid (some s.next) call.pid = some other := hother
      rw [update_self] at hnew
      exact (Option.some.inj hnew).symm
    · intro place other inode' hother _ hinode'
      refine ⟨?_, hpids place other inode' hother hinode'⟩
      rintro rfl
      exact Nat.lt_irrefl _ (hs.held place other _ hother hinode').fresh

/-- The synced file of a call goes to the path. -/
theorem Kept.rename {held : Nat} (hcall : s.calls[index]? = some call)
    (hphase : call.phase = .synced held) (hname : s.dir.scratch call.pid = some inode) :
    s.content inode = call.bytes ∧
      Kept old ((s.setPhase index (.renamed true)).setDir
        { path := some inode, scratch := update s.dir.scratch call.pid none }) := by
  have hcurrent : s.dir ∈ s.dirs := List.mem_cons_self
  have hheld := hs.held index call held hcall (by rw [hphase]; rfl)
  obtain rfl : inode = held := hheld.name inode hname
  have hdone := hs.calls index call hcall
  rw [hphase] at hdone
  obtain ⟨hcontent, hdurable⟩ := hdone
  have hothers := hs.others hcall (show call.phase.inode = some inode by rw [hphase]; rfl)
  have hreleased : Kept old (s.setPhase index (.renamed true)) :=
    hs.release index rfl fun _ => rfl
  refine ⟨hcontent, hreleased.setDir ?_ ?_ ?_ ?_ ?_ ?_⟩
  · refine Written.mono (.inr ⟨call, List.mem_of_getElem? hcall, ?_⟩) (setPhase_calls index _)
    exact congrArg some hcontent
  · rintro _ ⟨⟩
    exact hdurable
  · rintro _ ⟨⟩
    exact hheld.fresh
  · intro pid other h
    simp only [update_apply] at h
    split_ifs at h
    exact h
  · intro pid other h hsame
    obtain rfl : inode = other := Option.some.inj hsame
    simp only [update_apply] at h
    split_ifs at h with hpid
    exact hpid (hheld.own pid h)
  · intro place other other' hother hinode hsame
    obtain rfl : inode = other' := Option.some.inj hsame
    obtain ⟨earlier, hearlier, -, -, hlater⟩ := setPhase_get hother
    rw [hlater] at hinode
    split_ifs at hinode with hplace
    · cases hinode
    · exact (hothers place earlier inode hearlier hplace hinode).1 rfl

theorem Kept.removeScratch (pid : Nat) :
    Kept old (s.setDir { s.dir with scratch := update s.dir.scratch pid none }) := by
  have hcurrent : s.dir ∈ s.dirs := List.mem_cons_self
  have hscratch : ∀ other inode, update s.dir.scratch pid none other = some inode →
      s.dir.scratch other = some inode := by
    intro other inode h
    rw [update_apply] at h
    split_ifs at h
    exact h
  exact hs.setDir (hs.dirs.whole s.dir hcurrent) (hs.dirs.durable s.dir hcurrent)
    (hs.dirs.pathFresh s.dir hcurrent) hscratch
    (fun other inode h => hs.dirs.apart.1 s.dir hcurrent other inode (hscratch other inode h))
    (fun index call inode hcall hinode =>
      (hs.held index call inode hcall hinode).apart s.dir hcurrent)

/-- A piece is written after what was written before. -/
theorem Kept.write {written : Nat} (hcall : s.calls[index]? = some call)
    (hphase : call.phase = .writing inode written) (count : Nat) :
    Kept old ({ s with
      content := update s.content inode
        (ByteFile.writeAt (s.content inode) written ((call.bytes.drop written).take count))
      durable := update s.durable inode false }.setPhase index
        (.writing inode (written + ((call.bytes.drop written).take count).length))) := by
  have hinode : call.phase.inode = some inode := by
    rw [hphase]
    rfl
  refine hs.hold inode _ hcall rfl (hs.held index call inode hcall hinode)
    (hs.others hcall hinode) _ _ ?_
  have hdone := hs.calls index call hcall
  rw [hphase] at hdone
  obtain ⟨hlength, hcontent⟩ := hdone
  have hprefix : (call.bytes.drop written).take count =
      (call.bytes.drop written).take ((call.bytes.drop written).take count).length :=
    List.prefix_iff_eq_take.mp (List.take_prefix ..)
  have hpiece : ((call.bytes.drop written).take count).length ≤ call.bytes.length - written := by
    rw [List.length_take, List.length_drop]
    omega
  have hsize : (s.content inode).length = written := by
    rw [hcontent, List.length_take]
    omega
  refine ⟨by omega, ?_⟩
  rw [update_self, List.take_add, ← hprefix, ← hcontent,
    ByteFile.writeAt_eq (Nat.le_of_eq hsize.symm), ← hsize, List.take_length,
    List.drop_of_length_le (Nat.le_add_right ..), List.append_nil]

theorem Kept.sync {written : Nat} (hcall : s.calls[index]? = some call)
    (hphase : call.phase = .writing inode written) (hall : call.bytes.length ≤ written) :
    Kept old ({ s with
      durable := update s.durable inode true }.setPhase index (.synced inode)) := by
  have hinode : call.phase.inode = some inode := by
    rw [hphase]
    rfl
  have hdone := hs.calls index call hcall
  rw [hphase] at hdone
  obtain ⟨-, hcontent⟩ := hdone
  rw [List.take_of_length_le hall] at hcontent
  have hsynced := hs.hold inode (.synced inode) hcall rfl
    (hs.held index call inode hcall hinode) (hs.others hcall hinode) (s.content inode) true
    ⟨by rw [update_self, hcontent], update_self ..⟩
  rw [update_eq_self] at hsynced
  exact hsynced

/-- Calls may come and end, where no other call gets a file. -/
theorem Kept.setCalls {calls : List Call}
    (hold : ∀ call ∈ s.calls, ∃ call' ∈ calls, call'.bytes = call.bytes)
    (hheld : ∀ (place : Nat) (call : Call) (inode : Nat), calls[place]? = some call →
      call.phase.inode = some inode → s.calls[place]? = some call)
    (hcalls : ∀ (place : Nat) (call : Call), calls[place]? = some call → CallKept s.content
      s.durable call.bytes call.phase) : Kept old { s with calls := calls } := by
  refine ⟨hs.dirs.calls hold, fun place call inode hcall hinode => ?_,
    fun place place' call call' inode inode' hcall hcall' hinode hinode' hsame => ?_,
    hcalls, hs.readers, fun content hcontent => (hs.seen content hcontent).mono hold⟩
  · obtain ⟨hfresh, hapart, hown, hname⟩ :=
      hs.held place call inode (hheld place call inode hcall hinode) hinode
    exact ⟨hfresh, hapart, hown, hname⟩
  · exact hs.alone place place' call call' inode inode' (hheld place call inode hcall hinode)
      (hheld place' call' inode' hcall' hinode') hinode hinode' hsame

theorem Kept.begin (pid : Nat) (bytes : Content) : Kept old (s.step (.begin pid bytes)) := by
  have hold : ∀ call ∈ s.calls, ∃ call' ∈ s.calls ++ [⟨pid, bytes, .begun⟩],
      call'.bytes = call.bytes :=
    fun call hcall => ⟨call, List.mem_append_left _ hcall, rfl⟩
  have hhas : ∀ (place : Nat) (call : Call),
      (s.calls ++ [⟨pid, bytes, .begun⟩])[place]? = some call →
        s.calls[place]? = some call ∨ call.phase = .begun := by
    intro place call hcall
    rw [List.getElem?_append] at hcall
    split_ifs at hcall with hlt
    · exact .inl hcall
    · obtain rfl := List.mem_singleton.mp (List.mem_of_getElem? hcall)
      exact .inr rfl
  have hheld : ∀ (place : Nat) (call : Call) (inode : Nat),
      (s.calls ++ [⟨pid, bytes, .begun⟩])[place]? = some call →
        call.phase.inode = some inode → s.calls[place]? = some call := by
    intro place call inode hcall hinode
    refine (hhas place call hcall).resolve_right fun hbegun => ?_
    rw [hbegun] at hinode
    cases hinode
  refine hs.setCalls hold hheld fun place call hcall => ?_
  rcases hhas place call hcall with hcall | hbegun
  · exact hs.calls place call hcall
  · rw [hbegun]
    trivial

omit hs in
theorem stopped_cases (call : Call) :
    call.stopped = call ∧ call.phase.inode = none ∨
      call.stopped = { call with phase := .failed } := by
  obtain ⟨pid, bytes, phase⟩ := call
  cases phase with
  | returned put => exact .inl ⟨rfl, rfl⟩
  | begun | writing inode written | synced inode | refused | renamed put | failed => exact .inr rfl

omit hs in
theorem stopped_inode (call : Call) : call.stopped.phase.inode = none := by
  rcases stopped_cases call with ⟨hsame, hnone⟩ | hfailed
  · rw [hsame, hnone]
  · rw [hfailed]
    rfl

omit hs in
theorem stopped_kept {content : Nat → Content} {durable : Nat → Bool}
    (h : CallKept content durable call.bytes call.phase) :
    CallKept content durable call.stopped.bytes call.stopped.phase := by
  rcases stopped_cases call with ⟨hsame, -⟩ | hfailed
  · rw [hsame]
    exact h
  · rw [hfailed]
    trivial

omit hs in
theorem stopped_bytes (call : Call) : call.stopped.bytes = call.bytes := by
  rcases stopped_cases call with ⟨hsame, -⟩ | hfailed
  · rw [hsame]
  · rw [hfailed]

theorem Kept.kill (pid : Nat) : Kept old (s.step (.kill pid)) := by
  have hold : ∀ call ∈ s.calls, ∃ call' ∈ s.calls.map fun call =>
      if call.pid = pid then call.stopped else call, call'.bytes = call.bytes := by
    intro call hcall
    refine ⟨_, List.mem_map_of_mem hcall, ?_⟩
    split_ifs
    · exact stopped_bytes call
    · rfl
  have hheld : ∀ (place : Nat) (call : Call) (inode : Nat),
      (s.calls.map fun call => if call.pid = pid then call.stopped else call)[place]? = some call →
        call.phase.inode = some inode → s.calls[place]? = some call := by
    intro place call inode hcall hinode
    rw [List.getElem?_map, Option.map_eq_some_iff] at hcall
    obtain ⟨earlier, hearlier, rfl⟩ := hcall
    split_ifs at hinode ⊢ with hpid
    · rw [stopped_inode] at hinode
      cases hinode
    · exact hearlier
  refine hs.setCalls hold hheld fun place call hcall => ?_
  rw [List.getElem?_map, Option.map_eq_some_iff] at hcall
  obtain ⟨earlier, hearlier, rfl⟩ := hcall
  have hdone := hs.calls place earlier hearlier
  split_ifs
  · exact stopped_kept hdone
  · exact hdone

/-- The directory is what it was at some moment, and every file at the path was synced. -/
theorem Kept.cutPower (back : Nat) (left : Nat → Content) :
    Kept old (s.step (.cutPower back left)) := by
  unfold State.step
  dsimp only
  split
  · rename_i dir before hdrop
    have hsub : ∀ other ∈ dir :: before, other ∈ s.dirs := by
      intro other hother
      rw [← hdrop] at hother
      exact List.mem_of_mem_drop hother
    have hold : ∀ call ∈ s.calls, ∃ call' ∈ s.calls.map Call.stopped, call'.bytes = call.bytes :=
      fun call hcall => ⟨_, List.mem_map_of_mem hcall, stopped_bytes call⟩
    have hnone : ∀ (place : Nat) (call : Call) (inode : Nat),
        (s.calls.map Call.stopped)[place]? = some call → call.phase.inode ≠ some inode := by
      intro place call inode hcall
      rw [List.getElem?_map, Option.map_eq_some_iff] at hcall
      obtain ⟨earlier, -, rfl⟩ := hcall
      rw [stopped_inode]
      exact nofun
    refine ⟨⟨fun other hother => ?_, fun _ _ _ _ => rfl, ?_,
        fun other hother => hs.dirs.own other (hsub other hother),
        fun other hother => hs.dirs.pathFresh other (hsub other hother),
        fun other hother => hs.dirs.scratchFresh other (hsub other hother)⟩,
      fun place call inode hcall hinode => (hnone place call inode hcall hinode).elim,
      fun place _ call _ inode _ hcall _ hinode => (hnone place call inode hcall hinode).elim,
      fun place call hcall => ?_, fun reader hreader => (List.not_mem_nil hreader).elim,
      fun content hcontent => (hs.seen content hcontent).mono hold⟩
    · have hwhole := hs.dirs.whole other (hsub other hother)
      have hdurable := hs.dirs.durable other (hsub other hother)
      refine Written.mono ?_ hold
      cases hpath : other.path with
      | none =>
        rw [hpath] at hwhole
        exact hwhole
      | some inode =>
        rw [hpath] at hwhole
        simp only [Option.map_some, hdurable inode hpath, if_true]
        exact hwhole
    · have hdropped := hs.dirs.apart.drop back
      rw [State.dirs, hdrop] at hdropped
      exact hdropped
    · simp only [List.getElem?_map, Option.map_eq_some_iff] at hcall
      obtain ⟨earlier, hearlier, rfl⟩ := hcall
      have hcases := stopped_cases earlier
      have hdone := hs.calls place earlier hearlier
      rcases hcases with ⟨hsame, hinode⟩ | hfailed
      · rw [hsame]
        refine hdone.other fun inode hsome => ?_
        rw [hinode] at hsome
        cases hsome
      · rw [hfailed]
        trivial
  · exact hs

/-- What readers hold and what they have seen. -/
theorem Kept.look {readers : List Reader} {seen : List (Option Content)}
    (hreaders : ∀ reader ∈ readers, (∃ dir ∈ s.dirs, dir.path = some reader.inode) ∧ reader.got =
      (s.content reader.inode).take reader.got.length)
    (hseen : ∀ content ∈ seen, Written old s.calls content) :
    Kept old { s with readers := readers, seen := seen } := by
  refine ⟨⟨hs.dirs.whole, hs.dirs.durable, hs.dirs.apart, hs.dirs.own, hs.dirs.pathFresh,
    hs.dirs.scratchFresh⟩, fun index call inode hcall hinode => ?_, hs.alone, hs.calls, hreaders, hseen⟩
  obtain ⟨hfresh, hapart, hown, hname⟩ := hs.held index call inode hcall hinode
  exact ⟨hfresh, hapart, hown, hname⟩

theorem Kept.seen_append {content : Option Content} (hcontent : Written old s.calls content) :
    ∀ other ∈ s.seen ++ [content], Written old s.calls other := by
  intro other hother
  rcases List.mem_append.mp hother with hold | hnew
  · exact hs.seen other hold
  · rw [List.mem_singleton.mp hnew]
    exact hcontent

/-- A reader reads on, and has seen the file when it is at the end. -/
theorem Kept.read (index count : Nat) : Kept old (s.step (.read index count)) := by
  unfold State.step
  dsimp only
  split
  · rename_i inode got hreader
    obtain ⟨⟨dir, hdir, hpath⟩, hgot⟩ := hs.readers _ (List.mem_of_getElem? hreader)
    have hgot : got = (s.content inode).take got.length := hgot
    split_ifs with hend
    · refine hs.look (fun reader h => hs.readers reader (List.mem_of_mem_eraseIdx h))
        (hs.seen_append ?_)
      have hwhole := hs.dirs.whole dir hdir
      rw [hpath, Option.map_some] at hwhole
      rw [hgot, List.take_of_length_le hend]
      exact hwhole
    · refine hs.look (fun reader h => ?_) hs.seen
      rcases List.mem_or_eq_of_mem_set h with hold | rfl
      · exact hs.readers reader hold
      · refine ⟨⟨dir, hdir, hpath⟩, List.prefix_iff_eq_take.mp ?_⟩
        have hpiece : ((s.content inode).drop got.length).take count <+:
            (s.content inode).drop got.length := List.take_prefix ..
        have hwhole : got ++ (s.content inode).drop got.length = s.content inode := by
          conv_lhs => rw [hgot]
          rw [List.length_take, Nat.min_eq_left (by omega), List.take_append_drop]
        rw [← List.prefix_append_right_inj got, hwhole] at hpiece
        exact hpiece
  · exact hs

theorem Kept.openPath : Kept old (s.step .openPath) := by
  have hcurrent : s.dir ∈ s.dirs := List.mem_cons_self
  unfold State.step
  dsimp only
  split
  · rename_i inode hpath
    refine hs.look (fun reader hreader => ?_) hs.seen
    rcases List.mem_append.mp hreader with hold | hnew
    · exact hs.readers reader hold
    · obtain rfl := List.mem_singleton.mp hnew
      exact ⟨⟨s.dir, hcurrent, hpath⟩, rfl⟩
  · rename_i hpath
    have hwhole := hs.dirs.whole s.dir hcurrent
    rw [hpath] at hwhole
    exact hs.look hs.readers (hs.seen_append hwhole)

theorem Kept.step {action : Action} (hclear : Clear s action = true) :
    Kept old (s.step action) := by
  cases action with
  | begin pid bytes => exact hs.begin pid bytes
  | openScratch index =>
    unfold State.step
    dsimp only
    split
    · rename_i pid bytes hcall
      refine hs.openFile hcall fun other hother hpid => ?_
      rw [Clear, hcall] at hclear
      exact of_decide_eq_true (List.all_eq_true.mp hclear other hother) hpid
    · exact hs
  | write index count =>
    unfold State.step
    dsimp only
    split
    · rename_i pid bytes inode written hcall
      exact hs.write hcall rfl count
    · exact hs
  | sync index =>
    unfold State.step
    dsimp only
    split
    · rename_i pid bytes inode written hcall
      split_ifs with hall
      · exact hs.sync hcall rfl hall
      · exact hs
    · exact hs
  | rename index refused =>
    unfold State.step
    dsimp only
    split
    · rename_i pid bytes held hcall
      split
      · rename_i inode hname
        obtain ⟨hcontent, hkept⟩ := hs.rename hcall rfl hname
        have hput : ((s.setDir { path := some inode, scratch := update s.dir.scratch pid none }
            ).pathContent = some bytes) := congrArg some hcontent
        rw [decide_eq_true hput]
        exact hkept
      · exact hs.release index rfl fun _ => trivial
    · exact hs
  | removeScratch index =>
    unfold State.step
    dsimp only
    split
    · rename_i pid bytes hcall
      exact (hs.removeScratch pid).release index rfl fun _ => trivial
    · exact hs
  | ret index =>
    unfold State.step
    dsimp only
    split
    · rename_i pid bytes put hcall
      exact hs.release index rfl fun _ => hs.calls index _ hcall
    · exact hs
  | fail index =>
    unfold State.step
    dsimp only
    split
    · exact hs.release index rfl fun _ => trivial
    · exact hs.release index rfl fun _ => trivial
    · exact hs
  | openPath => exact hs.openPath
  | read index count => exact hs.read index count
  | kill pid => exact hs.kill pid
  | cutPower back left => exact hs.cutPower back left

end

end Steps

/-- In every run in which no call opens the scratch file while another call of its process has
it open, a reader of the path sees the complete bytes of a call or what was there before, and
a call that returned without an error has put its bytes there. -/
theorem write_private_atomic (old : Option Content) (actions : List Action)
    (hclear : Runs.Along State.step (fun s action => Clear s action = true) (.start old) actions) :
    Atomic old (Runs.run State.step (.start old) actions) := by
  have hkept := Runs.run_invariant_along (Kept old) (fun _ _ hclear hs => Kept.step hs hclear) actions
    _ hclear (kept_start old)
  refine ⟨hkept.seen, hkept.dirs.whole _ List.mem_cons_self, fun call hcall hphase => ?_⟩
  obtain ⟨index, hindex⟩ := List.mem_iff_getElem?.mp hcall
  have hdone := hkept.calls index call hindex
  rw [hphase] at hdone
  cases hdone

/-- Two processes write, a reader reads in between and the power is cut. -/
def exampleWrites : List Action :=
  [.begin 7 [1, 2], .begin 8 [3], .openScratch 0, .openScratch 1, .write 0 1, .openPath, .write 1 9,
    .write 0 9, .sync 1, .rename 1 false, .sync 0, .ret 1, .read 0 1, .rename 0 false, .ret 0,
    .read 0 1, .openPath, .read 0 9, .read 0 9, .cutPower 1 fun _ => [], .openPath, .read 0 4,
    .read 0 4]

theorem write_private_atomic_writes :
    (Runs.run State.step (.start (some [9])) exampleWrites).seen =
        [some [9], some [1, 2], some [3]] ∧
      Atomic (some [9]) (Runs.run State.step (.start (some [9])) exampleWrites) := by
  refine ⟨by decide +kernel, write_private_atomic (some [9]) exampleWrites ?_⟩
  exact ⟨rfl, rfl, rfl, rfl, rfl, rfl, rfl, rfl, rfl, rfl, rfl, rfl, rfl, rfl, rfl, rfl, rfl, rfl, rfl,
    rfl, rfl, rfl, rfl, trivial⟩

/-- Two threads of one process share the scratch file: a reader finds it empty at the path. -/
theorem threads_share_scratch :
    ¬Atomic (some [9]) (Runs.run State.step (.start (some [9]))
      [.begin 7 [1], .begin 7 [2], .openScratch 0, .write 0 1, .sync 0, .openScratch 1,
        .rename 0 false, .ret 0, .openPath, .read 0 1]) := by decide +kernel

end PrivateFile
end WbfMatrixClient
