import Mathlib.Logic.Function.Basic

/-!
# Files and their names

A file has a number, and a name stands for at most one file. Several names may
stand for one. A frame says which names and which files an operation may touch;
what is under any other name is then read as before.
-/

namespace WbfMatrixClient

open Function

structure FileSystem (π α : Type*) where
  entries : π → Option Nat
  contents : Nat → List α
  next : Nat

namespace FileSystem

variable {π α : Type*}

/-- What is read under a name. -/
def read (fs : FileSystem π α) (name : π) : Option (List α) :=
  (fs.entries name).map fs.contents

/-- A file under a number from `next` on has no name. -/
def Numbered (fs : FileSystem π α) : Prop :=
  ∀ name file, fs.entries name = some file → file < fs.next

/-- The file has this name and no other. -/
structure Sole (fs : FileSystem π α) (name : π) (file : Nat) : Prop where
  named : fs.entries name = some file
  only : ∀ other, fs.entries other = some file → other = name

section Operations

variable [DecidableEq π]

/-- A new file under a name that is free. -/
def createNew (fs : FileSystem π α) (name : π) : FileSystem π α where
  entries := update fs.entries name (some fs.next)
  contents := update fs.contents fs.next []
  next := fs.next + 1

def append (fs : FileSystem π α) (file : Nat) (bytes : List α) : FileSystem π α :=
  { fs with contents := update fs.contents file (fs.contents file ++ bytes) }

def rename (fs : FileSystem π α) (source target : π) (file : Nat) : FileSystem π α :=
  { fs with entries := update (update fs.entries source none) target (some file) }

def remove (fs : FileSystem π α) (name : π) : FileSystem π α :=
  { fs with entries := update fs.entries name none }

end Operations

/-- Only these names and these files have been touched, and a new name stands
for one of these files. -/
structure Frame (names : π → Prop) (files : Nat → Prop) (fs fs' : FileSystem π α) : Prop where
  entries : ∀ name, ¬ names name → fs'.entries name = fs.entries name
  contents : ∀ file, ¬ files file → fs'.contents file = fs.contents file
  named : ∀ name file, fs'.entries name = some file → fs.entries name = some file ∨ files file

namespace Frame

variable
  {names names' : π → Prop}
  {files files' : Nat → Prop}
  {fs fs' : FileSystem π α}

theorem refl (fs : FileSystem π α) : Frame names files fs fs :=
  ⟨fun _ _ => rfl, fun _ _ => rfl, fun _ _ h => .inl h⟩

theorem mono (h : Frame names files fs fs') (hnames : ∀ name, names name → names' name)
    (hfiles : ∀ file, files file → files' file) :
    Frame names' files' fs fs' :=
  ⟨fun name hname => h.entries name (mt (hnames name) hname),
    fun file hfile => h.contents file (mt (hfiles file) hfile),
    fun name file hnamed => (h.named name file hnamed).imp_right (hfiles file)⟩

theorem read_eq {name : π} (h : Frame names files fs fs') (hname : ¬ names name)
    (hfile : ∀ file, fs.entries name = some file → ¬ files file) :
    fs'.read name = fs.read name := by
  rw [read, read, h.entries name hname]
  cases hentry : fs.entries name with
  | none => rfl
  | some file => rw [Option.map_some, Option.map_some, h.contents file (hfile file hentry)]

/-- A file that is not touched keeps its only name. -/
theorem sole {name : π} {file : Nat} (h : Frame names files fs fs') (hsole : fs.Sole name file)
    (hname : ¬ names name) (hfile : ¬ files file) :
    fs'.Sole name file where
  named := (h.entries name hname).trans hsole.named
  only other hother :=
    (h.named other file hother).elim (hsole.only other) (fun hin => absurd hin hfile)

end Frame

theorem frame_append (fs : FileSystem π α) (file : Nat) (bytes : List α) :
    Frame (fun _ => False) (· = file) fs (fs.append file bytes) where
  entries _ _ := rfl
  contents _ hother := update_of_ne hother _ _
  named _ _ h := .inl h

theorem Numbered.append {fs : FileSystem π α} (h : fs.Numbered) (file : Nat) (bytes : List α) :
    (fs.append file bytes).Numbered := h

@[simp] theorem contents_append (fs : FileSystem π α) (file : Nat) (bytes : List α) :
    (fs.append file bytes).contents file = fs.contents file ++ bytes := update_self _ _ _

section Operations

variable
  [DecidableEq π]
  {fs : FileSystem π α}
  {name : π} {file : Nat}

theorem frame_createNew (fs : FileSystem π α) (name : π) :
    Frame (· = name) (· = fs.next) fs (fs.createNew name) where
  entries other hother := update_of_ne hother _ _
  contents _ hother := update_of_ne hother _ _
  named other file hfile := by
    by_cases hother : other = name
    · subst hother
      simp only [createNew, update_self, Option.some.injEq] at hfile
      exact .inr hfile.symm
    · exact .inl (by simpa [createNew, hother] using hfile)

theorem frame_rename (fs : FileSystem π α) (source target : π) (file : Nat) :
    Frame (fun name => name = source ∨ name = target) (· = file) fs
      (fs.rename source target file) where
  entries name hname := by
    obtain ⟨hsource, htarget⟩ := not_or.1 hname
    simp only [rename, update_of_ne htarget, update_of_ne hsource]
  contents _ _ := rfl
  named name other h := by
    by_cases htarget : name = target
    · subst htarget
      simp only [rename, update_self, Option.some.injEq] at h
      exact .inr h.symm
    · simp only [rename, update_of_ne htarget] at h
      by_cases hsource : name = source
      · simp [hsource] at h
      · exact .inl (by simpa [hsource] using h)

theorem frame_remove (fs : FileSystem π α) (name : π) :
    Frame (· = name) (fun _ => False) fs (fs.remove name) where
  entries other hother := update_of_ne hother _ _
  contents _ _ := rfl
  named other file h := by
    by_cases hother : other = name
    · simp [remove, hother] at h
    · exact .inl (by simpa [remove, hother] using h)

theorem Numbered.createNew (h : fs.Numbered) (name : π) : (fs.createNew name).Numbered := by
  intro other file hfile
  obtain hold | rfl := (frame_createNew fs name).named other file hfile
  · exact Nat.lt_succ_of_lt (h other file hold)
  · exact Nat.lt_succ_self _

theorem Numbered.rename {source : π} (h : fs.Numbered) (hfile : fs.entries source = some file)
    (target : π) : (fs.rename source target file).Numbered := by
  intro other number hnumber
  obtain hold | rfl := (frame_rename fs source target file).named other number hnumber
  · exact h other number hold
  · exact h source number hfile

theorem Numbered.remove (h : fs.Numbered) (name : π) : (fs.remove name).Numbered := by
  intro other file hfile
  obtain hold | hfalse := (frame_remove fs name).named other file hfile
  · exact h other file hold
  · exact hfalse.elim

/-- A new file has the name that it was made under and no other. -/
theorem sole_createNew (h : fs.Numbered) (name : π) :
    (fs.createNew name).Sole name fs.next where
  named := update_self _ _ _
  only other hother := by
    by_contra hne
    rw [(frame_createNew fs name).entries other hne] at hother
    exact Nat.lt_irrefl _ (h other fs.next hother)

@[simp] theorem contents_createNew (fs : FileSystem π α) (name : π) :
    (fs.createNew name).contents fs.next = [] := update_self _ _ _

@[simp] theorem entries_remove (fs : FileSystem π α) (name : π) :
    (fs.remove name).entries name = none := update_self _ _ _

theorem read_rename (fs : FileSystem π α) (source target : π) (file : Nat) :
    (fs.rename source target file).read target = some (fs.contents file) := by simp [read, rename]

theorem entries_rename_source {source target : π} (fs : FileSystem π α) (h : source ≠ target)
    (file : Nat) : (fs.rename source target file).entries source = none := by
  simp [rename, update_of_ne h]

end Operations

end FileSystem
end WbfMatrixClient
