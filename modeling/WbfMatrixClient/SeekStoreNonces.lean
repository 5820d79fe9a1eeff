import WbfMatrixClient.SeekStoreRuns

/-!
# What a seek file gives back, and its nonces

A chunk that is read is one that was handed over for its number, whatever failed
before. The nonce of a cell is made from its number, and a number is used once as
long as the file shows that it was used: a write that failed before its first byte
leaves no trace, and the number is given again when the file is opened.
-/

namespace WbfMatrixClient
namespace SeekStore

open Sealing
open MediaPool (Pool Disk lenField)

section Reading

variable {pool : Pool} {mxc : List UInt8} {chunkSize chunkCount : UInt32}

theorem StoreSound.read_mem {appended : List (Nat × List UInt8)} {store : SeekStore}
    {file plain : List UInt8} {index : Nat}
    (h : StoreSound pool mxc chunkSize chunkCount appended store file)
    (hrejects : pool.aead.RejectsTorn) (hread : (store.read pool file index).1 = some plain) :
    (index, plain) ∈ appended := by
  obtain ⟨slot, _, hcell⟩ := read_eq_some_iff.mp hread
  rw [h.named.readCell pool chunkCount] at hcell
  exact (h.cells.readCell hrejects hcell).1

end Reading

/-- No cell from a number on was sealed under a base. -/
def Unused (log : List (Sealed (List UInt8) (List UInt8))) (base : Vector UInt8 MediaPool.nonceBaseLen)
    (cells : Nat) : Prop :=
  ∀ call ∈ log, ∀ slot, cells ≤ slot → slot ≤ maxCells →
    call.nonce ≠ base.toList ++ Bytes.toLittleEndian 8 slot

variable {log : List (Sealed (List UInt8) (List UInt8))}

theorem Unused.mono {base : Vector UInt8 MediaPool.nonceBaseLen} {cells cells' : Nat}
    (h : Unused log base cells) (hle : cells ≤ cells') :
    Unused log base cells' := fun call hcall slot hslot => h call hcall slot (le_trans hle hslot)

theorem unused_of_fresh {base : Vector UInt8 MediaPool.nonceBaseLen}
    (h : ∀ call ∈ log, call.nonce.take MediaPool.nonceBaseLen ≠ base.toList) (cells : Nat) :
    Unused log base cells := by
  intro call hcall slot _ _ hnonce
  refine h call hcall ?_
  rw [hnonce, List.take_left' base.length_toList]

/-- Sealing one cell uses its number and no other. -/
theorem Unused.seal {pool : Pool} {store : SeekStore} {index : Nat} {plain : List UInt8}
    (h : Unused log store.nonceBase store.cells) (hcells : store.cells < maxCells) :
    Unused (log ++ [store.cellSeal pool store.cells index plain]) store.nonceBase
      (store.cells + 1) := by
  intro call hcall slot hslot hmax hnonce
  rcases List.mem_append.mp hcall with hold | hnew
  · exact h call hold slot (by omega) hmax hnonce
  · rw [List.mem_singleton.mp hnew] at hnonce
    have hsame : Bytes.toLittleEndian 8 store.cells = Bytes.toLittleEndian 8 slot :=
      List.append_cancel_left hnonce
    have hmaxCells : maxCells < 256 ^ 8 := by decide
    have := Bytes.toLittleEndian_injective (by omega) (by omega) hsame
    omega

theorem NonceUnique.seal {pool : Pool} {store : SeekStore} {index : Nat} {plain : List UInt8}
    (hunique : NonceUnique log) (h : Unused log store.nonceBase store.cells)
    (hcells : store.cells < maxCells) :
    NonceUnique (log ++ [store.cellSeal pool store.cells index plain]) := by
  have hnew : ∀ call ∈ log, call.nonce ≠ (store.cellSeal pool store.cells index plain).nonce :=
    fun call hcall => h call hcall store.cells le_rfl (le_of_lt hcells)
  intro a ha b hb hkey hnonce
  rcases List.mem_append.mp ha with ha | ha <;> rcases List.mem_append.mp hb with hb | hb
  · exact hunique a ha b hb hkey hnonce
  · rw [List.mem_singleton.mp hb] at hnonce
    exact absurd hnonce (hnew a ha)
  · rw [List.mem_singleton.mp ha] at hnonce
    exact absurd hnonce.symm (hnew b hb)
  · rw [List.mem_singleton.mp ha, List.mem_singleton.mp hb]

/-- A base is drawn that nothing was sealed under. -/
def FreshBase (s : State) : Action → Prop
  | .opening nonceBase _ =>
      ∀ call ∈ s.disk.sealed, call.nonce.take MediaPool.nonceBaseLen ≠ nonceBase.toList
  | _ => True

/-- A file that is opened again and kept holds at least one byte of the last cell
whose number was taken. -/
def NumbersShown (pool : Pool) (mxc : List UInt8) (chunkSize chunkCount : UInt32) (s : State) :
    Action → Prop
  | .opening _ _ => ∀ store, s.store = some store →
      reopen pool mxc chunkSize chunkCount s.disk.bytes ≠ .ok none →
      store.cells ≤ usedCells chunkSize s.disk.bytes
  | _ => True

structure NumbersSound (chunkSize chunkCount : UInt32) (s : State) : Prop where
  unique : NonceUnique s.disk.sealed
  store : ∀ store, s.store = some store → Unused s.disk.sealed store.nonceBase store.cells
  header : s.store = none → ∀ base, s.disk.bytes = encodeHeader chunkSize chunkCount base →
    Unused s.disk.sealed base 0

section Steps

variable {pool : Pool} {mxc : List UInt8} {chunkSize chunkCount : UInt32}

theorem encodeHeader_injective {base base' : Vector UInt8 MediaPool.nonceBaseLen}
    (h : encodeHeader chunkSize chunkCount base = encodeHeader chunkSize chunkCount base') :
    base = base' := by
  have hbase := nonceBase_encodeHeader chunkSize chunkCount base []
  have hbase' := nonceBase_encodeHeader chunkSize chunkCount base' []
  rw [List.append_nil] at hbase hbase'
  rw [← hbase, ← hbase', h]

theorem NumbersSound.opening {s : State} {nonceBase : Vector UInt8 MediaPool.nonceBaseLen}
    {fault : Option Nat} (h : NumbersSound chunkSize chunkCount s)
    (hsound : StateSound pool mxc chunkSize chunkCount s)
    (hfresh : FreshBase s (.opening nonceBase fault))
    (hshown : NumbersShown pool mxc chunkSize chunkCount s (.opening nonceBase fault)) :
    NumbersSound chunkSize chunkCount
      (step pool mxc chunkSize chunkCount s (.opening nonceBase fault)) := by
  obtain ⟨base, cells, hfile, hstore, hblank⟩ := hsound.file
  generalize hopen : openStore pool mxc chunkSize chunkCount nonceBase s.disk fault = opened
  obtain ⟨result, disk'⟩ := opened
  have hstep : step pool mxc chunkSize chunkCount s (.opening nonceBase fault) =
      { s with disk := disk', store := result.toOption } := by
    rw [step, hopen]
  rw [hstep]
  rcases openStore_cases hfile hopen with ⟨hfits, hnone, rfl⟩ |
      ⟨hfits, hcells, rfl, hkept, slots, _, _, rfl⟩ |
      ⟨hfits, _, hsealed, ⟨written, hnone, hbytes⟩ | ⟨rfl, hbytes⟩⟩
  · have hclosed : s.store = none := by
      cases hstore : s.store with
      | none => rfl
      | some store => exact absurd (hsound.fits store hstore) hfits
    refine ⟨h.unique, fun store hsome => ?_, fun _ => h.header hclosed⟩
    dsimp only at hsome
    rw [hnone] at hsome
    cases hsome
  · refine ⟨h.unique, fun store hsome => ?_, fun hclosed => (by cases hclosed)⟩
    cases hsome
    dsimp only
    cases hbefore : s.store with
    | some before =>
      obtain ⟨rfl, _⟩ := hstore before hbefore
      exact (h.store before hbefore).mono (hshown before hbefore hkept)
    | none =>
      obtain ⟨rest, hrest⟩ := hcells.header
      have hheader : headerFits chunkSize chunkCount s.disk.bytes = true := by
        rw [hrest]
        exact headerFits_encodeHeader chunkSize chunkCount base rest
      exact (h.header hbefore base (hblank hbefore hheader).1).mono (Nat.zero_le _)
  · refine ⟨?_, fun store hsome => ?_, fun _ base' hbase' => ?_⟩
    · dsimp only
      rw [hsealed]
      exact h.unique
    · dsimp only at hsome
      rw [hnone] at hsome
      cases hsome
    · dsimp only at hbase' ⊢
      have hlength := congrArg List.length hbase'
      rw [hbytes, List.length_take, length_encodeHeader, length_encodeHeader] at hlength
      rw [hbytes, List.take_of_length_le (by rw [length_encodeHeader]; omega)] at hbase'
      rw [← encodeHeader_injective hbase', hsealed]
      exact unused_of_fresh hfresh 0
  · refine ⟨?_, fun store hsome => ?_, fun hclosed => (by cases hclosed)⟩
    · dsimp only
      rw [hsealed]
      exact h.unique
    · cases hsome
      dsimp only
      rw [hsealed]
      exact unused_of_fresh hfresh _

theorem NumbersSound.append {s : State} {index : Nat} {plain : List UInt8} {fault : Option Nat}
    (h : NumbersSound chunkSize chunkCount s) :
    NumbersSound chunkSize chunkCount
      (step pool mxc chunkSize chunkCount s (.append index plain fault)) := by
  cases hstore : s.store with
  | none =>
    rw [step, hstore]
    exact h
  | some store =>
    generalize happend : store.append pool index plain s.disk fault = outcome
    obtain ⟨error, store', disk'⟩ := outcome
    rw [step, hstore]
    simp only [happend]
    have hunused := h.store store hstore
    rcases append_cases happend with
      ⟨rfl, rfl, _⟩ | ⟨_, _, _, hcells, hsealed, kept, _, ⟨_, rfl⟩ | ⟨_, _, rfl⟩⟩
    · refine ⟨h.unique, fun other hother => ?_, fun hclosed => (by cases hclosed)⟩
      cases hother
      exact hunused
    all_goals
      refine ⟨?_, fun other hother => ?_, fun hclosed => (by cases hclosed)⟩
      · dsimp only
        rw [hsealed]
        exact NonceUnique.seal h.unique hunused hcells
      · cases hother
        dsimp only
        rw [hsealed]
        exact hunused.seal hcells

theorem NumbersSound.read {s : State} {index : Nat} (h : NumbersSound chunkSize chunkCount s) :
    NumbersSound chunkSize chunkCount (step pool mxc chunkSize chunkCount s (.read index)) := by
  rw [step]
  refine ⟨h.unique, fun store hstore => ?_, fun hclosed => h.header (Option.map_eq_none_iff.mp
    hclosed)⟩
  obtain ⟨before, hbefore, rfl⟩ := Option.map_eq_some_iff.mp hstore
  rcases read_cases pool before s.disk.bytes index with hsame | ⟨hset, _⟩
  · rw [hsame]
    exact h.store before hbefore
  · rw [hset]
    exact h.store before hbefore

end Steps

/-- A chunk that is read from a seek file is one that was handed over for its
number. In a run in which every file that is opened again shows the numbers that
were taken, no key and nonce seal two cells. -/
theorem chunks_sound_nonces_unique (pool : Pool) (mxc : List UInt8) (chunkSize chunkCount : UInt32)
    (actions : List Action) (hrejects : pool.aead.RejectsTorn)
    (hfresh : Runs.Along (step pool mxc chunkSize chunkCount) FreshBase State.start actions)
    (hshown : Runs.Along (step pool mxc chunkSize chunkCount) (NumbersShown pool mxc chunkSize
      chunkCount) State.start actions) :
    let s := Runs.run (step pool mxc chunkSize chunkCount) State.start actions
    (∀ store index plain, s.store = some store →
        (store.read pool s.disk.bytes index).1 = some plain → (index, plain) ∈ s.appended) ∧
      NonceUnique s.disk.sealed := by
  intro s
  constructor
  · intro store index plain hstore hread
    exact ((stateSound_run pool mxc chunkSize chunkCount actions).store store hstore).read_mem
      hrejects hread
  · refine (Runs.run_invariant_along
      (fun s => StateSound pool mxc chunkSize chunkCount s ∧ NumbersSound chunkSize chunkCount s)
      (fun s action hboth h => ⟨h.1.step action, ?_⟩) actions State.start
      (Runs.Along.and hfresh hshown) ⟨stateSound_run pool mxc chunkSize chunkCount [], ?_⟩).2.unique
    · cases action with
      | opening nonceBase fault => exact h.2.opening h.1 hboth.1 hboth.2
      | append index plain fault => exact h.2.append
      | read index => exact h.2.read
    · refine ⟨nonceUnique_nil, fun store hstore => (by cases hstore), fun _ base _ call hcall => ?_⟩
      cases hcall

def examplePool : Pool where
  aead := Aead.marked _ _ _
  key := []
  blake3 := id
  sha256 := id

def exampleBase (byte : UInt8) : Vector UInt8 MediaPool.nonceBaseLen :=
  Vector.replicate _ byte

/-- A chunk is stored, one fails halfway, and the file is opened again. -/
theorem chunks_sound_nonces_unique_half_cell :
    let actions : List Action :=
      [.opening (exampleBase 1) none, .append 0 [5] none, .append 1 [6] (some 9),
        .opening (exampleBase 2) none, .append 1 [7] none]
    let s := Runs.run (step examplePool [] 1 2) State.start actions
    (∀ store index plain, s.store = some store →
        (store.read examplePool s.disk.bytes index).1 = some plain →
          (index, plain) ∈ s.appended) ∧
      NonceUnique s.disk.sealed := by
  intro actions
  have hfresh : Runs.Along (step examplePool [] 1 2) FreshBase State.start actions := by
    refine ⟨?_, trivial, trivial, ?_, trivial, trivial⟩
    · rw [FreshBase]
      decide +kernel
    · rw [FreshBase]
      decide +kernel
  have hshown : Runs.Along (step examplePool [] 1 2) (NumbersShown examplePool [] 1 2)
      State.start actions := by
    refine ⟨?_, trivial, trivial, ?_, trivial, trivial⟩
    · intro store hstore
      cases hstore
    · intro store hstore _
      cases hstore
      decide +kernel
  exact chunks_sound_nonces_unique examplePool [] 1 2 actions
    (Aead.marked_rejectsTorn _ _ (by decide)) hfresh hshown

/-- A write fails before its first byte, and the next chunk after the file is
opened again is sealed under the same nonce. -/
theorem nonce_reused_after_empty_write :
    let actions : List Action :=
      [.opening (exampleBase 1) none, .append 0 [5] (some 0), .opening (exampleBase 2) none,
        .append 1 [7] none]
    let s := Runs.run (step examplePool [] 1 2) State.start actions
    ∃ a ∈ s.disk.sealed, ∃ b ∈ s.disk.sealed,
      a.key = b.key ∧ a.nonce = b.nonce ∧ a.plain ≠ b.plain := by decide +kernel

end SeekStore
end WbfMatrixClient
