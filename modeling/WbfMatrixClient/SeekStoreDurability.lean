import WbfMatrixClient.SeekStoreNonces

/-!
# Which chunks of a seek file stay readable

A chunk that was stored is read back as long as no cell stands in its way that a
failed write has left unfinished: a first cell that does not open makes the whole
file be made anew, and a cell that does not open hides a later one of the same
chunk.
-/

namespace WbfMatrixClient
namespace SeekStore

open Sealing
open MediaPool (Pool Disk lenField)

/-- The cell opens. -/
def Opens (pool : Pool) (store : SeekStore) (file : List UInt8) (slot : Nat) : Prop :=
  ∃ opened, store.readCell pool file slot = .ok opened

/-- Before the file is opened again, the first cell opens if any does, and so do
the cells that name the chunk of a later cell that opens. A chunk that is in the
table is in a cell that opens when it is handed over again. -/
def Unhidden (pool : Pool) (chunkSize : UInt32) (s : State) : Action → Prop
  | .opening _ _ => ∀ store, s.store = some store → ∀ slot opened,
      store.readCell pool s.disk.bytes slot = .ok opened →
      Opens pool store s.disk.bytes 0 ∧
        ∀ earlier < slot, indexAt chunkSize s.disk.bytes earlier = some opened.1 →
          Opens pool store s.disk.bytes earlier
  | .append index _ _ => ∀ store slot, s.store = some store →
      store.slots[index]? = some (slot + 1) → Opens pool store s.disk.bytes slot
  | .read _ => True

/-- The table leads to a cell that opens to the chunk. -/
def Readable (pool : Pool) (store : SeekStore) (file : List UInt8) (index : Nat) : Prop :=
  ∃ slot plain, store.slots[index]? = some (slot + 1) ∧
    store.readCell pool file slot = .ok (index, plain)

def AckedReadable (pool : Pool) (s : State) : Prop :=
  ∀ chunk ∈ s.acked, ∃ store, s.store = some store ∧ Readable pool store s.disk.bytes chunk.1

section Steps

variable {pool : Pool} {mxc : List UInt8} {chunkSize chunkCount : UInt32}

variable {file : List UInt8} {index : Nat}

theorem firstCell_of_indexAt {slot whole : Nat} (h : indexAt chunkSize file slot = some index)
    (hslot : slot < whole) :
    ∃ first, firstCell chunkSize file whole index = some first ∧ first ≤ slot := by
  cases hfirst : firstCell chunkSize file whole index with
  | none =>
    have hnone := List.find?_eq_none.mp hfirst slot (List.mem_range.mpr hslot)
    exact absurd (decide_eq_true h) hnone
  | some first =>
    refine ⟨first, rfl, ?_⟩
    by_contra hlater
    obtain ⟨_, _, hnot⟩ := List.find?_range_eq_some.mp hfirst
    have hslotNot := hnot slot (by omega)
    rw [decide_eq_true h] at hslotNot
    cases hslotNot

variable {appended : List (Nat × List UInt8)} {store : SeekStore}

/-- What was readable before the file is opened again is readable after. -/
theorem Readable.reopen {slots : List Nat}
    (hsound : StoreSound pool mxc chunkSize chunkCount appended store file)
    (hrejects : pool.aead.RejectsTorn) (hlength : slots.length = chunkCount.toNat)
    (htable : TableOf chunkSize file (wholeCells chunkSize file) slots)
    (hunhidden : ∀ slot opened, store.readCell pool file slot = .ok opened → ∀ earlier < slot,
      indexAt chunkSize file earlier = some opened.1 → Opens pool store file earlier)
    (h : Readable pool store file index) :
    Readable pool { blank mxc chunkSize chunkCount store.nonceBase with
      slots := slots
      cells := usedCells chunkSize file } file index := by
  obtain ⟨slot, plain, hslot, hread⟩ := h
  have hnamed := hsound.named.readCell pool chunkCount
  have hindex : index < slots.length := by
    rw [hlength, ← hsound.length]
    exact (List.getElem?_eq_some_iff.mp hslot).1
  have hwhole := (hsound.cells.readCell hrejects (by rw [← hnamed]; exact hread)).2
  have hlt : slot < wholeCells chunkSize file :=
    (lt_wholeCells_iff hsound.cells.headerLen_le hsound.cells.length_le
      hsound.cells.cells_le slot).mpr hwhole
  obtain ⟨first, hfirst, hle⟩ := firstCell_of_indexAt (hsound.table index slot hslot) hlt
  have hentry := htable index hindex
  rw [hfirst] at hentry
  have hfirstIndex := (firstCell_eq_some hfirst).2
  rcases Nat.lt_or_eq_of_le hle with hearlier | rfl
  · obtain ⟨opened, hopened⟩ := hunhidden slot (index, plain) hread first hearlier hfirstIndex
    rw [hnamed] at hopened
    have hsame := indexAt_of_readCell hopened
    rw [hfirstIndex] at hsame
    cases hsame
    exact ⟨first, opened.2, hentry, hopened⟩
  · rw [hnamed] at hread
    exact ⟨first, plain, hentry, hread⟩

theorem AckedReadable.opening {s : State} {nonceBase : Vector UInt8 MediaPool.nonceBaseLen}
    {fault : Option Nat} (h : AckedReadable pool s)
    (hsound : StateSound pool mxc chunkSize chunkCount s) (hrejects : pool.aead.RejectsTorn)
    (hunhidden : Unhidden pool chunkSize s (.opening nonceBase fault)) :
    AckedReadable pool (step pool mxc chunkSize chunkCount s (.opening nonceBase fault)) := by
  intro chunk hchunk
  obtain ⟨store, hstore, hreadable⟩ := h chunk hchunk
  have hstoreSound := hsound.store store hstore
  obtain ⟨slot, plain, hslot, hread⟩ := hreadable
  obtain ⟨hfirst, _⟩ := hunhidden store hstore slot (chunk.1, plain) hread
  generalize hopen : openStore pool mxc chunkSize chunkCount nonceBase s.disk fault = opened
  obtain ⟨result, disk'⟩ := opened
  have hstep : step pool mxc chunkSize chunkCount s (.opening nonceBase fault) =
      { s with disk := disk', store := result.toOption } := by
    rw [step, hopen]
  rw [hstep]
  rcases openStore_cases (fun _ => hstoreSound.cells) hopen with ⟨hfits, _⟩ |
      ⟨_, _, rfl, _, slots, hlength, htable, rfl⟩ | ⟨_, hnew, _⟩
  · exact absurd (hsound.fits store hstore) hfits
  · exact ⟨_, rfl, Readable.reopen hstoreSound hrejects hlength htable
      (fun slot opened hopened => (hunhidden store hstore slot opened hopened).2)
      ⟨slot, plain, hslot, hread⟩⟩
  · -- The file is not made anew, since its first cell opens.
    obtain ⟨rest, hrest⟩ := hstoreSound.cells.header
    have hheader : headerFits chunkSize chunkCount s.disk.bytes = true := by
      rw [hrest]
      exact headerFits_encodeHeader chunkSize chunkCount store.nonceBase rest
    obtain ⟨opened, hopened⟩ := hfirst
    rw [hstoreSound.named.readCell pool chunkCount] at hopened
    have hnone := (hnew hheader).2
    rw [hopened] at hnone
    cases hnone

variable {plain : List UInt8}

/-- A cell that has been written whole can be read, once it is in the table. -/
theorem readable_of_written {bytes : List UInt8} {kept : Nat}
    (hsound : StoreSound pool mxc chunkSize chunkCount appended store file)
    (hindex : index < store.slots.length) (hne : plain ≠ [])
    (hle : plain.length ≤ store.chunkSize.toNat) (hkept : cellLen store.chunkSize ≤ kept)
    (hbytes : bytes = writeCell file (cellOffset store.chunkSize store.cells) ((store.sealedCell
      pool store.cells index plain).take kept)) :
    Readable pool { store with
      slots := store.slots.set index (store.cells + 1)
      cells := store.cells + 1 } bytes index := by
  have hsize := hsound.named.chunkSize
  rw [hsize] at hle hkept
  rw [hsize, hsound.named.sealedCell pool chunkCount] at hbytes
  have hstorable : Storable chunkSize chunkCount index plain :=
    ⟨by rw [← hsound.length]; exact hindex, hne, hle⟩
  have hwritten := readCell_written pool mxc store.nonceBase hstorable
    hsound.cells.length_le hkept
  rw [← hbytes, ← hsound.named.readCell pool chunkCount] at hwritten
  exact ⟨store.cells, plain, List.getElem?_set_self hindex, hwritten⟩

theorem Readable.append {store' : SeekStore} {index' : Nat} {disk disk' : Disk} {fault : Option Nat}
    {error : Option SdkError}
    (hsound : StoreSound pool mxc chunkSize chunkCount appended store disk.bytes)
    (happend : store.append pool index plain disk fault = (error, store', disk'))
    (h : Readable pool store disk.bytes index') : Readable pool store' disk'.bytes index' := by
  obtain ⟨slot, found, hslot, hread⟩ := h
  rcases append_cases happend with
    ⟨rfl, rfl, _⟩ | ⟨hindex, hne, hle, hcells, _, kept, hbytes, hstore⟩
  · exact ⟨slot, found, hslot, hread⟩
  · have hsize := hsound.named.chunkSize
    have hlength : disk.bytes.length ≤ cellOffset store.chunkSize store.cells := by
      rw [hsize]
      exact hsound.cells.length_le
    obtain ⟨more, hmore⟩ := (writeCell_spec hlength
      (store.sealedCell pool store.cells index plain) kept).1
    have hread' : store.readCell pool disk'.bytes slot = .ok (index', found) := by
      rw [hbytes, hmore]
      exact readCell_append hread more
    rcases hstore with ⟨_, rfl⟩ | ⟨_, hkept, rfl⟩
    · exact ⟨slot, found, hslot, hread'⟩
    · by_cases hsame : index = index'
      · subst hsame
        exact readable_of_written hsound hindex hne hle hkept hbytes
      · refine ⟨slot, found, ?_, hread'⟩
        rw [← hslot]
        exact List.getElem?_set_ne hsame

/-- A chunk whose append returns without an error can be read. -/
theorem readable_of_append {store' : SeekStore} {disk disk' : Disk} {fault : Option Nat}
    (hsound : StoreSound pool mxc chunkSize chunkCount appended store disk.bytes)
    (hunhidden : ∀ slot, store.slots[index]? = some (slot + 1) → Opens pool store disk.bytes slot)
    (happend : store.append pool index plain disk fault = (none, store', disk')) :
    Readable pool store' disk'.bytes index := by
  rcases append_cases happend with
    ⟨hsame, hdisk, hhas⟩ |
      ⟨hindex, hne, hle, hcells, _, kept, hbytes, ⟨herror, _⟩ | ⟨_, hkept, rfl⟩⟩
  · rw [hsame, hdisk]
    obtain ⟨hindex, hhas⟩ := hhas rfl
    rw [has, List.getElem?_eq_getElem hindex, Option.any_some] at hhas
    obtain ⟨slot, hslot⟩ := Nat.exists_eq_succ_of_ne_zero (of_decide_eq_true hhas)
    have hentry : store.slots[index]? = some (slot + 1) := by
      rw [List.getElem?_eq_getElem hindex, hslot]
    obtain ⟨opened, hopened⟩ := hunhidden slot hentry
    have hnamed : indexAt chunkSize disk.bytes slot = some opened.1 := by
      rw [hsound.named.readCell pool chunkCount] at hopened
      exact indexAt_of_readCell hopened
    rw [hsound.table index slot hentry] at hnamed
    cases hnamed
    exact ⟨slot, opened.2, hentry, hopened⟩
  · exact absurd rfl herror
  · exact readable_of_written hsound hindex hne hle hkept hbytes

theorem AckedReadable.append {s : State} {index : Nat} {plain : List UInt8} {fault : Option Nat}
    (h : AckedReadable pool s) (hsound : StateSound pool mxc chunkSize chunkCount s)
    (hunhidden : Unhidden pool chunkSize s (.append index plain fault)) :
    AckedReadable pool (step pool mxc chunkSize chunkCount s (.append index plain fault)) := by
  cases hstore : s.store with
  | none =>
    rw [step, hstore]
    exact h
  | some store =>
    generalize happend : store.append pool index plain s.disk fault = outcome
    obtain ⟨error, store', disk'⟩ := outcome
    have hstoreSound := hsound.store store hstore
    rw [step, hstore]
    simp only [happend]
    intro chunk hchunk
    refine ⟨store', rfl, ?_⟩
    have hold : chunk ∈ s.acked → Readable pool store' disk'.bytes chunk.1 := by
      intro hmem
      obtain ⟨other, hother, hreadable⟩ := h chunk hmem
      rw [hstore] at hother
      cases hother
      exact hreadable.append hstoreSound happend
    cases error with
    | some error => exact hold hchunk
    | none =>
      rcases List.mem_append.mp hchunk with hmem | hnew
      · exact hold hmem
      · rw [List.mem_singleton.mp hnew]
        exact readable_of_append hstoreSound
          (fun slot hslot => hunhidden store slot hstore hslot) happend

theorem AckedReadable.read {s : State} {index : Nat} (h : AckedReadable pool s) :
    AckedReadable pool (step pool mxc chunkSize chunkCount s (.read index)) := by
  intro chunk hchunk
  obtain ⟨store, hstore, slot, plain, hslot, hread⟩ := h chunk hchunk
  rw [step]
  refine ⟨(store.read pool s.disk.bytes index).2, by rw [hstore]; rfl, ?_⟩
  rcases read_cases pool store s.disk.bytes index with hsame | ⟨hset, hnot⟩
  · rw [hsame]
    exact ⟨slot, plain, hslot, hread⟩
  · rw [hset]
    have hother : index ≠ chunk.1 := by
      rintro rfl
      exact hnot slot hslot plain hread
    exact ⟨slot, plain, (List.getElem?_set_ne hother).trans hslot, hread⟩

end Steps

/-- In a run in which no unfinished cell stands in the way, every chunk whose append
returned without an error is read back, and what is read was handed over for it. -/
theorem appended_stays_readable (pool : Pool) (mxc : List UInt8) (chunkSize chunkCount : UInt32)
    (actions : List Action) (hrejects : pool.aead.RejectsTorn)
    (hunhidden : Runs.Along (step pool mxc chunkSize chunkCount) (Unhidden pool chunkSize)
      State.start actions) :
    let s := Runs.run (step pool mxc chunkSize chunkCount) State.start actions
    ∀ index plain, (index, plain) ∈ s.acked → ∃ store found, s.store = some store ∧
      (store.read pool s.disk.bytes index).1 = some found ∧ (index, found) ∈ s.appended ∧
      ((∀ other, (index, other) ∈ s.appended → other = plain) → found = plain) := by
  intro s index plain hacked
  obtain ⟨hsound, hreadable⟩ := Runs.run_invariant_along
    (fun s => StateSound pool mxc chunkSize chunkCount s ∧ AckedReadable pool s)
    (fun s action hnot h => ⟨h.1.step action, (by
      cases action with
      | opening nonceBase fault => exact h.2.opening h.1 hrejects hnot
      | append index plain fault => exact h.2.append h.1 hnot
      | read index => exact h.2.read)⟩) actions State.start hunhidden
    ⟨stateSound_run pool mxc chunkSize chunkCount [], fun chunk hchunk => (by cases hchunk)⟩
  obtain ⟨store, hstore, slot, found, hslot, hread⟩ := hreadable (index, plain) hacked
  have hfound : (store.read pool s.disk.bytes index).1 = some found :=
    read_eq_some_iff.mpr ⟨slot, hslot, hread⟩
  have hmem := (hsound.store store hstore).read_mem hrejects hfound
  exact ⟨store, found, hstore, hfound, hmem, fun honly => honly found hmem⟩

/-- A write that fails in the middle of the last cell hides nothing. -/
theorem appended_stays_readable_half_cell :
    let actions : List Action :=
      [.opening (exampleBase 1) none, .append 0 [5] none, .append 1 [6] (some 9),
        .opening (exampleBase 2) none]
    let s := Runs.run (step examplePool [] 1 2) State.start actions
    ∃ store found, s.store = some store ∧
      (store.read examplePool s.disk.bytes 0).1 = some found ∧ (0, found) ∈ s.appended ∧
      ((∀ other, (0, other) ∈ s.appended → other = [5]) → found = [5]) := by
  intro actions
  have hrejects : examplePool.aead.RejectsTorn := Aead.marked_rejectsTorn _ _ (by decide)
  have hunhidden : Runs.Along (step examplePool [] 1 2) (Unhidden examplePool 1) State.start
      actions := by
    refine ⟨?_, ?_, ?_, ?_, trivial⟩
    · intro store hstore
      cases hstore
    · intro store slot hstore hslot
      cases hstore
      cases hslot
    · intro store slot hstore hslot
      cases hstore
      cases hslot
    · intro store hstore slot opened hopened
      -- Only the first cell is whole.
      have hsound := (stateSound_run examplePool [] 1 2 (actions.take 3)).store store hstore
      have hwhole := (hsound.cells.readCell hrejects (by
        rw [← hsound.named.readCell examplePool 2]
        exact hopened)).2
      have hlength : (Runs.run (step examplePool [] 1 2) State.start
          (actions.take 3)).disk.bytes.length = 66 := by decide +kernel
      have hcell : cellLen 1 = 25 := rfl
      rw [hlength, cellOffset, hcell, headerLen] at hwhole
      have hzero : slot = 0 := by omega
      subst hzero
      exact ⟨⟨opened, hopened⟩, fun earlier hearlier => absurd hearlier (Nat.not_lt_zero _)⟩
  exact appended_stays_readable examplePool [] 1 2 actions hrejects hunhidden 0 [5]
    (by decide +kernel)

/-- The first cell is left unfinished, and with it goes the chunk stored after it. -/
theorem appended_lost_behind_unfinished_cell :
    let actions : List Action :=
      [.opening (exampleBase 1) none, .append 0 [5] (some 0), .append 1 [6] none,
        .opening (exampleBase 2) none]
    let s := Runs.run (step examplePool [] 1 2) State.start actions
    (1, [6]) ∈ s.acked ∧
      (s.store.bind fun store => (store.read examplePool s.disk.bytes 1).1) = none := by
  decide +kernel

end SeekStore
end WbfMatrixClient
