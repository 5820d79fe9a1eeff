import WbfMatrixClient.Lib.Runs
import WbfMatrixClient.SeekStore

/-!
# Opening, appending and failing over one seek file

A step opens the file, hands a chunk to the store, or reads one. A write may fail
after any number of bytes, and opening drops the store that was there before.

The invariant compares every cell whose number is used with a cell that was to be
written: the file holds its first bytes, and what is missing reads as zeros once a
later cell is written behind it.
-/

namespace WbfMatrixClient
namespace SeekStore

open Sealing
open MediaPool (Pool Disk lenField)

structure State where
  disk : Disk
  store : Option SeekStore
  /-- What was handed over, whether it could be stored or not. -/
  appended : List (Nat × List UInt8)
  /-- The calls that returned without an error. -/
  acked : List (Nat × List UInt8)

def State.start : State :=
  { disk := ⟨[], []⟩, store := none, appended := [], acked := [] }

inductive Action where
  | opening (nonceBase : Vector UInt8 MediaPool.nonceBaseLen) (fault : Option Nat)
  | append (index : Nat) (plain : List UInt8) (fault : Option Nat)
  | read (index : Nat)

def step (pool : Pool) (mxc : List UInt8) (chunkSize chunkCount : UInt32) (s : State) :
    Action → State
  | .opening nonceBase fault =>
      let (result, disk) :=
        openStore pool mxc chunkSize chunkCount nonceBase s.disk fault
      { s with disk := disk, store := result.toOption }
  | .append index plain fault =>
      match s.store with
      | none => s
      | some store =>
          let (error, store, disk) := store.append pool index plain s.disk fault
          { disk := disk
            store := some store
            appended := s.appended ++ [(index, plain)]
            acked := if error.isNone then s.acked ++ [(index, plain)] else s.acked }
  | .read index =>
      { s with store := s.store.map fun store => (store.read pool s.disk.bytes index).2 }

section Cells

variable {pool : Pool} {store : SeekStore}

variable {plain : List UInt8}

theorem length_padded {chunkSize : UInt32} (h : plain.length ≤ chunkSize.toNat) :
    (padded chunkSize plain).length = lenField + chunkSize.toNat := by
  simp only [padded, List.length_append, Bytes.length_toLittleEndian, List.length_replicate]
  omega

variable {slot index : Nat}

theorem length_sealedCell (h : plain.length ≤ store.chunkSize.toNat) :
    (store.sealedCell pool slot index plain).length = cellLen store.chunkSize := by
  simp only [sealedCell, List.length_append, Bytes.length_toLittleEndian,
    pool.aead.length_encrypt, cellSeal, length_padded h, cellLen]
  omega

theorem cellLen_pos (chunkSize : UInt32) : indexField < cellLen chunkSize := by
  simp only [cellLen, indexField, lenField]
  omega

theorem cellOffset_le (chunkSize : UInt32) {slot' : Nat} (h : slot < slot') :
    cellOffset chunkSize slot + cellLen chunkSize ≤ cellOffset chunkSize slot' := by
  have hmul := Nat.mul_le_mul_right (cellLen chunkSize) (Nat.succ_le_of_lt h)
  rw [Nat.succ_mul] at hmul
  simp only [cellOffset]
  omega

/-- The plaintext of a cell gives the chunk back. -/
theorem padded_chunk {chunkSize : UInt32} (h : plain.length ≤ chunkSize.toNat) :
    Bytes.ofLittleEndian ((padded chunkSize plain).take lenField) = plain.length ∧
      ((padded chunkSize plain).drop lenField).take plain.length = plain := by
  have hlt : plain.length < 256 ^ lenField := lt_of_le_of_lt h chunkSize.toNat_lt
  rw [padded, List.append_assoc, List.take_left' (Bytes.length_toLittleEndian _ _),
    List.drop_left' (Bytes.length_toLittleEndian _ _), List.take_left' rfl]
  exact ⟨Bytes.ofLittleEndian_toLittleEndian lenField _ hlt, rfl⟩

theorem openCell_sealedCell (hindex : index < 2 ^ 32) (hplain : plain ≠ [])
    (hle : plain.length ≤ store.chunkSize.toNat) :
    store.openCell pool slot (store.sealedCell pool slot index plain) = .ok (index, plain) := by
  have hfield : Bytes.ofLittleEndian
      ((store.sealedCell pool slot index plain).take indexField) = index := by
    rw [sealedCell, List.take_left' (Bytes.length_toLittleEndian _ _)]
    exact Bytes.ofLittleEndian_toLittleEndian indexField index hindex
  have hdrop : (store.sealedCell pool slot index plain).drop indexField =
      pool.aead.encrypt pool.key (store.nonceAndAad slot index).1
        (store.nonceAndAad slot index).2 (padded store.chunkSize plain) :=
    List.drop_left' (Bytes.length_toLittleEndian _ _)
  obtain ⟨hlength, hchunk⟩ := padded_chunk hle
  have hpos : 0 < plain.length := List.length_pos_of_ne_nil hplain
  rw [openCell]
  simp only [hfield, hdrop, pool.aead.decrypt_encrypt, hlength, length_padded hle, hchunk]
  rw [if_neg (by omega), if_neg (by omega), if_neg (by omega)]

/-- A cell that is not whole opens only if nothing of it is missing. -/
theorem openCell_torn {kept : Nat} {opened : Nat × List UInt8} (hrejects : pool.aead.RejectsTorn)
    (hindex : index < 2 ^ 32) (hplain : plain ≠ []) (hle : plain.length ≤ store.chunkSize.toNat)
    (h : store.openCell pool slot (torn (store.sealedCell pool slot index plain) kept) = .ok
      opened) : opened = (index, plain) := by
  by_cases hkept : kept < indexField
  · -- Nothing of what was sealed is there.
    have hdrop : (torn (store.sealedCell pool slot index plain) kept).drop indexField =
        List.replicate (cellLen store.chunkSize - indexField) 0 := by
      have hlong := cellLen_pos store.chunkSize
      rw [torn, List.drop_append, List.drop_eq_nil_of_le (by rw [List.length_take]; omega),
        List.nil_append, List.drop_replicate, length_sealedCell hle, List.length_take,
        length_sealedCell hle]
      congr 1
      omega
    rw [openCell] at h
    simp only [hdrop, hrejects.blank] at h
    cases h
  · have hdrop : (torn (store.sealedCell pool slot index plain) kept).drop indexField =
        torn (pool.aead.encrypt pool.key (store.nonceAndAad slot index).1
          (store.nonceAndAad slot index).2 (padded store.chunkSize plain))
          (kept - indexField) := by
      have hfield := Bytes.length_toLittleEndian indexField index
      have hboth := drop_torn (Bytes.toLittleEndian indexField index)
        (pool.aead.encrypt pool.key (store.nonceAndAad slot index).1
          (store.nonceAndAad slot index).2 (padded store.chunkSize plain))
        (show (Bytes.toLittleEndian indexField index).length ≤ kept by omega)
      rw [hfield] at hboth
      exact hboth
    by_cases hwhole : torn (store.sealedCell pool slot index plain) kept =
        store.sealedCell pool slot index plain
    · rw [hwhole, openCell_sealedCell hindex hplain hle] at h
      cases h
      rfl
    · have htake : (torn (store.sealedCell pool slot index plain) kept).take indexField =
          Bytes.toLittleEndian indexField index := by
        rw [torn, List.take_append_of_le_length, List.take_take, Nat.min_eq_left (by omega),
          sealedCell, List.take_left' (Bytes.length_toLittleEndian _ _)]
        rw [List.length_take, length_sealedCell hle]
        have hlong := cellLen_pos store.chunkSize
        omega
      have hne : torn (pool.aead.encrypt pool.key (store.nonceAndAad slot index).1
          (store.nonceAndAad slot index).2 (padded store.chunkSize plain)) (kept - indexField) ≠
            pool.aead.encrypt pool.key (store.nonceAndAad slot index).1
              (store.nonceAndAad slot index).2 (padded store.chunkSize plain) := by
        intro hsame
        apply hwhole
        rw [← List.take_append_drop indexField
          (torn (store.sealedCell pool slot index plain) kept), htake, hdrop, hsame]
        rfl
      rw [openCell] at h
      simp only [htake, hdrop, Bytes.ofLittleEndian_toLittleEndian indexField index hindex,
        hrejects.torn _ _ _ _ _ hne] at h
      cases h

end Cells

theorem length_encodeHeader (chunkSize chunkCount : UInt32)
    (base : Vector UInt8 MediaPool.nonceBaseLen) :
    (encodeHeader chunkSize chunkCount base).length = headerLen := by
  simp [encodeHeader, magic, headerLen]
  rfl

/-- The parts of a header, also when cells stand behind it. -/
theorem encodeHeader_parts (chunkSize chunkCount : UInt32)
    (base : Vector UInt8 MediaPool.nonceBaseLen) (rest : List UInt8) :
    let file := encodeHeader chunkSize chunkCount base ++ rest
    (file.drop 8).take 4 = Bytes.toLittleEndian 4 chunkSize.toNat ∧
      (file.drop 12).take 4 = Bytes.toLittleEndian 4 chunkCount.toNat ∧
      (file.drop 16).take 16 = base.toList := by
  have hsize := Bytes.length_toLittleEndian 4 chunkSize.toNat
  have hcount := Bytes.length_toLittleEndian 4 chunkCount.toNat
  have hbase : base.toList.length = 16 := base.length_toList
  have hfile : encodeHeader chunkSize chunkCount base ++ rest =
      (magic ++ [version, 0, 0, 0]) ++ (Bytes.toLittleEndian 4 chunkSize.toNat ++
        (Bytes.toLittleEndian 4 chunkCount.toNat ++ (base.toList ++ rest))) := by
    simp only [encodeHeader, List.append_assoc]
  dsimp only
  rw [hfile]
  refine ⟨?_, ?_, ?_⟩
  · rw [List.drop_left' (by rfl), List.take_left' hsize]
  · rw [← List.append_assoc, List.drop_left' (by rw [List.length_append, hsize]; rfl),
      List.take_left' hcount]
  · rw [← List.append_assoc, ← List.append_assoc,
      List.drop_left' (by rw [List.length_append, List.length_append, hsize, hcount]; rfl),
      List.take_left' hbase]

theorem headerFits_encodeHeader (chunkSize chunkCount : UInt32)
    (base : Vector UInt8 MediaPool.nonceBaseLen) (rest : List UInt8) :
    headerFits chunkSize chunkCount (encodeHeader chunkSize chunkCount base ++ rest) = true := by
  have hlength := length_encodeHeader chunkSize chunkCount base
  have hread : ByteFile.readExact (encodeHeader chunkSize chunkCount base ++ rest) 0 headerLen =
      some (encodeHeader chunkSize chunkCount base) := by
    rw [ByteFile.readExact_append (by omega), ByteFile.readExact, if_pos (by omega),
      List.drop_zero, List.take_of_length_le (by omega)]
  obtain ⟨hsize, hcount, _⟩ := encodeHeader_parts chunkSize chunkCount base []
  rw [List.append_nil] at hsize hcount
  rw [headerFits, hread]
  simp only [hsize, hcount, Bytes.ofLittleEndian_toLittleEndian 4 _ chunkSize.toNat_lt,
    Bytes.ofLittleEndian_toLittleEndian 4 _ chunkCount.toNat_lt, and_true, decide_eq_true_eq]
  exact ⟨rfl, rfl⟩

theorem nonceBase_encodeHeader (chunkSize chunkCount : UInt32)
    (base : Vector UInt8 MediaPool.nonceBaseLen) (rest : List UInt8) :
    (Vector.ofFn fun i : Fin MediaPool.nonceBaseLen =>
      (encodeHeader chunkSize chunkCount base ++ rest).getD (16 + i.val) 0) = base := by
  obtain ⟨_, _, hbase⟩ := encodeHeader_parts chunkSize chunkCount base rest
  apply Vector.ext
  intro i hi
  have hlt : i < 16 := hi
  have hget : ((encodeHeader chunkSize chunkCount base ++ rest).drop 16).getD i 0 = base[i] := by
    have hfront : (((encodeHeader chunkSize chunkCount base ++ rest).drop 16).take 16).getD i 0 =
        ((encodeHeader chunkSize chunkCount base ++ rest).drop 16).getD i 0 := by
      simp only [List.getD_eq_getElem?_getD, List.getElem?_take_of_lt hlt]
    rw [← hfront, hbase, List.getD_eq_getElem?_getD, Vector.getElem?_toList,
      Vector.getElem?_eq_getElem hi, Option.getD_some]
    rfl
  rw [Vector.getElem_ofFn]
  refine Eq.trans ?_ hget
  simp only [List.getD_eq_getElem?_getD, List.getElem?_drop]

theorem headerFits_of_length_lt {chunkSize chunkCount : UInt32} {file : List UInt8}
    (h : file.length < headerLen) : headerFits chunkSize chunkCount file = false := by
  rw [headerFits, ByteFile.readExact, if_neg (by omega)]

section Counts

variable {chunkSize : UInt32} {file : List UInt8} {cells : Nat}

theorem usedCells_spec (hlength : file.length ≤ cellOffset chunkSize cells)
    (hcells : cells ≤ maxCells) :
    usedCells chunkSize file ≤ cells ∧
      file.length ≤ cellOffset chunkSize (usedCells chunkSize file) := by
  have hpos : 0 < cellLen chunkSize := lt_of_le_of_lt (Nat.zero_le _) (cellLen_pos chunkSize)
  rw [cellOffset] at hlength
  have hle : (file.length - headerLen + (cellLen chunkSize - 1)) / cellLen chunkSize ≤ cells := by
    rw [← Nat.lt_succ_iff, Nat.div_lt_iff_lt_mul hpos, Nat.succ_mul]
    omega
  have hmod := Nat.mod_lt (file.length - headerLen + (cellLen chunkSize - 1)) hpos
  have hdiv := Nat.div_add_mod (file.length - headerLen + (cellLen chunkSize - 1))
    (cellLen chunkSize)
  rw [usedCells, Nat.min_eq_left (le_trans hle hcells), cellOffset, Nat.mul_comm]
  exact ⟨hle, by omega⟩

theorem lt_wholeCells_iff (hheader : headerLen ≤ file.length)
    (hlength : file.length ≤ cellOffset chunkSize cells) (hcells : cells ≤ maxCells) (slot : Nat) :
    slot < wholeCells chunkSize file ↔
      cellOffset chunkSize slot + cellLen chunkSize ≤ file.length := by
  have hpos : 0 < cellLen chunkSize := lt_of_le_of_lt (Nat.zero_le _) (cellLen_pos chunkSize)
  rw [cellOffset] at hlength
  have hle : (file.length - headerLen) / cellLen chunkSize ≤ cells := by
    refine Nat.div_le_of_le_mul ?_
    rw [Nat.mul_comm]
    omega
  rw [wholeCells, Nat.min_eq_left (le_trans hle hcells), ← Nat.succ_le_iff,
    Nat.le_div_iff_mul_le hpos, Nat.succ_mul, cellOffset]
  omega

end Counts

/-- The first of the cells before a number that names a chunk. -/
def firstCell (chunkSize : UInt32) (file : List UInt8) (slot index : Nat) : Option Nat :=
  (List.range slot).find? fun earlier => indexAt chunkSize file earlier = some index

/-- The table over the cells before a number. -/
def TableOf (chunkSize : UInt32) (file : List UInt8) (slot : Nat) (slots : List Nat) : Prop :=
  ∀ index, index < slots.length →
    slots[index]? = some ((firstCell chunkSize file slot index).elim 0 fun first => first + 1)

variable {chunkSize : UInt32}

theorem firstCell_succ {file : List UInt8} {slot named : Nat}
    (hnamed : indexAt chunkSize file slot = some named) (index : Nat) :
    firstCell chunkSize file (slot + 1) index =
      (firstCell chunkSize file slot index).or (if named = index then some slot else none) := by
  rw [firstCell, List.range_succ, List.find?_append, ← firstCell]
  congr 1
  by_cases hsame : named = index
  · simp [hnamed, hsame]
  · simp [hnamed, hsame]

theorem TableOf.succ {file : List UInt8} {slot named : Nat} {slots : List Nat}
    (h : TableOf chunkSize file slot slots) (hnamed : indexAt chunkSize file slot = some named) :
    TableOf chunkSize file (slot + 1)
      (if slots[named]? = some 0 then slots.set named (slot + 1) else slots) := by
  intro index hindex
  have hlt : index < slots.length := by
    split_ifs at hindex with hzero
    · rwa [List.length_set] at hindex
    · exact hindex
  have hold := h index hlt
  rw [firstCell_succ hnamed]
  cases hfirst : firstCell chunkSize file slot index with
  | none =>
    rw [hfirst] at hold
    have hzero : slots[index]? = some 0 := hold
    by_cases hsame : named = index
    · subst hsame
      rw [if_pos hzero, List.getElem?_set_self hlt, if_pos rfl]
      rfl
    · rw [if_neg hsame, apply_ite (fun slots : List Nat => slots[index]?),
        List.getElem?_set_ne hsame, ite_self, hzero]
      rfl
  | some first =>
    rw [hfirst] at hold
    have hother : ¬(slots[named]? = some 0 ∧ named = index) := by
      rintro ⟨hzero, rfl⟩
      rw [hzero] at hold
      cases hold
    have hsame : (if slots[named]? = some 0 then slots.set named (slot + 1) else slots)[index]? =
        slots[index]? := by
      split_ifs with hzero
      · exact List.getElem?_set_ne fun hsame => hother ⟨hzero, hsame⟩
      · rfl
    rw [hsame, hold]
    rfl

/-- Going over cells that are whole makes the table of all of them. -/
theorem rebuild_spec {file : List UInt8} :
    ∀ (left slot : Nat) (slots : List Nat),
      (∀ earlier < slot + left, (indexAt chunkSize file earlier).isSome) →
      TableOf chunkSize file slot slots →
      ∃ slots', rebuild chunkSize file left slot slots = .ok slots' ∧
        slots'.length = slots.length ∧ TableOf chunkSize file (slot + left) slots' := by
  intro left
  induction left with
  | zero =>
    intro slot slots _ htable
    exact ⟨slots, rfl, rfl, htable⟩
  | succ left ih =>
    intro slot slots hwhole htable
    obtain ⟨named, hnamed⟩ := Option.isSome_iff_exists.mp (hwhole slot (by omega))
    obtain ⟨slots', hrebuild, hlength, htable'⟩ := ih (slot + 1) _
      (fun earlier hearlier => hwhole earlier (by omega)) (htable.succ hnamed)
    refine ⟨slots', ?_, ?_, ?_⟩
    · rw [rebuild, hnamed]
      exact hrebuild
    · rw [hlength]
      split_ifs
      · exact List.length_set
      · rfl
    · rw [show slot + (left + 1) = slot + 1 + left by omega]
      exact htable'

section Sound

variable (pool : Pool) (mxc : List UInt8) (chunkSize chunkCount : UInt32)

/-- A chunk that can be stored. -/
structure Storable (index : Nat) (plain : List UInt8) : Prop where
  index_lt : index < chunkCount.toNat
  plain_ne : plain ≠ []
  plain_le : plain.length ≤ chunkSize.toNat

/-- Every used cell holds the first bytes of a chunk that was handed over, and there
is nothing behind the used cells. -/
structure FileSound (appended : List (Nat × List UInt8)) (base : Vector UInt8 MediaPool.nonceBaseLen)
    (cells : Nat) (file : List UInt8) : Prop where
  header : ∃ rest, file = encodeHeader chunkSize chunkCount base ++ rest
  length_le : file.length ≤ cellOffset chunkSize cells
  cells_le : cells ≤ maxCells
  cell : ∀ slot < cells, ∃ index plain kept, (index, plain) ∈ appended ∧
    Storable chunkSize chunkCount index plain ∧
    ByteFile.readPadded file (cellOffset chunkSize slot) (cellLen chunkSize) =
      torn ((blank mxc chunkSize chunkCount base).sealedCell pool slot index plain) kept

/-- A store of this file. -/
structure Named (base : Vector UInt8 MediaPool.nonceBaseLen) (store : SeekStore) : Prop where
  nonceBase : store.nonceBase = base
  chunkSize : store.chunkSize = chunkSize
  mxc : store.mxc = mxc

end Sound

section Sound

variable {pool : Pool} {mxc : List UInt8} {chunkSize chunkCount : UInt32}
  {appended : List (Nat × List UInt8)} {base : Vector UInt8 MediaPool.nonceBaseLen} {cells : Nat}
  {file : List UInt8} {store : SeekStore}

theorem Named.sealedCell (h : Named mxc chunkSize base store) (pool : Pool) (chunkCount : UInt32) :
    store.sealedCell pool = (blank mxc chunkSize chunkCount base).sealedCell pool := by
  obtain ⟨rfl, rfl, rfl⟩ := h
  rfl

theorem Named.readCell (h : Named mxc chunkSize base store) (pool : Pool) (chunkCount : UInt32) :
    store.readCell pool = (blank mxc chunkSize chunkCount base).readCell pool := by
  obtain ⟨rfl, rfl, rfl⟩ := h
  rfl

section

variable (h : FileSound pool mxc chunkSize chunkCount appended base cells file)

include h

theorem FileSound.headerLen_le : headerLen ≤ file.length := by
  obtain ⟨rest, rfl⟩ := h.header
  rw [List.length_append, length_encodeHeader]
  omega

omit h in
theorem FileSound.create (pool : Pool) (mxc : List UInt8) (chunkSize chunkCount : UInt32)
    (appended : List (Nat × List UInt8)) (base : Vector UInt8 MediaPool.nonceBaseLen) :
    FileSound pool mxc chunkSize chunkCount appended base 0
      (encodeHeader chunkSize chunkCount base) where
  header := ⟨[], (List.append_nil _).symm⟩
  length_le := by
    rw [length_encodeHeader, cellOffset]
    omega
  cells_le := Nat.zero_le _
  cell slot hslot := absurd hslot (Nat.not_lt_zero slot)

theorem FileSound.mono {appended' : List (Nat × List UInt8)}
    (hsub : ∀ chunk ∈ appended, chunk ∈ appended') :
    FileSound pool mxc chunkSize chunkCount appended' base cells file := by
  refine ⟨h.header, h.length_le, h.cells_le, fun slot hslot => ?_⟩
  obtain ⟨index, plain, kept, hmem, hstorable, hcell⟩ := h.cell slot hslot
  exact ⟨index, plain, kept, hsub _ hmem, hstorable, hcell⟩

/-- The cells that a file shows to be used. -/
theorem FileSound.reopen :
    FileSound pool mxc chunkSize chunkCount appended base (usedCells chunkSize file) file := by
  obtain ⟨hle, hlength⟩ := usedCells_spec h.length_le h.cells_le
  exact ⟨h.header, hlength, le_trans hle h.cells_le,
    fun slot hslot => h.cell slot (lt_of_lt_of_le hslot hle)⟩

end

/-- Writing in the next cell only adds to the file. -/
theorem writeCell_spec {offset : Nat} (h : file.length ≤ offset) (cell : List UInt8) (kept : Nat) :
    (∃ more, writeCell file offset (cell.take kept) = file ++ more) ∧
      (writeCell file offset (cell.take kept)).length ≤ offset + cell.length ∧
      (∀ start length, start + length ≤ offset →
        ByteFile.readPadded (writeCell file offset (cell.take kept)) start length =
          ByteFile.readPadded file start length) ∧
      ByteFile.readPadded (writeCell file offset (cell.take kept)) offset cell.length =
        torn cell kept := by
  have hkept : (cell.take kept).length ≤ cell.length := List.length_take_le' _ _
  have htorn : cell.take kept ++ List.replicate (cell.length - (cell.take kept).length) 0 =
      torn cell kept := by
    rw [torn, List.length_take]
    congr 2
    omega
  rw [writeCell]
  split_ifs with hnone
  · refine ⟨⟨[], (List.append_nil file).symm⟩, by omega, fun _ _ _ => rfl, ?_⟩
    rw [ByteFile.readPadded_of_length_le h, ← htorn, hnone]
    rfl
  · refine ⟨⟨_, ByteFile.writeAt_of_length_le h _⟩, ?_, ?_, ?_⟩
    · rw [ByteFile.writeAt_of_length_le h, List.length_append, List.length_append,
        List.length_replicate]
      omega
    · exact fun start length hbefore => ByteFile.readPadded_writeAt_of_le hbefore h _
    · rw [ByteFile.readPadded_writeAt h hkept, htorn]

theorem FileSound.append {index : Nat} {plain : List UInt8}
    (h : FileSound pool mxc chunkSize chunkCount appended base cells file)
    (hstorable : Storable chunkSize chunkCount index plain) (hcells : cells < maxCells)
    (kept : Nat) :
    FileSound pool mxc chunkSize chunkCount (appended ++ [(index, plain)]) base (cells + 1)
      (writeCell file (cellOffset chunkSize cells)
        (((blank mxc chunkSize chunkCount base).sealedCell pool cells index plain).take kept)) := by
  have hcell : ((blank mxc chunkSize chunkCount base).sealedCell pool cells index plain).length =
      cellLen chunkSize := length_sealedCell hstorable.plain_le
  obtain ⟨⟨more, hmore⟩, hlength, hbefore, hself⟩ := writeCell_spec h.length_le
    ((blank mxc chunkSize chunkCount base).sealedCell pool cells index plain) kept
  refine ⟨?_, ?_, hcells, fun slot hslot => ?_⟩
  · obtain ⟨rest, hrest⟩ := h.header
    rw [hmore, hrest, List.append_assoc]
    exact ⟨rest ++ more, rfl⟩
  · refine le_trans hlength ?_
    rw [hcell]
    exact cellOffset_le chunkSize (Nat.lt_succ_self cells)
  · rcases Nat.lt_succ_iff_lt_or_eq.mp hslot with hlt | rfl
    · obtain ⟨index', plain', kept', hmem, hstorable', hold⟩ := h.cell slot hlt
      refine ⟨index', plain', kept', List.mem_append_left _ hmem, hstorable', ?_⟩
      rw [hbefore _ _ (cellOffset_le chunkSize hlt), hold]
    · refine ⟨index, plain, kept, List.mem_append_right _ (List.mem_singleton_self _),
        hstorable, ?_⟩
      rw [← hcell, hself]

theorem index_lt_of_storable {index : Nat} {plain : List UInt8}
    (h : Storable chunkSize chunkCount index plain) :
    index < 2 ^ 32 := lt_trans h.index_lt chunkCount.toNat_lt

/-- A cell that opens is whole, names its chunk, and holds what was handed over. -/
theorem FileSound.readCell {slot : Nat} {opened : Nat × List UInt8}
    (h : FileSound pool mxc chunkSize chunkCount appended base cells file)
    (hrejects : pool.aead.RejectsTorn)
    (hread : (blank mxc chunkSize chunkCount base).readCell pool file slot = .ok opened) :
    opened ∈ appended ∧ cellOffset chunkSize slot + cellLen chunkSize ≤ file.length := by
  rw [SeekStore.readCell] at hread
  cases hexact : ByteFile.readExact file (cellOffset chunkSize slot) (cellLen chunkSize) with
  | none =>
    simp only [blank, hexact] at hread
    cases hread
  | some cell =>
    have hwhole := (ByteFile.readExact_of_drop hexact).2
    have hlt : slot < cells := by
      by_contra hge
      have hpos := cellLen_pos chunkSize
      have hlength := h.length_le
      rcases Nat.lt_or_eq_of_le (not_lt.mp hge) with hlt | heq
      · have hafter := cellOffset_le chunkSize hlt
        omega
      · rw [heq] at hlength
        omega
    obtain ⟨index, plain, kept, hmem, hstorable, hcell⟩ := h.cell slot hlt
    rw [ByteFile.readExact_eq_readPadded hwhole, hcell] at hexact
    cases hexact
    have hopen : (blank mxc chunkSize chunkCount base).openCell pool slot
        (torn ((blank mxc chunkSize chunkCount base).sealedCell pool slot index plain) kept) =
          .ok opened := by
      rw [← hread]
      simp only [blank, ByteFile.readExact_eq_readPadded hwhole, hcell]
    rw [openCell_torn hrejects (index_lt_of_storable hstorable) hstorable.plain_ne
      hstorable.plain_le hopen]
    exact ⟨hmem, hwhole⟩

/-- The chunk that a cell opens to is the one it names. -/
theorem indexAt_of_readCell {slot : Nat} {opened : Nat × List UInt8}
    (hread : (blank mxc chunkSize chunkCount base).readCell pool file slot = .ok opened) :
    indexAt chunkSize file slot = some opened.1 := by
  rw [SeekStore.readCell] at hread
  cases hexact : ByteFile.readExact file (cellOffset chunkSize slot) (cellLen chunkSize) with
  | none =>
    simp only [blank, hexact] at hread
    cases hread
  | some cell =>
    simp only [blank, hexact] at hread
    obtain ⟨rfl, hwhole⟩ := ByteFile.readExact_of_drop hexact
    have hlong := cellLen_pos chunkSize
    rw [indexAt, ByteFile.readExact, if_pos (by omega), Option.map_some]
    rw [openCell] at hread
    split at hread
    · cases hread
    · dsimp only at hread
      split_ifs at hread
      cases hread
      rw [List.take_take, Nat.min_eq_left (le_of_lt hlong)]

/-- A cell that was opened opens again when something is added to the file. -/
theorem readCell_append {slot : Nat} {opened : Nat × List UInt8}
    (hread : store.readCell pool file slot = .ok opened) (more : List UInt8) :
    store.readCell pool (file ++ more) slot = .ok opened := by
  rw [SeekStore.readCell] at hread ⊢
  cases hexact : ByteFile.readExact file (cellOffset store.chunkSize slot)
      (cellLen store.chunkSize) with
  | none =>
    rw [hexact] at hread
    cases hread
  | some cell =>
    rw [ByteFile.readExact_append (ByteFile.readExact_of_drop hexact).2, hexact]
    rw [hexact] at hread
    exact hread

end Sound

section Steps

variable {pool : Pool} {mxc : List UInt8} {chunkSize chunkCount : UInt32}

variable {index : Nat} {plain : List UInt8} {disk disk' : Disk} {fault : Option Nat}

/-- What appending can do: nothing, or write some bytes of the next cell. -/
theorem append_cases {store store' : SeekStore} {error : Option SdkError}
    (h : store.append pool index plain disk fault = (error, store', disk')) :
    (store' = store ∧ disk' = disk ∧
        (error = none → index < store.slots.length ∧ store.has index = true)) ∨
      (index < store.slots.length ∧ plain ≠ [] ∧ plain.length ≤ store.chunkSize.toNat ∧
        store.cells < maxCells ∧
        disk'.sealed = disk.sealed ++ [store.cellSeal pool store.cells index plain] ∧
        ∃ kept, disk'.bytes = writeCell disk.bytes (cellOffset store.chunkSize store.cells)
            ((store.sealedCell pool store.cells index plain).take kept) ∧
          ((error ≠ none ∧ store' = { store with cells := store.cells + 1 }) ∨
            (error = none ∧ cellLen store.chunkSize ≤ kept ∧
              store' = { store with
                slots := store.slots.set index (store.cells + 1)
                cells := store.cells + 1 }))) := by
  rw [SeekStore.append] at h
  split_ifs at h with hpast hhas hplain hcells
  · cases h
    exact .inl ⟨rfl, rfl, fun hnone => by cases hnone⟩
  · cases h
    exact .inl ⟨rfl, rfl, fun _ => ⟨by omega, hhas⟩⟩
  · cases h
    exact .inl ⟨rfl, rfl, fun hnone => by cases hnone⟩
  · cases h
    exact .inl ⟨rfl, rfl, fun hnone => by cases hnone⟩
  · obtain ⟨hne, hle⟩ := not_or.mp hplain
    refine .inr ⟨by omega, hne, by omega, by omega, ?_⟩
    cases fault with
    | some written =>
      cases h
      exact ⟨rfl, written, rfl, .inl ⟨(by intro hnone; cases hnone), rfl⟩⟩
    | none =>
      cases h
      refine ⟨rfl, cellLen store.chunkSize, ?_, .inr ⟨rfl, le_rfl, rfl⟩⟩
      rw [List.take_of_length_le (le_of_eq (length_sealedCell (by omega)))]

variable {cells : Nat}

/-- The cell that was written whole opens to its chunk. -/
theorem readCell_written {kept : Nat} {file : List UInt8} (pool : Pool) (mxc : List UInt8)
    (base : Vector UInt8 MediaPool.nonceBaseLen)
    (hstorable : Storable chunkSize chunkCount index plain)
    (hlength : file.length ≤ cellOffset chunkSize cells) (hkept : cellLen chunkSize ≤ kept) :
    (blank mxc chunkSize chunkCount base).readCell pool
      (writeCell file (cellOffset chunkSize cells)
        (((blank mxc chunkSize chunkCount base).sealedCell pool cells index plain).take kept))
      cells = .ok (index, plain) := by
  have hcell : ((blank mxc chunkSize chunkCount base).sealedCell pool cells index plain).length =
      cellLen chunkSize := length_sealedCell hstorable.plain_le
  have hne : (blank mxc chunkSize chunkCount base).sealedCell pool cells index plain ≠ [] := by
    rw [← List.length_pos_iff, hcell]
    exact lt_of_le_of_lt (Nat.zero_le _) (cellLen_pos chunkSize)
  rw [List.take_of_length_le (by omega), writeCell, if_neg hne,
    ByteFile.writeAt_of_length_le hlength, SeekStore.readCell, ← List.append_assoc]
  have hoffset : (file ++ List.replicate (cellOffset chunkSize cells - file.length) 0).length =
      cellOffset chunkSize cells := by
    rw [List.length_append, List.length_replicate]
    omega
  have hread : ByteFile.readExact
      (file ++ List.replicate (cellOffset chunkSize cells - file.length) 0 ++
        (blank mxc chunkSize chunkCount base).sealedCell pool cells index plain)
      (cellOffset chunkSize cells) (cellLen chunkSize) =
        some ((blank mxc chunkSize chunkCount base).sealedCell pool cells index plain) := by
    rw [ByteFile.readExact, if_pos (by rw [List.length_append]; omega),
      List.drop_left' hoffset, List.take_of_length_le (le_of_eq hcell)]
  rw [show (blank mxc chunkSize chunkCount base).chunkSize = chunkSize from rfl, hread]
  exact openCell_sealedCell (index_lt_of_storable hstorable) hstorable.plain_ne
    hstorable.plain_le

theorem read_cases (pool : Pool) (store : SeekStore) (file : List UInt8) (index : Nat) :
    (store.read pool file index).2 = store ∨
      ((store.read pool file index).2 = { store with slots := store.slots.set index 0 } ∧
        ∀ slot, store.slots[index]? = some (slot + 1) →
          ∀ plain, store.readCell pool file slot ≠ .ok (index, plain)) := by
  rw [read]
  cases hslot : (store.slots[index]?).filter fun slot => slot ≠ 0 with
  | none => exact .inl rfl
  | some found =>
    obtain ⟨hfound, _⟩ := Option.filter_eq_some_iff.mp hslot
    dsimp only
    cases hread : store.readCell pool file (found - 1) with
    | error e =>
      refine .inr ⟨rfl, fun slot hslot' plain hok => ?_⟩
      rw [hfound] at hslot'
      cases hslot'
      rw [Nat.add_sub_cancel] at hread
      rw [hread] at hok
      cases hok
    | ok opened =>
      obtain ⟨stored, plain⟩ := opened
      dsimp only
      split_ifs with hsame
      · exact .inl rfl
      · refine .inr ⟨rfl, fun slot hslot' plain' hok => ?_⟩
        rw [hfound] at hslot'
        cases hslot'
        rw [Nat.add_sub_cancel] at hread
        rw [hread] at hok
        cases hok
        exact hsame rfl

/-- Reading gives a chunk only from a cell that opens to it. -/
theorem read_eq_some_iff {store : SeekStore} {file : List UInt8} :
    (store.read pool file index).1 = some plain ↔
      ∃ slot, store.slots[index]? = some (slot + 1) ∧
        store.readCell pool file slot = .ok (index, plain) := by
  rw [read]
  cases hslot : (store.slots[index]?).filter fun slot => slot ≠ 0 with
  | none =>
    constructor
    · intro h
      cases h
    · rintro ⟨slot, hsome, _⟩
      rw [hsome] at hslot
      cases hslot
  | some found =>
    obtain ⟨hfound, hne⟩ := Option.filter_eq_some_iff.mp hslot
    obtain ⟨slot, rfl⟩ := Nat.exists_eq_succ_of_ne_zero (of_decide_eq_true hne)
    dsimp only
    rw [Nat.succ_sub_one]
    constructor
    · intro h
      refine ⟨slot, hfound, ?_⟩
      cases hread : store.readCell pool file slot with
      | error e =>
        rw [hread] at h
        cases h
      | ok opened =>
        obtain ⟨stored, plain'⟩ := opened
        rw [hread] at h
        dsimp only at h
        split_ifs at h with hsame
        cases h
        rw [hsame]
    · rintro ⟨slot', hslot', hread⟩
      rw [hfound] at hslot'
      cases hslot'
      rw [hread]
      simp

/-- What the store of a state says about the file. -/
structure StoreSound (pool : Pool) (mxc : List UInt8) (chunkSize chunkCount : UInt32)
    (appended : List (Nat × List UInt8)) (store : SeekStore) (file : List UInt8) : Prop where
  named : Named mxc chunkSize store.nonceBase store
  length : store.slots.length = chunkCount.toNat
  cells : FileSound pool mxc chunkSize chunkCount appended store.nonceBase store.cells file
  table : ∀ index slot, store.slots[index]? = some (slot + 1) →
    indexAt chunkSize file slot = some index

/-- There is a seek file for these chunks at all. -/
def Fits (chunkSize chunkCount : UInt32) : Prop :=
  ¬(chunkSize = 0 ∨ chunkCount = 0 ∨ maxSeekChunks < chunkCount.toNat)

structure StateSound (pool : Pool) (mxc : List UInt8) (chunkSize chunkCount : UInt32)
    (s : State) : Prop where
  fits : ∀ store, s.store = some store → Fits chunkSize chunkCount
  store : ∀ store, s.store = some store →
    StoreSound pool mxc chunkSize chunkCount s.appended store s.disk.bytes
  header : s.store = none → headerFits chunkSize chunkCount s.disk.bytes = true →
    ∃ base, s.disk.bytes = encodeHeader chunkSize chunkCount base

theorem indexAt_append {file : List UInt8} {slot : Nat}
    (h : indexAt chunkSize file slot = some index) (more : List UInt8) :
    indexAt chunkSize (file ++ more) slot = some index := by
  obtain ⟨field, hfield, rfl⟩ := Option.map_eq_some_iff.mp h
  rw [indexAt, ByteFile.readExact_append (ByteFile.readExact_of_drop hfield).2, hfield,
    Option.map_some]

theorem StoreSound.append {appended : List (Nat × List UInt8)} {store store' : SeekStore}
    {index : Nat} {plain : List UInt8} {disk disk' : Disk} {fault : Option Nat}
    {error : Option SdkError}
    (hsound : StoreSound pool mxc chunkSize chunkCount appended store disk.bytes)
    (h : store.append pool index plain disk fault = (error, store', disk')) :
    StoreSound pool mxc chunkSize chunkCount (appended ++ [(index, plain)]) store' disk'.bytes := by
  have hmono : ∀ chunk ∈ appended, chunk ∈ appended ++ [(index, plain)] :=
    fun chunk hchunk => List.mem_append_left _ hchunk
  rcases append_cases h with
    ⟨rfl, rfl, _⟩ | ⟨hindex, hne, hle, hcells, _, kept, hbytes, hstore⟩
  · exact ⟨hsound.named, hsound.length, hsound.cells.mono hmono, hsound.table⟩
  · have hsize : store.chunkSize = chunkSize := hsound.named.chunkSize
    rw [hsize] at hle hbytes
    rw [hsound.length] at hindex
    have hstorable : Storable chunkSize chunkCount index plain := ⟨hindex, hne, hle⟩
    rw [hsound.named.sealedCell pool chunkCount] at hbytes
    have hfile := hsound.cells.append hstorable hcells kept
    obtain ⟨more, hmore⟩ := (writeCell_spec hsound.cells.length_le
      ((blank mxc chunkSize chunkCount store.nonceBase).sealedCell pool store.cells index plain)
      kept).1
    rw [hbytes]
    rcases hstore with ⟨_, rfl⟩ | ⟨_, hkept, rfl⟩
    · refine ⟨⟨rfl, hsize, hsound.named.mxc⟩, hsound.length, hfile, fun index' slot hslot => ?_⟩
      rw [hmore]
      exact indexAt_append (hsound.table index' slot hslot) more
    · refine ⟨⟨rfl, hsize, hsound.named.mxc⟩, ?_, hfile, fun index' slot hslot => ?_⟩
      · rw [List.length_set, hsound.length]
      · by_cases hsame : index = index'
        · subst hsame
          rw [List.getElem?_set_self (by rw [hsound.length]; exact hindex)] at hslot
          cases hslot
          rw [hsize] at hkept
          exact indexAt_of_readCell
            (readCell_written pool mxc store.nonceBase hstorable hsound.cells.length_le hkept)
        · rw [List.getElem?_set_ne hsame] at hslot
          rw [hmore]
          exact indexAt_append (hsound.table index' slot hslot) more

theorem StoreSound.read {appended : List (Nat × List UInt8)} {store : SeekStore} {file : List UInt8}
    (h : StoreSound pool mxc chunkSize chunkCount appended store file) (index : Nat) :
    StoreSound pool mxc chunkSize chunkCount appended (store.read pool file index).2 file := by
  rcases read_cases pool store file index with hsame | ⟨hset, _⟩
  · rw [hsame]
    exact h
  · rw [hset]
    refine ⟨⟨rfl, h.named.chunkSize, h.named.mxc⟩, ?_, h.cells, fun index' slot hslot => ?_⟩
    · rw [List.length_set, h.length]
    · by_cases hindex : index = index'
      · subst hindex
        simp only [List.getElem?_set, if_true] at hslot
        split_ifs at hslot
        cases hslot
      · rw [List.getElem?_set_ne hindex] at hslot
        exact h.table index' slot hslot

/-- Opening a file that is sound again. -/
theorem reopen_spec {appended : List (Nat × List UInt8)}
    {base : Vector UInt8 MediaPool.nonceBaseLen} {file : List UInt8}
    (h : FileSound pool mxc chunkSize chunkCount appended base cells file) :
    ∃ slots, slots.length = chunkCount.toNat ∧
      TableOf chunkSize file (wholeCells chunkSize file) slots ∧
      reopen pool mxc chunkSize chunkCount file = .ok
        (if 0 < wholeCells chunkSize file ∧
            ((blank mxc chunkSize chunkCount base).readCell pool file 0).toOption = none then
          none
        else
          some { blank mxc chunkSize chunkCount base with
            slots := slots
            cells := usedCells chunkSize file }) := by
  obtain ⟨rest, hrest⟩ := h.header
  have hfits : headerFits chunkSize chunkCount file = true := by
    rw [hrest]
    exact headerFits_encodeHeader chunkSize chunkCount base rest
  have hbase : (Vector.ofFn fun i : Fin MediaPool.nonceBaseLen => file.getD (16 + i.val) 0) = base := by
    rw [hrest]
    exact nonceBase_encodeHeader chunkSize chunkCount base rest
  have hwhole : ∀ slot < 0 + wholeCells chunkSize file,
      (indexAt chunkSize file slot).isSome := by
    intro slot hslot
    rw [Nat.zero_add, lt_wholeCells_iff h.headerLen_le h.length_le h.cells_le] at hslot
    have hlong := cellLen_pos chunkSize
    rw [indexAt, ByteFile.readExact, if_pos (by omega)]
    rfl
  have hempty : TableOf chunkSize file 0 (List.replicate chunkCount.toNat 0) := by
    intro index hindex
    rw [List.length_replicate] at hindex
    rw [List.getElem?_replicate, if_pos hindex]
    rfl
  obtain ⟨slots, hrebuild, hlength, htable⟩ := rebuild_spec _ 0 _ hwhole hempty
  rw [List.length_replicate] at hlength
  rw [Nat.zero_add] at htable
  refine ⟨slots, hlength, htable, ?_⟩
  rw [reopen, if_pos hfits, hbase]
  simp only [blank] at hrebuild ⊢
  rw [hrebuild]
  by_cases hzero : 0 < wholeCells chunkSize file ∧
      ((blank mxc chunkSize chunkCount base).readCell pool file 0).toOption = none
  · exact (if_pos hzero).trans (congrArg Except.ok (if_pos hzero).symm)
  · exact (if_neg hzero).trans (congrArg Except.ok (if_neg hzero).symm)

theorem firstCell_eq_some {file : List UInt8} {slot first : Nat}
    (h : firstCell chunkSize file slot index = some first) :
    first < slot ∧ indexAt chunkSize file first = some index := by
  have hmem := List.mem_of_find?_eq_some h
  have hnamed := List.find?_some h
  exact ⟨List.mem_range.mp hmem, of_decide_eq_true hnamed⟩

theorem StoreSound.reopen {appended : List (Nat × List UInt8)}
    {base : Vector UInt8 MediaPool.nonceBaseLen} {cells : Nat} {file : List UInt8}
    {slots : List Nat} (h : FileSound pool mxc chunkSize chunkCount appended base cells file)
    (hlength : slots.length = chunkCount.toNat)
    (htable : TableOf chunkSize file (wholeCells chunkSize file) slots) :
    StoreSound pool mxc chunkSize chunkCount appended
      { blank mxc chunkSize chunkCount base with
        slots := slots
        cells := usedCells chunkSize file } file := by
  refine ⟨⟨rfl, rfl, rfl⟩, hlength, h.reopen, fun index slot hslot => ?_⟩
  have hindex : index < slots.length := (List.getElem?_eq_some_iff.mp hslot).1
  have hentry := htable index hindex
  rw [show slots[index]? = some (slot + 1) from hslot] at hentry
  cases hfirst : firstCell chunkSize file (wholeCells chunkSize file) index with
  | none =>
    rw [hfirst] at hentry
    cases hentry
  | some first =>
    rw [hfirst] at hentry
    cases hentry
    exact (firstCell_eq_some hfirst).2

theorem StoreSound.create (pool : Pool) (mxc : List UInt8) (chunkSize chunkCount : UInt32)
    (appended : List (Nat × List UInt8)) (base : Vector UInt8 MediaPool.nonceBaseLen) :
    StoreSound pool mxc chunkSize chunkCount appended (blank mxc chunkSize chunkCount base)
      (encodeHeader chunkSize chunkCount base) := by
  refine ⟨⟨rfl, rfl, rfl⟩, List.length_replicate, FileSound.create _ _ _ _ _ _, ?_⟩
  intro index slot hslot
  rw [blank, List.getElem?_replicate] at hslot
  split_ifs at hslot
  cases hslot

/-- A file that is made anew, if its header can be written. -/
theorem create_cases {newBase : Vector UInt8 MediaPool.nonceBaseLen}
    {result : Except SdkError SeekStore} (hfits : Fits chunkSize chunkCount)
    (hnone : reopen pool mxc chunkSize chunkCount disk.bytes = .ok none)
    (h : openStore pool mxc chunkSize chunkCount newBase disk fault = (result, disk')) :
    disk'.sealed = disk.sealed ∧
      ((∃ written, result.toOption = none ∧
          disk'.bytes = (encodeHeader chunkSize chunkCount newBase).take written) ∨
        (result = .ok (blank mxc chunkSize chunkCount newBase) ∧
          disk'.bytes = encodeHeader chunkSize chunkCount newBase)) := by
  rw [openStore, if_neg hfits, hnone] at h
  cases fault with
  | some written =>
    cases h
    exact ⟨rfl, .inl ⟨written, rfl, rfl⟩⟩
  | none =>
    cases h
    exact ⟨rfl, .inr ⟨rfl, rfl⟩⟩

/-- What opening can do: refuse, take the file as it is, or make it anew. -/
theorem openStore_cases {appended : List (Nat × List UInt8)}
    {base newBase : Vector UInt8 MediaPool.nonceBaseLen} {result : Except SdkError SeekStore}
    (hfile : headerFits chunkSize chunkCount disk.bytes = true → FileSound pool mxc chunkSize
      chunkCount appended base cells disk.bytes)
    (h : openStore pool mxc chunkSize chunkCount newBase disk fault = (result, disk')) :
    (¬Fits chunkSize chunkCount ∧ result.toOption = none ∧ disk' = disk) ∨
      (Fits chunkSize chunkCount ∧
        FileSound pool mxc chunkSize chunkCount appended base cells disk.bytes ∧ disk' = disk ∧
        reopen pool mxc chunkSize chunkCount disk.bytes ≠ .ok none ∧
        ∃ slots, slots.length = chunkCount.toNat ∧
          TableOf chunkSize disk.bytes (wholeCells chunkSize disk.bytes) slots ∧
          result = .ok { blank mxc chunkSize chunkCount base with
            slots := slots
            cells := usedCells chunkSize disk.bytes }) ∨
      (Fits chunkSize chunkCount ∧
        (headerFits chunkSize chunkCount disk.bytes = true →
          0 < wholeCells chunkSize disk.bytes ∧
          ((blank mxc chunkSize chunkCount base).readCell pool disk.bytes 0).toOption = none) ∧
        disk'.sealed = disk.sealed ∧
        ((∃ written, result.toOption = none ∧
            disk'.bytes = (encodeHeader chunkSize chunkCount newBase).take written) ∨
          (result = .ok (blank mxc chunkSize chunkCount newBase) ∧
            disk'.bytes = encodeHeader chunkSize chunkCount newBase))) := by
  by_cases hfits : Fits chunkSize chunkCount
  case neg =>
    rw [openStore, if_pos (not_not.mp hfits)] at h
    cases h
    exact .inl ⟨hfits, rfl, rfl⟩
  case pos =>
    cases hheader : headerFits chunkSize chunkCount disk.bytes with
    | false =>
      have hnone : reopen pool mxc chunkSize chunkCount disk.bytes = .ok none := by
        rw [reopen, hheader]
        rfl
      exact .inr (.inr ⟨hfits, (by intro hyes; cases hyes), create_cases hfits hnone h⟩)
    | true =>
      have hsound := hfile hheader
      obtain ⟨slots, hlength, htable, hreopen⟩ := reopen_spec hsound
      split_ifs at hreopen with hfirst
      · exact .inr (.inr ⟨hfits, fun _ => hfirst, create_cases hfits hreopen h⟩)
      · rw [openStore, if_neg hfits, hreopen] at h
        cases h
        refine .inr (.inl ⟨hfits, hsound, rfl, ?_, slots, hlength, htable, rfl⟩)
        rw [hreopen]
        intro hnone
        cases hnone

/-- What is known of the file of a sound state: the numbers of its cells that are
used are those of the store. -/
theorem StateSound.file {s : State} (h : StateSound pool mxc chunkSize chunkCount s) :
    ∃ base cells,
      (headerFits chunkSize chunkCount s.disk.bytes = true →
        FileSound pool mxc chunkSize chunkCount s.appended base cells s.disk.bytes) ∧
      (∀ store, s.store = some store → store.nonceBase = base ∧ store.cells = cells) ∧
      (s.store = none → headerFits chunkSize chunkCount s.disk.bytes = true →
        s.disk.bytes = encodeHeader chunkSize chunkCount base ∧ cells = 0) := by
  cases hstore : s.store with
  | some store =>
    refine ⟨store.nonceBase, store.cells, fun _ => (h.store store hstore).cells, ?_, ?_⟩
    · intro other hother
      cases hother
      exact ⟨rfl, rfl⟩
    · intro hnone
      cases hnone
  | none =>
    cases hheader : headerFits chunkSize chunkCount s.disk.bytes with
    | false =>
      exact ⟨Vector.replicate _ 0, 0, (by intro hyes; cases hyes), (by intro _ hsome; cases hsome),
        (by intro _ hyes; cases hyes)⟩
    | true =>
      obtain ⟨base, hbase⟩ := h.header hstore hheader
      refine ⟨base, 0, fun _ => ?_, (by intro _ hsome; cases hsome), fun _ _ => ⟨hbase, rfl⟩⟩
      rw [hbase]
      exact FileSound.create _ _ _ _ _ _

theorem StateSound.step {s : State} (h : StateSound pool mxc chunkSize chunkCount s)
    (action : Action) :
    StateSound pool mxc chunkSize chunkCount (step pool mxc chunkSize chunkCount s action) := by
  cases action with
  | opening nonceBase fault =>
    obtain ⟨base, cells, hfile, _, hblank⟩ := h.file
    generalize hopen : openStore pool mxc chunkSize chunkCount nonceBase s.disk fault = opened
    obtain ⟨result, disk'⟩ := opened
    have hstep : SeekStore.step pool mxc chunkSize chunkCount s (.opening nonceBase fault) =
        { s with disk := disk', store := result.toOption } := by
      rw [SeekStore.step, hopen]
    rw [hstep]
    rcases openStore_cases hfile hopen with ⟨hfits, hnone, rfl⟩ |
        ⟨hfits, hsound, rfl, _, slots, hlength, htable, rfl⟩ |
        ⟨hfits, _, _, ⟨written, hnone, hbytes⟩ | ⟨rfl, hbytes⟩⟩
    · have hclosed : s.store = none := by
        cases hstore : s.store with
        | none => rfl
        | some store => exact absurd (h.fits store hstore) hfits
      refine ⟨fun store hstore => ?_, fun store hstore => ?_, fun _ => h.header hclosed⟩
      all_goals
        dsimp only at hstore
        rw [hnone] at hstore
        cases hstore
    · refine ⟨fun _ _ => hfits, fun store hstore => ?_, fun hclosed => (by cases hclosed)⟩
      cases hstore
      exact StoreSound.reopen hsound hlength htable
    · refine ⟨fun _ _ => hfits, fun store hstore => ?_, fun _ hheader => ?_⟩
      · dsimp only at hstore
        rw [hnone] at hstore
        cases hstore
      · dsimp only at hheader ⊢
        rw [hbytes] at hheader ⊢
        by_cases hshort : written < headerLen
        · rw [headerFits_of_length_lt (by rw [List.length_take]; omega)] at hheader
          cases hheader
        · refine ⟨nonceBase, List.take_of_length_le ?_⟩
          rw [length_encodeHeader]
          omega
    · refine ⟨fun _ _ => hfits, fun store hstore => ?_, fun hclosed => (by cases hclosed)⟩
      cases hstore
      dsimp only
      rw [hbytes]
      exact StoreSound.create _ _ _ _ _ _
  | append index plain fault =>
    cases hstore : s.store with
    | none =>
      rw [SeekStore.step, hstore]
      exact h
    | some store =>
      generalize happend : store.append pool index plain s.disk fault = outcome
      obtain ⟨error, store', disk'⟩ := outcome
      have hsound := (h.store store hstore).append happend
      rw [SeekStore.step, hstore]
      simp only [happend]
      refine ⟨fun _ _ => h.fits store hstore, fun other hother => ?_, fun hclosed => ?_⟩
      · cases hother
        exact hsound
      · cases hclosed
  | read index =>
    rw [SeekStore.step]
    refine ⟨fun store hstore => ?_, fun store hstore => ?_, fun hclosed => ?_⟩
    · obtain ⟨before, hbefore, _⟩ := Option.map_eq_some_iff.mp hstore
      exact h.fits before hbefore
    · obtain ⟨before, hbefore, rfl⟩ := Option.map_eq_some_iff.mp hstore
      exact (h.store before hbefore).read index
    · exact h.header (Option.map_eq_none_iff.mp hclosed)

theorem stateSound_run (pool : Pool) (mxc : List UInt8) (chunkSize chunkCount : UInt32)
    (actions : List Action) :
    StateSound pool mxc chunkSize chunkCount
      (Runs.run (step pool mxc chunkSize chunkCount) State.start actions) := by
  refine Runs.run_invariant (StateSound pool mxc chunkSize chunkCount)
    (fun s action h => h.step action) actions State.start ⟨?_, ?_, ?_⟩
  · intro store hstore
    cases hstore
  · intro store hstore
    cases hstore
  · intro _ hheader
    rw [headerFits_of_length_lt (by decide)] at hheader
    cases hheader

end Steps

end SeekStore
end WbfMatrixClient
