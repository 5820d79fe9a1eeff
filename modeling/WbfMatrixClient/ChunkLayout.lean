import WbfMatrixClient.ChunkCrypto
import Mathlib.Algebra.BigOperators.Group.List.Basic

/-!
# The layout of a file in machine words

The arithmetic of chunks again, with the numbers the program has: sizes and positions of 64
bits, the size, the count and the index of chunks of 32 bits. Every addition, subtraction and
multiplication is checked, so that an overflow is an outcome of its own. It never comes, and what
is computed is what the natural numbers give.

From this follows how the chunks lie: they cut the file into pieces that are as long as a chunk
but for the last, and a position is in the chunk that it is said to be in. Whether a position is
inside the file is not asked there.
-/

namespace WbfMatrixClient
namespace ChunkLayout

/-- An operation whose result does not fit the word. -/
inductive Overflow where
  | overflow
deriving DecidableEq

def add (a b : UInt64) : Except Overflow UInt64 :=
  if a.toNat + b.toNat < 2 ^ 64 then .ok (a + b) else .error .overflow

def sub (a b : UInt64) : Except Overflow UInt64 :=
  if b.toNat ≤ a.toNat then .ok (a - b) else .error .overflow

def mul (a b : UInt64) : Except Overflow UInt64 :=
  if a.toNat * b.toNat < 2 ^ 64 then .ok (a * b) else .error .overflow

/-- Division that rounds up. -/
def divCeil (n d : UInt64) : Except Overflow UInt64 :=
  if 0 < n % d then add (n / d) 1 else .ok (n / d)

/-- The last index that a chunk may have. -/
def maxChunkIndex : UInt32 := 0xFFFFFFFD

/-- The number of chunks; there is none when there would be too many of them. -/
def chunkCount (fileSize : UInt64) (chunkSize : UInt32) : Except Overflow (Option UInt32) :=
  if chunkSize = 0 then
    .ok none
  else do
    let count ← divCeil fileSize chunkSize.toUInt64
    let most ← add maxChunkIndex.toUInt64 1
    if most < count then
      return none
    else
      return some count.toUInt32

/-- The length of a chunk of the file. -/
def expectedPlainLen (fileSize : UInt64) (chunkSize index : UInt32) :
    Except Overflow (Option UInt64) := do
  match ← chunkCount fileSize chunkSize with
  | none => return none
  | some count =>
      if count ≤ index then
        return none
      else
        let start ← mul index.toUInt64 chunkSize.toUInt64
        let remaining ← sub fileSize start
        return some (min remaining chunkSize.toUInt64)

structure SeekTarget where
  index : UInt32
  offset : UInt64

def locate (pos : UInt64) (chunkSize : UInt32) : Option SeekTarget :=
  if chunkSize = 0 then
    none
  else
    let index := pos / chunkSize.toUInt64
    if maxChunkIndex.toUInt64 < index then
      none
    else
      some { index := index.toUInt32, offset := pos % chunkSize.toUInt64 }

/-- How long a chunk is when it is sealed. -/
def sealedLen (file : FileCipher) (plainLen : UInt64) : Except Overflow UInt64 :=
  match file.mode with
  | .plain => .ok plainLen
  | .encrypted _ _ _ _ => add plainLen (UInt64.ofNat tagLen)

section Words

theorem toNat_min (a b : UInt64) : (min a b).toNat = min a.toNat b.toNat := by
  show (if a ≤ b then a else b).toNat = _
  split_ifs with h
  · rw [min_eq_left (UInt64.le_iff_toNat_le.mp h)]
  · rw [min_eq_right (Nat.le_of_not_le (mt UInt64.le_iff_toNat_le.mpr h))]

/-- No operation of a division that rounds up overflows. -/
theorem divCeil_eq (n d : UInt64) :
    ∃ count, divCeil n d = .ok count ∧
      count.toNat = WbfMatrixClient.divCeil n.toNat d.toNat := by
  unfold divCeil WbfMatrixClient.divCeil
  have hn := n.toNat_lt
  have hpos : 0 < n % d ↔ ¬n.toNat % d.toNat = 0 := by
    rw [UInt64.lt_iff_toNat_lt, UInt64.toNat_mod]
    exact Nat.pos_iff_ne_zero
  by_cases hzero : n.toNat % d.toNat = 0
  · rw [if_neg (by rw [hpos]; exact not_not.mpr hzero), if_pos hzero]
    exact ⟨n / d, rfl, UInt64.toNat_div n d⟩
  · -- A quotient by one leaves no rest, so this one is at most half of the number.
    have hfits : n.toNat / d.toNat + 1 < 2 ^ 64 := by
      have hdiv := Nat.div_add_mod n.toNat d.toNat
      rcases Nat.lt_or_ge d.toNat 2 with hsmall | hlarge
      · have hle := Nat.div_le_self n.toNat d.toNat
        rcases Nat.le_one_iff_eq_zero_or_eq_one.mp (Nat.le_of_lt_succ hsmall) with hd | hd
        · rw [hd, Nat.div_zero]
          decide
        · rw [hd, Nat.mod_one] at hzero
          exact absurd rfl hzero
      · have hhalf : n.toNat / d.toNat ≤ n.toNat / 2 := Nat.div_le_div_left hlarge (by decide)
        omega
    rw [if_pos (hpos.mpr hzero), if_neg hzero, add, UInt64.toNat_div, UInt64.toNat_one,
      if_pos hfits]
    refine ⟨_, rfl, ?_⟩
    rw [UInt64.toNat_add, UInt64.toNat_div, UInt64.toNat_one, Nat.mod_eq_of_lt hfits]

/-- The count of the words is the count of the numbers. -/
theorem chunkCount_eq (fileSize : UInt64) (chunkSize : UInt32) :
    ∃ count, chunkCount fileSize chunkSize = .ok count ∧
      count.map UInt32.toNat = WbfMatrixClient.chunkCount fileSize.toNat chunkSize.toNat := by
  unfold chunkCount WbfMatrixClient.chunkCount
  have hzero : chunkSize = 0 ↔ chunkSize.toNat = 0 := by rw [← UInt32.toNat_inj, UInt32.toNat_zero]
  by_cases hsize : chunkSize = 0
  · rw [if_pos hsize, if_pos (hzero.mp hsize)]
    exact ⟨none, rfl, rfl⟩
  rw [if_neg hsize, if_neg (mt hzero.mpr hsize)]
  obtain ⟨count, hcount, hnat⟩ := divCeil_eq fileSize chunkSize.toUInt64
  rw [UInt32.toNat_toUInt64] at hnat
  have hmost : add maxChunkIndex.toUInt64 1 = .ok 0xFFFFFFFE := by decide
  rw [hcount, hmost]
  simp only [bind, Except.bind, pure, Except.pure]
  have hlt : (0xFFFFFFFE : UInt64) < count ↔
      WbfMatrixClient.maxChunkIndex + 1 <
        WbfMatrixClient.divCeil fileSize.toNat chunkSize.toNat := by
    rw [UInt64.lt_iff_toNat_lt, hnat]
    rfl
  by_cases hmany : (0xFFFFFFFE : UInt64) < count
  · rw [if_pos hmany, if_pos (hlt.mp hmany)]
    exact ⟨none, rfl, rfl⟩
  · rw [if_neg hmany, if_neg (mt hlt.mpr hmany)]
    refine ⟨_, rfl, ?_⟩
    have hle := Nat.le_of_not_lt (mt hlt.mpr hmany)
    have hmax : WbfMatrixClient.maxChunkIndex + 1 < 2 ^ 32 := by decide
    rw [Option.map_some, UInt64.toNat_toUInt32, hnat, Nat.mod_eq_of_lt (by omega)]

/-- So is the length of a chunk: an index below the count begins inside the file. -/
theorem expectedPlainLen_eq (fileSize : UInt64) (chunkSize index : UInt32) :
    ∃ len, expectedPlainLen fileSize chunkSize index = .ok len ∧
      len.map UInt64.toNat =
        WbfMatrixClient.expectedPlainLen fileSize.toNat chunkSize.toNat index.toNat := by
  unfold expectedPlainLen WbfMatrixClient.expectedPlainLen
  obtain ⟨found, hfound, hnat⟩ := chunkCount_eq fileSize chunkSize
  rw [hfound, ← hnat]
  simp only [bind, Except.bind, pure, Except.pure]
  cases found with
  | none => exact ⟨none, rfl, rfl⟩
  | some count =>
    simp only [Option.map_some]
    by_cases hpast : count ≤ index
    · rw [if_pos hpast, if_pos (UInt32.le_iff_toNat_le.mp hpast)]
      exact ⟨none, rfl, rfl⟩
    rw [if_neg hpast, if_neg (mt UInt32.le_iff_toNat_le.mpr hpast)]
    have hstart : index.toNat * chunkSize.toNat < fileSize.toNat := by
      refine (lt_chunkCount_iff hnat.symm).mp (Nat.lt_of_not_le ?_)
      exact mt UInt32.le_iff_toNat_le.mpr hpast
    have hsize := fileSize.toNat_lt
    have hmul : mul index.toUInt64 chunkSize.toUInt64 =
        .ok (index.toUInt64 * chunkSize.toUInt64) := by
      rw [mul, UInt32.toNat_toUInt64, UInt32.toNat_toUInt64, if_pos (by omega)]
    have hproduct : (index.toUInt64 * chunkSize.toUInt64).toNat =
        index.toNat * chunkSize.toNat := by
      rw [UInt64.toNat_mul, UInt32.toNat_toUInt64, UInt32.toNat_toUInt64,
        Nat.mod_eq_of_lt (by omega)]
    have hsub : sub fileSize (index.toUInt64 * chunkSize.toUInt64) =
        .ok (fileSize - index.toUInt64 * chunkSize.toUInt64) := by
      rw [sub, hproduct, if_pos (by omega)]
    rw [hmul]
    simp only
    rw [hsub]
    refine ⟨_, rfl, ?_⟩
    have hle : index.toUInt64 * chunkSize.toUInt64 ≤ fileSize := by
      rw [UInt64.le_iff_toNat_le, hproduct]
      omega
    rw [Option.map_some, toNat_min, UInt32.toNat_toUInt64, UInt64.toNat_sub_of_le _ _ hle,
      hproduct]

/-- A position is found where the numbers say; there is nothing in it that could overflow. -/
theorem locate_eq (pos : UInt64) (chunkSize : UInt32) :
    (locate pos chunkSize).map (fun target => (target.index.toNat, target.offset.toNat)) =
      (WbfMatrixClient.locate pos.toNat chunkSize.toNat).map fun target =>
        (target.index, target.offset) := by
  unfold locate WbfMatrixClient.locate
  have hzero : chunkSize = 0 ↔ chunkSize.toNat = 0 := by rw [← UInt32.toNat_inj, UInt32.toNat_zero]
  by_cases hsize : chunkSize = 0
  · rw [if_pos hsize, if_pos (hzero.mp hsize)]
    rfl
  rw [if_neg hsize, if_neg (mt hzero.mpr hsize)]
  have hindex : (pos / chunkSize.toUInt64).toNat = pos.toNat / chunkSize.toNat := by
    rw [UInt64.toNat_div, UInt32.toNat_toUInt64]
  have hlt : maxChunkIndex.toUInt64 < pos / chunkSize.toUInt64 ↔
      WbfMatrixClient.maxChunkIndex < pos.toNat / chunkSize.toNat := by
    rw [UInt64.lt_iff_toNat_lt, hindex]
    rfl
  simp only
  by_cases hfar : maxChunkIndex.toUInt64 < pos / chunkSize.toUInt64
  · rw [if_pos hfar, if_pos (hlt.mp hfar)]
    rfl
  · rw [if_neg hfar, if_neg (mt hlt.mpr hfar)]
    have hmax : WbfMatrixClient.maxChunkIndex < 2 ^ 32 := by decide
    rw [Option.map_some, Option.map_some, UInt64.toNat_toUInt32, hindex, UInt64.toNat_mod,
      UInt32.toNat_toUInt64, Nat.mod_eq_of_lt (Nat.lt_of_le_of_lt
        (Nat.le_of_not_lt (mt hlt.mpr hfar)) hmax)]

end Words

/-- The chunks of a file: what lies before a chunk and the chunk itself end where the next one
begins, and the last one ends with the file. -/
structure Partition (fileSize : UInt64) (chunkSize count : UInt32) (len : Nat → Nat) : Prop where
  length : ∀ index : UInt32, ∃ found, expectedPlainLen fileSize chunkSize index = .ok found ∧
    found.map UInt64.toNat = if index < count then some (len index.toNat) else none
  positive : ∀ index < count.toNat, 0 < len index
  full : ∀ index, index + 1 < count.toNat → len index = chunkSize.toNat
  ends : ∀ index < count.toNat, index * chunkSize.toNat + len index =
    min ((index + 1) * chunkSize.toNat) fileSize.toNat
  total : ((List.range count.toNat).map len).sum = fileSize.toNat
  empty : count = 0 ↔ fileSize = 0

section Layout

/-- The lengths of the first chunks add up to where they end. -/
theorem sum_lengths {size chunk : Nat} {len : Nat → Nat} (count : Nat)
    (hends : ∀ index < count, index * chunk + len index = min ((index + 1) * chunk) size) :
    ((List.range count).map len).sum = min (count * chunk) size := by
  induction count with
  | zero => simp
  | succ count ih =>
    have hlast := hends count (Nat.lt_succ_self count)
    rw [List.range_succ, List.map_append, List.sum_append,
      ih fun index hindex => hends index (Nat.lt_succ_of_lt hindex)]
    simp only [List.map_cons, List.map_nil, List.sum_cons, List.sum_nil, Nat.add_zero]
    rw [Nat.add_mul, Nat.one_mul] at hlast ⊢
    omega

variable {chunkSize : UInt32}

theorem partition_of_chunkCount {fileSize : UInt64} {count : UInt32}
    (hcount : WbfMatrixClient.chunkCount fileSize.toNat chunkSize.toNat = some count.toNat) :
    Partition fileSize chunkSize count fun index =>
      min (fileSize.toNat - index * chunkSize.toNat) chunkSize.toNat := by
  have hpos := (chunkCount_eq_some_iff.mp hcount).1
  have hends : ∀ index < count.toNat, index * chunkSize.toNat +
      min (fileSize.toNat - index * chunkSize.toNat) chunkSize.toNat =
        min ((index + 1) * chunkSize.toNat) fileSize.toNat := by
    intro index hindex
    have hstart := (lt_chunkCount_iff hcount).mp hindex
    rw [Nat.add_mul, Nat.one_mul]
    omega
  constructor
  case length =>
    intro index
    obtain ⟨found, hfound, hnat⟩ := expectedPlainLen_eq fileSize chunkSize index
    refine ⟨found, hfound, ?_⟩
    rw [hnat, WbfMatrixClient.expectedPlainLen, hcount]
    simp only [UInt32.lt_iff_toNat_lt]
    split_ifs with hpast hbelow hbelow
    · omega
    · rfl
    · rfl
    · omega
  case positive =>
    intro index hindex
    have hstart := (lt_chunkCount_iff hcount).mp hindex
    omega
  case full =>
    intro index hindex
    have hnext := (lt_chunkCount_iff hcount).mp hindex
    rw [Nat.add_mul, Nat.one_mul] at hnext
    omega
  case ends => exact hends
  case total =>
    rw [sum_lengths count.toNat hends]
    exact min_eq_right (chunkCount_le hcount)
  case empty =>
    have hzero := @lt_chunkCount_iff fileSize.toNat chunkSize.toNat count.toNat hcount 0
    rw [Nat.zero_mul] at hzero
    rw [← UInt32.toNat_inj, ← UInt64.toNat_inj, UInt32.toNat_zero, UInt64.toNat_zero]
    omega

variable {pos : UInt64}

/-- A position that is found is in the chunk that is named, at the offset that is named. -/
theorem locate_eq_some {target : SeekTarget} (h : locate pos chunkSize = some target) :
    target.index.toNat * chunkSize.toNat + target.offset.toNat = pos.toNat ∧
      target.offset.toNat < chunkSize.toNat ∧ target.index ≤ maxChunkIndex := by
  have heq := locate_eq pos chunkSize
  rw [h, WbfMatrixClient.locate] at heq
  split_ifs at heq with hzero hfar
  · cases heq
  · cases heq
  · obtain ⟨hindex, hoffset⟩ := Prod.ext_iff.mp (Option.some.inj heq)
    dsimp only at hindex hoffset
    rw [hindex, hoffset, UInt32.le_iff_toNat_le, hindex]
    refine ⟨?_, Nat.mod_lt _ (Nat.pos_of_ne_zero hzero), Nat.le_of_not_lt hfar⟩
    rw [Nat.mul_comm]
    exact Nat.div_add_mod _ _

/-- A position is refused when its chunk would have an index that no chunk may have. -/
theorem locate_eq_none_iff :
    locate pos chunkSize = none ↔
      chunkSize = 0 ∨ (maxChunkIndex.toNat + 1) * chunkSize.toNat ≤ pos.toNat := by
  have heq := locate_eq pos chunkSize
  rw [← Option.map_eq_none_iff, heq, Option.map_eq_none_iff, WbfMatrixClient.locate,
    ← UInt32.toNat_inj, UInt32.toNat_zero]
  split_ifs with hzero hfar
  · simp [hzero]
  · simp only [hzero, false_or, true_iff]
    exact (Nat.le_div_iff_mul_le (Nat.pos_of_ne_zero hzero)).mp hfar
  · simp only [hzero, false_or, false_iff, not_le]
    refine (Nat.div_lt_iff_lt_mul (Nat.pos_of_ne_zero hzero)).mp ?_
    exact Nat.lt_succ_of_le (Nat.le_of_not_lt hfar)

/-- A position inside the file is in one of its chunks. -/
theorem locate_inside {fileSize : UInt64} {count : UInt32}
    (hcount : WbfMatrixClient.chunkCount fileSize.toNat chunkSize.toNat = some count.toNat)
    (hpos : pos < fileSize) :
    ∃ target, locate pos chunkSize = some target ∧ target.index < count ∧
      target.offset.toNat <
        min (fileSize.toNat - target.index.toNat * chunkSize.toNat) chunkSize.toNat := by
  obtain ⟨hchunk, hmost, -⟩ := chunkCount_eq_some_iff.mp hcount
  rw [UInt64.lt_iff_toNat_lt] at hpos
  have hsize := chunkCount_le hcount
  cases hfound : locate pos chunkSize with
  | none =>
    rcases locate_eq_none_iff.mp hfound with hzero | hfar
    · rw [hzero] at hchunk
      cases hchunk
    · have hmul := Nat.mul_le_mul_right chunkSize.toNat hmost
      have hmax : maxChunkIndex.toNat = WbfMatrixClient.maxChunkIndex := rfl
      rw [hmax] at hfar
      omega
  | some target =>
    obtain ⟨hplace, hoffset, -⟩ := locate_eq_some hfound
    refine ⟨target, rfl, ?_, by omega⟩
    rw [UInt32.lt_iff_toNat_lt, lt_chunkCount_iff hcount]
    omega

theorem chunkCount_eq_none_iff {fileSize chunkSize : Nat} :
    WbfMatrixClient.chunkCount fileSize chunkSize = none ↔
      chunkSize = 0 ∨ (WbfMatrixClient.maxChunkIndex + 1) * chunkSize < fileSize := by
  unfold WbfMatrixClient.chunkCount
  split_ifs with hzero hmany
  · simp [hzero]
  · simp only [hzero, false_or, true_iff]
    exact Nat.lt_of_not_le (mt (divCeil_le_iff (Nat.pos_of_ne_zero hzero)).mpr (not_le.mpr hmany))
  · simp only [hzero, false_or, false_iff, not_lt]
    exact (divCeil_le_iff (Nat.pos_of_ne_zero hzero)).mp (Nat.le_of_not_lt hmany)

end Layout

section Lengths

/-- The sealed length of a chunk fits the word. -/
theorem sealedLen_eq (file : FileCipher) {chunkSize : UInt32} {plainLen : UInt64}
    (h : plainLen ≤ chunkSize.toUInt64) :
    ∃ len, sealedLen file plainLen = .ok len ∧ len.toNat = file.sealedLen plainLen.toNat := by
  have hsmall : plainLen.toNat + tagLen < 2 ^ 64 := by
    rw [UInt64.le_iff_toNat_le, UInt32.toNat_toUInt64] at h
    have hword := chunkSize.toNat_lt
    have htag : tagLen = 16 := rfl
    omega
  unfold sealedLen FileCipher.sealedLen
  cases file.mode with
  | plain => exact ⟨plainLen, rfl, rfl⟩
  | encrypted cipher key nonceBase encrypting =>
    have htag : (UInt64.ofNat tagLen).toNat = tagLen := rfl
    simp only [add, htag, if_pos hsmall]
    refine ⟨_, rfl, ?_⟩
    rw [UInt64.toNat_add, htag, Nat.mod_eq_of_lt hsmall]

/-- A length of a sealed chunk comes from one length of the chunk. -/
theorem sealedLen_inj {file : FileCipher} {len len' : Nat} :
    file.sealedLen len = file.sealedLen len' ↔ len = len' := by
  unfold FileCipher.sealedLen
  cases file.mode with
  | plain => exact Iff.rfl
  | encrypted cipher key nonceBase encrypting => exact Nat.add_right_cancel_iff

/-- What opens has the sealed length of what comes out. -/
theorem length_of_openChunk {packages : Packages} {file : FileCipher} {index expected : Nat}
    {sealed plain : List UInt8} (h : file.openChunk packages index sealed expected = .ok plain) :
    plain.length = expected ∧ sealed.length = file.sealedLen plain.length := by
  unfold FileCipher.openChunk at h
  split_ifs at h with hindex hlength
  cases hopen : file.openWithIndex packages index chunkAad sealed with
  | none =>
    rw [hopen] at h
    cases h
  | some found =>
    rw [hopen] at h
    simp only at h
    split_ifs at h with hfound
    cases h
    have hfound := not_not.mp hfound
    exact ⟨hfound, by rw [hfound]; exact not_not.mp hlength⟩

end Lengths

/-- For every size of a file and of a chunk: nothing overflows; the count is refused only when
there would be too many chunks; the chunks cut up the file, and a position inside it is in one of
them; a position is refused only when no file of such chunks reaches so far; and the length of a
sealed chunk and that of the chunk give each other. -/
theorem chunk_layout (fileSize : UInt64) (chunkSize : UInt32) :
    (∃ found, chunkCount fileSize chunkSize = .ok found ∧
      (found = none ↔ chunkSize = 0 ∨
        (maxChunkIndex.toNat + 1) * chunkSize.toNat < fileSize.toNat) ∧
      ∀ count, found = some count → ∃ len, Partition fileSize chunkSize count len ∧
        ∀ pos < fileSize, ∃ target, locate pos chunkSize = some target ∧
          target.index < count ∧ target.offset.toNat < len target.index.toNat) ∧
    (∀ index, ∃ len, expectedPlainLen fileSize chunkSize index = .ok len) ∧
    (∀ pos target, locate pos chunkSize = some target →
      target.index.toNat * chunkSize.toNat + target.offset.toNat = pos.toNat ∧
        target.offset.toNat < chunkSize.toNat ∧ target.index ≤ maxChunkIndex) ∧
    (∀ pos, locate pos chunkSize = none ↔
      chunkSize = 0 ∨ (maxChunkIndex.toNat + 1) * chunkSize.toNat ≤ pos.toNat) ∧
    (∀ (file : FileCipher), ∀ plainLen ≤ chunkSize.toUInt64,
      ∃ len, sealedLen file plainLen = .ok len ∧ len.toNat = file.sealedLen plainLen.toNat) ∧
    ∀ (packages : Packages) (file : FileCipher) (index : Nat) (plain sealed : List UInt8),
      file.sealChunk packages index plain = .ok sealed ∨
          file.openChunk packages index sealed plain.length = .ok plain →
        ∀ len, file.sealedLen len = sealed.length ↔ len = plain.length := by
  refine ⟨?_, fun index => ?_, fun pos target => locate_eq_some, fun pos => locate_eq_none_iff,
    fun file plainLen => sealedLen_eq file, fun packages file index plain sealed h len => ?_⟩
  · obtain ⟨found, hfound, hnat⟩ := chunkCount_eq fileSize chunkSize
    refine ⟨found, hfound, ?_, ?_⟩
    · rw [← Option.map_eq_none_iff, hnat, chunkCount_eq_none_iff, ← UInt32.toNat_inj,
        UInt32.toNat_zero]
      rfl
    · rintro count rfl
      exact ⟨_, partition_of_chunkCount hnat.symm, fun pos => locate_inside hnat.symm⟩
  · obtain ⟨len, hlen, -⟩ := expectedPlainLen_eq fileSize chunkSize index
    exact ⟨len, hlen⟩
  · have hlength : sealed.length = file.sealedLen plain.length := by
      rcases h with hseal | hopen
      · obtain ⟨-, -, rfl⟩ := FileCipher.sealChunk_eq_ok_iff.mp hseal
        exact FileCipher.length_sealWithIndex packages file index chunkAad plain
      · exact (length_of_openChunk hopen).2
    rw [hlength, sealedLen_inj]

/-- A file of three bytes has two chunks of two bytes, and a position behind them is found. -/
theorem locates_past_end :
    ¬∀ (fileSize : UInt64) (chunkSize count : UInt32),
      chunkCount fileSize chunkSize = .ok (some count) →
        ∀ pos, locate pos chunkSize = none ↔ fileSize ≤ pos := by
  intro h
  exact absurd ((h 3 2 2 (by decide) 5).mpr (by decide)) (by decide)

end ChunkLayout
end WbfMatrixClient
