import Mathlib.Data.List.Perm.Subperm
import WbfMatrixClient.MediaGarbage

/-!
# What goes as garbage

Along a pass every row is as it was or was taken back to not being local, and a file that was
removed has no row left that names it.
-/

namespace WbfMatrixClient
namespace MediaGarbage

open Jobs

section Tables

variable {table : MediaTable}

theorem mem_mediaReset {mxc : String} {row : MediaEntry} :
    row ∈ (table.mediaReset mxc).rows ↔
      (row ∈ table.rows ∧ row.mxc ≠ mxc) ∨
        ∃ before ∈ table.rows, before.mxc = mxc ∧ before.reset = row := by
  unfold MediaTable.mediaReset
  rw [List.mem_map]
  constructor
  · rintro ⟨before, hbefore, rfl⟩
    by_cases hsame : before.mxc = mxc
    · rw [if_pos hsame]
      exact .inr ⟨before, hbefore, hsame, rfl⟩
    · rw [if_neg hsame]
      exact .inl ⟨hbefore, hsame⟩
  · rintro (⟨hrow, hother⟩ | ⟨before, hbefore, hsame, rfl⟩)
    · exact ⟨row, hrow, if_neg hother⟩
    · exact ⟨before, hbefore, if_pos hsame⟩

theorem eq_of_mxc {first second : MediaEntry} (hfirst : first ∈ table.rows)
    (hsecond : second ∈ table.rows) (hsame : first.mxc = second.mxc) :
    first = second := List.inj_on_of_nodup_map table.mxcs hfirst hsecond hsame

/-- A row that is the only one to name a file is every row that names it. -/
theorem eq_of_references {name : Name} {entry row : MediaEntry}
    (hone : table.mediaReferences name ≤ 1) (hentry : entry ∈ table.rows)
    (hnames : entry.poolFile = some name) (hrow : row ∈ table.rows)
    (halso : row.poolFile = some name) : row = entry := by
  by_contra hne
  have hsub : [row, entry] ⊆ table.rows.filter fun row => row.poolFile = some name := by
    intro found hfound
    rw [List.mem_cons, List.mem_singleton] at hfound
    rcases hfound with rfl | rfl
    · exact List.mem_filter.mpr ⟨hrow, decide_eq_true halso⟩
    · exact List.mem_filter.mpr ⟨hentry, decide_eq_true hnames⟩
  have hpair : [row, entry].Nodup := by simpa using hne
  have hle := (List.subperm_of_subset hpair hsub).length_le
  rw [MediaTable.mediaReferences, List.countP_eq_length_filter] at hone
  simp only [List.length_cons, List.length_nil] at hle
  omega

theorem foldl_max_eq {size : Nat} :
    ∀ (bytes : List Nat) (most : Nat), (∀ other ∈ bytes, other = size) → most ≤ size →
      (most = size ∨ bytes ≠ []) → bytes.foldl max most = size := by
  intro bytes
  induction bytes with
  | nil =>
    intro most _ _ hreached
    exact hreached.resolve_right fun h => h rfl
  | cons first bytes ih =>
    intro most hall hle _
    have hfirst : first = size := hall first List.mem_cons_self
    rw [List.foldl_cons, hfirst, Nat.max_eq_right hle]
    exact ih size (fun other h => hall other (List.mem_cons_of_mem _ h)) (Nat.le_refl _) (.inl rfl)

theorem mem_listMediaByLastUsed {entry : MediaEntry} :
    entry ∈ table.listMediaByLastUsed ↔ entry ∈ table.rows ∧ entry.complete = true := by
  rw [MediaTable.listMediaByLastUsed, (List.mergeSort_perm _ _).mem_iff, List.mem_filter]

theorem nodup_listMediaByLastUsed : (table.listMediaByLastUsed.map MediaEntry.mxc).Nodup := by
  refine ((List.mergeSort_perm _ _).map _).nodup_iff.mpr ?_
  exact table.mxcs.sublist (List.filter_sublist.map _)

/-- The bytes that the complete rows account for are those of the files they name, each once,
where a row says how large its file is. -/
theorem mediaBytesOnDisk_eq {pool : Pool}
    (hsized : ∀ row ∈ table.rows, row.complete = true → ∃ name file, row.poolFile = some name ∧
      pool.find name = some file ∧ row.bytesOnDisk = file.size) :
    table.mediaBytesOnDisk =
      (table.completeFiles.map fun file => (file.bind pool.find).elim 0 PoolFile.size).sum := by
  rw [MediaTable.mediaBytesOnDisk]
  congr 1
  refine List.map_congr_left fun file hfile => ?_
  rw [MediaTable.completeFiles, List.mem_dedup, List.mem_map] at hfile
  obtain ⟨row, hrow, rfl⟩ := hfile
  obtain ⟨hmem, hcomplete⟩ := List.mem_filter.mp hrow
  obtain ⟨name, file, hname, hfind, hbytes⟩ := hsized row hmem hcomplete
  rw [MediaTable.fileBytes, hname, Option.bind_some, hfind, Option.elim_some]
  -- every row of the file says the same
  have hall : ∀ bytes ∈ (table.rows.filter fun other => other.complete ∧
      other.poolFile = some name).map MediaEntry.bytesOnDisk, bytes = file.size := by
    intro bytes hbytes
    obtain ⟨other, hother, rfl⟩ := List.mem_map.mp hbytes
    obtain ⟨hin, htest⟩ := List.mem_filter.mp hother
    obtain ⟨hdone, hsame⟩ := of_decide_eq_true htest
    obtain ⟨name', file', hname', hfind', hsize⟩ := hsized other hin hdone
    rw [hsame] at hname'
    cases hname'
    rw [hfind] at hfind'
    cases hfind'
    exact hsize
  have hin : row ∈ table.rows.filter fun other => other.complete ∧ other.poolFile = some name :=
    List.mem_filter.mpr ⟨hmem, decide_eq_true ⟨hcomplete, hname⟩⟩
  exact foldl_max_eq _ 0 hall (Nat.zero_le _) (.inr (List.ne_nil_of_mem (List.mem_map_of_mem hin)))

end Tables

/-- Every row is as it was, or was complete and has been taken back. -/
structure TakenBack (before : MediaTable) (old : MediaEntry → Prop) (table : MediaTable) : Prop where
  kept : ∀ row ∈ before.rows, row ∈ table.rows ∨
    (row.complete = true ∧ old row) ∧ row.reset ∈ table.rows

/-- No row names a file that was removed. -/
def Unnamed (removals : List Removal) (table : MediaTable) : Prop :=
  ∀ removal ∈ removals, ∀ row ∈ table.rows, row.poolFile ≠ some removal.name

section Rows

variable {before table : MediaTable} {old : MediaEntry → Prop} {removals : List Removal}

theorem TakenBack.refl :
    TakenBack before old before := ⟨fun _ hrow => .inl hrow⟩

theorem TakenBack.mediaReset (h : TakenBack before old table) {entry : MediaEntry}
    (hentry : entry ∈ table.rows) (hcomplete : entry.complete = true) (hold : old entry) :
    TakenBack before old (table.mediaReset entry.mxc) := by
  refine ⟨fun row hrow => ?_⟩
  rcases h.kept row hrow with hin | ⟨hdone, hreset⟩
  · by_cases hsame : row.mxc = entry.mxc
    · have heq : row = entry := eq_of_mxc hin hentry hsame
      subst heq
      exact .inr ⟨⟨hcomplete, hold⟩, mem_mediaReset.mpr (.inr ⟨row, hin, rfl, rfl⟩)⟩
    · exact .inl (mem_mediaReset.mpr (.inl ⟨hin, hsame⟩))
  · refine .inr ⟨hdone, mem_mediaReset.mpr ?_⟩
    by_cases hsame : row.reset.mxc = entry.mxc
    · exact .inr ⟨row.reset, hreset, hsame, rfl⟩
    · exact .inl ⟨hreset, hsame⟩

theorem Unnamed.mediaReset (h : Unnamed removals table) (mxc : String) :
    Unnamed removals (table.mediaReset mxc) := by
  intro removal hremoval row hrow
  rcases mem_mediaReset.mp hrow with ⟨hin, _⟩ | ⟨_, _, _, rfl⟩
  · exact h removal hremoval row hin
  · exact nofun

/-- The row that names a file alone is taken back when the file is gone. -/
theorem Unnamed.removed (h : Unnamed removals table) {entry : MediaEntry} {removal : Removal}
    (hentry : entry ∈ table.rows) (hnames : entry.poolFile = some removal.name)
    (hone : table.mediaReferences removal.name ≤ 1) :
    Unnamed (removals ++ [removal]) (table.mediaReset entry.mxc) := by
  intro found hfound
  rcases List.mem_append.mp hfound with hearlier | hlast
  · exact h.mediaReset entry.mxc found hearlier
  · rw [List.mem_singleton.mp hlast]
    intro row hrow halso
    rcases mem_mediaReset.mp hrow with ⟨hin, hother⟩ | ⟨_, _, _, rfl⟩
    · exact hother (congrArg MediaEntry.mxc (eq_of_references hone hentry hnames hin halso))
    · cases halso

end Rows

/-- Nothing has been done yet. -/
structure Untouched (before table : MediaTable) (removals : List Removal)
    (discards : List Discard) : Prop where
  table_eq : table = before
  removals_eq : removals = []
  discards_eq : discards = []

section Collecting

variable (before : MediaTable) (protect : Nat) (now : Int64)

/-- A file was removed for rows that were complete and not used lately. -/
structure Collected (table : MediaTable) (removals : List Removal) : Prop where
  rows : TakenBack before (fun row => isProtected protect now row = false) table
  harmless : ∀ removal ∈ removals, Harmless removal
  named : ∀ removal ∈ removals, ∀ row ∈ before.rows, row.poolFile = some removal.name →
    row.complete = true ∧ isProtected protect now row = false

/-- What holds between two rows of a pass: those still to come are as they were. -/
structure Collecting (entries : List MediaEntry) (report : GarbageReport) (table : MediaTable)
    (removals : List Removal) (discards : List Discard) : Prop where
  collected : Collected before protect now table removals
  unnamed : Unnamed removals table
  toCome : ∀ entry ∈ entries, entry ∈ table.rows ∧ entry.complete = true
  mxcs : (entries.map MediaEntry.mxc).Nodup
  discards : discards = []
  filesRemoved : report.filesRemoved = removals.length
  bytesBefore : report.bytesBefore = before.mediaBytesOnDisk

/-- What holds when a pass breaks off: the row of the last file may not be taken back yet. -/
structure BrokenOff (table : MediaTable) (removals : List Removal) (discards : List Discard) :
    Prop where
  collected : Collected before protect now table removals
  unnamed : Unnamed removals.dropLast table
  discards : discards = []

variable {before protect now}
variable {entries : List MediaEntry} {report : GarbageReport} {entry : MediaEntry}
variable {table : MediaTable} {removals : List Removal} {discards : List Discard}

theorem Collecting.brokenOff
    (h : Collecting before protect now entries report table removals discards) :
    BrokenOff before protect now table removals discards :=
  ⟨h.collected, fun removal hremoval => h.unnamed removal ((List.dropLast_sublist _).mem hremoval),
    h.discards⟩

section

variable (h : Collecting before protect now (entry :: entries) report table removals discards)

include h

theorem Collecting.tail : Collecting before protect now entries report table removals discards :=
  ⟨h.collected, h.unnamed, fun other hother => h.toCome other (List.mem_cons_of_mem _ hother),
    h.mxcs.of_cons, h.discards, h.filesRemoved, h.bytesBefore⟩

/-- Taking back the row in hand leaves those still to come as they are. -/
theorem Collecting.mediaReset (hold : isProtected protect now entry = false) :
    Collecting before protect now entries report (table.mediaReset entry.mxc) removals discards := by
  obtain ⟨hentry, hcomplete⟩ := h.toCome entry List.mem_cons_self
  have hmxcs := List.nodup_cons.mp h.mxcs
  refine ⟨⟨h.collected.rows.mediaReset hentry hcomplete hold, h.collected.harmless,
    h.collected.named⟩, h.unnamed.mediaReset _, fun other hother => ?_, hmxcs.2, h.discards,
    h.filesRemoved, h.bytesBefore⟩
  obtain ⟨hin, hdone⟩ := h.toCome other (List.mem_cons_of_mem _ hother)
  refine ⟨mem_mediaReset.mpr (.inl ⟨hin, fun hsame => hmxcs.1 ?_⟩), hdone⟩
  rw [← hsame]
  exact List.mem_map_of_mem hother

end

/-- The rows that named a file that goes were complete and not used lately. -/
theorem Collected.remove (h : Collected before protect now table removals)
    (hentry : entry ∈ table.rows) (hcomplete : entry.complete = true)
    (hold : isProtected protect now entry = false) {removal : Removal}
    (hnames : entry.poolFile = some removal.name) (hone : table.mediaReferences removal.name ≤ 1)
    (hharmless : Harmless removal) :
    Collected before protect now table (removals ++ [removal]) := by
  refine ⟨h.rows, fun found hfound => ?_, fun found hfound row hrow halso => ?_⟩
  · rcases List.mem_append.mp hfound with hearlier | hlast
    · exact h.harmless found hearlier
    · rw [List.mem_singleton.mp hlast]
      exact hharmless
  · rcases List.mem_append.mp hfound with hearlier | hlast
    · exact h.named found hearlier row hrow halso
    · rw [List.mem_singleton.mp hlast] at halso
      rcases h.rows.kept row hrow with hin | ⟨hdone, _⟩
      · rw [eq_of_references hone hentry hnames hin halso]
        exact ⟨hcomplete, hold⟩
      · exact hdone

/-- The file of the row in hand is gone, and the row is not taken back yet. -/
structure Removing (before : MediaTable) (protect : Nat) (now : Int64) (entry : MediaEntry)
    (entries : List MediaEntry) (report : GarbageReport) (table : MediaTable)
    (removals : List Removal) (discards : List Discard) : Prop where
  last : ∃ earlier removal, removals = earlier ++ [removal] ∧
    entry.poolFile = some removal.name ∧ table.mediaReferences removal.name ≤ 1 ∧
    Harmless removal ∧ Collecting before protect now (entry :: entries) report table earlier discards

section

variable (h : Removing before protect now entry entries report table removals discards)

include h

theorem Removing.collected (hold : isProtected protect now entry = false) :
    Collected before protect now table removals := by
  obtain ⟨earlier, removal, rfl, hnames, hone, hharmless, hrest⟩ := h.last
  obtain ⟨hentry, hcomplete⟩ := hrest.toCome entry List.mem_cons_self
  exact hrest.collected.remove hentry hcomplete hold hnames hone hharmless

theorem Removing.brokenOff (hold : isProtected protect now entry = false) :
    BrokenOff before protect now table removals discards := by
  have hcollected := h.collected hold
  obtain ⟨earlier, removal, rfl, _, _, _, hrest⟩ := h.last
  refine ⟨hcollected, ?_, hrest.discards⟩
  rw [List.dropLast_concat]
  exact hrest.unnamed

theorem Removing.mediaReset (hold : isProtected protect now entry = false) {report' : GarbageReport}
    (hfiles : report'.filesRemoved = report.filesRemoved + 1)
    (hbytes : report'.bytesBefore = report.bytesBefore) :
    Collecting before protect now entries report' (table.mediaReset entry.mxc) removals
      discards := by
  have hcollected := h.collected hold
  obtain ⟨earlier, removal, rfl, hnames, hone, _, hrest⟩ := h.last
  obtain ⟨hentry, hcomplete⟩ := hrest.toCome entry List.mem_cons_self
  have hnext := hrest.mediaReset hold
  refine ⟨⟨hnext.collected.rows, hcollected.harmless, hcollected.named⟩,
    hrest.unnamed.removed hentry hnames hone, hnext.toCome, hnext.mxcs, hrest.discards, ?_, ?_⟩
  · rw [hfiles, hrest.filesRemoved, List.length_append]
    rfl
  · rw [hbytes, hrest.bytesBefore]

end

variable (quoted : Name → String) (quota : Nat)

theorem collectEntry_spec (entry : MediaEntry) (entries : List MediaEntry)
    (report : GarbageReport) :
    Triple (Noted (Collecting before protect now (entry :: entries) report))
      (collectEntry quoted quota protect now entry report)
      (Triple.Round (fun report => Noted (Collecting before protect now [] report))
        fun report => Noted (Collecting before protect now entries report))
      (Noted (BrokenOff before protect now)) := by
  have hends : ∀ w, Noted (Collecting before protect now (entry :: entries) report) w →
      Noted (Collecting before protect now [] report) w := fun w h =>
    ⟨h.collected, h.unnamed, nofun, List.nodup_nil, h.discards, h.filesRemoved, h.bytesBefore⟩
  unfold collectEntry
  split_ifs with hquota hprotected
  · exact .pure hends
  · exact .pure hends
  · have hold : isProtected protect now entry = false := by simpa using hprotected
    split
    · exact .pure fun _ h => h.tail
    · rename_i name hname
      refine .bind ((isOpen_spec quoted name).weaken (fun _ h => h) (fun _ _ h => h)
        fun _ h => h.brokenOff) fun held => ?_
      cases held with
      | true =>
        exact .pure fun _ h => ⟨h.1.collected, h.1.unnamed, h.1.tail.toCome, h.1.tail.mxcs,
          h.1.discards, h.1.filesRemoved, h.1.bytesBefore⟩
      | false =>
        refine .bind (R := fun n w => n = w.table.mediaReferences name ∧
          Noted (Collecting before protect now (entry :: entries) report) w ∧ Watched name w)
          ((read_spec (stable_noted_watched name) _).weaken (fun _ h => ⟨h.1, h.2 rfl⟩)
            (fun _ _ h => h) fun _ h => h.1.brokenOff) fun references => ?_
        split_ifs with hone
        · refine .bind (R := fun _ => Noted (Removing before protect now entry entries report))
            ((remove_spec (F := fun table removals discards =>
                table.mediaReferences name ≤ 1 ∧
                  Collecting before protect now (entry :: entries) report table removals discards)
              quoted name ?_).weaken ?_ (fun _ _ h => h) fun _ h => h.2.brokenOff) fun _ => ?_
          · rintro table removals discards removal ⟨hrefs, h⟩ rfl hharmless
            exact ⟨removals, removal, rfl, hname, hrefs, hharmless, h⟩
          · rintro w ⟨rfl, hnoted, hwatched⟩
            exact ⟨⟨hone, hnoted⟩, hwatched⟩
          · refine .bind (R := fun _ => Noted (Collecting before protect now entries { report with
                filesRemoved := report.filesRemoved + 1
                bytesAfter := report.bytesAfter - entry.bytesOnDisk })) ?_ fun _ => ?_
            · exact (mediaReset_spec entry.mxc fun _ _ _ h => h.mediaReset hold rfl rfl).weaken
                (fun _ h => h) (fun _ _ h => h) fun _ h => h.brokenOff hold
            · exact .pure fun _ h => h
        · refine .bind (R := fun _ => Noted (Collecting before protect now entries report))
            ?_ fun _ => .pure fun _ h => h
          exact (mediaReset_spec entry.mxc fun _ _ _ h => h.mediaReset hold).weaken
            (fun _ h => h.2.1) (fun _ _ h => h) fun _ h => h.brokenOff

theorem collectEntries_spec :
    ∀ (entries : List MediaEntry) (report : GarbageReport),
      Triple (Noted (Collecting before protect now entries report))
        (Job.each (collectEntry quoted quota protect now) entries report)
        (fun report => Noted (Collecting before protect now [] report))
        (Noted (BrokenOff before protect now)) :=
  Triple.each (collectEntry_spec quoted quota) fun _ _ h => h

theorem Untouched.brokenOff (h : Untouched before table removals discards) :
    BrokenOff before protect now table removals discards := by
  obtain ⟨rfl, rfl, rfl⟩ := h
  exact ⟨⟨.refl, nofun, nofun⟩, nofun, rfl⟩

theorem Untouched.collecting (h : Untouched before table removals discards)
    (hentries : ∀ entry ∈ entries, entry ∈ table.rows ∧ entry.complete = true)
    (hmxcs : (entries.map MediaEntry.mxc).Nodup) (hfiles : report.filesRemoved = 0)
    (hbytes : report.bytesBefore = table.mediaBytesOnDisk) :
    Collecting before protect now entries report table removals discards := by
  obtain ⟨rfl, rfl, rfl⟩ := h
  exact ⟨⟨.refl, nofun, nofun⟩, nofun, hentries, hmxcs, rfl, hfiles, hbytes⟩

variable (protect now) in
theorem collectGarbage_spec :
    Triple (Noted (Untouched before)) (collectGarbage quoted quota protect now)
      (fun report w => Noted (Collecting before protect now [] report) w ∧
        report.bytesAfter = w.table.mediaBytesOnDisk ∧
        report.stillOverQuota = decide (quota < report.bytesAfter))
      (Noted (BrokenOff before protect now)) := by
  refine .bind ((read_spec stable_noted _).weaken (fun _ h => h) (fun _ _ h => h)
    fun _ h => h.brokenOff) fun bytes => ?_
  split_ifs with hquota
  · refine .pure fun w h => ⟨h.2.collecting nofun List.nodup_nil rfl h.1, h.1, ?_⟩
    exact (decide_eq_false (Nat.not_lt.mpr hquota)).symm
  · refine .bind (R := fun entries => Noted (Collecting before protect now entries {
        bytesBefore := bytes, bytesAfter := bytes, filesRemoved := 0, filesInUse := 0,
        stillOverQuota := false })) ?_ fun entries => ?_
    · have hlist : Triple
          (Noted fun table removals discards =>
            bytes = table.mediaBytesOnDisk ∧ Untouched before table removals discards)
          Pass.listMediaByLastUsed
          (fun entries w => entries = w.table.listMediaByLastUsed ∧
            Noted (fun table removals discards =>
              bytes = table.mediaBytesOnDisk ∧ Untouched before table removals discards) w)
          (Noted fun table removals discards =>
            bytes = table.mediaBytesOnDisk ∧ Untouched before table removals discards) :=
        read_spec stable_noted _
      refine hlist.weaken (fun _ h => h) ?_ fun _ h => h.2.brokenOff
      rintro entries w ⟨rfl, hbytes, h⟩
      exact h.collecting (fun _ hentry => mem_listMediaByLastUsed.mp hentry)
        nodup_listMediaByLastUsed rfl hbytes
    · refine .bind (collectEntries_spec quoted quota entries _) fun report => ?_
      refine .bind ((read_spec stable_noted _).weaken (fun _ h => h) (fun _ _ h => h)
        fun _ h => h.brokenOff) fun bytesAfter => ?_
      exact .pure fun w h => ⟨⟨h.2.collected, h.2.unnamed, h.2.toCome, h.2.mxcs, h.2.discards,
        h.2.filesRemoved, h.2.bytesBefore⟩, h.1, rfl⟩

end Collecting

section Sweeping

/-- A pending file was removed that nobody was said to download: no unfinished row has it, or it
was too old or of another format. -/
structure Stray (protect : Nat) (now : Int) (inUse : List Name) (table : MediaTable)
    (removed : Discard) : Prop where
  notInUse : removed.owner ∉ inUse
  unwanted : table.isClaimed removed.owner = false ∨
    removed.dated.any (isExpired protect now) = true ∨
    removed.isSeek = false ∧ removed.header.any PendingFile.current = false

structure Swept (before : MediaTable) (protect : Nat) (now : Int) (inUse : List Name)
    (table : MediaTable) (removals : List Removal) (discards : List Discard) : Prop where
  rows : TakenBack before (fun _ => True) table
  harmless : ∀ removal ∈ removals, Harmless removal
  unnamed : Unnamed removals table
  strays : ∀ removed ∈ discards, Stray protect now inUse table removed

/-- What holds between two rows: no file has been removed yet. -/
structure SweepingRows (before : MediaTable) (entries : List MediaEntry) (table : MediaTable)
    (removals : List Removal) (discards : List Discard) : Prop where
  rows : TakenBack before (fun _ => True) table
  removals_eq : removals = []
  discards_eq : discards = []
  toCome : ∀ entry ∈ entries, entry ∈ table.rows ∧ entry.complete = true
  mxcs : (entries.map MediaEntry.mxc).Nodup

variable {before table : MediaTable} {protect : Nat} {now : Int} {inUse : List Name}
variable {entries : List MediaEntry} {entry : MediaEntry}
variable {removals : List Removal} {discards : List Discard}

theorem SweepingRows.swept (h : SweepingRows before entries table removals discards) :
    Swept before protect now inUse table removals discards := by
  obtain ⟨hrows, rfl, rfl, _, _⟩ := h
  exact ⟨hrows, nofun, nofun, nofun⟩

section

variable (h : SweepingRows before (entry :: entries) table removals discards)

include h

theorem SweepingRows.tail : SweepingRows before entries table removals discards :=
  ⟨h.rows, h.removals_eq, h.discards_eq,
    fun other hother => h.toCome other (List.mem_cons_of_mem _ hother), h.mxcs.of_cons⟩

theorem SweepingRows.mediaReset :
    SweepingRows before entries (table.mediaReset entry.mxc) removals discards := by
  obtain ⟨hentry, hcomplete⟩ := h.toCome entry List.mem_cons_self
  have hmxcs := List.nodup_cons.mp h.mxcs
  refine ⟨h.rows.mediaReset hentry hcomplete trivial, h.removals_eq, h.discards_eq,
    fun other hother => ?_, hmxcs.2⟩
  obtain ⟨hin, hdone⟩ := h.toCome other (List.mem_cons_of_mem _ hother)
  refine ⟨mem_mediaReset.mpr (.inl ⟨hin, fun hsame => hmxcs.1 ?_⟩), hdone⟩
  rw [← hsame]
  exact List.mem_map_of_mem hother

end

theorem sweepRow_spec (entry : MediaEntry) (entries : List MediaEntry) (report : SweepReport) :
    Triple (Noted (SweepingRows before (entry :: entries))) (sweepRow entry report)
      (Triple.Round (fun _ => Noted (Swept before protect now inUse))
        fun _ => Noted (SweepingRows before entries))
      (Noted (Swept before protect now inUse)) := by
  refine .bind (openComplete_spec entry) fun found => ?_
  split_ifs
  · exact .pure fun _ h => h.tail
  · refine .bind (R := fun _ => Noted (SweepingRows before entries)) ?_ fun _ => .pure fun _ h => h
    exact (mediaReset_spec entry.mxc fun _ _ _ h => h.mediaReset).weaken (fun _ h => h)
      (fun _ _ h => h) fun _ h => h.swept

theorem sweepRows_spec :
    ∀ (entries : List MediaEntry) (report : SweepReport),
      Triple (Noted (SweepingRows before entries)) (Job.each sweepRow entries report)
        (fun _ => Noted (Swept before protect now inUse))
        (Noted (Swept before protect now inUse)) := Triple.each sweepRow_spec fun _ _ h => h.swept

theorem Swept.discard (h : Swept before protect now inUse table removals discards)
    {removed : Discard} (hstray : Stray protect now inUse table removed) :
    Swept before protect now inUse table removals (discards ++ [removed]) := by
  refine ⟨h.rows, h.harmless, h.unnamed, fun other hother => ?_⟩
  rcases List.mem_append.mp hother with hearlier | hlast
  · exact h.strays other hearlier
  · rw [List.mem_singleton.mp hlast]
    exact hstray

theorem Swept.remove (h : Swept before protect now inUse table removals discards)
    {removal : Removal} (hnone : table.mediaReferences removal.name = 0)
    (hharmless : Harmless removal) :
    Swept before protect now inUse table (removals ++ [removal]) discards := by
  refine ⟨h.rows, fun other hother => ?_, fun other hother row hrow hnames => ?_, h.strays⟩
  · rcases List.mem_append.mp hother with hearlier | hlast
    · exact h.harmless other hearlier
    · rw [List.mem_singleton.mp hlast]
      exact hharmless
  · rcases List.mem_append.mp hother with hearlier | hlast
    · exact h.unnamed other hearlier row hrow hnames
    · rw [List.mem_singleton.mp hlast] at hnames
      exact List.countP_eq_zero.mp hnone row hrow (decide_eq_true hnames)

theorem sweepPending_spec (name : Name) (report : SweepReport) :
    Triple (Noted (Swept before protect now inUse)) (sweepPending protect now inUse name report)
      (Triple.Round (fun _ => Noted (Swept before protect now inUse))
        fun _ => Noted (Swept before protect now inUse))
      (Noted (Swept before protect now inUse)) := by
  unfold sweepPending
  generalize ownerOf name = found
  obtain ⟨owner, isSeek⟩ := found
  dsimp only
  by_cases hused : owner ∈ inUse
  · rw [if_pos hused]
    exact .pure fun _ h => h
  · rw [if_neg hused]
    refine .bind (R := fun claimant => Noted fun table removals discards =>
      claimant = table.findMediaByPendingName owner ∧
        Swept before protect now inUse table removals discards)
      ((read_spec stable_noted _).weaken (fun _ h => h) (fun _ _ h => h) fun _ h => h)
      fun claimant => ?_
    refine .bind (look_spec name) fun dated => ?_
    refine .bind (lookInto_spec isSeek name) fun header => ?_
    split_ifs with hstray
    · refine .bind (R := fun _ => Noted (Swept before protect now inUse)) ?_
        fun _ => .pure fun _ h => h
      refine (discard_spec _ fun table removals discards h => h.2.discard ⟨hused, ?_⟩).weaken
        (fun _ h => h) (fun _ _ h => h) fun _ h => h.2
      rw [MediaTable.isClaimed, ← h.1]
      simpa [or_assoc] using hstray
    · exact .pure fun _ h => h.2

theorem sweepFile_spec (quoted : Name → String) (name : Name) (report : SweepReport) :
    Triple (Noted (Swept before protect now inUse)) (sweepFile quoted name report)
      (Triple.Round (fun _ => Noted (Swept before protect now inUse))
        fun _ => Noted (Swept before protect now inUse))
      (Noted (Swept before protect now inUse)) := by
  refine .bind (R := fun references => Noted fun table removals discards =>
    references = table.mediaReferences name ∧
      Swept before protect now inUse table removals discards)
    ((read_spec stable_noted _).weaken (fun _ h => h) (fun _ _ h => h) fun _ h => h)
    fun references => ?_
  split_ifs with hnone
  · refine .bind ((isOpen_spec quoted name).weaken (fun _ h => h) (fun _ _ h => h)
      fun _ h => h.2) fun held => ?_
    split_ifs with hheld
    · exact .pure fun _ h => h.1.2
    · refine .bind (R := fun _ => Noted (Swept before protect now inUse)) ?_
        fun _ => .pure fun _ h => h
      refine (remove_spec quoted name ?_).weaken (fun _ h => ⟨h.1, h.2 (by simpa using hheld)⟩)
        (fun _ _ h => h) fun _ h => h.2
      rintro table removals discards removal ⟨rfl, h⟩ rfl hharmless
      exact h.remove hnone hharmless
  · exact .pure fun _ h => h.2

variable (protect now inUse) in
theorem sweep_spec (quoted : Name → String) :
    Triple (Noted (Untouched before)) (sweep quoted protect now inUse)
      (fun _ => Noted (Swept before protect now inUse))
      (Noted (Swept before protect now inUse)) := by
  have hstart : ∀ w, Noted (Untouched before) w → Noted (SweepingRows before []) w := by
    rintro w ⟨htable, hremovals, hdiscards⟩
    exact ⟨htable ▸ .refl, hremovals, hdiscards, nofun, List.nodup_nil⟩
  refine .bind (R := fun entries => Noted (SweepingRows before entries)) ?_ fun entries => ?_
  · refine (read_spec stable_noted _).weaken (fun _ h => h) ?_ fun w h => (hstart w h).swept
    rintro entries w ⟨rfl, h⟩
    have hempty := hstart w h
    exact ⟨hempty.rows, hempty.removals_eq, hempty.discards_eq,
      fun _ hentry => mem_listMediaByLastUsed.mp hentry, nodup_listMediaByLastUsed⟩
  refine .bind (sweepRows_spec entries _) fun report => ?_
  refine .bind ((read_spec stable_noted _).weaken (fun _ h => h) (fun _ _ h => h.2)
    fun _ h => h) fun names => ?_
  refine .bind (.each_keeps sweepPending_spec names _) fun report => ?_
  refine .bind ((read_spec stable_noted _).weaken (fun _ h => h) (fun _ _ h => h.2)
    fun _ h => h) fun files => ?_
  exact .each_keeps (sweepFile_spec quoted) files report

end Sweeping

/-- What neither pass removes, whatever others do meanwhile and wherever the pass breaks off. -/
theorem garbage_not_in_use (quoted : Name → String) (table : MediaTable) (pool : Pool)
    (turns : List Turn) :
    (∀ quota protect now,
      let (result, w) := collectGarbage quoted quota protect now (.start table pool turns)
      w.discards = [] ∧ Collected table protect now w.table w.removals ∧
      match result with
      | .ok report => Unnamed w.removals w.table ∧ report.filesRemoved = w.removals.length ∧
          report.bytesBefore = table.mediaBytesOnDisk ∧
          report.bytesAfter = w.table.mediaBytesOnDisk ∧
          report.stillOverQuota = decide (quota < report.bytesAfter) ∧
          ((∀ row ∈ w.table.rows, row.complete = true → ∃ name file,
              row.poolFile = some name ∧ w.pool.find name = some file ∧
                row.bytesOnDisk = file.size) →
            report.bytesAfter = (w.table.completeFiles.map fun file =>
              (file.bind w.pool.find).elim 0 PoolFile.size).sum)
      | .error _ => Unnamed w.removals.dropLast w.table) ∧
    ∀ protect now inUse,
      let (_, w) := sweep quoted protect now inUse (.start table pool turns)
      Swept table protect now inUse w.table w.removals w.discards := by
  have hstart : Noted (Untouched table) (.start table pool turns) := ⟨rfl, rfl, rfl⟩
  constructor
  · intro quota protect now
    have hcollect := collectGarbage_spec protect now quoted quota _ hstart
    generalize collectGarbage quoted quota protect now (.start table pool turns) = collected
      at hcollect
    obtain ⟨result, w⟩ := collected
    cases result with
    | ok report =>
        obtain ⟨hnoted, hbytes, hover⟩ := hcollect
        refine ⟨hnoted.discards, hnoted.collected, hnoted.unnamed, hnoted.filesRemoved,
          hnoted.bytesBefore, hbytes, hover, fun hsized => ?_⟩
        rw [hbytes]
        exact mediaBytesOnDisk_eq hsized
    | error _ => exact ⟨hcollect.discards, hcollect.collected, hcollect.unnamed⟩
  · intro protect now inUse
    have hsweep := sweep_spec protect now inUse quoted _ hstart
    generalize sweep quoted protect now inUse (.start table pool turns) = swept at hsweep
    obtain ⟨result, w⟩ := swept
    cases result <;> exact hsweep

def exampleEntry : MediaEntry :=
  { id := 1, mxc := "mxc://a/b", poolFile := some ['a', 'b', 'c', 'd'], verified := 0,
    fileSize := some 3, segmentsWritten := 1, complete := true, bytesOnDisk := 9, lastUsedAt := 0 }

def exampleTable (entry : MediaEntry) : MediaTable :=
  { rows := [entry], mxcs := List.nodup_singleton _, ids := List.nodup_singleton _ }

def examplePool : Pool :=
  { files := [{ shard := ['a', 'b'], name := ['a', 'b', 'c', 'd'], size := 9, plainLen := some 3 }]
    readers := fun _ => 0
    pending := [{ name := ['m', '1'], modified := 0, current := true }] }

/-- A row stays complete when taking it back fails after its file has gone; and a pending file
that an unfinished row has goes when it is too old. -/
theorem garbage_in_use :
    let collected := collectGarbage String.ofList 0 0 1 (.start (exampleTable exampleEntry)
      examplePool (List.replicate 5 { others := [], fails := none } ++
        [{ others := [], fails := some (.io "cache.db: disk I/O error") }]))
    let swept := sweep String.ofList 0 1 [] (.start (exampleTable exampleEntry.reset)
      examplePool [])
    (collected.2.pool.files = [] ∧ collected.2.table.rows = [exampleEntry]) ∧
      swept.2.pool.pending = [] ∧
        swept.2.table.findMediaByPendingName ['m', '1'] = some exampleEntry.reset := by
  decide +kernel

end MediaGarbage
end WbfMatrixClient
