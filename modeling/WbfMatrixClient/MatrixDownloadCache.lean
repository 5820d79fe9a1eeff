import WbfMatrixClient.CacheOperations
import WbfMatrixClient.MatrixDownloadRows

/-!
# The rows of the downloads in the cache

What the downloads of an address do to its row is done by jobs of the writer of the cache. The row
that they work with is the one that the table has after these jobs, and no other row is touched.
-/

namespace WbfMatrixClient
namespace MatrixDownload

open MediaPool (segmentSize headerLen lenField tagLen)
open Runs Table

namespace State

/-- The job of the writer that an action runs. Of the job that stores an event, it is the part about
the table of the media. -/
def jobOf (packages : Packages) (mxc : String) (s : State) : Action → List Operation
  | .arrive description _ => if s.isWriterFree then [.mediaBegin mxc description] else []
  | .begin i _ =>
      match s.calls i with
      | some call =>
          if s.isWriterFree ∧ call.phase = .asked then
            [.mediaBegin mxc (MediaDescription.ofMatrixAttachment call.attachment)]
          else
            []
      | none => []
  | .task n action =>
      match s.transfers n with
      | some t =>
          if action = .record ∧ ¬s.isWriterFree then
            []
          else
            match t.turn packages s.row s.pool action with
            | some turn =>
                match turn.effect with
                | .record poolFile plain verified =>
                    let segments := (plain.length + segmentSize - 1) / segmentSize
                    [.mediaFinish mxc poolFile segments plain.length
                      (headerLen + segments * (lenField + segmentSize + tagLen)) verified]
                | _ => []
            | none => []
      | none => []
  | .reset =>
      if s.isWriterFree ∧ ∃ id ∈ s.resets.head?, s.row.any fun row => row.id = id then
        [.mediaReset mxc]
      else
        []
  | .giveUpCopy => if s.isWriterFree then [.mediaReset mxc] else []
  | .deleteRun _ =>
      if ∃ inUse ∈ s.deleting, ∃ row ∈ s.row, row.id ∉ inUse then [.mediaDelete mxc] else []
  | _ => []

end State

/-- The row of the machine is the one that the table has for the address, and the other rows are
those of the cache that it began with. -/
structure Mirrors (mxc : String) (first : Cache) (s : State) (cache : Cache) : Prop where
  row : find MediaRow.mxc cache.media mxc = s.row.map Row.entry
  others : ∀ other ≠ mxc,
    find MediaRow.mxc cache.media other = find MediaRow.mxc first.media other

namespace Mirrors

variable {mxc : String} {first cache : Cache} {s s' : State} (h : Mirrors mxc first s cache)

include h

theorem of_row (hrow : s'.row = s.row) : Mirrors mxc first s' cache :=
  ⟨by rw [h.row, hrow], h.others⟩

theorem update (f : MediaRow → MediaRow) (g : Row → Row) (hf : ∀ row, (f row).mxc = row.mxc)
    (hg : ∀ row, (g row).entry = f row.entry) (hrow : s'.row = s.row.map g) :
    Mirrors mxc first s' (cache.updateMedia mxc f) where
  row := by
    refine (find_update_self hf).trans ?_
    rw [h.row, hrow, Option.map_map, Option.map_map]
    exact congrFun (congrArg Option.map (funext fun row => (hg row).symm)) s.row
  others other hne := (find_update_ne hf hne).trans (h.others other hne)

theorem mediaBegin (description : MediaDescription) (id : Nat) :
    Mirrors mxc first (s.mediaRowId mxc description id)
      ((cache.mediaBegin mxc description).getD cache) := by
  have hfind := h.row
  rw [Cache.mediaBegin, WbfMatrixClient.mediaRowId]
  cases hrow : s.row with
  | some row =>
    rw [hrow] at hfind
    rw [hfind]
    refine h.update _ (Row.fillHash · description) (fun _ => rfl) (fun _ => rfl) ?_
    rw [State.mediaRowId, hrow]
    rfl
  | none =>
    rw [hrow] at hfind
    rw [hfind, State.mediaRowId, hrow]
    dsimp only
    split_ifs
    · refine ⟨?_, fun other hne => ?_⟩
      · exact (find_append _).trans (by rw [hfind, if_pos rfl]; rfl)
      · refine (find_append _).trans ?_
        rw [if_neg hne.symm, Option.or_none]
        exact h.others other hne
    · exact h

theorem mediaReset : Mirrors mxc first s.mediaReset (cache.mediaReset mxc) :=
  h.update _ Row.reset (fun _ => rfl) (fun _ => rfl) rfl

theorem mediaDelete (hrow : s'.row = none) : Mirrors mxc first s' (cache.mediaDelete mxc) := by
  refine ⟨?_, fun other hne => ?_⟩
  · rw [hrow]
    refine find_eq_none_iff.mpr fun row hmem => ?_
    exact of_decide_eq_true (List.mem_filter.mp hmem).2
  · rw [← h.others other hne, find, find, Cache.mediaDelete, List.find?_filter]
    congr 1
    funext row
    grind

variable (packages : Packages) (cachePackages : CachePackages)

theorem step (action : Action) :
    Mirrors mxc first (step packages mxc s action)
      (run (Cache.step cachePackages) cache (s.jobOf packages mxc action)) := by
  cases action with
  | arrive description id =>
    rw [MatrixDownload.step, State.jobOf]
    split_ifs
    · exact h.mediaBegin description id
    · exact h
  | begin i id =>
    rw [MatrixDownload.step, State.jobOf]
    cases s.calls i with
    | none => exact h
    | some call =>
      dsimp only
      split_ifs
      · have hbegun := h.mediaBegin (MediaDescription.ofMatrixAttachment call.attachment) id
        cases (s.mediaRowId mxc _ id).row with
        | none => exact hbegun.of_row rfl
        | some row => exact hbegun.of_row rfl
      · exact h
  | task n action =>
    rw [MatrixDownload.step, State.jobOf]
    cases s.transfers n with
    | none => exact h
    | some t =>
      dsimp only
      split_ifs
      · exact h
      · cases t.turn packages s.row s.pool action with
        | none => exact h
        | some turn =>
          dsimp only
          cases turn.effect with
          | record poolFile plain verified =>
            exact h.update _ (Row.finish · turn.transfer.attachment poolFile plain verified)
              (fun _ => rfl) (fun _ => rfl) rfl
          | nothing | post | adopt | unregister => exact h.of_row rfl
  | reset =>
    rw [MatrixDownload.step, State.jobOf]
    cases s.resets with
    | nil =>
      rw [if_neg (by simp)]
      exact h
    | cons id rest =>
      dsimp only
      by_cases hfree : s.isWriterFree = true
      · rw [if_pos hfree]
        by_cases hrow : (s.row.any fun row => row.id = id) = true
        · rw [if_pos hrow, if_pos ⟨hfree, id, rfl, by simpa using hrow⟩]
          exact h.mediaReset.of_row rfl
        · rw [if_neg hrow, if_neg (by simpa [hfree] using hrow)]
          exact h.of_row rfl
      · rw [if_neg hfree, if_neg fun hjob => hfree hjob.1]
        exact h
  | giveUpCopy =>
    rw [MatrixDownload.step, State.jobOf]
    split_ifs
    · exact h.mediaReset
    · exact h
  | deleteRun removesFile =>
    rw [MatrixDownload.step, State.jobOf]
    cases s.deleting with
    | none =>
      rw [if_neg (by simp)]
      exact h
    | some inUse =>
      dsimp only
      cases hrow : s.row with
      | none =>
        rw [if_neg (by simp)]
        exact h.of_row hrow.symm
      | some row =>
        dsimp only
        by_cases hused : row.id ∈ inUse
        · rw [if_pos hused, if_neg (by simpa using hused)]
          exact h.of_row hrow.symm
        · rw [if_neg hused, if_pos (by simpa using hused)]
          exact h.mediaDelete rfl
  | ask | askAddress | look | register | giveUp | readCopy | read | cancel | deleteLook =>
    refine h.of_row ?_
    simp only [MatrixDownload.step, State.askFor, State.lookFor, State.registerCall,
      State.readAgain, State.sendRead]
    repeat' split
    all_goals rfl
  | keepFile plain | removeFile name | restart => exact h.of_row rfl

end Mirrors

/-- The jobs that a run of the downloads of an address hands to the writer give the table of the
cache the row that the downloads work with, and leave the rows of other addresses as they were. -/
theorem rows_are_cached (packages : Packages) (cachePackages : CachePackages) (mxc : String)
    (actions : List Action) {cache : Cache} (hnew : find MediaRow.mxc cache.media mxc = none) :
    Mirrors mxc cache (run (step packages mxc) .start actions)
      (run (Cache.step cachePackages) cache
        (outputs (step packages mxc) (State.jobOf packages mxc) .start actions)) :=
  run_outputs (r := Mirrors mxc cache)
    (fun _ _ action h => h.step packages cachePackages action) actions ⟨hnew, fun _ _ => rfl⟩

theorem rows_are_cached_of_copy :
    let packages : CachePackages :=
      ⟨⟨fun _ => .error "", id⟩, ⟨fun _ => none, fun _ => none⟩⟩
    Mirrors "mxc://a/b" Cache.empty
      (run (step plainPackages "mxc://a/b") .start (untilLooked ++ untilGone))
      (run (Cache.step packages) Cache.empty (outputs (step plainPackages "mxc://a/b")
        (State.jobOf plainPackages "mxc://a/b") .start (untilLooked ++ untilGone))) :=
  rows_are_cached plainPackages _ "mxc://a/b" (untilLooked ++ untilGone) rfl

end MatrixDownload
end WbfMatrixClient
