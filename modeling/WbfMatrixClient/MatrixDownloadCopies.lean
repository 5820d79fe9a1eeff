import WbfMatrixClient.MatrixDownloadRows

/-!
# Whose copy it is

The copy of an address is what one transfer has opened with the key of its own event. It is given
to every event that describes the file in the same way, and a description has the hash and the size
of the file, but not the key: the copy is an event's own as long as the events that agree on the
hash agree on the key. An event that describes the file in another way is refused.
-/

namespace WbfMatrixClient
namespace MatrixDownload

open Function

variable {packages : Packages} {attachment : MatrixAttachment}

theorem openPiece_isSome {start : Nat} {body plain : List UInt8} (other : Nat) (piece : List UInt8)
    (h : openPiece packages attachment start body = some plain) :
    (openPiece packages attachment other piece).isSome = true := by
  unfold openPiece at h ⊢
  cases hkind : attachment.kind with
  | wbfChunked => simp [hkind] at h
  | matrixPlain => rfl
  | matrixEncrypted =>
    simp only [hkind] at h
    obtain ⟨file, hfile, -⟩ := Option.map_eq_some_iff.mp h
    simp [hfile]

/-- A body that comes in pieces is opened like the whole. -/
theorem openPiece_append {start : Nat} {first second one other : List UInt8}
    (hfirst : openPiece packages attachment start first = some one)
    (hsecond : openPiece packages attachment (start + first.length) second = some other) :
    openPiece packages attachment start (first ++ second) = some (one ++ other) := by
  unfold openPiece at hfirst hsecond ⊢
  cases hkind : attachment.kind with
  | wbfChunked => simp [hkind] at hfirst
  | matrixPlain =>
    simp only [hkind, Option.some.injEq] at hfirst hsecond ⊢
    rw [hfirst, hsecond]
  | matrixEncrypted =>
    simp only [hkind] at hfirst hsecond ⊢
    obtain ⟨file, hfile, rfl⟩ := Option.map_eq_some_iff.mp hfirst
    rw [hfile, Option.map_some, Option.some.injEq] at hsecond
    rw [hfile, Option.map_some, xorFrom_append, hsecond]

theorem openPiece_nil {start : Nat} {plain : List UInt8}
    (h : openPiece packages attachment start [] = some plain) : plain = [] := by
  unfold openPiece at h
  cases hkind : attachment.kind with
  | wbfChunked => simp [hkind] at h
  | matrixPlain => simpa [hkind] using h.symm
  | matrixEncrypted =>
    simp only [hkind] at h
    obtain ⟨file, -, rfl⟩ := Option.map_eq_some_iff.mp h
    rfl

/-- The body has been read to its end, and the file is as long as the event says. -/
structure IsOpened (packages : Packages) (attachment : MatrixAttachment)
    (body plain : List UInt8) : Prop where
  opened : openPiece packages attachment 0 body = some plain
  size : attachment.size.all (· = plain.length) = true

namespace Phase

def hasRead : Phase → Bool
  | .fetched | .lookedAgain | .adopted _ => true
  | _ => false

end Phase

/-- What a transfer has so far is the opened part of the file. -/
structure Transfer.Opens (packages : Packages) (t : Transfer) : Prop where
  starting : t.phase = .starting → t.body = [] ∧ t.plain = []
  fetching : t.phase = .fetching → ∀ plain,
    openPiece packages t.attachment 0 t.body = some plain → t.plain = plain
  fetched : t.phase.hasRead = true → IsOpened packages t.attachment t.body t.plain

namespace Transfer

variable {packages : Packages} {t : Transfer}

theorem opens_of_idle (h : t.phase.isWorking = false) : t.Opens packages where
  starting := by
    intro hphase
    rw [hphase] at h
    cases h
  fetching := by
    intro hphase
    rw [hphase] at h
    cases h
  fetched := by
    intro hread
    cases hphase : t.phase <;> simp [hphase, Phase.isWorking, Phase.hasRead] at h hread

theorem opens_of_fetching (hphase : t.phase = .fetching)
    (h : ∀ plain, openPiece packages t.attachment 0 t.body = some plain → t.plain = plain) :
    t.Opens packages where
  starting := by
    intro hstarting
    rw [hphase] at hstarting
    cases hstarting
  fetching := fun _ => h
  fetched := by
    intro hread
    rw [hphase] at hread
    cases hread

theorem answerReads_opens (fault : Option Nat) (hphase : t.phase = .fetching)
    (h : ∀ plain, openPiece packages t.attachment 0 t.body = some plain → t.plain = plain) :
    (t.answerReads fault).transfer.Opens packages := by
  cases fault with
  | none => exact opens_of_fetching hphase h
  | some count => exact opens_of_idle rfl

theorem turn_opens {row : Option Row} {pool : PoolFiles} {action : TaskAction} {turn : Turn}
    (hopens : t.Opens packages) (h : t.HasTurn packages row pool action turn) :
    turn.transfer.Opens packages := by
  cases h with
  | start hphase =>
    unfold start
    cases row.filter fun row => isSameMatrixFile row.entry t.description with
    | none => exact opens_of_idle rfl
    | some row =>
      simp only
      cases openComplete pool row.entry with
      | some copy => exact opens_of_idle rfl
      | none =>
        obtain ⟨hbody, hplain⟩ := hopens.starting hphase
        refine opens_of_fetching rfl fun plain hopen => ?_
        simp only [hbody] at hopen
        exact hplain.trans (openPiece_nil hopen).symm
  | piece body plain fault hphase hplain =>
    refine answerReads_opens fault hphase fun whole hopen => ?_
    obtain ⟨front, hfront⟩ := Option.isSome_iff_exists.mp
      (openPiece_isSome 0 t.body hplain)
    have hwhole := openPiece_append hfront (by rw [Nat.zero_add]; exact hplain)
    rw [hopen, Option.some.injEq] at hwhole
    rw [hwhole, hopens.fetching hphase front hfront]
  | command fault hphase hturn =>
    unfold takeCommand at hturn
    cases hinbox : t.inbox with
    | nil =>
      rw [hinbox] at hturn
      cases hturn
    | cons command rest =>
      rw [hinbox] at hturn
      cases command with
      | read n position =>
        injection hturn with hturn
        exact hturn ▸ answerReads_opens fault hphase (hopens.fetching hphase)
      | wait i =>
        injection hturn with hturn
        exact hturn ▸ opens_of_fetching hphase (hopens.fetching hphase)
      | cancel =>
        injection hturn with hturn
        exact hturn ▸ opens_of_idle rfl
  | endFetch hphase hfile hsize =>
    obtain ⟨empty, hempty⟩ := Option.isSome_iff_exists.mp hfile
    obtain ⟨plain, hplain⟩ := Option.isSome_iff_exists.mp
      (openPiece_isSome 0 t.body hempty)
    refine ⟨nofun, nofun, fun _ => ⟨?_, hsize⟩⟩
    rw [hplain, hopens.fetching hphase plain hplain]
  | lookAgain hphase hrow => exact ⟨nofun, nofun, fun _ => hopens.fetched (by rw [hphase]; rfl)⟩
  | adopt hphase hplain => exact ⟨nofun, nofun, fun _ => hopens.fetched (by rw [hphase]; rfl)⟩
  | lost hphase | record hphase | fail hphase | unregister hphase => exact opens_of_idle rfl
  | close hphase | drain hphase | answerRest hphase => exact opens_of_idle rfl

end Transfer

/-- The copy of a row is what the transfer for an event has opened, and the row says so. -/
structure Row.CopyOf (packages : Packages) (row : Row) (maker : MatrixAttachment)
    (body plain : List UInt8) : Prop where
  source : row.copyOf = some maker
  file : row.entry.poolFile = some (packages.blake3 plain)
  size : row.entry.fileSize = some plain.length
  opened : IsOpened packages maker body plain
  verified : row.entry.verified = verifyBody packages maker body
  hash : row.entry.hash ≠ none

structure Row.Fine (packages : Packages) (row : Row) : Prop where
  copy : row.entry.complete = true → ∃ maker body plain, row.CopyOf packages maker body plain
  empty : row.entry.complete = false → row.copyOf = none
  agrees : ∀ maker, row.copyOf = some maker → row.entry.kind = maker.kind ∧
    matrixHash row.entry.hash = matrixHash (MediaDescription.ofMatrixAttachment maker).hash

theorem matrixHash_blake3 (name : String) : matrixHash (some ("blake3:" ++ name)) = none := by
  have hno : isMatrixHash ("blake3:" ++ name) = false := by
    rw [isMatrixHash, String.toList_append]
    rfl
  simp [matrixHash, Option.filter, hno]

theorem matrixHash_some {hash : Option String} {text : String} (h : matrixHash hash = some text) :
    hash = some text := (Option.filter_eq_some_iff.mp h).1

namespace Row

variable {packages : Packages} {row : Row}

theorem Fine.new {mxc : String} {description : MediaDescription} {id made : Nat} :
    Fine packages { entry := newEntry mxc description, id := id, made := made, copyOf := none } :=
  ⟨nofun, fun _ => rfl, nofun⟩

theorem Fine.fillHash (h : row.Fine packages) (description : MediaDescription) :
    (row.fillHash description).Fine packages := by
  cases hcomplete : row.entry.complete with
  | true =>
    obtain ⟨maker, body, plain, hcopy⟩ := h.copy hcomplete
    obtain ⟨hash, hhash⟩ := Option.ne_none_iff_exists'.mp hcopy.hash
    have hsame : row.fillHash description = row := by
      simp only [Row.fillHash, hhash, Option.some_or]
      rw [← hhash]
    rw [hsame]
    exact h
  | false =>
    have hempty := h.empty hcomplete
    refine ⟨fun hnot => ?_, fun _ => hempty, fun maker hmaker => ?_⟩
    · have hnot : row.entry.complete = true := hnot
      rw [hcomplete] at hnot
      cases hnot
    · have hmaker : row.copyOf = some maker := hmaker
      rw [hempty] at hmaker
      cases hmaker

theorem Fine.reset : row.reset.Fine packages := ⟨nofun, fun _ => rfl, nofun⟩

theorem Fine.finish {maker : MatrixAttachment} {body plain : List UInt8} {made : Nat}
    (hown : row.IsOf maker made) (hopened : IsOpened packages maker body plain) :
    (row.finish maker (packages.blake3 plain) plain (verifyBody packages maker body)).Fine
      packages where
  copy := by
    intro _
    refine ⟨maker, body, plain, rfl, rfl, rfl, hopened, rfl, ?_⟩
    show row.entry.hash.or (some ("blake3:" ++ packages.blake3 plain)) ≠ none
    cases row.entry.hash <;> nofun
  empty := nofun
  agrees := by
    intro other hother
    injection hother with hother
    subst hother
    obtain ⟨-, hfile⟩ := hown
    rw [isSameMatrixFile, isSameMatrixDescription_iff] at hfile
    refine ⟨hfile.1, ?_⟩
    rw [← hfile.2.1]
    show matrixHash (row.entry.hash.or (some ("blake3:" ++ packages.blake3 plain))) =
      matrixHash row.entry.hash
    cases row.entry.hash with
    | some hash => rfl
    | none => exact matrixHash_blake3 _

end Row

namespace CallPhase

/-- The row of the call describes the file as the call does. -/
def isTaken : CallPhase → Bool
  | .absent | .attached _ | .complete => true
  | _ => false

end CallPhase

namespace State

/-- What holds of the copies along a run that keeps the rows. -/
structure Copies (packages : Packages) (s : State) : Prop where
  opens : ∀ n t, s.transfers n = some t → t.Opens packages
  row : ∀ row, s.row = some row → row.Fine packages ∧ row.made < s.made
  seen : ∀ i call seen, s.calls i = some call → call.seen = some seen →
    seen.Fine packages ∧ seen.made < s.made
  kept : ∀ i call seen row, s.calls i = some call → call.seen = some seen → s.row = some row →
    row.made = seen.made → row.entry.kind = seen.entry.kind ∧
      ∀ hash, seen.entry.hash = some hash → row.entry.hash = some hash
  taken : ∀ i call, s.calls i = some call → call.phase.isTaken = true →
    ∃ seen, call.seen = some seen ∧
      isSameMatrixFile seen.entry (MediaDescription.ofMatrixAttachment call.attachment) = true

variable {packages : Packages} {s s' : State}

section

variable (h : s.Copies packages)

include h

/-- The row is another one, or gets a hash, or gets or loses its copy. -/
theorem Copies.setRow (htransfers : s'.transfers = s.transfers) (hcalls : s'.calls = s.calls)
    (hmade : s.made ≤ s'.made)
    (hrow : ∀ row', s'.row = some row' → row'.Fine packages ∧ row'.made < s'.made ∧ (s.made ≤
      row'.made ∨ ∃ row, s.row = some row ∧ row'.made = row.made ∧ row'.entry.kind = row.entry.kind
      ∧ ∀ hash, row.entry.hash = some hash → row'.entry.hash = some hash)) :
    s'.Copies packages where
  opens := by
    rw [htransfers]
    exact h.opens
  row := fun row' hrow' => ⟨(hrow row' hrow').1, (hrow row' hrow').2.1⟩
  seen := by
    rw [hcalls]
    intro i call seen hcall hseen
    obtain ⟨hfine, hlt⟩ := h.seen i call seen hcall hseen
    exact ⟨hfine, by omega⟩
  kept := by
    rw [hcalls]
    intro i call seen row' hcall hseen hrow' hsame
    rcases (hrow row' hrow').2.2 with hnew | ⟨row, hold, hmade', hkind, hhash⟩
    · have hlt := (h.seen i call seen hcall hseen).2
      omega
    · obtain ⟨hkind', hhash'⟩ := h.kept i call seen row hcall hseen hold (hmade'.symm.trans hsame)
      exact ⟨hkind.trans hkind', fun hash hsome => hhash hash (hhash' hash hsome)⟩
  taken := by
    rw [hcalls]
    exact h.taken

theorem Copies.of_eq (hrow : s'.row = s.row) (hmade : s'.made = s.made)
    (htransfers : s'.transfers = s.transfers) (hcalls : s'.calls = s.calls) :
    s'.Copies packages :=
  h.setRow htransfers hcalls (Nat.le_of_eq hmade.symm) fun row' hrow' => by
    rw [hrow] at hrow'
    obtain ⟨hfine, hlt⟩ := h.row row' hrow'
    exact ⟨hfine, by omega, .inr ⟨row', hrow', rfl, rfl, fun _ hsome => hsome⟩⟩

theorem Copies.of_none (hrow : s'.row = none) (hmade : s'.made = s.made)
    (htransfers : s'.transfers = s.transfers) (hcalls : s'.calls = s.calls) :
    s'.Copies packages :=
  h.setRow htransfers hcalls (Nat.le_of_eq hmade.symm) fun row' hrow' => by
    rw [hrow] at hrow'
    cases hrow'

theorem Copies.resetRow (hrow : s'.row = s.row.map Row.reset) (hmade : s'.made = s.made)
    (htransfers : s'.transfers = s.transfers) (hcalls : s'.calls = s.calls) :
    s'.Copies packages := by
  refine h.setRow htransfers hcalls (Nat.le_of_eq hmade.symm) fun row' hrow' => ?_
  rw [hrow] at hrow'
  obtain ⟨row, hold, rfl⟩ := Option.map_eq_some_iff.mp hrow'
  have hlt := (h.row row hold).2
  refine ⟨.reset, ?_, .inr ⟨row, hold, rfl, rfl, fun _ hsome => hsome⟩⟩
  show row.made < s'.made
  omega

/-- A call takes the row that is there, or keeps the one it has. -/
theorem Copies.setCall {i : Nat} {call : Call} (hrow : s'.row = s.row) (hmade : s'.made = s.made)
    (htransfers : s'.transfers = s.transfers)
    (hcalls : s'.calls = update s.calls i (some call))
    (hseen : ∀ seen, call.seen = some seen → s.row = some seen ∨ ∃ old, s.calls i = some old ∧
      old.seen = some seen)
    (htaken : call.phase.isTaken = true → ∃ seen, call.seen = some seen ∧ isSameMatrixFile
      seen.entry (MediaDescription.ofMatrixAttachment call.attachment) = true) :
    s'.Copies packages where
  opens := by
    rw [htransfers]
    exact h.opens
  row := by
    rw [hrow, hmade]
    exact h.row
  seen := by
    rw [hcalls, hmade]
    intro j other seen hother hsome
    by_cases hji : j = i
    · subst hji
      rw [update_self, Option.some.injEq] at hother
      subst hother
      rcases hseen seen hsome with hnow | ⟨old, hold, hsome⟩
      · exact h.row seen hnow
      · exact h.seen j old seen hold hsome
    · rw [update_of_ne hji] at hother
      exact h.seen j other seen hother hsome
  kept := by
    rw [hcalls, hrow]
    intro j other seen row hother hsome hrow hsame
    by_cases hji : j = i
    · subst hji
      rw [update_self, Option.some.injEq] at hother
      subst hother
      rcases hseen seen hsome with hnow | ⟨old, hold, hsome⟩
      · rw [hnow, Option.some.injEq] at hrow
        subst hrow
        exact ⟨rfl, fun _ hhash => hhash⟩
      · exact h.kept j old seen row hold hsome hrow hsame
    · rw [update_of_ne hji] at hother
      exact h.kept j other seen row hother hsome hrow hsame
  taken := by
    rw [hcalls]
    intro j other hother hphase
    by_cases hji : j = i
    · subst hji
      rw [update_self, Option.some.injEq] at hother
      subst hother
      exact htaken hphase
    · rw [update_of_ne hji] at hother
      exact h.taken j other hother hphase

theorem Copies.setTransfer {n : Nat} {t' : Transfer} (hrow : s'.row = s.row)
    (hmade : s'.made = s.made) (htransfers : s'.transfers = update s.transfers n (some t'))
    (hcalls : s'.calls = s.calls) (hopens : t'.Opens packages) :
    s'.Copies packages where
  opens := by
    rw [htransfers]
    intro m t hm
    by_cases hmn : m = n
    · subst hmn
      rw [update_self, Option.some.injEq] at hm
      exact hm ▸ hopens
    · rw [update_of_ne hmn] at hm
      exact h.opens m t hm
  row := by
    rw [hrow, hmade]
    exact h.row
  seen := by
    rw [hcalls, hmade]
    exact h.seen
  kept := by
    rw [hcalls, hrow]
    exact h.kept
  taken := by
    rw [hcalls]
    exact h.taken

theorem Copies.mediaRowId {mxc : String} {description : MediaDescription} {id : Nat} :
    (s.mediaRowId mxc description id).Copies packages := by
  unfold State.mediaRowId
  cases hrow : s.row with
  | some row =>
    refine h.setRow rfl rfl (Nat.le_refl _) fun row' hrow' => ?_
    injection hrow' with hrow'
    subst hrow'
    obtain ⟨hfine, hlt⟩ := h.row row hrow
    refine ⟨hfine.fillHash description, hlt, .inr ⟨row, hrow, rfl, rfl, fun hash hhash => ?_⟩⟩
    simp [Row.fillHash, hhash]
  | none =>
    simp only
    split
    · refine h.setRow rfl rfl (Nat.le_succ _) fun row' hrow' => ?_
      injection hrow' with hrow'
      subst hrow'
      exact ⟨.new, Nat.lt_succ_self _, .inl (Nat.le_refl _)⟩
    · exact h

theorem Copies.settleCall {i : Nat} {call : Call} {phase : CallPhase}
    (hcall : s.calls i = some call)
    (htaken : phase = .complete → ∃ seen, call.seen = some seen ∧ isSameMatrixFile seen.entry
      (MediaDescription.ofMatrixAttachment call.attachment) = true)
    (hphase : phase.isSettled = true) : (s.settleCall i call phase).Copies packages := by
  refine h.setCall rfl rfl rfl rfl (fun seen hseen => .inr ⟨call, hcall, hseen⟩) fun hnow => ?_
  cases phase with
  | complete => exact htaken rfl
  | refused => cases hnow
  | asked | begun | absent | attached => cases hphase

theorem Copies.turn {n : Nat} {t : Transfer} {action : TaskAction} {turn : Turn} (hown : s.OwnRows)
    (hfits : t.Fits packages) (hn : s.transfers n = some t) (hkeeps : turn.Keeps t)
    (hturn : t.HasTurn packages s.row s.pool action turn) :
    (((s.setTransfer n turn.transfer).give turn.replies).apply turn.transfer
      turn.effect).Copies packages := by
  have hopens := h.opens n t hn
  have hnext : ((s.setTransfer n turn.transfer).give turn.replies).Copies packages :=
    h.setTransfer rfl rfl rfl rfl (Transfer.turn_opens hopens hturn)
  rcases Transfer.turn_effect hturn with (heffect | heffect) | ⟨-, heffect⟩ |
    ⟨name, hphase, heffect⟩ | heffect
  · rw [heffect]
    exact hnext
  · rw [heffect]
    exact hnext.of_eq rfl rfl rfl rfl
  · rw [heffect]
    exact hnext.of_eq rfl rfl rfl rfl
  · rw [heffect]
    have hname : packages.blake3 t.plain = name := hfits.named name (by rw [hphase]; rfl)
    refine hnext.setRow rfl rfl (Nat.le_refl _) fun row' hrow' => ?_
    obtain ⟨row, hrow, rfl⟩ := Option.map_eq_some_iff.mp hrow'
    rw [← hname, hkeeps.attachment]
    refine ⟨.finish (hown.finishing n t row hn (by rw [hphase]; rfl) hrow)
      (hopens.fetched (by rw [hphase]; rfl)), (h.row row hrow).2,
      .inr ⟨row, hrow, rfl, rfl, fun hash hhash => ?_⟩⟩
    simp [Row.finish, hhash]
  · rw [heffect]
    exact hnext.of_eq rfl rfl rfl rfl

theorem Copies.registerCall {i fresh : Nat} {call : Call} {row : Row}
    (hcall : s.calls i = some call) (htaken : call.phase.isTaken = true) :
    (s.registerCall i call row fresh).Copies packages := by
  have hseen : ∀ seen, call.seen = some seen →
      s.row = some seen ∨ ∃ old, s.calls i = some old ∧ old.seen = some seen :=
    fun seen hseen => .inr ⟨call, hcall, hseen⟩
  unfold State.registerCall
  cases s.registered with
  | some n =>
    simp only
    cases hn : s.transfers n with
    | none => exact h
    | some t =>
      simp only
      split
      · have hsent : (s.setTransfer n { t with
            inbox := t.inbox ++ if call.waits then [.wait i] else [] }).Copies packages :=
          h.setTransfer rfl rfl rfl rfl
            ⟨(h.opens n t hn).1, (h.opens n t hn).2, (h.opens n t hn).3⟩
        exact hsent.setCall rfl rfl rfl rfl hseen fun _ => h.taken i call hcall htaken
      · exact h.settleCall hcall nofun rfl
  | none =>
    simp only
    split
    · have hspawn : (s.setTransfer fresh
          { attachment := call.attachment, pendingId := row.id, made := row.made,
            inbox := if call.waits then [.wait i] else [], reads := [], waiters := [],
            body := [], plain := [], phase := .starting }).Copies packages :=
        h.setTransfer rfl rfl rfl rfl ⟨fun _ => ⟨rfl, rfl⟩, nofun, nofun⟩
      exact hspawn.setCall rfl rfl rfl rfl hseen fun _ => h.taken i call hcall htaken
    · exact h

omit h in
theorem Copies.start : State.start.Copies packages := by
  refine ⟨?_, ?_, ?_, ?_, ?_⟩
  · intro n t hn
    cases hn
  · intro row hrow
    cases hrow
  · intro i call seen hcall
    cases hcall
  · intro i call seen row hcall
    cases hcall
  · intro i call hcall
    cases hcall

theorem Copies.askFor {mxc : String} {i : Nat} {attachment : MatrixAttachment} {waits : Bool} :
    (s.askFor mxc i attachment waits).Copies packages := by
  unfold State.askFor
  split
  · refine h.setCall rfl rfl rfl rfl ?_ ?_
    · intro seen hseen
      cases hseen
    · intro htaken
      cases htaken
  · exact h

theorem Copies.lookFor {i : Nat} {call : Call} {row : Row} (hcall : s.calls i = some call)
    (hseen : call.seen = some row) : (s.lookFor i call row).Copies packages := by
  unfold State.lookFor
  split
  · rename_i hsame
    split
    · exact (h.settleCall hcall (fun _ => ⟨row, hseen, hsame⟩) rfl).of_eq rfl rfl rfl rfl
    · exact h.setCall rfl rfl rfl rfl (fun seen hseen => .inr ⟨call, hcall, hseen⟩)
        fun _ => ⟨row, hseen, hsame⟩
  · exact h.settleCall hcall nofun rfl

end

theorem Copies.step {mxc : String} (hinj : Injective packages.blake3)
    (hsound : s.Sound packages) (hown : s.OwnRows) (h : s.Copies packages) (action : Action) :
    (step packages mxc s action).Copies packages := by
  have hsame : ∀ n t, s.transfers n = some t → ∀ inbox : List Command,
      Transfer.Opens packages { t with inbox := inbox } := fun n t hn inbox =>
    ⟨(h.opens n t hn).1, (h.opens n t hn).2, (h.opens n t hn).3⟩
  unfold MatrixDownload.step
  cases action with
  | arrive description id =>
    simp only
    split
    · exact h.mediaRowId
    · exact h
  | ask i attachment waits => exact h.askFor
  | askAddress i visible waits =>
    simp only
    split
    · exact h.askFor
    · exact h
  | begin i id =>
    simp only
    cases hcall : s.calls i with
    | none => exact h
    | some call =>
      simp only
      split
      · have hrow : (s.mediaRowId mxc
            (MediaDescription.ofMatrixAttachment call.attachment) id).Copies packages :=
          h.mediaRowId
        obtain ⟨row, made, heq⟩ := mediaRowId_cases mxc s
          (MediaDescription.ofMatrixAttachment call.attachment) id
        rw [heq] at hrow ⊢
        split
        · rename_i row' hsome
          exact hrow.setCall rfl rfl rfl rfl (fun seen hseen => .inl (hsome.trans hseen)) nofun
        · exact hrow.settleCall hcall nofun rfl
      · exact h
  | look i =>
    simp only
    cases hcall : s.calls i with
    | none => exact h
    | some call =>
      simp only
      split
      · rename_i row hphase hseen
        exact h.lookFor hcall hseen
      · exact h
  | register i fresh =>
    simp only
    cases hcall : s.calls i with
    | none => exact h
    | some call =>
      simp only
      split
      · rename_i row hphase hseen
        exact h.registerCall hcall (by rw [hphase]; rfl)
      · exact h
  | giveUp i =>
    simp only
    cases hcall : s.calls i with
    | none => exact h
    | some call =>
      simp only
      split
      · exact h.settleCall hcall nofun rfl
      · exact h.settleCall hcall nofun rfl
      · exact h.settleCall hcall nofun rfl
      · exact h
  | readCopy i =>
    simp only
    split
    · split
      · unfold State.readAgain
        split
        · exact h.of_eq rfl rfl rfl rfl
        · exact h
      · exact h
    · exact h
  | read read n position =>
    simp only
    split
    · rename_i t hn hnew
      unfold State.sendRead
      simp only
      split
      · exact h.setTransfer rfl rfl rfl rfl (hsame n t hn _)
      · exact h.of_eq rfl rfl rfl rfl
    · exact h
  | cancel n =>
    simp only
    cases hn : s.transfers n with
    | none => exact h
    | some t =>
      simp only
      split
      · exact h.setTransfer rfl rfl rfl rfl (hsame n t hn _)
      · exact h
  | task n action =>
    simp only
    cases hn : s.transfers n with
    | none => exact h
    | some t =>
      simp only
      split
      · exact h
      · split
        · rename_i turn hturn
          have hturn := Transfer.turn_cases hturn
          have hfits := hsound.fits n t hn
          exact h.turn hown hfits hn (Transfer.turn_keeps hinj hsound.named hfits hturn) hturn
        · exact h
  | reset =>
    simp only
    split
    · split
      · split
        · exact h.resetRow rfl rfl rfl rfl
        · exact h.of_eq rfl rfl rfl rfl
      · exact h
    · exact h
  | giveUpCopy =>
    simp only
    split
    · exact h.resetRow rfl rfl rfl rfl
    · exact h
  | deleteLook others =>
    simp only
    split
    · exact h.of_eq rfl rfl rfl rfl
    · exact h
  | deleteRun removesFile =>
    simp only
    split
    · split
      · split
        · exact h.of_eq rfl rfl rfl rfl
        · exact h.of_none rfl rfl rfl rfl
      · exact h.of_eq rfl rfl rfl rfl
    · exact h
  | keepFile plain | removeFile name => exact h.of_eq rfl rfl rfl rfl
  | restart =>
    refine ⟨?_, h.row, ?_, ?_, ?_⟩
    · intro n t hn
      cases hn
    · intro i call seen hcall
      cases hcall
    · intro i call seen row hcall
      cases hcall
    · intro i call hcall
      cases hcall

/-- The call that an action gives a copy to, and the row of the copy. -/
def handsOut (s : State) : Action → Option (Call × Row)
  | .look i =>
      (s.calls i).bind fun call =>
        if call.phase = .begun then
          (call.seen.filter fun row =>
            isSameMatrixFile row.entry (MediaDescription.ofMatrixAttachment call.attachment) &&
              (openComplete s.pool row.entry).isSome).map fun row => (call, row)
        else
          none
  | .readCopy i =>
      (s.calls i).bind fun call =>
        if s.isAnswered i call then
          (s.row.filter fun row => (openComplete s.pool row.entry).isSome).map fun row => (call, row)
        else
          none
  | _ => none

/-- A copy that is said to be verified is given to the event of an encrypted file only from the row
that its request has found, and only if the event has the key that the copy was made with. -/
def UsesOwnKey (s : State) (action : Action) : Prop :=
  ∀ call row, s.handsOut action = some (call, row) →
    call.attachment.kind = .matrixEncrypted → row.entry.verified = .matched →
    (∀ seen, call.seen = some seen → row.made = seen.made) ∧
      ∀ maker, row.copyOf = some maker →
        maker.file.map streamKey = call.attachment.file.map streamKey

end State

/-- The bytes are a ciphertext with the hash of the event, opened with the key of the event. -/
def IsOwnCopy (packages : Packages) (attachment : MatrixAttachment) (plain : List UInt8) : Prop :=
  ∃ file body, attachment.file = some file ∧
    plain = xorFrom (packages.keystream (streamKey file)) 0 body ∧
    ∀ hash, nonemptyText (file.get "hashes") "sha256" = some hash →
      packages.hasSha256 (some hash) body = true

/-- What is given to the event of an encrypted file is its own, or is not said to be verified. -/
def State.ServesOwn (packages : Packages) (s : State) : Prop :=
  ∀ served ∈ s.served, served.attachment.kind = .matrixEncrypted → served.verified = .matched →
    IsOwnCopy packages served.attachment served.plain

variable {file : Json} {hash : String}

theorem fileHash_of_nonempty (h : nonemptyText (file.get "hashes") "sha256" = some hash) :
    fileHash file = some hash := (Option.filter_eq_some_iff.mp h).1

variable {attachment : MatrixAttachment}

/-- An event and the one that the copy was made for are of one hash where the row is of both. -/
theorem ofMatrixAttachment_hash (hfile : attachment.file = some file)
    (hhash : nonemptyText (file.get "hashes") "sha256" = some hash) :
    (MediaDescription.ofMatrixAttachment attachment).hash = some ("matrix-sha256:" ++ hash) := by
  simp [MediaDescription.ofMatrixAttachment, hfile, hhash]

theorem nonempty_of_ofMatrixAttachment_hash (hfile : attachment.file = some file)
    (h : (MediaDescription.ofMatrixAttachment attachment).hash = some ("matrix-sha256:" ++ hash)) :
    nonemptyText (file.get "hashes") "sha256" = some hash := by
  simp only [MediaDescription.ofMatrixAttachment, hfile, Option.bind_some,
    Option.map_eq_some_iff] at h
  obtain ⟨other, hother, heq⟩ := h
  rw [hother, (String.append_right_inj _).mp heq]

theorem matrixHash_matrix (hash : String) :
    matrixHash (some ("matrix-sha256:" ++ hash)) = some ("matrix-sha256:" ++ hash) := by
  have hyes : isMatrixHash ("matrix-sha256:" ++ hash) = true := by
    rw [isMatrixHash, String.toList_append]
    exact List.isPrefixOf_iff_prefix.mpr (List.prefix_append _ _)
  simp [matrixHash, Option.filter, hyes]

/-- A verified copy that agrees with an event on the key and on the hash is its own. -/
theorem Row.CopyOf.isOwn {packages : Packages} {row : Row} {maker : MatrixAttachment}
    {body plain : List UInt8} (hcopy : row.CopyOf packages maker body plain)
    (hfine : row.Fine packages) (hkind : row.entry.kind = .matrixEncrypted)
    (hverified : row.entry.verified = .matched)
    (hkey : maker.file.map streamKey = attachment.file.map streamKey)
    (hhash : ∀ text, matrixHash (MediaDescription.ofMatrixAttachment attachment).hash = some text →
      row.entry.hash = some text) : IsOwnCopy packages attachment plain := by
  obtain ⟨hmakerKind, hmakerHash⟩ := hfine.agrees maker hcopy.source
  have hmaker : maker.kind = .matrixEncrypted := hmakerKind.symm.trans hkind
  have hopened := hcopy.opened.opened
  simp only [openPiece, hmaker] at hopened
  obtain ⟨makerFile, hmakerFile, hplain⟩ := Option.map_eq_some_iff.mp hopened
  have hfileOf : maker.file = some makerFile := (Option.filter_eq_some_iff.mp hmakerFile).1
  rw [hfileOf, Option.map_some] at hkey
  obtain ⟨file, hfile, hsameKey⟩ := Option.map_eq_some_iff.mp hkey.symm
  refine ⟨file, body, hfile, ?_, fun hash hnonempty => ?_⟩
  · rw [hsameKey]
    exact hplain.symm
  · have hdescribed := ofMatrixAttachment_hash hfile hnonempty
    have hrow : row.entry.hash = some ("matrix-sha256:" ++ hash) :=
      hhash _ (by rw [hdescribed, matrixHash_matrix])
    rw [hrow, matrixHash_matrix] at hmakerHash
    have hmakerText := fileHash_of_nonempty
      (nonempty_of_ofMatrixAttachment_hash hfileOf (matrixHash_some hmakerHash.symm))
    have hmatched := hcopy.verified.symm.trans hverified
    simp only [verifyBody, hmaker, hmakerFile, Option.any_some, hmakerText] at hmatched
    by_contra hnot
    rw [if_neg hnot] at hmatched
    cases hmatched

namespace State

variable {packages : Packages} {s : State}

theorem lookFor_served (s : State) (i : Nat) (call : Call) (row : Row) :
    (s.lookFor i call row).served = s.served ∨
      ∃ name plain,
        isSameMatrixFile row.entry (MediaDescription.ofMatrixAttachment call.attachment) = true ∧
        openComplete s.pool row.entry = some (name, plain) ∧
        (s.lookFor i call row).served = s.served ++
          [{ attachment := call.attachment, plain := plain, verified := row.entry.verified }] := by
  unfold State.lookFor
  split
  · rename_i hsame
    cases hopen : openComplete s.pool row.entry with
    | none => exact .inl rfl
    | some copy => exact .inr ⟨copy.1, copy.2, hsame, rfl, rfl⟩
  · exact .inl rfl

theorem askFor_served (mxc : String) (s : State) (i : Nat) (attachment : MatrixAttachment)
    (waits : Bool) : (s.askFor mxc i attachment waits).served = s.served := by
  unfold State.askFor
  split <;> rfl

theorem registerCall_served (s : State) (i fresh : Nat) (call : Call) (row : Row) :
    (s.registerCall i call row fresh).served = s.served := by
  unfold State.registerCall
  simp only
  split
  · split
    · split <;> rfl
    · rfl
  · split <;> rfl

theorem apply_served (s : State) (t : Transfer) (effect : Effect) :
    (s.apply t effect).served = s.served := by cases effect <;> rfl

/-- What an action gives is the copy of the row that it gives it from. -/
theorem served_cases (packages : Packages) (mxc : String) (s : State) (action : Action) :
    (step packages mxc s action).served = s.served ∨
      ∃ call row name plain, s.handsOut action = some (call, row) ∧
        openComplete s.pool row.entry = some (name, plain) ∧
        (step packages mxc s action).served = s.served ++
          [{ attachment := call.attachment, plain := plain, verified := row.entry.verified }] := by
  have hrow : ∀ description id, (s.mediaRowId mxc description id).served = s.served := by
    intro description id
    obtain ⟨row, made, heq⟩ := mediaRowId_cases mxc s description id
    rw [heq]
  unfold MatrixDownload.step
  cases action with
  | look i =>
    simp only
    cases hcall : s.calls i with
    | none => exact .inl rfl
    | some call =>
      simp only
      split
      · rename_i row hphase hseen
        rcases s.lookFor_served i call row with
          hsame | ⟨name, plain, hsame, hopen, hserved⟩
        · exact .inl hsame
        · refine .inr ⟨call, row, name, plain, ?_, hopen, hserved⟩
          simp [State.handsOut, hcall, hphase, hseen, hsame, hopen, Option.filter]
      · exact .inl rfl
  | readCopy i =>
    simp only
    split
    · rename_i call row hcall hsome
      split
      · rename_i hanswered
        unfold State.readAgain
        split
        · rename_i name plain hopen
          refine .inr ⟨call, row, name, plain, ?_, hopen, rfl⟩
          simp [State.handsOut, hcall, hanswered, hsome, hopen, Option.filter]
        · exact .inl rfl
      · exact .inl rfl
    · exact .inl rfl
  | arrive description id =>
    left
    simp only
    split
    · exact hrow description id
    · rfl
  | ask i attachment waits => exact .inl (askFor_served mxc s i attachment waits)
  | askAddress i visible waits =>
    left
    simp only
    split
    · exact askFor_served mxc s i _ waits
    · rfl
  | begin i id =>
    left
    simp only
    split
    · split
      · split <;> exact hrow _ id
      · rfl
    · rfl
  | register i fresh =>
    left
    simp only
    split
    · split
      · exact registerCall_served s i fresh _ _
      · rfl
    · rfl
  | task n action =>
    left
    simp only
    split
    · split
      · rfl
      · split
        · exact apply_served _ _ _
        · rfl
    · rfl
  | giveUp i | cancel n =>
    left
    simp only
    split
    · split <;> rfl
    · rfl
  | read read n position =>
    left
    simp only
    split
    · unfold State.sendRead
      simp only
      split <;> rfl
    · rfl
  | reset | deleteRun removesFile =>
    left
    simp only
    split
    · split
      · split <;> rfl
      · rfl
    · rfl
  | giveUpCopy | deleteLook others =>
    left
    simp only
    split <;> rfl
  | keepFile plain | removeFile name | restart => exact .inl rfl

/-- What is given to a call describes the file as the call does. -/
theorem Copies.handsOut (h : s.Copies packages) {action : Action} {call : Call} {row : Row}
    (hout : s.handsOut action = some (call, row)) :
    row.Fine packages ∧ ∃ seen, call.seen = some seen ∧
      isSameMatrixFile seen.entry (MediaDescription.ofMatrixAttachment call.attachment) = true ∧
      (row.made = seen.made → row.entry.kind = seen.entry.kind ∧
        ∀ hash, seen.entry.hash = some hash → row.entry.hash = some hash) := by
  cases action with
  | look i =>
    obtain ⟨call', hcall, hout⟩ := Option.bind_eq_some_iff.mp hout
    obtain ⟨hphase, hout⟩ := Option.ite_none_right_eq_some.mp hout
    obtain ⟨row', hrow, heq⟩ := Option.map_eq_some_iff.mp hout
    injection heq with hcallEq hrowEq
    subst hcallEq hrowEq
    obtain ⟨hseen, hsame⟩ := Option.filter_eq_some_iff.mp hrow
    rw [Bool.and_eq_true] at hsame
    exact ⟨(h.seen i call' row' hcall hseen).1, row', hseen, hsame.1,
      fun _ => ⟨rfl, fun _ hhash => hhash⟩⟩
  | readCopy i =>
    obtain ⟨call', hcall, hout⟩ := Option.bind_eq_some_iff.mp hout
    obtain ⟨hanswered, hout⟩ := Option.ite_none_right_eq_some.mp hout
    obtain ⟨row', hrow, heq⟩ := Option.map_eq_some_iff.mp hout
    injection heq with hcallEq hrowEq
    subst hcallEq hrowEq
    obtain ⟨hrow, -⟩ := Option.filter_eq_some_iff.mp hrow
    have htaken : call'.phase.isTaken = true := by
      unfold State.isAnswered at hanswered
      cases hphase : call'.phase <;> rw [hphase] at hanswered <;> first | rfl | cases hanswered
    obtain ⟨seen, hseen, hsame⟩ := h.taken i call' hcall htaken
    exact ⟨(h.row row' hrow).1, seen, hseen, hsame, h.kept i call' seen row' hcall hseen hrow⟩
  | _ => cases hout

theorem ServesOwn.step {mxc : String} (hinj : Injective packages.blake3)
    (hsound : s.Sound packages) (hcopies : s.Copies packages) (h : s.ServesOwn packages)
    {action : Action} (hkey : s.UsesOwnKey action) :
    (step packages mxc s action).ServesOwn packages := by
  rcases served_cases packages mxc s action with hsame | ⟨call, row, name, plain, hout, hopen, hnew⟩
  · unfold ServesOwn
    rw [hsame]
    exact h
  · unfold ServesOwn
    rw [hnew]
    intro served hmem hkind hverified
    rcases List.mem_append.mp hmem with hold | hlast
    · exact h served hold hkind hverified
    · rw [List.mem_singleton] at hlast
      subst hlast
      obtain ⟨hfine, seen, hseen, hdescribes, hkept⟩ := hcopies.handsOut hout
      obtain ⟨hmade, hkeys⟩ := hkey call row hout hkind hverified
      obtain ⟨hkindKept, hhashKept⟩ := hkept (hmade seen hseen)
      rw [isSameMatrixFile, isSameMatrixDescription_iff] at hdescribes
      obtain ⟨hkindSeen, hhashSeen, -⟩ := hdescribes
      obtain ⟨hcomplete, hfile, hpool, hsize⟩ := openComplete_some hopen
      obtain ⟨maker, body, bytes, hcopy⟩ := hfine.copy hcomplete
      have hbytes : bytes = plain := by
        have hname : packages.blake3 bytes = name :=
          Option.some.inj (hcopy.file.symm.trans hfile)
        exact hinj (hname.trans (hsound.named name plain hpool).symm)
      subst hbytes
      refine hcopy.isOwn hfine (hkindKept.trans (hkindSeen.trans hkind)) hverified
        (hkeys maker hcopy.source) fun text htext => hhashKept text ?_
      rw [← hhashSeen] at htext
      exact matrixHash_some htext

/-- A request for an event that describes another file than the copy was made for: its job leaves
the row as it is, and it is refused with nothing else changed. -/
structure RefusesOthers (packages : Packages) (mxc : String) (s : State) : Prop where
  begin : ∀ i id call row, s.calls i = some call → call.phase = .asked → s.isWriterFree = true →
    s.row = some row → row.entry.complete = true →
    step packages mxc s (.begin i id) =
      s.setCall i { call with phase := .begun, seen := some row }
  look : ∀ i call seen maker, s.calls i = some call → call.phase = .begun →
    call.seen = some seen → seen.copyOf = some maker →
    isSameMatrixDescription (MediaDescription.ofMatrixAttachment maker)
      (MediaDescription.ofMatrixAttachment call.attachment) = false →
    step packages mxc s (.look i) = s.settleCall i call .refused

/-- Another description than that of the event the copy was made for is not that of the row. -/
theorem isSameMatrixFile_of_fine {row : Row} (hfine : row.Fine packages)
    {maker attachment : MatrixAttachment} (hmaker : row.copyOf = some maker)
    (hsame : isSameMatrixFile row.entry (MediaDescription.ofMatrixAttachment attachment) = true) :
    isSameMatrixDescription (MediaDescription.ofMatrixAttachment maker)
      (MediaDescription.ofMatrixAttachment attachment) = true := by
  rw [isSameMatrixFile, isSameMatrixDescription_iff] at hsame
  obtain ⟨hkind, hhash, hsize⟩ := hsame
  obtain ⟨hmakerKind, hmakerHash⟩ := hfine.agrees maker hmaker
  have hcomplete : row.entry.complete = true := by
    by_contra hnot
    rw [hfine.empty (Bool.not_eq_true _ ▸ hnot)] at hmaker
    cases hmaker
  obtain ⟨source, body, plain, hcopy⟩ := hfine.copy hcomplete
  have heq : source = maker := Option.some.inj (hcopy.source.symm.trans hmaker)
  subst heq
  rw [isSameMatrixDescription_iff]
  refine ⟨hmakerKind.symm.trans hkind, hmakerHash.symm.trans hhash, fun a b ha hb => ?_⟩
  have hopened := hcopy.opened.size
  have ha : source.size = some a := ha
  rw [ha, Option.all_some, decide_eq_true_eq] at hopened
  exact hopened.trans (hsize _ b hcopy.size hb)

theorem Copies.refusesOthers (mxc : String) (h : s.Copies packages) :
    s.RefusesOthers packages mxc where
  begin := by
    intro i id call row hcall hphase hfree hrow hcomplete
    obtain ⟨maker, body, plain, hcopy⟩ := (h.row row hrow).1.copy hcomplete
    obtain ⟨hash, hhash⟩ := Option.ne_none_iff_exists'.mp hcopy.hash
    have hfill : row.fillHash (MediaDescription.ofMatrixAttachment call.attachment) = row := by
      simp only [Row.fillHash, hhash, Option.some_or]
      rw [← hhash]
    have hsame : s.mediaRowId mxc (MediaDescription.ofMatrixAttachment call.attachment) id = s := by
      simp only [State.mediaRowId, hrow, hfill]
      rw [← hrow]
    simp only [MatrixDownload.step, hcall, hfree, hphase, hsame, hrow, and_self, if_true]
  look := by
    intro i call seen maker hcall hphase hseen hmaker hother
    have hnot : isSameMatrixFile seen.entry
        (MediaDescription.ofMatrixAttachment call.attachment) = false := by
      by_contra hsame
      rw [isSameMatrixFile_of_fine (h.seen i call seen hcall hseen).1 hmaker
        (Bool.not_eq_false _ ▸ hsame)] at hother
      cases hother
    simp only [MatrixDownload.step, hcall, hphase, hseen, State.lookFor, hnot]
    rfl

end State

section Runs

variable (packages : Packages) (mxc : String)

theorem copies_run (hinj : Injective packages.blake3) (actions : List Action)
    (hkeeps : Runs.Along (step packages mxc) State.KeepsRow State.start actions) :
    (Runs.run (step packages mxc) State.start actions).Copies packages := by
  have hall : (Runs.run (step packages mxc) State.start actions).Sound packages ∧
      (Runs.run (step packages mxc) State.start actions).OwnRows ∧
      (Runs.run (step packages mxc) State.start actions).Copies packages :=
    Runs.run_invariant_along (fun s => s.Sound packages ∧ s.OwnRows ∧ s.Copies packages)
      (fun s action hkeeps h => ⟨h.1.step hinj action, h.2.1.step hinj h.1 hkeeps,
        h.2.2.step hinj h.1 h.2.1 action⟩)
      actions State.start hkeeps ⟨.start, .start, .start⟩
  exact hall.2.2

end Runs

/-- The description of an encrypted file whose ciphertext is the one byte of the letter a. -/
def encryptedFileOf (key : String) : Json :=
  .object
    [("url", .string "mxc://a/b"), ("v", .string "v2"), ("key", .object [("k", .string key)]),
      ("iv", .string "i"), ("hashes", .object [("sha256", .string "a")])]

def encryptedImage (key : String) : MatrixAttachment where
  msgtype := "m.image"
  mxc := "mxc://a/b"
  kind := .matrixEncrypted
  name := none
  mimetype := none
  size := none
  file := some (encryptedFileOf key)

/-- The file is downloaded for one event, and then a request for another one looks for it. -/
def twoRequests (first second : String) : List Action :=
  [.ask 0 (encryptedImage first) false, .begin 0 1, .look 0, .register 0 0, .task 0 .start,
    .task 0 (.piece [97] none), .task 0 .endFetch, .task 0 .lookAgain, .task 0 .adopt,
    .task 0 .record, .task 0 .unregister, .ask 1 (encryptedImage second) false, .begin 1 2,
    .look 1]

theorem usesOwnKey_of_none {s : State} {action : Action} (h : s.handsOut action = none) :
    s.UsesOwnKey action := by
  intro call row hout
  rw [h] at hout
  cases hout

theorem usesOwnKey_of_all {s : State} {action : Action}
    (h : (s.handsOut action).all (fun (call, row) => (call.seen.all fun seen => row.made =
      seen.made) && row.copyOf.all fun maker => maker.file.map streamKey = call.attachment.file.map
      streamKey) = true) : s.UsesOwnKey action := by
  intro call row hout hkind hverified
  rw [hout, Option.all_some, Bool.and_eq_true] at h
  obtain ⟨hseen, hmaker⟩ := h
  refine ⟨fun seen hsome => ?_, fun maker hsome => ?_⟩
  · rw [hsome, Option.all_some, decide_eq_true_eq] at hseen
    exact hseen
  · rw [hsome, Option.all_some, decide_eq_true_eq] at hmaker
    exact hmaker

example :
    (Runs.run (step plainPackages "mxc://a/b") State.start (twoRequests "k" "k")).served.map
      (fun served => (served.plain, served.verified)) = [([96], .matched)] := by decide +kernel

end MatrixDownload
end WbfMatrixClient
