import WbfMatrixClient.MatrixDownload

/-!
# The turns of a transfer

A channel that was handed to a transfer is in one of its lists until it is answered, and what is
answered to a read are bytes of the file at the position that was asked for. What every turn of a
transfer keeps of this is stated here, apart from the machine around it.
-/

namespace WbfMatrixClient
namespace MatrixDownload

namespace Command

def channel : Command → Option Channel
  | .read n _ => some (.read n)
  | .wait i => some (.wait i)
  | .cancel => none

end Command

namespace Phase

/-- The name of the file in the pool, from when it is there. -/
def poolFile : Phase → Option String
  | .adopted poolFile => some poolFile
  | .leaving (.complete poolFile) | .unregistered (.complete poolFile)
  | .closed (.complete poolFile) | .drained (.complete poolFile)
  | .gone (.complete poolFile) => some poolFile
  | _ => none

/-- No command is left in the inbox, and none comes. -/
def isDrained : Phase → Bool
  | .drained _ | .gone _ => true
  | _ => false

def isGone : Phase → Bool
  | .gone _ => true
  | _ => false

end Phase

namespace Transfer

/-- The channels that wait for an answer. -/
def channels (t : Transfer) : List Channel :=
  t.inbox.filterMap Command.channel ++ t.reads.map Channel.ofRead ++
    t.waiters.map Channel.wait

/-- A read waits, at a position. -/
def HasRead (t : Transfer) (read position : Nat) : Prop :=
  .read read position ∈ t.inbox ∨ (read, position) ∈ t.reads

/-- What a phase says about the rest of a transfer. -/
structure Fits (packages : Packages) (t : Transfer) : Prop where
  starting : t.phase = .starting → t.plain = []
  named : ∀ name, t.phase.poolFile = some name → packages.blake3 t.plain = name
  drained : t.phase.isDrained = true → t.inbox = []
  gone : t.phase.isGone = true → t.reads = [] ∧ t.waiters = []

end Transfer

/-- Every file of the pool is under its hash. -/
def AreNamed (packages : Packages) (pool : PoolFiles) : Prop :=
  ∀ name plain, pool name = some plain → packages.blake3 plain = name

/-- What every turn keeps: a channel is answered or still waits, a read is answered with bytes of
the file, and only one turn takes the transfer out of the registry. -/
structure Turn.Keeps (t : Transfer) (turn : Turn) : Prop where
  attachment : turn.transfer.attachment = t.attachment
  pendingId : turn.transfer.pendingId = t.pendingId
  made : turn.transfer.made = t.made
  channels : (turn.replies.map Prod.fst ++ turn.transfer.channels).Perm t.channels
  grows : t.plain <+: turn.transfer.plain
  reads : ∀ read position, turn.transfer.HasRead read position → t.HasRead read position
  pieces : ∀ channel start plain, (channel, Answer.piece start plain) ∈ turn.replies →
    ∃ read, channel = .read read ∧ t.HasRead read start ∧ plain ≠ [] ∧
      plain <+: turn.transfer.plain.drop start
  unregisters : turn.effect = .unregister →
    t.phase.isRegistered = true ∧ turn.transfer.phase.isRegistered = false
  registered : turn.effect ≠ .unregister →
    turn.transfer.phase.isRegistered = t.phase.isRegistered

theorem readRange_prefix (plain : List UInt8) (position stop : Nat) :
    readRange plain position stop <+: plain.drop position := List.take_prefix _ _

theorem readRange_ne_nil {plain : List UInt8} {position stop : Nat} (hstop : position < stop)
    (hplain : position < plain.length) : readRange plain position stop ≠ [] := by
  intro hnil
  have hlength := congrArg List.length hnil
  simp only [readRange, List.length_take, List.length_drop, List.length_nil] at hlength
  omega

theorem sealedPlainLen_le (plain : List UInt8) : sealedPlainLen plain ≤ plain.length :=
  Nat.div_mul_le_self _ _

/-- A copy that is opened is the file that the row names, in full length. -/
theorem openComplete_some {pool : PoolFiles} {entry : MediaRow} {name : String} {plain : List UInt8}
    (h : openComplete pool entry = some (name, plain)) :
    entry.complete = true ∧ entry.poolFile = some name ∧ pool name = some plain ∧
      entry.fileSize = some plain.length := by
  unfold openComplete at h
  obtain ⟨hcomplete, hcopy⟩ := Option.ite_none_right_eq_some.mp h
  obtain ⟨hcopy, hlength⟩ := Option.filter_eq_some_iff.mp hcopy
  obtain ⟨poolFile, hname, hplain⟩ := Option.bind_eq_some_iff.mp hcopy
  obtain ⟨bytes, hbytes, heq⟩ := Option.map_eq_some_iff.mp hplain
  injection heq with hfile hcontent
  subst hfile hcontent
  exact ⟨hcomplete, hname, hbytes, (of_decide_eq_true hlength).symm⟩

/-- Whatever is answered from the pool to a read is of the file that is there. -/
theorem readFromPool_piece {pool : PoolFiles} {poolFile : String} {position start : Nat}
    {bytes : List UInt8} (h : readFromPool pool poolFile position = .piece start bytes) :
    start = position ∧ bytes ≠ [] ∧
      ∃ plain, pool poolFile = some plain ∧ bytes <+: plain.drop position := by
  unfold readFromPool at h
  cases hpool : pool poolFile with
  | none => simp [hpool] at h
  | some plain =>
    simp only [hpool] at h
    split at h
    · cases h
    · rename_i hlength
      have hpositive : 0 < pieceLen := by decide
      injection h with hstart hbytes
      subst hstart hbytes
      refine ⟨rfl, ?_, plain, rfl, readRange_prefix _ _ _⟩
      exact readRange_ne_nil (by omega) (by omega)

/-- A transfer that went on in its own lists only: nothing was answered, nothing is lost. -/
structure Transfer.Follows (t next : Transfer) : Prop where
  attachment : next.attachment = t.attachment
  pendingId : next.pendingId = t.pendingId
  made : next.made = t.made
  channels : next.channels.Perm t.channels
  grows : t.plain <+: next.plain
  reads : ∀ read position, next.HasRead read position → t.HasRead read position
  registered : next.phase.isRegistered = t.phase.isRegistered

theorem Transfer.Follows.keeps {t next : Transfer} {turn : Turn} (hnext : t.Follows next)
    (h : turn.Keeps next) :
    turn.Keeps t where
  attachment := h.attachment.trans hnext.attachment
  pendingId := h.pendingId.trans hnext.pendingId
  made := h.made.trans hnext.made
  channels := h.channels.trans hnext.channels
  grows := hnext.grows.trans h.grows
  reads := fun read position hread => hnext.reads read position (h.reads read position hread)
  pieces := by
    intro channel start plain hmem
    obtain ⟨read, hchannel, hread, hplain, hprefix⟩ := h.pieces channel start plain hmem
    exact ⟨read, hchannel, hnext.reads read start hread, hplain, hprefix⟩
  unregisters := by
    intro heffect
    obtain ⟨hbefore, hafter⟩ := h.unregisters heffect
    exact ⟨hnext.registered ▸ hbefore, hafter⟩
  registered := fun heffect => (h.registered heffect).trans hnext.registered

/-- A turn that answers nothing. -/
theorem Turn.Keeps.quiet {t next : Transfer} {effect : Effect} (hnext : t.Follows next)
    (heffect : effect ≠ .unregister) :
    Turn.Keeps t ⟨next, [], effect⟩ where
  attachment := hnext.attachment
  pendingId := hnext.pendingId
  made := hnext.made
  channels := hnext.channels
  grows := hnext.grows
  reads := hnext.reads
  pieces := by simp
  unregisters := fun h => absurd h heffect
  registered := fun _ => hnext.registered

namespace Transfer

variable {packages : Packages} {t : Transfer}

theorem Follows.phase {phase : Phase} (h : phase.isRegistered = t.phase.isRegistered) :
    t.Follows { t with phase := phase } :=
  ⟨rfl, rfl, rfl, .refl _, List.prefix_refl _, fun _ _ hread => hread, h⟩

theorem leave_effect (t : Transfer) (outcome : Outcome) (replies : List (Channel × Answer)) :
    (t.leave outcome replies).effect ≠ .unregister := by cases outcome <;> simp [leave]

theorem leave_keeps (outcome : Outcome) (hregistered : t.phase.isRegistered = true) :
    (t.leave outcome []).Keeps t := .quiet (.phase hregistered.symm) (leave_effect t outcome [])

/-- The reads that are answered and the others are all reads. -/
theorem answered_channels (p : Nat × Nat → Bool) :
    ((t.reads.filter p).map Channel.ofRead ++
        { t with reads := t.reads.filter fun read => !p read }.channels).Perm t.channels := by
  have hreads : ((t.reads.filter p).map Channel.ofRead ++
      (t.reads.filter fun read => !p read).map Channel.ofRead).Perm
        (t.reads.map Channel.ofRead) := by
    rw [← List.map_append]
    exact (List.filter_append_perm p t.reads).map _
  unfold channels
  calc _
    _ = ((t.reads.filter p).map Channel.ofRead ++
          t.inbox.filterMap Command.channel) ++
        ((t.reads.filter fun read => !p read).map Channel.ofRead ++
          t.waiters.map Channel.wait) := by simp only [List.append_assoc]
    _ |>.Perm <| (t.inbox.filterMap Command.channel ++
          (t.reads.filter p).map Channel.ofRead) ++
        ((t.reads.filter fun read => !p read).map Channel.ofRead ++
          t.waiters.map Channel.wait) := List.perm_append_comm.append_right _
    _ |>.Perm <| _ := by
      simp only [List.append_assoc]
      refine List.Perm.append_left _ ?_
      simp only [← List.append_assoc]
      exact hreads.append_right _

/-- What is sealed is there, so a read at a place in it gets bytes. -/
theorem sealed_piece {read : Nat × Nat} (hready : read.2 < sealedPlainLen t.plain) :
    readRange t.plain read.2 (min (sealedPlainLen t.plain) (read.2 + pieceLen)) ≠ [] := by
  have hsealed := sealedPlainLen_le t.plain
  have hpositive : 0 < pieceLen := by decide
  exact readRange_ne_nil (by omega) (by omega)

theorem answerReads_keeps (fault : Option Nat) (hregistered : t.phase.isRegistered = true) :
    (t.answerReads fault).Keeps t := by
  have hreads : ∀ read position,
      { t with reads := t.reads.filter fun read => ¬read.2 < sealedPlainLen t.plain }.HasRead
        read position → t.HasRead read position := by
    rintro read position (hinbox | hmem)
    · exact .inl hinbox
    · exact .inr (List.mem_filter.mp hmem).1
  have hperm := t.answered_channels fun read => read.2 < sealedPlainLen t.plain
  simp only [← decide_not] at hperm
  have hpiece : ∀ read ∈ t.reads.filter fun read => read.2 < sealedPlainLen t.plain,
      t.HasRead read.1 read.2 ∧
        readRange t.plain read.2 (min (sealedPlainLen t.plain) (read.2 + pieceLen)) ≠ [] := by
    intro read hmem
    rw [List.mem_filter, decide_eq_true_eq] at hmem
    exact ⟨.inr hmem.1, sealed_piece hmem.2⟩
  cases fault with
  | none =>
    refine ⟨rfl, rfl, rfl, ?_, List.prefix_refl _, hreads, ?_, nofun, fun _ => rfl⟩
    · simpa [answerReads, Function.comp_def] using hperm
    · intro channel start plain hmem
      obtain ⟨read, hread, heq⟩ := List.mem_map.mp hmem
      injection heq with hchannel hanswer
      injection hanswer with hstart hplain
      subst hchannel hstart hplain
      obtain ⟨hhas, hne⟩ := hpiece read hread
      exact ⟨read.1, rfl, hhas, hne, readRange_prefix _ _ _⟩
  | some count =>
    refine ⟨rfl, rfl, rfl, ?_, List.prefix_refl _, hreads, ?_,
      fun h => absurd h (leave_effect _ _ _), fun _ => hregistered.symm⟩
    · have hsplit := List.take_append_drop count
        (t.reads.filter fun read => read.2 < sealedPlainLen t.plain)
      rw [← hsplit, List.map_append] at hperm
      simpa [answerReads, leave, Function.comp_def, channels] using hperm
    · intro channel start plain hmem
      simp only [answerReads, leave, List.mem_append, List.mem_map] at hmem
      rcases hmem with ⟨read, hread, heq⟩ | ⟨read, hread, heq⟩
      · injection heq with hchannel hanswer
        injection hanswer with hstart hplain
        subst hchannel hstart hplain
        obtain ⟨hhas, hne⟩ := hpiece read (List.mem_of_mem_take hread)
        exact ⟨read.1, rfl, hhas, hne, readRange_prefix _ _ _⟩
      · injection heq with hchannel hanswer
        cases hanswer

/-- A command of the inbox is a read, or a waiter, or none of the two. -/
theorem inbox_channels (inbox : List Command) :
    ((inbox.filterMap Command.asRead).map Channel.ofRead ++
      (inbox.filterMap Command.asWaiter).map Channel.wait).Perm
        (inbox.filterMap Command.channel) := by
  induction inbox with
  | nil => exact .refl _
  | cons command inbox ih =>
    cases command with
    | read n position => exact ih.cons (Channel.read n)
    | wait i => exact List.perm_middle.trans (ih.cons (Channel.wait i))
    | cancel => exact ih

theorem mem_asRead {inbox : List Command} {read position : Nat}
    (h : (read, position) ∈ inbox.filterMap Command.asRead) : .read read position ∈ inbox := by
  obtain ⟨command, hmem, hcommand⟩ := List.mem_filterMap.mp h
  cases command with
  | read n at_ =>
    injection hcommand with hpair
    injection hpair with hread hposition
    exact hread ▸ hposition ▸ hmem
  | wait i | cancel => cases hcommand

theorem drainInbox_follows (outcome : Outcome) (h : t.phase = .closed outcome) :
    t.Follows { t.drainInbox with phase := .drained outcome } := by
  refine ⟨rfl, rfl, rfl, ?_, List.prefix_refl _, ?_, by rw [h]; rfl⟩
  · have hreads : (t.reads.map Channel.ofRead ++
        (t.inbox.filterMap Command.asRead).map Channel.ofRead ++
          (t.waiters.map Channel.wait ++ (t.inbox.filterMap Command.asWaiter).map Channel.wait)).Perm
        ((t.inbox.filterMap Command.asRead).map Channel.ofRead ++
          (t.inbox.filterMap Command.asWaiter).map Channel.wait ++
            (t.reads.map Channel.ofRead ++ t.waiters.map Channel.wait)) := by
      rw [List.perm_iff_count]
      intro channel
      simp only [List.count_append]
      omega
    have hinbox := (inbox_channels t.inbox).append_right
      (t.reads.map Channel.ofRead ++ t.waiters.map Channel.wait)
    simpa [channels, drainInbox, List.append_assoc] using hreads.trans hinbox
  · rintro read position (hinbox | hmem)
    · cases hinbox
    · rcases List.mem_append.mp hmem with hread | hread
      · exact .inr hread
      · exact .inl (mem_asRead hread)

variable {row : Option Row} {pool : PoolFiles}

theorem start_keeps (hfits : t.Fits packages) (h : t.phase = .starting) :
    (t.start row pool).Keeps t := by
  have hregistered : t.phase.isRegistered = true := by rw [h]; rfl
  unfold start
  cases row.filter fun row => isSameMatrixFile row.entry t.description with
  | none => exact leave_keeps .failed hregistered
  | some row =>
    simp only
    cases openComplete pool row.entry with
    | none => exact .quiet (.phase hregistered.symm) nofun
    | some copy =>
      obtain ⟨poolFile, plain⟩ := copy
      have hplain : t.Follows { t with plain := plain } := by
        refine ⟨rfl, rfl, rfl, .refl _, ?_, fun _ _ hread => hread, rfl⟩
        rw [hfits.starting h]
        exact List.nil_prefix
      exact hplain.keeps (leave_keeps (.complete poolFile) hregistered)

theorem piece_follows (body plain : List UInt8) :
    t.Follows { t with body := t.body ++ body, plain := t.plain ++ plain } :=
  ⟨rfl, rfl, rfl, .refl _, List.prefix_append _ _, fun _ _ hread => hread, rfl⟩

variable {fault : Option Nat} {turn : Turn}

theorem takeCommand_keeps (hregistered : t.phase.isRegistered = true)
    (h : t.takeCommand fault = some turn) : turn.Keeps t := by
  unfold takeCommand at h
  cases hinbox : t.inbox with
  | nil =>
    rw [hinbox] at h
    cases h
  | cons command rest =>
    have hfollows : ∀ (reads : List (Nat × Nat)) (waiters : List Nat),
        (Transfer.channels { t with inbox := rest, reads := reads, waiters := waiters }).Perm
          t.channels →
        (∀ read ∈ reads, read ∈ t.reads ∨ Command.read read.1 read.2 = command) →
        t.Follows { t with inbox := rest, reads := reads, waiters := waiters } := by
      intro reads waiters hchannels hreads
      refine ⟨rfl, rfl, rfl, hchannels, List.prefix_refl _, ?_, rfl⟩
      rintro read position (hmem | hmem)
      · exact .inl (by rw [hinbox]; exact List.mem_cons_of_mem _ hmem)
      · rcases hreads _ hmem with hold | hnew
        · exact .inr hold
        · exact .inl (by rw [hinbox]; exact List.mem_cons.mpr (.inl hnew))
    rw [hinbox] at h
    cases command with
    | read n position =>
      injection h with h
      subst h
      refine (hfollows _ t.waiters ?_ ?_).keeps (answerReads_keeps fault hregistered)
      · have hmiddle : ((rest.filterMap Command.channel ++ t.reads.map Channel.ofRead) ++
            Channel.read n :: t.waiters.map Channel.wait).Perm
              (Channel.read n :: ((rest.filterMap Command.channel ++
                t.reads.map Channel.ofRead) ++ t.waiters.map Channel.wait)) :=
          List.perm_middle
        simpa [channels, hinbox, Command.channel, Channel.ofRead] using hmiddle
      · intro read hmem
        rcases List.mem_append.mp hmem with hold | hnew
        · exact .inl hold
        · rw [List.mem_singleton] at hnew
          exact .inr (by rw [hnew])
    | wait i =>
      injection h with h
      subst h
      refine .quiet (hfollows t.reads _ ?_ fun read hmem => .inl hmem) nofun
      have hmiddle : ((rest.filterMap Command.channel ++ t.reads.map Channel.ofRead ++
          t.waiters.map Channel.wait) ++ Channel.wait i :: []).Perm
            (Channel.wait i :: ((rest.filterMap Command.channel ++
              t.reads.map Channel.ofRead ++ t.waiters.map Channel.wait) ++ [])) :=
        List.perm_middle
      simpa [channels, hinbox, Command.channel] using hmiddle
    | cancel =>
      injection h with h
      subst h
      refine (hfollows t.reads t.waiters ?_ fun read hmem => .inl hmem).keeps
        (leave_keeps .cancelled hregistered)
      rw [channels, channels, hinbox]
      exact .refl _

/-- At the end all that still waits is answered, a read from the file in the pool. -/
theorem answerRest_keeps {outcome : Outcome} (hinj : Function.Injective packages.blake3)
    (hpool : AreNamed packages pool) (hfits : t.Fits packages) (h : t.phase = .drained outcome) :
    Turn.Keeps t
      ⟨{ t with reads := [], waiters := [], phase := .gone outcome }, t.restAnswers pool outcome,
        .nothing⟩ := by
  have hinbox : t.inbox = [] := hfits.drained (by rw [h]; rfl)
  refine ⟨rfl, rfl, rfl, ?_, List.prefix_refl _, ?_, ?_, nofun, fun _ => by rw [h]; rfl⟩
  · cases outcome <;>
      simp [restAnswers, channels, hinbox, Function.comp_def]
  · rintro read position (hmem | hmem)
    · exact .inl hmem
    · cases hmem
  · intro channel start plain hmem
    cases outcome with
    | complete poolFile =>
      simp only [restAnswers, List.mem_append, List.mem_map] at hmem
      rcases hmem with ⟨read, hread, heq⟩ | ⟨i, hi, heq⟩
      · injection heq with hchannel hanswer
        obtain ⟨rfl, hne, file, hfile, hprefix⟩ := readFromPool_piece hanswer
        have hsame : file = t.plain := by
          refine hinj ((hpool _ _ hfile).trans ?_)
          exact (hfits.named poolFile (by rw [h]; rfl)).symm
        exact ⟨read.1, hchannel.symm, .inr hread, hne, hsame ▸ hprefix⟩
      · injection heq with hchannel hanswer
        cases hanswer
    | cancelled | failed =>
      simp only [restAnswers, List.mem_append, List.mem_map] at hmem
      rcases hmem with ⟨read, hread, heq⟩ | ⟨i, hi, heq⟩
      · injection heq with hchannel hanswer
        cases hanswer
      · injection heq with hchannel hanswer
        cases hanswer

variable {action : TaskAction}

theorem turn_keeps (hinj : Function.Injective packages.blake3) (hpool : AreNamed packages pool)
    (hfits : t.Fits packages) (h : t.HasTurn packages row pool action turn) : turn.Keeps t := by
  cases h with
  | start hphase => exact start_keeps hfits hphase
  | piece body plain fault hphase hplain =>
    refine (piece_follows body plain).keeps (answerReads_keeps fault ?_)
    show t.phase.isRegistered = true
    rw [hphase]
    rfl
  | command fault hphase hturn => exact takeCommand_keeps (by rw [hphase]; rfl) hturn
  | endFetch hphase hfile hsize => exact .quiet (.phase (by rw [hphase]; rfl)) nofun
  | lookAgain hphase hrow => exact .quiet (.phase (by rw [hphase]; rfl)) nofun
  | lost hphase => exact leave_keeps .failed (by rw [hphase]; rfl)
  | adopt hphase hplain => exact .quiet (.phase (by rw [hphase]; rfl)) nofun
  | record hphase => exact .quiet (.phase (by rw [hphase]; rfl)) nofun
  | fail hphase => exact leave_keeps .failed (Phase.isRegistered_of_isWorking hphase)
  | unregister hphase =>
    exact ⟨rfl, rfl, rfl, .refl _, List.prefix_refl _, fun _ _ hread => hread, by simp,
      fun _ => ⟨by rw [hphase]; rfl, rfl⟩, fun hne => absurd rfl hne⟩
  | close hphase => exact .quiet (.phase (by rw [hphase]; rfl)) nofun
  | drain hphase => exact .quiet (drainInbox_follows _ hphase) nofun
  | answerRest hphase => exact answerRest_keeps hinj hpool hfits hphase

theorem leave_fits {outcome : Outcome} (replies : List (Channel × Answer))
    (hnamed : ∀ name, outcome = .complete name → packages.blake3 t.plain = name) :
    (t.leave outcome replies).transfer.Fits packages where
  starting := nofun
  named := by
    intro name hname
    cases outcome with
    | complete poolFile => exact hnamed name (congrArg Outcome.complete (Option.some.inj hname))
    | cancelled | failed => cases hname
  drained := nofun
  gone := nofun

/-- A transfer at work has no file in the pool yet, but for the time after it put it there. -/
theorem Fits.of_unnamed (hstarting : t.phase = .starting → t.plain = [])
    (hworking : t.phase.isWorking = true) (hunnamed : t.phase.poolFile = none) :
    t.Fits packages where
  starting := hstarting
  named := by
    intro name hname
    rw [hunnamed] at hname
    cases hname
  drained := by
    intro hdrained
    cases hphase : t.phase <;> simp [hphase, Phase.isWorking, Phase.isDrained] at hworking hdrained
  gone := by
    intro hgone
    cases hphase : t.phase <;> simp [hphase, Phase.isWorking, Phase.isGone] at hworking hgone

theorem answerReads_fits (fault : Option Nat) (h : t.phase = .fetching) :
    (t.answerReads fault).transfer.Fits packages := by
  cases fault with
  | none =>
    have hphase : (t.answerReads none).transfer.phase = .fetching := h
    exact .of_unnamed (by rw [hphase]; nofun) (by rw [hphase]; rfl) (by rw [hphase]; rfl)
  | some count => exact leave_fits _ nofun

theorem takeCommand_fits (hphase : t.phase = .fetching) (h : t.takeCommand fault = some turn) :
    turn.transfer.Fits packages := by
  unfold takeCommand at h
  cases hinbox : t.inbox with
  | nil =>
    rw [hinbox] at h
    cases h
  | cons command rest =>
    rw [hinbox] at h
    cases command with
    | read n position =>
      injection h with h
      exact h ▸ answerReads_fits fault hphase
    | wait i =>
      injection h with h
      subst h
      exact .of_unnamed (fun h => by rw [hphase] at h; cases h) (by rw [hphase]; rfl)
        (by rw [hphase]; rfl)
    | cancel =>
      injection h with h
      exact h ▸ leave_fits _ nofun

theorem turn_fits (hpool : AreNamed packages pool) (hfits : t.Fits packages)
    (h : t.HasTurn packages row pool action turn) : turn.transfer.Fits packages := by
  cases h with
  | start hphase =>
    unfold start
    cases row.filter fun row => isSameMatrixFile row.entry t.description with
    | none => exact leave_fits _ nofun
    | some row =>
      simp only
      cases hcopy : openComplete pool row.entry with
      | none => exact .of_unnamed nofun rfl rfl
      | some copy =>
        obtain ⟨poolFile, plain⟩ := copy
        refine leave_fits _ fun name hname => ?_
        injection hname with hname
        exact hname ▸ hpool poolFile plain (openComplete_some hcopy).2.2.1
  | piece body plain fault hphase hplain => exact answerReads_fits fault hphase
  | command fault hphase hturn => exact takeCommand_fits hphase hturn
  | endFetch hphase hfile hsize | lookAgain hphase hrow => exact .of_unnamed nofun rfl rfl
  | lost hphase | fail hphase => exact leave_fits _ nofun
  | adopt hphase hplain => exact ⟨nofun, fun name hname => Option.some.inj hname, nofun, nofun⟩
  | record hphase =>
    refine ⟨nofun, fun name hname => ?_, nofun, nofun⟩
    exact hfits.named name (by rw [hphase]; exact hname)
  | @unregister outcome hphase =>
    refine ⟨nofun, fun name hname => hfits.named name ?_, nofun, nofun⟩
    rw [hphase]
    cases outcome <;> exact hname
  | @close outcome hphase =>
    refine ⟨nofun, fun name hname => hfits.named name ?_, nofun, nofun⟩
    rw [hphase]
    cases outcome <;> exact hname
  | @drain outcome hphase =>
    refine ⟨nofun, fun name hname => hfits.named name ?_, fun _ => rfl, nofun⟩
    rw [hphase]
    cases outcome <;> exact hname
  | @answerRest outcome hphase =>
    refine ⟨nofun, fun name hname => hfits.named name ?_, fun _ => ?_, fun _ => ⟨rfl, rfl⟩⟩
    · rw [hphase]
      cases outcome <;> exact hname
    · exact hfits.drained (by rw [hphase]; rfl)

/-- The effect is about nothing but a job that is queued. -/
def IsQuiet (effect : Effect) : Prop :=
  effect = .nothing ∨ effect = .post

theorem leave_isQuiet (t : Transfer) (outcome : Outcome) (replies : List (Channel × Answer)) :
    IsQuiet (t.leave outcome replies).effect := by cases outcome <;> simp [IsQuiet, leave]

theorem answerReads_isQuiet (t : Transfer) (fault : Option Nat) :
    IsQuiet (t.answerReads fault).effect := by
  cases fault with
  | none => exact .inl rfl
  | some count => exact leave_isQuiet _ _ _

theorem takeCommand_isQuiet (h : t.takeCommand fault = some turn) : IsQuiet turn.effect := by
  unfold takeCommand at h
  cases hinbox : t.inbox with
  | nil =>
    rw [hinbox] at h
    cases h
  | cons command rest =>
    rw [hinbox] at h
    cases command with
    | read n position =>
      injection h with h
      exact h ▸ answerReads_isQuiet _ fault
    | wait i =>
      injection h with h
      exact h ▸ .inl rfl
    | cancel =>
      injection h with h
      exact h ▸ leave_isQuiet _ _ _

/-- Three turns do something to what is shared. -/
theorem turn_effect (h : t.HasTurn packages row pool action turn) :
    IsQuiet turn.effect ∨
      (t.phase = .lookedAgain ∧ turn.effect = .adopt (packages.blake3 t.plain) t.plain) ∨
      (∃ poolFile, t.phase = .adopted poolFile ∧
        turn.effect = .record poolFile t.plain (verifyBody packages t.attachment t.body)) ∨
      turn.effect = .unregister := by
  cases h with
  | start hphase =>
    left
    unfold start
    cases row.filter fun row => isSameMatrixFile row.entry t.description with
    | none => exact leave_isQuiet _ _ _
    | some row =>
      simp only
      cases openComplete pool row.entry with
      | none => exact .inl rfl
      | some copy => exact leave_isQuiet _ _ _
  | piece body plain fault hphase hplain => exact .inl (answerReads_isQuiet _ fault)
  | command fault hphase hturn => exact .inl (takeCommand_isQuiet hturn)
  | lost hphase | fail hphase => exact .inl (leave_isQuiet _ _ _)
  | adopt hphase hplain => exact .inr (.inl ⟨hphase, rfl⟩)
  | record hphase => exact .inr (.inr (.inl ⟨_, hphase, rfl⟩))
  | unregister hphase => exact .inr (.inr (.inr rfl))
  | endFetch | lookAgain | close | drain | answerRest => exact .inl (.inl rfl)

theorem answerReads_phase (t : Transfer) (fault : Option Nat) :
    (t.answerReads fault).transfer.phase = t.phase ∨
      (t.answerReads fault).transfer.phase = .leaving .failed := by
  cases fault with
  | none => exact .inl rfl
  | some count => exact .inr rfl

theorem takeCommand_phase (h : t.takeCommand fault = some turn) :
    turn.transfer.phase = t.phase ∨ ∃ outcome, turn.transfer.phase = .leaving outcome := by
  unfold takeCommand at h
  cases hinbox : t.inbox with
  | nil =>
    rw [hinbox] at h
    cases h
  | cons command rest =>
    rw [hinbox] at h
    cases command with
    | read n position =>
      injection h with h
      subst h
      rcases answerReads_phase _ fault with hphase | hphase
      · exact .inl hphase
      · exact .inr ⟨_, hphase⟩
    | wait i =>
      injection h with h
      exact .inl (h ▸ rfl)
    | cancel =>
      injection h with h
      exact .inr ⟨.cancelled, h ▸ rfl⟩

/-- A transfer that is at work after a turn has been at work before, and one that is about to have
the row changed has just looked at it or was so before. -/
theorem turn_phase (h : t.HasTurn packages row pool action turn) :
    (turn.transfer.phase.isWorking = true → t.phase.isWorking = true) ∧
      (turn.transfer.phase.isFinishing = true →
        t.phase = .lookedAgain ∨ (t.phase = .fetched ∧ t.isStillOurRow row = true)) := by
  have hfetching : ∀ phase : Phase, t.phase = .fetching →
      (phase = t.phase ∨ ∃ outcome, phase = .leaving outcome) →
      (phase.isWorking = true → t.phase.isWorking = true) ∧ phase.isFinishing = false := by
    rintro phase hphase (rfl | ⟨outcome, rfl⟩)
    · exact ⟨id, by rw [hphase]; rfl⟩
    · exact ⟨nofun, rfl⟩
  cases h with
  | start hphase =>
    refine ⟨fun _ => by rw [hphase]; rfl, fun hfinishing => ?_⟩
    unfold start at hfinishing
    cases hrow : row.filter fun row => isSameMatrixFile row.entry t.description with
    | none =>
      rw [hrow] at hfinishing
      cases hfinishing
    | some row =>
      rw [hrow] at hfinishing
      simp only at hfinishing
      cases hcopy : openComplete pool row.entry with
      | none | some copy =>
        rw [hcopy] at hfinishing
        cases hfinishing
  | piece body plain fault hphase hplain =>
    have hnext : ({ t with body := t.body ++ body, plain := t.plain ++ plain }.answerReads
        fault).transfer.phase = t.phase ∨ ∃ outcome,
        ({ t with body := t.body ++ body, plain := t.plain ++ plain }.answerReads
          fault).transfer.phase = .leaving outcome :=
      (answerReads_phase _ fault).imp id fun h => ⟨_, h⟩
    obtain ⟨hworking, hfinishing⟩ := hfetching _ hphase hnext
    exact ⟨hworking, fun h => by rw [hfinishing] at h; cases h⟩
  | command fault hphase hturn =>
    obtain ⟨hworking, hfinishing⟩ := hfetching _ hphase (takeCommand_phase hturn)
    exact ⟨hworking, fun h => by rw [hfinishing] at h; cases h⟩
  | endFetch hphase hfile hsize => exact ⟨fun _ => by rw [hphase]; rfl, nofun⟩
  | lookAgain hphase hrow => exact ⟨fun _ => by rw [hphase]; rfl, fun _ => .inr ⟨hphase, hrow⟩⟩
  | lost hphase | drain hphase | answerRest hphase => exact ⟨nofun, nofun⟩
  | adopt hphase hplain => exact ⟨fun _ => by rw [hphase]; rfl, fun _ => .inl hphase⟩
  | record hphase | fail hphase | unregister hphase | close hphase => exact ⟨nofun, nofun⟩

end Transfer

end MatrixDownload
end WbfMatrixClient
