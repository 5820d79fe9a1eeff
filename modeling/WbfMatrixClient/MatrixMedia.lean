import WbfMatrixClient.Lib.StreamCipher
import WbfMatrixClient.MessageContent

/-!
# Attachments that are encrypted while they pass

The body of an upload is encrypted as it comes in, and a download is decrypted as
it comes in. The cipher takes its bytes from a queue: when the queue is empty it
takes this for the end, and a decryptor then compares the hash of all it has read
and begins a new one.

The steps of the cipher, the start of it and the hash are parameters.
-/

namespace WbfMatrixClient
namespace MatrixMedia

open StreamCipher (run Sink)

/-- Bytes that are processed at once. -/
def piece : Nat := 64 * 1024

theorem piece_pos : 0 < piece := by decide

/-- What an encrypted file is described by. -/
structure EncryptionInfo (K : Type) where
  key : K
  sha256 : List UInt8

/-- The cipher of attachments. -/
structure Packages (K σ : Type) where
  start : K → σ
  encryptStep : σ → UInt8 → UInt8 × σ
  /-- A description can be of no use. -/
  startDecrypt : K → Except String σ
  decryptStep : σ → UInt8 → UInt8 × σ
  sha256 : List UInt8 → List UInt8

/-- Reading from a queue takes what is there, up to the room in the buffer. -/
def readQueued (queue : List UInt8) (room : Nat) : List UInt8 × List UInt8 :=
  (queue.take room, queue.drop room)

structure Encryptor (K σ : Type) where
  key : K
  state : σ
  hashed : List UInt8

structure Decryptor (σ : Type) where
  state : σ
  hashed : List UInt8
  expected : List UInt8

section Ciphers

variable {K σ : Type} (packages : Packages K σ)

namespace Encryptor

def new (key : K) : Encryptor K σ :=
  { key := key, state := packages.start key, hashed := [] }

def read (encryptor : Encryptor K σ) (queue : List UInt8) (room : Nat) :
    List UInt8 × Encryptor K σ × List UInt8 :=
  let got := readQueued queue room
  let made := run packages.encryptStep encryptor.state got.1
  (made.1, { encryptor with state := made.2, hashed := encryptor.hashed ++ made.1 }, got.2)

def finish (encryptor : Encryptor K σ) : EncryptionInfo K :=
  { key := encryptor.key, sha256 := packages.sha256 encryptor.hashed }

end Encryptor

namespace Decryptor

def new (info : EncryptionInfo K) : Except String (Decryptor σ) :=
  match packages.startDecrypt info.key with
  | .error e => .error e
  | .ok state => .ok { state := state, hashed := [], expected := info.sha256 }

/-- Where nothing is read, the hash of all so far is compared and begun anew. -/
def read (decryptor : Decryptor σ) (queue : List UInt8) (room : Nat) :
    Except String (List UInt8) × Decryptor σ × List UInt8 :=
  let got := readQueued queue room
  if got.1 = [] then
    (if packages.sha256 decryptor.hashed = decryptor.expected then .ok []
      else .error "hash mismatch",
      { decryptor with hashed := [] }, got.2)
  else
    let made := run packages.decryptStep decryptor.state got.1
    (.ok made.1, { decryptor with state := made.2, hashed := decryptor.hashed ++ got.1 }, got.2)

theorem read_queue (decryptor : Decryptor σ) (queue : List UInt8) (room : Nat) :
    (decryptor.read packages queue room).2.2 = queue.drop room := by
  rw [read]
  split_ifs <;> rfl

end Decryptor

end Ciphers

structure MatrixUpload where
  size : Nat
  encrypted : Bool

/-- A read that brings something. -/
abbrev Read : Type := {bytes : List UInt8 // bytes ≠ []}

/-- How the body of a request ends: by a read of nothing, or by an error. -/
inductive BodyEnd where
  | eof
  | broke

section Uploads

variable {K σ : Type} (packages : Packages K σ) (upload : MatrixUpload)

/-- Reads of the encryptor until the buffer is full or nothing comes. -/
def fillCipher (encryptor : Encryptor K σ) (queue : List UInt8) (space : Nat) :
    List UInt8 × Encryptor K σ × List UInt8 :=
  if space = 0 then
    ([], encryptor, queue)
  else
    let got := encryptor.read packages queue space
    if _hgot : got.1.length = 0 then
      ([], got.2.1, got.2.2)
    else
      let rest := fillCipher got.2.1 got.2.2 (space - got.1.length)
      (got.1 ++ rest.1, rest.2)
termination_by space
decreasing_by
  change space - got.1.length < space
  omega

/-- What the loop of an upload has at hand. -/
structure Feeding (K σ : Type) where
  encryptor : Option (Encryptor K σ)
  queue : List UInt8
  sent : Nat
  sink : Sink (Except String (List UInt8))

/-- An error goes to the request where it is still there. -/
def Feeding.refuse (feeding : Feeding K σ) (message : String) :
    Sink (Except String (List UInt8)) :=
  (feeding.sink.send (.error message)).getD feeding.sink

/-- The rest of the reads, and then the end of the body. -/
def feedLoop (ending : BodyEnd) : List Read → Feeding K σ →
    Except SdkError (Option (EncryptionInfo K)) × Sink (Except String (List UInt8))
  | [], feeding =>
      match ending with
      | .broke => (.error (.io "the body broke"), feeding.refuse "the body broke")
      | .eof =>
          if feeding.sent < upload.size then
            (.error (.usage ("the body ended after " ++ toString feeding.sent ++
              " bytes but the upload was created with size " ++ toString upload.size)),
              feeding.refuse "the body is too short")
          else
            (.ok (feeding.encryptor.map (Encryptor.finish packages)), feeding.sink)
  | read :: rest, feeding =>
      let sent := feeding.sent + read.1.length
      if upload.size < sent then
        (.error (.usage ("the body is longer than the size " ++ toString upload.size ++
          " the upload was created with")), feeding.refuse "the body is too long")
      else
        let made := match feeding.encryptor with
          | some encryptor =>
              let filled := fillCipher packages encryptor (feeding.queue ++ read.1) read.1.length
              (filled.1, some filled.2.1, filled.2.2)
          | none => (read.1, none, feeding.queue)
        match feeding.sink.send (.ok made.1) with
        | none => (.error (.network "the server stopped reading the upload"), feeding.sink)
        | some sink =>
            feedLoop ending rest
              { encryptor := made.2.1, queue := made.2.2, sent := sent, sink := sink }

/-- A body that comes in by its reads. -/
def feedUploadBody (key : K) (reads : List Read) (ending : BodyEnd)
    (closesAfter : Option Nat) :
    Except SdkError (Option (EncryptionInfo K)) × Sink (Except String (List UInt8)) :=
  feedLoop packages upload ending reads {
    encryptor := if upload.encrypted then some (.new packages key) else none
    queue := []
    sent := 0
    sink := { sent := [], closesAfter := closesAfter } }

end Uploads

structure DownloadEnd where
  verified : Verification
  plainLen : Nat

section Downloads

variable {K σ : Type} (packages : Packages K σ)

/-- What the loop of a download has at hand. -/
structure Draining (σ : Type) where
  decryptor : Decryptor σ
  queue : List UInt8
  plainLen : Nat
  sink : Sink (List UInt8)

/-- The queue is read until it is empty. -/
def drain (draining : Draining σ) : Except SdkError (Draining σ) × Sink (List UInt8) :=
  if _hempty : draining.queue = [] then
    (.ok draining, draining.sink)
  else
    let read := draining.decryptor.read packages draining.queue piece
    match read.1 with
    | .error error => (.error (.integrity ("decrypting: " ++ error)), draining.sink)
    | .ok plain =>
        match draining.sink.send plain with
        | none => (.error (.usage "the download was stopped"), draining.sink)
        | some sink =>
            drain {
              decryptor := read.2.1
              queue := read.2.2
              plainLen := draining.plainLen + plain.length
              sink := sink }
termination_by draining.queue.length
decreasing_by
  have hpos := List.length_pos_of_ne_nil ‹_›
  have hpiece := piece_pos
  rw [Decryptor.read_queue, List.length_drop]
  omega

/-- The rest of the chunks, and then a last read for the comparison of the hash. -/
def drainLoop (ending : BodyEnd) : List (List UInt8) → Draining σ →
    Except SdkError DownloadEnd × Sink (List UInt8)
  | [], draining =>
      match ending with
      | .broke => (.error (.network "media download: the body broke"), draining.sink)
      | .eof =>
          (.ok {
            verified := match (draining.decryptor.read packages draining.queue piece).1 with
              | .ok _ => .matched
              | .error _ => .mismatched
            plainLen := draining.plainLen }, draining.sink)
  | chunk :: rest, draining =>
      match drain packages { draining with queue := draining.queue ++ chunk } with
      | (.error error, sink) => (.error error, sink)
      | (.ok draining, _) => drainLoop ending rest draining

/-- A download that comes in by its chunks, of which some may be empty. -/
def streamDecrypted (info : EncryptionInfo K) (chunks : List (List UInt8)) (ending : BodyEnd)
    (closesAfter : Option Nat) : Except SdkError DownloadEnd × Sink (List UInt8) :=
  let sink : Sink (List UInt8) := { sent := [], closesAfter := closesAfter }
  match Decryptor.new packages info with
  | .error error => (.error (.integrity ("the file description: " ++ error)), sink)
  | .ok decryptor =>
      drainLoop packages ending chunks {
        decryptor := decryptor
        queue := []
        plainLen := 0
        sink := sink }

end Downloads

section UploadProofs

variable {K σ : Type} {packages : Packages K σ} {upload : MatrixUpload} {key : K}
  {whole : List UInt8} {feeding : Feeding K σ} {ending : BodyEnd}

/-- What is to be sent of a body. -/
def encoded (packages : Packages K σ) (upload : MatrixUpload) (key : K) (body : List UInt8) :
    List UInt8 :=
  if upload.encrypted then (run packages.encryptStep (packages.start key) body).1 else body

/-- The encryptor that has read a body. -/
def encryptorAt (packages : Packages K σ) (key : K) (body : List UInt8) : Encryptor K σ where
  key := key
  state := (run packages.encryptStep (packages.start key) body).2
  hashed := (run packages.encryptStep (packages.start key) body).1

theorem length_encoded (body : List UInt8) :
    (encoded packages upload key body).length = body.length := by
  rw [encoded]
  split_ifs
  · exact StreamCipher.length_run body
  · rfl

theorem encoded_prefix (first rest : List UInt8) :
    encoded packages upload key first <+: encoded packages upload key (first ++ rest) := by
  rw [encoded, encoded]
  split_ifs
  · rw [StreamCipher.run_append]
    exact List.prefix_append _ _
  · exact List.prefix_append _ _

theorem fillCipher_nil (encryptor : Encryptor K σ) (space : Nat) :
    fillCipher packages encryptor [] space = ([], encryptor, []) := by
  rw [fillCipher]
  split_ifs
  · rfl
  · simp [Encryptor.read, readQueued]

/-- A buffer with room for the queue takes all of it, in one turn. -/
theorem fillCipher_eq {encryptor : Encryptor K σ} {queue : List UInt8} {space : Nat}
    (hspace : queue.length ≤ space) :
    fillCipher packages encryptor queue space =
      ((run packages.encryptStep encryptor.state queue).1,
        { encryptor with
          state := (run packages.encryptStep encryptor.state queue).2
          hashed := encryptor.hashed ++ (run packages.encryptStep encryptor.state queue).1 },
        []) := by
  cases queue with
  | nil => simp [fillCipher_nil]
  | cons byte queue =>
    have hread : encryptor.read packages (byte :: queue) space =
        ((run packages.encryptStep encryptor.state (byte :: queue)).1,
          { encryptor with
            state := (run packages.encryptStep encryptor.state (byte :: queue)).2
            hashed := encryptor.hashed ++
              (run packages.encryptStep encryptor.state (byte :: queue)).1 }, []) := by
      rw [Encryptor.read, readQueued, List.take_of_length_le hspace, List.drop_of_length_le hspace]
    have hpos : ¬ space = 0 := by
      rw [List.length_cons] at hspace
      omega
    have hgot : ¬ (encryptor.read packages (byte :: queue) space).1.length = 0 := by
      rw [hread, StreamCipher.length_run]
      exact Nat.succ_ne_zero _
    rw [fillCipher, if_neg hpos]
    simp only [dif_neg hgot]
    rw [hread]
    simp only [fillCipher_nil, List.append_nil]

/-- The loop of an upload after a part of the body. -/
structure Fed (packages : Packages K σ) (upload : MatrixUpload) (key : K) (body : List UInt8)
    (feeding : Feeding K σ) : Prop where
  encryptor : feeding.encryptor =
    if upload.encrypted then some (encryptorAt packages key body) else none
  queue : feeding.queue = []
  sent : feeding.sent = body.length
  le_size : body.length ≤ upload.size
  pieces : ∃ pieces : List (List UInt8), feeding.sink.sent = pieces.map .ok ∧
    pieces.flatten = encoded packages upload key body

/-- What is made of one read, by the encryptor or as it is. -/
theorem made_of_read (h : Fed packages upload key whole feeding) (read : List UInt8) :
    ∃ part, encoded packages upload key (whole ++ read) =
        encoded packages upload key whole ++ part ∧
      (match feeding.encryptor with
        | some encryptor =>
          let filled := fillCipher packages encryptor (feeding.queue ++ read) read.length
          (filled.1, some filled.2.1, filled.2.2)
        | none => (read, none, feeding.queue)) =
        (part, if upload.encrypted then some (encryptorAt packages key (whole ++ read)) else none,
          []) := by
  rw [h.encryptor, h.queue]
  cases hencrypted : upload.encrypted with
  | false =>
    refine ⟨read, ?_, rfl⟩
    rw [encoded, encoded, hencrypted]
    rfl
  | true =>
    refine ⟨(run packages.encryptStep (encryptorAt packages key whole).state read).1, ?_, ?_⟩
    · rw [encoded, encoded, hencrypted, if_pos rfl, if_pos rfl, StreamCipher.run_append]
      rfl
    · simp only [if_true, List.nil_append]
      rw [fillCipher_eq le_rfl]
      simp only [encryptorAt, StreamCipher.run_append]

/-- One read makes one more piece, unless the request is over. -/
theorem feedLoop_cons (h : Fed packages upload key whole feeding) (read : Read) (rest : List Read)
    (hsize : whole.length + read.1.length ≤ upload.size) :
    (∃ feeding', Fed packages upload key (whole ++ read.1) feeding' ∧
        feeding'.sink.closesAfter = feeding.sink.closesAfter ∧
        feedLoop packages upload ending (read :: rest) feeding =
          feedLoop packages upload ending rest feeding') ∨
      (feeding.sink.closesAfter ≠ none ∧
        feedLoop packages upload ending (read :: rest) feeding =
          (.error (.network "the server stopped reading the upload"), feeding.sink)) := by
  obtain ⟨pieces, hsent, hpieces⟩ := h.pieces
  obtain ⟨part, hpart, hmade⟩ := made_of_read h read.1
  rw [feedLoop, hmade]
  simp only [h.sent, if_neg (Nat.not_lt.mpr hsize)]
  cases hsend : feeding.sink.send (.ok part) with
  | none =>
    refine .inr ⟨fun hopen => ?_, rfl⟩
    rw [StreamCipher.Sink.send_of_open hopen] at hsend
    cases hsend
  | some sink =>
    obtain ⟨hsink, hcloses⟩ := StreamCipher.Sink.send_eq_some hsend
    refine .inl ⟨_, ⟨rfl, rfl, ?_, ?_, pieces ++ [part], ?_, ?_⟩, hcloses, rfl⟩
    · rw [List.length_append]
    · rw [List.length_append]
      exact hsize
    · rw [hsink, hsent, List.map_append]
      rfl
    · rw [List.flatten_append, hpieces, hpart, List.flatten_cons, List.flatten_nil,
        List.append_nil]

/-- How an upload ends: with the whole body of the right size in the request, or with an error
behind a part of it. -/
inductive FeedEnd (packages : Packages K σ) (upload : MatrixUpload) (key : K)
    (body : List UInt8) (ending : BodyEnd) (closesAfter : Option Nat) :
    Except SdkError (Option (EncryptionInfo K)) × Sink (Except String (List UInt8)) → Prop where
  | complete {sink : Sink (Except String (List UInt8))} (pieces : List (List UInt8))
      (heof : ending = .eof) (hsize : body.length = upload.size)
      (hsent : sink.sent = pieces.map .ok)
      (hpieces : pieces.flatten = encoded packages upload key body) :
      FeedEnd packages upload key body ending closesAfter
        (.ok (if upload.encrypted then
          some { key := key, sha256 := packages.sha256 (encoded packages upload key body) }
        else none), sink)
  | refused {sink : Sink (Except String (List UInt8))} (error : SdkError)
      (pieces : List (List UInt8)) (reported : List String)
      (hsent : sink.sent = pieces.map .ok ++ reported.map .error)
      (hpieces : pieces.flatten <+: encoded packages upload key body)
      (hle : pieces.flatten.length ≤ upload.size)
      (hwrong : ¬ (ending = .eof ∧ body.length = upload.size))
      (hreported : reported.length ≤ 1) (hopen : closesAfter = none → reported ≠ []) :
      FeedEnd packages upload key body ending closesAfter (.error error, sink)
  | stopped {sink : Sink (Except String (List UInt8))} (error : SdkError)
      (pieces : List (List UInt8)) (hsent : sink.sent = pieces.map .ok)
      (hpieces : pieces.flatten <+: encoded packages upload key body)
      (hle : pieces.flatten.length ≤ upload.size) (hclosed : closesAfter ≠ none) :
      FeedEnd packages upload key body ending closesAfter (.error error, sink)

theorem refuse_sent (feeding : Feeding K σ) (message : String) :
    ∃ reported : List String,
      (feeding.refuse message).sent = feeding.sink.sent ++ reported.map .error ∧
        reported.length ≤ 1 ∧ (feeding.sink.closesAfter = none → reported ≠ []) := by
  rw [Feeding.refuse]
  cases hsend : feeding.sink.send (.error message) with
  | none =>
    refine ⟨[], (List.append_nil _).symm, Nat.zero_le 1, fun hopen => ?_⟩
    rw [StreamCipher.Sink.send_of_open hopen] at hsend
    cases hsend
  | some sink => exact ⟨[message], (StreamCipher.Sink.send_eq_some hsend).1, le_rfl, fun _ => nofun⟩

/-- A refusal after a part of the body that came in right. -/
theorem FeedEnd.of_refuse (h : Fed packages upload key whole feeding) (error : SdkError)
    (message : String) (rest : List UInt8)
    (hwrong : ¬ (ending = .eof ∧ (whole ++ rest).length = upload.size)) :
    FeedEnd packages upload key (whole ++ rest) ending feeding.sink.closesAfter
      (.error error, feeding.refuse message) := by
  obtain ⟨pieces, hsent, hpieces⟩ := h.pieces
  obtain ⟨reported, hreport, hone, hopen⟩ := refuse_sent feeding message
  refine .refused error pieces reported (hsent ▸ hreport) ?_ ?_ hwrong hone hopen
  · rw [hpieces]
    exact encoded_prefix whole rest
  · rw [hpieces, length_encoded]
    exact h.le_size

/-- The rest of the reads, by the number of them. -/
theorem feedLoop_ends (reads : List Read) (h : Fed packages upload key whole feeding) :
    FeedEnd packages upload key (whole ++ (reads.map Subtype.val).flatten) ending feeding.sink.closesAfter
      (feedLoop packages upload ending reads feeding) := by
  induction reads generalizing whole feeding with
  | nil =>
    rw [List.map_nil, List.flatten_nil, feedLoop.eq_def]
    cases ending with
    | broke => exact .of_refuse h _ _ [] (fun hright => nomatch hright.1)
    | eof =>
      simp only
      split_ifs with hshort
      · refine .of_refuse h _ _ [] fun hright => ?_
        rw [List.append_nil] at hright
        rw [h.sent, hright.2] at hshort
        exact lt_irrefl _ hshort
      · obtain ⟨pieces, hsent, hpieces⟩ := h.pieces
        have hsize : whole.length = upload.size := by
          have hle := h.le_size
          rw [h.sent] at hshort
          omega
        rw [List.append_nil, h.encryptor]
        have hfinish : Option.map (Encryptor.finish packages)
            (if upload.encrypted then some (encryptorAt packages key whole) else none) =
            if upload.encrypted then
              some { key := key, sha256 := packages.sha256 (encoded packages upload key whole) }
            else none := by
          rw [encoded]
          split_ifs <;> rfl
        rw [hfinish]
        exact .complete pieces rfl hsize hsent hpieces
  | cons read rest ih =>
    rw [List.map_cons, List.flatten_cons]
    by_cases hsize : whole.length + read.1.length ≤ upload.size
    · rcases feedLoop_cons h read rest hsize with
        ⟨feeding', hfed, hcloses, heq⟩ | ⟨hclosed, heq⟩
      · rw [heq, ← hcloses, ← List.append_assoc]
        exact ih hfed
      · obtain ⟨pieces, hsent, hpieces⟩ := h.pieces
        rw [heq]
        refine .stopped _ pieces hsent ?_ ?_ hclosed
        · rw [hpieces]
          exact encoded_prefix _ _
        · rw [hpieces, length_encoded]
          exact h.le_size
    · rw [feedLoop]
      simp only [h.sent, if_pos (Nat.not_le.mp hsize)]
      refine .of_refuse h _ _ _ fun hright => hsize ?_
      rw [← hright.2, List.length_append, List.length_append]
      omega

theorem feedUploadBody_ends (packages : Packages K σ) (upload : MatrixUpload) (key : K)
    (reads : List Read) (ending : BodyEnd) (closesAfter : Option Nat) :
    FeedEnd packages upload key (reads.map Subtype.val).flatten ending closesAfter
      (feedUploadBody packages upload key reads ending closesAfter) := by
  have hstart : Fed packages upload key [] {
      encryptor := if upload.encrypted then some (.new packages key) else none
      queue := []
      sent := 0
      sink := { sent := [], closesAfter := closesAfter } } := by
    refine ⟨rfl, rfl, rfl, Nat.zero_le _, [], rfl, ?_⟩
    rw [encoded]
    split_ifs <;> rfl
  exact feedLoop_ends reads hstart

end UploadProofs

section DownloadProofs

variable {K σ : Type} {packages : Packages K σ} {start : σ} {expected whole : List UInt8}
  {draining : Draining σ} {ending : BodyEnd}

/-- The loop of a download after a part of the bytes. -/
structure Drained (packages : Packages K σ) (start : σ) (expected whole : List UInt8)
    (draining : Draining σ) : Prop where
  decryptor : draining.decryptor =
    { state := (run packages.decryptStep start whole).2, hashed := whole, expected := expected }
  plainLen : draining.plainLen = whole.length
  sent : draining.sink.sent.flatten = (run packages.decryptStep start whole).1

/-- A read of what is in the queue never looks at the hash. -/
theorem read_of_ne_nil (decryptor : Decryptor σ) {queue : List UInt8} (hqueue : queue ≠ []) :
    decryptor.read packages queue piece =
      (.ok (run packages.decryptStep decryptor.state (queue.take piece)).1,
        { decryptor with
          state := (run packages.decryptStep decryptor.state (queue.take piece)).2
          hashed := decryptor.hashed ++ queue.take piece }, queue.drop piece) := by
  rw [Decryptor.read, readQueued, if_neg]
  intro hnone
  rcases List.take_eq_nil_iff.mp hnone with hzero | hempty
  · exact absurd hzero piece_pos.ne'
  · exact hqueue hempty

/-- A queue is drained to its end, unless nobody takes the bytes any more. -/
theorem drain_ends (h : Drained packages start expected whole draining) :
    (∃ draining', drain packages draining = (.ok draining', draining'.sink) ∧
        Drained packages start expected (whole ++ draining.queue) draining' ∧
        draining'.queue = [] ∧ draining'.sink.closesAfter = draining.sink.closesAfter) ∨
      (∃ error sink, drain packages draining = (.error error, sink) ∧
        sink.sent.flatten <+: (run packages.decryptStep start (whole ++ draining.queue)).1 ∧
        draining.sink.closesAfter ≠ none) := by
  induction hlength : draining.queue.length using Nat.strong_induction_on
    generalizing whole draining with
  | _ length ih =>
    by_cases hempty : draining.queue = []
    · refine .inl ⟨draining, ?_, ?_, hempty, rfl⟩
      · rw [drain, dif_pos hempty]
      · rw [hempty, List.append_nil]
        exact h
    · rw [drain, dif_neg hempty]
      simp only [read_of_ne_nil _ hempty]
      cases hsend : draining.sink.send
          (run packages.decryptStep draining.decryptor.state (draining.queue.take piece)).1 with
      | none =>
        refine .inr ⟨_, _, rfl, ?_, fun hopen => ?_⟩
        · rw [h.sent, StreamCipher.run_append]
          exact List.prefix_append _ _
        · rw [StreamCipher.Sink.send_of_open hopen] at hsend
          cases hsend
      | some sink =>
        obtain ⟨hsink, hcloses⟩ := StreamCipher.Sink.send_eq_some hsend
        have hstep : Drained packages start expected (whole ++ draining.queue.take piece) {
            decryptor := {
              state := (run packages.decryptStep draining.decryptor.state
                (draining.queue.take piece)).2
              hashed := draining.decryptor.hashed ++ draining.queue.take piece
              expected := draining.decryptor.expected }
            queue := draining.queue.drop piece
            plainLen := draining.plainLen + (run packages.decryptStep
              draining.decryptor.state (draining.queue.take piece)).1.length
            sink := sink } := by
          constructor
          case decryptor => simp only [h.decryptor, StreamCipher.run_append]
          case plainLen => rw [StreamCipher.length_run, h.plainLen, List.length_append]
          case sent =>
            rw [hsink, List.flatten_append, h.sent, h.decryptor, StreamCipher.run_append]
            simp
        have hshorter : (draining.queue.drop piece).length < length := by
          have hpos := List.length_pos_of_ne_nil hempty
          have hpiece := piece_pos
          rw [List.length_drop]
          omega
        have hrest := ih _ hshorter hstep rfl
        rw [List.append_assoc, List.take_append_drop] at hrest
        rw [← hcloses]
        exact hrest

/-- How a download ends: with all bytes decrypted and the hash compared, or with an error behind a
part of them. -/
inductive DrainEnd (packages : Packages K σ) (start : σ) (expected body : List UInt8)
    (ending : BodyEnd) (closesAfter : Option Nat) :
    Except SdkError DownloadEnd × Sink (List UInt8) → Prop where
  | complete {sink : Sink (List UInt8)} (heof : ending = .eof)
      (hsent : sink.sent.flatten = (run packages.decryptStep start body).1) :
      DrainEnd packages start expected body ending closesAfter
        (.ok {
          verified := if packages.sha256 body = expected then .matched else .mismatched
          plainLen := body.length }, sink)
  | failed {sink : Sink (List UInt8)} (error : SdkError)
      (hsent : sink.sent.flatten <+: (run packages.decryptStep start body).1)
      (hwhy : ending = .broke ∨ closesAfter ≠ none) :
      DrainEnd packages start expected body ending closesAfter (.error error, sink)

theorem drainLoop_ends (chunks : List (List UInt8))
    (h : Drained packages start expected whole draining) (hqueue : draining.queue = []) :
    DrainEnd packages start expected (whole ++ chunks.flatten) ending draining.sink.closesAfter
      (drainLoop packages ending chunks draining) := by
  induction chunks generalizing whole draining with
  | nil =>
    rw [List.flatten_nil, List.append_nil, drainLoop.eq_def]
    cases ending with
    | broke => exact .failed _ (h.sent ▸ List.prefix_rfl) (.inl rfl)
    | eof =>
      have hverified : (match (draining.decryptor.read packages draining.queue piece).1 with
          | .ok _ => Verification.matched
          | .error _ => Verification.mismatched) =
          if packages.sha256 whole = expected then .matched else .mismatched := by
        rw [hqueue, h.decryptor, Decryptor.read, readQueued, List.take_nil, if_pos rfl]
        split_ifs <;> rfl
      simp only [hverified, h.plainLen]
      exact .complete rfl h.sent
  | cons chunk rest ih =>
    have hchunk : Drained packages start expected whole
        { draining with queue := draining.queue ++ chunk } :=
      ⟨h.decryptor, h.plainLen, h.sent⟩
    rw [List.flatten_cons, ← List.append_assoc, drainLoop]
    rcases drain_ends hchunk with
      ⟨draining', heq, hdrained, hempty, hcloses⟩ | ⟨error, sink, heq, hsent, hclosed⟩
    · rw [hqueue, List.nil_append] at hdrained heq
      simp only [hqueue, List.nil_append, heq]
      rw [← hcloses]
      exact ih hdrained hempty
    · rw [hqueue, List.nil_append] at hsent heq
      simp only [hqueue, List.nil_append, heq]
      refine .failed _ (hsent.trans ?_) (.inr hclosed)
      rw [StreamCipher.run_append (whole ++ chunk)]
      exact List.prefix_append _ _

/-- However the bytes arrive, an upload puts the encryption of its body into the request, and
brings no error only where the body has its size; a download hands on the decryption of all it got,
and its verdict is that of the hash. -/
theorem attachments_exact (packages : Packages K σ) :
    (∀ (upload : MatrixUpload) key (reads : List Read) ending closesAfter,
      FeedEnd packages upload key (reads.map Subtype.val).flatten ending closesAfter
        (feedUploadBody packages upload key reads ending closesAfter)) ∧
    ∀ (info : EncryptionInfo K) chunks ending closesAfter,
      (∀ error, packages.startDecrypt info.key = .error error →
        streamDecrypted packages info chunks ending closesAfter =
          (.error (.integrity ("the file description: " ++ error)),
            { sent := [], closesAfter := closesAfter })) ∧
      ∀ start, packages.startDecrypt info.key = .ok start →
        DrainEnd packages start info.sha256 chunks.flatten ending closesAfter
          (streamDecrypted packages info chunks ending closesAfter) := by
  refine ⟨fun upload key reads ending closesAfter =>
    feedUploadBody_ends packages upload key reads ending closesAfter,
    fun info chunks ending closesAfter => ⟨fun error hstart => ?_, fun start hstart => ?_⟩⟩
  · rw [streamDecrypted, Decryptor.new, hstart]
  · rw [streamDecrypted, Decryptor.new, hstart]
    have hdrained : Drained packages start info.sha256 [] {
        decryptor := { state := start, hashed := [], expected := info.sha256 }
        queue := []
        plainLen := 0
        sink := { sent := [], closesAfter := closesAfter } } := ⟨rfl, rfl, rfl⟩
    exact drainLoop_ends chunks hdrained rfl

end DownloadProofs

end MatrixMedia
end WbfMatrixClient
