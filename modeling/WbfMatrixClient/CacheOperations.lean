import WbfMatrixClient.EventStoring
import WbfMatrixClient.RoomList
import WbfMatrixClient.Lib.Runs

/-!
# Operations of the cache

All that writes to the cache, as one step function. An operation that fails
leaves the cache as it was.
-/

namespace WbfMatrixClient

structure CachePackages where
  content : ContentPackages
  number : NumberPackages

inductive Operation where
  | upsertEvents (user room : String) (events : List IncomingEvent)
  | hideMessage (user room eventId : String)
  | mediaBegin (mxc : String) (description : MediaDescription)
  | mediaRememberSource (manifest : Manifest) (sourceUri : String)
  | mediaProgress (mxc : String) (segmentsWritten chunkSize : Nat)
  | mediaFinish (mxc poolFile : String) (segmentsWritten fileSize bytesOnDisk : Nat)
      (verified : Verification)
  | mediaReset (mxc : String)
  | mediaLinkEvent (user room eventId : String)
  | mediaDelete (mxc : String)
  | upsertConversations (user : String) (conversations : List Conversation)
  | recordJoinedRooms (user : String) (roomIds : List String)
  | recordRoomEncryption (roomId : String) (encrypted : Bool)
  | recordMembership (user roomId : String) (membership : Membership)
      (onlyIfNow : Option Membership)
  | recordInvite (user : String) (invite : InviteItem)
  | applyInviteRound (user : String) (round : List (Nat × InviteItem))
      (touched : List (String × Nat)) (departed : List (String × Membership))
  | recordWrittenState (user roomId : String) (written : Json)
  | forgetAccount (user : String)
  | forgetRoom (user room : String)

namespace Operation

/-- Only forgetting deletes events. -/
def forgets : Operation → Bool
  | forgetAccount _ => true
  | forgetRoom _ _ => true
  | _ => false

def onMedia : Operation → Bool
  | mediaBegin _ _ => true
  | mediaRememberSource _ _ => true
  | mediaProgress _ _ _ => true
  | mediaFinish _ _ _ _ _ _ => true
  | mediaReset _ => true
  | mediaLinkEvent _ _ _ => true
  | mediaDelete _ => true
  | _ => false

end Operation

namespace Cache

def step (packages : CachePackages) (cache : Cache) : Operation → Cache
  | .upsertEvents user room events => cache.upsertEvents packages.content user room events
  | .hideMessage user room eventId => cache.hideMessage user room eventId
  | .mediaBegin mxc description => (cache.mediaBegin mxc description).getD cache
  | .mediaRememberSource manifest sourceUri =>
      (cache.mediaRememberSource manifest sourceUri).getD cache
  | .mediaProgress mxc segmentsWritten chunkSize =>
      cache.mediaProgress mxc segmentsWritten chunkSize
  | .mediaFinish mxc poolFile segmentsWritten fileSize bytesOnDisk verified =>
      cache.mediaFinish mxc poolFile segmentsWritten fileSize bytesOnDisk verified
  | .mediaReset mxc => cache.mediaReset mxc
  | .mediaLinkEvent user room eventId =>
      ((cache.mediaLinkEvent packages.content user room eventId).map Prod.fst).getD cache
  | .mediaDelete mxc => cache.mediaDelete mxc
  | .upsertConversations user conversations => cache.upsertConversations user conversations
  | .recordJoinedRooms user roomIds => cache.recordJoinedRooms user roomIds
  | .recordRoomEncryption roomId encrypted => cache.recordRoomEncryption roomId encrypted
  | .recordMembership user roomId membership onlyIfNow =>
      (cache.recordMembership user roomId membership onlyIfNow).1
  | .recordInvite user invite => writeInvite user cache invite
  | .applyInviteRound user round touched departed =>
      cache.applyInviteRound user round touched departed
  | .recordWrittenState user roomId written =>
      (cache.recordWrittenState packages.number user roomId written).1
  | .forgetAccount user => (cache.forgetAccount user).1
  | .forgetRoom user room => (cache.forgetRoom user room).1

/-- What is done to media leaves the other tables alone. -/
theorem step_onMedia (packages : CachePackages) (cache : Cache) {operation : Operation}
    (h : operation.onMedia = true) :
    cache.step packages operation = { cache with
      media := (cache.step packages operation).media
      eventMedia := (cache.step packages operation).eventMedia } := by
  cases operation <;> try cases h
  case mediaBegin mxc description =>
    rw [step, mediaBegin]
    cases mediaRowId cache.media mxc description <;> rfl
  case mediaRememberSource manifest sourceUri =>
    rw [step, mediaRememberSource]
    cases MediaDescription.ofChunkedBlock manifest.block with
    | none => rfl
    | some description =>
      simp only
      cases mediaRowId cache.media manifest.mxc description <;> rfl
  case mediaLinkEvent user room eventId =>
    rw [step, mediaLinkEvent]
    cases findEvent cache.events room eventId with
    | none => rfl
    | some row =>
      simp only
      split_ifs
      · cases hlinked : linkMediaOf packages.content cache row with
        | none => rfl
        | some linked => exact linkMediaOf_tables hlinked
      · rfl
  all_goals rfl

end Cache

end WbfMatrixClient
