import WbfMatrixClient.AccountNames
import WbfMatrixClient.DeviceKeys
import WbfMatrixClient.Lib.FormText
import WbfMatrixClient.RoomState
import WbfMatrixClient.TextSplits

/-!
# Endpoints of the Matrix API

An endpoint has a path with variables in it, and names for the query. The variables of a call are
checked, and then each segment of the path is pushed onto the address of the server. What an
address is and how a segment is written into it comes from elsewhere.

Each value of a variable is read back from the address as it was given, so the values cannot
change which endpoint is called.
-/

namespace WbfMatrixClient
namespace MatrixEndpoints

open AccountNames (Text)

/-- How a value, and a text in quotes, are shown in a message. -/
structure Shown where
  display : Json → String
  quoted : String → String

structure MatrixEndpoint where
  name : String
  path : String
  query : List String

def createRoom : MatrixEndpoint := ⟨"CreateRoom", "/_matrix/client/v3/createRoom", []⟩

def join : MatrixEndpoint :=
  ⟨"Join", "/_matrix/client/v3/join/{room_id_or_alias}", ["via", "server_name"]⟩

def leave : MatrixEndpoint := ⟨"Leave", "/_matrix/client/v3/rooms/{room_id}/leave", []⟩

def forget : MatrixEndpoint := ⟨"Forget", "/_matrix/client/v3/rooms/{room_id}/forget", []⟩

def invite : MatrixEndpoint := ⟨"Invite", "/_matrix/client/v3/rooms/{room_id}/invite", []⟩

def kick : MatrixEndpoint := ⟨"Kick", "/_matrix/client/v3/rooms/{room_id}/kick", []⟩

def ban : MatrixEndpoint := ⟨"Ban", "/_matrix/client/v3/rooms/{room_id}/ban", []⟩

def unban : MatrixEndpoint := ⟨"Unban", "/_matrix/client/v3/rooms/{room_id}/unban", []⟩

def joinedRooms : MatrixEndpoint := ⟨"JoinedRooms", "/_matrix/client/v3/joined_rooms", []⟩

def members : MatrixEndpoint :=
  ⟨"Members", "/_matrix/client/v3/rooms/{room_id}/members", ["membership", "not_membership"]⟩

def getAlias : MatrixEndpoint := ⟨"GetAlias", "/_matrix/client/v3/directory/room/{room_alias}", []⟩

def setAlias : MatrixEndpoint := ⟨"SetAlias", "/_matrix/client/v3/directory/room/{room_alias}", []⟩

def deleteAlias : MatrixEndpoint :=
  ⟨"DeleteAlias", "/_matrix/client/v3/directory/room/{room_alias}", []⟩

def upgrade : MatrixEndpoint := ⟨"Upgrade", "/_matrix/client/v3/rooms/{room_id}/upgrade", []⟩

def knock : MatrixEndpoint :=
  ⟨"Knock", "/_matrix/client/v3/knock/{room_id_or_alias}", ["via", "server_name"]⟩

def joinedMembers : MatrixEndpoint :=
  ⟨"JoinedMembers", "/_matrix/client/v3/rooms/{room_id}/joined_members", []⟩

def getVisibility : MatrixEndpoint :=
  ⟨"GetVisibility", "/_matrix/client/v3/directory/list/room/{room_id}", []⟩

def setVisibility : MatrixEndpoint :=
  ⟨"SetVisibility", "/_matrix/client/v3/directory/list/room/{room_id}", []⟩

def summary : MatrixEndpoint :=
  ⟨"Summary", "/_matrix/client/v1/room_summary/{room_id_or_alias}", ["via"]⟩

def hierarchy : MatrixEndpoint :=
  ⟨"Hierarchy", "/_matrix/client/v1/rooms/{room_id}/hierarchy", ["from", "limit", "max_depth", "suggested_only"]⟩

def mutualRooms : MatrixEndpoint :=
  ⟨"MutualRooms", "/_matrix/client/v1/mutual_rooms", ["user_id", "from"]⟩

def publicRooms : MatrixEndpoint :=
  ⟨"PublicRooms", "/_matrix/client/v3/publicRooms", ["limit", "since", "server"]⟩

def publicRoomsFiltered : MatrixEndpoint :=
  ⟨"PublicRoomsFiltered", "/_matrix/client/v3/publicRooms", ["server"]⟩

def roomAliases : MatrixEndpoint :=
  ⟨"RoomAliases", "/_matrix/client/v3/rooms/{room_id}/aliases", []⟩

def getState : MatrixEndpoint := ⟨"GetState", "/_matrix/client/v3/rooms/{room_id}/state", []⟩

def getStateEvent : MatrixEndpoint :=
  ⟨"GetStateEvent", "/_matrix/client/v3/rooms/{room_id}/state/{event_type}/{state_key}", []⟩

def setStateEvent : MatrixEndpoint :=
  ⟨"SetStateEvent", "/_matrix/client/v3/rooms/{room_id}/state/{event_type}/{state_key}", []⟩

def redact : MatrixEndpoint :=
  ⟨"Redact", "/_matrix/client/v3/rooms/{room_id}/redact/{event_id}/{txn_id}", []⟩

def receipt : MatrixEndpoint :=
  ⟨"Receipt", "/_matrix/client/v3/rooms/{room_id}/receipt/{receipt_type}/{event_id}", []⟩

def signingKeysUpload : MatrixEndpoint :=
  ⟨"SigningKeysUpload", "/_matrix/client/v3/keys/device_signing/upload", []⟩

def createBackupVersion : MatrixEndpoint :=
  ⟨"CreateBackupVersion", "/_matrix/client/v3/room_keys/version", []⟩

def latestBackupInfo : MatrixEndpoint :=
  ⟨"LatestBackupInfo", "/_matrix/client/v3/room_keys/version", []⟩

def addBackupKeys : MatrixEndpoint :=
  ⟨"AddBackupKeys", "/_matrix/client/v3/room_keys/keys", ["version"]⟩

def getBackupKeys : MatrixEndpoint :=
  ⟨"GetBackupKeys", "/_matrix/client/v3/room_keys/keys", ["version"]⟩

def getAccountData : MatrixEndpoint :=
  ⟨"GetAccountData", "/_matrix/client/v3/user/{user_id}/account_data/{event_type}", []⟩

def setAccountData : MatrixEndpoint :=
  ⟨"SetAccountData", "/_matrix/client/v3/user/{user_id}/account_data/{event_type}", []⟩

def getRoomAccountData : MatrixEndpoint :=
  ⟨"GetRoomAccountData", "/_matrix/client/v3/user/{user_id}/rooms/{room_id}/account_data/{event_type}", []⟩

def setRoomAccountData : MatrixEndpoint :=
  ⟨"SetRoomAccountData", "/_matrix/client/v3/user/{user_id}/rooms/{room_id}/account_data/{event_type}", []⟩

def getTags : MatrixEndpoint :=
  ⟨"GetTags", "/_matrix/client/v3/user/{user_id}/rooms/{room_id}/tags", []⟩

def setTag : MatrixEndpoint :=
  ⟨"SetTag", "/_matrix/client/v3/user/{user_id}/rooms/{room_id}/tags/{tag}", []⟩

def deleteTag : MatrixEndpoint :=
  ⟨"DeleteTag", "/_matrix/client/v3/user/{user_id}/rooms/{room_id}/tags/{tag}", []⟩

def matrixEndpoints : List MatrixEndpoint :=
  [createRoom, join, leave, forget, invite, kick, ban, unban, joinedRooms, members, getAlias,
    setAlias, deleteAlias, upgrade, knock, joinedMembers, getVisibility, setVisibility, summary,
    hierarchy, mutualRooms, publicRooms, publicRoomsFiltered, roomAliases, getState,
    getStateEvent, setStateEvent, redact, receipt, signingKeysUpload, createBackupVersion,
    latestBackupInfo, addBackupKeys, getBackupKeys, getAccountData, setAccountData,
    getRoomAccountData, setRoomAccountData, getTags, setTag, deleteTag]

/-- What stands in braces. -/
def variableOf (segment : Text) : Option Text :=
  match segment with
  | '\x7b' :: rest => if rest.getLast? = some '\x7d' then some rest.dropLast else none
  | _ => none

def MatrixEndpoint.listPathVariables (endpoint : MatrixEndpoint) : List String :=
  ((endpoint.path.toList.splitOn '/').filterMap variableOf).map String.ofList

/-- The segments of a path, without the slashes before the first of them. -/
def segmentsOf (path : Text) : List Text :=
  (path.dropWhile (· = '/')).splitOn '/'

def MatrixEndpoint.segments (endpoint : MatrixEndpoint) : List Text :=
  segmentsOf endpoint.path.toList

section Check

variable (shown : Shown) (endpoint : MatrixEndpoint) (values : List (String × Json))

def bad (why : String) : SdkError :=
  .usage (endpoint.name ++ ": " ++ why)

/-- The characters that an address drops. -/
def isDropped (c : Char) : Bool :=
  c = '\t' ∨ c = '\n' ∨ c = '\r'

def checkPath : List String → Except SdkError Unit
  | [] => .ok ()
  | name :: rest =>
      match values.lookup name with
      | some (.string value) =>
          if value = "." ∨ value = ".." then
            .error (bad endpoint ("`" ++ name ++ "` cannot be " ++ shown.quoted value ++
              " (the URL would drop that segment)"))
          else if value.toList.any isDropped then
            .error (bad endpoint ("`" ++ name ++ "` cannot contain a tab, newline or carriage " ++
              "return (the URL would drop it): " ++ shown.quoted value))
          else
            checkPath rest
      | some other =>
          .error (bad endpoint ("`" ++ name ++ "` must be a string, not " ++ shown.display other))
      | none => .error (bad endpoint ("`" ++ name ++ "` is missing"))

def isScalar : Json → Bool
  | .string _ | .number _ | .decimal _ | .bool _ => true
  | _ => false

def fits : Json → Bool
  | .array items => items.all isScalar
  | other => isScalar other

def checkQuery : List (String × Json) → Except SdkError Unit
  | [] => .ok ()
  | (name, value) :: rest =>
      if name ∈ endpoint.listPathVariables then
        checkQuery rest
      else if name ∉ endpoint.query then
        .error (bad endpoint ("`" ++ name ++ "` is not a variable of this endpoint"))
      else if fits value = false then
        .error (bad endpoint ("`" ++ name ++
          "` must be a string, a number, a boolean, or a list of those"))
      else
        checkQuery rest

def checkVariables : Except SdkError Unit :=
  match checkPath shown endpoint values endpoint.listPathVariables with
  | .error error => .error error
  | .ok () => checkQuery endpoint values

end Check

/-- An address: the server with its scheme, the path and the query. -/
structure Url where
  server : Text
  path : Text
  query : Option Text

structure UrlPackage where
  parse : String → Except String Url
  canTakePath : Url → Bool
  pathSegments : Url → Option (List Text)
  popIfEmpty : Url → Url
  push : Url → Text → Url
  appendPair : Url → Text × Text → Url
  /-- The characters that stand in a segment of a path as they are. -/
  allowed : Char → Bool

/-- What is documented of addresses. A segment is written behind the path with all characters
escaped that are not allowed in it; a pair is written behind the query as a form has it. -/
structure UrlPackage.Documented (package : UrlPackage) : Prop where
  canTakePath : ∀ url rest, url.path = '/' :: rest → package.canTakePath url = true
  pathSegments : ∀ url rest, url.path = '/' :: rest →
    package.pathSegments url = some (rest.splitOn '/')
  popIfEmpty : ∀ url rest, url.path = '/' :: rest → package.popIfEmpty url =
    if rest.getLast? = some '/' then { url with path := '/' :: rest.dropLast } else url
  push : ∀ url rest segment, url.path = '/' :: rest → segment ≠ ['.'] → segment ≠ ['.', '.'] →
    segment.all (!isDropped ·) = true → package.push url segment =
      { url with path :=
          if rest = [] then '/' :: PercentText.encode package.allowed segment
          else url.path ++ '/' :: PercentText.encode package.allowed segment }
  appendPair : ∀ url pair, package.appendPair url pair =
    { url with query := some (FormText.append url.query pair) }
  allowed : ∀ c ∈ ['/', '\\', '%', '?', '#'], package.allowed c = false

section Url

variable (shown : Shown) (package : UrlPackage) (endpoint : MatrixEndpoint)
  (values : List (String × Json))

/-- The segments are pushed one after another. -/
def fill (url : Url) : List Text → Except SdkError Url
  | [] => .ok url
  | segment :: rest =>
      match variableOf segment with
      | some name =>
          match (values.lookup (String.ofList name)).bind Json.asStr with
          | some value => fill (package.push url value.toList) rest
          | none => .error (bad endpoint ("`" ++ String.ofList name ++ "` is missing"))
      | none => fill (package.push url segment) rest

def toQueryText (value : Json) : Text :=
  match value with
  | .string text => text.toList
  | other => (shown.display other).toList

/-- The pairs of one variable. -/
def queryPairs (entry : String × Json) : List (Text × Text) :=
  (match entry.2 with
    | .array items => items.map (toQueryText shown)
    | other => [toQueryText shown other]).map fun text => (entry.1.toList, text)

def toUrl (server : String) : Except SdkError Url :=
  match package.parse server with
  | .error error =>
      .error (.usage ("server " ++ shown.quoted server ++ " is not a URL: " ++ error))
  | .ok url =>
      let serverSegmentCount :=
        match package.pathSegments url with
        | none => 0
        | some segments => segments.length - if segments.getLast? = some [] then 1 else 0
      if package.canTakePath url = false then
        .error (.usage ("server " ++ shown.quoted server ++ " cannot take a path"))
      else
        match fill package endpoint values (package.popIfEmpty url) endpoint.segments with
        | .error error => .error error
        | .ok url =>
            let filledSegmentCount :=
              match package.pathSegments url with
              | none => 0
              | some segments => segments.length
            if filledSegmentCount ≠ serverSegmentCount + endpoint.segments.length then
              .error (bad endpoint ("the filled path " ++ shown.quoted (String.ofList url.path) ++
                " does not have the template's segments"))
            else
              .ok (((values.filter fun entry => entry.1 ∈ endpoint.query).flatMap
                (queryPairs shown)).foldl package.appendPair url)

end Url

/-- A segment that is written into an address as one segment. -/
def Pushable (segment : Text) : Prop :=
  segment ≠ ['.'] ∧ segment ≠ ['.', '.'] ∧ segment.all (!isDropped ·) = true

instance (segment : Text) : Decidable (Pushable segment) :=
  inferInstanceAs (Decidable (_ ∧ _))

/-- A path that begins with a name, and has no variable that the query has as well. -/
def wellFormed (entry : Text × List String) : Bool :=
  (segmentsOf entry.1).all (fun segment => Pushable segment) &&
    (segmentsOf entry.1).head?.any (fun first => first ≠ [] ∧ variableOf first = none) &&
    ((segmentsOf entry.1).filterMap variableOf).all fun name => String.ofList name ∉ entry.2

/-- Two templates that can be filled to the same path. -/
def meet : List Text → List Text → Bool
  | [], [] => true
  | a :: as, b :: bs => ((variableOf a).isSome || (variableOf b).isSome || a == b) && meet as bs
  | _, _ => false

/-- The paths and queries of endpoints, with the paths as lists. -/
def ReadAs (endpoints : List MatrixEndpoint) (table : List (Text × List String)) : Prop :=
  endpoints.map (fun endpoint => (endpoint.path.toList, endpoint.query)) = table

theorem ReadAs.nil : ReadAs [] [] := rfl

theorem ReadAs.cons {endpoint : MatrixEndpoint} {endpoints : List MatrixEndpoint} {path : Text}
    {table : List (Text × List String)} (hpath : endpoint.path = String.ofList path)
    (h : ReadAs endpoints table) :
    ReadAs (endpoint :: endpoints) ((path, endpoint.query) :: table) := by
  rw [ReadAs] at h ⊢
  rw [List.map_cons, h, hpath, String.toList_ofList]

theorem exists_table :
    ∃ table, ReadAs matrixEndpoints table ∧ table.all wellFormed = true ∧
      (table.all fun a => table.all fun b =>
        !meet (segmentsOf a.1) (segmentsOf b.1) || a.1 == b.1) = true := by
  apply Exists.intro
  apply And.intro
  · dsimp only [matrixEndpoints]
    repeat apply ReadAs.cons (by rfl)
    exact ReadAs.nil
  · decide +kernel

section Table

variable {endpoint endpoint' : MatrixEndpoint}

theorem wellFormed_of_mem (h : endpoint ∈ matrixEndpoints) :
    wellFormed (endpoint.path.toList, endpoint.query) = true := by
  obtain ⟨table, hread, hall, -⟩ := exists_table
  have hentry : (endpoint.path.toList, endpoint.query) ∈ table := by
    rw [← hread]
    exact List.mem_map.mpr ⟨endpoint, h, rfl⟩
  exact List.all_eq_true.mp hall _ hentry

/-- Two endpoints that can be filled to the same path have the same one. -/
theorem path_eq_of_meet (h : endpoint ∈ matrixEndpoints) (h' : endpoint' ∈ matrixEndpoints)
    (hmeet : meet endpoint.segments endpoint'.segments = true) :
    endpoint.path = endpoint'.path := by
  obtain ⟨table, hread, -, hall⟩ := exists_table
  have hentry : ∀ endpoint ∈ matrixEndpoints,
      (endpoint.path.toList, endpoint.query) ∈ table := by
    intro endpoint h
    rw [← hread]
    exact List.mem_map.mpr ⟨endpoint, h, rfl⟩
  have hpair := List.all_eq_true.mp (List.all_eq_true.mp hall _ (hentry endpoint h)) _
    (hentry endpoint' h')
  rw [MatrixEndpoint.segments, MatrixEndpoint.segments] at hmeet
  rw [hmeet, Bool.not_true, Bool.false_or, beq_iff_eq] at hpair
  exact String.toList_inj.mp hpair

/-- The variables are those of the segments. -/
theorem listPathVariables_eq (endpoint : MatrixEndpoint) :
    endpoint.listPathVariables = (endpoint.segments.filterMap variableOf).map String.ofList := by
  rw [MatrixEndpoint.listPathVariables, MatrixEndpoint.segments, segmentsOf]
  congr 1
  generalize endpoint.path.toList = path
  induction path with
  | nil => rfl
  | cons c path ih =>
    by_cases hc : c = '/'
    · subst hc
      rw [List.dropWhile_cons_of_pos (by decide), ← ih,
        ← List.nil_append ('/' :: path), List.splitOn_append_cons_self]
      rfl
    · rw [List.dropWhile_cons_of_neg (by simpa using hc)]

end Table

/-- What is pushed for a segment. -/
def segmentText (values : List (String × Json)) (segment : Text) : Option Text :=
  match variableOf segment with
  | some name => ((values.lookup (String.ofList name)).bind Json.asStr).map String.toList
  | none => some segment

section Accepted

variable {shown : Shown} {endpoint : MatrixEndpoint} {values : List (String × Json)}
  {names : List String} {entries : List (String × Json)}

theorem of_checkPath (h : checkPath shown endpoint values names = .ok ()) :
    ∀ name ∈ names, ∃ value, values.lookup name = some (.string value) ∧
      Pushable value.toList := by
  induction names with
  | nil => exact nofun
  | cons name names ih =>
    rw [checkPath] at h
    split at h
    · rename_i value hvalue
      split_ifs at h with hdots hdropped
      rw [List.forall_mem_cons]
      refine ⟨⟨value, hvalue, fun hdot => ?_, fun hdots' => ?_, ?_⟩, ih h⟩
      · exact hdots (.inl (String.toList_inj.mp hdot))
      · exact hdots (.inr (String.toList_inj.mp hdots'))
      · rw [List.all_eq_true]
        intro c hc
        rw [Bool.not_eq_true']
        exact Bool.eq_false_iff.mpr fun hdrop =>
          hdropped (List.any_eq_true.mpr ⟨c, hc, hdrop⟩)
    · cases h
    · cases h

theorem of_checkQuery (h : checkQuery endpoint entries = .ok ()) :
    ∀ entry ∈ entries, entry.1 ∈ endpoint.listPathVariables ∨ entry.1 ∈ endpoint.query := by
  induction entries with
  | nil => exact nofun
  | cons entry entries ih =>
    rw [checkQuery] at h
    rw [List.forall_mem_cons]
    split_ifs at h with hpath hquery hfits
    · exact ⟨.inl hpath, ih h⟩
    · exact ⟨.inr hquery, ih h⟩

theorem of_checkVariables (h : checkVariables shown endpoint values = .ok ()) :
    (∀ name ∈ endpoint.listPathVariables, ∃ value, values.lookup name = some (.string value) ∧
        Pushable value.toList) ∧
      ∀ entry ∈ values, entry.1 ∈ endpoint.listPathVariables ∨ entry.1 ∈ endpoint.query := by
  rw [checkVariables] at h
  split at h
  · cases h
  · rename_i hpath
    exact ⟨of_checkPath hpath, of_checkQuery h⟩

/-- Every segment of the path has a text that can be pushed. -/
theorem segmentText_of_checked (hmem : endpoint ∈ matrixEndpoints)
    (h : checkVariables shown endpoint values = .ok ()) :
    ∀ segment ∈ endpoint.segments, ∃ text, segmentText values segment = some text ∧
      Pushable text := by
  intro segment hsegment
  rw [segmentText]
  cases hname : variableOf segment with
  | none =>
    have hwell := wellFormed_of_mem hmem
    rw [wellFormed, Bool.and_eq_true, Bool.and_eq_true] at hwell
    exact ⟨segment, rfl, of_decide_eq_true (List.all_eq_true.mp hwell.1.1 segment hsegment)⟩
  | some name =>
    have hlisted : String.ofList name ∈ endpoint.listPathVariables := by
      rw [listPathVariables_eq]
      exact List.mem_map_of_mem (List.mem_filterMap.mpr ⟨segment, hsegment, hname⟩)
    obtain ⟨value, hvalue, hpushable⟩ := (of_checkVariables h).1 _ hlisted
    refine ⟨value.toList, ?_, hpushable⟩
    simp only [hvalue]
    rfl

end Accepted

/-- What the path of an address has behind its first slash, after one more segment. -/
def pushed (allowed : Char → Bool) (rest segment : Text) : Text :=
  if rest = [] then PercentText.encode allowed segment
  else rest ++ '/' :: PercentText.encode allowed segment

/-- The segments of a path behind its first slash, of which there are none where nothing is. -/
def pieces (rest : Text) : List Text :=
  if rest = [] then [] else rest.splitOn '/'

/-- What a segment of an address stands for. -/
def percentDecode (segment : Text) : Option Text :=
  (PercentText.decodeBytes PercentText.hexPair segment).bind Utf8.decode

section Fill

variable {package : UrlPackage} {endpoint : MatrixEndpoint} {values : List (String × Json)}
  {allowed : Char → Bool} {rest segment : Text} {texts segments : List Text} {url : Url}

theorem percentDecode_encode (h : allowed '%' = false) (segment : Text) :
    percentDecode (PercentText.encode allowed segment) = some segment := by
  rw [percentDecode, PercentText.decodeBytes_of_escaped (PercentText.escaped_encode h segment),
    Option.bind_some, Utf8.decode_encode]

theorem slash_not_mem_encode (h : allowed '/' = false) (segment : Text) :
    '/' ∉ PercentText.encode allowed segment := by
  intro hslash
  rcases PercentText.mem_encode hslash with hallowed | hpercent | ⟨d, hd⟩
  · rw [h] at hallowed
    cases hallowed
  · cases hpercent
  · cases hd

theorem encode_ne_nil (h : allowed '%' = false) (hsegment : segment ≠ []) :
    PercentText.encode allowed segment ≠ [] := by
  intro hnil
  have hback := percentDecode_encode h segment
  rw [hnil] at hback
  exact hsegment (Option.some.inj hback).symm

theorem pieces_pushed (h : allowed '/' = false) (rest : Text)
    (hne : rest ≠ [] ∨ PercentText.encode allowed segment ≠ []) :
    pushed allowed rest segment ≠ [] ∧ pieces (pushed allowed rest segment) =
      pieces rest ++ [PercentText.encode allowed segment] := by
  have hsingle := List.splitOn_eq_singleton (slash_not_mem_encode h segment)
  by_cases hrest : rest = []
  · have hencoded := hne.resolve_left (not_not.mpr hrest)
    rw [pushed, if_pos hrest, pieces, if_neg hencoded, pieces, if_pos hrest, hsingle]
    exact ⟨hencoded, rfl⟩
  · rw [pushed, if_neg hrest, pieces, if_neg (by simp), pieces, if_neg hrest,
      List.splitOn_append_cons_self, hsingle]
    exact ⟨by simp, rfl⟩

/-- Segments that are pushed come after those that are there. -/
theorem pieces_foldl (h : allowed '/' = false) (hrest : rest ≠ []) (texts : List Text) :
    texts.foldl (pushed allowed) rest ≠ [] ∧ pieces (texts.foldl (pushed allowed) rest) =
      pieces rest ++ texts.map (PercentText.encode allowed) := by
  induction texts generalizing rest with
  | nil => exact ⟨hrest, (List.append_nil _).symm⟩
  | cons text texts ih =>
    obtain ⟨hne, hpieces⟩ := pieces_pushed h rest (.inl hrest)
    obtain ⟨hne', hpieces'⟩ := ih hne
    rw [List.foldl_cons]
    refine ⟨hne', ?_⟩
    rw [hpieces', hpieces, List.append_assoc]
    rfl

/-- The address after all segments are pushed. -/
theorem fill_eq_ok (hdoc : package.Documented) (endpoint : MatrixEndpoint)
    (hpath : url.path = '/' :: rest)
    (h : ∀ segment ∈ segments, ∃ text, segmentText values segment = some text ∧ Pushable text) :
    ∃ texts, segments.mapM (segmentText values) = some texts ∧
      texts.length = segments.length ∧
      fill package endpoint values url segments =
        .ok { url with path := '/' :: texts.foldl (pushed package.allowed) rest } := by
  induction segments generalizing url rest with
  | nil =>
    refine ⟨[], rfl, rfl, ?_⟩
    rw [fill, List.foldl_nil, ← hpath]
  | cons segment segments ih =>
    rw [List.forall_mem_cons] at h
    obtain ⟨⟨text, htext, hdot, hdots, hkept⟩, hsegments⟩ := h
    have hpushed : package.push url text =
        { url with path := '/' :: pushed package.allowed rest text } := by
      rw [hdoc.push url rest text hpath hdot hdots hkept, pushed, hpath]
      split_ifs <;> rfl
    have hnext : (package.push url text).path =
        '/' :: pushed package.allowed rest text := by
      rw [hpushed]
    obtain ⟨texts, htexts, hlength, hfill⟩ := ih hnext hsegments
    have hstep : fill package endpoint values url (segment :: segments) =
        fill package endpoint values (package.push url text) segments := by
      rw [fill]
      rw [segmentText] at htext
      cases hname : variableOf segment with
      | none =>
        rw [hname] at htext
        cases htext
        rfl
      | some name =>
        simp only [hname] at htext
        obtain ⟨value, hvalue, rfl⟩ := Option.map_eq_some_iff.mp htext
        simp only [hvalue]
    refine ⟨text :: texts, ?_, congrArg (· + 1) hlength, ?_⟩
    · rw [List.mapM_cons, htext, htexts]
      rfl
    · rw [hstep, hfill, hpushed]
      rfl

theorem mapM_percentDecode (h : allowed '%' = false) (texts : List Text) :
    (texts.map (PercentText.encode allowed)).mapM percentDecode = some texts := by
  induction texts with
  | nil => rfl
  | cons text texts ih =>
    rw [List.map_cons, List.mapM_cons, percentDecode_encode h, ih]
    rfl

end Fill

/-- The address of a server: without a query, and with at most one slash at its end. -/
def ServerUrl (url : Url) : Prop :=
  (∃ rest, url.path = '/' :: rest) ∧ ¬ ['/', '/'] <:+ url.path ∧ url.query = none

/-- The segments of the server itself, of which an empty last one is none. -/
def ownSegments (url : Url) : List Text :=
  let segments := (url.path.drop 1).splitOn '/'
  if segments.getLast? = some [] then segments.dropLast else segments

/-- The query variables of a call, with the lists in their order. -/
def queryVariables (shown : Shown) (endpoint : MatrixEndpoint) (values : List (String × Json)) :
    List (Text × Text) :=
  (values.filter fun entry => entry.1 ∉ endpoint.listPathVariables).flatMap (queryPairs shown)

/-- The address has the server, the segments of the template with the values in the places of
their variables, and the query variables. -/
structure CallsWith (shown : Shown) (package : UrlPackage) (endpoint : MatrixEndpoint)
    (values : List (String × Json)) (base url : Url) : Prop where
  server : url.server = base.server
  segments : ∃ filled texts, package.pathSegments url = some (ownSegments base ++ filled) ∧
    filled.mapM percentDecode = some texts ∧
    endpoint.segments.mapM (segmentText values) = some texts
  query : FormText.decodeQuery url.query = some (queryVariables shown endpoint values)

section Calls

variable {shown : Shown} {package : UrlPackage} {endpoint endpoint' : MatrixEndpoint}
  {values values' : List (String × Json)} {rest : Text} {server : String} {url base : Url}

theorem getLast?_splitOn (h : (rest.splitOn '/').getLast? = some []) :
    rest = [] ∨ rest.getLast? = some '/' := by
  cases hsplit : AccountNames.rsplitOnce '/' rest with
  | none =>
    rw [List.splitOn_eq_singleton (AccountNames.rsplitOnce_eq_none_iff.mp hsplit)] at h
    exact .inl (Option.some.inj h)
  | some split =>
    obtain ⟨first, last⟩ := split
    obtain ⟨rfl, hnot⟩ := AccountNames.rsplitOnce_eq_some_iff.mp hsplit
    rw [List.splitOn_append_cons_self, List.splitOn_eq_singleton hnot,
      List.getLast?_concat, Option.some.injEq] at h
    rw [h]
    exact .inr List.getLast?_concat

/-- The address of a server after an empty last segment is taken off it. -/
theorem popIfEmpty_eq (hdoc : package.Documented) (h : ServerUrl base) :
    ∃ rest, package.popIfEmpty base = { base with path := '/' :: rest } ∧
      ownSegments base = pieces rest ∧
      package.canTakePath base = true ∧
      ∃ segments, package.pathSegments base = some segments ∧
        (segments.length - if segments.getLast? = some [] then 1 else 0) =
          (ownSegments base).length := by
  obtain ⟨⟨rest, hpath⟩, hslashes, -⟩ := h
  have hcount : ∃ segments, package.pathSegments base = some segments ∧
      (segments.length - if segments.getLast? = some [] then 1 else 0) =
        (ownSegments base).length := by
    refine ⟨_, hdoc.pathSegments base rest hpath, ?_⟩
    rw [ownSegments, hpath, List.drop_succ_cons, List.drop_zero]
    split_ifs
    · rw [List.length_dropLast]
    · rfl
  have hown : ownSegments base =
      if (rest.splitOn '/').getLast? = some [] then (rest.splitOn '/').dropLast
      else rest.splitOn '/' := by
    rw [ownSegments, hpath, List.drop_succ_cons, List.drop_zero]
  rw [hdoc.popIfEmpty base rest hpath]
  by_cases hlast : rest.getLast? = some '/'
  · obtain ⟨first, rfl⟩ := List.getLast?_eq_some_iff.mp hlast
    have hfirst : first ≠ [] := by
      rintro rfl
      exact hslashes (by rw [hpath]; exact List.suffix_refl _)
    refine ⟨first, ?_, ?_, hdoc.canTakePath base _ hpath, hcount⟩
    · rw [if_pos hlast, List.dropLast_concat]
    · rw [hown, List.splitOn_append_cons_self, List.splitOn_nil, if_pos List.getLast?_concat,
        List.dropLast_concat, pieces, if_neg hfirst]
  · refine ⟨rest, ?_, ?_, hdoc.canTakePath base rest hpath, hcount⟩
    · rw [if_neg hlast, ← hpath]
    · rw [hown, pieces]
      by_cases hrest : rest = []
      · subst hrest
        rfl
      · rw [if_neg hrest, if_neg fun hempty => (getLast?_splitOn hempty).elim hrest hlast]

theorem foldl_appendPair (hdoc : package.Documented) (pairs : List (Text × Text)) (url : Url) :
    pairs.foldl package.appendPair url = { url with
      query := pairs.foldl (fun query pair => some (FormText.append query pair)) url.query } := by
  induction pairs generalizing url with
  | nil => rfl
  | cons pair pairs ih => rw [List.foldl_cons, ih, hdoc.appendPair, List.foldl_cons]

/-- For accepted values the query has all variables that the path has not. -/
theorem filter_query (hmem : endpoint ∈ matrixEndpoints)
    (h : checkVariables shown endpoint values = .ok ()) :
    (values.filter fun entry => entry.1 ∈ endpoint.query) =
      values.filter fun entry => entry.1 ∉ endpoint.listPathVariables := by
  have hwell := wellFormed_of_mem hmem
  rw [wellFormed, Bool.and_eq_true] at hwell
  have happart : ∀ name ∈ endpoint.listPathVariables, name ∉ endpoint.query := by
    intro name hname
    rw [listPathVariables_eq] at hname
    obtain ⟨text, htext, rfl⟩ := List.mem_map.mp hname
    exact of_decide_eq_true (List.all_eq_true.mp hwell.2 text htext)
  refine List.filter_congr fun entry hentry => ?_
  rw [decide_eq_decide]
  exact ⟨fun hquery hpath => happart _ hpath hquery,
    ((of_checkVariables h).2 entry hentry).resolve_left⟩

variable {texts : List Text}

/-- The texts of a path, segment by segment. -/
theorem mapM_segmentText_cons {segment : Text} {segments : List Text}
    (h : (segment :: segments).mapM (segmentText values) = some texts) :
    ∃ text texts', segmentText values segment = some text ∧
      segments.mapM (segmentText values) = some texts' ∧ texts = text :: texts' := by
  rw [List.mapM_cons] at h
  obtain ⟨text, htext, hrest⟩ := Option.bind_eq_some_iff.mp h
  obtain ⟨texts', htexts, hcons⟩ := Option.bind_eq_some_iff.mp hrest
  exact ⟨text, texts', htext, htexts, (Option.some.inj hcons).symm⟩

/-- The first segment of a template is a name, so that the path is not empty once it is there. -/
theorem exists_first (hmem : endpoint ∈ matrixEndpoints)
    (h : endpoint.segments.mapM (segmentText values) = some texts) :
    ∃ first texts', texts = first :: texts' ∧ first ≠ [] := by
  have hwell := wellFormed_of_mem hmem
  rw [wellFormed, Bool.and_eq_true, Bool.and_eq_true, ← MatrixEndpoint.segments] at hwell
  cases hsegments : endpoint.segments with
  | nil =>
    rw [hsegments] at hwell
    cases hwell.1.2
  | cons first segments =>
    rw [hsegments] at hwell h
    obtain ⟨hne, hname⟩ := of_decide_eq_true hwell.1.2
    obtain ⟨_, texts', hfirst, -, rfl⟩ := mapM_segmentText_cons h
    rw [segmentText, hname] at hfirst
    cases hfirst
    exact ⟨first, texts', rfl, hne⟩

theorem toUrl_calls (hdoc : package.Documented) (hmem : endpoint ∈ matrixEndpoints)
    (hparse : package.parse server = .ok base) (hserver : ServerUrl base)
    (h : checkVariables shown endpoint values = .ok ()) :
    ∃ url, toUrl shown package endpoint values server = .ok url ∧
      CallsWith shown package endpoint values base url := by
  obtain ⟨rest, hpopped, hown, htake, segments, hsegments, hcount⟩ := popIfEmpty_eq hdoc hserver
  have hslash := hdoc.allowed '/' (by decide)
  have hpercent := hdoc.allowed '%' (by decide)
  have hpopPath : (package.popIfEmpty base).path = '/' :: rest := by rw [hpopped]
  obtain ⟨texts, htexts, hlength, hfill⟩ := fill_eq_ok hdoc endpoint hpopPath
    (segmentText_of_checked hmem h)
  obtain ⟨first, texts', rfl, hfirst⟩ := exists_first hmem htexts
  obtain ⟨hne, hpieces⟩ := pieces_pushed hslash rest
    (.inr (encode_ne_nil hpercent hfirst))
  obtain ⟨hne', hpieces'⟩ := pieces_foldl hslash hne texts'
  rw [hpopped, hserver.2.2, List.foldl_cons] at hfill
  generalize hpath : texts'.foldl (pushed package.allowed) (pushed package.allowed rest first) =
    path at hfill hne' hpieces'
  have hfilled : package.pathSegments ⟨base.server, '/' :: path, none⟩ = some (ownSegments base ++
      (first :: texts').map (PercentText.encode package.allowed)) := by
    rw [pieces, if_neg hne'] at hpieces'
    rw [hdoc.pathSegments _ path rfl, hpieces', hpieces, hown, List.append_assoc]
    rfl
  have hquery := FormText.decodeQuery_foldl (queryVariables shown endpoint values)
    (show FormText.decodeQuery none = some [] from rfl)
  refine ⟨(queryVariables shown endpoint values).foldl package.appendPair
    ⟨base.server, '/' :: path, none⟩, ?_, ?_⟩
  · rw [toUrl, hparse, queryVariables, ← filter_query hmem h]
    simp only [hsegments, hcount, htake, Bool.true_eq_false, if_false, hpopped, hserver.2.2, hfill,
      hfilled, List.length_append, List.length_map, hlength, ne_eq, not_true_eq_false]
  · rw [foldl_appendPair hdoc]
    refine ⟨rfl, ⟨_, first :: texts', ?_, mapM_percentDecode hpercent _, htexts⟩, hquery⟩
    rw [hdoc.pathSegments _ path rfl, ← hdoc.pathSegments ⟨base.server, '/' :: path, none⟩ path rfl]
    exact hfilled

theorem meet_of_mapM {segments segments' : List Text}
    (h : segments.mapM (segmentText values) = some texts)
    (h' : segments'.mapM (segmentText values') = some texts) : meet segments segments' = true := by
  induction segments generalizing segments' texts with
  | nil =>
    cases h
    cases segments' with
    | nil => rfl
    | cons segment' segments' =>
      obtain ⟨_, _, -, -, hnil⟩ := mapM_segmentText_cons h'
      cases hnil
  | cons segment segments ih =>
    obtain ⟨text, texts, htext, htexts, rfl⟩ := mapM_segmentText_cons h
    cases segments' with
    | nil => cases h'
    | cons segment' segments' =>
      obtain ⟨_, _, htext', htexts', hcons⟩ := mapM_segmentText_cons h'
      cases hcons
      rw [meet, ih htexts htexts', Bool.and_true]
      rw [segmentText] at htext htext'
      cases hname : variableOf segment with
      | some name => rfl
      | none =>
        cases hname' : variableOf segment' with
        | some name' => rfl
        | none =>
          rw [hname] at htext
          rw [hname'] at htext'
          rw [Option.some.inj htext, Option.some.inj htext']
          simp

theorem segmentText_congr {segments : List Text}
    (h : segments.mapM (segmentText values) = some texts)
    (h' : segments.mapM (segmentText values') = some texts) :
    ∀ segment ∈ segments, segmentText values segment = segmentText values' segment := by
  induction segments generalizing texts with
  | nil => exact nofun
  | cons segment segments ih =>
    obtain ⟨text, texts, htext, htexts, rfl⟩ := mapM_segmentText_cons h
    obtain ⟨_, _, htext', htexts', hcons⟩ := mapM_segmentText_cons h'
    cases hcons
    rw [List.forall_mem_cons]
    exact ⟨htext.trans htext'.symm, ih htexts htexts'⟩

/-- Calls with one address go to one endpoint, with one value for each variable of the path. -/
theorem eq_of_toUrl (hdoc : package.Documented) (hmem : endpoint ∈ matrixEndpoints)
    (hmem' : endpoint' ∈ matrixEndpoints) (hparse : package.parse server = .ok base)
    (hserver : ServerUrl base) (h : checkVariables shown endpoint values = .ok ())
    (h' : checkVariables shown endpoint' values' = .ok ())
    (hurl : toUrl shown package endpoint values server = .ok url)
    (hurl' : toUrl shown package endpoint' values' server = .ok url) :
    endpoint.path = endpoint'.path ∧
      ∀ name ∈ endpoint.listPathVariables, values.lookup name = values'.lookup name := by
  obtain ⟨_, hcall, hwith⟩ := toUrl_calls hdoc hmem hparse hserver h
  obtain ⟨_, hcall', hwith'⟩ := toUrl_calls hdoc hmem' hparse hserver h'
  cases hurl.symm.trans hcall
  cases hurl'.symm.trans hcall'
  obtain ⟨filled, texts, hsegments, hdecoded, htexts⟩ := hwith.segments
  obtain ⟨filled', texts', hsegments', hdecoded', htexts'⟩ := hwith'.segments
  obtain rfl := List.append_cancel_left (Option.some.inj (hsegments.symm.trans hsegments'))
  cases hdecoded.symm.trans hdecoded'
  have hpath := path_eq_of_meet hmem hmem' (meet_of_mapM htexts htexts')
  have hsame : endpoint'.segments = endpoint.segments := by
    rw [MatrixEndpoint.segments, MatrixEndpoint.segments, hpath]
  have hnames : endpoint'.listPathVariables = endpoint.listPathVariables := by
    rw [MatrixEndpoint.listPathVariables, MatrixEndpoint.listPathVariables, hpath]
  rw [hsame] at htexts'
  refine ⟨hpath, fun name hname => ?_⟩
  obtain ⟨value, hvalue, -⟩ := (of_checkVariables h).1 name hname
  obtain ⟨value', hvalue', -⟩ := (of_checkVariables h').1 name (hnames ▸ hname)
  rw [listPathVariables_eq] at hname
  obtain ⟨text, htext, rfl⟩ := List.mem_map.mp hname
  obtain ⟨segment, hsegment, hvariable⟩ := List.mem_filterMap.mp htext
  have htold := segmentText_congr htexts htexts' segment hsegment
  simp only [segmentText, hvariable, hvalue, hvalue', Option.bind_some, Json.asStr,
    Option.map_some, Option.some.injEq] at htold
  rw [hvalue, hvalue', String.toList_inj.mp htold]

end Calls

/-- A call goes to its own endpoint with its own values: the address of every accepted call has
the segments and the query of the call, and no other call has this address. -/
theorem calls_reach_their_endpoint {package : UrlPackage} (hdoc : package.Documented)
    (shown : Shown) (server : String) (base : Url) (hparse : package.parse server = .ok base)
    (hserver : ServerUrl base) :
    (∀ endpoint ∈ matrixEndpoints, ∀ values,
      checkVariables shown endpoint values = .ok () →
        ∃ url, toUrl shown package endpoint values server = .ok url ∧
          CallsWith shown package endpoint values base url) ∧
    ∀ endpoint ∈ matrixEndpoints, ∀ endpoint' ∈ matrixEndpoints, ∀ values values' url,
      checkVariables shown endpoint values = .ok () →
      checkVariables shown endpoint' values' = .ok () →
      toUrl shown package endpoint values server = .ok url →
      toUrl shown package endpoint' values' server = .ok url →
        endpoint.path = endpoint'.path ∧
          ∀ name ∈ endpoint.listPathVariables, values.lookup name = values'.lookup name :=
  ⟨fun _ hmem _ => toUrl_calls hdoc hmem hparse hserver,
    fun _ hmem _ hmem' _ _ _ => eq_of_toUrl hdoc hmem hmem' hparse hserver⟩

/-- Addresses of one server, with the characters that stand in a segment as they are. -/
def exampleUrls : UrlPackage where
  parse server :=
    if server = "https://matrix.example" then .ok ⟨server.toList, ['/'], none⟩
    else .error "relative URL without a base"
  canTakePath url := url.path.head? = some '/'
  pathSegments url :=
    match url.path with
    | '/' :: rest => some (rest.splitOn '/')
    | _ => none
  popIfEmpty url :=
    match url.path with
    | '/' :: rest =>
        if rest.getLast? = some '/' then { url with path := '/' :: rest.dropLast } else url
    | _ => url
  push url segment :=
    if segment = ['.'] ∨ segment = ['.', '.'] then url
    else { url with path :=
      let written := PercentText.encode exampleAllowed (segment.filter (!isDropped ·))
      if url.path = ['/'] then '/' :: written else url.path ++ '/' :: written }
  appendPair url pair := { url with query := some (FormText.append url.query pair) }
  allowed := exampleAllowed
where
  exampleAllowed (c : Char) : Bool :=
    0x21 ≤ c.toNat ∧ c.toNat < 0x7f ∧ c ∉ "\"#<>?\x60\x7b\x7d/%\\".toList

theorem exampleUrls_documented : exampleUrls.Documented where
  canTakePath := by
    intro url rest hpath
    simp [exampleUrls, hpath]
  pathSegments := by
    intro url rest hpath
    simp only [exampleUrls, hpath]
  popIfEmpty := by
    intro url rest hpath
    simp only [exampleUrls, hpath]
  push := by
    intro url rest segment hpath hdot hdots hkept
    have hsame : segment.filter (!isDropped ·) = segment :=
      List.filter_eq_self.mpr (List.all_eq_true.mp hkept)
    have hrest : url.path = ['/'] ↔ rest = [] := by
      rw [hpath]
      simp
    simp only [exampleUrls, hdot, hdots, or_self, if_false, hsame, hrest]
  appendPair := fun _ _ => rfl
  allowed := by
    intro c hc
    simp only [List.mem_cons, List.not_mem_nil, or_false] at hc
    rcases hc with rfl | rfl | rfl | rfl | rfl <;> decide +kernel

theorem calls_reach_their_endpoint_of_leave :
    ∃ url, toUrl ⟨fun _ => "", id⟩ exampleUrls leave [("room_id", .string "!r/x:localhost")]
        "https://matrix.example" = .ok url ∧
      CallsWith ⟨fun _ => "", id⟩ exampleUrls leave [("room_id", .string "!r/x:localhost")]
        ⟨"https://matrix.example".toList, ['/'], none⟩ url :=
  (calls_reach_their_endpoint exampleUrls_documented ⟨fun _ => "", id⟩ "https://matrix.example"
    ⟨"https://matrix.example".toList, ['/'], none⟩ rfl ⟨⟨[], rfl⟩, by decide, rfl⟩).1 leave
    (by simp [matrixEndpoints]) [("room_id", .string "!r/x:localhost")] (by decide +kernel)

end MatrixEndpoints
end WbfMatrixClient
