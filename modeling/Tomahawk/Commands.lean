import Tomahawk.Qt.Url
import Tomahawk.Manager

/-! `GlobalActionManager::parseTomahawkLink` and the command handlers it dispatches to. -/

namespace Tomahawk

open Echonest QUrl Text

def commandParts (u : QUrl) : List QString := (split u.path '/').drop 1

structure TrackFields where
  title : QString
  artist : QString
  album : QString
  url : QString
  deriving DecidableEq, Repr

/-- The `foreach` loops over a link's items: each assignment overwrites, so the last wins. -/
def readTrackFields (items : List (QString × QString)) : TrackFields :=
  items.foldl (fun f item =>
    if item.1 = "title".toList then { f with title := item.2 }
    else if item.1 = "artist".toList then { f with artist := item.2 }
    else if item.1 = "album".toList then { f with album := item.2 }
    else if item.1 = "url".toList then { f with url := item.2 }
    else f) ⟨[], [], [], []⟩

def queueSpotifyLink (items : List (QString × QString)) : QString :=
  items.foldl (fun url item =>
    if item.1 = "spotifyURL".toList then item.2
    else if item.1 = "spotifyURI".toList then item.2
    else url) []

def baseName (path : QString) : QString :=
  ((split path '/').getLast?.getD []).takeWhile (· ≠ '.')

def doQueueAdd (env : Env) (parts : List QString) (items : List (QString × QString))
    (m : Manager) : Outcome :=
  if parts.head? = some "track".toList then
    if queueSpotifyLink items ≠ [] then
      ⟨true, m, [.startSpotifyParser (queueSpotifyLink items) .openTrack]⟩
    else
      let f := readTrackFields items
      if f.title ≠ [] ∨ f.artist ≠ [] ∨ f.album ≠ [] then
        let q : Query := ⟨m.nextId, f.artist, f.title, f.album, f.url⟩
        let opened := handleOpenTrack env.isPlaying q { m with nextId := m.nextId + 1 }
        ⟨true, opened.1, .resolve q :: opened.2⟩
      else
        match items.find? (·.1 = "url".toList) with
        | none => ⟨false, m, []⟩
        | some (_, url) =>
          if "file://".toList.isPrefixOf (env.userInputText url) then ⟨true, m, []⟩
          else
            let q : Query := ⟨m.nextId, [], baseName (env.userInputPath url), [],
              env.userInputText url⟩
            ⟨true, { m with nextId := m.nextId + 1 }, [.resolve q, .appendToQueue q, .showQueue]⟩
  else ⟨false, m, []⟩

def handlePlaylistCommand (u : QUrl) (m : Manager) : Outcome :=
  match commandParts u with
  | [] => ⟨false, m, []⟩
  | part :: _ =>
    if part = "import".toList then
      if !hasQueryItem u "xspf".toList then ⟨false, m, []⟩
      else ⟨false, m, [.loadXspf (queryItemValue u "xspf".toList)
        (some (if hasQueryItem u "title".toList then queryItemValue u "title".toList else []))]⟩
    else if part = "new".toList then
      if !hasQueryItem u "title".toList then ⟨false, m, []⟩
      else ⟨false, m, [.createPlaylist (queryItemValue u "title".toList)]⟩
    else ⟨false, m, []⟩

def handleCollectionCommand (_u : QUrl) (m : Manager) : Outcome := ⟨false, m, []⟩

def handleOpenCommand (env : Env) (u : QUrl) (m : Manager) : Outcome :=
  if commandParts u = [] then ⟨false, m, []⟩
  else doQueueAdd env (commandParts u) (queryItems u) m

def handleQueueCommand (env : Env) (u : QUrl) (m : Manager) : Outcome :=
  match commandParts u with
  | [] => ⟨false, m, []⟩
  | part :: rest =>
    if part = "add".toList then
      let added := doQueueAdd env rest (queryItems u) m
      ⟨false, added.manager, added.effects⟩
    else ⟨false, m, []⟩

def handleSearchCommand (u : QUrl) (m : Manager) : Outcome :=
  let query := ["artist".toList, "album".toList, "title".toList].filterMap fun key =>
    if hasQueryItem u key then some (queryItemValue u key) else none
  let queryStr := [' '].intercalate query
  if queryStr = [] then ⟨false, m, []⟩
  else ⟨true, m, [.showSuperCollection, .setFilter queryStr]⟩

def loadDynamicPlaylist (u : QUrl) (station : Bool) (m : Manager) :
    Option DynamicPlaylist × Manager × List Effect :=
  match commandParts u with
  | [] => (none, m, [])
  | part :: _ =>
    if part = "create".toList then
      if !hasQueryItem u "title".toList || !hasQueryItem u "type".toList then (none, m, [])
      else
        let type := queryItemValue u "type".toList
        let mode := if station then GeneratorMode.onDemand else GeneratorMode.static
        let pl : DynamicPlaylist := ⟨m.nextId, queryItemValue u "title".toList, type, mode⟩
        (some pl, { m with nextId := m.nextId + 1 },
          [.createDynamicPlaylist pl, .createRevision type (controlsFor (queryItems u)) (mode = .static)])
    else (none, m, [])

def handleDynamicCommand (u : QUrl) (station : Bool) (m : Manager) : Outcome :=
  let r := loadDynamicPlaylist u station m
  ⟨r.1.isSome, r.2.1, r.2.2⟩

def handleStationCommand (u : QUrl) (m : Manager) : Outcome := handleDynamicCommand u true m

def handleAutoPlaylistCommand (u : QUrl) (m : Manager) : Outcome := handleDynamicCommand u false m

def playSpotifyLink (u : QUrl) : Option QString :=
  if hasQueryItem u "spotifyURI".toList then some (queryItemValue u "spotifyURI".toList)
  else if hasQueryItem u "spotifyURL".toList then some (queryItemValue u "spotifyURL".toList)
  else none

def handlePlayCommand (u : QUrl) (m : Manager) : Outcome :=
  match commandParts u with
  | [] => ⟨false, m, []⟩
  | part :: _ =>
    if part = "track".toList then
      match playSpotifyLink u with
      | some link => ⟨true, m, [.startSpotifyParser link .play]⟩
      | none =>
        let f := readTrackFields (queryItems u)
        let q : Query := ⟨m.nextId, f.artist, f.title, f.album, f.url⟩
        ⟨true, registerToPlay q { m with nextId := m.nextId + 1 }, [.resolve q]⟩
    else ⟨false, m, []⟩

def dispatchCommand (env : Env) (cmdType : QString) (u : QUrl) (m : Manager) : Outcome :=
  if cmdType = "load".toList ∧ hasQueryItem u "xspf".toList then
    ⟨true, m, [.loadXspf (queryItemValue u "xspf".toList) none]⟩
  else if cmdType = "load".toList ∧ hasQueryItem u "jspf".toList then
    ⟨true, m, [.loadJspf (queryItemValue u "jspf".toList)]⟩
  else if cmdType = "playlist".toList then handlePlaylistCommand u m
  else if cmdType = "collection".toList then handleCollectionCommand u m
  else if cmdType = "queue".toList then handleQueueCommand env u m
  else if cmdType = "station".toList then handleStationCommand u m
  else if cmdType = "autoplaylist".toList then handleAutoPlaylistCommand u m
  else if cmdType = "search".toList then handleSearchCommand u m
  else if cmdType = "play".toList then handlePlayCommand u m
  else if cmdType = "bookmark".toList then handlePlayCommand u m
  else if cmdType = "open".toList then handleOpenCommand env u m
  else ⟨false, m, []⟩

def parseTomahawkCommand (env : Env) (rest : QString) (m : Manager) : Outcome :=
  let cmd := replace "%2B".toList "%20".toList rest
  dispatchCommand env (firstPart cmd '/') (fromEncoded (Utf8.toUtf8 cmd)) m

/-- `parseTomahawkLink`: a link holding the scheme anywhere is dispatched after 11 characters. -/
def parseTomahawkLink (env : Env) (url : QString) (m : Manager) : Outcome :=
  if contains url "tomahawk://".toList then parseTomahawkCommand env (url.drop 11) m
  else ⟨false, m, []⟩

end Tomahawk
