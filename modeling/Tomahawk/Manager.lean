import Tomahawk.Echonest

/-! The action manager's state and what it asks of the rest of the application. A command
handler returns its answer, the manager's next state, and the calls it made on the pipeline,
the playlist store, the view layer and the playback engine, in order. -/

namespace Tomahawk

open Echonest

/-- A track query: `Query::get( artist, track, album, uuid() )` and its result hint. -/
structure Query where
  id : Nat
  artist : QString
  track : QString
  album : QString
  resultHint : QString
  deriving DecidableEq, Repr

inductive GeneratorMode
  | onDemand
  | static
  deriving DecidableEq, Repr

structure DynamicPlaylist where
  id : Nat
  title : QString
  type : QString
  mode : GeneratorMode
  deriving DecidableEq, Repr

inductive SpotifyTarget
  | play
  | openTrack
  deriving DecidableEq, Repr

inductive Effect
  | loadXspf (source : QString) (overrideTitle : Option QString)
  | loadJspf (source : QString)
  | createPlaylist (title : QString)
  | createDynamicPlaylist (playlist : DynamicPlaylist)
  | createRevision (type : QString) (controls : List Control) (withEntries : Bool)
  | resolve (q : Query)
  | appendToQueue (q : Query)
  | showQueue
  | startSpotifyParser (link : QString) (target : SpotifyTarget)
  | showSuperCollection
  | setFilter (text : QString)
  | createBookmarksPlaylist
  | addBookmarkEntry (q : Query)
  | showPlaylist
  | play
  deriving DecidableEq, Repr

structure Manager where
  nextId : Nat
  waitingToPlay : Option Query
  /-- One entry per `connect( q, resolvingFinished, waitingForResolved )`; none is cut. -/
  resolvingConnections : List Query
  waitingToBookmark : Option Query
  bookmarkCreatedConnected : Bool
  toShow : Bool
  deriving DecidableEq, Repr

def Manager.initial : Manager := ⟨0, none, [], none, false, false⟩

structure Env where
  isPlaying : Bool
  userInputText : QString → QString
  userInputPath : QString → QString

structure Outcome where
  accepted : Bool
  manager : Manager
  effects : List Effect
  deriving DecidableEq, Repr

def registerToPlay (q : Query) (m : Manager) : Manager :=
  { m with waitingToPlay := some q, resolvingConnections := m.resolvingConnections ++ [q] }

def handleOpenTrack (isPlaying : Bool) (q : Query) (m : Manager) : Manager × List Effect :=
  (if isPlaying then m else registerToPlay q m, [.appendToQueue q, .showQueue])

def spotifyToPlay (q : Query) (m : Manager) : Manager × List Effect :=
  (registerToPlay q m, [.resolve q])

def waitingForResolved (sender : Query) (playable : Bool) (m : Manager) : Manager × List Effect :=
  if m.waitingToPlay ≠ some sender then ({ m with waitingToPlay := none }, [])
  else if playable then ({ m with waitingToPlay := none }, [.play])
  else (m, [])

@[simp] theorem registerToPlay_waitingToPlay (q : Query) (m : Manager) :
    (registerToPlay q m).waitingToPlay = some q := rfl

end Tomahawk
