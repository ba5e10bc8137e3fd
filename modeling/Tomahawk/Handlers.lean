import Tomahawk.Routing
import Tomahawk.Bookmarks

/-! What the track and station handlers build from a link's items. The track handlers check no
field, and `doQueueAdd` stops after the first `url` item. -/

namespace Tomahawk

open Echonest QUrl Text

/-! ### Track commands -/

theorem track_commands_without_data_accepted :
    parseTomahawkLink idleEnv "tomahawk://play/track".toList Manager.initial =
        ⟨true, registerToPlay ⟨0, [], [], [], []⟩ { Manager.initial with nextId := 1 },
          [.resolve ⟨0, [], [], [], []⟩]⟩ ∧
      parseTomahawkLink idleEnv "tomahawk://open/track?url=".toList Manager.initial =
        ⟨true, { Manager.initial with nextId := 1 },
          [.resolve ⟨0, [], [], [], []⟩, .appendToQueue ⟨0, [], [], [], []⟩, .showQueue]⟩ ∧
      handleBookmarkCommand (fromEncoded (ascii "bookmark/track")) true Manager.initial =
        ⟨true, { Manager.initial with nextId := 1, toShow := true },
          [.resolve ⟨0, [], [], [], []⟩, .addBookmarkEntry ⟨0, [], [], [], []⟩]⟩ := by
  decide

theorem second_url_not_queued :
    doQueueAdd idleEnv ["track".toList]
        [("url".toList, "http://a/x.mp3".toList), ("url".toList, "http://b/y.mp3".toList)]
        Manager.initial =
      ⟨true, { Manager.initial with nextId := 1 },
        [.resolve ⟨0, [], "x".toList, [], "http://a/x.mp3".toList⟩,
          .appendToQueue ⟨0, [], "x".toList, [], "http://a/x.mp3".toList⟩, .showQueue]⟩ := by
  decide

/-! ### Station links -/

theorem loadDynamicPlaylist_controls (u : QUrl) (station : Bool) (m : Manager)
    (rest : List QString) (hc : commandParts u = "create".toList :: rest)
    (ht : hasQueryItem u "title".toList = true) (hy : hasQueryItem u "type".toList = true) :
    ∃ (pl : DynamicPlaylist) (withEntries : Bool), (loadDynamicPlaylist u station m).2.2 =
      [.createDynamicPlaylist pl, .createRevision (queryItemValue u "type".toList)
        ((queryItems u).filterMap fun item => vocabularyControl item.1 item.2) withEntries] := by
  simp only [loadDynamicPlaylist, hc, if_true, ht, hy, Bool.not_true, Bool.or_self, Bool.false_eq_true,
    if_false, controlsFor_eq_vocabulary]
  exact ⟨_, _, rfl⟩

theorem loadDynamicPlaylist_controls_sample :
    commandParts (fromEncoded (ascii "station/create?title=t&type=echonest&tempo_max=9")) =
        ["create".toList] ∧
      hasQueryItem (fromEncoded (ascii "station/create?title=t&type=echonest&tempo_max=9"))
        "title".toList = true ∧
      hasQueryItem (fromEncoded (ascii "station/create?title=t&type=echonest&tempo_max=9"))
        "type".toList = true ∧
      ∃ (pl : DynamicPlaylist) (withEntries : Bool),
        (loadDynamicPlaylist (fromEncoded (ascii "station/create?title=t&type=echonest&tempo_max=9"))
            true Manager.initial).2.2 =
          [.createDynamicPlaylist pl,
            .createRevision (queryItemValue
                (fromEncoded (ascii "station/create?title=t&type=echonest&tempo_max=9")) "type".toList)
              ((queryItems (fromEncoded (ascii "station/create?title=t&type=echonest&tempo_max=9"))).filterMap
                fun item => vocabularyControl item.1 item.2) withEntries] :=
  ⟨by decide, by decide, by decide,
    loadDynamicPlaylist_controls _ true Manager.initial [] (by decide) (by decide) (by decide)⟩

theorem temporal_key_makes_tempo_control :
    (loadDynamicPlaylist (fromEncoded (ascii "station/create?title=t&type=echonest&temporal=1")) true
        Manager.initial).2.2 =
      [.createDynamicPlaylist ⟨0, "t".toList, "echonest".toList, .onDemand⟩,
        .createRevision "echonest".toList [⟨"Tempo".toList, "12".toList, "1".toList⟩] false] := by
  decide

end Tomahawk
