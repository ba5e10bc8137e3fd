import Tomahawk.Routing

/-! Share links: the text `copyToClipboard` and `copyPlaylistToClipboard` write, read back by
`parseTomahawkLink` once its web prefix is the scheme again. Only the UTF-8 codec can change a
value. -/

namespace Tomahawk

open Echonest QUrl Text

def hostname : QString := "http://toma.hk".toList

/-- `QUrl( text )` of a link's own text, which the constructor's encoding leaves alone. -/
def linkUrl (text : QString) : QUrl := fromEncoded (Utf8.toUtf8 text)

def openLink (title artist album : QString) : QUrl :=
  let link := linkUrl (hostname ++ "/open/track/".toList)
  let link := if title.isEmpty then link else link.addQueryItem "title".toList title
  let link := if artist.isEmpty then link else link.addQueryItem "artist".toList artist
  if album.isEmpty then link else link.addQueryItem "album".toList album

def openLinkFromQuery (q : Query) : QUrl := openLink q.track q.artist q.album

def clipboardText (link : QUrl) : QString :=
  fromAscii (replace [0x27] (ascii "%27") (toEncoded link))

def copyToClipboard (q : Query) : QString := clipboardText (openLinkFromQuery q)

/-- `copyPlaylistToClipboard( playlist )`: the new clipboard text, none for another generator. -/
def copyPlaylistToClipboard (playlist : DynamicPlaylist) (controls : List Control) :
    Option QString :=
  let link := linkUrl (hostname ++ '/' :: (if playlist.mode = .onDemand then "station".toList
    else "autoplaylist".toList) ++ "/create/".toList)
  if playlist.type ≠ "echonest".toList then none
  else
    let link := link.addEncodedQueryItem (ascii "type") (ascii "echonest")
    let link := link.addQueryItem "title".toList playlist.title
    some (clipboardText (addQueryItems link (controls.map itemFor)))

/-- A share link as the web site hands it back: `http://toma.hk/` replaced by `tomahawk://`. -/
def toTomahawkLink (text : QString) : QString :=
  if "http://toma.hk/".toList.isPrefixOf text then "tomahawk://".toList ++ text.drop 15 else text

/-! ### The clipboard text -/

def clipboardExcludeChars : QByteArray := queryExcludeChars.erase 0x27

theorem hexDigit_ne_quote : ∀ n < 16, hexDigit n ≠ 0x27 := by decide

theorem quote_encodeByte {b : Nat} (hb : b < 0x100) :
    (encodeByte queryExcludeChars [0x3D, 0x26] b).flatMap
        (fun c => if c = 0x27 then ascii "%27" else [c]) =
      encodeByte clipboardExcludeChars [0x3D, 0x26] b := by
  by_cases hq : b = 0x27
  · subst hq
    decide
  · have hk : Keeps queryExcludeChars [0x3D, 0x26] b = Keeps clipboardExcludeChars [0x3D, 0x26] b := by
      simp [Keeps, queryExcludeChars, clipboardExcludeChars, hq]
    cases hkb : Keeps clipboardExcludeChars [0x3D, 0x26] b
    · rw [encodeByte_of_not_keeps (hk.trans hkb), encodeByte_of_not_keeps hkb]
      simp [hexDigit_ne_quote _ (show b / 0x10 < 16 by omega),
        hexDigit_ne_quote _ (show b % 0x10 < 16 by omega)]
    · rw [encodeByte_of_keeps (hk.trans hkb), encodeByte_of_keeps hkb]
      simp [hq]

theorem quote_encodeComponent (s : QString) :
    (encodeComponent queryExcludeChars s).flatMap
        (fun c => if c = 0x27 then ascii "%27" else [c]) =
      encodeComponent clipboardExcludeChars s := by
  rw [encodeComponent, percentEncode, List.flatMap_assoc, encodeComponent, percentEncode]
  exact List.flatMap_congr fun b hb => quote_encodeByte (Utf8.toUtf8_lt s b hb)

theorem quote_encodePiece (item : QString × QString) :
    (encodePiece queryExcludeChars item).flatMap
        (fun c => if c = 0x27 then ascii "%27" else [c]) =
      encodePiece clipboardExcludeChars item := by
  simp [encodePiece, List.flatMap_append, quote_encodeComponent]

theorem quote_encodeQuery (items : List (QString × QString)) :
    (encodeQuery queryExcludeChars items).flatMap
        (fun c => if c = 0x27 then ascii "%27" else [c]) =
      encodeQuery clipboardExcludeChars items := by
  cases items with
  | nil => rfl
  | cons item items =>
    simp [encodeQuery, intercalate_cons, List.flatMap_append, List.flatMap_assoc, List.flatMap_map,
      quote_encodePiece]

theorem clipboardText_addQueryItems {base : QUrl} {path : QByteArray} (hbase : toEncoded base = path)
    (hq : base.query = none) (hf : base.fragment = none) (hpath : 0x27 ∉ path)
    (item : QString × QString) (items : List (QString × QString)) :
    clipboardText (addQueryItems base (item :: items)) =
      fromAscii (path ++ 0x3F :: encodeQuery clipboardExcludeChars (item :: items)) := by
  have hkeep : path.flatMap (fun c => if c = 0x27 then ascii "%27" else [c]) = path := by
    conv => rhs; rw [← List.flatMap_singleton' path]
    exact List.flatMap_congr fun c hc => if_neg fun h : c = 0x27 => hpath (h ▸ hc)
  rw [clipboardText, addQueryItems_of_none hq, toEncoded_of_query hq hf, hbase, replace_single,
    List.flatMap_append, hkeep, List.flatMap_cons, quote_encodeQuery]
  rfl

/-! ### The link read back -/

theorem toTomahawkLink_web (rest : QByteArray) :
    toTomahawkLink (fromAscii (ascii "http://toma.hk/" ++ rest)) =
      "tomahawk://".toList ++ fromAscii rest := by
  have h : fromAscii (ascii "http://toma.hk/" ++ rest) = "http://toma.hk/".toList ++ fromAscii rest := by
    rw [fromAscii, List.map_append]
    rfl
  rw [toTomahawkLink, h, if_pos (List.isPrefixOf_iff_prefix.mpr (List.prefix_append _ _)),
    List.drop_left' (show "http://toma.hk/".toList.length = 15 from rfl)]

theorem fromAscii_slash (word rest : QByteArray) :
    fromAscii (word ++ 0x2F :: rest) = fromAscii word ++ '/' :: fromAscii rest := by
  rw [fromAscii, List.map_append, List.map_cons]
  rfl

theorem parseTomahawkLink_shareCommand (env : Env) (m : Manager) {word rest q : QByteArray}
    (hw0 : word ≠ []) (hw : ∀ b ∈ word, b ≠ 0x3A ∧ b ≠ 0x2F ∧ b ≠ 0x3F ∧ b ≠ 0x23)
    (hr : ∀ b ∈ rest, b ≠ 0x3F ∧ b ≠ 0x23) (hesc : escapedText (word ++ 0x2F :: rest) = true)
    (hqe : escapedText q = true) (hq : 0x23 ∉ q) :
    parseTomahawkLink env ("tomahawk://".toList ++ fromAscii (word ++ 0x2F :: rest ++ 0x3F :: q)) m =
      dispatchCommand env (fromAscii word) ⟨[], none, word ++ 0x2F :: rest, some q, none⟩ m := by
  have hP : escapedText (word ++ 0x2F :: rest ++ 0x3F :: q) = true := by
    rw [escapedText_append hesc, escapedText_cons_of_ne (by decide), hqe]
    rfl
  have hascii : ∀ b ∈ word ++ 0x2F :: rest ++ 0x3F :: q, b < 0x80 := fun b hb => by
    have := not_tolerantEncodes_of_escapedText hP b hb
    simp only [tolerantEncodes, Bool.or_eq_false_iff, decide_eq_false_iff_not] at this
    omega
  have hplus : contains (fromAscii (word ++ 0x2F :: rest ++ 0x3F :: q)) "%2B".toList = false := by
    rw [show "%2B".toList = fromAscii [0x25, 0x32, 0x42] from rfl,
      contains_fromAscii (fun b hb => by have := hascii b hb; omega) (by decide)]
    exact contains_plusEscape_of_escapedText hP
  have hfirst : firstPart (fromAscii (word ++ 0x2F :: rest ++ 0x3F :: q)) '/' = fromAscii word := by
    rw [List.append_assoc, List.cons_append, fromAscii_slash]
    refine firstPart_append_of_not_mem _ _ _ fun h => ?_
    obtain ⟨b, hb, hb'⟩ := List.mem_map.mp h
    have := toNat_ofNat_of_lt (show b < 0xD800 by have := hascii b (by simp [hb]); omega)
    rw [hb'] at this
    exact (hw b hb).2.1 this.symm
  simp only [parseTomahawkLink_of_contains env _ m (contains_of_startsWith (List.prefix_append _ _)),
    List.drop_left' (show "tomahawk://".toList.length = 11 from rfl), parseTomahawkCommand, replace_of_not_contains _ _ _ hplus, hfirst,
    Utf8.toUtf8_fromAscii hascii, fromEncoded, tolerantFix_of_escapedText hP,
    parse_relative hw0 hw hr hq]

theorem keeps_clipboard_percent : Keeps clipboardExcludeChars [0x3D, 0x26] 0x25 = false := by decide

theorem tolerantEncodes_of_keeps_clipboard (b : Nat)
    (h : Keeps clipboardExcludeChars [0x3D, 0x26] b = true) : tolerantEncodes b = false := by
  simp only [Keeps, Bool.and_eq_true, Bool.or_eq_true] at h
  rcases h.1 with hu | hc
  · simp only [isUnreserved, Bool.or_eq_true, Bool.and_eq_true, decide_eq_true_eq, beq_iff_eq] at hu
    simp only [tolerantEncodes, List.elem_eq_mem, List.mem_cons, List.not_mem_nil, or_false,
      Bool.or_eq_false_iff, decide_eq_false_iff_not, not_or]
    omega
  · have hlisted : ∀ x ∈ clipboardExcludeChars, tolerantEncodes x = false := by decide
    exact hlisted b (List.elem_iff.mp hc)

theorem parseTomahawkLink_clipboardText (env : Env) (m : Manager) (base : QUrl)
    (word rest : QByteArray) (hbase : toEncoded base = ascii "http://toma.hk/" ++ word ++ 0x2F :: rest)
    (hq : base.query = none) (hf : base.fragment = none) (hw0 : word ≠ [])
    (hw : ∀ b ∈ word, b ≠ 0x3A ∧ b ≠ 0x2F ∧ b ≠ 0x3F ∧ b ≠ 0x23)
    (hr : ∀ b ∈ rest, b ≠ 0x3F ∧ b ≠ 0x23) (hesc : escapedText (word ++ 0x2F :: rest) = true)
    (hquote : 0x27 ∉ word ++ 0x2F :: rest) (item : QString × QString)
    (items : List (QString × QString)) :
    parseTomahawkLink env (toTomahawkLink (clipboardText (addQueryItems base (item :: items)))) m =
      dispatchCommand env (fromAscii word)
        ⟨[], none, word ++ 0x2F :: rest, some (encodeQuery clipboardExcludeChars (item :: items)),
          none⟩ m := by
  have hpath : 0x27 ∉ ascii "http://toma.hk/" ++ word ++ 0x2F :: rest := by
    rw [List.append_assoc, List.mem_append, not_or]
    exact ⟨by decide, hquote⟩
  rw [clipboardText_addQueryItems hbase hq hf hpath, List.append_assoc, List.append_assoc,
    toTomahawkLink_web, ← List.append_assoc]
  exact parseTomahawkLink_shareCommand env m hw0 hw hr hesc
    (escapedText_encodeQuery keeps_clipboard_percent (by decide) tolerantEncodes_of_keeps_clipboard _)
    (not_mem_encodeQuery (by decide) (by decide) (by decide) (by decide) (by decide) _)

theorem dispatchCommand_open (env : Env) (u : QUrl) (m : Manager) :
    dispatchCommand env "open".toList u m = handleOpenCommand env u m := by
  simp [dispatchCommand]

/-! ### Track links -/

def trackItems (title artist album : QString) : List (QString × QString) :=
  (if title.isEmpty then [] else [("title".toList, title)]) ++
  (if artist.isEmpty then [] else [("artist".toList, artist)]) ++
  (if album.isEmpty then [] else [("album".toList, album)])

theorem openLink_eq (title artist album : QString) :
    openLink title artist album =
      addQueryItems (linkUrl (hostname ++ "/open/track/".toList)) (trackItems title artist album) := by
  simp only [openLink, trackItems, addQueryItems, List.foldl_append]
  split_ifs <;> rfl

theorem readTrackFields_trackItems (title artist album : QString) :
    readTrackFields (trackItems title artist album) = ⟨title, artist, album, []⟩ := by
  cases title <;> cases artist <;> cases album <;> rfl

theorem queueSpotifyLink_trackItems (title artist album : QString) :
    queueSpotifyLink (trackItems title artist album) = [] := by
  cases title <;> cases artist <;> cases album <;> rfl

theorem transparent_trackItems {title artist album : QString} (ht : Utf8.Transparent title)
    (ha : Utf8.Transparent artist) (hal : Utf8.Transparent album) :
    ∀ item ∈ trackItems title artist album, Utf8.Transparent item.1 ∧ Utf8.Transparent item.2 := by
  intro item hi
  simp only [trackItems, List.mem_append] at hi
  rcases hi with (h | h) | h <;> split_ifs at h <;> simp at h <;> subst h
  exacts [⟨(by decide : Utf8.Transparent "title".toList), ht⟩,
    ⟨(by decide : Utf8.Transparent "artist".toList), ha⟩,
    ⟨(by decide : Utf8.Transparent "album".toList), hal⟩]

theorem doQueueAdd_trackItems (env : Env) (parts : List QString) (m : Manager)
    {title artist album : QString} (hne : title ≠ [] ∨ artist ≠ [] ∨ album ≠ []) :
    doQueueAdd env ("track".toList :: parts) (trackItems title artist album) m =
      ⟨true, (handleOpenTrack env.isPlaying ⟨m.nextId, artist, title, album, []⟩
          { m with nextId := m.nextId + 1 }).1,
        [.resolve ⟨m.nextId, artist, title, album, []⟩,
          .appendToQueue ⟨m.nextId, artist, title, album, []⟩, .showQueue]⟩ := by
  simp [doQueueAdd, queueSpotifyLink_trackItems, readTrackFields_trackItems, hne, handleOpenTrack]

theorem parseTomahawkLink_copyToClipboard (env : Env) (m : Manager) (q : Query)
    (hne : q.track ≠ [] ∨ q.artist ≠ [] ∨ q.album ≠ []) (ht : Utf8.Transparent q.track)
    (ha : Utf8.Transparent q.artist) (hal : Utf8.Transparent q.album) :
    parseTomahawkLink env (toTomahawkLink (copyToClipboard q)) m =
      ⟨true, (handleOpenTrack env.isPlaying ⟨m.nextId, q.artist, q.track, q.album, []⟩
          { m with nextId := m.nextId + 1 }).1,
        [.resolve ⟨m.nextId, q.artist, q.track, q.album, []⟩,
          .appendToQueue ⟨m.nextId, q.artist, q.track, q.album, []⟩, .showQueue]⟩ := by
  obtain ⟨item, items, hitems⟩ := List.exists_cons_of_ne_nil
    (show trackItems q.track q.artist q.album ≠ [] by simp [trackItems]; tauto)
  have hu := parseTomahawkLink_clipboardText env m (linkUrl (hostname ++ "/open/track/".toList))
    (ascii "open") (ascii "track/") (by decide) (by decide) (by decide) (by decide) (by decide)
    (by decide) (by decide) (by decide) item items
  have hparts : commandParts ⟨[], none, ascii "open" ++ 0x2F :: ascii "track/",
      some (encodeQuery clipboardExcludeChars (item :: items)), none⟩ = ["track".toList, []] := rfl
  have hitems' := queryItems_of_encodeQuery (u := ⟨[], none, ascii "open" ++ 0x2F :: ascii "track/",
    some (encodeQuery clipboardExcludeChars (item :: items)), none⟩) keeps_clipboard_percent
    (List.cons_ne_nil item items) rfl (hitems ▸ transparent_trackItems ht ha hal)
  rw [copyToClipboard, openLinkFromQuery, openLink_eq, hitems, hu,
    show fromAscii (ascii "open") = "open".toList from rfl, dispatchCommand_open, handleOpenCommand,
    hparts, if_neg (List.cons_ne_nil _ _), hitems', ← hitems, doQueueAdd_trackItems env _ m hne]

theorem parseTomahawkLink_copyToClipboard_sample :
    ("a'+% \u00E9".toList ≠ [] ∨ "b&c=d".toList ≠ [] ∨ ([] : QString) ≠ []) ∧
      Utf8.Transparent "a'+% \u00E9".toList ∧ Utf8.Transparent "b&c=d".toList ∧
      Utf8.Transparent ([] : QString) ∧
      parseTomahawkLink idleEnv
          (toTomahawkLink (copyToClipboard ⟨7, "b&c=d".toList, "a'+% \u00E9".toList, [], []⟩))
          Manager.initial =
        ⟨true, (handleOpenTrack idleEnv.isPlaying ⟨0, "b&c=d".toList, "a'+% \u00E9".toList, [], []⟩
            { Manager.initial with nextId := 1 }).1,
          [.resolve ⟨0, "b&c=d".toList, "a'+% \u00E9".toList, [], []⟩,
            .appendToQueue ⟨0, "b&c=d".toList, "a'+% \u00E9".toList, [], []⟩, .showQueue]⟩ :=
  ⟨by decide, by decide, by decide, by decide,
    parseTomahawkLink_copyToClipboard idleEnv Manager.initial _ (by decide) (by decide) (by decide)
      (by decide)⟩

theorem copyToClipboard_bom_title_refused :
    parseTomahawkLink idleEnv (toTomahawkLink (copyToClipboard ⟨0, [], "\uFEFF".toList, [], []⟩))
        Manager.initial = ⟨false, Manager.initial, []⟩ := by
  decide

/-! ### Station and autoplaylist links -/

def playlistItems (title : QString) (controls : List Control) : List (QString × QString) :=
  ("type".toList, "echonest".toList) :: ("title".toList, title) :: controls.map itemFor

theorem addEncodedQueryItem_type (u : QUrl) :
    u.addEncodedQueryItem (ascii "type") (ascii "echonest") =
      u.addQueryItem "type".toList "echonest".toList := rfl

theorem copyPlaylistToClipboard_eq {playlist : DynamicPlaylist} (controls : List Control)
    (htype : playlist.type = "echonest".toList) :
    copyPlaylistToClipboard playlist controls =
      some (clipboardText (addQueryItems (linkUrl (hostname ++ '/' ::
        (if playlist.mode = .onDemand then "station".toList else "autoplaylist".toList) ++
          "/create/".toList)) (playlistItems playlist.title controls))) := by
  simp only [copyPlaylistToClipboard, htype, ne_eq, not_true_eq_false, if_false, playlistItems,
    addQueryItems, List.foldl_cons, addEncodedQueryItem_type]

theorem plainKey_itemKey : ∀ p ∈ producedPairs, PlainKey (itemKey p.1 p.2) := by decide

theorem transparent_playlistItems {title : QString} {controls : List Control}
    (ht : Utf8.Transparent title) (hc : ∀ c ∈ controls, Producible c ∧ Utf8.Transparent c.input) :
    ∀ item ∈ playlistItems title controls, Utf8.Transparent item.1 ∧ Utf8.Transparent item.2 := by
  simp only [playlistItems, List.mem_cons, List.mem_map, forall_eq_or_imp, forall_exists_index,
    and_imp, forall_apply_eq_imp_iff₂]
  refine ⟨by decide, ⟨by decide, ht⟩, fun c hcs => ⟨?_, (hc c hcs).2⟩⟩
  exact transparent_of_plainKey (plainKey_itemKey _ (hc c hcs).1)

theorem loadDynamicPlaylist_playlistItems {u : QUrl} (station : Bool) (m : Manager)
    {title : QString} {controls : List Control} (hparts : commandParts u = ["create".toList, []])
    (hu : u.query = some (encodeQuery clipboardExcludeChars (playlistItems title controls)))
    (ht : Utf8.Transparent title) (hc : ∀ c ∈ controls, Producible c ∧ Utf8.Transparent c.input) :
    loadDynamicPlaylist u station m =
      (some ⟨m.nextId, title, "echonest".toList, if station then .onDemand else .static⟩,
        { m with nextId := m.nextId + 1 },
        [.createDynamicPlaylist ⟨m.nextId, title, "echonest".toList,
            if station then .onDemand else .static⟩,
          .createRevision "echonest".toList controls
            ((if station then GeneratorMode.onDemand else .static) = .static)]) := by
  have htr := transparent_playlistItems ht hc
  have hne : playlistItems title controls ≠ [] := List.cons_ne_nil _ _
  have hhas := fun key (hk : PlainKey key) =>
    hasQueryItem_of_encodeQuery keeps_clipboard_percent hne hu htr hk
  have hval := fun key (hk : PlainKey key) =>
    queryItemValue_of_encodeQuery keeps_clipboard_percent hne hu htr hk
  have hcontrols : controlsFor (playlistItems title controls) = controls := by
    rw [playlistItems, controlsFor, List.filterMap_cons_none rfl, List.filterMap_cons_none rfl,
      ← controlsFor, controlsFor_map_itemFor fun c hcs => (hc c hcs).1]
  rw [loadDynamicPlaylist, hparts, hhas "title".toList (by decide), hhas "type".toList (by decide),
    hval "title".toList (by decide), hval "type".toList (by decide),
    queryItems_of_encodeQuery keeps_clipboard_percent hne hu htr, hcontrols]
  simp [playlistItems]

theorem dispatchCommand_create (env : Env) (u : QUrl) (m : Manager) (mode : GeneratorMode) :
    dispatchCommand env (fromAscii (ascii (if mode = .onDemand then "station" else "autoplaylist"))) u m =
      handleDynamicCommand u (mode = .onDemand) m := by
  cases mode <;> rfl

theorem parseTomahawkLink_copyPlaylistToClipboard (env : Env) (m : Manager)
    (playlist : DynamicPlaylist) (controls : List Control) (htype : playlist.type = "echonest".toList)
    (ht : Utf8.Transparent playlist.title)
    (hc : ∀ c ∈ controls, Producible c ∧ Utf8.Transparent c.input) :
    (copyPlaylistToClipboard playlist controls).map
        (fun text => parseTomahawkLink env (toTomahawkLink text) m) =
      some ⟨true, { m with nextId := m.nextId + 1 },
        [.createDynamicPlaylist ⟨m.nextId, playlist.title, "echonest".toList, playlist.mode⟩,
          .createRevision "echonest".toList controls (playlist.mode = .static)]⟩ := by
  rw [copyPlaylistToClipboard_eq controls htype, Option.map_some', playlistItems]
  generalize playlist.mode = mode
  rw [parseTomahawkLink_clipboardText env m _
      (ascii (if mode = .onDemand then "station" else "autoplaylist")) (ascii "create/") (by cases mode <;> decide) (by cases mode <;> decide)
      (by cases mode <;> decide) (by cases mode <;> decide) (by cases mode <;> decide) (by decide)
      (by cases mode <;> decide) (by cases mode <;> decide),
    dispatchCommand_create, handleDynamicCommand,
    loadDynamicPlaylist_playlistItems _ m (by cases mode <;> rfl) rfl ht hc]
  cases mode <;> rfl

theorem parseTomahawkLink_copyPlaylistToClipboard_sample :
    ("echonest".toList = "echonest".toList) ∧ Utf8.Transparent "Mix 'n' Match".toList ∧
      (∀ c ∈ [(⟨"Artist".toList, "1".toList, "Bj\u00F6rk".toList⟩ : Control),
          ⟨"Tempo".toList, "11".toList, "140".toList⟩],
        Producible c ∧ Utf8.Transparent c.input) ∧
      (copyPlaylistToClipboard ⟨3, "Mix 'n' Match".toList, "echonest".toList, .static⟩
          [⟨"Artist".toList, "1".toList, "Bj\u00F6rk".toList⟩, ⟨"Tempo".toList, "11".toList, "140".toList⟩]).map
          (fun text => parseTomahawkLink idleEnv (toTomahawkLink text) Manager.initial) =
        some ⟨true, { Manager.initial with nextId := 1 },
          [.createDynamicPlaylist ⟨0, "Mix 'n' Match".toList, "echonest".toList, .static⟩,
            .createRevision "echonest".toList
              [⟨"Artist".toList, "1".toList, "Bj\u00F6rk".toList⟩, ⟨"Tempo".toList, "11".toList, "140".toList⟩]
              true]⟩ :=
  ⟨rfl, by decide, by decide,
    parseTomahawkLink_copyPlaylistToClipboard idleEnv Manager.initial _ _ rfl (by decide) (by decide)⟩

theorem copyPlaylistToClipboard_bom_title_lost :
    (copyPlaylistToClipboard ⟨0, "\uFEFF".toList, "echonest".toList, .onDemand⟩ []).map
        (fun text => parseTomahawkLink idleEnv (toTomahawkLink text) Manager.initial) =
      some ⟨true, { Manager.initial with nextId := 1 },
        [.createDynamicPlaylist ⟨0, [], "echonest".toList, .onDemand⟩,
          .createRevision "echonest".toList [] false]⟩ := by
  decide

end Tomahawk
