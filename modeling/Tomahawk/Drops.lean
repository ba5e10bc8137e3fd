import Tomahawk.TrackUrls
import Tomahawk.Qt.Utf8
import Tomahawk.Qt.DataStream
import Tomahawk.Manager

/-! Drag and drop: what `acceptsMimeData` accepts, which converter `tracksFromMimeData` picks, and
what the converters read from a drop's `QDataStream`. -/

namespace Tomahawk

open Text

abbrev MimeData := List (QString × QByteArray)

namespace MimeData

def hasFormat (d : MimeData) (format : QString) : Bool := d.any (·.1 = format)

def data (d : MimeData) (format : QString) : QByteArray :=
  ((d.find? (·.1 = format)).map (·.2)).getD []

end MimeData

def textHas (d : MimeData) (word : String) : Bool :=
  d.hasFormat "text/plain".toList && contains (d.data "text/plain".toList) (ascii word)

def acceptsMimeData (d : MimeData) (tracksOnly : Bool) : Bool :=
  d.hasFormat "application/tomahawk.query.list".toList ||
    d.hasFormat "application/tomahawk.plentry.list".toList ||
    d.hasFormat "application/tomahawk.result.list".toList ||
    d.hasFormat "application/tomahawk.metadata.album".toList ||
    d.hasFormat "application/tomahawk.metadata.artist".toList ||
    (textHas d "spotify" &&
      if tracksOnly then contains (d.data "text/plain".toList) (ascii "track") else true) ||
    (textHas d "rdio.com" &&
      if tracksOnly then contains (d.data "text/plain".toList) (ascii "track") else true) ||
    textHas d "bit.ly" || textHas d "j.mp" || textHas d "t.co" || textHas d "rd.io"

inductive MimeConverter
  | queryList
  | resultList
  | albumMetaData
  | artistMetaData
  | trackUrls (parser : TrackUrlParser) (lines : List QString)
  deriving DecidableEq, Repr

/-- `QString::fromUtf8( data.constData() )`: the bytes up to the first NUL, decoded. -/
def plainText (bytes : QByteArray) : QString := Utf8.fromUtf8 (bytes.takeWhile (· ≠ 0))

def tracksFromMimeData (d : MimeData) : Option MimeConverter :=
  if d.hasFormat "application/tomahawk.query.list".toList then some .queryList
  else if d.hasFormat "application/tomahawk.result.list".toList then some .resultList
  else if d.hasFormat "application/tomahawk.metadata.album".toList then some .albumMetaData
  else if d.hasFormat "application/tomahawk.metadata.artist".toList then some .artistMetaData
  else if d.hasFormat "text/plain".toList then
    (handleTrackUrls (plainText (d.data "text/plain".toList))).map fun p => .trackUrls p.1 p.2
  else none

/-! ### What is accepted and not converted -/

theorem accepted_drops_unconverted :
    (∀ tracksOnly,
        acceptsMimeData [("application/tomahawk.plentry.list".toList, [])] tracksOnly = true) ∧
      tracksFromMimeData [("application/tomahawk.plentry.list".toList, [])] = none ∧
      (∀ tracksOnly,
        acceptsMimeData [("text/plain".toList, ascii "spotify:album:1 track")] tracksOnly = true) ∧
      tracksFromMimeData [("text/plain".toList, ascii "spotify:album:1 track")] = none ∧
      (∀ tracksOnly,
        acceptsMimeData [("text/plain".toList, 0 :: ascii "rdio.com/track")] tracksOnly = true) ∧
      tracksFromMimeData [("text/plain".toList, 0 :: ascii "rdio.com/track")] = none := by
  decide

/-! ### What is converted and not accepted -/

theorem lt_of_mem_ascii {word : String} (hw : ∀ c ∈ word.toList, c.toNat < 0x80) :
    ∀ b ∈ ascii word, b < 0x80 := fun b hb => by
  obtain ⟨c, hc, rfl⟩ := List.mem_map.mp hb
  exact hw c hc

theorem contains_of_contains_plainText {bytes : QByteArray} {word : String}
    (hw : ∀ c ∈ word.toList, c.toNat < 0x80) (hne : word.toList ≠ [])
    (h : contains (plainText bytes) word.toList = true) : contains bytes (ascii word) = true := by
  rw [plainText, ← fromAscii_ascii] at h
  have ht := Utf8.contains_of_contains_fromUtf8 (lt_of_mem_ascii hw) (by simpa [ascii] using hne) h
  exact (contains_iff _ _).mpr (((contains_iff _ _).mp ht).trans (List.takeWhile_prefix _).isInfix)

theorem converted_drops_accepted {d : MimeData} {conv : MimeConverter} (tracksOnly : Bool)
    (h : tracksFromMimeData d = some conv) :
    acceptsMimeData d tracksOnly = true ∨
      tracksOnly = true ∧ (∃ lines, conv = .trackUrls .rdio lines) ∧
        contains (d.data "text/plain".toList) (ascii "track") = false := by
  have hword : ∀ word : String, (∀ c ∈ word.toList, c.toNat < 0x80) → word.toList ≠ [] →
      contains (plainText (d.data "text/plain".toList)) word.toList = true →
        contains (d.data "text/plain".toList) (ascii word) = true :=
    fun _ => contains_of_contains_plainText
  unfold tracksFromMimeData at h
  unfold acceptsMimeData
  split_ifs at h with hq hr hal har ht
  · exact .inl (by simp only [hq, Bool.true_or])
  · exact .inl (by simp only [hr, Bool.true_or, Bool.or_true])
  · exact .inl (by simp only [hal, Bool.true_or, Bool.or_true])
  · exact .inl (by simp only [har, Bool.true_or, Bool.or_true])
  · have htext : ∀ word : String, (∀ c ∈ word.toList, c.toNat < 0x80) → word.toList ≠ [] →
        contains (plainText (d.data "text/plain".toList)) word.toList = true → textHas d word = true :=
      fun word hw hne hc => Bool.and_eq_true_iff.mpr ⟨ht, hword word hw hne hc⟩
    obtain ⟨⟨p, lines⟩, hp, rfl⟩ := Option.map_eq_some'.mp h
    unfold handleTrackUrls at hp
    split_ifs at hp with hs hrd hsh <;> cases hp
    · -- a Spotify track link says both `spotify` and `track`
      have hsp : contains (plainText (d.data "text/plain".toList)) "spotify".toList = true ∧
          contains (plainText (d.data "text/plain".toList)) "track".toList = true := by
        rcases Bool.or_eq_true_iff.mp hs with hs | hs <;>
          exact ⟨contains_of_infix_of_contains hs ((contains_iff _ _).mp (by decide)),
            contains_of_infix_of_contains hs ((contains_iff _ _).mp (by decide))⟩
      exact .inl (by simp only [htext _ (by decide) (by decide) hsp.1,
        hword _ (by decide) (by decide) hsp.2, ite_self, Bool.and_self, Bool.true_or, Bool.or_true])
    · have hr' := htext _ (by decide) (by decide) hrd
      cases tracksOnly
      · exact .inl (by simp only [hr', Bool.false_eq_true, if_false, Bool.and_self, Bool.true_or,
          Bool.or_true])
      · cases htr : contains (d.data "text/plain".toList) (ascii "track")
        · exact .inr ⟨rfl, ⟨_, rfl⟩, rfl⟩
        · exact .inl (by simp only [hr', htr, if_true, Bool.and_self, Bool.true_or, Bool.or_true])
    · simp only [Bool.or_eq_true] at hsh
      refine .inl ?_
      rcases hsh with ((hx | hx) | hx) | hx <;>
        simp only [htext _ (by decide) (by decide) hx, Bool.true_or, Bool.or_true]

theorem converted_drops_accepted_rdio :
    tracksFromMimeData [("text/plain".toList, ascii "rdio.com")] =
        some (.trackUrls .rdio ["rdio.com".toList]) ∧
      (acceptsMimeData [("text/plain".toList, ascii "rdio.com")] true = true ∨
        true = true ∧ (∃ lines, MimeConverter.trackUrls .rdio ["rdio.com".toList] =
          .trackUrls .rdio lines) ∧
          contains (MimeData.data [("text/plain".toList, ascii "rdio.com")] "text/plain".toList)
            (ascii "track") = false) :=
  ⟨by decide, converted_drops_accepted true (by decide)⟩

/-! ### The converters -/

open DataStream

/-- The loop of `tracksFromQueryList` and `tracksFromResultList`; address 0 is skipped. -/
def pointerItems (item : Nat → Option Query) (bytes : QByteArray) : List Query :=
  (int64Read.loop bytes).filterMap fun p => if p = 0 then none else item p

def tracksFromQueryList (deref : Nat → Option Query) (d : MimeData) : List Query :=
  pointerItems deref (d.data "application/tomahawk.query.list".toList)

def tracksFromResultList (toQuery : Nat → Option Query) (d : MimeData) : List Query :=
  pointerItems toQuery (d.data "application/tomahawk.result.list".toList)

def albumLookups (d : MimeData) : List (Utf16 × Utf16) :=
  (stringRead.pair stringRead).loop (d.data "application/tomahawk.metadata.album".toList)

def tracksFromAlbumMetaData (tracks : Utf16 → Utf16 → List Query) (d : MimeData) : List Query :=
  (albumLookups d).flatMap fun p => tracks p.1 p.2

def artistLookups (d : MimeData) : List Utf16 :=
  stringRead.loop (d.data "application/tomahawk.metadata.artist".toList)

def tracksFromArtistMetaData (tracks : Utf16 → List Query) (d : MimeData) : List Query :=
  (artistLookups d).flatMap tracks

def albumPayload (albums : List (Utf16 × Utf16)) : QByteArray :=
  albums.flatMap fun p => writeString p.1 ++ writeString p.2

/-! ### Reading back what a drag source wrote -/

theorem int64Read_loop_payload {ps : List Nat} (hp : ∀ p ∈ ps, p < 0x10000000000000000)
    {tail : QByteArray} (ht : tail.length < 8) :
    int64Read.loop (ps.flatMap writeInt64 ++ tail) = ps ++ if tail = [] then [] else [0] := by
  have hrun : ∀ p ∈ ps, writeInt64 p ≠ [] ∧ ∀ rest, int64Read.run (writeInt64 p ++ rest) = (p, rest) :=
    fun p hp' => ⟨by simp [writeInt64, ← List.length_pos], fun rest => by
      rw [int64Read_run, readInt64_writeInt64 (hp p hp')]⟩
  rw [Read.loop_flatMap hrun]
  rcases tail with _ | ⟨b, tail⟩
  · rw [Read.loop_nil, if_pos rfl]
  · have ht' : int64Read.run (b :: tail) = (0, []) := by rw [int64Read_run, readInt64, readBE_of_lt ht]
    rw [Read.loop_of_run (List.cons_ne_nil b tail) ht', Read.loop_nil, if_neg nofun]

theorem stringRead_run_writeString {s : Utf16} (hs : Streamable s) (rest : QByteArray) :
    stringRead.run (writeString s ++ rest) = (s, rest) := by
  rw [stringRead_run, readString_writeString hs rest]

theorem albumRead_run {a b : Utf16} (ha : Streamable a) (hb : Streamable b) (rest : QByteArray) :
    (stringRead.pair stringRead).run (writeString a ++ writeString b ++ rest) = ((a, b), rest) := by
  simp only [Read.pair, List.append_assoc, stringRead_run_writeString ha,
    stringRead_run_writeString hb]

theorem pointerItems_payload (item : Nat → Option Query) {ps : List Nat}
    (hp : ∀ p ∈ ps, p < 0x10000000000000000) {tail : QByteArray} (ht : tail.length < 8) :
    pointerItems item (ps.flatMap writeInt64 ++ tail) =
      ps.filterMap (fun p => if p = 0 then none else item p) := by
  rw [pointerItems, int64Read_loop_payload hp ht, List.filterMap_append]
  split_ifs <;> simp

theorem pointer_drops_read_back (deref toQuery : Nat → Option Query) (d : MimeData) :
    (∀ (ps : List Nat) (tail : QByteArray), (∀ p ∈ ps, p < 0x10000000000000000) →
        tail.length < 8 →
        d.data "application/tomahawk.query.list".toList = ps.flatMap writeInt64 ++ tail →
        tracksFromQueryList deref d = ps.filterMap (fun p => if p = 0 then none else deref p)) ∧
      ∀ (ps : List Nat) (tail : QByteArray), (∀ p ∈ ps, p < 0x10000000000000000) →
        tail.length < 8 →
        d.data "application/tomahawk.result.list".toList = ps.flatMap writeInt64 ++ tail →
        tracksFromResultList toQuery d = ps.filterMap (fun p => if p = 0 then none else toQuery p) :=
  ⟨fun _ _ hp ht hq => by rw [tracksFromQueryList, hq, pointerItems_payload deref hp ht],
    fun _ _ hp ht hr => by rw [tracksFromResultList, hr, pointerItems_payload toQuery hp ht]⟩

theorem pointer_drops_read_back_sample :
    (∀ p ∈ [0, 0x1234], p < 0x10000000000000000) ∧ [7, 7].length < 8 ∧
      MimeData.data [("application/tomahawk.query.list".toList, [0, 0x1234].flatMap writeInt64 ++ [7, 7])]
          "application/tomahawk.query.list".toList = [0, 0x1234].flatMap writeInt64 ++ [7, 7] ∧
      tracksFromQueryList (fun _ => some (⟨1, [], "a".toList, [], []⟩ : Query))
          [("application/tomahawk.query.list".toList, [0, 0x1234].flatMap writeInt64 ++ [7, 7])] =
        [0, 0x1234].filterMap
          (fun p => if p = 0 then none else some (⟨1, [], "a".toList, [], []⟩ : Query)) ∧
      (∀ p ∈ [5], p < 0x10000000000000000) ∧ ([] : QByteArray).length < 8 ∧
      MimeData.data [("application/tomahawk.result.list".toList, [5].flatMap writeInt64 ++ [])]
          "application/tomahawk.result.list".toList = [5].flatMap writeInt64 ++ [] ∧
      tracksFromResultList (fun _ => none)
          [("application/tomahawk.result.list".toList, [5].flatMap writeInt64 ++ [])] =
        [5].filterMap (fun p => if p = 0 then none else none) :=
  ⟨by decide, by decide, by decide,
    (pointer_drops_read_back _ (fun _ => none) _).1 [0, 0x1234] [7, 7] (by decide) (by decide) (by decide),
    by decide, by decide, by decide,
    (pointer_drops_read_back (fun _ => none) _ _).2 [5] [] (by decide) (by decide) (by decide)⟩

theorem metadata_drops_read_back {albums : List (Utf16 × Utf16)}
    (hal : ∀ p ∈ albums, Streamable p.1 ∧ Streamable p.2) {artists : List Utf16}
    (har : ∀ a ∈ artists, Streamable a) {d : MimeData}
    (hd : d.data "application/tomahawk.metadata.album".toList = albumPayload albums)
    (hd' : d.data "application/tomahawk.metadata.artist".toList = artists.flatMap writeString) :
    albumLookups d = albums ∧ artistLookups d = artists := by
  constructor
  · rw [albumLookups, hd, albumPayload, ← List.append_nil (List.flatMap _ _),
      Read.loop_flatMap fun p hp => ⟨List.append_ne_nil_of_left_ne_nil (writeString_ne_nil _) _,
        albumRead_run (hal p hp).1 (hal p hp).2⟩, Read.loop_nil, List.append_nil]
  · rw [artistLookups, hd', ← List.append_nil (List.flatMap _ _),
      Read.loop_flatMap fun a ha => ⟨writeString_ne_nil a, stringRead_run_writeString (har a ha)⟩,
      Read.loop_nil, List.append_nil]

theorem metadata_drops_read_back_sample :
    (∀ p ∈ [([0x41], [0x42, 0x43])], Streamable p.1 ∧ Streamable p.2) ∧
      (∀ a ∈ [[0x44], []], Streamable a) ∧
      MimeData.data [("application/tomahawk.metadata.album".toList, albumPayload [([0x41], [0x42, 0x43])]),
          ("application/tomahawk.metadata.artist".toList, [[0x44], []].flatMap writeString)]
          "application/tomahawk.metadata.album".toList = albumPayload [([0x41], [0x42, 0x43])] ∧
      MimeData.data [("application/tomahawk.metadata.album".toList, albumPayload [([0x41], [0x42, 0x43])]),
          ("application/tomahawk.metadata.artist".toList, [[0x44], []].flatMap writeString)]
          "application/tomahawk.metadata.artist".toList = [[0x44], []].flatMap writeString ∧
      albumLookups [("application/tomahawk.metadata.album".toList, albumPayload [([0x41], [0x42, 0x43])]),
          ("application/tomahawk.metadata.artist".toList, [[0x44], []].flatMap writeString)] =
        [([0x41], [0x42, 0x43])] ∧
      artistLookups [("application/tomahawk.metadata.album".toList, albumPayload [([0x41], [0x42, 0x43])]),
          ("application/tomahawk.metadata.artist".toList, [[0x44], []].flatMap writeString)] =
        [[0x44], []] :=
  ⟨by decide, by decide, by decide, by decide, metadata_drops_read_back (by decide) (by decide) (by decide) (by decide)⟩

/-! ### Payloads cut short, and payloads of any form -/

theorem albumRead_run_take {a b : Utf16} (ha : Streamable a) (hb : Streamable b) {k : Nat}
    (hk : k < (writeString a ++ writeString b).length) :
    (stringRead.pair stringRead).run ((writeString a ++ writeString b).take k) =
      ((if (writeString a).length ≤ k then a else [], []), []) := by
  rcases Nat.lt_or_ge k (writeString a).length with h | h
  · rw [List.take_append_of_le_length h.le, if_neg (by omega)]
    simp only [Read.pair, stringRead, readString_take_writeString ha h, readString_nil]
  · rw [List.length_append] at hk
    rw [List.take_append_eq_append_take, List.take_of_length_le h, if_pos h]
    simp only [Read.pair, stringRead, readString_writeString ha,
      readString_take_writeString hb (show k - (writeString a).length < (writeString b).length by omega)]

theorem take_ne_nil {l : QByteArray} {n : Nat} (hn : 0 < n) (hl : n < l.length) : l.take n ≠ [] :=
  fun h => (List.take_eq_nil_iff.mp h).elim (by omega) fun he => by simp [he] at hl

theorem albumLookups_truncated {albums : List (Utf16 × Utf16)}
    (hal : ∀ p ∈ albums, Streamable p.1 ∧ Streamable p.2) {a b : Utf16} (ha : Streamable a)
    (hb : Streamable b) {k : Nat} (hk0 : 0 < k) (hk : k < (writeString a ++ writeString b).length)
    {d : MimeData} (hd : d.data "application/tomahawk.metadata.album".toList =
      albumPayload albums ++ (writeString a ++ writeString b).take k) :
    albumLookups d = albums ++ [(if (writeString a).length ≤ k then a else [], [])] := by
  rw [albumLookups, hd, albumPayload,
    Read.loop_flatMap fun p hp => ⟨List.append_ne_nil_of_left_ne_nil (writeString_ne_nil _) _,
      albumRead_run (hal p hp).1 (hal p hp).2⟩,
    Read.loop_of_run (take_ne_nil hk0 hk) (albumRead_run_take ha hb hk), Read.loop_nil]

theorem artistLookups_truncated {artists : List Utf16} (har : ∀ c ∈ artists, Streamable c)
    {c : Utf16} (hc : Streamable c) {j : Nat} (hj0 : 0 < j) (hj : j < (writeString c).length)
    {d : MimeData} (hd : d.data "application/tomahawk.metadata.artist".toList =
      artists.flatMap writeString ++ (writeString c).take j) :
    artistLookups d = artists ++ [[]] := by
  rw [artistLookups, hd,
    Read.loop_flatMap fun c hc => ⟨writeString_ne_nil c, stringRead_run_writeString (har c hc)⟩,
    Read.loop_of_run (take_ne_nil hj0 hj) (readString_take_writeString hc hj), Read.loop_nil]

theorem truncated_metadata_lookups (d : MimeData) :
    (∀ (albums : List (Utf16 × Utf16)) (a b : Utf16) (k : Nat),
        (∀ p ∈ albums, Streamable p.1 ∧ Streamable p.2) → Streamable a → Streamable b → 0 < k →
        k < (writeString a ++ writeString b).length →
        d.data "application/tomahawk.metadata.album".toList =
          albumPayload albums ++ (writeString a ++ writeString b).take k →
        albumLookups d = albums ++ [(if (writeString a).length ≤ k then a else [], [])]) ∧
      ∀ (artists : List Utf16) (c : Utf16) (j : Nat), (∀ c ∈ artists, Streamable c) →
        Streamable c → 0 < j → j < (writeString c).length →
        d.data "application/tomahawk.metadata.artist".toList =
          artists.flatMap writeString ++ (writeString c).take j →
        artistLookups d = artists ++ [[]] :=
  ⟨fun _ _ _ _ hal ha hb hk0 hk hd => albumLookups_truncated hal ha hb hk0 hk hd,
    fun _ _ _ har hc hj0 hj hd => artistLookups_truncated har hc hj0 hj hd⟩

theorem truncated_metadata_lookups_sample :
    (∀ p ∈ [([0x41], [0x42])], Streamable p.1 ∧ Streamable p.2) ∧ Streamable [0x43] ∧
      Streamable [0x44] ∧ 0 < 7 ∧ 7 < (writeString [0x43] ++ writeString [0x44]).length ∧
      MimeData.data [("application/tomahawk.metadata.album".toList,
            albumPayload [([0x41], [0x42])] ++ (writeString [0x43] ++ writeString [0x44]).take 7)]
          "application/tomahawk.metadata.album".toList =
        albumPayload [([0x41], [0x42])] ++ (writeString [0x43] ++ writeString [0x44]).take 7 ∧
      albumLookups [("application/tomahawk.metadata.album".toList,
            albumPayload [([0x41], [0x42])] ++ (writeString [0x43] ++ writeString [0x44]).take 7)] =
        [([0x41], [0x42])] ++ [(if (writeString [0x43]).length ≤ 7 then [0x43] else [], [])] ∧
      (∀ c ∈ [[0x45]], Streamable c) ∧ Streamable [0x46, 0x47] ∧ 0 < 5 ∧
      5 < (writeString [0x46, 0x47]).length ∧
      MimeData.data [("application/tomahawk.metadata.artist".toList,
            [[0x45]].flatMap writeString ++ (writeString [0x46, 0x47]).take 5)]
          "application/tomahawk.metadata.artist".toList =
        [[0x45]].flatMap writeString ++ (writeString [0x46, 0x47]).take 5 ∧
      artistLookups [("application/tomahawk.metadata.artist".toList,
            [[0x45]].flatMap writeString ++ (writeString [0x46, 0x47]).take 5)] =
        [[0x45]] ++ [[]] :=
  ⟨by decide, by decide, by decide, by decide, by decide, by decide,
    (truncated_metadata_lookups _).1 _ _ [0x44] _ (by decide) (by decide) (by decide) (by decide)
      (by decide) (by decide),
    by decide, by decide, by decide, by decide, by decide,
    (truncated_metadata_lookups _).2 _ [0x46, 0x47] 5 (by decide) (by decide) (by decide) (by decide)
      (by decide)⟩

theorem metadata_lookups_bounded (d : MimeData) :
    (albumLookups d).length ≤ ((d.data "application/tomahawk.metadata.album".toList).length + 7) / 8 ∧
      (artistLookups d).length ≤
        ((d.data "application/tomahawk.metadata.artist".toList).length + 3) / 4 := by
  have h8 := (stringRead_takes.pair stringRead_takes).length_loop (by decide)
    (d.data "application/tomahawk.metadata.album".toList)
  have h4 := stringRead_takes.length_loop (by decide)
    (d.data "application/tomahawk.metadata.artist".toList)
  rw [albumLookups, artistLookups, Nat.le_div_iff_mul_le (by decide),
    Nat.le_div_iff_mul_le (by decide)]
  omega

end Tomahawk
