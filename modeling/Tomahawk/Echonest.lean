import Tomahawk.Qt.Text

/-! The Echo Nest playlist parameters a station link names, and the two tables that move between
them and link items: `loadDynamicPlaylist` reads an item into a control, and
`copyPlaylistToClipboard` writes a control as an item. -/

namespace Tomahawk.Echonest

open Text

/-- `Echonest::DynamicPlaylist::PlaylistParam` as libechonest declares it, up to `MaxEnergy`. -/
inductive PlaylistParam
  | type | format | pick | variety | artistId | artist | artistSeedCatalog | sourceCatalog | songId
  | description | results | maxTempo | minTempo | maxDuration | minDuration | maxLoudness
  | minLoudness | artistMaxFamiliarity | artistMinFamiliarity | artistMaxHotttnesss
  | artistMinHotttnesss | songMaxHotttnesss | songMinHotttnesss | artistMinLongitude
  | artistMaxLongitude | artistMinLatitude | artistMaxLatitude | mode | key | songInformation
  | sort | limit | audio | dmca | chainXspf | mood | style | adventurousness | minDanceability
  | maxDanceability | minEnergy | maxEnergy
  deriving DecidableEq, Repr

inductive ArtistTypeEnum
  | artistType | artistRadioType | artistDescriptionType | catalogType | catalogRadioType
  | songRadioType
  deriving DecidableEq, Repr

def PlaylistParam.toInt (p : PlaylistParam) : Int := p.toCtorIdx

def ArtistTypeEnum.toInt (t : ArtistTypeEnum) : Int := t.toCtorIdx

structure Control where
  selectedType : QString
  matchValue : QString
  input : QString
  deriving DecidableEq, Repr

inductive KeyTest
  | equals (key : QString)
  | startsWith (prefix_ : QString)
  deriving DecidableEq, Repr

def KeyTest.test : KeyTest → QString → Bool
  | .equals k, key => key == k
  | .startsWith p, key => p.isPrefixOf key

/-- One branch of `loadDynamicPlaylist`'s loop: the control it creates and the match it sets. -/
structure FilterRule where
  test : KeyTest
  selectedType : QString
  base : Int
  maxOffset : Int
  deriving DecidableEq, Repr

open PlaylistParam ArtistTypeEnum in
def filterRules : List FilterRule :=
  [⟨.equals "artist".toList, "Artist".toList, artistRadioType.toInt, 0⟩,
   ⟨.equals "artist_limitto".toList, "Artist".toList, artistType.toInt, 0⟩,
   ⟨.equals "description".toList, "Artist Description".toList, artistDescriptionType.toInt, 0⟩,
   ⟨.equals "variety".toList, "Variety".toList, variety.toInt, 0⟩,
   ⟨.startsWith "tempo".toList, "Tempo".toList, minTempo.toInt, -1⟩,
   ⟨.startsWith "duration".toList, "Duration".toList, minDuration.toInt, -1⟩,
   ⟨.startsWith "loudness".toList, "Loudness".toList, minLoudness.toInt, -1⟩,
   ⟨.startsWith "danceability".toList, "Danceability".toList, minDanceability.toInt, 1⟩,
   ⟨.startsWith "energy".toList, "Energy".toList, minEnergy.toInt, 1⟩,
   ⟨.startsWith "artist_familiarity".toList, "Artist Familiarity".toList,
     artistMinFamiliarity.toInt, -1⟩,
   ⟨.startsWith "artist_hotttnesss".toList, "Artist Hotttnesss".toList,
     artistMinHotttnesss.toInt, -1⟩,
   ⟨.startsWith "song_hotttnesss".toList, "Song Hotttnesss".toList, songMinHotttnesss.toInt, -1⟩,
   ⟨.startsWith "longitude".toList, "Longitude".toList, artistMinLongitude.toInt, 1⟩,
   ⟨.startsWith "latitude".toList, "Latitude".toList, artistMinLatitude.toInt, 1⟩,
   ⟨.equals "key".toList, "Key".toList, PlaylistParam.key.toInt, 0⟩,
   ⟨.equals "mode".toList, "Mode".toList, PlaylistParam.mode.toInt, 0⟩,
   ⟨.equals "mood".toList, "Mood".toList, mood.toInt, 0⟩,
   ⟨.equals "style".toList, "Style".toList, style.toInt, 0⟩,
   ⟨.equals "song".toList, "Song".toList, songRadioType.toInt, 0⟩]

def endsWithMax (key : QString) : Bool := "_max".toList.isSuffixOf key

def FilterRule.matchFor (r : FilterRule) (key : QString) : Int :=
  r.base + if endsWithMax key then r.maxOffset else 0

def controlFor (key value : QString) : Option Control :=
  (filterRules.find? (·.test.test key)).map fun r =>
    ⟨r.selectedType, QString.number (r.matchFor key), value⟩

def controlsFor (items : List (QString × QString)) : List Control :=
  items.filterMap fun item => controlFor item.1 item.2

open PlaylistParam in
def maxParams : List Int :=
  [maxTempo.toInt, maxDuration.toInt, maxLoudness.toInt, maxDanceability.toInt, maxEnergy.toInt,
   artistMaxFamiliarity.toInt, artistMaxHotttnesss.toInt, songMaxHotttnesss.toInt,
   artistMaxLatitude.toInt, artistMaxLongitude.toInt]

def itemKey (selectedType matchValue : QString) : QString :=
  if selectedType = "Artist".toList then
    if QString.toInt matchValue = ArtistTypeEnum.artistType.toInt then "artist_limitto".toList
    else "artist".toList
  else if selectedType = "Artist Description".toList then "description".toList
  else
    let name := replace [' '] ['_'] (selectedType.map Char.toLower)
    if QString.toInt matchValue ∈ maxParams then name ++ "_max".toList else name

def itemFor (c : Control) : QString × QString := (itemKey c.selectedType c.matchValue, c.input)

def producedPairs : List (QString × QString) :=
  filterRules.flatMap fun r =>
    match r.test with
    | .equals _ => [(r.selectedType, QString.number r.base)]
    | .startsWith _ =>
      [(r.selectedType, QString.number r.base), (r.selectedType, QString.number (r.base + r.maxOffset))]

def Producible (c : Control) : Prop := (c.selectedType, c.matchValue) ∈ producedPairs

instance : DecidablePred Producible := fun _ => inferInstanceAs (Decidable (_ ∈ _))

theorem producedPairs_read_back : ∀ p ∈ producedPairs,
    (filterRules.find? (·.test.test (itemKey p.1 p.2))).map
      (fun r => (r.selectedType, QString.number (r.matchFor (itemKey p.1 p.2)))) = some p := by
  decide

theorem controlFor_itemFor {c : Control} (hc : Producible c) :
    controlFor (itemFor c).1 (itemFor c).2 = some c := by
  obtain ⟨r, hr, he⟩ := Option.map_eq_some'.mp (producedPairs_read_back _ hc)
  simp only [Prod.mk.injEq] at he
  simp [controlFor, itemFor, hr, he.1, he.2]

theorem controlsFor_map_itemFor {controls : List Control} (hc : ∀ c ∈ controls, Producible c) :
    controlsFor (controls.map itemFor) = controls := by
  induction controls with
  | nil => rfl
  | cons c cs ih =>
    rw [List.map_cons, controlsFor, List.filterMap_cons, controlFor_itemFor (hc c (List.mem_cons_self c cs)),
      ← controlsFor, ih fun x hx => hc x (List.mem_cons_of_mem c hx)]

/-! ### The vocabulary of the link grammar -/

open PlaylistParam ArtistTypeEnum in
/-- The vocabulary the controls are checked against: keys taken as they are. -/
def exactFilters : List (QString × QString × Int) :=
  [("artist".toList, "Artist".toList, artistRadioType.toInt),
   ("artist_limitto".toList, "Artist".toList, artistType.toInt),
   ("description".toList, "Artist Description".toList, artistDescriptionType.toInt),
   ("variety".toList, "Variety".toList, variety.toInt),
   ("key".toList, "Key".toList, PlaylistParam.key.toInt),
   ("mode".toList, "Mode".toList, PlaylistParam.mode.toInt),
   ("mood".toList, "Mood".toList, mood.toInt),
   ("style".toList, "Style".toList, style.toInt),
   ("song".toList, "Song".toList, songRadioType.toInt)]

open PlaylistParam in
def continuousFilters : List (QString × QString × PlaylistParam × PlaylistParam) :=
  [("tempo".toList, "Tempo".toList, minTempo, maxTempo),
   ("duration".toList, "Duration".toList, minDuration, maxDuration),
   ("loudness".toList, "Loudness".toList, minLoudness, maxLoudness),
   ("danceability".toList, "Danceability".toList, minDanceability, maxDanceability),
   ("energy".toList, "Energy".toList, minEnergy, maxEnergy),
   ("artist_familiarity".toList, "Artist Familiarity".toList, artistMinFamiliarity,
     artistMaxFamiliarity),
   ("artist_hotttnesss".toList, "Artist Hotttnesss".toList, artistMinHotttnesss,
     artistMaxHotttnesss),
   ("song_hotttnesss".toList, "Song Hotttnesss".toList, songMinHotttnesss, songMaxHotttnesss),
   ("longitude".toList, "Longitude".toList, artistMinLongitude, artistMaxLongitude),
   ("latitude".toList, "Latitude".toList, artistMinLatitude, artistMaxLatitude)]

def vocabularyControl (key value : QString) : Option Control :=
  match exactFilters.find? (·.1 = key) with
  | some (_, type, n) => some ⟨type, QString.number n, value⟩
  | none => (continuousFilters.find? (·.1.isPrefixOf key)).map fun (_, type, lo, hi) =>
      ⟨type, QString.number (if endsWithMax key then hi else lo).toInt, value⟩

def exactRule (e : QString × QString × Int) : FilterRule := ⟨.equals e.1, e.2.1, e.2.2, 0⟩

def continuousRule (e : QString × QString × PlaylistParam × PlaylistParam) : FilterRule :=
  ⟨.startsWith e.1, e.2.1, e.2.2.1.toInt, e.2.2.2.toInt - e.2.2.1.toInt⟩

theorem filterRules_eq : filterRules = (exactFilters.take 4).map exactRule ++
    continuousFilters.map continuousRule ++ (exactFilters.drop 4).map exactRule := by
  decide

theorem find?_exactRule_eq_none {key : QString} (hx : ∀ e ∈ exactFilters, e.1 ≠ key)
    (l : List (QString × QString × Int)) (hl : ∀ e ∈ l, e ∈ exactFilters) :
    (l.map exactRule).find? (·.test.test key) = none :=
  List.find?_eq_none.mpr fun r hr h => by
    obtain ⟨e, he, rfl⟩ := List.mem_map.mp hr
    exact hx e (hl e he) (by simpa [exactRule, KeyTest.test] using (beq_iff_eq.mp h).symm)

theorem controlFor_eq_vocabularyControl (key value : QString) :
    controlFor key value = vocabularyControl key value := by
  by_cases hx : ∃ e ∈ exactFilters, e.1 = key
  · obtain ⟨e, he, rfl⟩ := hx
    simp only [exactFilters, List.mem_cons, List.not_mem_nil, or_false] at he
    rcases he with rfl | rfl | rfl | rfl | rfl | rfl | rfl | rfl | rfl <;> rfl
  · push_neg at hx
    have hnone : exactFilters.find? (·.1 = key) = none :=
      List.find?_eq_none.mpr fun e he h => hx e he (of_decide_eq_true h)
    rw [controlFor, filterRules_eq, List.find?_append, List.find?_append,
      find?_exactRule_eq_none hx _ fun e he => List.mem_of_mem_take he,
      find?_exactRule_eq_none hx _ fun e he => List.mem_of_mem_drop he, Option.none_or,
      Option.or_none, Text.find?_map_congr (f := continuousRule) (p := fun r => r.test.test key)
        (q := fun e => e.1.isPrefixOf key) fun _ _ => rfl,
      Option.map_map, vocabularyControl, hnone]
    refine Option.map_congr fun e _ => ?_
    have hm : (e.2.2.1.toInt + if endsWithMax key then e.2.2.2.toInt - e.2.2.1.toInt else 0) =
        (if endsWithMax key then e.2.2.2 else e.2.2.1).toInt := by
      split_ifs <;> omega
    simp only [Function.comp, continuousRule, FilterRule.matchFor, hm]

theorem controlsFor_eq_vocabulary (items : List (QString × QString)) :
    controlsFor items = items.filterMap fun item => vocabularyControl item.1 item.2 := by
  simp only [controlsFor, controlFor_eq_vocabularyControl]

end Tomahawk.Echonest
