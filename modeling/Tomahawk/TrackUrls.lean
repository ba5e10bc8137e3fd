import Tomahawk.Qt.Text

/-! Pasted and dropped text. `handleTrackUrls` picks one parser by substrings of the whole text
and hands it every line. A `ShortenedLinkParser` sends the URLs it expands back through
`expandedUrls`, which classifies them again, and nothing bounds the rounds. -/

namespace Tomahawk

open Text

inductive TrackUrlParser
  | spotify
  | rdio
  | shortenedLink
  deriving DecidableEq, Repr

/-- `handleTrackUrls( urls )`: the parser it starts and the lines it hands it, or `none`. -/
def handleTrackUrls (urls : QString) : Option (TrackUrlParser × List QString) :=
  if contains urls "open.spotify.com/track".toList || contains urls "spotify:track".toList then
    some (.spotify, split urls '\n')
  else if contains urls "rdio.com".toList then some (.rdio, split urls '\n')
  else if contains urls "bit.ly".toList || contains urls "j.mp".toList || contains urls "t.co".toList ||
      contains urls "rd.io".toList then
    some (.shortenedLink, split urls '\n')
  else none

def joinLines (lines : List QString) : QString := ['\n'].intercalate lines

theorem joinLines_split (urls : QString) : joinLines (split urls '\n') = urls :=
  List.intercalate_splitOn urls '\n'

def expansionRounds (expand : List QString → List QString) : Nat → QString → List (List QString)
  | 0, _ => []
  | fuel + 1, urls =>
    match handleTrackUrls urls with
    | some (.shortenedLink, lines) => lines :: expansionRounds expand fuel (joinLines (expand lines))
    | _ => []

/-! ### The lines a parser is handed -/

theorem infix_of_mem_intercalate {α : Type} (sep : List α) {l : List α} :
    ∀ {L : List (List α)}, l ∈ L → l <:+: sep.intercalate L
  | [a], h => by
    rw [List.mem_singleton.mp h]
    simp [List.intercalate]
  | a :: b :: L, h => by
    have hcat : sep.intercalate (a :: b :: L) = a ++ sep ++ sep.intercalate (b :: L) := by
      simp [List.intercalate, List.intersperse_cons₂]
    rw [hcat]
    rcases List.mem_cons.mp h with rfl | h
    · exact (List.prefix_append _ _).isInfix.trans (List.prefix_append _ _).isInfix
    · exact (infix_of_mem_intercalate sep h).trans (List.suffix_append _ _).isInfix

theorem contains_of_mem_split {text line word : QString} (hl : line ∈ split text '\n')
    (h : contains line word = true) : contains text word = true := by
  rw [contains_iff] at h ⊢
  have hi := infix_of_mem_intercalate ['\n'] hl
  rw [split, List.intercalate_splitOn] at hi
  exact h.trans hi

theorem handleTrackUrls_of_spotify_line {urls line : QString} (hl : line ∈ split urls '\n')
    (hs : (contains line "open.spotify.com/track".toList || contains line "spotify:track".toList) =
      true) :
    handleTrackUrls urls = some (.spotify, split urls '\n') := by
  have ht : (contains urls "open.spotify.com/track".toList || contains urls "spotify:track".toList) =
      true := by
    rcases Bool.or_eq_true_iff.mp hs with h | h
    · rw [contains_of_mem_split hl h, Bool.true_or]
    · rw [contains_of_mem_split hl h, Bool.or_true]
  simp only [handleTrackUrls, ht, if_true]

/-! ### Shortened links expanded again and again -/

theorem expansionRounds_succ_of_shortened (expand : List QString → List QString) (fuel : Nat)
    {urls : QString} {lines : List QString}
    (h : handleTrackUrls urls = some (.shortenedLink, lines)) :
    expansionRounds expand (fuel + 1) urls =
      lines :: expansionRounds expand fuel (joinLines (expand lines)) := by
  simp only [expansionRounds, h]

theorem expansionRounds_length_of_fixed {expand : List QString → List QString} {urls : QString}
    (hs : handleTrackUrls urls = some (.shortenedLink, split urls '\n'))
    (hfix : joinLines (expand (split urls '\n')) = urls) (fuel : Nat) :
    (expansionRounds expand fuel urls).length = fuel := by
  induction fuel with
  | zero => rfl
  | succ fuel ih =>
    rw [expansionRounds_succ_of_shortened expand fuel hs, hfix, List.length_cons, ih]

theorem shortened_link_expands_forever (fuel : Nat) :
    (expansionRounds id fuel "http://t.co/x".toList).length = fuel :=
  expansionRounds_length_of_fixed (by decide) (joinLines_split _) fuel

/-! ### Lines of other services -/

def urlHost : QString → Option QString
  | ':' :: '/' :: '/' :: rest => some (rest.takeWhile fun c => c ≠ '/' ∧ c ≠ ':' ∧ c ≠ '?' ∧ c ≠ '#')
  | _ :: line => urlHost line
  | [] => none

def isSpotifyTrackLink (line : QString) : Bool :=
  "spotify:track:".toList.isPrefixOf line ||
    (urlHost line == some "open.spotify.com".toList && contains line "open.spotify.com/track/".toList)

def isRdioLink (line : QString) : Bool :=
  urlHost line == some "rdio.com".toList || urlHost line == some "www.rdio.com".toList

def isShortenerLink (line : QString) : Bool :=
  ["bit.ly", "j.mp", "t.co", "rd.io"].any fun host => urlHost line == some host.toList

theorem lines_handed_to_other_services :
    handleTrackUrls "spotify:track:1\nhttp://www.rdio.com/x".toList =
        some (.spotify, ["spotify:track:1".toList, "http://www.rdio.com/x".toList]) ∧
      isSpotifyTrackLink "http://www.rdio.com/x".toList = false ∧
      handleTrackUrls "http://a.org/?r=rdio.com".toList =
        some (.rdio, ["http://a.org/?r=rdio.com".toList]) ∧
      isRdioLink "http://a.org/?r=rdio.com".toList = false ∧
      handleTrackUrls "http://microsoft.com/x".toList =
        some (.shortenedLink, ["http://microsoft.com/x".toList]) ∧
      isShortenerLink "http://microsoft.com/x".toList = false :=
  ⟨(handleTrackUrls_of_spotify_line
      (by decide : "spotify:track:1".toList ∈ split "spotify:track:1\nhttp://www.rdio.com/x".toList '\n')
      (by decide)).trans (by decide),
    by decide, by decide, by decide, by decide, by decide⟩

end Tomahawk
