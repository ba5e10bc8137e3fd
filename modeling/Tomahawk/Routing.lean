import Tomahawk.Commands

/-! What `parseTomahawkLink` acts on: the scheme is found by a substring test, the category runs up
to the first `/`, and `bookmark` goes to the play handler. -/

namespace Tomahawk

open QUrl Text

theorem parseTomahawkLink_of_contains (env : Env) (url : QString) (m : Manager)
    (h : contains url "tomahawk://".toList = true) :
    parseTomahawkLink env url m = parseTomahawkCommand env (url.drop 11) m := by
  simp only [parseTomahawkLink, h, if_true]

/-- The environment of the examples: nothing plays, and user input is taken as it is. -/
def idleEnv : Env := ⟨false, id, id⟩

theorem parseTomahawkLink_plays_embedded_scheme :
    parseTomahawkLink idleEnv "http://foo/play/track?x=tomahawk://".toList Manager.initial =
      ⟨true, registerToPlay ⟨0, [], [], [], []⟩ { Manager.initial with nextId := 1 },
        [.resolve ⟨0, [], [], [], []⟩]⟩ := by
  decide

def lastValue (key : QString) (items : List (QString × QString)) : QString :=
  ((items.reverse.find? (·.1 = key)).map (·.2)).getD []

theorem lastValue_append_singleton (key : QString) (items : List (QString × QString))
    (item : QString × QString) :
    lastValue key (items ++ [item]) = if item.1 = key then item.2 else lastValue key items := by
  by_cases h : item.1 = key <;> simp [lastValue, h]

theorem readTrackFields_eq (items : List (QString × QString)) :
    readTrackFields items = ⟨lastValue "title".toList items, lastValue "artist".toList items,
      lastValue "album".toList items, lastValue "url".toList items⟩ := by
  induction items using List.reverseRecOn with
  | nil => rfl
  | append_singleton items item ih =>
    rw [readTrackFields, List.foldl_append, ← readTrackFields, ih]
    simp only [lastValue_append_singleton, List.foldl_cons, List.foldl_nil]
    split_ifs <;> simp_all

theorem trackFields_differ_from_queryItemValue :
    queryItems (fromEncoded (ascii "play/track?title=a&title=b")) =
        [("title".toList, "a".toList), ("title".toList, "b".toList)] ∧
      (readTrackFields (queryItems (fromEncoded (ascii "play/track?title=a&title=b")))).title =
        "b".toList ∧
      queryItemValue (fromEncoded (ascii "play/track?title=a&title=b")) "title".toList =
        "a".toList :=
  ⟨by decide, by rw [readTrackFields_eq]; decide, by decide⟩

theorem parseTomahawkLink_queues_and_refuses :
    parseTomahawkLink idleEnv "tomahawk://queue/add/track?title=x".toList Manager.initial =
      ⟨false, registerToPlay ⟨0, [], "x".toList, [], []⟩ { Manager.initial with nextId := 1 },
        [.resolve ⟨0, [], "x".toList, [], []⟩, .appendToQueue ⟨0, [], "x".toList, [], []⟩,
          .showQueue]⟩ := by
  decide

/-! ### Categories -/

theorem parseTomahawkLink_scheme_append (env : Env) (m : Manager) {c r : QString} (hp : '%' ∉ c) :
    parseTomahawkLink env ("tomahawk://".toList ++ c ++ r) m =
      dispatchCommand env (firstPart (c ++ replace "%2B".toList "%20".toList r) '/')
        (fromEncoded (Utf8.toUtf8 (c ++ replace "%2B".toList "%20".toList r))) m := by
  have hrep : replace "%2B".toList "%20".toList (c ++ r) = c ++ replace "%2B".toList "%20".toList r :=
    replace_append_of_not_head _ _ _ _ fun x hx h => hp (by
      rw [show "%2B".toList.head? = some '%' from rfl] at h
      exact Option.some.inj h ▸ hx)
  rw [List.append_assoc, parseTomahawkLink_of_contains env _ m
      (contains_of_startsWith (List.prefix_append _ _)),
    List.drop_left' (show "tomahawk://".toList.length = 11 from rfl), parseTomahawkCommand, hrep]

theorem replace_plusEscape_cons {x : Char} (hx : x ≠ '%') (r : QString) :
    replace "%2B".toList "%20".toList (x :: r) = x :: replace "%2B".toList "%20".toList r :=
  replace_append_of_not_head _ _ [x] r fun y hy h => hx (by
    rw [List.mem_singleton.mp hy, show "%2B".toList.head? = some '%' from rfl] at h
    exact (Option.some.inj h).symm)

theorem parseTomahawkLink_category (env : Env) (m : Manager) {c r : QString} (hs : '/' ∉ c)
    (hp : '%' ∉ c) (hr : r = [] ∨ r.head? = some '/') :
    parseTomahawkLink env ("tomahawk://".toList ++ c ++ r) m =
      dispatchCommand env c
        (fromEncoded (Utf8.toUtf8 (c ++ replace "%2B".toList "%20".toList r))) m := by
  rw [parseTomahawkLink_scheme_append env m hp]
  rcases hr with rfl | hr
  · rw [show replace "%2B".toList "%20".toList [] = [] from rfl, List.append_nil,
      firstPart_of_not_mem _ _ hs]
  · obtain ⟨r', rfl⟩ : ∃ r', r = '/' :: r' := by
      cases r with
      | nil => cases hr
      | cons x r' => exact ⟨r', by cases hr; rfl⟩
    rw [replace_plusEscape_cons (by decide), firstPart_append_of_not_mem _ _ _ hs]

theorem dispatchCommand_of_unknown (env : Env) (u : QUrl) (m : Manager) {cmdType : QString}
    (h : ∀ w ∈ ["load", "playlist", "collection", "queue", "station", "autoplaylist", "search",
      "play", "bookmark", "open"], cmdType ≠ w.toList) :
    dispatchCommand env cmdType u m = ⟨false, m, []⟩ := by
  simp only [List.mem_cons, List.mem_singleton, forall_eq_or_imp, forall_eq,
    List.not_mem_nil, false_imp_iff, implies_true, and_true] at h
  obtain ⟨h1, h2, h3, h4, h5, h6, h7, h8, h9, h10⟩ := h
  simp only [dispatchCommand, h1, h2, h3, h4, h5, h6, h7, h8, h9, h10, false_and, if_false]

theorem parseTomahawkLink_query_after_category (env : Env) (m : Manager) {c r : QString}
    (hs : '/' ∉ c) (hp : '%' ∉ c) (hq : r.head? = some '?') (hr : '/' ∉ r) :
    parseTomahawkLink env ("tomahawk://".toList ++ c ++ r) m = ⟨false, m, []⟩ := by
  obtain ⟨r', rfl⟩ : ∃ r', r = '?' :: r' := by
    cases r with
    | nil => cases hq
    | cons x r' => exact ⟨r', by cases hq; rfl⟩
  rw [parseTomahawkLink_scheme_append env m hp, replace_plusEscape_cons (by decide),
    firstPart_of_not_mem]
  · refine dispatchCommand_of_unknown env _ m fun w hw he => ?_
    have hq : '?' ∈ w.toList := he ▸ List.mem_append_right c (List.mem_cons_self '?' _)
    simp only [List.mem_cons, List.not_mem_nil, or_false] at hw
    rcases hw with rfl | rfl | rfl | rfl | rfl | rfl | rfl | rfl | rfl | rfl <;> revert hq <;> decide
  · rw [List.mem_append, not_or]
    exact ⟨hs, List.not_mem_cons_of_ne_of_not_mem (by decide)
      (Text.not_mem_replace (by decide) fun h => hr (List.mem_cons_of_mem _ h))⟩

theorem dispatchCommand_bookmark (env : Env) (u : QUrl) (m : Manager) :
    dispatchCommand env "bookmark".toList u m = handlePlayCommand u m := rfl

theorem parseTomahawkLink_bookmark (env : Env) (m : Manager) {r : QString}
    (hr : r = [] ∨ r.head? = some '/') :
    parseTomahawkLink env ("tomahawk://bookmark".toList ++ r) m =
      handlePlayCommand
        (fromEncoded (Utf8.toUtf8 ("bookmark".toList ++ replace "%2B".toList "%20".toList r))) m :=
  (parseTomahawkLink_category env m (c := "bookmark".toList) (by decide) (by decide) hr).trans
    (dispatchCommand_bookmark env _ m)

theorem categories_misrouted :
    parseTomahawkLink idleEnv "tomahawk://bookmark/track?title=a".toList Manager.initial =
        handlePlayCommand (fromEncoded (ascii "bookmark/track?title=a")) Manager.initial ∧
      parseTomahawkLink idleEnv "tomahawk://bookmark/track?title=a".toList Manager.initial =
        ⟨true, registerToPlay ⟨0, [], "a".toList, [], []⟩ { Manager.initial with nextId := 1 },
          [.resolve ⟨0, [], "a".toList, [], []⟩]⟩ ∧
      parseTomahawkLink idleEnv "tomahawk://search?artist=x".toList Manager.initial =
        ⟨false, Manager.initial, []⟩ ∧
      handleSearchCommand (fromEncoded (ascii "search?artist=x")) Manager.initial =
        ⟨true, Manager.initial, [.showSuperCollection, .setFilter "x".toList]⟩ ∧
      parseTomahawkLink idleEnv "tomahawk://load?xspf=a".toList Manager.initial =
        ⟨false, Manager.initial, []⟩ :=
  have hb := parseTomahawkLink_bookmark idleEnv Manager.initial (r := "/track?title=a".toList) (.inr rfl)
  ⟨hb.trans (by decide), hb.trans (by decide),
    parseTomahawkLink_query_after_category idleEnv Manager.initial (c := "search".toList)
      (r := "?artist=x".toList) (by decide) (by decide) rfl (by decide),
    by decide,
    parseTomahawkLink_query_after_category idleEnv Manager.initial (c := "load".toList)
      (r := "?xspf=a".toList) (by decide) (by decide) rfl (by decide)⟩

end Tomahawk
