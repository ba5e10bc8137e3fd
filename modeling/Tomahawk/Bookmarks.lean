import Mathlib.Data.List.Nodup
import Tomahawk.Commands

/-! Bookmarks: `handleBookmarkCommand` parks a query in `m_waitingToBookmark` while the bookmarks
playlist is missing, and `bookmarkPlaylistCreated` bookmarks it. The slot holds one query, so a
second command before the answer loses the first. -/

namespace Tomahawk

open QUrl

def doBookmark (q : Query) (m : Manager) : Manager × List Effect :=
  ({ m with toShow := true, waitingToBookmark := none }, [.addBookmarkEntry q])

def handleBookmarkCommand (u : QUrl) (present : Bool) (m : Manager) : Outcome :=
  match commandParts u with
  | [] => ⟨false, m, []⟩
  | part :: _ =>
    if part = "track".toList then
      let f := readTrackFields (queryItems u)
      let q : Query := ⟨m.nextId, f.artist, f.title, f.album, f.url⟩
      let m := { m with nextId := m.nextId + 1 }
      if present then ⟨true, (doBookmark q m).1, .resolve q :: (doBookmark q m).2⟩
      else ⟨true, { m with waitingToBookmark := some q, bookmarkCreatedConnected := true },
        [.resolve q, .createBookmarksPlaylist]⟩
    else ⟨false, m, []⟩

/-- `bookmarkPlaylistCreated( pl )`, or `none` where its `Q_ASSERT` fails. -/
def bookmarkPlaylistCreated (m : Manager) : Option (Manager × List Effect) :=
  m.waitingToBookmark.map fun q => doBookmark q m

def showPlaylist (m : Manager) : Manager × List Effect :=
  if m.toShow then ({ m with toShow := false }, [.showPlaylist]) else (m, [])

inductive BookmarkEvent
  | command (u : QUrl) (present : Bool)
  | created
  | revisionLoaded

structure BookmarkWorld where
  manager : Manager
  pendingCreations : Nat
  deriving DecidableEq, Repr

def BookmarkEvent.apply (w : BookmarkWorld) : BookmarkEvent → Option (BookmarkWorld × List Effect)
  | command u p =>
    some (⟨(handleBookmarkCommand u p w.manager).manager,
      w.pendingCreations + (handleBookmarkCommand u p w.manager).effects.count .createBookmarksPlaylist⟩,
      (handleBookmarkCommand u p w.manager).effects)
  | created =>
    match w.pendingCreations with
    | 0 => some (w, [])
    | n + 1 => (bookmarkPlaylistCreated w.manager).map fun r => (⟨r.1, n⟩, r.2)
  | revisionLoaded => some (⟨(showPlaylist w.manager).1, w.pendingCreations⟩, (showPlaylist w.manager).2)

def runBookmarks (w : BookmarkWorld) : List BookmarkEvent → Option (BookmarkWorld × List Effect)
  | [] => some (w, [])
  | e :: es => (e.apply w).bind fun r => (runBookmarks r.1 es).map fun r' => (r'.1, r.2 ++ r'.2)

def bookmarked (effects : List Effect) : List Query :=
  effects.filterMap fun
    | .addBookmarkEntry q => some q
    | _ => none

/-! ### No query is bookmarked twice -/

def BookmarkInv (w : BookmarkWorld) (done : List Query) : Prop :=
  (done.map Query.id).Nodup ∧ (∀ q ∈ done, q.id < w.manager.nextId) ∧
    ∀ q, w.manager.waitingToBookmark = some q → q.id < w.manager.nextId ∧ q.id ∉ done.map Query.id

theorem handleBookmarkCommand_cases (u : QUrl) (p : Bool) (m : Manager) :
    handleBookmarkCommand u p m = ⟨false, m, []⟩ ∨
      ∃ q : Query,
        ((p = true ∧ handleBookmarkCommand u p m =
            ⟨true, { m with nextId := m.nextId + 1, toShow := true, waitingToBookmark := none },
              [.resolve q, .addBookmarkEntry q]⟩) ∨
          (p = false ∧ handleBookmarkCommand u p m =
            ⟨true,
              { m with
                nextId := m.nextId + 1, waitingToBookmark := some q, bookmarkCreatedConnected := true },
              [.resolve q, .createBookmarksPlaylist]⟩)) ∧ q.id = m.nextId := by
  unfold handleBookmarkCommand
  split
  · exact .inl rfl
  · split_ifs with ht hp
    · exact .inr ⟨_, .inl ⟨hp, rfl⟩, rfl⟩
    · exact .inr ⟨_, .inr ⟨by simpa using hp, rfl⟩, rfl⟩
    · exact .inl rfl

theorem bookmarkInv_append {w : BookmarkWorld} {done : List Query} {q : Query}
    (h1 : (done.map Query.id).Nodup) (h2 : ∀ x ∈ done, x.id < w.manager.nextId)
    (hq : q.id < w.manager.nextId) (hd : q.id ∉ done.map Query.id)
    (hs : w.manager.waitingToBookmark = none) : BookmarkInv w (done ++ [q]) := by
  refine ⟨?_, fun x hx => ?_, fun x hx => by simp [hs] at hx⟩
  · simpa [List.nodup_append, hd] using h1
  · rcases List.mem_append.mp hx with hx | hx
    · exact h2 x hx
    · rw [List.mem_singleton.mp hx]
      exact hq

theorem bookmarkInv_apply {w w' : BookmarkWorld} {done : List Query} {e : BookmarkEvent}
    {effects : List Effect} (h : BookmarkInv w done) (he : e.apply w = some (w', effects)) :
    BookmarkInv w' (done ++ bookmarked effects) := by
  cases e with
  | command u p =>
    simp only [BookmarkEvent.apply, Option.some.injEq, Prod.mk.injEq] at he
    obtain ⟨rfl, rfl⟩ := he
    have hlt : ∀ x ∈ done, x.id < w.manager.nextId + 1 := fun x hx => Nat.lt_succ_of_lt (h.2.1 x hx)
    have hfresh : w.manager.nextId ∉ done.map Query.id := fun hm => by
      obtain ⟨x, hx, hxq⟩ := List.mem_map.mp hm
      have := h.2.1 x hx
      omega
    rcases handleBookmarkCommand_cases u p w.manager with hc | ⟨q, ⟨rfl, hc⟩ | ⟨rfl, hc⟩, hq⟩ <;>
      rw [hc]
    · simpa [bookmarked, BookmarkInv] using h
    · exact bookmarkInv_append h.1 hlt (by simp [hq]) (hq ▸ hfresh) rfl
    · refine ⟨by simpa [bookmarked] using h.1, by simpa [bookmarked] using hlt, fun x hx => ?_⟩
      simp only [Option.some.injEq] at hx
      subst hx
      simpa [bookmarked, hq] using hfresh
  | created =>
    simp only [BookmarkEvent.apply] at he
    split at he
    · simp only [Option.some.injEq, Prod.mk.injEq] at he
      obtain ⟨rfl, rfl⟩ := he
      simpa [bookmarked] using h
    · next n _ =>
      simp only [bookmarkPlaylistCreated, Option.map_map, Option.map_eq_some'] at he
      obtain ⟨q, hq, he⟩ := he
      simp only [Function.comp, doBookmark, Prod.mk.injEq] at he
      obtain ⟨rfl, rfl⟩ := he
      exact bookmarkInv_append h.1 h.2.1 (h.2.2 q hq).1 (h.2.2 q hq).2 rfl
  | revisionLoaded =>
    simp only [BookmarkEvent.apply, Option.some.injEq, Prod.mk.injEq] at he
    obtain ⟨rfl, rfl⟩ := he
    unfold showPlaylist
    split_ifs <;> simpa [bookmarked, BookmarkInv] using h

/-! ### A lost bookmark and a failed assertion -/

theorem second_bookmark_lost_then_assert_fails :
    runBookmarks ⟨Manager.initial, 0⟩
        [.command (fromEncoded (ascii "bookmark/track?title=a")) false,
          .command (fromEncoded (ascii "bookmark/track?title=b")) false] =
      some (⟨⟨2, none, [], some ⟨1, [], "b".toList, [], []⟩, true, false⟩, 2⟩,
        [.resolve ⟨0, [], "a".toList, [], []⟩, .createBookmarksPlaylist,
          .resolve ⟨1, [], "b".toList, [], []⟩, .createBookmarksPlaylist]) ∧
    runBookmarks ⟨Manager.initial, 0⟩
        [.command (fromEncoded (ascii "bookmark/track?title=a")) false,
          .command (fromEncoded (ascii "bookmark/track?title=b")) false, .created, .created] =
      none := by
  decide

end Tomahawk
