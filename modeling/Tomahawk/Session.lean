import Tomahawk.Playback
import Tomahawk.Bookmarks

/-! The action manager as one machine, taking links, play slot events and bookmark events in any
order. What the play slot and the bookmark code guarantee alone holds in every interleaving. -/

namespace Tomahawk

open QUrl

/-- What reaches the action manager: a link, a play slot event, or a bookmark event. -/
inductive ManagerEvent
  | link (env : Env) (url : QString)
  | play (e : PlayEvent)
  | bookmark (e : BookmarkEvent)

def ManagerEvent.apply (w : BookmarkWorld) : ManagerEvent → Option (BookmarkWorld × List Effect)
  | link env url =>
    some (⟨(parseTomahawkLink env url w.manager).manager, w.pendingCreations⟩,
      (parseTomahawkLink env url w.manager).effects)
  | play e => some (⟨(e.apply w.manager).1, w.pendingCreations⟩, (e.apply w.manager).2)
  | bookmark e => e.apply w

def runManager (w : BookmarkWorld) : List ManagerEvent → Option (BookmarkWorld × List Effect)
  | [] => some (w, [])
  | e :: es => (e.apply w).bind fun r => (runManager r.1 es).map fun r' => (r'.1, r.2 ++ r'.2)

/-! ### What a link can do -/

/-- What a handler can do: keep the manager, issue an identity, or also register a query. -/
structure LinkStep (m : Manager) (o : Outcome) : Prop where
  manager : o.manager = m ∨ o.manager = { m with nextId := m.nextId + 1 } ∨
    ∃ q, o.manager = registerToPlay q { m with nextId := m.nextId + 1 }
  no_play : Effect.play ∉ o.effects
  no_bookmark : bookmarked o.effects = []

theorem LinkStep.of_same {m : Manager} {o : Outcome} (h : o.manager = m)
    (he : ∀ e ∈ o.effects, e ≠ .play ∧ ∀ q, e ≠ .addBookmarkEntry q) : LinkStep m o := by
  refine ⟨.inl h, fun hp => (he _ hp).1 rfl, List.filterMap_eq_nil_iff.mpr fun e hm => ?_⟩
  cases e <;> first | rfl | exact absurd rfl ((he _ hm).2 _)

theorem LinkStep.ite {m : Manager} {c : Prop} [Decidable c] {a b : Outcome} (ha : LinkStep m a)
    (hb : LinkStep m b) : LinkStep m (if c then a else b) := by
  split
  · exact ha
  · exact hb

theorem doQueueAdd_linkStep (env : Env) (parts : List QString) (items : List (QString × QString))
    (m : Manager) : LinkStep m (doQueueAdd env parts items m) := by
  unfold doQueueAdd
  dsimp only
  split_ifs
  · exact .of_same rfl (by simp)
  · cases env.isPlaying
    · exact ⟨.inr (.inr ⟨_, rfl⟩), by simp [handleOpenTrack], rfl⟩
    · exact ⟨.inr (.inl rfl), by simp [handleOpenTrack], rfl⟩
  · split
    · exact .of_same rfl (by simp)
    · split_ifs
      · exact .of_same rfl (by simp)
      · exact ⟨.inr (.inl rfl), by simp, rfl⟩
  · exact .of_same rfl (by simp)

theorem handlePlayCommand_linkStep (u : QUrl) (m : Manager) :
    LinkStep m (handlePlayCommand u m) := by
  unfold handlePlayCommand
  split
  · exact .of_same rfl (by simp)
  · split_ifs
    · split
      · exact .of_same rfl (by simp)
      · exact ⟨.inr (.inr ⟨_, rfl⟩), by simp, rfl⟩
    · exact .of_same rfl (by simp)

theorem handleDynamicCommand_linkStep (u : QUrl) (station : Bool) (m : Manager) :
    LinkStep m (handleDynamicCommand u station m) := by
  unfold handleDynamicCommand loadDynamicPlaylist
  split
  · exact .of_same rfl (by simp)
  · split_ifs
    all_goals first | exact .of_same rfl (by simp) | exact ⟨.inr (.inl rfl), by simp, rfl⟩

theorem handlePlaylistCommand_linkStep (u : QUrl) (m : Manager) :
    LinkStep m (handlePlaylistCommand u m) := by
  unfold handlePlaylistCommand
  split
  · exact .of_same rfl (by simp)
  · split_ifs <;> exact .of_same rfl (by simp)

theorem handleQueueCommand_linkStep (env : Env) (u : QUrl) (m : Manager) :
    LinkStep m (handleQueueCommand env u m) := by
  unfold handleQueueCommand
  split
  · exact .of_same rfl (by simp)
  · next rest _ =>
    have h := doQueueAdd_linkStep env rest (queryItems u) m
    exact .ite ⟨h.manager, h.no_play, h.no_bookmark⟩ (.of_same rfl (by simp))

theorem handleSearchCommand_linkStep (u : QUrl) (m : Manager) :
    LinkStep m (handleSearchCommand u m) := by
  unfold handleSearchCommand
  dsimp only
  split_ifs <;> exact .of_same rfl (by simp)

theorem handleOpenCommand_linkStep (env : Env) (u : QUrl) (m : Manager) :
    LinkStep m (handleOpenCommand env u m) := by
  unfold handleOpenCommand
  split_ifs
  · exact .of_same rfl (by simp)
  · exact doQueueAdd_linkStep env _ _ m

theorem dispatchCommand_linkStep (env : Env) (cmdType : QString) (u : QUrl) (m : Manager) :
    LinkStep m (dispatchCommand env cmdType u m) := by
  have hload : ∀ e, (e ≠ Effect.play ∧ ∀ q, e ≠ .addBookmarkEntry q) →
      LinkStep m ⟨true, m, [e]⟩ := fun e he => .of_same rfl fun _ h => List.mem_singleton.mp h ▸ he
  unfold dispatchCommand
  exact .ite (hload _ ⟨nofun, nofun⟩) <| .ite (hload _ ⟨nofun, nofun⟩) <|
    .ite (handlePlaylistCommand_linkStep u m) <| .ite (.of_same rfl nofun) <|
    .ite (handleQueueCommand_linkStep env u m) <| .ite (handleDynamicCommand_linkStep u true m) <|
    .ite (handleDynamicCommand_linkStep u false m) <| .ite (handleSearchCommand_linkStep u m) <|
    .ite (handlePlayCommand_linkStep u m) <| .ite (handlePlayCommand_linkStep u m) <|
    .ite (handleOpenCommand_linkStep env u m) (.of_same rfl nofun)

theorem parseTomahawkLink_linkStep (env : Env) (url : QString) (m : Manager) :
    LinkStep m (parseTomahawkLink env url m) := by
  unfold parseTomahawkLink
  exact .ite (dispatchCommand_linkStep env _ _ m) (.of_same rfl (by simp))

/-! ### What a bookmark event can do -/

theorem BookmarkEvent.apply_cases {w w' : BookmarkWorld} {e : BookmarkEvent}
    {effects : List Effect} (h : e.apply w = some (w', effects)) :
    (w' = w ∧ effects = []) ∨
      (∃ q, w' = ⟨{ w.manager with
                    nextId := w.manager.nextId + 1, toShow := true, waitingToBookmark := none },
          w.pendingCreations⟩ ∧ effects = [.resolve q, .addBookmarkEntry q]) ∨
      (∃ q, w' = ⟨{ w.manager with
                    nextId := w.manager.nextId + 1, waitingToBookmark := some q,
                    bookmarkCreatedConnected := true },
          w.pendingCreations + 1⟩ ∧ effects = [.resolve q, .createBookmarksPlaylist]) ∨
      (∃ q n, w.manager.waitingToBookmark = some q ∧ w.pendingCreations = n + 1 ∧
        w' = ⟨{ w.manager with toShow := true, waitingToBookmark := none }, n⟩ ∧
        effects = [.addBookmarkEntry q]) ∨
      (w' = ⟨{ w.manager with toShow := false }, w.pendingCreations⟩ ∧ effects = [.showPlaylist]) := by
  cases e with
  | command u p =>
    cases h
    rcases handleBookmarkCommand_cases u p w.manager with hc | ⟨q, ⟨-, hc⟩ | ⟨-, hc⟩, -⟩ <;> rw [hc]
    · exact .inl ⟨rfl, rfl⟩
    · exact .inr (.inl ⟨q, by simp, rfl⟩)
    · exact .inr (.inr (.inl ⟨q, by simp, rfl⟩))
  | created =>
    simp only [BookmarkEvent.apply] at h
    split at h
    · simp only [Option.some.injEq, Prod.mk.injEq] at h
      exact .inl ⟨h.1.symm, h.2.symm⟩
    · next n hn =>
      simp only [bookmarkPlaylistCreated, Option.map_map, Option.map_eq_some'] at h
      obtain ⟨q, hq, h⟩ := h
      simp only [Function.comp, doBookmark, Prod.mk.injEq] at h
      exact .inr (.inr (.inr (.inl ⟨q, n, hq, hn, h.1.symm, h.2.symm⟩)))
  | revisionLoaded =>
    cases h
    unfold showPlaylist
    split_ifs
    · exact .inr (.inr (.inr (.inr ⟨rfl, rfl⟩)))
    · exact .inl ⟨rfl, rfl⟩

theorem BookmarkEvent.apply_frame {w w' : BookmarkWorld} {e : BookmarkEvent}
    {effects : List Effect} (h : e.apply w = some (w', effects)) :
    w'.manager.waitingToPlay = w.manager.waitingToPlay ∧
      w'.manager.resolvingConnections = w.manager.resolvingConnections ∧ Effect.play ∉ effects := by
  rcases BookmarkEvent.apply_cases h with ⟨rfl, rfl⟩ | ⟨q, rfl, rfl⟩ | ⟨q, rfl, rfl⟩ |
    ⟨q, n, -, -, rfl, rfl⟩ | ⟨rfl, rfl⟩ <;> simp

/-! ### What a play slot event can do -/

structure PlaySide (m m' : Manager) (effects : List Effect) : Prop where
  nextId : m.nextId ≤ m'.nextId
  waitingToBookmark : m'.waitingToBookmark = m.waitingToBookmark
  bookmarkCreatedConnected : m'.bookmarkCreatedConnected = m.bookmarkCreatedConnected
  no_bookmark : bookmarked effects = []

theorem LinkStep.playSide {m : Manager} {o : Outcome} (h : LinkStep m o) :
    PlaySide m o.manager o.effects := by
  rcases h.manager with h' | h' | ⟨q, h'⟩ <;> rw [h']
  · exact ⟨le_rfl, rfl, rfl, h.no_bookmark⟩
  · exact ⟨Nat.le_succ _, rfl, rfl, h.no_bookmark⟩
  · exact ⟨Nat.le_succ _, rfl, rfl, h.no_bookmark⟩

theorem PlayEvent.apply_playSide (m : Manager) (e : PlayEvent) :
    PlaySide m (e.apply m).1 (e.apply m).2 := by
  cases e with
  | playCommand u => exact (handlePlayCommand_linkStep u m).playSide
  | spotifyTrack q => exact ⟨le_rfl, rfl, rfl, rfl⟩
  | openTrack p q => cases p <;> exact ⟨le_rfl, rfl, rfl, rfl⟩
  | resolved s p =>
    simp only [PlayEvent.apply, waitingForResolved]
    split_ifs <;> exact ⟨le_rfl, rfl, rfl, rfl⟩

/-! ### Runs -/

theorem runManager_stretch (R : BookmarkWorld → BookmarkWorld → List Effect → Prop)
    (hnil : ∀ w, R w w [])
    (htrans : ∀ {w1 w2 w3 e1 e2}, R w1 w2 e1 → R w2 w3 e2 → R w1 w3 (e1 ++ e2))
    (hstep : ∀ {w w' : BookmarkWorld} {e : ManagerEvent} {effects : List Effect},
      e.apply w = some (w', effects) → R w w' effects) :
    ∀ {w w' : BookmarkWorld} {es : List ManagerEvent} {effects : List Effect},
      runManager w es = some (w', effects) → R w w' effects
  | w, w', [], effects, h => by
    cases h
    exact hnil w
  | w, w', e :: es, effects, h => by
    obtain ⟨⟨w1, eff1⟩, h1, hr⟩ := Option.bind_eq_some.mp h
    obtain ⟨⟨w2, eff2⟩, h2, heq⟩ := Option.map_eq_some'.mp hr
    cases heq
    exact htrans (hstep h1) (runManager_stretch R hnil htrans hstep h2)

theorem runManager_sample :
    runManager ⟨Manager.initial, 0⟩
        [.link ⟨false, id, id⟩ "tomahawk://play/track?title=a".toList,
          .bookmark (.command (fromEncoded (ascii "bookmark/track?title=b")) false),
          .play (.resolved ⟨0, [], "a".toList, [], []⟩ true), .bookmark .created] =
      some (⟨⟨2, none, [⟨0, [], "a".toList, [], []⟩], none, true, true⟩, 0⟩,
        [.resolve ⟨0, [], "a".toList, [], []⟩, .resolve ⟨1, [], "b".toList, [], []⟩,
          .createBookmarksPlaylist, .play, .addBookmarkEntry ⟨1, [], "b".toList, [], []⟩]) := by
  decide

/-! ### The play slot's accounts, over any interleaving -/

def PlaysAccounted (w w' : BookmarkWorld) (effects : List Effect) : Prop :=
  w.manager.resolvingConnections <+: w'.manager.resolvingConnections ∧
    effects.count .play + slotCount w'.manager + w.manager.resolvingConnections.length ≤
      slotCount w.manager + w'.manager.resolvingConnections.length

theorem PlaysAccounted.trans {w1 w2 w3 : BookmarkWorld} {e1 e2 : List Effect}
    (h1 : PlaysAccounted w1 w2 e1) (h2 : PlaysAccounted w2 w3 e2) :
    PlaysAccounted w1 w3 (e1 ++ e2) := by
  refine ⟨h1.1.trans h2.1, ?_⟩
  have := h1.2
  have := h2.2
  rw [List.count_append]
  omega

theorem playsAccounted_registerToPlay {m m' : Manager} (q : Query)
    (hc : m'.resolvingConnections = m.resolvingConnections) (p : Nat) {effects : List Effect}
    (he : Effect.play ∉ effects) : PlaysAccounted ⟨m, p⟩ ⟨registerToPlay q m', p⟩ effects := by
  have hs : slotCount (registerToPlay q m') = 1 := by simp [slotCount]
  have hle : slotCount m ≤ 1 := by unfold slotCount; split_ifs <;> omega
  refine ⟨by simp [registerToPlay, hc], ?_⟩
  rw [List.count_eq_zero.mpr he, hs]
  simp only [registerToPlay, hc, List.length_append, List.length_singleton]
  omega

theorem LinkStep.accounted {m : Manager} {o : Outcome} (h : LinkStep m o) (p : Nat) :
    PlaysAccounted ⟨m, p⟩ ⟨o.manager, p⟩ o.effects := by
  rcases h.manager with h' | h' | ⟨q, h'⟩ <;> rw [h']
  · exact ⟨List.prefix_refl _, by rw [List.count_eq_zero.mpr h.no_play]; omega⟩
  · exact ⟨List.prefix_refl _, by rw [List.count_eq_zero.mpr h.no_play]; simp [slotCount]⟩
  · exact playsAccounted_registerToPlay q rfl p h.no_play

theorem PlayEvent.apply_accounted (m : Manager) (e : PlayEvent) (p : Nat) :
    PlaysAccounted ⟨m, p⟩ ⟨(e.apply m).1, p⟩ (e.apply m).2 := by
  cases e with
  | playCommand u => exact (handlePlayCommand_linkStep u m).accounted p
  | spotifyTrack q =>
    show PlaysAccounted ⟨m, p⟩ ⟨registerToPlay q m, p⟩ [.resolve q]
    exact playsAccounted_registerToPlay q rfl p (by simp)
  | openTrack b q =>
    cases b
    · show PlaysAccounted ⟨m, p⟩ ⟨registerToPlay q m, p⟩ [.appendToQueue q, .showQueue]
      exact playsAccounted_registerToPlay q rfl p (by simp)
    · exact ⟨List.prefix_refl _, by simp [PlayEvent.apply, handleOpenTrack]⟩
  | resolved s b =>
    have hc : ((PlayEvent.resolved s b).apply m).1.resolvingConnections = m.resolvingConnections := by
      simp only [PlayEvent.apply, waitingForResolved]
      split_ifs <;> rfl
    have := plays_add_slotCount_apply m (.resolved s b)
    simp only [PlayEvent.registers, if_false, Bool.false_eq_true] at this
    refine ⟨?_, ?_⟩ <;> dsimp only
    · exact hc ▸ List.prefix_refl _
    · rw [hc]
      omega

theorem ManagerEvent.apply_accounted {w w' : BookmarkWorld} {e : ManagerEvent}
    {effects : List Effect} (h : e.apply w = some (w', effects)) : PlaysAccounted w w' effects := by
  cases e with
  | link env url =>
    cases h
    exact (parseTomahawkLink_linkStep env url w.manager).accounted _
  | play e =>
    cases h
    exact PlayEvent.apply_accounted w.manager e _
  | bookmark e =>
    obtain ⟨hw, hc, hp⟩ := BookmarkEvent.apply_frame h
    refine ⟨hc ▸ List.prefix_refl _, ?_⟩
    rw [List.count_eq_zero.mpr hp, hc, slotCount, slotCount, hw]
    omega

theorem runManager_plays_accounted {w w' : BookmarkWorld} {es : List ManagerEvent}
    {effects : List Effect} (h : runManager w es = some (w', effects)) :
    w.manager.resolvingConnections <+: w'.manager.resolvingConnections ∧
      effects.count .play + slotCount w'.manager + w.manager.resolvingConnections.length ≤
        slotCount w.manager + w'.manager.resolvingConnections.length :=
  runManager_stretch PlaysAccounted (fun _ => ⟨List.prefix_refl _, by simp⟩)
    PlaysAccounted.trans ManagerEvent.apply_accounted h

theorem runManager_plays_accounted_sample :
    runManager ⟨Manager.initial, 0⟩
        [.link ⟨false, id, id⟩ "tomahawk://play/track?title=a".toList,
          .bookmark (.command (fromEncoded (ascii "bookmark/track?title=b")) false),
          .play (.resolved ⟨0, [], "a".toList, [], []⟩ true), .bookmark .created] =
      some (⟨⟨2, none, [⟨0, [], "a".toList, [], []⟩], none, true, true⟩, 0⟩,
        [.resolve ⟨0, [], "a".toList, [], []⟩, .resolve ⟨1, [], "b".toList, [], []⟩,
          .createBookmarksPlaylist, .play, .addBookmarkEntry ⟨1, [], "b".toList, [], []⟩]) ∧
      (Manager.initial.resolvingConnections <+: [⟨0, [], "a".toList, [], []⟩] ∧
        [Effect.resolve ⟨0, [], "a".toList, [], []⟩, .resolve ⟨1, [], "b".toList, [], []⟩,
            .createBookmarksPlaylist, .play, .addBookmarkEntry ⟨1, [], "b".toList, [], []⟩].count .play +
            slotCount ⟨2, none, [⟨0, [], "a".toList, [], []⟩], none, true, true⟩ +
            Manager.initial.resolvingConnections.length ≤
          slotCount Manager.initial + [(⟨0, [], "a".toList, [], []⟩ : Query)].length) :=
  ⟨runManager_sample, runManager_plays_accounted runManager_sample⟩

/-! ### No query is bookmarked twice, over any interleaving -/

theorem PlaySide.bookmarkInv {m m' : Manager} {effects : List Effect} (h : PlaySide m m' effects)
    {p : Nat} {done : List Query} (hi : BookmarkInv ⟨m, p⟩ done) :
    BookmarkInv ⟨m', p⟩ (done ++ bookmarked effects) := by
  rw [h.no_bookmark, List.append_nil]
  refine ⟨hi.1, fun q hq => lt_of_lt_of_le (hi.2.1 q hq) h.nextId, fun q hq => ?_⟩
  obtain ⟨h1, h2⟩ := hi.2.2 q (h.waitingToBookmark ▸ hq)
  exact ⟨lt_of_lt_of_le h1 h.nextId, h2⟩

theorem ManagerEvent.apply_bookmarkInv {w w' : BookmarkWorld} {e : ManagerEvent}
    {effects : List Effect} (h : e.apply w = some (w', effects)) {done : List Query}
    (hi : BookmarkInv w done) : BookmarkInv w' (done ++ bookmarked effects) := by
  cases e with
  | link env url =>
    cases h
    exact (parseTomahawkLink_linkStep env url w.manager).playSide.bookmarkInv hi
  | play e =>
    cases h
    exact (PlayEvent.apply_playSide w.manager e).bookmarkInv hi
  | bookmark e => exact bookmarkInv_apply hi h

theorem bookmarked_ids_nodup_interleaved {es : List ManagerEvent} {w : BookmarkWorld}
    {effects : List Effect} (h : runManager ⟨Manager.initial, 0⟩ es = some (w, effects)) :
    ((bookmarked effects).map Query.id).Nodup := by
  have h0 : BookmarkInv ⟨Manager.initial, 0⟩ [] := ⟨List.nodup_nil, by simp, by simp [Manager.initial]⟩
  have hrun := runManager_stretch
    (fun w w' effects => ∀ done, BookmarkInv w done → BookmarkInv w' (done ++ bookmarked effects))
    (fun _ done hi => by simpa [bookmarked] using hi)
    (fun h1 h2 done hi => by
      simpa [bookmarked, List.filterMap_append, List.append_assoc] using h2 _ (h1 done hi))
    (fun he _ hi => ManagerEvent.apply_bookmarkInv he hi) h [] h0
  simpa using hrun.1

theorem bookmarked_ids_nodup_interleaved_sample :
    runManager ⟨Manager.initial, 0⟩
        [.link ⟨false, id, id⟩ "tomahawk://play/track?title=a".toList,
          .bookmark (.command (fromEncoded (ascii "bookmark/track?title=b")) false),
          .play (.resolved ⟨0, [], "a".toList, [], []⟩ true), .bookmark .created] =
      some (⟨⟨2, none, [⟨0, [], "a".toList, [], []⟩], none, true, true⟩, 0⟩,
        [.resolve ⟨0, [], "a".toList, [], []⟩, .resolve ⟨1, [], "b".toList, [], []⟩,
          .createBookmarksPlaylist, .play, .addBookmarkEntry ⟨1, [], "b".toList, [], []⟩]) ∧
      ((bookmarked [.resolve ⟨0, [], "a".toList, [], []⟩, .resolve ⟨1, [], "b".toList, [], []⟩,
          .createBookmarksPlaylist, .play, .addBookmarkEntry ⟨1, [], "b".toList, [], []⟩]).map
        Query.id).Nodup :=
  ⟨runManager_sample, bookmarked_ids_nodup_interleaved runManager_sample⟩

/-! ### What every reachable state keeps -/

/-- What every state a run from a fresh manager reaches keeps. -/
structure SessionInv (w : BookmarkWorld) : Prop where
  held_connected : ∀ q, w.manager.waitingToPlay = some q → q ∈ w.manager.resolvingConnections
  parked_requested : ∀ q, w.manager.waitingToBookmark = some q →
    0 < w.pendingCreations ∧ w.manager.bookmarkCreatedConnected = true

theorem sessionInv_registerToPlay {m m' : Manager} {p : Nat} (q : Query) (h : SessionInv ⟨m, p⟩)
    (hb : m'.waitingToBookmark = m.waitingToBookmark)
    (hc : m'.bookmarkCreatedConnected = m.bookmarkCreatedConnected) :
    SessionInv ⟨registerToPlay q m', p⟩ :=
  ⟨fun x hx => by simp_all [registerToPlay], fun x hx => by
    show 0 < p ∧ m'.bookmarkCreatedConnected = true
    rw [hc]
    exact h.parked_requested x (hb ▸ hx)⟩

theorem LinkStep.sessionInv {m : Manager} {o : Outcome} (h : LinkStep m o) {p : Nat}
    (hi : SessionInv ⟨m, p⟩) : SessionInv ⟨o.manager, p⟩ := by
  rcases h.manager with h' | h' | ⟨q, h'⟩ <;> rw [h']
  · exact hi
  · exact ⟨hi.held_connected, hi.parked_requested⟩
  · exact sessionInv_registerToPlay q hi rfl rfl

theorem PlayEvent.apply_sessionInv (m : Manager) (e : PlayEvent) {p : Nat}
    (hi : SessionInv ⟨m, p⟩) : SessionInv ⟨(e.apply m).1, p⟩ := by
  cases e with
  | playCommand u => exact (handlePlayCommand_linkStep u m).sessionInv hi
  | spotifyTrack q => exact sessionInv_registerToPlay q hi rfl rfl
  | openTrack b q =>
    cases b
    · exact sessionInv_registerToPlay q hi rfl rfl
    · exact hi
  | resolved s b =>
    simp only [PlayEvent.apply, waitingForResolved]
    split_ifs
    · exact ⟨fun _ h => (nomatch h), hi.parked_requested⟩
    · exact ⟨fun _ h => (nomatch h), hi.parked_requested⟩
    · exact hi

theorem BookmarkEvent.apply_sessionInv {w w' : BookmarkWorld} {e : BookmarkEvent}
    {effects : List Effect} (h : e.apply w = some (w', effects)) (hi : SessionInv w) :
    SessionInv w' := by
  obtain ⟨hw, hc, -⟩ := BookmarkEvent.apply_frame h
  refine ⟨fun q hq => hc ▸ hi.held_connected q (hw ▸ hq), fun q hq => ?_⟩
  rcases BookmarkEvent.apply_cases h with ⟨rfl, -⟩ | ⟨x, rfl, -⟩ | ⟨x, rfl, -⟩ |
    ⟨x, n, -, -, rfl, -⟩ | ⟨rfl, -⟩
  · exact hi.parked_requested q hq
  · exact nomatch hq
  · exact ⟨Nat.succ_pos _, rfl⟩
  · exact nomatch hq
  · exact hi.parked_requested q hq

theorem ManagerEvent.apply_sessionInv {w w' : BookmarkWorld} {e : ManagerEvent}
    {effects : List Effect} (h : e.apply w = some (w', effects)) (hi : SessionInv w) :
    SessionInv w' := by
  cases e with
  | link env url =>
    cases h
    exact (parseTomahawkLink_linkStep env url w.manager).sessionInv hi
  | play e =>
    cases h
    exact PlayEvent.apply_sessionInv w.manager e hi
  | bookmark e => exact BookmarkEvent.apply_sessionInv h hi

theorem runManager_sessionInv {es : List ManagerEvent} {w : BookmarkWorld} {effects : List Effect}
    (h : runManager ⟨Manager.initial, 0⟩ es = some (w, effects)) : SessionInv w :=
  runManager_stretch (fun w w' _ => SessionInv w → SessionInv w') (fun _ hi => hi)
    (fun h1 h2 hi => h2 (h1 hi)) (fun he hi => ManagerEvent.apply_sessionInv he hi) h
    ⟨fun _ h => (nomatch h), fun _ h => nomatch h⟩

theorem runManager_sessionInv_sample :
    runManager ⟨Manager.initial, 0⟩
        [.link ⟨false, id, id⟩ "tomahawk://play/track?title=a".toList,
          .bookmark (.command (fromEncoded (ascii "bookmark/track?title=b")) false),
          .play (.resolved ⟨0, [], "a".toList, [], []⟩ true), .bookmark .created] =
      some (⟨⟨2, none, [⟨0, [], "a".toList, [], []⟩], none, true, true⟩, 0⟩,
        [.resolve ⟨0, [], "a".toList, [], []⟩, .resolve ⟨1, [], "b".toList, [], []⟩,
          .createBookmarksPlaylist, .play, .addBookmarkEntry ⟨1, [], "b".toList, [], []⟩]) ∧
      SessionInv ⟨⟨2, none, [⟨0, [], "a".toList, [], []⟩], none, true, true⟩, 0⟩ :=
  ⟨runManager_sample, runManager_sessionInv runManager_sample⟩

end Tomahawk
