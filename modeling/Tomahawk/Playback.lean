import Tomahawk.Commands

/-! The slot `m_waitingToPlay` and the `resolvingFinished` connections. A delivery from any sender
but the held query empties the slot, and `play()` is called only for the held query. -/

namespace Tomahawk

open QUrl

/-- What reaches the slot: a play link, a Spotify parser's track, an opened track, a delivery. -/
inductive PlayEvent
  | playCommand (u : QUrl)
  | spotifyTrack (q : Query)
  | openTrack (isPlaying : Bool) (q : Query)
  | resolved (sender : Query) (playable : Bool)

namespace PlayEvent

def apply (m : Manager) : PlayEvent → Manager × List Effect
  | playCommand u => ((handlePlayCommand u m).manager, (handlePlayCommand u m).effects)
  | spotifyTrack q => spotifyToPlay q m
  | openTrack p q => handleOpenTrack p q m
  | resolved s p => waitingForResolved s p m

def registers : PlayEvent → Bool
  | playCommand u => (commandParts u).head? = some "track".toList && (playSpotifyLink u).isNone
  | spotifyTrack _ => true
  | openTrack p _ => !p
  | resolved _ _ => false

def enabled (m : Manager) : PlayEvent → Bool
  | resolved s _ => s ∈ m.resolvingConnections
  | _ => true

end PlayEvent

def runPlay (m : Manager) : List PlayEvent → Manager × List Effect
  | [] => (m, [])
  | e :: es => ((runPlay (e.apply m).1 es).1, (e.apply m).2 ++ (runPlay (e.apply m).1 es).2)

def validPlay (m : Manager) : List PlayEvent → Bool
  | [] => true
  | e :: es => e.enabled m && validPlay (e.apply m).1 es

def slotCount (m : Manager) : Nat := if m.waitingToPlay = none then 0 else 1

/-! ### One event -/

theorem handlePlayCommand_no_play (u : QUrl) (m : Manager) :
    Effect.play ∉ (handlePlayCommand u m).effects := by
  unfold handlePlayCommand
  split
  · simp
  · split_ifs
    · split <;> simp
    · simp

theorem slotCount_handlePlayCommand (u : QUrl) (m : Manager) :
    slotCount (handlePlayCommand u m).manager =
      if (PlayEvent.playCommand u).registers then 1 else slotCount m := by
  unfold handlePlayCommand PlayEvent.registers
  split
  · next h => simp [h]
  · next part rest h =>
    by_cases hp : part = "track".toList
    · rw [if_pos hp]
      cases hs : playSpotifyLink u <;> simp [h, hp, hs, slotCount, registerToPlay]
    · rw [if_neg hp]
      simp only [String.toList] at hp
      simp [h, hp]

theorem apply_play {m : Manager} {e : PlayEvent} (h : Effect.play ∈ (e.apply m).2) :
    ∃ q, e = .resolved q true ∧ m.waitingToPlay = some q ∧ (e.apply m).1.waitingToPlay = none := by
  cases e with
  | playCommand u => exact absurd h (handlePlayCommand_no_play u m)
  | spotifyTrack q => simp [PlayEvent.apply, spotifyToPlay] at h
  | openTrack p q => simp [PlayEvent.apply, handleOpenTrack] at h
  | resolved s p =>
    simp only [PlayEvent.apply, waitingForResolved] at h ⊢
    split_ifs at h ⊢ with hs hp
    · simp at h
    · exact ⟨s, by rw [hp], not_not.mp hs, rfl⟩
    · simp at h

theorem plays_add_slotCount_apply (m : Manager) (e : PlayEvent) :
    (e.apply m).2.count .play + slotCount (e.apply m).1 ≤
      slotCount m + if e.registers then 1 else 0 := by
  cases e with
  | playCommand u =>
    rw [PlayEvent.apply, slotCount_handlePlayCommand,
      List.count_eq_zero.mpr (handlePlayCommand_no_play u m)]
    split_ifs <;> omega
  | spotifyTrack q => simp [PlayEvent.apply, PlayEvent.registers, spotifyToPlay, slotCount]
  | openTrack p q =>
    cases p <;> simp [PlayEvent.apply, PlayEvent.registers, handleOpenTrack, slotCount]
  | resolved s p =>
    simp only [PlayEvent.apply, PlayEvent.registers, waitingForResolved]
    split_ifs with hs hp <;> simp_all [slotCount]

/-! ### Runs -/

theorem plays_add_slotCount_runPlay (m : Manager) (es : List PlayEvent) :
    (runPlay m es).2.count .play + slotCount (runPlay m es).1 ≤
      slotCount m + (es.filter PlayEvent.registers).length := by
  induction es generalizing m with
  | nil => simp [runPlay]
  | cons e es ih =>
    have hstep := plays_add_slotCount_apply m e
    have hrun := ih (e.apply m).1
    rw [runPlay, List.count_append, List.filter_cons]
    cases hr : e.registers <;>
      simp only [hr, if_true, if_false, Bool.false_eq_true, List.length_cons] at hstep ⊢ <;> omega

theorem play_only_for_held_query_once :
    (∀ (m : Manager) (e : PlayEvent), Effect.play ∈ (e.apply m).2 →
      ∃ q, e = .resolved q true ∧ m.waitingToPlay = some q ∧ (e.apply m).1.waitingToPlay = none) ∧
    (∀ (m : Manager) (es : List PlayEvent),
      (runPlay m es).2.count .play ≤ slotCount m + (es.filter PlayEvent.registers).length) :=
  ⟨fun _ _ h => apply_play h,
    fun m es => (Nat.le_add_right _ _).trans (plays_add_slotCount_runPlay m es)⟩

theorem stale_resolution_cancels_play :
    validPlay Manager.initial
        [.playCommand (fromEncoded (ascii "play/track?title=a")),
          .playCommand (fromEncoded (ascii "play/track?title=b")),
          .resolved ⟨0, [], "a".toList, [], []⟩ false, .resolved ⟨1, [], "b".toList, [], []⟩ true] = true ∧
      runPlay Manager.initial
        [.playCommand (fromEncoded (ascii "play/track?title=a")),
          .playCommand (fromEncoded (ascii "play/track?title=b")),
          .resolved ⟨0, [], "a".toList, [], []⟩ false, .resolved ⟨1, [], "b".toList, [], []⟩ true] =
        (⟨2, none, [⟨0, [], "a".toList, [], []⟩, ⟨1, [], "b".toList, [], []⟩], none, false, false⟩,
          [.resolve ⟨0, [], "a".toList, [], []⟩, .resolve ⟨1, [], "b".toList, [], []⟩]) := by
  decide

end Tomahawk
