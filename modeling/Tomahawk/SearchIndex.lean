import Mathlib.Data.List.Sort
import Tomahawk.Qt.Text

/-! `DatabaseCommand_UpdateSearchIndex::exec`: the fuzzy index is rebuilt from a `QMap` of fields
per track and per album, keyed by the row's id as `toUInt()` reads it. -/

namespace Tomahawk.SearchIndex

/-! ### `QMap< unsigned int, T >` -/

/-- The entries with `v` under `k`: in place of a value there, or before the next key. -/
def insertEntry {β : Type} (k : Nat) (v : β) : List (Nat × β) → List (Nat × β)
  | [] => [(k, v)]
  | (k', v') :: es =>
    if k < k' then (k, v) :: (k', v') :: es
    else if k = k' then (k, v) :: es
    else (k', v') :: insertEntry k v es

section InsertEntry

variable {β : Type} (k : Nat) (v : β)

theorem mem_keys_insertEntry {x : Nat} :
    ∀ {es : List (Nat × β)}, x ∈ (insertEntry k v es).map Prod.fst ↔ x = k ∨ x ∈ es.map Prod.fst
  | [] => by simp [insertEntry]
  | (k', v') :: es => by
    unfold insertEntry
    split_ifs with h1 h2
    · simp
    · subst h2
      simp
    · simp only [List.map_cons, List.mem_cons, mem_keys_insertEntry]
      tauto

theorem sorted_insertEntry :
    ∀ {es : List (Nat × β)}, (es.map Prod.fst).Sorted (· < ·) →
      ((insertEntry k v es).map Prod.fst).Sorted (· < ·)
  | [], _ => List.sorted_singleton k
  | (k', v') :: es, h => by
    rw [List.map_cons, List.sorted_cons] at h
    unfold insertEntry
    split_ifs with h1 h2
    · rw [List.map_cons, List.sorted_cons, List.map_cons, List.sorted_cons]
      exact ⟨fun b hb => (List.mem_cons.mp hb).elim (· ▸ h1) fun hb => h1.trans (h.1 b hb), h⟩
    · subst h2
      rw [List.map_cons, List.sorted_cons]
      exact h
    · rw [List.map_cons, List.sorted_cons]
      refine ⟨fun b hb => ?_, sorted_insertEntry h.2⟩
      rcases (mem_keys_insertEntry k v).mp hb with rfl | hb
      · omega
      · exact h.1 b hb

theorem find?_insertEntry (x : Nat) :
    ∀ es : List (Nat × β), ((insertEntry k v es).find? (·.1 = x)).map (·.2) =
      if x = k then some v else (es.find? (·.1 = x)).map (·.2)
  | [] => by by_cases hx : x = k <;> simp [insertEntry, hx, eq_comm]
  | (k', v') :: es => by
    have ih := find?_insertEntry x es
    unfold insertEntry
    by_cases hx : x = k
    · subst hx
      rw [if_pos rfl]
      split_ifs with h1 h2
      · rw [List.find?_cons_of_pos _ (by simp)]
        rfl
      · rw [List.find?_cons_of_pos _ (by simp)]
        rfl
      · rw [List.find?_cons_of_neg _ (by simp; omega), ih, if_pos rfl]
    · rw [if_neg hx]
      split_ifs with h1 h2
      · rw [List.find?_cons_of_neg _ (by simpa using Ne.symm hx)]
      · subst h2
        rw [List.find?_cons_of_neg _ (by simpa using Ne.symm hx),
          List.find?_cons_of_neg _ (by simpa using Ne.symm hx)]
      · rw [if_neg hx] at ih
        simp only [List.find?_cons]
        cases decide ((k', v').1 = x)
        · exact ih
        · rfl

end InsertEntry

structure QMap (β : Type) where
  entries : List (Nat × β)
  sorted : (entries.map Prod.fst).Sorted (· < ·)

namespace QMap

variable {β : Type}

def empty : QMap β := ⟨[], List.sorted_nil⟩

def insert (m : QMap β) (k : Nat) (v : β) : QMap β :=
  ⟨insertEntry k v m.entries, sorted_insertEntry k v m.sorted⟩

def value (m : QMap β) (k : Nat) : Option β := (m.entries.find? (·.1 = k)).map (·.2)

def keys (m : QMap β) : List Nat := m.entries.map Prod.fst

@[simp] theorem value_empty (k : Nat) : (empty : QMap β).value k = none := rfl

@[simp] theorem value_insert (m : QMap β) (k : Nat) (v : β) (x : Nat) :
    (m.insert k v).value x = if x = k then some v else m.value x :=
  find?_insertEntry k v x m.entries

theorem value_isSome_iff (m : QMap β) (k : Nat) : (m.value k).isSome ↔ k ∈ m.keys := by
  simp [value, keys, List.find?_isSome]

end QMap

/-! ### The command -/

structure TrackRow where
  id : Int
  name : QString
  artist : QString
  artistId : Int
  deriving DecidableEq, Repr

structure AlbumRow where
  id : Int
  name : QString
  deriving DecidableEq, Repr

/-- `QVariant::toUInt()` of an integer column, a `qlonglong` in SQLite: its low 32 bits. -/
def toUInt (n : Int) : Nat := (n % 0x100000000).toNat

def trackFields (r : TrackRow) : List (QString × QString) :=
  [("artist".toList, r.artist), ("artistid".toList, QString.number r.artistId),
    ("track".toList, r.name)]

def albumFields (r : AlbumRow) : List (QString × QString) := [("album".toList, r.name)]

def indexRows {ρ : Type} (key : ρ → Nat) (fields : ρ → List (QString × QString)) (rows : List ρ) :
    QMap (List (QString × QString)) :=
  rows.foldl (fun data r => data.insert (key r) (fields r)) QMap.empty

inductive IndexCall
  | beginIndexing
  | appendFields (data : QMap (List (QString × QString)))
  | endIndexing

def exec (tracks : List TrackRow) (albums : List AlbumRow) : List IndexCall :=
  [.beginIndexing, .appendFields (indexRows (fun r => toUInt r.id) trackFields tracks),
    .appendFields (indexRows (fun r => toUInt r.id) albumFields albums), .endIndexing]

/-! ### What the index gets -/

section Rows

variable {ρ : Type} (key : ρ → Nat) (fields : ρ → List (QString × QString))

theorem value_indexRows (rows : List ρ) (k : Nat) :
    (indexRows key fields rows).value k = (rows.reverse.find? (key · = k)).map fields := by
  induction rows using List.reverseRecOn with
  | nil => rfl
  | append_singleton rows r ih =>
    rw [indexRows, List.foldl_append, ← indexRows, List.foldl_cons, List.foldl_nil,
      QMap.value_insert, ih, List.reverse_append, List.reverse_singleton, List.singleton_append]
    by_cases h : key r = k
    · rw [if_pos h.symm, List.find?_cons_of_pos _ (by simpa using h)]
      rfl
    · rw [if_neg (Ne.symm h), List.find?_cons_of_neg _ (by simpa using h)]

theorem mem_keys_indexRows (rows : List ρ) (k : Nat) :
    k ∈ (indexRows key fields rows).keys ↔ ∃ r ∈ rows, key r = k := by
  rw [← QMap.value_isSome_iff, value_indexRows]
  simp [List.find?_isSome]

end Rows

theorem exec_index (tracks : List TrackRow) (albums : List AlbumRow) :
    ∃ trackMap albumMap, exec tracks albums =
        [.beginIndexing, .appendFields trackMap, .appendFields albumMap, .endIndexing] ∧
      (∀ k, trackMap.value k = (tracks.reverse.find? (toUInt ·.id = k)).map trackFields) ∧
      (∀ k, k ∈ trackMap.keys ↔ ∃ r ∈ tracks, toUInt r.id = k) ∧
      (∀ k, albumMap.value k = (albums.reverse.find? (toUInt ·.id = k)).map albumFields) ∧
      (∀ k, k ∈ albumMap.keys ↔ ∃ r ∈ albums, toUInt r.id = k) :=
  ⟨_, _, rfl, value_indexRows _ _ tracks, mem_keys_indexRows _ _ tracks,
    value_indexRows _ _ albums, mem_keys_indexRows _ _ albums⟩

end Tomahawk.SearchIndex
