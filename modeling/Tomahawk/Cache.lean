import Mathlib.Data.List.Nodup
import Mathlib.Data.List.Basic
import Tomahawk.Qt.Text

/-! `TomahawkCache`: a settings file per client under `m_cacheBaseDir`, and the manifest
`cachemanifest.ini` beside them, whose key `clients` lists the clients. An entry lives until the
clock passes the `maxAge` it was stored with. -/

namespace Tomahawk.GenericCache

open Text

inductive Variant (V : Type)
  | list (items : List QString)
  | cacheData (maxAge : Int) (data : V)
  deriving DecidableEq, Repr

structure CacheData (V : Type) where
  maxAge : Int
  data : Option V

abbrev Settings (V : Type) := List (QString × Variant V)

variable {V : Type}

/-- `QSettingsPrivate::normalizedKey`: no slash at either end, and none doubled. -/
def normalizedKey (key : QString) : QString :=
  ['/'].intercalate ((split key '/').filter (· ≠ []))

/-- The keys `QSettings::remove( k )` takes: `k` and those below it, or all for an empty `k`. -/
def Under (k k' : QString) : Prop := k = [] ∨ k' = k ∨ k ++ ['/'] <+: k'

instance (k k' : QString) : Decidable (Under k k') := inferInstanceAs (Decidable (_ ∨ _))

namespace Settings

def value (s : Settings V) (key : QString) : Option (Variant V) :=
  (s.find? (·.1 = normalizedKey key)).map (·.2)

def setValue (s : Settings V) (key : QString) (v : Variant V) : Settings V :=
  (normalizedKey key, v) :: s.filter (·.1 ≠ normalizedKey key)

def remove (s : Settings V) (key : QString) : Settings V :=
  s.filter fun kv => ¬Under (normalizedKey key) kv.1

def allKeys (s : Settings V) : List QString := s.map (·.1)

end Settings

structure Cache (V : Type) where
  /-- The file `QSettings( m_cacheBaseDir + name )` opens, by its cleaned absolute path. -/
  path : QString → QString
  files : QString → Settings V

def Cache.empty (path : QString → QString) : Cache V := ⟨path, fun _ => []⟩

def Cache.file (c : Cache V) (name : QString) : Settings V := c.files (c.path name)

def Cache.write (c : Cache V) (name : QString) (f : Settings V → Settings V) : Cache V :=
  ⟨c.path, fun p => if p = c.path name then f (c.file name) else c.files p⟩

def manifest : QString := "cachemanifest.ini".toList

def clients (c : Cache V) : List QString :=
  match (c.file manifest).value "clients".toList with
  | some (.list l) => l
  | _ => []

def setClients (c : Cache V) (l : List QString) : Cache V :=
  c.write manifest (·.setValue "clients".toList (.list l))

def addClient (c : Cache V) (id : QString) : Cache V :=
  if id ∈ clients c then c else setClients c (clients c ++ [id])

def removeClient (c : Cache V) (id : QString) : Cache V := setClients c ((clients c).erase id)

/-- `value( key ).value<CacheData>()`; a default `CacheData`'s `maxAge` is uninitialised. -/
def toCacheData (unset : Int) : Option (Variant V) → CacheData V
  | some (.cacheData m d) => ⟨m, some d⟩
  | _ => ⟨unset, none⟩

def putData (c : Cache V) (id : QString) (maxAge : Int) (key : QString) (value : V) : Cache V :=
  (addClient c id).write id (·.setValue key (.cacheData maxAge value))

def getData (unset now : Int) (c : Cache V) (id key : QString) : Option V × Cache V :=
  match (c.file id).value key with
  | none => (none, c)
  | some v =>
    if (toCacheData unset (some v)).maxAge < now then (none, c.write id (·.remove key))
    else ((toCacheData unset (some v)).data, c)

def pruneSettings (unset now : Int) (s : Settings V) (keys : List QString) : Settings V :=
  keys.foldl (fun s key =>
    if (toCacheData unset (s.value key)).maxAge < now then s.remove key else s) s

def pruneFile (unset now : Int) (s : Settings V) : Settings V := pruneSettings unset now s s.allKeys

def pruneClient (unset now : Int) (c : Cache V) (id : QString) : Cache V :=
  let c := c.write id (pruneFile unset now)
  if (c.file id).allKeys = [] then removeClient c id else c

def pruneTimerFired (unset now : Int) (c : Cache V) : Cache V :=
  (clients c).foldl (pruneClient unset now) c

inductive CacheEvent (V : Type)
  | put (id : QString) (maxAge : Int) (key : QString) (value : V)
  | get (id key : QString) (now : Int)
  | prune (now : Int)

def CacheEvent.identifier : CacheEvent V → Option QString
  | put id _ _ _ => some id
  | get id _ _ => some id
  | prune _ => none

def CacheEvent.apply (unset : Int) (c : Cache V) : CacheEvent V → Cache V
  | put id m key v => putData c id m key v
  | get id key now => (getData unset now c id key).2
  | prune now => pruneTimerFired unset now c

def runCache (unset : Int) (c : Cache V) (es : List (CacheEvent V)) : Cache V :=
  es.foldl (CacheEvent.apply unset) c

def identifiers (es : List (CacheEvent V)) : List QString := es.filterMap CacheEvent.identifier

def holdsLiveEntry (c : Cache V) (id : QString) (t : Int) : Prop :=
  ∃ kv ∈ c.file id, ∃ m d, kv.2 = .cacheData m d ∧ t ≤ m

/-! ### Keys -/

theorem not_mem_of_mem_splitOn {x : Char} {w : QString} :
    ∀ {s : QString}, w ∈ s.splitOn x → x ∉ w
  | [], h => by
    rw [List.splitOn_nil, List.mem_singleton] at h
    exact h ▸ List.not_mem_nil x
  | c :: s, h => by
    have ih : ∀ {w : QString}, w ∈ s.splitOn x → x ∉ w := fun h => not_mem_of_mem_splitOn h
    rw [List.splitOn, List.splitOnP_cons, ← List.splitOn] at h
    split_ifs at h with hc
    · rcases List.mem_cons.mp h with rfl | h
      · exact List.not_mem_nil x
      · exact ih h
    · obtain ⟨hd, tl, ht⟩ := List.exists_cons_of_ne_nil (List.splitOnP_ne_nil (· == x) s)
      rw [← List.splitOn] at ht
      rw [ht, List.modifyHead_cons] at h
      rcases List.mem_cons.mp h with rfl | h
      · rintro (_ | ⟨_, hm⟩)
        · exact hc (beq_self_eq_true x)
        · exact ih (ht ▸ List.mem_cons_self hd tl) hm
      · exact ih (ht ▸ List.mem_cons_of_mem hd h)

theorem normalizedKey_normalizedKey (key : QString) :
    normalizedKey (normalizedKey key) = normalizedKey key := by
  unfold normalizedKey
  generalize hW : (split key '/').filter (· ≠ []) = W
  have hw : ∀ w ∈ W, '/' ∉ w ∧ w ≠ [] := fun w hw => by
    rw [← hW, List.mem_filter] at hw
    exact ⟨not_mem_of_mem_splitOn hw.1, by simpa using hw.2⟩
  rcases W with _ | ⟨w, ws⟩
  · rfl
  · rw [split, List.splitOn_intercalate (w :: ws) '/' (fun l hl => (hw l hl).1) (List.cons_ne_nil _ _),
      List.filter_eq_self.mpr fun l hl => by simpa using (hw l hl).2]

theorem under_self (k : QString) : Under k k := .inr (.inl rfl)

theorem ne_of_not_under {k k' : QString} (h : ¬Under k k') : k' ≠ k := fun e => h (.inr (.inl e))

/-! ### One settings file -/

namespace Settings

theorem value_cons_of_eq {kv : QString × Variant V} {s : Settings V} {k : QString}
    (h : kv.1 = normalizedKey k) : value (kv :: s) k = some kv.2 := by
  simp [value, h]

theorem value_cons_of_ne {kv : QString × Variant V} {s : Settings V} {k : QString}
    (h : kv.1 ≠ normalizedKey k) : value (kv :: s) k = value s k := by
  simp [value, h]

theorem value_congr (s : Settings V) {k k' : QString} (h : normalizedKey k = normalizedKey k') :
    s.value k = s.value k' := by
  rw [value, value, h]

theorem value_filter {p : QString × Variant V → Bool} {k : QString} :
    ∀ {s : Settings V}, (∀ kv ∈ s, kv.1 = normalizedKey k → p kv = true) →
      value (s.filter p) k = s.value k
  | [], _ => rfl
  | kv :: s, hp => by
    have ih := value_filter (s := s) fun x hx => hp x (.tail _ hx)
    by_cases hk : kv.1 = normalizedKey k
    · rw [List.filter_cons_of_pos (hp kv (.head _) hk), value_cons_of_eq hk, value_cons_of_eq hk]
    · rw [value_cons_of_ne hk]
      by_cases hpk : p kv = true
      · rw [List.filter_cons_of_pos hpk, value_cons_of_ne hk, ih]
      · rw [List.filter_cons_of_neg hpk, ih]

theorem exists_of_value {s : Settings V} {k : QString} {v : Variant V} (h : s.value k = some v) :
    ∃ kv ∈ s, kv.1 = normalizedKey k ∧ kv.2 = v := by
  obtain ⟨kv, hkv, rfl⟩ := Option.map_eq_some'.mp h
  exact ⟨kv, List.mem_of_find?_eq_some hkv, by simpa using List.find?_some hkv, rfl⟩

@[simp] theorem value_setValue_self (s : Settings V) (key : QString) (v : Variant V) :
    (s.setValue key v).value key = some v :=
  value_cons_of_eq rfl

theorem value_setValue_of_ne (s : Settings V) {key k : QString}
    (h : normalizedKey k ≠ normalizedKey key) (v : Variant V) :
    (s.setValue key v).value k = s.value k := by
  rw [setValue, value_cons_of_ne (Ne.symm h)]
  exact value_filter fun kv _ hk => by simpa [hk] using h

theorem value_remove_of_not_under (s : Settings V) {key k : QString}
    (h : ¬Under (normalizedKey key) (normalizedKey k)) : (s.remove key).value k = s.value k :=
  value_filter fun kv _ hk => by simpa [hk] using h

theorem allKeys_eq_nil {s : Settings V} : s.allKeys = [] ↔ s = [] := List.map_eq_nil_iff

theorem keys_nodup_setValue {s : Settings V} (h : (s.map Prod.fst).Nodup) (key : QString)
    (v : Variant V) : ((s.setValue key v).map Prod.fst).Nodup := by
  refine List.nodup_cons.mpr ⟨fun hm => ?_, ?_⟩
  · obtain ⟨kv, hkv, he⟩ := List.mem_map.mp hm
    exact absurd he (by simpa using (List.mem_filter.mp hkv).2)
  · exact h.sublist ((List.filter_sublist _).map _)

theorem keys_normal_setValue {s : Settings V} (h : ∀ kv ∈ s, normalizedKey kv.1 = kv.1)
    (key : QString) (v : Variant V) : ∀ kv ∈ s.setValue key v, normalizedKey kv.1 = kv.1 := by
  intro kv hkv
  rcases List.mem_cons.mp hkv with rfl | hkv
  · exact normalizedKey_normalizedKey key
  · exact h kv (List.mem_filter.mp hkv).1

theorem value_of_mem {s : Settings V} (h : (s.map Prod.fst).Nodup)
    (hn : ∀ kv ∈ s, normalizedKey kv.1 = kv.1) {kv : QString × Variant V} (hkv : kv ∈ s) :
    s.value kv.1 = some kv.2 := by
  induction s with
  | nil => cases hkv
  | cons a s ih =>
    obtain ⟨ha, hs⟩ := List.nodup_cons.mp h
    rcases List.mem_cons.mp hkv with rfl | hkv
    · exact value_cons_of_eq (hn _ (.head _)).symm
    · have hne : a.1 ≠ normalizedKey kv.1 := by
        rw [hn kv (.tail _ hkv)]
        exact fun e => ha (e ▸ List.mem_map_of_mem _ hkv)
      rw [value_cons_of_ne hne]
      exact ih hs (fun x hx => hn x (.tail _ hx)) hkv

end Settings

/-! ### Writes and the client list -/

theorem Cache.file_congr (c : Cache V) {a b : QString} (h : c.path a = c.path b) :
    c.file a = c.file b :=
  congrArg c.files h

section Writes

variable (c : Cache V)

@[simp] theorem path_write (name : QString) (f : Settings V → Settings V) :
    (c.write name f).path = c.path := rfl

theorem files_write (name : QString) (f : Settings V → Settings V) (p : QString) :
    (c.write name f).files p = if p = c.path name then f (c.file name) else c.files p := rfl

@[simp] theorem file_write (name : QString) (f : Settings V → Settings V) (m : QString) :
    (c.write name f).file m = if c.path m = c.path name then f (c.file name) else c.file m := rfl

theorem clients_write {name : QString} (h : c.path name ≠ c.path manifest)
    (f : Settings V → Settings V) : clients (c.write name f) = clients c := by
  simp [clients, Ne.symm h]

@[simp] theorem path_setClients (l : List QString) : (setClients c l).path = c.path := rfl

@[simp] theorem clients_setClients (l : List QString) : clients (setClients c l) = l := by
  simp [clients, setClients]

theorem files_setClients (l : List QString) (p : QString) :
    (setClients c l).files p = if p = c.path manifest then
      (c.file manifest).setValue "clients".toList (.list l) else c.files p := rfl

@[simp] theorem path_addClient (id : QString) : (addClient c id).path = c.path := by
  unfold addClient
  split_ifs <;> rfl

theorem clients_addClient (id : QString) :
    clients (addClient c id) = if id ∈ clients c then clients c else clients c ++ [id] := by
  unfold addClient
  split_ifs <;> simp

theorem files_addClient_of_ne {p : QString} (h : p ≠ c.path manifest) (id : QString) :
    (addClient c id).files p = c.files p := by
  unfold addClient
  split_ifs
  · rfl
  · rw [files_setClients, if_neg h]

@[simp] theorem path_putData (id : QString) (maxAge : Int) (key : QString) (value : V) :
    (putData c id maxAge key value).path = c.path :=
  path_addClient c id

end Writes

/-! ### Reading back what was stored -/

theorem getData_putData (unset now : Int) (c : Cache V) (id : QString) (maxAge : Int)
    (key : QString) (value : V) :
    (getData unset now (putData c id maxAge key value) id key).1 =
      if maxAge < now then none else some value := by
  simp only [getData, putData, file_write, if_true, Settings.value_setValue_self, toCacheData]
  split_ifs <;> rfl

theorem getData_within_lifetime_invalid (path : QString → QString) :
    (getData 0 10500 (putData (Cache.empty path : Cache Nat) "c".toList 1000 "k".toList 7)
      "c".toList "k".toList).1 = none := by
  rw [getData_putData]
  rfl

/-! ### Pruning one file -/

theorem pruneSettings_cons (unset now : Int) (s : Settings V) (key : QString) (keys : List QString) :
    pruneSettings unset now s (key :: keys) =
      pruneSettings unset now
        (if (toCacheData unset (s.value key)).maxAge < now then s.remove key else s) keys := rfl

theorem pruneSettings_sublist (unset now : Int) (s : Settings V) (keys : List QString) :
    (pruneSettings unset now s keys).Sublist s := by
  induction keys generalizing s with
  | nil => exact List.Sublist.refl s
  | cons key keys ih =>
    rw [pruneSettings_cons]
    split_ifs
    · exact (ih _).trans (List.filter_sublist _)
    · exact ih s

theorem pruneFile_sublist (unset now : Int) (s : Settings V) : (pruneFile unset now s).Sublist s :=
  pruneSettings_sublist unset now s _

theorem live_of_mem_pruneSettings (unset now : Int) {kv : QString × Variant V} :
    ∀ {s : Settings V} {keys : List QString}, (s.map Prod.fst).Nodup →
      (∀ x ∈ s, normalizedKey x.1 = x.1) → kv ∈ pruneSettings unset now s keys → kv.1 ∈ keys →
        ¬(toCacheData unset (some kv.2)).maxAge < now
  | _, [], _, _, _, hk => absurd hk (List.not_mem_nil _)
  | s, key :: keys, hnd, hn, hkv, hk => by
    rw [pruneSettings_cons] at hkv
    have hs := (pruneSettings_sublist unset now _ keys).subset hkv
    by_cases hks : kv.1 ∈ keys
    · split_ifs at hkv
      · exact live_of_mem_pruneSettings unset now (hnd.sublist ((List.filter_sublist _).map _))
          (fun x hx => hn x (List.mem_filter.mp hx).1) hkv hks
      · exact live_of_mem_pruneSettings unset now hnd hn hkv hks
    · have hkey : kv.1 = key := (List.mem_cons.mp hk).resolve_right hks
      split_ifs at hs with hst
      · have hkv' := List.mem_filter.mp hs
        rw [← hkey, hn kv hkv'.1] at hkv'
        exact absurd (under_self kv.1) (by simpa using hkv'.2)
      · rwa [← hkey, Settings.value_of_mem hnd hn hs] at hst

theorem value_pruneSettings_of_live (unset now : Int) {key : QString} {m : Int} {d : V}
    (hm : now ≤ m) :
    ∀ {s : Settings V} {keys : List QString}, s.value key = some (.cacheData m d) →
      (∀ k ∈ keys, Under (normalizedKey k) (normalizedKey key) → normalizedKey k = normalizedKey key) →
        (pruneSettings unset now s keys).value key = some (.cacheData m d)
  | _, [], h, _ => h
  | s, k :: keys, h, habove => by
    rw [pruneSettings_cons]
    refine value_pruneSettings_of_live unset now hm ?_ fun k' hk' => habove k' (.tail _ hk')
    split_ifs with hst
    · by_cases hu : Under (normalizedKey k) (normalizedKey key)
      · rw [Settings.value_congr s (habove k (.head _) hu), h] at hst
        exact absurd hst (not_lt.mpr hm)
      · rw [Settings.value_remove_of_not_under s hu, h]
    · exact h

section Prune

variable (unset now : Int) (c : Cache V)

theorem pruneClient_eq (id : QString) :
    pruneClient unset now c id =
      if (pruneFile unset now (c.file id)).allKeys = [] then
        removeClient (c.write id (pruneFile unset now)) id
      else c.write id (pruneFile unset now) := by
  rw [pruneClient, file_write, if_pos rfl]

@[simp] theorem path_pruneClient (id : QString) : (pruneClient unset now c id).path = c.path := by
  rw [pruneClient_eq]
  split_ifs <;> rfl

theorem files_pruneClient {id p : QString} (hp : p ≠ c.path manifest) :
    (pruneClient unset now c id).files p =
      if p = c.path id then pruneFile unset now (c.file id) else c.files p := by
  rw [pruneClient_eq]
  by_cases he : (pruneFile unset now (c.file id)).allKeys = []
  · rw [if_pos he, removeClient, files_setClients, path_write, if_neg hp, files_write]
  · rw [if_neg he, files_write]

theorem clients_pruneClient {id : QString} (hid : c.path id ≠ c.path manifest) :
    clients (pruneClient unset now c id) =
      if (pruneFile unset now (c.file id)).allKeys = [] then (clients c).erase id else clients c := by
  rw [pruneClient_eq]
  split_ifs <;> simp [removeClient, clients_write c hid]

@[simp] theorem path_pruneTimerFired : (pruneTimerFired unset now c).path = c.path := by
  rw [pruneTimerFired]
  generalize clients c = l
  induction l generalizing c with
  | nil => rfl
  | cons id l ih => rw [List.foldl_cons, ih, path_pruneClient]

end Prune

@[simp] theorem path_apply (unset : Int) (c : Cache V) (e : CacheEvent V) :
    (e.apply unset c).path = c.path := by
  cases e with
  | put id m key v => exact path_putData c id m key v
  | get id key now =>
    show (getData unset now c id key).2.path = c.path
    unfold getData
    split
    · rfl
    · split_ifs <;> rfl
  | prune now => exact path_pruneTimerFired unset now c

@[simp] theorem path_runCache (unset : Int) (c : Cache V) (es : List (CacheEvent V)) :
    (runCache unset c es).path = c.path := by
  induction es generalizing c with
  | nil => rfl
  | cons e es ih => rw [runCache, List.foldl_cons, ← runCache, ih, path_apply]

/-! ### The invariant of every run whose clients have files of their own -/

/-- The clients named in `names` open distinct files, none of them the manifest. -/
structure Separate (path : QString → QString) (names : List QString) : Prop where
  not_manifest : ∀ id ∈ names, path id ≠ path manifest
  injective : ∀ id ∈ names, ∀ id' ∈ names, path id = path id' → id = id'

instance (path : QString → QString) (names : List QString) : Decidable (Separate path names) :=
  decidable_of_iff ((∀ id ∈ names, path id ≠ path manifest) ∧
      ∀ id ∈ names, ∀ id' ∈ names, path id = path id' → id = id')
    ⟨fun h => ⟨h.1, h.2⟩, fun h => ⟨h.1, h.2⟩⟩

structure CacheInv (c : Cache V) (names : List QString) : Prop where
  clients_nodup : (clients c).Nodup
  clients_named : ∀ id ∈ clients c, id ∈ names
  listed : ∀ p, p ≠ c.path manifest → c.files p ≠ [] → ∃ id ∈ clients c, c.path id = p
  keys_nodup : ∀ p, ((c.files p).map Prod.fst).Nodup
  keys_normal : ∀ p, ∀ kv ∈ c.files p, normalizedKey kv.1 = kv.1
  cacheData_only : ∀ p, p ≠ c.path manifest → ∀ kv ∈ c.files p, ∃ m d, kv.2 = .cacheData m d
  manifest_lists : ∀ kv ∈ c.file manifest, ∃ l, kv.2 = .list l

theorem cacheInv_empty (path : QString → QString) (names : List QString) :
    CacheInv (Cache.empty path : Cache V) names where
  clients_nodup := List.nodup_nil
  clients_named _ h := absurd h (List.not_mem_nil _)
  listed _ _ h := absurd rfl h
  keys_nodup _ := List.nodup_nil
  keys_normal _ _ h := absurd h (List.not_mem_nil _)
  cacheData_only _ _ _ h := absurd h (List.not_mem_nil _)
  manifest_lists _ h := absurd h (List.not_mem_nil _)

section Steps

variable {c : Cache V} {names : List QString} {id : QString}

theorem cacheInv_setClients (h : CacheInv c names) {l : List QString} (hl : l.Nodup)
    (hn : ∀ x ∈ l, x ∈ names)
    (hsub : ∀ p, p ≠ c.path manifest → c.files p ≠ [] → ∃ x ∈ l, c.path x = p) :
    CacheInv (setClients c l) names where
  clients_nodup := by simpa using hl
  clients_named := by simpa using hn
  listed p hp hne := by
    rw [path_setClients] at hp
    rw [files_setClients, if_neg hp] at hne
    simpa using hsub p hp hne
  keys_nodup p := by
    rw [files_setClients]
    split_ifs
    · exact Settings.keys_nodup_setValue (h.keys_nodup _) _ _
    · exact h.keys_nodup p
  keys_normal p := by
    rw [files_setClients]
    split_ifs
    · exact Settings.keys_normal_setValue (h.keys_normal _) _ _
    · exact h.keys_normal p
  cacheData_only p hp := by
    rw [path_setClients] at hp
    rw [files_setClients, if_neg hp]
    exact h.cacheData_only p hp
  manifest_lists kv hkv := by
    rw [Cache.file, files_setClients, path_setClients, if_pos rfl] at hkv
    rcases List.mem_cons.mp hkv with rfl | hkv
    · exact ⟨l, rfl⟩
    · exact h.manifest_lists kv (List.mem_filter.mp hkv).1

theorem cacheInv_write (h : CacheInv c names) (hid : c.path id ≠ c.path manifest)
    {f : Settings V → Settings V} (hnd : ((f (c.file id)).map Prod.fst).Nodup)
    (hn : ∀ kv ∈ f (c.file id), normalizedKey kv.1 = kv.1)
    (hcd : ∀ kv ∈ f (c.file id), ∃ m d, kv.2 = .cacheData m d)
    (hlisted : f (c.file id) ≠ [] → ∃ x ∈ clients c, c.path x = c.path id) :
    CacheInv (c.write id f) names where
  clients_nodup := by rw [clients_write c hid]; exact h.clients_nodup
  clients_named := by rw [clients_write c hid]; exact h.clients_named
  listed p hp hne := by
    rw [clients_write c hid]
    rw [files_write] at hne
    split_ifs at hne with hpi
    · exact hpi ▸ hlisted hne
    · exact h.listed p hp hne
  keys_nodup p := by
    rw [files_write]
    split_ifs
    · exact hnd
    · exact h.keys_nodup p
  keys_normal p := by
    rw [files_write]
    split_ifs
    · exact hn
    · exact h.keys_normal p
  cacheData_only p hp := by
    rw [files_write]
    split_ifs
    · exact hcd
    · exact h.cacheData_only p hp
  manifest_lists kv hkv := by
    rw [file_write, if_neg (Ne.symm hid)] at hkv
    exact h.manifest_lists kv hkv

theorem cacheInv_write_sublist (h : CacheInv c names) (hid : c.path id ≠ c.path manifest)
    {f : Settings V → Settings V} (hs : (f (c.file id)).Sublist (c.file id)) :
    CacheInv (c.write id f) names :=
  cacheInv_write h hid ((h.keys_nodup _).sublist (hs.map _))
    (fun kv hkv => h.keys_normal _ kv (hs.subset hkv))
    (fun kv hkv => h.cacheData_only _ hid kv (hs.subset hkv))
    fun hne => h.listed _ hid fun he => hne (List.sublist_nil.mp (he ▸ hs))

theorem cacheInv_addClient (h : CacheInv c names) (hn : id ∈ names) :
    CacheInv (addClient c id) names ∧ id ∈ clients (addClient c id) := by
  rw [clients_addClient]
  unfold addClient
  split_ifs with hm
  · exact ⟨h, hm⟩
  · refine ⟨cacheInv_setClients h ?_ ?_ fun p hp hne => ?_, by simp⟩
    · simpa [List.nodup_append, hm] using h.clients_nodup
    · exact fun x hx => (List.mem_append.mp hx).elim (h.clients_named x)
        fun hx => List.mem_singleton.mp hx ▸ hn
    · obtain ⟨x, hx, hpx⟩ := h.listed p hp hne
      exact ⟨x, List.mem_append_left _ hx, hpx⟩

theorem cacheInv_putData (h : CacheInv c names) (hn : id ∈ names)
    (hid : c.path id ≠ c.path manifest) (maxAge : Int) (key : QString) (value : V) :
    CacheInv (putData c id maxAge key value) names := by
  obtain ⟨h1, hmem⟩ := cacheInv_addClient h hn
  refine cacheInv_write h1 (by simpa using hid) (Settings.keys_nodup_setValue (h1.keys_nodup _) _ _)
    (Settings.keys_normal_setValue (h1.keys_normal _) _ _) ?_ fun _ => ⟨id, hmem, rfl⟩
  intro kv hkv
  rcases List.mem_cons.mp hkv with rfl | hkv
  · exact ⟨maxAge, value, rfl⟩
  · exact h1.cacheData_only _ (by simpa using hid) kv (List.mem_filter.mp hkv).1

theorem cacheInv_getData (h : CacheInv c names) (hid : c.path id ≠ c.path manifest)
    (unset now : Int) (key : QString) : CacheInv (getData unset now c id key).2 names := by
  unfold getData
  split
  · exact h
  · split_ifs
    · exact cacheInv_write_sublist h hid (List.filter_sublist _)
    · exact h

theorem cacheInv_pruneClient (h : CacheInv c names) (hid : c.path id ≠ c.path manifest)
    (unset now : Int) : CacheInv (pruneClient unset now c id) names := by
  have h1 := cacheInv_write_sublist h hid (pruneFile_sublist unset now (c.file id))
  rw [pruneClient_eq, removeClient]
  split_ifs with he
  · refine cacheInv_setClients h1 (h1.clients_nodup.erase id)
      (fun x hx => h1.clients_named x (List.mem_of_mem_erase hx)) fun p hp hne => ?_
    obtain ⟨x, hx, rfl⟩ := h1.listed p hp hne
    have hxi : x ≠ id := by
      rintro rfl
      rw [path_write, files_write, if_pos rfl] at hne
      exact hne (Settings.allKeys_eq_nil.mp he)
    exact ⟨x, (List.mem_erase_of_ne hxi).mpr hx, rfl⟩
  · exact h1

end Steps

theorem cacheInv_foldl_pruneClient (unset now : Int) {names L : List QString} :
    ∀ {c : Cache V}, CacheInv c names → (∀ x ∈ L, c.path x ≠ c.path manifest) →
      CacheInv (L.foldl (pruneClient unset now) c) names := by
  induction L with
  | nil => exact fun h _ => h
  | cons x L ih =>
    intro c h hL
    exact ih (cacheInv_pruneClient h (hL x (.head _)) unset now)
      fun y hy => by simpa using hL y (.tail _ hy)

theorem cacheInv_pruneTimerFired {c : Cache V} {names : List QString} (h : CacheInv c names)
    (hs : Separate c.path names) (unset now : Int) : CacheInv (pruneTimerFired unset now c) names :=
  cacheInv_foldl_pruneClient unset now h fun x hx => hs.not_manifest x (h.clients_named x hx)

theorem cacheInv_apply {c : Cache V} {names : List QString} (h : CacheInv c names)
    (hs : Separate c.path names) (unset : Int) {e : CacheEvent V}
    (he : ∀ x, e.identifier = some x → x ∈ names) : CacheInv (e.apply unset c) names := by
  cases e with
  | put id m key v =>
    have hn := he id rfl
    exact cacheInv_putData h hn (hs.not_manifest id hn) m key v
  | get id key now => exact cacheInv_getData h (hs.not_manifest id (he id rfl)) unset now key
  | prune now => exact cacheInv_pruneTimerFired h hs unset now

theorem cacheInv_runCache {names : List QString} (unset : Int) :
    ∀ {c : Cache V} {es : List (CacheEvent V)}, CacheInv c names → Separate c.path names →
      (∀ e ∈ es, ∀ x, e.identifier = some x → x ∈ names) → CacheInv (runCache unset c es) names
  | _, [], h, _, _ => h
  | c, e :: es, h, hs, hes => by
    rw [runCache, List.foldl_cons, ← runCache]
    exact cacheInv_runCache unset (cacheInv_apply h hs unset (hes e (.head _)))
      (by simpa using hs) fun e' he' => hes e' (.tail _ he')

/-! ### What a prune leaves -/

section PruneLoop

variable (unset now : Int) {names : List QString}

theorem file_pruneClient {c : Cache V} (hs : Separate c.path names) {x y : QString} (hx : x ∈ names)
    (hy : y ∈ names) :
    (pruneClient unset now c x).file y = if y = x then pruneFile unset now (c.file x) else c.file y := by
  rw [Cache.file, files_pruneClient unset now c (by simpa using hs.not_manifest y hy), path_pruneClient]
  by_cases hyx : y = x
  · simp [hyx, Cache.file]
  · rw [if_neg fun e => hyx (hs.injective y hy x hx e), if_neg hyx]
    rfl

theorem file_foldl_pruneClient :
    ∀ {L : List QString} {c : Cache V}, Separate c.path names → L.Nodup → (∀ x ∈ L, x ∈ names) →
      ∀ {id : QString}, id ∈ names →
        (L.foldl (pruneClient unset now) c).file id =
          if id ∈ L then pruneFile unset now (c.file id) else c.file id
  | [], _, _, _, _, _, _ => by simp
  | x :: L, c, hs, hL, hLn, id, hid => by
    obtain ⟨hxL, hL⟩ := List.nodup_cons.mp hL
    rw [List.foldl_cons, file_foldl_pruneClient (by simpa using hs) hL (fun y hy => hLn y (.tail _ hy))
      hid, file_pruneClient unset now hs (hLn x (.head _)) hid]
    by_cases hix : id = x
    · subst hix
      simp [hxL]
    · simp [hix]

theorem mem_clients_foldl_pruneClient :
    ∀ {L : List QString} {c : Cache V}, CacheInv c names → Separate c.path names → L.Nodup →
      (∀ x ∈ L, x ∈ names) → ∀ {id : QString}, id ∈ names →
        (id ∈ clients (L.foldl (pruneClient unset now) c) ↔
          id ∈ clients c ∧ (id ∈ L → pruneFile unset now (c.file id) ≠ []))
  | [], _, _, _, _, _, _, _ => by simp
  | x :: L, c, h, hs, hL, hLn, id, hid => by
    obtain ⟨hxL, hL⟩ := List.nodup_cons.mp hL
    have hx := hLn x (.head _)
    rw [List.foldl_cons, mem_clients_foldl_pruneClient (cacheInv_pruneClient h (hs.not_manifest x hx)
      unset now) (by simpa using hs) hL (fun y hy => hLn y (.tail _ hy)) hid,
      clients_pruneClient unset now c (hs.not_manifest x hx), file_pruneClient unset now hs hx hid]
    by_cases hix : id = x
    · subst hix
      rw [if_pos rfl]
      split_ifs with he
      · simp only [h.clients_nodup.mem_erase_iff, ne_eq, not_true_eq_false, false_and,
          Settings.allKeys_eq_nil.mp he, List.mem_cons_self, forall_const, and_false]
      · have hne : pruneFile unset now (c.file id) ≠ [] := fun e => he (Settings.allKeys_eq_nil.mpr e)
        simp only [hxL, false_implies, and_true, List.mem_cons_self, forall_const]
        exact (and_iff_left hne).symm
    · split_ifs <;> simp only [h.clients_nodup.mem_erase_iff, if_neg hix, ne_eq, hix, not_false_eq_true,
        true_and, List.mem_cons, false_or]

end PruneLoop

theorem mem_clients_pruneTimerFired {c : Cache V} {names : List QString} (h : CacheInv c names)
    (hs : Separate c.path names) (unset t : Int) (id : QString) :
    id ∈ clients (pruneTimerFired unset t c) ↔ id ∈ names ∧ holdsLiveEntry (pruneTimerFired unset t c) id t := by
  by_cases hn : id ∈ names
  · have hid := hs.not_manifest id hn
    rw [pruneTimerFired, mem_clients_foldl_pruneClient unset t h hs h.clients_nodup h.clients_named hn,
      holdsLiveEntry, file_foldl_pruneClient unset t hs h.clients_nodup h.clients_named hn]
    by_cases hmem : id ∈ clients c
    · simp only [hmem, if_true, true_and, forall_const, hn]
      refine ⟨fun hne => ?_, fun ⟨kv, hkv, _⟩ => List.ne_nil_of_mem hkv⟩
      obtain ⟨kv, hkv⟩ := List.exists_mem_of_ne_nil _ hne
      have hkv' := (pruneFile_sublist unset t _).subset hkv
      obtain ⟨m, d, hd⟩ := h.cacheData_only _ hid kv hkv'
      have hlive := live_of_mem_pruneSettings unset t (h.keys_nodup _) (h.keys_normal _) hkv
        (List.mem_map_of_mem _ hkv')
      exact ⟨kv, hkv, m, d, hd, by simpa [hd, toCacheData] using hlive⟩
    · have hnil : c.file id = [] := by
        by_contra hne
        obtain ⟨x, hx, hpx⟩ := h.listed _ hid hne
        exact hmem (hs.injective x (h.clients_named x hx) id hn hpx ▸ hx)
      refine iff_of_false (fun hm => hmem hm.1) fun ⟨_, kv, hkv, _⟩ => ?_
      rw [if_neg hmem, hnil] at hkv
      cases hkv
  · exact iff_of_false (fun hm => hn ((cacheInv_pruneTimerFired h hs unset t).clients_named id hm))
      fun hm => hn hm.1

theorem clients_track_live_entries (unset : Int) (path : QString → QString)
    (es : List (CacheEvent V)) (hs : Separate path (identifiers es)) :
    (clients (runCache unset (Cache.empty path) es)).Nodup ∧
      (∀ p, p ≠ path manifest → (runCache unset (Cache.empty path) es).files p ≠ [] →
        ∃ id ∈ clients (runCache unset (Cache.empty path) es), path id = p) ∧
      ∀ (t : Int) (id : QString),
        id ∈ clients (pruneTimerFired unset t (runCache unset (Cache.empty path) es)) ↔
          id ∈ identifiers es ∧
            holdsLiveEntry (pruneTimerFired unset t (runCache unset (Cache.empty path) es)) id t := by
  have h := cacheInv_runCache unset (cacheInv_empty path (identifiers es)) hs
    fun e he x hx => List.mem_filterMap.mpr ⟨e, he, hx⟩
  have hs' : Separate (runCache unset (Cache.empty path) es).path (identifiers es) := by simpa using hs
  exact ⟨h.clients_nodup, fun p hp => by simpa using h.listed p (by simpa using hp),
    mem_clients_pruneTimerFired h hs' unset⟩

theorem clients_track_live_entries_sample :
    Separate (fun name => "/c/".toList ++ name) (identifiers
        [CacheEvent.put "a".toList 5 "k".toList (1 : Nat), .get "a".toList "k".toList 7, .prune 3]) ∧
      (clients (runCache 0 (Cache.empty fun name => "/c/".toList ++ name)
        [CacheEvent.put "a".toList 5 "k".toList (1 : Nat), .get "a".toList "k".toList 7, .prune 3])).Nodup ∧
      (∀ p, p ≠ "/c/".toList ++ manifest → (runCache 0 (Cache.empty fun name => "/c/".toList ++ name)
          [CacheEvent.put "a".toList 5 "k".toList (1 : Nat), .get "a".toList "k".toList 7, .prune 3]).files p ≠ [] →
        ∃ id ∈ clients (runCache 0 (Cache.empty fun name => "/c/".toList ++ name)
          [CacheEvent.put "a".toList 5 "k".toList (1 : Nat), .get "a".toList "k".toList 7, .prune 3]),
          "/c/".toList ++ id = p) ∧
      ∀ (t : Int) (id : QString),
        id ∈ clients (pruneTimerFired 0 t (runCache 0 (Cache.empty fun name => "/c/".toList ++ name)
          [CacheEvent.put "a".toList 5 "k".toList (1 : Nat), .get "a".toList "k".toList 7, .prune 3])) ↔
          id ∈ identifiers
              [CacheEvent.put "a".toList 5 "k".toList (1 : Nat), .get "a".toList "k".toList 7, .prune 3] ∧
            holdsLiveEntry (pruneTimerFired 0 t (runCache 0 (Cache.empty fun name => "/c/".toList ++ name)
              [CacheEvent.put "a".toList 5 "k".toList (1 : Nat), .get "a".toList "k".toList 7, .prune 3])) id t :=
  ⟨by decide, clients_track_live_entries 0 _ _ (by decide)⟩

theorem manifest_client_breaks_list :
    (runCache 0 (Cache.empty fun name => "/c/".toList ++ name : Cache Nat)
        [.put "a".toList 5 "k".toList 1]).file manifest ≠ [] ∧
      manifest ∉ clients (runCache 0 (Cache.empty fun name => "/c/".toList ++ name : Cache Nat)
        [.put "a".toList 5 "k".toList 1]) ∧
      (runCache 0 (Cache.empty fun name => "/c/".toList ++ name : Cache Nat)
          [.put "a".toList 5 "k".toList 1, .put manifest 5 "clients".toList 1]).file "a".toList ≠ [] ∧
      clients (runCache 0 (Cache.empty fun name => "/c/".toList ++ name : Cache Nat)
          [.put "a".toList 5 "k".toList 1, .put manifest 5 "clients".toList 1]) = [] := by
  decide

/-! ### An entry outlives every other call until the clock passes its `maxAge` -/

def Stored (c : Cache V) (id key : QString) (maxAge : Int) (value : V) : Prop :=
  (c.file id).value key = some (.cacheData maxAge value) ∧
    ∀ kv ∈ c.file id, Under (normalizedKey kv.1) (normalizedKey key) →
      normalizedKey kv.1 = normalizedKey key

/-- A call that stores nothing at or above `key` there, and reads it or prunes by `maxAge`. -/
def CacheEvent.Spares (path : QString → QString) (id key : QString) (maxAge : Int) :
    CacheEvent V → Prop
  | put id' _ key' _ => path id' = path id → ¬Under (normalizedKey key') (normalizedKey key)
  | get id' key' now => path id' = path id → normalizedKey key' = normalizedKey key → now ≤ maxAge
  | prune now => now ≤ maxAge

instance (path : QString → QString) (id key : QString) (maxAge : Int) :
    DecidablePred (CacheEvent.Spares (V := V) path id key maxAge)
  | .put .. => inferInstanceAs (Decidable (_ → ¬_))
  | .get .. => inferInstanceAs (Decidable (_ → _ → _))
  | .prune _ => inferInstanceAs (Decidable (_ ≤ _))

section Stored

variable {c : Cache V} {id key : QString} {maxAge : Int} {value : V}

theorem stored_putData_self (hid : c.path id ≠ c.path manifest)
    (hc : ∀ kv ∈ c.file id, Under (normalizedKey kv.1) (normalizedKey key) →
      normalizedKey kv.1 = normalizedKey key) :
    Stored (putData c id maxAge key value) id key maxAge value := by
  refine ⟨by simp [putData], fun kv hkv => ?_⟩
  rw [putData, file_write, if_pos rfl] at hkv
  rcases List.mem_cons.mp hkv with rfl | hkv
  · exact fun _ => normalizedKey_normalizedKey key
  · have hkv' := (List.mem_filter.mp hkv).1
    rw [Cache.file, path_addClient, files_addClient_of_ne c hid] at hkv'
    exact hc kv hkv'

theorem stored_putData (h : Stored c id key maxAge value) (hid : c.path id ≠ c.path manifest)
    {id' key' : QString} (hne : c.path id' = c.path id → ¬Under (normalizedKey key') (normalizedKey key))
    (m : Int) (v : V) : Stored (putData c id' m key' v) id key maxAge value := by
  have hadd : (addClient c id').file id = c.file id := by
    rw [Cache.file, path_addClient, files_addClient_of_ne c hid]
    rfl
  unfold Stored
  rw [putData, file_write, path_addClient]
  split_ifs with he
  · have hu := hne he.symm
    rw [Cache.file_congr _ (by simpa using he.symm), hadd]
    refine ⟨by rw [Settings.value_setValue_of_ne _ (ne_of_not_under hu)]; exact h.1, fun kv hkv => ?_⟩
    rcases List.mem_cons.mp hkv with rfl | hkv
    · intro hk
      exact absurd (by simpa [normalizedKey_normalizedKey] using hk) hu
    · exact h.2 kv (List.mem_filter.mp hkv).1
  · rw [hadd]
    exact h

theorem Stored.eq_of_under (h : Stored c id key maxAge value) {key' : QString} {v : Variant V}
    (hv : (c.file id).value key' = some v) (hu : Under (normalizedKey key') (normalizedKey key)) :
    normalizedKey key' = normalizedKey key := by
  obtain ⟨kv, hkv, hk, -⟩ := Settings.exists_of_value hv
  have hk' : normalizedKey kv.1 = normalizedKey key' := by rw [hk, normalizedKey_normalizedKey]
  exact hk' ▸ h.2 kv hkv (hk' ▸ hu)

theorem stored_getData (h : Stored c id key maxAge value) (unset now : Int) {id' key' : QString}
    (hnow : c.path id' = c.path id → normalizedKey key' = normalizedKey key → now ≤ maxAge) :
    Stored (getData unset now c id' key').2 id key maxAge value := by
  unfold getData
  split
  · exact h
  · next v hv =>
    split_ifs with hs
    · unfold Stored
      rw [file_write]
      split_ifs with he
      · rw [Cache.file_congr _ he.symm] at hv ⊢
        have hu : ¬Under (normalizedKey key') (normalizedKey key) := fun hu => by
          have heq := h.eq_of_under hv hu
          rw [Settings.value_congr _ heq, h.1] at hv
          cases hv
          exact absurd (hnow he.symm heq) (not_le.mpr hs)
        exact ⟨by rw [Settings.value_remove_of_not_under _ hu]; exact h.1,
          fun kv hkv => h.2 kv (List.mem_filter.mp hkv).1⟩
      · exact h
    · exact h

theorem stored_pruneClient (h : Stored c id key maxAge value) (hid : c.path id ≠ c.path manifest)
    (unset now : Int) (hnow : now ≤ maxAge) (x : QString) :
    Stored (pruneClient unset now c x) id key maxAge value := by
  unfold Stored
  rw [Cache.file, files_pruneClient unset now c (by simpa using hid), path_pruneClient]
  split_ifs with he
  · rw [Cache.file, ← he]
    refine ⟨value_pruneSettings_of_live unset now hnow h.1 fun k hk => ?_, fun kv hkv =>
      h.2 kv ((pruneFile_sublist unset now _).subset hkv)⟩
    obtain ⟨kv, hkv, rfl⟩ := List.mem_map.mp hk
    exact h.2 kv hkv
  · exact h

theorem stored_pruneTimerFired (h : Stored c id key maxAge value) (hid : c.path id ≠ c.path manifest)
    (unset now : Int) (hnow : now ≤ maxAge) :
    Stored (pruneTimerFired unset now c) id key maxAge value := by
  rw [pruneTimerFired]
  generalize clients c = l
  induction l generalizing c with
  | nil => exact h
  | cons x l ih =>
    exact ih (stored_pruneClient h hid unset now hnow x) (by simpa using hid)

theorem stored_apply (h : Stored c id key maxAge value) (hid : c.path id ≠ c.path manifest)
    (unset : Int) {e : CacheEvent V} (he : e.Spares c.path id key maxAge) :
    Stored (e.apply unset c) id key maxAge value := by
  cases e with
  | put id' m key' v => exact stored_putData h hid he m v
  | get id' key' now => exact stored_getData h unset now he
  | prune now => exact stored_pruneTimerFired h hid unset now he

theorem stored_runCache (unset : Int) :
    ∀ {c : Cache V} {es : List (CacheEvent V)}, Stored c id key maxAge value →
      c.path id ≠ c.path manifest → (∀ e ∈ es, e.Spares c.path id key maxAge) →
        Stored (runCache unset c es) id key maxAge value
  | _, [], h, _, _ => h
  | c, e :: es, h, hid, hes => by
    rw [runCache, List.foldl_cons, ← runCache]
    exact stored_runCache unset (stored_apply h hid unset (hes e (.head _))) (by simpa using hid)
      fun e' he' => by simpa using hes e' (.tail _ he')

end Stored

end Tomahawk.GenericCache
