import Tomahawk.Qt.Utf8

/-! `QUrl` as Qt 4 keeps it, every part in percent-encoded bytes: parsing an encoded URL in
tolerant mode, writing it back, and the query-item calls the action manager makes. The split
into parts follows RFC 3986, Appendix B. -/

namespace Tomahawk

/-- A `QUrl`: scheme, authority, path, query and fragment, as encoded bytes. -/
structure QUrl where
  scheme : QByteArray
  authority : Option QByteArray
  encodedPath : QByteArray
  query : Option QByteArray
  fragment : Option QByteArray
  deriving DecidableEq, Repr

namespace QUrl

/-! ### Percent-encoding -/

def isUnreserved (b : Nat) : Bool :=
  (0x61 ≤ b && b ≤ 0x7A) || (0x41 ≤ b && b ≤ 0x5A) || (0x30 ≤ b && b ≤ 0x39) ||
    b == 0x2D || b == 0x2E || b == 0x5F || b == 0x7E

def hexDigit (n : Nat) : Nat := if n < 10 then 0x30 + n else 0x41 + (n - 10)

def encodeByte (dontEncode alsoEncode : QByteArray) (b : Nat) : QByteArray :=
  if (isUnreserved b || dontEncode.contains b) && !alsoEncode.contains b then [b]
  else [0x25, hexDigit (b / 0x10), hexDigit (b % 0x10)]

def percentEncode (dontEncode alsoEncode bs : QByteArray) : QByteArray :=
  bs.flatMap (encodeByte dontEncode alsoEncode)

def toPercentEncoding (s : QString) (dontEncode alsoEncode : QByteArray) : QByteArray :=
  percentEncode dontEncode alsoEncode (Utf8.toUtf8 s)

def hexValue (a : Nat) : Nat :=
  if 0x30 ≤ a ∧ a ≤ 0x39 then a - 0x30
  else if 0x61 ≤ a ∧ a ≤ 0x66 then a - 0x61 + 10
  else if 0x41 ≤ a ∧ a ≤ 0x46 then a - 0x41 + 10
  else a

def percentDecode : QByteArray → QByteArray
  | 0x25 :: a :: b :: rest => (hexValue a <<< 4 ||| hexValue b) % 0x100 :: percentDecode rest
  | c :: rest => c :: percentDecode rest
  | [] => []

def fromPercentEncoding (bs : QByteArray) : QString := Utf8.fromUtf8 (percentDecode bs)

/-! ### Parsing and writing -/

def isHexDigit (b : Nat) : Bool :=
  (0x30 ≤ b && b ≤ 0x39) || (0x41 ≤ b && b ≤ 0x46) || (0x61 ≤ b && b ≤ 0x66)

def fixStrayPercent : QByteArray → QByteArray
  | [] => []
  | b :: rest =>
    (if b = 0x25 && !(match rest with | x :: y :: _ => isHexDigit x && isHexDigit y | _ => false)
      then [0x25, 0x32, 0x35] else [b]) ++ fixStrayPercent rest

def tolerantEncodes (b : Nat) : Bool :=
  b < 0x20 || 0x7F < b || [0x20, 0x22, 0x3C, 0x3E, 0x5B, 0x5C, 0x5D, 0x5E, 0x60, 0x7B, 0x7C, 0x7D].contains b

/-- `QUrl::setEncodedUrl( input, TolerantMode )`'s repairs before parsing. -/
def tolerantFix (bs : QByteArray) : QByteArray :=
  (fixStrayPercent bs).flatMap fun b =>
    if tolerantEncodes b then [0x25, hexDigit (b / 0x10), hexDigit (b % 0x10)] else [b]

def splitScheme (s : QByteArray) : QByteArray × QByteArray :=
  match s.span (fun b => !(b == 0x3A || b == 0x2F || b == 0x3F || b == 0x23)) with
  | (pre@(_ :: _), 0x3A :: rest) => (pre, rest)
  | _ => ([], s)

def splitAuthority (s : QByteArray) : Option QByteArray × QByteArray :=
  match s with
  | 0x2F :: 0x2F :: r =>
    let (a, r) := r.span (fun b => !(b == 0x2F || b == 0x3F || b == 0x23))
    (some a, r)
  | r => (none, r)

def splitPath (s : QByteArray) : QByteArray × QByteArray :=
  s.span (fun b => !(b == 0x3F || b == 0x23))

def splitQuery (s : QByteArray) : Option QByteArray × QByteArray :=
  match s with
  | 0x3F :: r => let (q, r) := r.span (· != 0x23); (some q, r)
  | r => (none, r)

def splitFragment (s : QByteArray) : Option QByteArray :=
  match s with
  | 0x23 :: f => some f
  | _ => none

def parse (s : QByteArray) : QUrl :=
  let (scheme, s) := splitScheme s
  let (authority, s) := splitAuthority s
  let (path, s) := splitPath s
  let (query, s) := splitQuery s
  ⟨scheme, authority, path, query, splitFragment s⟩

def fromEncoded (bs : QByteArray) : QUrl := parse (tolerantFix bs)

def toEncoded (u : QUrl) : QByteArray :=
  (if u.scheme = [] then [] else u.scheme ++ [0x3A]) ++
  (match u.authority with
    | some a => if a = [] then [] else [0x2F, 0x2F] ++ a
    | none => []) ++
  (if u.encodedPath ≠ [] ∧ (u.authority.getD []) ≠ [] ∧ u.encodedPath.head? ≠ some 0x2F then [0x2F]
    else []) ++
  u.encodedPath ++
  (match u.query with
    | some q => 0x3F :: q
    | none => []) ++
  (match u.fragment with
    | some f => 0x23 :: f
    | none => [])

def path (u : QUrl) : QString := fromPercentEncoding u.encodedPath

/-! ### Query items -/

/-- The pieces between `&`s the query-item loop visits; a trailing `&` starts none. -/
def queryPieces (q : QByteArray) : List QByteArray :=
  let ps := q.splitOn 0x26
  if ps.getLast? = some [] then ps.dropLast else ps

def splitPiece (p : QByteArray) : QByteArray × Option QByteArray :=
  match p.span (· != 0x3D) with
  | (k, _ :: v) => (k, some v)
  | (k, []) => (k, none)

def encodedQueryItems (u : QUrl) : List (QByteArray × Option QByteArray) :=
  (queryPieces (u.query.getD [])).map splitPiece

def queryItems (u : QUrl) : List (QString × QString) :=
  (encodedQueryItems u).map fun (k, v) => (fromPercentEncoding k, (v.map fromPercentEncoding).getD [])

def queryExcludeChars : QByteArray :=
  [0x21, 0x24, 0x26, 0x27, 0x28, 0x29, 0x2A, 0x2B, 0x2C, 0x3B, 0x3D, 0x3A, 0x40, 0x2F, 0x3F]

def encodeKey (key : QString) : QByteArray := toPercentEncoding key queryExcludeChars []

def hasQueryItem (u : QUrl) (key : QString) : Bool :=
  (encodedQueryItems u).any (·.1 == encodeKey key)

def queryItemValue (u : QUrl) (key : QString) : QString :=
  match (encodedQueryItems u).find? (·.1 == encodeKey key) with
  | some (_, some v) => fromPercentEncoding v
  | _ => []

def addEncodedQueryItem (u : QUrl) (key value : QByteArray) : QUrl :=
  { u with query := some ((match u.query with
    | some q => if q = [] then [] else q ++ [0x26]
    | none => []) ++ key ++ 0x3D :: value) }

def addQueryItem (u : QUrl) (key value : QString) : QUrl :=
  addEncodedQueryItem u (toPercentEncoding key queryExcludeChars [0x3D, 0x26])
    (toPercentEncoding value queryExcludeChars [0x3D, 0x26])

/-! ### Percent-encoding read back -/

theorem hexValue_hexDigit : ∀ n < 16, hexValue (hexDigit n) = n := by decide

theorem isHexDigit_hexDigit : ∀ n < 16, isHexDigit (hexDigit n) = true := by decide

theorem combine_hexValues : ∀ x < 16, ∀ y < 16, (x <<< 4 ||| y) % 0x100 = x * 16 + y := by decide

def Keeps (dontEncode alsoEncode : QByteArray) (b : Nat) : Bool :=
  (isUnreserved b || dontEncode.contains b) && !alsoEncode.contains b

variable {dontEncode alsoEncode : QByteArray}

theorem encodeByte_of_keeps {b : Nat} (h : Keeps dontEncode alsoEncode b = true) :
    encodeByte dontEncode alsoEncode b = [b] := by
  simp only [encodeByte, Keeps] at h ⊢
  rw [if_pos h]

theorem encodeByte_of_not_keeps {b : Nat} (h : Keeps dontEncode alsoEncode b = false) :
    encodeByte dontEncode alsoEncode b = [0x25, hexDigit (b / 0x10), hexDigit (b % 0x10)] := by
  simp only [encodeByte, Keeps] at h ⊢
  rw [if_neg (ne_true_of_eq_false h)]

theorem percentDecode_cons_of_ne {c : Nat} (h : c ≠ 0x25) (rest : QByteArray) :
    percentDecode (c :: rest) = c :: percentDecode rest := by
  match rest with
  | [] => simp [percentDecode]
  | [_] => simp [percentDecode]
  | _ :: _ :: _ => simp [percentDecode, h]

theorem percentDecode_escape {b : Nat} (hb : b < 0x100) (rest : QByteArray) :
    percentDecode (0x25 :: hexDigit (b / 0x10) :: hexDigit (b % 0x10) :: rest) =
      b :: percentDecode rest := by
  rw [percentDecode, hexValue_hexDigit _ (by omega), hexValue_hexDigit _ (by omega),
    combine_hexValues _ (by omega) _ (by omega)]
  congr 1
  omega

theorem percentDecode_percentEncode (hp : Keeps dontEncode alsoEncode 0x25 = false)
    (bs : QByteArray) (hbs : ∀ b ∈ bs, b < 0x100) :
    percentDecode (percentEncode dontEncode alsoEncode bs) = bs := by
  induction bs with
  | nil => rfl
  | cons b bs ih =>
    have hrest := ih fun x hx => hbs x (List.mem_cons_of_mem b hx)
    rw [percentEncode, List.flatMap_cons, ← percentEncode]
    cases hk : Keeps dontEncode alsoEncode b
    · rw [encodeByte_of_not_keeps hk, List.cons_append, List.cons_append, List.cons_append,
        List.nil_append, percentDecode_escape (hbs b (List.mem_cons_self b bs)), hrest]
    · have hne : b ≠ 0x25 := by rintro rfl; rw [hp] at hk; cases hk
      rw [encodeByte_of_keeps hk, List.singleton_append, percentDecode_cons_of_ne hne, hrest]

/-! ### Text tolerant mode leaves alone -/

/-- Text whose every `%` is an escape other than `%2B`, with no byte tolerant mode encodes. -/
def escapedText : QByteArray → Bool
  | [] => true
  | b :: rest =>
    if b = 0x25 then
      match rest with
      | x :: y :: rest => isHexDigit x && isHexDigit y && !(x == 0x32 && y == 0x42) && escapedText rest
      | _ => false
    else !tolerantEncodes b && escapedText rest

theorem escapedText_cons_of_ne {b : Nat} (hb : b ≠ 0x25) (rest : QByteArray) :
    escapedText (b :: rest) = (!tolerantEncodes b && escapedText rest) := by
  rw [escapedText.eq_def (b :: rest)]
  simp only [hb, if_false]

theorem escapedText_escape (x y : Nat) (rest : QByteArray) :
    escapedText (0x25 :: x :: y :: rest) =
      (isHexDigit x && isHexDigit y && !(x == 0x32 && y == 0x42) && escapedText rest) := rfl

theorem escapedText_short_escape {rest : QByteArray} (h : ∀ x y tail, rest = x :: y :: tail → False) :
    escapedText (0x25 :: rest) = false :=
  match rest, h with
  | [], _ => rfl
  | [_], _ => rfl
  | x :: y :: r, h => (h x y r rfl).elim

theorem not_tolerantEncodes_of_isHexDigit {b : Nat} (hb : isHexDigit b = true) :
    tolerantEncodes b = false := by
  have : b < 0x67 := by
    simp only [isHexDigit, Bool.or_eq_true, Bool.and_eq_true, decide_eq_true_eq] at hb
    omega
  revert hb
  revert b
  decide

theorem ne_percent_of_isHexDigit {b : Nat} (hb : isHexDigit b = true) : b ≠ 0x25 := by
  rintro rfl
  cases hb

theorem escapedText_append : ∀ {xs : QByteArray}, escapedText xs = true →
    ∀ ys, escapedText (xs ++ ys) = escapedText ys := by
  intro xs h ys
  induction xs using escapedText.induct with
  | case1 => rfl
  | case2 x y r ih =>
    rw [escapedText_escape, Bool.and_eq_true] at h
    rw [List.cons_append, List.cons_append, List.cons_append, escapedText_escape, ih h.2, h.1,
      Bool.true_and]
  | case3 rest hrest =>
    rw [escapedText_short_escape hrest] at h
    cases h
  | case4 b rest hb ih =>
    rw [escapedText_cons_of_ne hb, Bool.and_eq_true] at h
    rw [List.cons_append, escapedText_cons_of_ne hb, ih h.2, h.1, Bool.true_and]

theorem fixStrayPercent_of_escapedText : ∀ {s : QByteArray}, escapedText s = true →
    fixStrayPercent s = s := by
  intro s h
  induction s using escapedText.induct with
  | case1 => rfl
  | case2 x y r ih =>
    simp only [escapedText_escape, Bool.and_eq_true] at h
    simp [fixStrayPercent, h.1.1.1, h.1.1.2, ne_percent_of_isHexDigit h.1.1.1,
      ne_percent_of_isHexDigit h.1.1.2, ih h.2]
  | case3 rest hrest =>
    rw [escapedText_short_escape hrest] at h
    cases h
  | case4 b rest hb ih =>
    rw [escapedText_cons_of_ne hb, Bool.and_eq_true] at h
    simp [fixStrayPercent, hb, ih h.2]

theorem not_tolerantEncodes_of_escapedText : ∀ {s : QByteArray}, escapedText s = true →
    ∀ b ∈ s, tolerantEncodes b = false := by
  intro s h
  induction s using escapedText.induct with
  | case1 => simp
  | case2 x y r ih =>
    simp only [escapedText_escape, Bool.and_eq_true] at h
    simp only [List.mem_cons, forall_eq_or_imp]
    exact ⟨rfl, not_tolerantEncodes_of_isHexDigit h.1.1.1, not_tolerantEncodes_of_isHexDigit h.1.1.2,
      ih h.2⟩
  | case3 rest hrest =>
    rw [escapedText_short_escape hrest] at h
    cases h
  | case4 b rest hb ih =>
    rw [escapedText_cons_of_ne hb, Bool.and_eq_true, Bool.not_eq_true'] at h
    simp only [List.mem_cons, forall_eq_or_imp]
    exact ⟨h.1, ih h.2⟩

theorem tolerantFix_of_escapedText {s : QByteArray} (h : escapedText s = true) :
    tolerantFix s = s := by
  rw [tolerantFix, fixStrayPercent_of_escapedText h]
  have hs := not_tolerantEncodes_of_escapedText h
  clear h
  induction s with
  | nil => rfl
  | cons b s ih =>
    rw [List.flatMap_cons, hs b (List.mem_cons_self b s), if_neg Bool.false_ne_true,
      ih (fun x hx => hs x (List.mem_cons_of_mem b hx)), List.singleton_append]

theorem hexDigit_eq {m n : Nat} (hm : m < 16) (hn : n < 16) (h : hexDigit m = hexDigit n) : m = n := by
  rw [← hexValue_hexDigit m hm, ← hexValue_hexDigit n hn, h]

theorem escapedText_encodeByte (hp : Keeps dontEncode alsoEncode 0x25 = false)
    (hplus : Keeps dontEncode alsoEncode 0x2B = true)
    (hk : ∀ b, Keeps dontEncode alsoEncode b = true → tolerantEncodes b = false)
    {b : Nat} (hb : b < 0x100) : escapedText (encodeByte dontEncode alsoEncode b) = true := by
  cases hkb : Keeps dontEncode alsoEncode b
  · have hne : b ≠ 0x2B := by rintro rfl; rw [hplus] at hkb; cases hkb
    have hhi := isHexDigit_hexDigit (b / 0x10) (by omega)
    have hlo := isHexDigit_hexDigit (b % 0x10) (by omega)
    have hnot : (hexDigit (b / 0x10) == 0x32 && hexDigit (b % 0x10) == 0x42) = false := by
      rw [Bool.and_eq_false_iff, beq_eq_false_iff_ne, beq_eq_false_iff_ne]
      by_contra hc
      push_neg at hc
      have h1 : b / 0x10 = 2 := hexDigit_eq (by omega) (by decide) hc.1
      have h2 : b % 0x10 = 11 := hexDigit_eq (by omega) (by decide) hc.2
      omega
    rw [encodeByte_of_not_keeps hkb, escapedText_escape, hhi, hlo, hnot]
    rfl
  · have hne : b ≠ 0x25 := by rintro rfl; rw [hp] at hkb; cases hkb
    rw [encodeByte_of_keeps hkb, escapedText_cons_of_ne hne, hk b hkb]
    rfl

theorem escapedText_percentEncode (hp : Keeps dontEncode alsoEncode 0x25 = false)
    (hplus : Keeps dontEncode alsoEncode 0x2B = true)
    (hk : ∀ b, Keeps dontEncode alsoEncode b = true → tolerantEncodes b = false)
    (bs : QByteArray) (hbs : ∀ b ∈ bs, b < 0x100) :
    escapedText (percentEncode dontEncode alsoEncode bs) = true := by
  induction bs with
  | nil => rfl
  | cons b bs ih =>
    rw [percentEncode, List.flatMap_cons, ← percentEncode,
      escapedText_append (escapedText_encodeByte hp hplus hk (hbs b (List.mem_cons_self b bs))),
      ih fun x hx => hbs x (List.mem_cons_of_mem b hx)]

theorem contains_plusEscape_of_escapedText : ∀ {s : QByteArray}, escapedText s = true →
    Text.contains s [0x25, 0x32, 0x42] = false := by
  intro s h
  induction s using escapedText.induct with
  | case1 => rfl
  | case2 x y r ih =>
    simp only [escapedText_escape, Bool.and_eq_true, Bool.not_eq_true'] at h
    have hxy : ¬(x = 0x32 ∧ y = 0x42) := by simpa using h.1.2
    simp [Text.contains, List.isPrefixOf, Ne.symm (ne_percent_of_isHexDigit h.1.1.1),
      Ne.symm (ne_percent_of_isHexDigit h.1.1.2), ih h.2]
    exact fun h1 h2 => hxy ⟨h1.symm, h2.symm⟩
  | case3 rest hrest =>
    rw [escapedText_short_escape hrest] at h
    cases h
  | case4 b rest hb ih =>
    rw [escapedText_cons_of_ne hb, Bool.and_eq_true] at h
    simp [Text.contains, List.isPrefixOf, Ne.symm hb, ih h.2]

/-! ### Query items read back -/

def encodeComponent (dontEncode : QByteArray) (s : QString) : QByteArray :=
  percentEncode dontEncode [0x3D, 0x26] (Utf8.toUtf8 s)

def encodePiece (dontEncode : QByteArray) (item : QString × QString) : QByteArray :=
  encodeComponent dontEncode item.1 ++ 0x3D :: encodeComponent dontEncode item.2

def encodeQuery (dontEncode : QByteArray) (items : List (QString × QString)) : QByteArray :=
  [0x26].intercalate (items.map (encodePiece dontEncode))

def addQueryItems (u : QUrl) (items : List (QString × QString)) : QUrl :=
  items.foldl (fun u item => u.addQueryItem item.1 item.2) u

def PlainKey (key : QString) : Prop := ∀ c ∈ key, isUnreserved c.toNat = true

instance : DecidablePred PlainKey := fun _ => inferInstanceAs (Decidable (∀ _ ∈ _, _))

theorem intercalate_cons (x : Nat) (p : QByteArray) (ps : List QByteArray) :
    [x].intercalate (p :: ps) = p ++ ps.flatMap (x :: ·) := by
  induction ps generalizing p with
  | nil => simp [List.intercalate]
  | cons q ps ih =>
    rw [List.intercalate, List.intersperse_cons_cons, List.flatten_cons, List.flatten_cons,
      ← List.intercalate, ih, List.flatMap_cons]
    simp

theorem addQueryItem_of_none {u : QUrl} (hu : u.query = none) (k v : QString) :
    u.addQueryItem k v = { u with query := some (encodePiece queryExcludeChars (k, v)) } := by
  simp [addQueryItem, addEncodedQueryItem, hu, encodePiece, encodeComponent, toPercentEncoding]

theorem addQueryItems_of_some {u : QUrl} {q : QByteArray} (hu : u.query = some q) (hq : q ≠ [])
    (items : List (QString × QString)) :
    addQueryItems u items =
      { u with query := some (q ++ items.flatMap (0x26 :: encodePiece queryExcludeChars ·)) } := by
  induction items generalizing u q with
  | nil => cases u; simp_all [addQueryItems]
  | cons item items ih =>
    have h1 : u.addQueryItem item.1 item.2 =
        { u with query := some (q ++ 0x26 :: encodePiece queryExcludeChars item) } := by
      simp [addQueryItem, addEncodedQueryItem, hu, hq, encodePiece, encodeComponent,
        toPercentEncoding]
    have h2 := ih (u := u.addQueryItem item.1 item.2) (by rw [h1]) (by simp)
    simp only [addQueryItems, List.foldl_cons] at h2 ⊢
    rw [h2, h1]
    simp

theorem addQueryItems_of_none {u : QUrl} (hu : u.query = none) (item : QString × QString)
    (items : List (QString × QString)) :
    addQueryItems u (item :: items) =
      { u with query := some (encodeQuery queryExcludeChars (item :: items)) } := by
  have h1 := addQueryItem_of_none hu item.1 item.2
  have hne : encodePiece queryExcludeChars item ≠ [] := by simp [encodePiece]
  rw [addQueryItems, List.foldl_cons, ← addQueryItems, h1,
    addQueryItems_of_some (q := encodePiece queryExcludeChars item) rfl hne]
  simp [encodeQuery, intercalate_cons, List.flatMap_map]

theorem mem_percentEncode {b : Nat} {bs : QByteArray} (hbs : ∀ x ∈ bs, x < 0x100)
    (h : b ∈ percentEncode dontEncode alsoEncode bs) :
    Keeps dontEncode alsoEncode b = true ∨ b = 0x25 ∨ isHexDigit b = true := by
  obtain ⟨x, hx, hb⟩ := List.mem_flatMap.mp h
  cases hk : Keeps dontEncode alsoEncode x
  · rw [encodeByte_of_not_keeps hk] at hb
    have hx' := hbs x hx
    simp only [List.mem_cons, List.mem_singleton, List.not_mem_nil, or_false] at hb
    rcases hb with rfl | rfl | rfl
    · exact .inr (.inl rfl)
    · exact .inr (.inr (isHexDigit_hexDigit _ (by omega)))
    · exact .inr (.inr (isHexDigit_hexDigit _ (by omega)))
  · rw [encodeByte_of_keeps hk, List.mem_singleton] at hb
    exact .inl (hb ▸ hk)

theorem delimiter_not_mem_encodeComponent (ex : QByteArray) (s : QString) :
    0x3D ∉ encodeComponent ex s ∧ 0x26 ∉ encodeComponent ex s := by
  constructor <;> intro h <;>
  rcases mem_percentEncode (Utf8.toUtf8_lt s) h with h | h | h <;> simp [Keeps, isHexDigit] at h

theorem encodePiece_ne_nil (ex : QByteArray) (item : QString × QString) :
    encodePiece ex item ≠ [] := by
  simp [encodePiece]

theorem queryPieces_encodeQuery (ex : QByteArray) (items : List (QString × QString))
    (hne : items ≠ []) : queryPieces (encodeQuery ex items) = items.map (encodePiece ex) := by
  have hamp : ∀ l ∈ items.map (encodePiece ex), (0x26 : Nat) ∉ l := by
    simp only [List.mem_map]
    rintro l ⟨item, -, rfl⟩ h
    simp only [encodePiece, List.mem_append, List.mem_cons] at h
    rcases h with h | h | h
    · exact (delimiter_not_mem_encodeComponent ex item.1).2 h
    · cases h
    · exact (delimiter_not_mem_encodeComponent ex item.2).2 h
  have hsplit : (encodeQuery ex items).splitOn 0x26 = items.map (encodePiece ex) :=
    List.splitOn_intercalate _ 0x26 hamp (by simpa using hne)
  have hlast : (items.map (encodePiece ex)).getLast? ≠ some [] := by
    rw [List.getLast?_map]
    intro h
    obtain ⟨item, -, hi⟩ := Option.map_eq_some'.mp h
    exact encodePiece_ne_nil ex item hi
  simp only [queryPieces, hsplit, if_neg hlast]

theorem splitPiece_encodePiece (ex : QByteArray) (item : QString × QString) :
    splitPiece (encodePiece ex item) = (encodeComponent ex item.1, some (encodeComponent ex item.2)) := by
  have hk : ∀ a ∈ encodeComponent ex item.1, (a != 0x3D) = true := fun a ha => by
    have := (delimiter_not_mem_encodeComponent ex item.1).1
    simp only [bne_iff_ne, ne_eq]
    rintro rfl
    exact this ha
  simp [splitPiece, encodePiece, List.span_eq_take_drop, List.takeWhile_append_of_pos hk,
    List.dropWhile_append_of_pos hk]

theorem fromPercentEncoding_encodeComponent {ex : QByteArray}
    (hp : Keeps ex [0x3D, 0x26] 0x25 = false) {s : QString} (hs : Utf8.Transparent s) :
    fromPercentEncoding (encodeComponent ex s) = s := by
  rw [fromPercentEncoding, encodeComponent, percentDecode_percentEncode hp _ (Utf8.toUtf8_lt s),
    Utf8.fromUtf8_toUtf8 s hs]

theorem encodedQueryItems_of_encodeQuery {u : QUrl} {ex : QByteArray}
    {items : List (QString × QString)} (hne : items ≠ []) (hu : u.query = some (encodeQuery ex items)) :
    encodedQueryItems u =
      items.map fun item => (encodeComponent ex item.1, some (encodeComponent ex item.2)) := by
  simp [encodedQueryItems, hu, queryPieces_encodeQuery ex items hne, splitPiece_encodePiece]

theorem queryItems_of_encodeQuery {u : QUrl} {ex : QByteArray}
    (hp : Keeps ex [0x3D, 0x26] 0x25 = false) {items : List (QString × QString)} (hne : items ≠ [])
    (hu : u.query = some (encodeQuery ex items))
    (ht : ∀ item ∈ items, Utf8.Transparent item.1 ∧ Utf8.Transparent item.2) :
    queryItems u = items := by
  rw [queryItems, encodedQueryItems_of_encodeQuery hne hu, List.map_map]
  conv => rhs; rw [← List.map_id items]
  refine List.map_congr_left fun item hi => ?_
  simp [fromPercentEncoding_encodeComponent hp (ht item hi).1,
    fromPercentEncoding_encodeComponent hp (ht item hi).2]

theorem toNat_lt_of_isUnreserved {b : Nat} (h : isUnreserved b = true) : b < 0x7F := by
  simp only [isUnreserved, Bool.or_eq_true, Bool.and_eq_true, decide_eq_true_eq, beq_iff_eq] at h
  omega

theorem toUtf8_of_plainKey {key : QString} (hk : PlainKey key) :
    Utf8.toUtf8 key = key.map Char.toNat := by
  rw [Utf8.toUtf8, List.map_eq_flatMap]
  refine List.flatMap_congr fun c hc => ?_
  have := toNat_lt_of_isUnreserved (hk c hc)
  simp [Utf8.encodeChar, show c.toNat < 0x80 by omega]

theorem percentEncode_of_unreserved {bs : QByteArray} (hb : ∀ b ∈ bs, isUnreserved b = true)
    (hn : ∀ b ∈ bs, alsoEncode.contains b = false) : percentEncode dontEncode alsoEncode bs = bs := by
  induction bs with
  | nil => rfl
  | cons b bs ih =>
    have hkb : Keeps dontEncode alsoEncode b = true := by
      simp only [Keeps, hb b (List.mem_cons_self b bs), hn b (List.mem_cons_self b bs), Bool.true_or,
        Bool.not_false, Bool.and_self]
    rw [percentEncode, List.flatMap_cons, ← percentEncode, encodeByte_of_keeps hkb,
      ih (fun x hx => hb x (List.mem_cons_of_mem b hx)) (fun x hx => hn x (List.mem_cons_of_mem b hx))]
    rfl

theorem encodeComponent_of_plainKey (ex : QByteArray) {key : QString} (hk : PlainKey key) :
    encodeComponent ex key = key.map Char.toNat := by
  rw [encodeComponent, toUtf8_of_plainKey hk]
  refine percentEncode_of_unreserved (fun b hb => ?_) (fun b hb => ?_)
  · obtain ⟨c, hc, rfl⟩ := List.mem_map.mp hb
    exact hk c hc
  · obtain ⟨c, hc, rfl⟩ := List.mem_map.mp hb
    have := hk c hc
    simp only [isUnreserved, Bool.or_eq_true, Bool.and_eq_true, decide_eq_true_eq, beq_iff_eq] at this
    simp only [List.contains_cons, List.contains_nil, Bool.or_false, Bool.or_eq_false_iff,
      beq_eq_false_iff_ne, ne_eq]
    omega

theorem encodeKey_of_plainKey {key : QString} (hk : PlainKey key) : encodeKey key = key.map Char.toNat := by
  rw [encodeKey, toPercentEncoding, toUtf8_of_plainKey hk]
  refine percentEncode_of_unreserved (fun b hb => ?_) (fun _ _ => rfl)
  obtain ⟨c, hc, rfl⟩ := List.mem_map.mp hb
  exact hk c hc

theorem transparent_of_plainKey {key : QString} (hk : PlainKey key) : Utf8.Transparent key := by
  refine ⟨fun c hc => ?_, fun h => ?_⟩
  · have := toNat_lt_of_isUnreserved (hk c hc)
    simp only [Utf8.isNonCharacter, Bool.or_eq_false_iff, decide_eq_false_iff_not, Bool.and_eq_false_iff]
    omega
  · cases key with
    | nil => cases h
    | cons c key =>
      cases h
      have := hk _ (List.mem_cons_self _ key)
      revert this
      decide

theorem encodeComponent_eq_encodeKey_iff {ex : QByteArray} (hp : Keeps ex [0x3D, 0x26] 0x25 = false)
    {k key : QString} (hs : Utf8.Transparent k) (hk : PlainKey key) :
    encodeComponent ex k = encodeKey key ↔ k = key := by
  rw [encodeKey_of_plainKey hk, ← encodeComponent_of_plainKey ex hk]
  constructor
  · intro h
    rw [← fromPercentEncoding_encodeComponent hp hs, h,
      fromPercentEncoding_encodeComponent hp (transparent_of_plainKey hk)]
  · rintro rfl
    rfl

theorem encodeComponent_beq_encodeKey {ex : QByteArray} (hp : Keeps ex [0x3D, 0x26] 0x25 = false)
    {k key : QString} (hs : Utf8.Transparent k) (hk : PlainKey key) :
    (encodeComponent ex k == encodeKey key) = decide (k = key) := by
  rw [Bool.eq_iff_iff, beq_iff_eq, decide_eq_true_iff, encodeComponent_eq_encodeKey_iff hp hs hk]

theorem queryItemValue_of_encodeQuery {u : QUrl} {ex : QByteArray}
    (hp : Keeps ex [0x3D, 0x26] 0x25 = false) {items : List (QString × QString)} (hne : items ≠ [])
    (hu : u.query = some (encodeQuery ex items))
    (ht : ∀ item ∈ items, Utf8.Transparent item.1 ∧ Utf8.Transparent item.2)
    {key : QString} (hk : PlainKey key) :
    queryItemValue u key = ((items.find? (·.1 = key)).map (·.2)).getD [] := by
  rw [queryItemValue, encodedQueryItems_of_encodeQuery hne hu,
    Text.find?_map_congr (p := fun x : QByteArray × Option QByteArray => x.1 == encodeKey key)
      (q := fun item : QString × QString => decide (item.1 = key))
      fun item hi => encodeComponent_beq_encodeKey hp (ht item hi).1 hk]
  rcases h : items.find? (fun item => decide (item.1 = key)) with _ | ⟨k, v⟩
  · rw [h]
    rfl
  · rw [h]
    exact fromPercentEncoding_encodeComponent hp (ht _ (List.mem_of_find?_eq_some h)).2

theorem hasQueryItem_of_encodeQuery {u : QUrl} {ex : QByteArray}
    (hp : Keeps ex [0x3D, 0x26] 0x25 = false) {items : List (QString × QString)} (hne : items ≠ [])
    (hu : u.query = some (encodeQuery ex items))
    (ht : ∀ item ∈ items, Utf8.Transparent item.1 ∧ Utf8.Transparent item.2)
    {key : QString} (hk : PlainKey key) :
    hasQueryItem u key = items.any (·.1 = key) := by
  rw [hasQueryItem, encodedQueryItems_of_encodeQuery hne hu]
  exact Text.any_map_congr fun item hi => encodeComponent_beq_encodeKey hp (ht item hi).1 hk

/-! ### A share link read back -/

theorem escapedText_flatMap {β : Type} {l : List β} {f : β → QByteArray}
    (h : ∀ x ∈ l, escapedText (f x) = true) : escapedText (l.flatMap f) = true := by
  induction l with
  | nil => rfl
  | cons x l ih =>
    rw [List.flatMap_cons, escapedText_append (h x (List.mem_cons_self x l))]
    exact ih fun y hy => h y (List.mem_cons_of_mem x hy)

theorem escapedText_encodeQuery {ex : QByteArray} (hp : Keeps ex [0x3D, 0x26] 0x25 = false)
    (hplus : Keeps ex [0x3D, 0x26] 0x2B = true)
    (hk : ∀ b, Keeps ex [0x3D, 0x26] b = true → tolerantEncodes b = false)
    (items : List (QString × QString)) : escapedText (encodeQuery ex items) = true := by
  have hc : ∀ s, escapedText (encodeComponent ex s) = true := fun s =>
    escapedText_percentEncode hp hplus hk _ (Utf8.toUtf8_lt s)
  have hpiece : ∀ item, escapedText (encodePiece ex item) = true := fun item => by
    rw [encodePiece, escapedText_append (hc _), escapedText_cons_of_ne (by decide), hc]
    rfl
  cases items with
  | nil => rfl
  | cons item items =>
    rw [encodeQuery, List.map_cons, intercalate_cons, escapedText_append (hpiece item),
      List.flatMap_map]
    refine escapedText_flatMap fun x _ => ?_
    rw [escapedText_cons_of_ne (by decide), hpiece]
    rfl

theorem not_mem_encodeComponent {ex : QByteArray} {b : Nat} (hk : Keeps ex [0x3D, 0x26] b = false)
    (hb : b ≠ 0x25) (hh : isHexDigit b = false) (s : QString) : b ∉ encodeComponent ex s := fun h => by
  rcases mem_percentEncode (Utf8.toUtf8_lt s) h with h | h | h
  · rw [hk] at h
    cases h
  · exact hb h
  · rw [hh] at h
    cases h

theorem not_mem_encodeQuery {ex : QByteArray} {b : Nat} (hk : Keeps ex [0x3D, 0x26] b = false)
    (hb : b ≠ 0x25) (hh : isHexDigit b = false) (h3D : b ≠ 0x3D) (h26 : b ≠ 0x26)
    (items : List (QString × QString)) : b ∉ encodeQuery ex items := by
  have hpiece : ∀ item, b ∉ encodePiece ex item := fun item hm => by
    rw [encodePiece, List.mem_append, List.mem_cons] at hm
    rcases hm with hm | rfl | hm
    exacts [not_mem_encodeComponent hk hb hh _ hm, h3D rfl, not_mem_encodeComponent hk hb hh _ hm]
  cases items with
  | nil => simp [encodeQuery, List.intercalate]
  | cons item items =>
    rw [encodeQuery, List.map_cons, intercalate_cons, List.flatMap_map, List.mem_append,
      List.mem_flatMap]
    rintro (h | ⟨x, -, hx⟩)
    · exact hpiece item h
    · rcases List.mem_cons.mp hx with rfl | hx
      exacts [h26 rfl, hpiece x hx]

theorem toEncoded_of_query {u : QUrl} (hq : u.query = none) (hf : u.fragment = none) (q : QByteArray) :
    toEncoded { u with query := some q } = toEncoded u ++ 0x3F :: q := by
  simp [toEncoded, hq, hf]

theorem splitScheme_of_slash {word rest : QByteArray}
    (hw : ∀ b ∈ word, b ≠ 0x3A ∧ b ≠ 0x2F ∧ b ≠ 0x3F ∧ b ≠ 0x23) :
    splitScheme (word ++ 0x2F :: rest) = ([], word ++ 0x2F :: rest) := by
  have hp : ∀ b ∈ word, (!(b == 0x3A || b == 0x2F || b == 0x3F || b == 0x23)) = true := by
    intro b hb
    simp [(hw b hb).1, (hw b hb).2.1, (hw b hb).2.2.1, (hw b hb).2.2.2]
  rw [splitScheme, List.span_eq_take_drop, List.dropWhile_append_of_pos hp,
    List.dropWhile_cons_of_neg (by decide)]
  split
  · simp_all
  · rfl

theorem splitAuthority_of_head {s : QByteArray} (h : s.head? ≠ some 0x2F) :
    splitAuthority s = (none, s) := by
  unfold splitAuthority
  split
  · exact absurd rfl h
  · rfl

theorem splitPath_append {p s : QByteArray} (hp : ∀ b ∈ p, b ≠ 0x3F ∧ b ≠ 0x23) :
    splitPath (p ++ 0x3F :: s) = (p, 0x3F :: s) := by
  have hp' : ∀ b ∈ p, (!(b == 0x3F || b == 0x23)) = true := fun b hb => by
    simp [(hp b hb).1, (hp b hb).2]
  rw [splitPath, List.span_eq_take_drop, List.takeWhile_append_of_pos hp',
    List.dropWhile_append_of_pos hp']
  simp

theorem splitQuery_of_not_mem {q : QByteArray} (hq : 0x23 ∉ q) : splitQuery (0x3F :: q) = (some q, []) := by
  have hq' : ∀ b ∈ q, (b != 0x23) = true := fun b hb => bne_iff_ne.mpr fun h => hq (h ▸ hb)
  simp only [splitQuery, List.span_eq_take_drop, List.takeWhile_eq_self_iff.mpr hq',
    List.dropWhile_eq_nil_iff.mpr hq']

theorem parse_relative {word rest q : QByteArray} (hw0 : word ≠ [])
    (hw : ∀ b ∈ word, b ≠ 0x3A ∧ b ≠ 0x2F ∧ b ≠ 0x3F ∧ b ≠ 0x23)
    (hr : ∀ b ∈ rest, b ≠ 0x3F ∧ b ≠ 0x23) (hq : 0x23 ∉ q) :
    parse (word ++ 0x2F :: rest ++ 0x3F :: q) = ⟨[], none, word ++ 0x2F :: rest, some q, none⟩ := by
  have hscheme : splitScheme (word ++ 0x2F :: rest ++ 0x3F :: q) =
      ([], word ++ 0x2F :: rest ++ 0x3F :: q) := by
    rw [List.append_assoc, List.cons_append]
    exact splitScheme_of_slash hw
  have hhead : (word ++ 0x2F :: rest ++ 0x3F :: q).head? ≠ some 0x2F := by
    obtain ⟨w, ws, rfl⟩ := List.exists_cons_of_ne_nil hw0
    simpa using (hw w (List.mem_cons_self w ws)).2.1
  have hpath : ∀ b ∈ word ++ 0x2F :: rest, b ≠ 0x3F ∧ b ≠ 0x23 := by
    simp only [List.mem_append, List.mem_cons]
    rintro b (hb | rfl | hb)
    exacts [(hw b hb).2.2, by decide, hr b hb]
  simp only [parse, hscheme, splitAuthority_of_head hhead, splitPath_append hpath,
    splitQuery_of_not_mem hq]
  rfl

end QUrl

end Tomahawk
