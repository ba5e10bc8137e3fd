import Mathlib.Data.List.Basic

/-! `QString` and `QByteArray` as the lists they hold, and the few of their operations the
action manager and the cache call: substring search, `mid`, `replace`, `split`, `number`. -/

namespace Tomahawk

abbrev QString := List Char

abbrev QByteArray := List Nat

def ascii (s : String) : QByteArray := s.toList.map Char.toNat

def fromAscii (bs : QByteArray) : QString := bs.map Char.ofNat

@[simp] theorem fromAscii_ascii (s : String) : fromAscii (ascii s) = s.toList := by
  simp only [fromAscii, ascii, List.map_map]
  exact List.map_id'' Char.ofNat_toNat _

theorem toNat_ofNat_of_lt {n : Nat} (h : n < 0xD800) : (Char.ofNat n).toNat = n := by
  rw [Char.ofNat, dif_pos (Or.inl h)]
  rfl

theorem map_toNat_fromAscii {bs : QByteArray} (h : ∀ b ∈ bs, b < 0xD800) :
    (fromAscii bs).map Char.toNat = bs := by
  rw [fromAscii, List.map_map]
  conv => rhs; rw [← List.map_id bs]
  exact List.map_congr_left fun b hb => toNat_ofNat_of_lt (h b hb)

namespace Text

variable {α : Type} [DecidableEq α]

def contains : List α → List α → Bool
  | [], t => t.isPrefixOf []
  | c :: s, t => t.isPrefixOf (c :: s) || contains s t

/-- `replace( before, after )` resumed `k` characters into an occurrence it has just replaced. -/
def replaceFrom (before after : List α) : Nat → List α → List α
  | _, [] => []
  | k + 1, _ :: s => replaceFrom before after k s
  | 0, c :: s =>
    if before ≠ [] ∧ before.isPrefixOf (c :: s) then
      after ++ replaceFrom before after (before.length - 1) s
    else c :: replaceFrom before after 0 s

def replace (before after s : List α) : List α := replaceFrom before after 0 s

def split (s : List α) (sep : α) : List (List α) := s.splitOn sep

def firstPart (s : List α) (sep : α) : List α := (split s sep).headD []

theorem contains_iff (s t : List α) : contains s t = true ↔ t <:+: s := by
  induction s with
  | nil =>
    simp only [contains, List.isPrefixOf_iff_prefix, List.prefix_nil, List.infix_nil]
  | cons c s ih =>
    simp only [contains, Bool.or_eq_true, List.isPrefixOf_iff_prefix, ih]
    constructor
    · rintro (h | h)
      · exact h.isInfix
      · exact h.trans (List.suffix_cons c s).isInfix
    · intro h
      exact (List.infix_cons_iff.mp h).imp id id

theorem contains_of_infix_of_contains {s t u : List α} (h : contains s t = true) (hu : u <:+: t) :
    contains s u = true :=
  (contains_iff s u).mpr (hu.trans ((contains_iff s t).mp h))

theorem contains_fromAscii {bs t : QByteArray} (hb : ∀ b ∈ bs, b < 0xD800)
    (ht : ∀ b ∈ t, b < 0xD800) : contains (fromAscii bs) (fromAscii t) = contains bs t := by
  rw [Bool.eq_iff_iff, contains_iff, contains_iff]
  refine ⟨fun h => ?_, fun h => h.map Char.ofNat⟩
  simpa only [map_toNat_fromAscii hb, map_toNat_fromAscii ht] using h.map Char.toNat

theorem contains_of_startsWith {s t : List α} (h : t <+: s) : contains s t = true :=
  (contains_iff s t).mpr h.isInfix

theorem replaceFrom_of_not_contains (before after : List α) (s : List α)
    (h : contains s before = false) : replaceFrom before after 0 s = s := by
  induction s with
  | nil => rfl
  | cons c s ih =>
    simp only [contains, Bool.or_eq_false_iff] at h
    simp only [replaceFrom, h.1, Bool.false_eq_true, and_false, if_false, ih h.2]

theorem replace_of_not_contains (before after s : List α) (h : contains s before = false) :
    replace before after s = s :=
  replaceFrom_of_not_contains before after s h

theorem replaceFrom_single_cons (x c : α) (after s : List α) :
    replaceFrom [x] after 0 (c :: s) = (if c = x then after else [c]) ++ replaceFrom [x] after 0 s := by
  by_cases hc : c = x
  · subst hc
    simp [replaceFrom, List.isPrefixOf]
  · simp [replaceFrom, List.isPrefixOf, hc, Ne.symm hc]

theorem replace_single (x : α) (after s : List α) :
    replace [x] after s = s.flatMap (fun c => if c = x then after else [c]) := by
  induction s with
  | nil => rfl
  | cons c s ih => rw [replace, replaceFrom_single_cons, ← replace, ih, List.flatMap_cons]

theorem replaceFrom_append_of_not_head (before after pre s : List α)
    (h : ∀ c ∈ pre, before.head? ≠ some c) :
    replaceFrom before after 0 (pre ++ s) = pre ++ replaceFrom before after 0 s := by
  induction pre with
  | nil => rfl
  | cons c pre ih =>
    have hc : ¬(before ≠ [] ∧ before.isPrefixOf (c :: (pre ++ s)) = true) := by
      rintro ⟨hne, hp⟩
      obtain ⟨b, bs, rfl⟩ := List.exists_cons_of_ne_nil hne
      obtain ⟨t, ht⟩ := List.isPrefixOf_iff_prefix.mp hp
      rw [List.cons_append] at ht
      exact h c (List.mem_cons_self c pre) (by rw [← (List.cons.inj ht).1]; rfl)
    rw [List.cons_append, replaceFrom, if_neg hc, ih fun x hx => h x (List.mem_cons_of_mem c hx),
      List.cons_append]

theorem replace_append_of_not_head (before after pre s : List α)
    (h : ∀ c ∈ pre, before.head? ≠ some c) :
    replace before after (pre ++ s) = pre ++ replace before after s :=
  replaceFrom_append_of_not_head before after pre s h

theorem not_mem_replaceFrom {x : α} {before after : List α} (hx : x ∉ after) :
    ∀ (k : Nat) {s : List α}, x ∉ s → x ∉ replaceFrom before after k s
  | k, [], _ => by cases k <;> exact List.not_mem_nil x
  | k + 1, _ :: s, h => not_mem_replaceFrom hx k (fun hs => h (List.mem_cons_of_mem _ hs))
  | 0, c :: s, h => by
    have hs : x ∉ s := fun hs => h (List.mem_cons_of_mem _ hs)
    rw [replaceFrom]
    split_ifs
    · exact fun hm => (List.mem_append.mp hm).elim hx (not_mem_replaceFrom hx _ hs)
    · exact fun hm => (List.mem_cons.mp hm).elim (fun e => h (e ▸ List.mem_cons_self c s))
        (not_mem_replaceFrom hx 0 hs)

theorem not_mem_replace {x : α} {before after s : List α} (hx : x ∉ after) (hs : x ∉ s) :
    x ∉ replace before after s :=
  not_mem_replaceFrom hx 0 hs

theorem firstPart_of_not_mem (s : List α) (sep : α) (h : sep ∉ s) : firstPart s sep = s := by
  have hp : ∀ x ∈ s, ¬(x == sep) = true := fun x hx hxs => h (beq_iff_eq.mp hxs ▸ hx)
  simp only [firstPart, split, List.splitOn, List.splitOnP_eq_single _ _ hp, List.headD_cons]

theorem firstPart_append_of_not_mem (pre rest : List α) (sep : α) (h : sep ∉ pre) :
    firstPart (pre ++ sep :: rest) sep = pre := by
  have hp : ∀ x ∈ pre, ¬(x == sep) = true := fun x hx hxs => h (beq_iff_eq.mp hxs ▸ hx)
  simp only [firstPart, split, List.splitOn, List.splitOnP_first _ pre hp sep (beq_self_eq_true sep),
    List.headD_cons]

theorem find?_map_congr {β γ : Type} {f : β → γ} {p : γ → Bool} {q : β → Bool} {l : List β}
    (h : ∀ x ∈ l, p (f x) = q x) : (l.map f).find? p = (l.find? q).map f := by
  induction l with
  | nil => rfl
  | cons x l ih =>
    rw [List.map_cons, List.find?_cons, List.find?_cons, h x (List.mem_cons_self x l),
      ih fun y hy => h y (List.mem_cons_of_mem x hy)]
    cases q x <;> rfl

theorem any_map_congr {β γ : Type} {f : β → γ} {p : γ → Bool} {q : β → Bool} {l : List β}
    (h : ∀ x ∈ l, p (f x) = q x) : (l.map f).any p = l.any q := by
  induction l with
  | nil => rfl
  | cons x l ih =>
    rw [List.map_cons, List.any_cons, List.any_cons, h x (List.mem_cons_self x l),
      ih fun y hy => h y (List.mem_cons_of_mem x hy)]

end Text

namespace QString

def ofNat (n : Nat) : QString := Nat.toDigits 10 n

def number : Int → QString
  | .ofNat n => ofNat n
  | .negSucc n => '-' :: ofNat (n + 1)

def digitsValue (s : QString) : Option Nat :=
  s.foldl (fun acc c => acc.bind fun n =>
    if c.isDigit then some (10 * n + (c.toNat - '0'.toNat)) else none) (some 0)

/-- `QString::toInt()`: 0 unless the text is an optional sign and at least one digit. -/
def toInt : QString → Int
  | '-' :: ds => if ds = [] then 0 else ((digitsValue ds).map fun n => -(n : Int)).getD 0
  | '+' :: ds => if ds = [] then 0 else ((digitsValue ds).map fun n => (n : Int)).getD 0
  | ds => if ds = [] then 0 else ((digitsValue ds).map fun n => (n : Int)).getD 0

end QString

end Tomahawk
