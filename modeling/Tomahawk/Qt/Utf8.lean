import Tomahawk.Qt.Text

/-! Qt's UTF-8 codec: `QString::toUtf8` writes a non-character as `?`, and `QString::fromUtf8` skips
a leading byte-order mark. Decoding any bytes keeps the ASCII words they hold and makes none. -/

namespace Tomahawk.Utf8

/-- `isUnicodeNonCharacter`: the last two code points of every plane, and `U+FDD0..U+FDDF`. -/
def isNonCharacter (u : Nat) : Bool :=
  0xFFFE ≤ u % 0x10000 || (0xFDD0 ≤ u && u < 0xFDE0)

def encodeChar (c : Char) : QByteArray :=
  let u := c.toNat
  if u < 0x80 then [u]
  else if u < 0x800 then [0xC0 + u / 0x40, 0x80 + u % 0x40]
  else if isNonCharacter u then [0x3F]
  else if 0xFFFF < u then
    [0xF0 + u / 0x40000, 0x80 + u / 0x1000 % 0x40, 0x80 + u / 0x40 % 0x40, 0x80 + u % 0x40]
  else [0xE0 + u / 0x1000, 0x80 + u / 0x40 % 0x40, 0x80 + u % 0x40]

def toUtf8 (s : QString) : QByteArray := s.flatMap encodeChar

def replacementChar : Char := '\uFFFD'

def isContinuation (b : Nat) : Bool := b / 0x40 = 2

structure Pending where
  need : Nat
  uc : Nat
  minUc : Nat
  seen : Nat

def decodeValue (uc minUc : Nat) : Char :=
  if uc < minUc || (0xD800 ≤ uc && uc ≤ 0xDFFF) || isNonCharacter uc || 0x110000 ≤ uc then
    replacementChar
  else Char.ofNat uc

def leadByte (b : Nat) : List Char × Option Pending :=
  if b < 0x80 then ([Char.ofNat b], none)
  else if b / 0x20 = 6 then ([], some ⟨1, b % 0x20, 0x80, 0⟩)
  else if b / 0x10 = 14 then ([], some ⟨2, b % 0x10, 0x800, 0⟩)
  else if b / 8 = 30 then ([], some ⟨3, b % 8, 0x10000, 0⟩)
  else ([replacementChar], none)

/-- The loop of `QUtf8::convertToUnicode`, one byte at a time. -/
def decode : Option Pending → QByteArray → List Char
  | none, [] => []
  | some p, [] => List.replicate (p.seen + 1) replacementChar
  | none, b :: bs => (leadByte b).1 ++ decode (leadByte b).2 bs
  | some p, b :: bs =>
    if isContinuation b then
      if p.need = 1 then decodeValue (p.uc * 0x40 + b % 0x40) p.minUc :: decode none bs
      else decode (some ⟨p.need - 1, p.uc * 0x40 + b % 0x40, p.minUc, p.seen + 1⟩) bs
    else List.replicate (p.seen + 1) replacementChar ++ (leadByte b).1 ++ decode (leadByte b).2 bs

/-- `QString::fromUtf8`: the decoded characters, less a byte-order mark in front. -/
def fromUtf8 (bs : QByteArray) : QString :=
  match decode none bs with
  | '\uFEFF' :: cs => cs
  | cs => cs

def Transparent (s : QString) : Prop :=
  (∀ c ∈ s, isNonCharacter c.toNat = false) ∧ s.head? ≠ some '\uFEFF'

instance : DecidablePred Transparent := fun _ => inferInstanceAs (Decidable (_ ∧ _))

theorem toNat_valid (c : Char) : c.toNat < 0xD800 ∨ (0xDFFF < c.toNat ∧ c.toNat < 0x110000) :=
  c.valid

theorem encodeChar_lt (c : Char) : ∀ b ∈ encodeChar c, b < 0x100 := by
  have hc := toNat_valid c
  simp only [encodeChar]
  split_ifs <;> simp only [List.mem_cons, List.mem_singleton, List.not_mem_nil, or_false,
    forall_eq_or_imp, forall_eq] <;> omega

theorem toUtf8_lt (s : QString) : ∀ b ∈ toUtf8 s, b < 0x100 := by
  intro b hb
  obtain ⟨c, -, hc⟩ := List.mem_flatMap.mp hb
  exact encodeChar_lt c b hc

theorem toUtf8_fromAscii {bs : QByteArray} (h : ∀ b ∈ bs, b < 0x80) : toUtf8 (fromAscii bs) = bs := by
  rw [toUtf8, fromAscii, List.flatMap_map]
  conv => rhs; rw [← List.flatMap_singleton' bs]
  refine List.flatMap_congr fun b hb => ?_
  have hb' : (Char.ofNat b).toNat = b := toNat_ofNat_of_lt (by have := h b hb; omega)
  simp [encodeChar, hb', h b hb]

theorem decodeValue_of_valid {uc minUc : Nat} (hmin : minUc ≤ uc)
    (hv : uc < 0xD800 ∨ (0xDFFF < uc ∧ uc < 0x110000)) (hn : isNonCharacter uc = false) :
    decodeValue uc minUc = Char.ofNat uc := by
  have h1 : ¬uc < minUc := by omega
  have h2 : ¬(0xD800 ≤ uc ∧ uc ≤ 0xDFFF) := by omega
  have h3 : ¬0x110000 ≤ uc := by omega
  simp [decodeValue, h1, h2, h3, hn]

theorem isContinuation_of_mod {x : Nat} : isContinuation (0x80 + x % 0x40) = true := by
  simp only [isContinuation, decide_eq_true_eq]
  omega

theorem decode_two {b c1 : Nat} (rest : QByteArray) (hb : b / 0x20 = 6)
    (h1 : isContinuation c1 = true) :
    decode none (b :: c1 :: rest) = decodeValue (b % 0x20 * 0x40 + c1 % 0x40) 0x80 :: decode none rest := by
  have hl : leadByte b = ([], some ⟨1, b % 0x20, 0x80, 0⟩) := by
    rw [leadByte, if_neg (by omega), if_pos hb]
  simp [decode, hl, h1]

theorem decode_three {b c1 c2 : Nat} (rest : QByteArray) (hb : b / 0x10 = 14)
    (h1 : isContinuation c1 = true) (h2 : isContinuation c2 = true) :
    decode none (b :: c1 :: c2 :: rest) =
      decodeValue ((b % 0x10 * 0x40 + c1 % 0x40) * 0x40 + c2 % 0x40) 0x800 :: decode none rest := by
  have hl : leadByte b = ([], some ⟨2, b % 0x10, 0x800, 0⟩) := by
    rw [leadByte, if_neg (by omega), if_neg (by omega), if_pos hb]
  simp [decode, hl, h1, h2]

theorem decode_four {b c1 c2 c3 : Nat} (rest : QByteArray) (hb : b / 8 = 30)
    (h1 : isContinuation c1 = true) (h2 : isContinuation c2 = true) (h3 : isContinuation c3 = true) :
    decode none (b :: c1 :: c2 :: c3 :: rest) =
      decodeValue (((b % 8 * 0x40 + c1 % 0x40) * 0x40 + c2 % 0x40) * 0x40 + c3 % 0x40) 0x10000 ::
        decode none rest := by
  have hl : leadByte b = ([], some ⟨3, b % 8, 0x10000, 0⟩) := by
    rw [leadByte, if_neg (by omega), if_neg (by omega), if_neg (by omega), if_pos hb]
  simp [decode, hl, h1, h2, h3]

theorem decode_encodeChar (c : Char) (hc : isNonCharacter c.toNat = false) (rest : QByteArray) :
    decode none (encodeChar c ++ rest) = c :: decode none rest := by
  have hv := toNat_valid c
  simp only [encodeChar]
  split_ifs with h1 h2 h3 h4
  · simp [decode, leadByte, h1, Char.ofNat_toNat]
  · rw [List.cons_append, List.singleton_append, decode_two rest (by omega) isContinuation_of_mod]
    have e : (0xC0 + c.toNat / 0x40) % 0x20 * 0x40 + (0x80 + c.toNat % 0x40) % 0x40 = c.toNat := by
      omega
    rw [e, decodeValue_of_valid (by omega) hv hc, Char.ofNat_toNat]
  · simp [hc] at h3
  · rw [List.cons_append, List.cons_append, List.cons_append, List.singleton_append,
      decode_four rest (by omega) isContinuation_of_mod isContinuation_of_mod isContinuation_of_mod]
    have e : (((0xF0 + c.toNat / 0x40000) % 8 * 0x40 + (0x80 + c.toNat / 0x1000 % 0x40) % 0x40)
        * 0x40 + (0x80 + c.toNat / 0x40 % 0x40) % 0x40) * 0x40 + (0x80 + c.toNat % 0x40) % 0x40
        = c.toNat := by omega
    rw [e, decodeValue_of_valid (by omega) hv hc, Char.ofNat_toNat]
  · rw [List.cons_append, List.cons_append, List.singleton_append,
      decode_three rest (by omega) isContinuation_of_mod isContinuation_of_mod]
    have e : ((0xE0 + c.toNat / 0x1000) % 0x10 * 0x40 + (0x80 + c.toNat / 0x40 % 0x40) % 0x40)
        * 0x40 + (0x80 + c.toNat % 0x40) % 0x40 = c.toNat := by omega
    rw [e, decodeValue_of_valid (by omega) hv hc, Char.ofNat_toNat]

theorem decode_toUtf8 (s : QString) (hs : ∀ c ∈ s, isNonCharacter c.toNat = false) :
    decode none (toUtf8 s) = s := by
  induction s with
  | nil => rfl
  | cons c s ih =>
    rw [toUtf8, List.flatMap_cons, decode_encodeChar c (hs c (List.mem_cons_self c s)), ← toUtf8,
      ih fun d hd => hs d (List.mem_cons_of_mem c hd)]

theorem fromUtf8_toUtf8 (s : QString) (hs : Transparent s) : fromUtf8 (toUtf8 s) = s := by
  rw [fromUtf8, decode_toUtf8 s hs.1]
  match s, hs with
  | [], _ => rfl
  | c :: s, ⟨_, hb⟩ =>
    have hc : c ≠ '\uFEFF' := fun h => hb (by rw [h]; rfl)
    split
    · next h => exact absurd (List.cons.inj h).1 hc
    · rfl

/-! ### ASCII survives any bytes around it -/

/-! ### The ASCII skeleton survives decoding

Reading a text down to its ASCII codes, with each run of anything else as one `none`, gives the
same skeleton for the bytes and for the characters `decode` makes of them: every ASCII byte is one
ASCII character, and every other byte ends up inside a run of characters that are not ASCII. So
the characters hold an ASCII word exactly where the bytes do. -/

def skelCons : Option Nat → List (Option Nat) → List (Option Nat)
  | none, none :: l => none :: l
  | x, l => x :: l

def skeleton (l : List (Option Nat)) : List (Option Nat) := l.foldr skelCons []

def byteCode (b : Nat) : Option Nat := if b < 0x80 then some b else none

def charCode (c : Char) : Option Nat := if c.toNat < 0x80 then some c.toNat else none

@[simp] theorem skeleton_nil : skeleton [] = [] := rfl

@[simp] theorem skeleton_cons (x : Option Nat) (l : List (Option Nat)) :
    skeleton (x :: l) = skelCons x (skeleton l) := rfl

@[simp] theorem skelCons_some (n : Nat) (l : List (Option Nat)) : skelCons (some n) l = some n :: l :=
  rfl

theorem skelCons_none_none (l : List (Option Nat)) :
    skelCons none (skelCons none l) = skelCons none l := by
  match l with
  | [] => rfl
  | none :: _ => rfl
  | some _ :: _ => rfl

theorem skeleton_replicate_none (k : Nat) (l : List (Option Nat)) :
    skeleton (List.replicate (k + 1) none ++ l) = skelCons none (skeleton l) := by
  induction k with
  | zero => rfl
  | succ k ih => rw [List.replicate_succ, List.cons_append, skeleton_cons, ih, skelCons_none_none]

theorem byteCode_of_lt {b : Nat} (hb : b < 0x80) : byteCode b = some b := if_pos hb

theorem byteCode_of_le {b : Nat} (hb : 0x80 ≤ b) : byteCode b = none := if_neg (by omega)

theorem charCode_ofNat {b : Nat} (hb : b < 0x80) : charCode (Char.ofNat b) = some b := by
  rw [charCode, toNat_ofNat_of_lt (by omega), if_pos hb]

theorem charCode_replacementChar : charCode replacementChar = none := rfl

theorem charCode_decodeValue {uc minUc : Nat} (hmin : 0x80 ≤ minUc) :
    charCode (decodeValue uc minUc) = none := by
  unfold decodeValue
  split_ifs with hbad
  · rfl
  · simp only [Bool.or_eq_true, decide_eq_true_eq, Bool.and_eq_true, not_or, not_and,
      not_le] at hbad
    have hv : uc < 0xD800 ∨ (0xDFFF < uc ∧ uc < 0x110000) := by omega
    rw [charCode, Char.ofNat, dif_pos hv]
    exact if_neg (by show ¬uc < 0x80; omega)

theorem leadByte_cases (b : Nat) :
    (b < 0x80 ∧ leadByte b = ([Char.ofNat b], none)) ∨
      (0x80 ≤ b ∧ ∃ p : Pending, 0x80 ≤ p.minUc ∧ leadByte b = ([], some p)) ∨
      (0x80 ≤ b ∧ leadByte b = ([replacementChar], none)) := by
  unfold leadByte
  split_ifs with h1
  · exact .inl ⟨h1, rfl⟩
  · exact .inr (.inl ⟨Nat.le_of_not_lt h1, ⟨1, b % 0x20, 0x80, 0⟩, le_refl _, rfl⟩)
  · exact .inr (.inl ⟨Nat.le_of_not_lt h1, ⟨2, b % 0x10, 0x800, 0⟩, (by decide : 0x80 ≤ 0x800), rfl⟩)
  · exact .inr (.inl ⟨Nat.le_of_not_lt h1, ⟨3, b % 8, 0x10000, 0⟩, (by decide : 0x80 ≤ 0x10000), rfl⟩)
  · exact .inr (.inr ⟨Nat.le_of_not_lt h1, rfl⟩)

theorem isContinuation_le {b : Nat} (h : isContinuation b = true) : 0x80 ≤ b := by
  simp only [isContinuation, decide_eq_true_eq] at h
  omega

theorem skeleton_decode (bs : QByteArray) :
    skeleton ((decode none bs).map charCode) = skeleton (bs.map byteCode) ∧
      ∀ p : Pending, 0x80 ≤ p.minUc →
        skeleton ((decode (some p) bs).map charCode) = skelCons none (skeleton (bs.map byteCode)) := by
  induction bs with
  | nil => exact ⟨rfl, fun p _ => by rw [decode, List.map_replicate, charCode_replacementChar,
      ← List.append_nil (List.replicate _ _), skeleton_replicate_none]; rfl⟩
  | cons b bs ih =>
    obtain ⟨ihn, ihs⟩ := ih
    have hn : skeleton ((decode none (b :: bs)).map charCode) = skeleton ((b :: bs).map byteCode) := by
      rw [decode, List.map_cons, skeleton_cons]
      rcases leadByte_cases b with ⟨hb, hl⟩ | ⟨hb, p, hp, hl⟩ | ⟨hb, hl⟩ <;> rw [hl]
      · rw [List.singleton_append, List.map_cons, skeleton_cons, charCode_ofNat hb, ihn,
          byteCode_of_lt hb]
      · rw [List.nil_append, ihs p hp, byteCode_of_le hb]
      · rw [List.singleton_append, List.map_cons, skeleton_cons, charCode_replacementChar, ihn,
          byteCode_of_le hb]
    refine ⟨hn, fun p hp => ?_⟩
    rw [decode]
    split_ifs with hc h1
    · rw [List.map_cons, skeleton_cons, charCode_decodeValue hp, ihn, List.map_cons, skeleton_cons,
        byteCode_of_le (isContinuation_le hc), skelCons_none_none]
    · rw [ihs ⟨p.need - 1, p.uc * 0x40 + b % 0x40, p.minUc, p.seen + 1⟩ hp, List.map_cons,
        skeleton_cons, byteCode_of_le (isContinuation_le hc), skelCons_none_none]
    · have hd : (leadByte b).1 ++ decode (leadByte b).2 bs = decode none (b :: bs) := by rw [decode]
      rw [List.append_assoc, hd, List.map_append, List.map_replicate, charCode_replacementChar,
        skeleton_replicate_none, hn]

theorem suffix_skelCons (x : Option Nat) (l : List (Option Nat)) : l <:+ skelCons x l := by
  match x, l with
  | none, [] => exact List.suffix_cons _ _
  | none, none :: _ => exact List.suffix_refl _
  | none, some _ :: _ => exact List.suffix_cons _ _
  | some _, _ => exact List.suffix_cons _ _

theorem suffix_foldr_skelCons (l t : List (Option Nat)) : t <:+ l.foldr skelCons t := by
  induction l with
  | nil => exact List.suffix_refl t
  | cons x l ih => exact ih.trans (suffix_skelCons x _)

theorem foldr_skelCons_map_some (w : List Nat) (t : List (Option Nat)) :
    (w.map some).foldr skelCons t = w.map some ++ t := by
  induction w with
  | nil => rfl
  | cons b w ih => exact congrArg (some b :: ·) ih

theorem infix_skeleton_of_infix_chars {s : QString} {w : QByteArray} (hw : ∀ b ∈ w, b < 0x80)
    (h : fromAscii w <:+: s) : w.map some <:+: skeleton (s.map charCode) := by
  obtain ⟨xs, ys, rfl⟩ := h
  have hcodes : (fromAscii w).map charCode = w.map some := by
    rw [fromAscii, List.map_map]
    exact List.map_congr_left fun b hb => charCode_ofNat (hw b hb)
  rw [List.map_append, List.map_append, hcodes, skeleton, List.foldr_append, List.foldr_append,
    foldr_skelCons_map_some]
  exact (List.prefix_append _ _).isInfix.trans (suffix_foldr_skelCons _ _).isInfix

theorem skelCons_none_eq (l : List (Option Nat)) :
    skelCons none l = l ∨ skelCons none l = none :: l := by
  match l with
  | [] => exact .inr rfl
  | none :: _ => exact .inl rfl
  | some _ :: _ => exact .inr rfl

theorem head?_skelCons_none (l : List (Option Nat)) : (skelCons none l).head? = some none := by
  match l with
  | [] => rfl
  | none :: _ => rfl
  | some _ :: _ => rfl

theorem infix_of_infix_skelCons_none {u l : List (Option Nat)} (hu : none ∉ u) (hne : u ≠ [])
    (h : u <:+: skelCons none l) : u <:+: l := by
  rcases skelCons_none_eq l with he | he <;> rw [he] at h
  · exact h
  · refine (List.infix_cons_iff.mp h).resolve_left fun hp => hu ?_
    obtain ⟨x, u, rfl⟩ := List.exists_cons_of_ne_nil hne
    exact (List.cons_prefix_cons.mp hp).1 ▸ List.mem_cons_self _ _

theorem prefix_of_prefix_skeleton {w : QByteArray} :
    ∀ {bs : QByteArray}, w.map some <+: skeleton (bs.map byteCode) → w <+: bs := by
  induction w with
  | nil => exact fun _ => List.nil_prefix
  | cons a w ih =>
    rintro (_ | ⟨b, bs⟩) ⟨r, hr⟩
    · simp at hr
    · simp only [List.map_cons, skeleton_cons] at hr
      by_cases hb : b < 0x80
      · simp only [byteCode_of_lt hb, skelCons_some, List.map_cons, List.cons_append,
          List.cons.injEq, Option.some.injEq] at hr
        obtain ⟨rfl, hr⟩ := hr
        exact List.prefix_cons_inj _ |>.mpr (ih ⟨r, hr⟩)
      · have hhead := congrArg List.head? hr
        rw [byteCode_of_le (by omega), head?_skelCons_none] at hhead
        simp at hhead

theorem infix_of_infix_skeleton {w : QByteArray} (hne : w ≠ []) :
    ∀ {bs : QByteArray}, w.map some <:+: skeleton (bs.map byteCode) → w <:+: bs
  | [], h => absurd (List.eq_nil_of_infix_nil h) (by simpa using hne)
  | b :: bs, h => by
    by_cases hb : b < 0x80
    · have hs : skeleton ((b :: bs).map byteCode) = some b :: skeleton (bs.map byteCode) := by
        rw [List.map_cons, skeleton_cons, byteCode_of_lt hb, skelCons_some]
      rcases List.infix_cons_iff.mp (hs ▸ h) with hp | hi
      · exact (prefix_of_prefix_skeleton (hs ▸ hp)).isInfix
      · exact (infix_of_infix_skeleton hne hi).trans (List.suffix_cons b bs).isInfix
    · rw [List.map_cons, skeleton_cons, byteCode_of_le (by omega)] at h
      have hi := infix_of_infix_skelCons_none (by simp) (by simpa using hne) h
      exact (infix_of_infix_skeleton hne hi).trans (List.suffix_cons b bs).isInfix

theorem contains_of_contains_fromUtf8 {bs w : QByteArray} (hw : ∀ b ∈ w, b < 0x80) (hne : w ≠ [])
    (h : Text.contains (fromUtf8 bs) (fromAscii w) = true) : Text.contains bs w = true := by
  have hdec : fromAscii w <:+: decode none bs := by
    rw [Text.contains_iff, fromUtf8] at h
    split at h
    · next cs hcs => exact hcs ▸ h.trans (List.suffix_cons _ cs).isInfix
    · exact h
  rw [Text.contains_iff]
  exact infix_of_infix_skeleton hne ((skeleton_decode bs).1 ▸ infix_skeleton_of_infix_chars hw hdec)

end Tomahawk.Utf8
