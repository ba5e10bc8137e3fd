import Mathlib.Algebra.Order.Group.Nat
import Mathlib.Tactic.Ring
import Tomahawk.Qt.Text

/-! `QDataStream` over a `QByteArray` in Qt 4.8's default big-endian format: the reads and writes of
`quint32`, `qint64` and `QString`. A read past the end yields zero or an empty string. -/

namespace Tomahawk.DataStream

def beValue (bs : QByteArray) : Nat := bs.foldl (fun acc b => acc * 0x100 + b) 0

def beBytes : Nat → Nat → QByteArray
  | 0, _ => []
  | w + 1, n => beBytes w (n / 0x100) ++ [n % 0x100]

@[simp] theorem length_beBytes (w n : Nat) : (beBytes w n).length = w := by
  induction w generalizing n with
  | zero => rfl
  | succ w ih => simp [beBytes, ih]

theorem beValue_append_singleton (bs : QByteArray) (b : Nat) :
    beValue (bs ++ [b]) = beValue bs * 0x100 + b := by
  simp [beValue, List.foldl_append]

theorem beValue_beBytes (w n : Nat) : beValue (beBytes w n) = n % 0x100 ^ w := by
  induction w generalizing n with
  | zero => simp [beBytes, beValue, Nat.mod_one]
  | succ w ih =>
    rw [beBytes, beValue_append_singleton, ih, pow_succ', Nat.mod_mul]
    ring

theorem beValue_beBytes_of_lt {w n : Nat} (h : n < 0x100 ^ w) : beValue (beBytes w n) = n := by
  rw [beValue_beBytes, Nat.mod_eq_of_lt h]

/-! ### Reads -/

/-- A fixed-width read: `width` bytes, or zero when fewer are left, which it takes all the same. -/
def readBE (width : Nat) (bs : QByteArray) : Nat × QByteArray :=
  if width ≤ bs.length then (beValue (bs.take width), bs.drop width) else (0, [])

def readUInt32 (bs : QByteArray) : Nat × QByteArray := readBE 4 bs

def readInt64 (bs : QByteArray) : Nat × QByteArray := readBE 8 bs

abbrev Utf16 := List Nat

def units : QByteArray → Utf16
  | hi :: lo :: rest => beValue [hi, lo] :: units rest
  | _ => []

/-- `operator>>( QString& )`: the byte length, `0xFFFFFFFF` for null, then the code units. -/
def readString (bs : QByteArray) : Utf16 × QByteArray :=
  let (bytes, rest) := readUInt32 bs
  if bytes = 0xFFFFFFFF then ([], rest)
  else if 0 < bytes then
    if bytes % 2 = 1 then ([], rest)
    else if bytes ≤ rest.length then (units (rest.take bytes), rest.drop bytes)
    else ([], [])
  else ([], rest)

/-! ### Writes -/

def writeUInt32 (n : Nat) : QByteArray := beBytes 4 n

def writeInt64 (n : Nat) : QByteArray := beBytes 8 n

def unitBytes (s : Utf16) : QByteArray := s.flatMap (beBytes 2)

def writeString (s : Utf16) : QByteArray := writeUInt32 (2 * s.length) ++ unitBytes s

def Streamable (s : Utf16) : Prop := (∀ u ∈ s, u < 0x10000) ∧ 2 * s.length < 0x100000000

instance : DecidablePred Streamable := fun _ => inferInstanceAs (Decidable (_ ∧ _))

/-! ### Reading what was written -/

theorem readBE_append {w : Nat} {bs : QByteArray} (h : bs.length = w) (rest : QByteArray) :
    readBE w (bs ++ rest) = (beValue bs, rest) := by
  rw [readBE, if_pos (by simp [h]), List.take_left' h, List.drop_left' h]

theorem readBE_of_lt {w : Nat} {bs : QByteArray} (h : bs.length < w) : readBE w bs = (0, []) := by
  rw [readBE, if_neg (by omega)]

theorem readInt64_writeInt64 {p : Nat} (hp : p < 0x10000000000000000) (rest : QByteArray) :
    readInt64 (writeInt64 p ++ rest) = (p, rest) := by
  rw [readInt64, writeInt64, readBE_append (length_beBytes 8 p), beValue_beBytes_of_lt hp]

@[simp] theorem length_unitBytes (s : Utf16) : (unitBytes s).length = 2 * s.length := by
  induction s with
  | nil => rfl
  | cons u s ih =>
    rw [unitBytes, List.flatMap_cons, List.length_append, length_beBytes, ← unitBytes, ih,
      List.length_cons]
    omega

theorem units_unitBytes {s : Utf16} (hs : ∀ u ∈ s, u < 0x10000) : units (unitBytes s) = s := by
  induction s with
  | nil => rfl
  | cons u s ih =>
    have hu : beBytes 2 u = [u / 0x100 % 0x100, u % 0x100] := rfl
    rw [unitBytes, List.flatMap_cons, hu, List.cons_append, List.singleton_append, units,
      ← unitBytes, ih fun v hv => hs v (List.mem_cons_of_mem u hv), ← hu,
      beValue_beBytes_of_lt (hs u (List.mem_cons_self u s))]

theorem readString_writeString {s : Utf16} (hs : Streamable s) (rest : QByteArray) :
    readString (writeString s ++ rest) = (s, rest) := by
  obtain ⟨hs, hl⟩ := hs
  rw [readString, writeString, writeUInt32, List.append_assoc, readUInt32,
    readBE_append (length_beBytes 4 _), beValue_beBytes_of_lt hl]
  dsimp only
  rw [if_neg (by omega)]
  rcases Nat.eq_zero_or_pos s.length with h0 | hpos
  · rw [List.length_eq_zero.mp h0]
    rfl
  · have hlen : (unitBytes s).length = 2 * s.length := length_unitBytes s
    rw [if_pos (by omega), if_neg (by omega), if_pos (by simp), ← hlen,
      List.take_left, List.drop_left, units_unitBytes hs]

@[simp] theorem readString_nil : readString [] = ([], []) := rfl

theorem writeString_ne_nil (s : Utf16) : writeString s ≠ [] := by
  simp [writeString, writeUInt32, ← List.length_pos]

theorem readString_take_writeString {s : Utf16} (hs : Streamable s) {k : Nat}
    (hk : k < (writeString s).length) : readString ((writeString s).take k) = ([], []) := by
  have hl := hs.2
  rw [writeString, List.length_append, length_unitBytes, writeUInt32, length_beBytes] at hk
  rw [writeString, writeUInt32]
  rcases Nat.lt_or_ge k 4 with h4 | h4
  · rw [readString, readUInt32, readBE_of_lt (by simp; omega)]
    rfl
  · rw [List.take_append_eq_append_take, List.take_of_length_le (by simp; omega), readString,
      readUInt32, readBE_append (length_beBytes 4 _), beValue_beBytes_of_lt hl]
    dsimp only
    have hr : (List.take (k - (beBytes 4 (2 * s.length)).length) (unitBytes s)).length < 2 * s.length := by
      simp; omega
    rw [if_neg (by omega), if_pos (by omega), if_neg (by omega), if_neg (by omega)]

/-! ### Loops of reads -/

/-- A read from the front of a stream: what it yields and the bytes after it. -/
structure Read (α : Type) where
  run : QByteArray → α × QByteArray
  suffix : ∀ bs, (run bs).2 <:+ bs
  progress : ∀ b bs, (run (b :: bs)).2.length < bs.length + 1

theorem readBE_suffix (w : Nat) (bs : QByteArray) : (readBE w bs).2 <:+ bs := by
  unfold readBE
  split_ifs
  · exact List.drop_suffix _ _
  · exact List.nil_suffix

theorem readBE_progress {w : Nat} (hw : 0 < w) (b : Nat) (bs : QByteArray) :
    (readBE w (b :: bs)).2.length < bs.length + 1 := by
  unfold readBE
  split_ifs <;> simp only [List.length_drop, List.length_cons, List.length_nil] <;> omega

theorem readBE_takes (w : Nat) (bs : QByteArray) :
    (readBE w bs).2.length + w ≤ bs.length ∨ (readBE w bs).2 = [] := by
  unfold readBE
  split_ifs
  · exact .inl (by simp only [List.length_drop]; omega)
  · exact .inr rfl

theorem readString_rest (bs : QByteArray) :
    ∃ n, (readString bs).2 = (readUInt32 bs).2.drop n ∨ (readString bs).2 = [] := by
  rcases h : readUInt32 bs with ⟨bytes, rest⟩
  simp only [readString, h]
  split_ifs
  exacts [⟨0, .inl rfl⟩, ⟨0, .inl rfl⟩, ⟨bytes, .inl rfl⟩, ⟨0, .inr rfl⟩, ⟨0, .inl rfl⟩]

theorem readString_suffix (bs : QByteArray) : (readString bs).2 <:+ bs := by
  obtain ⟨n, h | h⟩ := readString_rest bs <;> rw [h]
  · exact (List.drop_suffix _ _).trans (readBE_suffix 4 bs)
  · exact List.nil_suffix

theorem readString_progress (b : Nat) (bs : QByteArray) :
    (readString (b :: bs)).2.length < bs.length + 1 := by
  have hp := readBE_progress (w := 4) (by decide) b bs
  obtain ⟨n, h | h⟩ := readString_rest (b :: bs) <;> rw [h]
  · exact lt_of_le_of_lt (List.drop_suffix _ _).length_le hp
  · exact Nat.succ_pos _

def int64Read : Read Nat := ⟨readInt64, readBE_suffix 8, readBE_progress (by decide)⟩

def stringRead : Read Utf16 := ⟨readString, readString_suffix, readString_progress⟩

@[simp] theorem int64Read_run : int64Read.run = readInt64 := rfl

@[simp] theorem stringRead_run : stringRead.run = readString := rfl

def Read.pair {α β : Type} (r : Read α) (s : Read β) : Read (α × β) where
  run bs := (((r.run bs).1, (s.run (r.run bs).2).1), (s.run (r.run bs).2).2)
  suffix bs := (s.suffix _).trans (r.suffix bs)
  progress b bs := lt_of_le_of_lt (s.suffix _).length_le (r.progress b bs)

def Read.loop {α : Type} (r : Read α) : QByteArray → List α
  | [] => []
  | b :: bs => (r.run (b :: bs)).1 :: r.loop (r.run (b :: bs)).2
termination_by bs => bs.length
decreasing_by exact r.progress b bs

section Loop

variable {α : Type} {r : Read α}

@[simp] theorem Read.loop_nil (r : Read α) : r.loop [] = [] := by
  rw [Read.loop]

theorem Read.loop_of_run {bs rest : QByteArray} {x : α} (hne : bs ≠ [])
    (h : r.run bs = (x, rest)) : r.loop bs = x :: r.loop rest := by
  obtain ⟨b, bs, rfl⟩ := List.exists_cons_of_ne_nil hne
  rw [Read.loop, h]

theorem Read.loop_flatMap {enc : α → QByteArray} :
    ∀ {items : List α}, (∀ x ∈ items, enc x ≠ [] ∧ ∀ rest, r.run (enc x ++ rest) = (x, rest)) →
      ∀ rest, r.loop (items.flatMap enc ++ rest) = items ++ r.loop rest
  | [], _, _ => rfl
  | x :: items, h, rest => by
    have hx := h x (List.mem_cons_self x items)
    rw [List.flatMap_cons, List.append_assoc,
      Read.loop_of_run (List.append_ne_nil_of_left_ne_nil hx.1 _) (hx.2 _),
      Read.loop_flatMap (fun y hy => h y (List.mem_cons_of_mem x hy)), List.cons_append]

def Read.Takes (r : Read α) (k : Nat) : Prop :=
  ∀ bs, (r.run bs).2.length + k ≤ bs.length ∨ (r.run bs).2 = []

theorem Read.Takes.pair {β : Type} {s : Read β} {k l : Nat} (hr : r.Takes k) (hs : s.Takes l) :
    (r.pair s).Takes (k + l) := fun bs => by
  show (s.run (r.run bs).2).2.length + (k + l) ≤ bs.length ∨ (s.run (r.run bs).2).2 = []
  rcases hr bs with h1 | h1
  · rcases hs (r.run bs).2 with h2 | h2
    · exact .inl (by omega)
    · exact .inr h2
  · right
    rw [h1]
    exact List.eq_nil_of_length_eq_zero (Nat.le_zero.mp (s.suffix []).length_le)

theorem Read.Takes.length_loop {k : Nat} (hk : 0 < k) (hr : r.Takes k) (bs : QByteArray) :
    k * (r.loop bs).length < bs.length + k := by
  induction bs using Read.loop.induct r with
  | case1 => simpa using hk
  | case2 b bs ih =>
    rw [Read.loop, List.length_cons, Nat.mul_succ, List.length_cons]
    rcases hr (b :: bs) with h | h
    · simp only [List.length_cons] at h
      omega
    · rw [h, Read.loop_nil, List.length_nil, Nat.mul_zero]
      omega

end Loop

theorem stringRead_takes : stringRead.Takes 4 := fun bs => by
  show (readString bs).2.length + 4 ≤ bs.length ∨ (readString bs).2 = []
  obtain ⟨n, h | h⟩ := readString_rest bs <;> rw [h]
  · refine (readBE_takes 4 bs).imp (fun h' => le_trans ?_ h') fun h' => ?_
    · simp only [readUInt32, List.length_drop]
      omega
    · rw [readUInt32, h', List.drop_nil]
  · exact .inr rfl

end Tomahawk.DataStream
