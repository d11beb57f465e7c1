/-
ResponsiveImage/Proofs/Text/Bytes.lean

Texts as the bytes of their UTF-8 form.

An ASCII character is one byte, and all bytes of any other character are
greater than these.  So an ASCII text is known by its bytes (`decode_bytes`),
the places in it count bytes as well as characters (`length_bytes`), and a class
of ASCII characters is a class of bytes (`ByteClass`).  In any text an ASCII byte
is a character of its own (`exists_of_getElem?_bytes`, `count_bytes`).
-/
import Mathlib.Data.List.TakeWhile

namespace ResponsiveImage

/-- The bytes of a text. -/
def bytes (text : List Char) : List UInt8 := text.flatMap String.utf8EncodeChar

def Ascii (text : List Char) : Prop := ∀ c ∈ text, c.toNat < 128

variable {text front : List Char} {c : Char} {b : UInt8}

theorem bytes_append (front back : List Char) : bytes (front ++ back) = bytes front ++ bytes back :=
  List.flatMap_append

theorem bytes_cons (c : Char) (rest : List Char) :
    bytes (c :: rest) = String.utf8EncodeChar c ++ bytes rest := List.flatMap_cons

theorem isPrefix_bytes {back : List Char} (h : front <+: back) : bytes front <+: bytes back := by
  obtain ⟨rest, rfl⟩ := h
  exact ⟨bytes rest, (bytes_append front rest).symm⟩

/-! ### The bytes of a character -/

theorem utf8EncodeChar_ascii (h : c.toNat < 128) : String.utf8EncodeChar c = [c.toUInt8] := by
  have hle : c.val.toNat ≤ 127 := Nat.le_of_lt_succ h
  simp only [String.utf8EncodeChar, if_pos hle]
  rfl

theorem toNat_toUInt8 (h : c.toNat < 128) : c.toUInt8.toNat = c.toNat := by
  have hmod : c.toUInt8.toNat = c.toNat % 256 := rfl
  rw [hmod, Nat.mod_eq_of_lt (by omega)]

/-- A character outside ASCII has no byte in common with one inside. -/
theorem le_of_mem_utf8EncodeChar (h : 128 ≤ c.toNat) (hb : b ∈ String.utf8EncodeChar c) :
    128 ≤ b.toNat := by
  have hgt : ¬ c.val.toNat ≤ 127 := Nat.not_le_of_lt h
  simp only [String.utf8EncodeChar, if_neg hgt] at hb
  split at hb
  · simp only [List.mem_cons, List.not_mem_nil, or_false] at hb
    rcases hb with rfl | rfl <;> simp only [UInt8.toNat_ofNat'] <;> omega
  split at hb
  · simp only [List.mem_cons, List.not_mem_nil, or_false] at hb
    rcases hb with rfl | rfl | rfl <;> simp only [UInt8.toNat_ofNat'] <;> omega
  · simp only [List.mem_cons, List.not_mem_nil, or_false] at hb
    rcases hb with rfl | rfl | rfl | rfl <;> simp only [UInt8.toNat_ofNat'] <;> omega

/-- Only an ASCII character has a byte within ASCII. -/
theorem toNat_lt_of_mem_utf8EncodeChar (hb : b ∈ String.utf8EncodeChar c) (hsmall : b.toNat < 128) :
    c.toNat < 128 :=
  Nat.lt_of_not_le fun hc => Nat.not_le_of_lt hsmall (le_of_mem_utf8EncodeChar hc hb)

theorem exists_utf8EncodeChar_cons (c : Char) : ∃ b rest, String.utf8EncodeChar c = b :: rest := by
  refine List.exists_cons_of_ne_nil (List.ne_nil_of_length_pos ?_)
  rw [String.length_utf8EncodeChar]
  exact c.utf8Size_pos

/-! ### ASCII texts -/

theorem bytes_ascii (h : Ascii text) : bytes text = text.map Char.toUInt8 := by
  induction text with
  | nil => rfl
  | cons c rest ih =>
    obtain ⟨hc, hrest⟩ := List.forall_mem_cons.1 h
    rw [bytes_cons, utf8EncodeChar_ascii hc, ih hrest]
    rfl

theorem length_bytes (h : Ascii text) : (bytes text).length = text.length := by
  rw [bytes_ascii h, List.length_map]

theorem toNat_lt_of_mem_bytes (h : Ascii text) (hb : b ∈ bytes text) : b.toNat < 128 := by
  rw [bytes_ascii h] at hb
  obtain ⟨c, hc, rfl⟩ := List.mem_map.1 hb
  rw [toNat_toUInt8 (h c hc)]
  exact h c hc

/-- The bytes of an ASCII text give back the text. -/
theorem decode_bytes (h : Ascii text) :
    (bytes text).map (fun b => Char.ofNat b.toNat) = text := by
  rw [bytes_ascii h, List.map_map]
  refine (List.map_congr_left fun c hc => ?_).trans (List.map_id text)
  show Char.ofNat c.toUInt8.toNat = c
  rw [toNat_toUInt8 (h c hc), Char.ofNat_toNat]

theorem bytes_injOn (hfront : Ascii front) (h : Ascii text) (heq : bytes front = bytes text) :
    front = text := by
  rw [← decode_bytes hfront, heq, decode_bytes h]

theorem take_bytes_append (hfront : Ascii front) (back : List Char) :
    (bytes (front ++ back)).take front.length = bytes front := by
  rw [bytes_append, ← length_bytes hfront, List.take_left]

theorem drop_bytes_append (hfront : Ascii front) (back : List Char) :
    (bytes (front ++ back)).drop front.length = bytes back := by
  rw [bytes_append, ← length_bytes hfront, List.drop_left]

theorem getElem?_bytes_append (hfront : Ascii front) {k : Nat} (hk : front[k]? = some c)
    (back : List Char) : (bytes (front ++ back))[k]? = some c.toUInt8 := by
  have hlt : k < (bytes front).length := by
    rw [length_bytes hfront]
    exact (List.getElem?_eq_some_iff.1 hk).1
  rw [bytes_append, List.getElem?_append_left hlt, bytes_ascii hfront, List.getElem?_map, hk]
  rfl

/-- If the bytes of an ASCII text go on with the first byte of a character, the
text goes on with that character. -/
theorem isPrefix_of_bytes (hfront : Ascii front) (h : Ascii text) {back : List Char}
    (hgoes : (bytes (front ++ c :: back)).take (front.length + 1) <+: bytes text) :
    front ++ [c] <+: text := by
  obtain ⟨b, rest, hb⟩ := exists_utf8EncodeChar_cons c
  have htake : (bytes (front ++ c :: back)).take (front.length + 1) = bytes front ++ [b] := by
    rw [bytes_append, bytes_cons, hb, ← length_bytes hfront, List.take_length_add_append]
    rfl
  rw [htake] at hgoes
  have hsmall : b.toNat < 128 :=
    toNat_lt_of_mem_bytes h (hgoes.subset (List.mem_append_right _ List.mem_cons_self))
  have hc : c.toNat < 128 :=
    toNat_lt_of_mem_utf8EncodeChar (hb ▸ List.mem_cons_self) hsmall
  obtain ⟨rfl, -⟩ := List.cons.inj ((utf8EncodeChar_ascii hc).symm.trans hb)
  have hdecode := hgoes.map fun b => Char.ofNat b.toNat
  rwa [List.map_append, decode_bytes hfront, decode_bytes h, List.map_singleton, toNat_toUInt8 hc,
    Char.ofNat_toNat] at hdecode

/-! ### Counts and places -/

variable {s : List UInt8}

theorem toUInt8_inj {d : Char} (hc : c.toNat < 128) (hd : d.toNat < 128)
    (h : c.toUInt8 = d.toUInt8) : c = d := by
  have hval : c.toNat = d.toNat := by rw [← toNat_toUInt8 hc, h, toNat_toUInt8 hd]
  rw [← Char.ofNat_toNat c, hval, Char.ofNat_toNat]

/-- No byte outside ASCII is an ASCII character. -/
theorem count_of_large (hc : c.toNat < 128) (hs : ∀ b ∈ s, 128 ≤ b.toNat) :
    s.count c.toUInt8 = 0 := by
  refine List.count_eq_zero.2 fun hmem => ?_
  have hlarge := hs _ hmem
  rw [toNat_toUInt8 hc] at hlarge
  omega

theorem count_utf8EncodeChar (hc : c.toNat < 128) (d : Char) :
    (String.utf8EncodeChar d).count c.toUInt8 = [d].count c := by
  by_cases hd : d.toNat < 128
  · rw [utf8EncodeChar_ascii hd, List.count_singleton, List.count_singleton]
    refine if_congr ?_ rfl rfl
    rw [beq_iff_eq, beq_iff_eq]
    exact ⟨toUInt8_inj hd hc, fun h => h ▸ rfl⟩
  · have hne : d ≠ c := fun h => hd (h ▸ hc)
    rw [count_of_large hc fun _ => le_of_mem_utf8EncodeChar (Nat.le_of_not_lt hd),
      List.count_singleton, if_neg (by simpa using hne)]

/-- The bytes of an ASCII character stand for that character alone. -/
theorem count_bytes (hc : c.toNat < 128) (text : List Char) :
    (bytes text).count c.toUInt8 = text.count c := by
  induction text with
  | nil => rfl
  | cons d rest ih =>
    rw [bytes_cons, List.count_append, count_utf8EncodeChar hc, ih, ← List.count_append,
      List.singleton_append]

/-- A beginning of the bytes of a text has the ASCII characters of a beginning of
the text. -/
theorem exists_prefix_of_bytes (h : s <+: bytes text) :
    ∃ front, front <+: text ∧ ∀ c : Char, c.toNat < 128 → s.count c.toUInt8 = front.count c := by
  induction text generalizing s with
  | nil =>
    obtain rfl : s = [] := List.prefix_nil.1 h
    exact ⟨[], List.nil_prefix, fun c _ => rfl⟩
  | cons d rest ih =>
    rw [bytes_cons] at h
    rcases List.prefix_or_prefix_of_prefix (List.prefix_append _ (bytes rest)) h with hd | hd
    · -- the bytes of the first character, and a beginning of the others
      obtain ⟨s, rfl⟩ := hd
      obtain ⟨front, hfront, hcount⟩ := ih ((List.prefix_append_right_inj _).1 h)
      refine ⟨d :: front, (List.prefix_cons_inj d).2 hfront, fun c hc => ?_⟩
      rw [List.count_append, count_utf8EncodeChar hc, hcount c hc, ← List.count_append,
        List.singleton_append]
    by_cases hascii : d.toNat < 128
    · rw [utf8EncodeChar_ascii hascii] at hd
      rcases List.prefix_cons_iff.1 hd with rfl | ⟨s, rfl, hs⟩
      · exact ⟨[], List.nil_prefix, fun c _ => rfl⟩
      · obtain rfl := List.prefix_nil.1 hs
        refine ⟨[d], (List.prefix_cons_inj d).2 List.nil_prefix, fun c hc => ?_⟩
        rw [← count_utf8EncodeChar hc, utf8EncodeChar_ascii hascii]
    · -- within a character there are no others
      refine ⟨[], List.nil_prefix, fun c hc => count_of_large hc fun b hb => ?_⟩
      exact le_of_mem_utf8EncodeChar (Nat.le_of_not_lt hascii) (hd.subset hb)

/-- An ASCII byte is a character of its own, behind those whose bytes stand in
front of it. -/
theorem exists_of_getElem?_bytes {i : Nat} (hb : b.toNat < 128) (h : (bytes text)[i]? = some b) :
    ∃ front c back, text = front ++ c :: back ∧ (bytes front).length = i ∧ c.toNat < 128 ∧
      c.toUInt8 = b := by
  induction text generalizing i with
  | nil => cases h
  | cons d rest ih =>
    rw [bytes_cons] at h
    by_cases hi : i < (String.utf8EncodeChar d).length
    · rw [List.getElem?_append_left hi] at h
      have hmem : b ∈ String.utf8EncodeChar d := List.mem_of_getElem? h
      have hd : d.toNat < 128 := toNat_lt_of_mem_utf8EncodeChar hmem hb
      rw [utf8EncodeChar_ascii hd] at h hi hmem
      obtain rfl : i = 0 := Nat.lt_one_iff.1 hi
      exact ⟨[], d, rest, rfl, rfl, hd, (List.mem_singleton.1 hmem).symm⟩
    · have hi := Nat.le_of_not_lt hi
      rw [List.getElem?_append_right hi] at h
      obtain ⟨front, c, back, rfl, hlength, hc⟩ := ih h
      refine ⟨d :: front, c, back, rfl, ?_, hc⟩
      rw [bytes_cons, List.length_append, hlength, Nat.add_sub_cancel' hi]

/-! ### Classes of characters -/

/-- The bytes of a class are those of the characters of a class. -/
def ByteClass (P : UInt8 → Bool) (Q : Char → Bool) : Prop :=
  ∀ c, ∀ b ∈ String.utf8EncodeChar c, P b = Q c

variable {P : UInt8 → Bool} {Q : Char → Bool}

/-- It is enough to compare them within ASCII, when there is nothing of the
classes outside. -/
theorem byteClass_of_ascii (hascii : ∀ n < 128, P (Char.ofNat n).toUInt8 = Q (Char.ofNat n))
    (hbyte : ∀ b, P b = true → b.toNat < 128) (hchar : ∀ c, Q c = true → c.toNat < 128) :
    ByteClass P Q := by
  intro c b hb
  by_cases hc : c.toNat < 128
  · rw [utf8EncodeChar_ascii hc, List.mem_singleton] at hb
    have h := hascii c.toNat hc
    rwa [Char.ofNat_toNat, ← hb] at h
  · have hlarge := le_of_mem_utf8EncodeChar (Nat.le_of_not_lt hc) hb
    have hP : P b = false := Bool.eq_false_iff.2 fun h => by have := hbyte b h; omega
    have hQ : Q c = false := Bool.eq_false_iff.2 fun h => hc (hchar c h)
    rw [hP, hQ]

theorem ByteClass.filter_not (h : ByteClass P Q) (text : List Char) :
    (bytes text).filter (fun b => !P b) = bytes (text.filter fun c => !Q c) := by
  induction text with
  | nil => rfl
  | cons c rest ih =>
    rw [bytes_cons, List.filter_append, ih]
    cases hc : Q c with
    | true =>
      have hnone : (String.utf8EncodeChar c).filter (fun b => !P b) = [] := by
        rw [List.filter_eq_nil_iff]
        intro b hb
        rw [h c b hb, hc]
        decide
      rw [hnone, List.filter_cons_of_neg (by simp [hc])]
      rfl
    | false =>
      have hall : (String.utf8EncodeChar c).filter (fun b => !P b) = String.utf8EncodeChar c := by
        rw [List.filter_eq_self]
        intro b hb
        rw [h c b hb, hc]
        rfl
      rw [hall, List.filter_cons_of_pos (by simp [hc]), bytes_cons]

theorem ByteClass.takeWhile (h : ByteClass P Q) (text : List Char) :
    (bytes text).takeWhile P = bytes (text.takeWhile Q) := by
  induction text with
  | nil => rfl
  | cons c rest ih =>
    rw [bytes_cons]
    cases hc : Q c with
    | true =>
      rw [List.takeWhile_append_of_pos fun b hb => (h c b hb).trans hc, ih,
        List.takeWhile_cons_of_pos hc, bytes_cons]
    | false =>
      obtain ⟨b, more, hb⟩ := exists_utf8EncodeChar_cons c
      have hfirst : P b = false := (h c b (hb ▸ List.mem_cons_self)).trans hc
      rw [hb, List.cons_append, List.takeWhile_cons_of_neg (by simp [hfirst]),
        List.takeWhile_cons_of_neg (by simp [hc])]
      rfl

end ResponsiveImage
