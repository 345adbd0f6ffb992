import Fitz.Lib.Bytes
import Mathlib.Data.List.Lex

/-!
# Keys made of separated segments

Byte strings that join segments by a separator which no segment contains. One such string starts with another
exactly when they agree segment by segment. The range up to the successor of a string holds exactly the strings that
start with it.
-/

namespace Fitz.Lib

open List Nat

section Separators

variable {α : Type} [DecidableEq α] {separator : α} {segment segment' rest rest' : List α}

/-- What stands before the first separator, and what stands after it. -/
def splitFirst (separator : α) : List α → Option (List α × List α)
  | [] => none
  | x :: xs =>
    if x = separator then some ([], xs)
    else (splitFirst separator xs).map fun (before, after) => (x :: before, after)

/-- `splitn`: at most so many pieces, the last of which is not split. -/
def splitn (separator : α) : ℕ → List α → List (List α)
  | 0, _ => []
  | 1, xs => [xs]
  | n + 2, xs =>
    match splitFirst separator xs with
    | none => [xs]
    | some (before, after) => before :: splitn separator (n + 1) after

theorem splitFirst_append (h : separator ∉ segment) (rest : List α) :
    splitFirst separator (segment ++ separator :: rest) = some (segment, rest) := by
  induction segment with
  | nil => simp [splitFirst]
  | cons x xs ih =>
    obtain ⟨hx, hxs⟩ := not_or.mp (mt mem_cons.mpr h)
    rw [cons_append, splitFirst, if_neg (Ne.symm hx), ih hxs]
    rfl

theorem splitn_append (h : separator ∉ segment) (n : ℕ) (rest : List α) :
    splitn separator (n + 2) (segment ++ separator :: rest) = segment :: splitn separator (n + 1) rest := by
  rw [splitn, splitFirst_append h]

theorem segment_prefix_iff (h : separator ∉ segment) (h' : separator ∉ segment') :
    segment ++ separator :: rest <+: segment' ++ separator :: rest' ↔ segment = segment' ∧ rest <+: rest' := by
  constructor
  · rintro ⟨more, hmore⟩
    have hsplit := congrArg (splitFirst separator) hmore
    rw [append_assoc, cons_append, splitFirst_append h, splitFirst_append h'] at hsplit
    obtain ⟨hsegment, hrest⟩ := Prod.mk.inj (Option.some.inj hsplit)
    exact ⟨hsegment, more, hrest⟩
  · rintro ⟨rfl, more, rfl⟩
    exact ⟨more, by simp⟩

end Separators

theorem block_prefix_iff {α : Type} {block block' rest rest' : List α} (h : block.length = block'.length) :
    block ++ rest <+: block' ++ rest' ↔ block = block' ∧ rest <+: rest' := by
  constructor
  · rintro ⟨more, hmore⟩
    rw [append_assoc] at hmore
    obtain ⟨hblock, hrest⟩ := append_inj hmore h
    exact ⟨hblock, more, hrest⟩
  · rintro ⟨rfl, hrest⟩
    exact (prefix_append_right_inj block).mpr hrest

theorem zero_notMem_utf8EncodeChar {c : Char} (h : c ≠ '\x00') : (0 : UInt8) ∉ String.utf8EncodeChar c := by
  have hpos : 0 < c.val.toNat := by
    rcases Nat.eq_zero_or_pos c.val.toNat with hzero | hpos
    · exact absurd (Char.ext (UInt32.toNat_inj.mp hzero)) h
    · exact hpos
  unfold String.utf8EncodeChar
  generalize c.val.toNat = v at hpos
  dsimp only
  split_ifs with h1 h2 h3 <;>
    simp only [mem_cons, not_mem_nil, or_false, ← UInt8.toNat_inj, UInt8.toNat_ofNat', not_or, UInt8.toNat_zero]
  all_goals omega

theorem first_utf8EncodeChar {c : Char} (h : 0x20 ≤ c.toNat) {first : UInt8} {rest : List UInt8}
    (hfirst : String.utf8EncodeChar c = first :: rest) : ¬first < 0x20 := by
  have hspace : (0x20 : UInt8).toNat = 0x20 := rfl
  change 0x20 ≤ c.val.toNat at h
  unfold String.utf8EncodeChar at hfirst
  generalize c.val.toNat = v at h hfirst
  dsimp only at hfirst
  rw [UInt8.lt_iff_toNat_lt, hspace]
  split_ifs at hfirst with h1 h2 h3 <;>
    (obtain ⟨rfl, -⟩ := cons.inj hfirst; rw [UInt8.toNat_ofNat']; omega)

theorem zero_notMem_textBytes {text : Text} (h : ∀ c ∈ text, c ≠ '\x00') : (0 : UInt8) ∉ textBytes text := by
  unfold textBytes
  rw [mem_flatMap]
  rintro ⟨c, hc, hzero⟩
  exact zero_notMem_utf8EncodeChar (h c hc) hzero

theorem decodeUtf8_textBytes (text : Text) : decodeUtf8 (textBytes text) = some text := by
  have hbytes : (⟨(textBytes text).toArray⟩ : ByteArray) = text.utf8Encode := by
    apply ByteArray.ext
    simp [textBytes, utf8Encode]
  unfold decodeUtf8
  rw [hbytes, utf8Decode?_utf8Encode]
  rfl

theorem textBytes_injective : Function.Injective textBytes := by
  intro a b h
  have hdecoded := congrArg decodeUtf8 h
  rw [decodeUtf8_textBytes, decodeUtf8_textBytes] at hdecoded
  exact Option.some.inj hdecoded

theorem bigEndian_append_singleton (bytes : List UInt8) (byte : UInt8) :
    bigEndian (bytes ++ [byte]) = bigEndian bytes * 256 + byte.toNat := by
  unfold bigEndian
  rw [foldl_append]
  rfl

theorem putUint_succ (width n : ℕ) : putUint (width + 1) n = putUint width (n / 256) ++ [UInt8.ofNat n] := by
  unfold putUint
  rw [range_succ, map_append]
  congr 1
  · refine map_congr_left fun i hi => ?_
    have hlt : i < width := mem_range.mp hi
    rw [Nat.div_div_eq_div_mul, show width + 1 - 1 - i = (width - 1 - i) + 1 by omega, pow_succ, mul_comm]
  · simp

theorem bigEndian_putUint {width n : ℕ} (h : n < 256 ^ width) : bigEndian (putUint width n) = n := by
  induction width generalizing n with
  | zero =>
    rw [pow_zero, lt_one_iff] at h
    rw [h]
    rfl
  | succ width ih =>
    have hquotient : n / 256 < 256 ^ width := by
      rw [pow_succ] at h
      omega
    rw [putUint_succ, bigEndian_append_singleton, ih hquotient, UInt8.toNat_ofNat']
    omega

theorem putUint_inj {width n m : ℕ} (hn : n < 256 ^ width) (hm : m < 256 ^ width) :
    putUint width n = putUint width m ↔ n = m := by
  constructor
  · intro h
    rw [← bigEndian_putUint hn, h, bigEndian_putUint hm]
  · exact congrArg _

theorem block_lt_iff {block block' rest rest' : List UInt8} (h : block.length = block'.length) :
    block ++ rest < block' ++ rest' ↔ block < block' ∨ block = block' ∧ rest < rest' := by
  induction block generalizing block' with
  | nil =>
    obtain rfl := length_eq_zero_iff.mp h.symm
    simp
  | cons byte bytes ih =>
    cases block' with
    | nil => cases h
    | cons byte' bytes' =>
      rw [cons_append, cons_append, cons_lt_cons_iff, cons_lt_cons_iff, ih (succ.inj h), cons.injEq]
      tauto

theorem putUint_lt_iff {width n m : ℕ} (hn : n < 256 ^ width) (hm : m < 256 ^ width) :
    putUint width n < putUint width m ↔ n < m := by
  induction width generalizing n m with
  | zero =>
    rw [pow_zero, lt_one_iff] at hn hm
    simp [hn, hm]
  | succ width ih =>
    rw [pow_succ] at hn hm
    have hn' : n / 256 < 256 ^ width := by omega
    have hm' : m / 256 < 256 ^ width := by omega
    have hbyte : [UInt8.ofNat n] < [UInt8.ofNat m] ↔ n % 256 < m % 256 := by
      simp [cons_lt_cons_iff, UInt8.lt_iff_toNat_lt]
    rw [putUint_succ, putUint_succ, block_lt_iff (by simp [length_putUint]), ih hn' hm', putUint_inj hn' hm', hbyte]
    omega

/-- The least string above all those that start with a given one, if there is one. -/
def successorOf : List UInt8 → Option (List UInt8)
  | [] => none
  | byte :: rest =>
    match successorOf rest with
    | some after => some (byte :: after)
    | none => if byte = 255 then none else some [byte + 1]

theorem successorOf_eq_none_iff {bytes : List UInt8} :
    successorOf bytes = none ↔ ∀ byte ∈ bytes, byte = 255 := by
  induction bytes with
  | nil => simp [successorOf]
  | cons byte rest ih =>
    rw [successorOf, forall_mem_cons, ← ih]
    cases successorOf rest with
    | some after => simp
    | none =>
      by_cases hbyte : byte = 255
      · simp [hbyte]
      · simp [hbyte]

theorem byte_trichotomy (x y : UInt8) : (x < y ∧ ¬y < x ∧ x ≠ y) ∨ x = y ∨ (¬x < y ∧ y < x ∧ x ≠ y) := by
  simp only [UInt8.lt_iff_toNat_lt, ne_eq, ← UInt8.toNat_inj]
  omega

theorem lt_next_iff {byte : UInt8} (h : byte ≠ 255) (x : UInt8) : x < byte + 1 ↔ x < byte ∨ x = byte := by
  have hbound := byte.toNat_lt
  simp only [ne_eq, ← UInt8.toNat_inj, UInt8.lt_iff_toNat_lt, UInt8.toNat_add] at h ⊢
  have hlargest : (255 : UInt8).toNat = 255 := rfl
  have hone : (1 : UInt8).toNat = 1 := rfl
  omega

theorem not_lt_largest_iff {largest key : List UInt8} (h : ∀ byte ∈ largest, byte = 255) :
    ¬key < largest ↔ largest <+: key := by
  induction largest generalizing key with
  | nil => simp
  | cons byte rest ih =>
    obtain ⟨rfl, hrest⟩ := forall_mem_cons.mp h
    cases key with
    | nil => simp
    | cons x xs =>
      rw [cons_lt_cons_iff, cons_prefix_cons, ← ih hrest]
      rcases byte_trichotomy x 255 with ⟨hlt, -, hne⟩ | rfl | ⟨-, hgt, -⟩
      · simp [hlt, Ne.symm hne]
      · simp
      · exact absurd (UInt8.lt_iff_toNat_lt.mp hgt) (not_lt.mpr (le_of_lt_succ x.toNat_lt))

/-- The strings from one up to its successor are those that start with it. -/
theorem mem_range_successor_iff {bytes after key : List UInt8} (h : successorOf bytes = some after) :
    (¬key < bytes ∧ key < after) ↔ bytes <+: key := by
  induction bytes generalizing after key with
  | nil => cases h
  | cons byte rest ih =>
    cases key with
    | nil => simp
    | cons x xs =>
      rw [cons_lt_cons_iff, cons_prefix_cons]
      rw [successorOf] at h
      cases hrest : successorOf rest with
      | some next =>
        rw [hrest] at h
        cases h
        rw [cons_lt_cons_iff, ← ih hrest]
        rcases byte_trichotomy x byte with ⟨hlt, -, hne⟩ | rfl | ⟨hnot, -, hne⟩
        · simp [hlt, Ne.symm hne]
        · simp
        · simp [hnot, hne, Ne.symm hne]
      | none =>
        rw [hrest] at h
        dsimp only at h
        split at h
        · cases h
        rename_i hbyte
        cases h
        rw [cons_lt_cons_iff, ← not_lt_largest_iff (successorOf_eq_none_iff.mp hrest), lt_next_iff hbyte]
        rcases byte_trichotomy x byte with ⟨hlt, -, hne⟩ | rfl | ⟨hnot, hgt, hne⟩
        · simp [hlt, Ne.symm hne]
        · simp
        · simp [hnot, hne, Ne.symm hne]

end Fitz.Lib
