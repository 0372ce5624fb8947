import Mathlib.Data.List.GetD
import Mathlib.Data.List.TakeWhile
import Mathlib.Data.Nat.Digits.Lemmas

/-! # Byte strings, C strings and fixed-size buffers

The pieces of the C and C++ string libraries that the developments below rest
on: byte strings (`std::string`), the C string stored at the start of a byte
sequence, `strncmp`, `strchr`, and `char[n]` arrays with `memcpy` and `strlcpy`.
-/

namespace Aosp.Lib

open List UInt8

/-- A sequence of bytes: the contents of a `std::string`, or the bytes of a C
    string before its terminating NUL. -/
abbrev Bytes := List UInt8

def ascii (s : String) : Bytes := s.toList.map fun c => ofNat c.toNat

def newline : UInt8 := 10
def numberSign : UInt8 := 35
def asterisk : UInt8 := 42
def slash : UInt8 := 47
def equalsSign : UInt8 := 61

/-! ## C strings -/

/-- The C string a `const char*` to these bytes denotes: everything before the
    first NUL. -/
def cstr (s : Bytes) : Bytes := s.takeWhile (· ≠ 0)

/-- No byte of `s` is NUL, so `s` survives the round trip through `c_str()`. -/
def NulFree (s : Bytes) : Prop := (0 : UInt8) ∉ s

instance (s : Bytes) : Decidable (NulFree s) := inferInstanceAs (Decidable (_ ∉ _))

variable {s one two : Bytes} {byte : UInt8}

theorem cstr_of_nulFree (free : NulFree s) : cstr s = s := by
  rw [cstr, takeWhile_eq_self_iff]
  intro byte mem
  have nz : byte ≠ 0 := fun zero => free (zero ▸ mem)
  simpa using nz

theorem cstr_length_le (s : Bytes) : (cstr s).length ≤ s.length :=
  (List.takeWhile_prefix _).length_le

/-- Anything after an explicit NUL is invisible to a C string. -/
theorem cstr_append_zero (s tl : Bytes) : cstr (s ++ 0 :: tl) = cstr s := by
  induction s with
  | nil => rfl
  | cons byte s ih =>
    by_cases zero : byte = 0
    · simp [cstr, zero]
    · simpa [cstr, zero] using ih

/-- A string and its terminator agree with its C string as far as that goes. -/
theorem getD_append_zero {i : Nat} (hi : i ≤ (cstr s).length) : (s ++ [0]).getD i 0 = (cstr s).getD i 0 := by
  induction s generalizing i with
  | nil =>
    have first : i = 0 := by simpa [cstr] using hi
    subst first
    rfl
  | cons byte s ih =>
    by_cases zero : byte = 0
    · have stops : cstr (byte :: s) = [] := by simp [cstr, zero]
      rw [stops] at hi ⊢
      have first : i = 0 := by simpa using hi
      subst first
      simp [zero]
    · have goes : cstr (byte :: s) = byte :: cstr s := by simp [cstr, zero]
      rw [goes] at hi ⊢
      cases i with
      | zero => rfl
      | succ i =>
        exact ih (by simpa using hi)

theorem NulFree.take (free : NulFree s) (n : Nat) : NulFree (s.take n) :=
  fun mem => free (mem_of_mem_take mem)

theorem NulFree.drop (free : NulFree s) (n : Nat) : NulFree (s.drop n) :=
  fun mem => free (mem_of_mem_drop mem)

/-- `strncmp`: bytes compare as `unsigned char`, reading past the end of a
    string yields its NUL. -/
def strncmp : Bytes → Bytes → Nat → Int
  | _, _, 0 => 0
  | one, two, n + 1 =>
    if one.headD 0 = two.headD 0 then
      if one.headD 0 = 0 then 0 else strncmp one.tail two.tail n
    else (one.headD 0).toNat - (two.headD 0).toNat

theorem strncmp_eq_zero (oneFree : NulFree one) (twoFree : NulFree two) (n : Nat) :
    strncmp one two n = 0 ↔ one.take n = two.take n := by
  induction n generalizing one two with
  | zero => simp [strncmp]
  | succ n ih =>
    have pos : ∀ {byte : UInt8} {tl : Bytes}, NulFree (byte :: tl) → byte ≠ 0 ∧ byte.toNat ≠ 0 := by
      intro byte tl free
      have nz : byte ≠ 0 := fun zero => free (zero ▸ mem_cons_self)
      exact ⟨nz, fun zero => nz (UInt8.toNat_inj.mp zero)⟩
    cases one with
    | nil =>
      cases two with
      | nil => simp [strncmp]
      | cons b two =>
        obtain ⟨nz, natNonzero⟩ := pos twoFree
        simp [strncmp, nz.symm, natNonzero]
    | cons a one =>
      obtain ⟨nz, natNonzero⟩ := pos oneFree
      cases two with
      | nil => simp [strncmp, nz, natNonzero]
      | cons b two =>
        by_cases eq : a = b
        · subst eq
          have tails := @ih one two
            (fun mem => oneFree (mem_cons_of_mem _ mem))
            (fun mem => twoFree (mem_cons_of_mem _ mem))
          simp [strncmp, nz, tails]
        · have ne : a.toNat ≠ b.toNat := fun hq => eq (UInt8.toNat_inj.mp hq)
          simp only [strncmp, headD_cons, eq, if_false, take_succ_cons, List.cons.injEq, false_and, iff_false]
          omega

/-- The sign of `strncmp` depends on the order of its arguments. -/
theorem strncmp_swap (one two : Bytes) (n : Nat) : strncmp two one n = -strncmp one two n := by
  induction n generalizing one two with
  | zero => rfl
  | succ n ih =>
    by_cases eq : one.headD 0 = two.headD 0
    · by_cases ends : two.headD 0 = 0
      · simp only [strncmp, eq, ends, if_true, Int.neg_zero]
      · simp only [strncmp, eq, ends]
        exact ih one.tail two.tail
    · simp only [strncmp, eq, Ne.symm eq, if_false]
      omega

theorem strncmp_cons (a b : UInt8) (one two : Bytes) (n : Nat) :
    strncmp (a :: one) (b :: two) (n + 1) =
      if a = b then if a = 0 then 0 else strncmp one two n else (a.toNat : Int) - b.toNat := rfl

/-- Strings of one length that `strncmp` puts in order are in lexicographic
    order. -/
theorem lt_of_strncmp_neg (len : one.length = two.length) (neg : strncmp one two one.length < 0) : one < two := by
  induction one generalizing two with
  | nil => simp [strncmp] at neg
  | cons a one ih =>
    cases two with
    | nil => simp at len
    | cons b two =>
      simp only [length_cons, Nat.add_right_cancel_iff] at len
      rw [length_cons, strncmp_cons] at neg
      rw [cons_lt_cons_iff]
      split at neg
      · rename_i eq
        split at neg
        · omega
        · exact .inr ⟨eq, ih len neg⟩
      · exact .inl (lt_iff_toNat_lt.mpr (by omega))

/-- `strchr`: the index of the first occurrence of `byte`, if there is one. -/
def strchr (s : Bytes) (byte : UInt8) : Option Nat := s.findIdx? (· == byte)

theorem strchr_eq_none (ha : strchr s byte = none) : byte ∉ s := by
  intro mem
  have := List.findIdx?_eq_none_iff.mp ha byte mem
  simp at this

/-- A found separator splits the string around its first occurrence. -/
theorem strchr_eq_some {i : Nat} (hf : strchr s byte = some i) :
    byte ∉ s.take i ∧ s = s.take i ++ byte :: s.drop (i + 1) := by
  obtain ⟨cap, here, pre⟩ := List.findIdx?_eq_some_iff_getElem.mp hf
  simp only [beq_iff_eq] at here pre
  constructor
  · intro mem
    obtain ⟨j, jBound, hq⟩ := mem_iff_getElem.mp mem
    rw [length_take] at jBound
    exact pre j (by omega) (by simpa using hq)
  · calc s = s.take i ++ s.drop i := (take_append_drop i s).symm
      _ = s.take i ++ byte :: s.drop _ := by rw [drop_eq_getElem_cons cap, here]

/-- Equal strings are equal up to the first separator. -/
theorem eq_of_append_cons {tl more : Bytes} (pure : byte ∉ one) (alsoClean : byte ∉ two)
    (eq : one ++ byte :: tl = two ++ byte :: more) : one = two := by
  have pieces := congrArg (List.splitOn byte) eq
  rw [splitOn_append_cons_self_of_not_mem pure, splitOn_append_cons_self_of_not_mem alsoClean] at pieces
  exact (List.cons.inj pieces).1

/-! ## Little-endian words -/

/-- The four bytes of a `uint32_t` in memory. -/
def le32 (n : Nat) : Bytes :=
  [ofNat n, ofNat (n / 2 ^ 8), ofNat (n / 2 ^ 16), ofNat (n / 2 ^ 24)]

/-- The `uint32_t` whose bytes in memory are the first four of `s`. -/
def readLe32 (s : Bytes) : Nat :=
  (s.getD 0 0).toNat + (s.getD 1 0).toNat * 2 ^ 8 + (s.getD 2 0).toNat * 2 ^ 16 + (s.getD 3 0).toNat * 2 ^ 24

theorem readLe32_le32 (n : Nat) (cap : n < 2 ^ 32) : readLe32 (le32 n) = n := by
  simp only [readLe32, le32, getD_cons_zero, getD_cons_succ, toNat_ofNat']
  omega

/-! ## Decimal numbers -/

/-- What `printf` writes for an unsigned number. -/
def decimal (n : Nat) : Bytes :=
  if n = 0 then [48] else ((Nat.digits 10 n).map fun digit => ofNat (48 + digit)).reverse

theorem mem_decimal {n : Nat} (mem : byte ∈ decimal n) : 48 ≤ byte.toNat ∧ byte.toNat ≤ 57 := by
  unfold decimal at mem
  split at mem
  · rw [mem_singleton.mp mem]
    decide
  · obtain ⟨digit, digitMember, rfl⟩ := mem_map.mp (mem_reverse.mp mem)
    have small : digit < 10 := Nat.digits_lt_base (by decide) digitMember
    rw [toNat_ofNat']
    omega

def ofDecimal (s : Bytes) : Nat := Nat.ofDigits 10 (s.reverse.map fun byte => byte.toNat - 48)

theorem ofDecimal_decimal (n : Nat) : ofDecimal (decimal n) = n := by
  unfold ofDecimal decimal
  split
  · rename_i zero
    simp [zero]
  · rw [reverse_reverse, map_map]
    have eq : (Nat.digits 10 n).map ((fun byte : UInt8 => byte.toNat - 48) ∘ fun digit => ofNat (48 + digit)) =
        Nat.digits 10 n := by
      conv_rhs => rw [← map_id (Nat.digits 10 n)]
      apply map_congr_left
      intro digit mem
      have small : digit < 10 := Nat.digits_lt_base (by decide) mem
      simp only [Function.comp_apply, toNat_ofNat', id]
      omega
    rw [eq, Nat.ofDigits_digits]

theorem decimal_injective {m n : Nat} (eq : decimal m = decimal n) : m = n := by
  rw [← ofDecimal_decimal m, eq, ofDecimal_decimal]

/-! ## `char[n]` arrays -/

/-- The contents of a `char[n]`. -/
abbrev Buffer (n : Nat) := Fin n → UInt8

namespace Buffer

variable {n : Nat}

def zero : Buffer n := fun _ => 0

def get (b : Buffer n) (i : Nat) : UInt8 := if h : i < n then b ⟨i, h⟩ else 0

/-- The first `k` bytes. -/
def bytes (b : Buffer n) (k : Nat) : Bytes := (List.range k).map b.get

def set (b : Buffer n) (i : Nat) (byte : UInt8) : Buffer n :=
  fun j => if j.val = i then byte else b j

def memcpy (b : Buffer n) (src : Bytes) (k : Nat) : Buffer n :=
  fun j => if j.val < k then src.getD j.val 0 else b j

/-- `strlcpy(b, src, size)`: copies up to `size - 1` bytes of the C string at
    `src` and terminates the result.  Bytes after the written NUL keep their
    old contents. -/
def strlcpy (b : Buffer n) (src : Bytes) (sz : Nat) : Buffer n :=
  if sz = 0 then b
  else (b.memcpy (cstr src) (min (cstr src).length (sz - 1))).set
    (min (cstr src).length (sz - 1)) 0

@[simp] theorem get_zero (i : Nat) : (zero : Buffer n).get i = 0 := by
  simp [get, zero]

section

variable (b : Buffer n)
include b

theorem get_set (i j : Nat) (byte : UInt8) : (b.set i byte).get j = if j = i ∧ j < n then byte else b.get j := by
  by_cases cap : j < n
  · by_cases eq : j = i
    · simp [get, set, cap]
    · simp [get, set, cap]
  · simp [get, cap]

theorem get_memcpy (src : Bytes) (k j : Nat) :
    (b.memcpy src k).get j = if j < k ∧ j < n then src.getD j 0 else b.get j := by
  by_cases cap : j < n <;> by_cases low : j < k <;> simp [get, memcpy, cap]

@[simp] theorem bytes_length (k : Nat) : (b.bytes k).length = k := by
  simp [bytes]

theorem bytes_getElem (k i : Nat) (cap : i < (b.bytes k).length) : (b.bytes k)[i] = b.get i := by
  simp [bytes]

theorem bytes_eq_iff (k : Nat) (s : Bytes) (len : s.length = k) :
    b.bytes k = s ↔ ∀ i, i < k → b.get i = s.getD i 0 := by
  constructor
  · rintro rfl i cap
    simp [cap, bytes_getElem]
  · intro eq
    apply ext_getElem (by simp [len])
    intro i cap sBound
    rw [bytes_getElem, eq i (by simpa using cap), getD_eq_getElem _ _ sBound]

/-- A string copied with its terminator reads back as itself. -/
theorem bytes_memcpy_set (s : Bytes) (fits : s.length < n) :
    ((b.memcpy s s.length).set s.length 0).bytes (s.length + 1) = s ++ [0] := by
  rw [bytes_eq_iff _ _ _ (by simp)]
  intro i _
  rw [get_set, get_memcpy]
  by_cases last : i = s.length
  · subst last; simp [fits]
  · have low : i < s.length := by omega
    rw [if_neg (by omega), if_pos ⟨low, by omega⟩]
    exact (getD_append _ _ _ _ low).symm

/-- `strlcpy` with room for the whole string writes the C string and its
    terminator, and nothing behind them. -/
theorem get_strlcpy (s : Bytes) {k i : Nat} (room : (cstr s).length ≤ k) (hi : i < n) :
    (b.strlcpy s (k + 1)).get i = if i ≤ (cstr s).length then (cstr s).getD i 0 else b.get i := by
  have copy : b.strlcpy s (k + 1) = (b.memcpy (cstr s) (cstr s).length).set (cstr s).length 0 := by
    simp [strlcpy, Nat.min_eq_left room]
  rw [copy, get_set, get_memcpy]
  by_cases last : i = (cstr s).length
  · rw [if_pos ⟨last, hi⟩, if_pos (by omega), last, getD_eq_default _ _ (le_refl _)]
  · rw [if_neg (by omega)]
    by_cases pre : i < (cstr s).length
    · rw [if_pos ⟨pre, hi⟩, if_pos (by omega)]
    · rw [if_neg (by omega), if_neg (by omega)]

/-- `strlcpy` of a NUL-free string with room for all of it stores the string
    and its terminator. -/
theorem bytes_strlcpy (s : Bytes) (free : NulFree s) (fits : s.length < n) :
    (b.strlcpy s (s.length + 1)).bytes (s.length + 1) = s ++ [0] := by
  have copy : b.strlcpy s (s.length + 1) = (b.memcpy s s.length).set s.length 0 := by
    simp [strlcpy, cstr_of_nulFree free]
  rw [copy, bytes_memcpy_set b s fits]

theorem memcpy_zero (src : Bytes) : b.memcpy src 0 = b := by
  funext j
  simp [memcpy]

theorem set_memcpy (src : Bytes) (k : Nat) : (b.memcpy src k).set k (src.getD k 0) = b.memcpy src (k + 1) := by
  funext j
  simp only [set, memcpy]
  by_cases last : j.val = k
  · simp [last]
  · rw [if_neg last]
    exact if_congr (by omega) rfl rfl

/-- `strlcpy` of a NUL-free string copies its bytes and then the terminator. -/
theorem strlcpy_eq_memcpy (s : Bytes) (free : NulFree s) :
    b.strlcpy s (s.length + 1) = b.memcpy (s ++ [0]) (s.length + 1) := by
  funext j
  simp only [strlcpy, cstr_of_nulFree free, set, memcpy, Nat.add_sub_cancel, Nat.min_self, Nat.succ_ne_zero, if_false]
  by_cases last : j.val = s.length
  · simp [last]
  · rw [if_neg last]
    by_cases pre : j.val < s.length
    · rw [if_pos pre, if_pos (by omega), getD_append _ _ _ _ pre]
    · rw [if_neg pre, if_neg (by omega)]

end

theorem bytes_strlcpy_zero (s : Bytes) (free : NulFree s) (fits : s.length < n) :
    ((zero : Buffer n).strlcpy s n).bytes n = s ++ List.replicate (n - s.length) 0 := by
  rw [bytes_eq_iff _ _ _ (by simp; omega)]
  intro i hi
  have copy := get_strlcpy (zero : Buffer n) s (k := n - 1) (by have := cstr_length_le s; omega) hi
  rw [show n - 1 + 1 = n by omega, cstr_of_nulFree free] at copy
  rw [copy, get_zero]
  by_cases pre : i < s.length
  · rw [if_pos (by omega), getD_append _ _ _ _ pre]
  · rw [getD_append_right _ _ _ _ (by omega)]
    by_cases last : i = s.length
    · simp [last]
    · rw [if_neg (by omega), getD_replicate _ (by omega)]

end Buffer

end Aosp.Lib
