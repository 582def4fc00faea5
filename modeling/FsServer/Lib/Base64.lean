import Mathlib.Data.List.Basic

/-!
# Base64

The standard alphabet with padding, over lists of bytes. Decoding skips line breaks, wants complete
groups of four digits and takes padding in the last group only.
-/

namespace FsServer.Lib.Base64

def padding : UInt8 := 61

def digit (n : Nat) : UInt8 :=
  if n < 26 then .ofNat (65 + n)
  else if n < 52 then .ofNat (97 + (n - 26))
  else if n < 62 then .ofNat (48 + (n - 52))
  else if n = 62 then 43
  else 47

def value (c : UInt8) : Option Nat :=
  let n := c.toNat
  if 65 ≤ n ∧ n < 91 then some (n - 65)
  else if 97 ≤ n ∧ n < 123 then some (n - 97 + 26)
  else if 48 ≤ n ∧ n < 58 then some (n - 48 + 52)
  else if n = 43 then some 62
  else if n = 47 then some 63
  else none

def encodeToString : List UInt8 → List UInt8
  | [] => []
  | [a] => [digit (a.toNat / 4), digit (a.toNat % 4 * 16), padding, padding]
  | [a, b] =>
    [digit (a.toNat / 4), digit (a.toNat % 4 * 16 + b.toNat / 16), digit (b.toNat % 16 * 4),
      padding]
  | a :: b :: c :: rest =>
    [digit (a.toNat / 4), digit (a.toNat % 4 * 16 + b.toNat / 16),
      digit (b.toNat % 16 * 4 + c.toNat / 64), digit (c.toNat % 64)] ++ encodeToString rest

def isNewline (c : UInt8) : Bool := c = 13 ∨ c = 10

/-- Groups of four digits; only the last one may be padded. -/
def decodeGroups : List UInt8 → Option (List UInt8)
  | [] => some []
  | w :: x :: y :: z :: rest => do
    let a ← value w
    let b ← value x
    if y = padding then
      if z = padding ∧ rest = [] then some [.ofNat (a * 4 + b / 16)] else none
    else
      let c ← value y
      if z = padding then
        if rest = [] then some [.ofNat (a * 4 + b / 16), .ofNat (b % 16 * 16 + c / 4)] else none
      else
        let d ← value z
        let tail ← decodeGroups rest
        some ([.ofNat (a * 4 + b / 16), .ofNat (b % 16 * 16 + c / 4),
          .ofNat (c % 4 * 64 + d)] ++ tail)
  | _ => none

def decodeString (text : List UInt8) : Option (List UInt8) :=
  decodeGroups (text.filter fun c => !isNewline c)

variable {n : Nat}

theorem value_digit (hn : n < 64) : value (digit n) = some n := by
  have hall : ∀ k : Fin 64, value (digit k) = some k.val := by decide
  exact hall ⟨n, hn⟩

theorem digit_ne_padding (hn : n < 64) : digit n ≠ padding := by
  have hall : ∀ k : Fin 64, digit k ≠ padding := by decide
  exact hall ⟨n, hn⟩

theorem isNewline_digit (hn : n < 64) : isNewline (digit n) = false := by
  have hall : ∀ k : Fin 64, isNewline (digit k) = false := by decide
  exact hall ⟨n, hn⟩

theorem ofNat_eq {byte : UInt8} (h : n = byte.toNat) : UInt8.ofNat n = byte := by
  rw [h]
  exact UInt8.ofNat_toNat

theorem decodeGroups_encodeToString (data : List UInt8) :
    decodeGroups (encodeToString data) = some data := by
  induction data using encodeToString.induct with
  | case1 => rfl
  | case2 a =>
    have ha := a.toNat_lt
    have hfirst : UInt8.ofNat (a.toNat / 4 * 4 + a.toNat % 4 * 16 / 16) = a :=
      ofNat_eq (by omega)
    rw [encodeToString, decodeGroups, value_digit (by omega), value_digit (by omega)]
    simp only [Option.bind_eq_bind, Option.bind_some, and_self, if_true, hfirst]
  | case3 a b =>
    have ha := a.toNat_lt
    have hb := b.toNat_lt
    have hlow : digit (b.toNat % 16 * 4) ≠ padding := digit_ne_padding (by omega)
    have hfirst : UInt8.ofNat (a.toNat / 4 * 4 + (a.toNat % 4 * 16 + b.toNat / 16) / 16) = a :=
      ofNat_eq (by omega)
    have hsecond : UInt8.ofNat ((a.toNat % 4 * 16 + b.toNat / 16) % 16 * 16
        + b.toNat % 16 * 4 / 4) = b := ofNat_eq (by omega)
    rw [encodeToString, decodeGroups, value_digit (by omega), value_digit (by omega),
      value_digit (by omega)]
    simp only [Option.bind_eq_bind, Option.bind_some, hlow, if_false, if_true, hfirst, hsecond]
  | case4 a b c rest ih =>
    have ha := a.toNat_lt
    have hb := b.toNat_lt
    have hc := c.toNat_lt
    have hmiddle : digit (b.toNat % 16 * 4 + c.toNat / 64) ≠ padding :=
      digit_ne_padding (by omega)
    have hlow : digit (c.toNat % 64) ≠ padding := digit_ne_padding (by omega)
    have hfirst : UInt8.ofNat (a.toNat / 4 * 4 + (a.toNat % 4 * 16 + b.toNat / 16) / 16) = a :=
      ofNat_eq (by omega)
    have hsecond : UInt8.ofNat ((a.toNat % 4 * 16 + b.toNat / 16) % 16 * 16
        + (b.toNat % 16 * 4 + c.toNat / 64) / 4) = b := ofNat_eq (by omega)
    have hthird : UInt8.ofNat ((b.toNat % 16 * 4 + c.toNat / 64) % 4 * 64 + c.toNat % 64) = c :=
      ofNat_eq (by omega)
    simp only [encodeToString, List.cons_append, List.nil_append, decodeGroups]
    rw [value_digit (by omega), value_digit (by omega), value_digit (by omega),
      value_digit (by omega), ih]
    simp only [Option.bind_eq_bind, Option.bind_some, hmiddle, hlow, if_false, hfirst, hsecond,
      hthird]

theorem filter_encodeToString (data : List UInt8) :
    (encodeToString data).filter (fun c => !isNewline c) = encodeToString data := by
  rw [List.filter_eq_self]
  have hpadding : isNewline padding = false := by decide
  induction data using encodeToString.induct with
  | case1 => simp [encodeToString]
  | case2 a =>
    have ha := a.toNat_lt
    simp [encodeToString, hpadding, isNewline_digit (show a.toNat / 4 < 64 by omega),
      isNewline_digit (show a.toNat % 4 * 16 < 64 by omega)]
  | case3 a b =>
    have ha := a.toNat_lt
    have hb := b.toNat_lt
    simp [encodeToString, hpadding, isNewline_digit (show a.toNat / 4 < 64 by omega),
      isNewline_digit (show a.toNat % 4 * 16 + b.toNat / 16 < 64 by omega),
      isNewline_digit (show b.toNat % 16 * 4 < 64 by omega)]
  | case4 a b c rest ih =>
    have ha := a.toNat_lt
    have hb := b.toNat_lt
    have hc := c.toNat_lt
    simpa [encodeToString, isNewline_digit (show a.toNat / 4 < 64 by omega),
      isNewline_digit (show a.toNat % 4 * 16 + b.toNat / 16 < 64 by omega),
      isNewline_digit (show b.toNat % 16 * 4 + c.toNat / 64 < 64 by omega),
      isNewline_digit (show c.toNat % 64 < 64 by omega)] using ih

theorem decodeString_encodeToString (data : List UInt8) :
    decodeString (encodeToString data) = some data := by
  rw [decodeString, filter_encodeToString]
  exact decodeGroups_encodeToString data

variable {text data : List UInt8}

theorem length_decodeGroups_le (h : decodeGroups text = some data) : data.length ≤ text.length := by
  induction text using decodeGroups.induct generalizing data with
  | case1 =>
    cases h
    exact Nat.le_refl _
  | case2 w x y z rest ih =>
    rw [decodeGroups] at h
    obtain ⟨a, -, h⟩ := Option.bind_eq_some_iff.mp h
    obtain ⟨b, -, h⟩ := Option.bind_eq_some_iff.mp h
    by_cases hy : y = padding
    · rw [if_pos hy] at h
      split_ifs at h
      cases h
      simp
    · rw [if_neg hy] at h
      obtain ⟨c, -, h⟩ := Option.bind_eq_some_iff.mp h
      by_cases hz : z = padding
      · rw [if_pos hz] at h
        split_ifs at h
        cases h
        simp
      · rw [if_neg hz] at h
        obtain ⟨d, -, h⟩ := Option.bind_eq_some_iff.mp h
        obtain ⟨tail, htail, h⟩ := Option.bind_eq_some_iff.mp h
        cases h
        have hlength := ih htail
        simp only [List.length_append, List.length_cons, List.length_nil]
        omega
  | case3 text hnil hgroup =>
    rw [decodeGroups] at h
    · cases h
    · exact hnil
    · exact hgroup

theorem length_decodeString_le (h : decodeString text = some data) : data.length ≤ text.length :=
  Nat.le_trans (length_decodeGroups_le h) (List.length_filter_le _ _)

end FsServer.Lib.Base64
