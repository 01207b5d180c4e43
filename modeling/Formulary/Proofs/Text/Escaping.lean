import Mathlib.Data.List.TakeWhile
import Formulary.Text.Escape

/-!
# Escaped texts

A text that is written with escapes can be read back, and it stands on one line.

* `hexValue_toDigits`: digits denote the number that they were written for.
* `Escape.unwritten`: reads a character back.
* `Escape.text_injective`: different texts are written differently.
* `Escape.newline_notMem_text`: an escaped text holds no line break.
-/

namespace Formulary

/-! ## Digits -/

def hexDigit (c : Char) : Nat := ((List.range 16).find? fun d => Nat.digitChar d = c).getD 0

def hexValue (cs : List Char) : Nat := cs.foldl (fun n c => 16 * n + hexDigit c) 0

theorem hexDigit_digitChar : ∀ d < 16, hexDigit (Nat.digitChar d) = d := by decide

theorem hexValue_append (cs : List Char) (c : Char) :
    hexValue (cs ++ [c]) = 16 * hexValue cs + hexDigit c := by
  rw [hexValue, List.foldl_append]
  rfl

/-- The digits of a number denote it. -/
theorem hexValue_toDigits (n : Nat) : hexValue (Nat.toDigits 16 n) = n := by
  induction n using Nat.strongRecOn with
  | ind n ih =>
    by_cases hn : n < 16
    · rw [Nat.toDigits_of_lt_base hn, ← List.nil_append [_], hexValue_append,
        hexDigit_digitChar n hn]
      exact Nat.zero_add n
    · rw [Nat.toDigits_of_base_le (by decide) (Nat.le_of_not_lt hn), hexValue_append,
        ih (n / 16) (by omega), hexDigit_digitChar _ (Nat.mod_lt n (by decide))]
      omega

theorem exists_digitChar {n : Nat} {c : Char} (h : c ∈ Nat.toDigits 16 n) :
    ∃ d < 16, c = Nat.digitChar d := by
  induction n using Nat.strongRecOn with
  | ind n ih =>
    by_cases hn : n < 16
    · rw [Nat.toDigits_of_lt_base hn, List.mem_singleton] at h
      exact ⟨n, hn, h⟩
    · rw [Nat.toDigits_of_base_le (by decide) (Nat.le_of_not_lt hn), List.mem_append,
        List.mem_singleton] at h
      rcases h with h | h
      · exact ih (n / 16) (by omega) h
      · exact ⟨n % 16, Nat.mod_lt n (by decide), h⟩

namespace Escape

theorem digit_ne {n : Nat} {c : Char} (h : c ∈ Nat.toDigits 16 n) : c ≠ '}' ∧ c ≠ '\n' := by
  obtain ⟨d, hd, rfl⟩ := exists_digitChar h
  have hdigits : ∀ d < 16, Nat.digitChar d ≠ '}' ∧ Nat.digitChar d ≠ '\n' := by decide
  exact hdigits d hd

/-! ## Characters -/

/-- Reads the first character of an escaped text, and what follows it. -/
def unwritten : List Char → Option (Char × List Char)
  | [] => none
  | '\\' :: '0' :: rest => some ('\x00', rest)
  | '\\' :: 't' :: rest => some ('\t', rest)
  | '\\' :: 'r' :: rest => some ('\r', rest)
  | '\\' :: 'n' :: rest => some ('\n', rest)
  | '\\' :: 'u' :: '{' :: rest =>
    some (Char.ofNat (hexValue (rest.takeWhile (· ≠ '}'))), (rest.dropWhile (· ≠ '}')).tail)
  | '\\' :: c :: rest => some (c, rest)
  | c :: rest => some (c, rest)

variable (invisible : Char → Bool) (c : Char)

theorem unwritten_codePoint (rest : List Char) :
    unwritten (codePoint c ++ rest) = some (c, rest) := by
  have hdigits : ∀ d ∈ Nat.toDigits 16 c.toNat, decide (d ≠ '}') = true := fun d hd =>
    decide_eq_true (digit_ne hd).1
  have hwritten : codePoint c ++ rest =
      '\\' :: 'u' :: '{' :: (Nat.toDigits 16 c.toNat ++ '}' :: rest) := by simp [codePoint]
  rw [hwritten, unwritten, List.takeWhile_append_of_pos hdigits,
    List.dropWhile_append_of_pos hdigits]
  simp [hexValue_toDigits]

/-- A character that is written is read back, whatever follows it. -/
theorem unwritten_written (rest : List Char) :
    unwritten (written invisible c ++ rest) = some (c, rest) := by
  rw [written]
  split_ifs with h₀ ht hr hn hquote hinvisible
  · rw [h₀]
    rfl
  · rw [ht]
    rfl
  · rw [hr]
    rfl
  · rw [hn]
    rfl
  · rcases hquote with rfl | rfl | rfl <;> rfl
  · exact unwritten_codePoint c rest
  · -- only what begins with a backslash is read as an escape
    have hslash : c ≠ '\\' := fun h => hquote (.inl h)
    rw [List.singleton_append]
    unfold unwritten
    split <;> simp_all

theorem newline_notMem_written : '\n' ∉ written invisible c := by
  rw [written]
  split_ifs with h₀ ht hr hn hquote hinvisible
  · decide
  · decide
  · decide
  · decide
  · rcases hquote with rfl | rfl | rfl <;> decide
  · intro h
    rw [codePoint, List.mem_append, List.mem_append] at h
    rcases h with (h | h) | h
    · exact absurd h (by decide)
    · exact (digit_ne h).2 rfl
    · exact absurd h (by decide)
  · rw [List.mem_singleton]
    exact fun h => hn h.symm

/-! ## Texts -/

theorem flatMap_written_injective {cs cs' : List Char}
    (h : cs.flatMap (written invisible) = cs'.flatMap (written invisible)) : cs = cs' := by
  have hne : ∀ (c : Char) (rest : List Char), written invisible c ++ rest ≠ [] := by
    intro c rest hnil
    have hread := unwritten_written invisible c rest
    rw [hnil] at hread
    cases hread
  induction cs generalizing cs' with
  | nil =>
    cases cs' with
    | nil => rfl
    | cons c' cs' => exact absurd h.symm (hne c' _)
  | cons c cs ih =>
    cases cs' with
    | nil => exact absurd h (hne c _)
    | cons c' cs' =>
      rw [List.flatMap_cons, List.flatMap_cons] at h
      have hread := congrArg unwritten h
      rw [unwritten_written, unwritten_written] at hread
      obtain ⟨hc, hrest⟩ := Prod.mk.inj (Option.some.inj hread)
      rw [hc, ih hrest]

theorem characters_injective {cs cs' : List Char} (h : characters cs = characters cs') :
    cs = cs' := by
  cases cs with
  | nil =>
    cases cs' with
    | nil => rfl
    | cons c' cs' =>
      have hread := unwritten_written invisibleAlone c' (cs'.flatMap (written Printable.hidden))
      rw [← characters, ← h] at hread
      cases hread
  | cons c cs =>
    have hread := unwritten_written invisibleAlone c (cs.flatMap (written Printable.hidden))
    rw [← characters, h] at hread
    cases cs' with
    | nil => cases hread
    | cons c' cs' =>
      rw [characters, unwritten_written] at hread
      obtain ⟨hc, hrest⟩ := Prod.mk.inj (Option.some.inj hread)
      rw [← hc, flatMap_written_injective _ hrest]

/-- The escaped text determines the text. -/
theorem text_injective {s s' : String} (h : text s = text s') : s = s' :=
  String.toList_injective (characters_injective (String.ofList_injective h))

theorem newline_notMem_characters (cs : List Char) : '\n' ∉ characters cs := by
  cases cs with
  | nil => exact List.not_mem_nil
  | cons c cs =>
    rw [characters, List.mem_append, List.mem_flatMap]
    rintro (h | ⟨d, -, h⟩)
    · exact newline_notMem_written _ c h
    · exact newline_notMem_written _ d h

/-- An escaped text stands on one line. -/
theorem newline_notMem_text (s : String) : '\n' ∉ (text s).toList := by
  rw [text, String.toList_ofList]
  exact newline_notMem_characters s.toList

end Escape

end Formulary
