import Reldex.Bytes

/-! Rust text. A `str` is its list of characters; an offset into it counts UTF-8
bytes. A cursor over a text is the list of characters still to be read. -/
namespace Reldex
open List hiding after

abbrev Text := List Char

/-- What a scan from `whole` to its suffix `rest` has read. -/
def consumed (whole rest : List α) : List α := whole.take (whole.length - rest.length)

@[simp] theorem consumed_front (front rest : List α) : consumed (front ++ rest) rest = front := by
  simp [consumed]

theorem consumed_append (tail : rest <:+ whole) : consumed whole rest ++ rest = whole := by
  obtain ⟨front,rfl⟩ := tail
  rw [consumed_front]

theorem bind_ok {next : α → Except ε β}
    (ran : first >>= next = .ok value) : ∃ between, first = .ok between ∧ next between = .ok value := by
  cases first with
  | error failure => cases ran
  | ok between => exact ⟨between,rfl,ran⟩

/-- The Unicode tables behind `char::is_alphabetic`, `char::is_numeric` and
`char::to_uppercase`. Only their ASCII part is fixed here; everything proved over
them holds for every Unicode version. -/
structure UnicodeTables where
  isAlphabetic : Char → Bool
  isNumeric : Char → Bool
  toUppercase : Char → Text
  alphabetic_ascii : ∀ c, c.val < 128 → isAlphabetic c = c.isAlpha
  numeric_ascii : ∀ c, c.val < 128 → isNumeric c = c.isDigit
  uppercase_ascii : ∀ c, c.val < 128 → toUppercase c = [c.toUpper]

def UnicodeTables.isAlphanumeric (u : UnicodeTables) (c : Char) : Bool :=
  u.isAlphabetic c || u.isNumeric c

/-- Tables that know no letter outside ASCII; they agree with every Unicode version
on ASCII text. -/
def asciiTables : UnicodeTables where
  isAlphabetic := Char.isAlpha
  isNumeric := Char.isDigit
  toUppercase c := [c.toUpper]
  alphabetic_ascii _ _ := rfl
  numeric_ascii _ _ := rfl
  uppercase_ascii _ _ := rfl

/-- `char::is_whitespace`, the Unicode property White_Space. -/
def isWhitespace (c : Char) : Bool :=
  let n := c.toNat
  (9 ≤ n && n ≤ 13) || n == 32 || n == 0x85 || n == 0xa0 || n == 0x1680 ||
    (0x2000 ≤ n && n ≤ 0x200a) || n == 0x2028 || n == 0x2029 || n == 0x202f ||
    n == 0x205f || n == 0x3000

def lower (text : Text) : Text := text.map Char.toLower
def eqIgnoreAsciiCase (a b : Text) : Bool := lower a == lower b

/-- Length in bytes, `str::len`. -/
def len (text : Text) : Nat := Weighted.weight Char.utf8Size text

/-- `&text[start..stop]`. The source panics off a character boundary; the slices the
splitter takes are shown to lie on boundaries. -/
def slice (text : Text) (start stop : Nat) : Text := Weighted.slice Char.utf8Size text start stop

/-- `&text[..stop]` and `&text[start..]`. -/
def sliceTo (text : Text) (stop : Nat) : Text := Weighted.keep Char.utf8Size stop text
def sliceFrom (text : Text) (start : Nat) : Text := Weighted.skip Char.utf8Size start text

/-- `&text[start..stop]` with the panic as `none`. -/
def checkedSlice (text : Text) (start stop : Nat) : Option Text :=
  Weighted.checkedSlice Char.utf8Size text start stop

def isCharBoundary (text : Text) (offset : Nat) : Bool :=
  Weighted.boundary Char.utf8Size text offset

def trimEnd (text : Text) : Text := text.rdropWhile isWhitespace
def trimStart (text : Text) : Text := text.dropWhile isWhitespace
def trim (text : Text) : Text := trimEnd (trimStart text)
def startsWith (text start : Text) : Bool := start.isPrefixOf text

@[simp] theorem utf8Size_positive (c : Char) : 0 < c.utf8Size := c.utf8Size_pos

@[simp] theorem len_nil : len [] = 0 := rfl
@[simp] theorem len_cons (c : Char) (text : Text) : len (c :: text) = c.utf8Size + len text := by
  simp [len]
@[simp] theorem len_append (a b : Text) : len (a ++ b) = len a + len b := by simp [len]

theorem slice_middle (a b c : Text) : slice (a ++ b ++ c) (len a) (len (a ++ b)) = b :=
  Weighted.slice_middle utf8Size_positive a b c

theorem sliceTo_len (a b : Text) : sliceTo (a ++ b) (len a) = a :=
  Weighted.keep_weight utf8Size_positive a b

theorem sliceFrom_len (a b : Text) : sliceFrom (a ++ b) (len a) = b :=
  Weighted.skip_weight utf8Size_positive a b

theorem isCharBoundary_iff (text : Text) (offset : Nat) :
    isCharBoundary text offset = true ↔ ∃ a b, text = a ++ b ∧ len a = offset :=
  Weighted.boundary_iff text offset

theorem checkedSlice_middle (a b c : Text) : checkedSlice (a ++ b ++ c) (len a) (len (a ++ b)) = some b :=
  Weighted.checkedSlice_middle utf8Size_positive a b c

theorem trim_surrounded (blank : ∀ c ∈ before ++ after, isWhitespace c = true)
    (visible : ∀ c ∈ core, isWhitespace c = false) : trim (before ++ core ++ after) = core := by
  have front : ∀ c ∈ before, isWhitespace c = true := fun c member => blank c (mem_append_left _ member)
  have back : ∀ c ∈ after, isWhitespace c = true := fun c member => blank c (mem_append_right _ member)
  rw [trim,trimStart,trimEnd,append_assoc,dropWhile_append_of_pos front]
  cases core with
  | nil => rw [nil_append,dropWhile_eq_nil_iff.mpr back]; rfl
  | cons c core =>
    rw [cons_append,dropWhile_cons_of_neg (by simp [visible c]),← cons_append,List.rdropWhile,
      reverse_append,dropWhile_append_of_pos (by simpa using back)]
    have kept := rdropWhile_eq_self_iff (p := isWhitespace) (l := c :: core)
    exact kept.mpr (fun _ => by simp [visible _ (getLast_mem _)])

theorem trimEnd_split (text : Text) : ∃ blanks, (∀ c ∈ blanks, isWhitespace c = true) ∧ text = trimEnd text ++ blanks :=
  ⟨text.rtakeWhile isWhitespace,fun _ member => mem_rtakeWhile_imp member,rdropWhile_append_rtakeWhile.symm⟩

theorem trim_split (text : Text) : ∃ before after, (∀ c ∈ before ++ after, isWhitespace c = true) ∧
    text = before ++ trim text ++ after := by
  refine ⟨text.takeWhile isWhitespace,(trimStart text).rtakeWhile isWhitespace,?_,?_⟩
  · intro c member
    rcases mem_append.mp member with front | back
    · exact mem_takeWhile_imp front
    · exact mem_rtakeWhile_imp back
  · rw [append_assoc,trim,trimEnd,rdropWhile_append_rtakeWhile,trimStart,takeWhile_append_dropWhile]

theorem toLower_cases (c : Char) : c.toLower = c ∨ (65 ≤ c.toNat ∧ c.toNat ≤ 90) ∧ c.toLower.toNat = c.toNat + 32 := by
  by_cases upper : c.val ≥ 'A'.val ∧ c.val ≤ 'Z'.val
  · refine .inr ⟨⟨upper.1,upper.2⟩,?_⟩
    have shifted : c.toLower.toNat = (c.val + ('a'.val - 'A'.val)).toNat := by
      unfold Char.toLower
      rw [dif_pos upper]
      rfl
    have low : c.toNat ≤ 90 := upper.2
    rw [shifted,UInt32.toNat_add]
    change (c.toNat + 32) % 2 ^ 32 = _
    omega
  · exact .inl (dif_neg upper)

theorem toLower_toLower (c : Char) : c.toLower.toLower = c.toLower := by
  rcases toLower_cases c.toLower with same | ⟨upper,_⟩
  · exact same
  · rcases toLower_cases c with same | ⟨_,shifted⟩
    · rw [same,same]
    · omega

@[simp] theorem lower_lower (text : Text) : lower (lower text) = lower text := by
  rw [lower,lower,map_map]
  exact map_congr_left fun c _ => toLower_toLower c

@[simp] theorem lower_eqIgnoreAsciiCase (a b : Text) : eqIgnoreAsciiCase (lower a) b = eqIgnoreAsciiCase a b := by
  simp [eqIgnoreAsciiCase]

@[simp] theorem eqIgnoreAsciiCase_lower (a b : Text) : eqIgnoreAsciiCase a (lower b) = eqIgnoreAsciiCase a b := by
  simp [eqIgnoreAsciiCase]

theorem toLower_eq_iff {c d : Char} (plain : d.toNat < 65) : c.toLower = d ↔ c = d := by
  rcases toLower_cases c with same | ⟨upper,shifted⟩
  · rw [same]
  · constructor
    · rintro rfl
      omega
    · rintro rfl
      omega

theorem isAlpha_iff (c : Char) : c.isAlpha = true ↔ (65 ≤ c.toNat ∧ c.toNat ≤ 90) ∨ (97 ≤ c.toNat ∧ c.toNat ≤ 122) := by
  change (decide (c.val ≥ 'A'.val ∧ c.val ≤ 'Z'.val) || (decide (c.val ≥ 97) && decide (c.val ≤ 122))) = true ↔ _
  simp only [Bool.or_eq_true,Bool.and_eq_true,decide_eq_true_eq,ge_iff_le,UInt32.le_iff_toNat_le]
  exact Iff.rfl

theorem UnicodeTables.alphabetic_of_isAlpha (u : UnicodeTables) {c : Char} (letter : c.isAlpha = true) :
    u.isAlphabetic c = true := by
  have small : c.val < 128 := by
    rw [isAlpha_iff] at letter
    rw [UInt32.lt_iff_toNat_lt]
    change c.toNat < 128
    omega
  rw [u.alphabetic_ascii c small,letter]

theorem isWhitespace_toLower (c : Char) : isWhitespace c.toLower = isWhitespace c := by
  rcases toLower_cases c with same | ⟨upper,shifted⟩
  · rw [same]
  · have small : c.toNat < 128 ∧ 32 < c.toNat := by omega
    simp only [isWhitespace,shifted]
    rw [Bool.eq_iff_iff]
    simp
    omega

theorem trimStart_lower (text : Text) : trimStart (lower text) = lower (trimStart text) := by
  simp only [trimStart,lower,dropWhile_map]
  congr 2
  funext c
  exact isWhitespace_toLower c

theorem trimEnd_lower (text : Text) : trimEnd (lower text) = lower (trimEnd text) := by
  have front := trimStart_lower text.reverse
  simp only [trimStart,lower] at front
  simp only [trimEnd,lower,List.rdropWhile,← map_reverse,front]

theorem trim_lower (text : Text) : trim (lower text) = lower (trim text) := by
  simp only [trim,trimStart_lower,trimEnd_lower]

theorem trimStart_eq_cons_iff (visible : isWhitespace c = false) (text rest : Text) :
    trimStart text = c :: rest ↔ ∃ blank, (∀ d ∈ blank, isWhitespace d = true) ∧ text = blank ++ c :: rest := by
  constructor
  · intro trimmed
    exact ⟨text.takeWhile isWhitespace,fun _ member => mem_takeWhile_imp member,
      by rw [← trimmed,trimStart,takeWhile_append_dropWhile]⟩
  · rintro ⟨blank,spaces,rfl⟩
    rw [trimStart,dropWhile_append_of_pos spaces,dropWhile_cons_of_neg (by simp [visible])]

theorem trim_ne_nil (visible : isWhitespace c = false) (member : c ∈ text) : trim text ≠ [] := by
  intro empty
  obtain ⟨before,after,spaces,split⟩ := trim_split text
  rw [empty,append_nil] at split
  rw [split] at member
  rw [spaces c member] at visible
  cases visible

end Reldex
