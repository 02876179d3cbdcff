import Reldex.Number

/-! What `parse`, `fromDigits` and the integer conversions of `Number` accept, and that
the number they build is canonical and denotes their input. -/
namespace Reldex.Number
open List Nat
open Decimal

section
variable {negative : Bool} (p : α → Bool) (l : List α)

theorem drop_leading : l.drop (l.takeWhile p).length = l.dropWhile p := by
  have split := takeWhile_append_dropWhile (p := p) (l := l)
  have cut : (l.takeWhile p ++ l.dropWhile p).drop (l.takeWhile p).length = l.dropWhile p := drop_left
  rwa [split] at cut

theorem take_trailing : l.take (l.length - (l.reverse.takeWhile p).length) = l.rdropWhile p := by
  have split := rdropWhile_append_rtakeWhile (p := p) (l := l)
  have length := congrArg List.length split
  simp only [length_append,rtakeWhile,length_reverse] at length
  have cut : (l.rdropWhile p ++ l.rtakeWhile p).take (l.rdropWhile p).length = l.rdropWhile p := take_left
  rw [split] at cut
  rw [← length,Nat.add_sub_cancel]
  exact cut

theorem checkExponent_eq_ok : checkExponent e = .ok e' ↔ e' = e ∧ minExponent ≤ e ∧ e ≤ maxExponent := by
  unfold checkExponent
  split
  · rename_i range; simp [range,eq_comm]
  · rename_i range; simp [range]

def finish (negative : Bool) (significant : List Nat) (exponent : Int) : Except NumberError Number :=
  if maxSignificantDigits < significant.length then .error .tooManyDigits
  else if significant = [] then .ok zero
  else (checkExponent exponent).map fun e => ⟨pad significant,narrowU8 significant.length,e,negative⟩

theorem finish_canonical (normal : Normal ds) (built : finish negative ds e = .ok n) :
    n.Canonical ∧ n.value = signed negative (Decimal.value ds e) := by
  unfold finish at built
  split at built
  · cases built
  · split at built
    · rename_i none
      cases built
      simp [none,zero_canonical,signed]
    · rename_i width present
      cases checked : checkExponent e with
      | error _ => simp [checked,Except.map] at built
      | ok e' =>
        obtain ⟨rfl,range⟩ := checkExponent_eq_ok.mp checked
        simp only [checked,Except.map,Except.ok.injEq] at built
        subst built
        exact pad_canonical normal present (by omega) range negative

def Representable (q : ℚ) : Prop := ∃ n : Number, n.Canonical ∧ n.value = q

theorem representable_iff (normal : Normal ds) (present : ds ≠ []) (e : Int) (negative : Bool) :
    Representable (signed negative (Decimal.value ds e)) ↔
      ds.length ≤ maxSignificantDigits ∧ minExponent ≤ e ∧ e ≤ maxExponent := by
  constructor
  · rintro ⟨n,canonical,same⟩
    have positive := normal.value_pos present e
    obtain ⟨-,magnitude⟩ := signed_injective _ _ (value_nonneg ..) (value_nonneg ..)
      canonical.negative_magnitude (fun _ => positive.ne') same
    have some : n.run ≠ [] := by
      intro none
      rw [none,value_nil] at magnitude
      exact positive.ne magnitude
    obtain ⟨run,exponent⟩ := canonical.normal.unique normal some present magnitude
    rw [← run,← exponent,canonical.length]
    exact ⟨canonical.width,canonical.exponent⟩
  · rintro ⟨width,range⟩
    obtain ⟨canonical,same⟩ := pad_canonical normal present width range negative
    exact ⟨_,canonical,same⟩

/-- With the exact exponent a constructor succeeds on exactly the representable values. -/
theorem finish_succeeds (normal : Normal ds) :
    (∃ n, finish negative ds e = .ok n) ↔ Representable (signed negative (Decimal.value ds e)) := by
  by_cases none : ds = []
  · subst none
    simp only [value_nil]
    constructor
    · intro _; exact ⟨zero,zero_canonical,by simp [signed]⟩
    · intro _; exact ⟨zero,by simp [finish]⟩
  · rw [representable_iff normal none]
    unfold finish
    split
    · simp; omega
    · rename_i width
      unfold checkExponent
      split
      · rename_i range; simp [Except.map,range]; omega
      · rename_i range; simp [Except.map]; omega

theorem fromDigits_eq (small : ∀ d ∈ ds, d < 10) : fromDigits negative ds e =
      finish negative (significant ds) (wrapI32 (e - saturateI32 (leading ds))) := by
  have digits : ds.any (9 < ·) = false := by
    rw [any_eq_false]
    intro d member
    have := small d member
    simp; omega
  have run : (ds.drop (leading ds)).rdropWhile (· == 0) = significant ds := by
    rw [leading,drop_leading,significant]
  have zeros : (ds.takeWhile (· == 0)).length = leading ds := rfl
  unfold fromDigits finish
  simp only [digits,Bool.false_eq_true,if_false,take_trailing,zeros,run,List.isEmpty_iff]
  by_cases none : significant ds = []
  · simp [none]
  · simp only [none,if_false]
    split
    · rfl
    · cases checkExponent (wrapI32 (e - saturateI32 (leading ds))) <;> rfl

theorem fromDigits_rejects (large : ¬ ∀ d ∈ ds, d < 10) : fromDigits negative ds e = .error .invalidDigit := by
  have digits : ds.any (9 < ·) = true := by
    push Not at large
    obtain ⟨d,member,ge⟩ := large
    exact any_eq_true.mpr ⟨d,member,by simp; omega⟩
  simp [fromDigits,digits]

theorem wrap_leading (lower : -2^15 ≤ e) (upper : e < 2^15) (zeros : Nat) :
    checkExponent (wrapI32 (e - saturateI32 zeros)) = checkExponent (e - zeros) := by
  unfold checkExponent wrapI32 saturateI32 minExponent maxExponent
  split <;> split <;> split
  all_goals first
    | (congr 1; omega)
    | omega
    | rfl

theorem fromDigits_finish (small : ∀ d ∈ ds, d < 10) (lower : -2^15 ≤ e) (upper : e < 2^15) :
    fromDigits negative ds e = finish negative (significant ds) (e - leading ds) := by
  rw [fromDigits_eq small]
  unfold finish
  rw [wrap_leading lower upper]

section

theorem reversedDigits_eq (m : Nat) : reversedDigits m = Nat.digits 10 m := by
  induction m using Nat.strong_induction_on with
  | _ m ih =>
    rw [reversedDigits]
    split
    · rename_i positive
      rw [ih _ (div_lt_self positive (by decide)),digits_def' (by decide) positive]
    · rename_i none
      rw [show m = 0 by omega]
      rfl

theorem coefficient_digits (m : Nat) : coefficient (Nat.digits 10 m).reverse = m := by
  simp [coefficient,Nat.ofDigits_digits]

theorem digits_small (m : Nat) : ∀ d ∈ (Nat.digits 10 m).reverse, d < 10 := by
  intro d member
  exact Nat.digits_lt_base (by decide) (mem_reverse.mp member)

theorem digits_head (positive : 0 < m) : (Nat.digits 10 m).reverse.head? ≠ some 0 := by
  have last := getLast_digit_ne_zero 10 (show m ≠ 0 by omega)
  have present : Nat.digits 10 m ≠ [] := Nat.digits_ne_nil_iff_ne_zero.mpr (by omega)
  rw [head?_reverse,getLast?_eq_some_getLast present]
  simpa using last

theorem significant_of_head (first : ds.head? ≠ some 0) : significant ds = ds.rdropWhile (· == 0) ∧ leading ds = 0 := by
  cases ds with
  | nil => exact ⟨rfl,rfl⟩
  | cons d ds =>
    have nonzero : d ≠ 0 := by simpa using first
    constructor
    · simp [significant,nonzero]
    · simp [leading,nonzero]

theorem value_digits (m : Nat) : Decimal.value (Nat.digits 10 m).reverse (Nat.digits 10 m).length = m := by
  simp [Decimal.value,coefficient_digits]

variable (bound : m < 2^128)
include bound

theorem digits_length : (Nat.digits 10 m).length ≤ 39 := by
  rw [digits_length_le_iff (by decide)]
  omega

theorem fromMagnitude_eq (positive : 0 < m) : fromMagnitude m negative =
      finish negative (significant (Nat.digits 10 m).reverse) (Nat.digits 10 m).length := by
  have head := (significant_of_head (digits_head positive)).1
  have length := digits_length bound
  have width : (Nat.digits 10 m).length - ((Nat.digits 10 m).takeWhile (· == 0)).length =
      (significant (Nat.digits 10 m).reverse).length := by
    rw [head,rdropWhile_reverse,length_reverse,← drop_leading,length_drop]
  have run : ((Nat.digits 10 m).drop ((Nat.digits 10 m).takeWhile (· == 0)).length).reverse =
      significant (Nat.digits 10 m).reverse := by
    rw [head,rdropWhile_reverse,drop_leading]
  have present : significant (Nat.digits 10 m).reverse ≠ [] := by
    intro none
    have same := value_significant (Nat.digits 10 m).reverse (Nat.digits 10 m).length
    rw [none,value_nil,value_digits] at same
    norm_cast at same
    omega
  have short : ¬ maxSignificantDigits < (significant (Nat.digits 10 m).reverse).length := by
    rw [← width]; unfold maxSignificantDigits; omega
  unfold fromMagnitude finish
  simp only [reversedDigits_eq,width,run]
  rw [if_neg (by omega),if_neg short,if_neg short,if_neg present]
  have range : checkExponent ((Nat.digits 10 m).length : Int) = .ok ((Nat.digits 10 m).length : Int) := by
    rw [checkExponent_eq_ok]
    unfold minExponent maxExponent
    omega
  rw [range]
  rfl

theorem fromMagnitude_exact (sign : negative = true → 0 < m) :
    ∃ n, fromMagnitude m negative = .ok n ∧ n.Canonical ∧ n.value = signed negative m := by
  by_cases none : m = 0
  · subst none
    exact ⟨zero,rfl,zero_canonical,by simp [signed]⟩
  · have positive : 0 < m := by omega
    have normal := significant_normal (digits_small m)
    have value := value_significant (Nat.digits 10 m).reverse (Nat.digits 10 m).length
    rw [(significant_of_head (digits_head positive)).2,value_digits,cast_zero,sub_zero] at value
    have length := digits_length bound
    obtain ⟨n,built⟩ : ∃ n, fromMagnitude m negative = .ok n := by
      rw [fromMagnitude_eq bound positive]
      unfold finish
      split
      · rename_i long
        have front := congrArg List.length (significant_split (Nat.digits 10 m).reverse).choose_spec
        simp only [length_append,length_reverse] at front
        unfold maxSignificantDigits at long
        omega
      · split
        · exact ⟨_,rfl⟩
        · rw [checkExponent_eq_ok.mpr ⟨rfl,by unfold minExponent; omega,by unfold maxExponent; omega⟩]
          exact ⟨_,rfl⟩
    refine ⟨n,built,?_⟩
    rw [fromMagnitude_eq bound positive] at built
    obtain ⟨canonical,same⟩ := finish_canonical normal built
    exact ⟨canonical,by rw [same,value]⟩

end

theorem wrap_succ (n : Nat) : wrapI32 (wrapI32 n + 1) = wrapI32 (n + 1 : Nat) := by
  unfold wrapI32
  push_cast
  omega

/-- The buffer after the digits `ds`: zeros in front are counted, the next forty digits
are stored, and what follows them was zero. -/
structure Loaded (ds : List Nat) (s : DigitBuffer) : Prop where
  zeros : s.leadingZeros = wrapI32 (leading ds)
  started : s.started = !(ds.dropWhile (· == 0)).isEmpty
  buf : s.buf = pad ((ds.dropWhile (· == 0)).take maxSignificantDigits)
  len : s.len = ((ds.dropWhile (· == 0)).take maxSignificantDigits).length
  rest : ∀ d ∈ (ds.dropWhile (· == 0)).drop maxSignificantDigits, d = 0

theorem loaded_nil : Loaded [] DigitBuffer.empty := ⟨rfl,rfl,rfl,rfl,by simp⟩

theorem pad_set {run : List Nat} (short : run.length < maxSignificantDigits) (d : Nat) :
    (pad run).set run.length d = pad (run ++ [d]) := by
  obtain ⟨k,room⟩ : ∃ k, maxSignificantDigits - run.length = k + 1 := ⟨maxSignificantDigits - run.length - 1,by omega⟩
  have less : maxSignificantDigits - (run ++ [d]).length = k := by simp; omega
  rw [pad,pad,room,less,set_append_right _ _ (by omega)]
  simp [replicate_succ]

theorem strip_append (ds : List Nat) (kept : ds.dropWhile (· == 0) ≠ [] ∨ d ≠ 0) :
    (ds ++ [d]).dropWhile (· == 0) = ds.dropWhile (· == 0) ++ [d] ∧ leading (ds ++ [d]) = leading ds := by
  rw [dropWhile_append,leading,leading,takeWhile_append]
  by_cases none : ds.dropWhile (· == 0) = []
  · have nonzero : d ≠ 0 := kept.resolve_left (not_not_intro none)
    have all := dropWhile_eq_nil_iff.mp none
    rw [none,takeWhile_eq_self_iff.mpr all]
    simp [nonzero]
  · have part : (ds.takeWhile (· == 0)).length ≠ ds.length := by
      intro whole
      have split := congrArg List.length (takeWhile_append_dropWhile (p := (· == 0)) (l := ds))
      rw [length_append] at split
      exact none (length_eq_zero_iff.mp (by omega))
    simp [part]
    intro empty
    exact absurd (dropWhile_eq_nil_iff.mpr (by simpa using empty)) none

theorem strip_zeros (ds : List Nat) (none : ds.dropWhile (· == 0) = []) :
    (ds ++ [0]).dropWhile (· == 0) = [] ∧ leading (ds ++ [0]) = leading ds + 1 := by
  have all := dropWhile_eq_nil_iff.mp none
  have whole : ∀ d ∈ ds ++ [0], (d == 0) = true := by
    intro d member
    rcases mem_append.mp member with inside | last
    · exact all d inside
    · simp_all
  constructor
  · exact dropWhile_eq_nil_iff.mpr whole
  · rw [leading,leading,takeWhile_eq_self_iff.mpr whole,takeWhile_eq_self_iff.mpr all]
    simp

theorem push_loaded (loaded : Loaded ds s) (pushed : s.push d = .ok t) : Loaded (ds ++ [d]) t := by
  unfold DigitBuffer.push at pushed
  split at pushed
  · rename_i zero
    simp only [Bool.and_eq_true,Bool.not_eq_true',beq_iff_eq,loaded.started,Bool.not_eq_false',
      List.isEmpty_iff] at zero
    obtain ⟨none,rfl⟩ := zero
    obtain ⟨strip,count⟩ := strip_zeros ds none
    cases pushed
    constructor
    · rw [count,← wrap_succ,loaded.zeros]
    · rw [strip,loaded.started,none]
    · rw [strip,loaded.buf,none]
    · rw [strip,loaded.len,none]
    · rw [strip]; simp
  · rename_i stored
    have kept : ds.dropWhile (· == 0) ≠ [] ∨ d ≠ 0 := by
      by_contra both
      push Not at both
      exact stored (by simp [loaded.started,both.1,both.2])
    obtain ⟨strip,count⟩ := strip_append ds kept
    have len := loaded.len
    rw [length_take] at len
    split at pushed
    · rename_i room
      have short : (ds.dropWhile (· == 0)).length < maxSignificantDigits := by omega
      have whole := take_of_length_le short.le
      have whole' : ((ds ++ [d]).dropWhile (· == 0)).take maxSignificantDigits = ds.dropWhile (· == 0) ++ [d] := by
        rw [strip]
        exact take_of_length_le (by simp; omega)
      cases pushed
      constructor
      · rw [count]; exact loaded.zeros
      · rw [strip]; simp
      · rw [whole',← pad_set short,loaded.buf,whole,loaded.len,whole]
      · rw [whole',loaded.len,whole]; simp
      · rw [strip,drop_of_length_le (by simp; omega)]; simp
    · rename_i full
      have long : maxSignificantDigits ≤ (ds.dropWhile (· == 0)).length := by omega
      have whole : ((ds ++ [d]).dropWhile (· == 0)).take maxSignificantDigits =
          (ds.dropWhile (· == 0)).take maxSignificantDigits := by
        rw [strip,take_append_of_le_length long]
      split at pushed
      · cases pushed
      · rename_i zero
        cases pushed
        constructor
        · rw [count]; exact loaded.zeros
        · rw [strip]; simp
        · rw [whole]; exact loaded.buf
        · rw [whole]; exact loaded.len
        · rw [strip,drop_append_of_le_length long]
          intro x member
          rcases mem_append.mp member with inside | last
          · exact loaded.rest x inside
          · simp_all

theorem rdropWhile_keeps (front back : List Nat) (nonzero : d ≠ 0) :
    (front ++ d :: back).rdropWhile (· == 0) = front ++ d :: back.rdropWhile (· == 0) := by
  induction back using reverseRecOn with
  | nil => rw [rdropWhile_concat_neg _ _ _ (by simpa using nonzero)]; simp
  | append_singleton back x ih =>
    rw [← cons_append,← append_assoc,rdropWhile_concat]
    split
    · rename_i zero
      rw [ih,rdropWhile_concat,if_pos zero]
    · rename_i some
      rw [rdropWhile_concat,if_neg some]
      simp

theorem push_refuses (loaded : Loaded ds s) (refused : s.push d = .error e) (later : List Nat) :
    e = .tooManyDigits ∧ maxSignificantDigits < (significant (ds ++ d :: later)).length := by
  unfold DigitBuffer.push at refused
  split at refused
  · cases refused
  · split at refused
    · cases refused
    · rename_i full
      split at refused
      · rename_i nonzero
        have nonzero : d ≠ 0 := by simpa using nonzero
        have len := loaded.len
        rw [length_take] at len
        have present : ds.dropWhile (· == 0) ≠ [] := by
          intro none
          rw [none] at len
          unfold maxSignificantDigits at *
          simp at len
          omega
        have strip : (ds ++ d :: later).dropWhile (· == 0) = ds.dropWhile (· == 0) ++ d :: later := by
          rw [dropWhile_append,if_neg (by simpa using present)]
        refine ⟨by cases refused; rfl,?_⟩
        rw [significant,strip,rdropWhile_keeps _ _ nonzero,length_append,length_cons]
        omega
      · cases refused

theorem load_digits (loaded : Loaded before s) (ds : List Nat) :
    (∃ t, ds.foldlM DigitBuffer.push s = .ok t ∧ Loaded (before ++ ds) t) ∨
      (ds.foldlM DigitBuffer.push s = .error .tooManyDigits ∧
        maxSignificantDigits < (significant (before ++ ds)).length) := by
  induction ds generalizing before s with
  | nil => exact .inl ⟨s,rfl,by simpa using loaded⟩
  | cons d ds ih =>
    cases pushed : s.push d with
    | error e =>
      obtain ⟨rfl,long⟩ := push_refuses loaded pushed ds
      exact .inr ⟨by rw [foldlM_cons,pushed]; rfl,long⟩
    | ok t =>
      have next := ih (push_loaded loaded pushed)
      rw [append_assoc] at next
      rcases next with ⟨u,run,result⟩ | ⟨run,long⟩
      · exact .inl ⟨u,by rw [foldlM_cons,pushed]; exact run,result⟩
      · exact .inr ⟨by rw [foldlM_cons,pushed]; exact run,long⟩

theorem trimLen_le (buf : List Nat) (len : Nat) : trimLen buf len ≤ len := by
  induction len with
  | zero => exact le_rfl
  | succ len ih =>
    rw [trimLen]
    split
    · omega
    · exact le_rfl

theorem take_trimLen (buf : List Nat) {len : Nat} (fits : len ≤ buf.length) :
    buf.take (trimLen buf len) = (buf.take len).rdropWhile (· == 0) := by
  induction len with
  | zero => simp [trimLen]
  | succ len ih =>
    have inside : len < buf.length := by omega
    rw [trimLen,take_succ_eq_append_getElem inside,rdropWhile_concat,getElem?_eq_getElem inside]
    simp only [beq_iff_eq,Option.some.injEq]
    split
    · exact ih (by omega)
    · rw [← take_succ_eq_append_getElem inside]

theorem pad_zeros (run : List Nat) (fits : (run ++ replicate k 0).length ≤ maxSignificantDigits) :
    pad (run ++ replicate k 0) = pad run := by
  rw [pad,pad,append_assoc,replicate_append_replicate]
  congr 2
  simp at fits ⊢
  omega

theorem Loaded.significant (loaded : Loaded ds s) :
    (Decimal.significant ds).length ≤ maxSignificantDigits ∧ s.buf = pad (Decimal.significant ds) ∧
      trimLen s.buf s.len = (Decimal.significant ds).length := by
  set r := ds.dropWhile (· == 0) with stripped
  have zeros : r.drop maxSignificantDigits = replicate (r.drop maxSignificantDigits).length 0 :=
    eq_replicate_of_mem loaded.rest
  have behind : (r.take maxSignificantDigits).rdropWhile (· == 0) = Decimal.significant ds := by
    rw [Decimal.significant,← stripped]
    conv_rhs => rw [← take_append_drop maxSignificantDigits r,zeros]
    generalize (r.drop maxSignificantDigits).length = k
    induction k with
    | zero => simp
    | succ k ih =>
      rw [replicate_succ',← append_assoc,rdropWhile_concat_pos _ _ _ (by simp)]
      exact ih
  obtain ⟨k,split⟩ := zeros_behind (r.take maxSignificantDigits)
  rw [behind] at split
  have short : (Decimal.significant ds ++ replicate k 0).length ≤ maxSignificantDigits := by
    rw [← split]; simp
  have whole : s.buf.take s.len = r.take maxSignificantDigits := by
    rw [loaded.buf,loaded.len,← stripped,pad,take_left]
  have fits : s.len ≤ s.buf.length := by
    rw [loaded.buf,loaded.len,← stripped,pad]; simp
  refine ⟨?_,?_,?_⟩
  · simp at short; omega
  · rw [loaded.buf,← stripped,split,pad_zeros _ short]
  · have run := take_trimLen s.buf fits
    rw [whole,behind] at run
    rw [← run,length_take,min_eq_left ((trimLen_le ..).trans fits)]

def Scanned.mantissa (s : Scanned) : List Nat := (s.whole ++ s.fraction).map digitValue

/-- The exponent as the source computes it, and as it should be. -/
def Scanned.wrapped (s : Scanned) : Int :=
  wrapI32 (wrapI32 (saturateI32 s.whole.length - wrapI32 (leading s.mantissa)) + s.exponentPart)

def Scanned.exact (s : Scanned) : Int := s.whole.length - leading s.mantissa + s.exponentPart

def Scanned.value (s : Scanned) : ℚ :=
  signed s.negative (Decimal.value s.mantissa (s.whole.length + s.exponentPart))

theorem store_eq (s : Scanned) : store s = finish s.negative (significant s.mantissa) s.wrapped := by
  unfold store finish
  rcases load_digits loaded_nil s.mantissa with ⟨t,run,loaded⟩ | ⟨run,long⟩
  · rw [nil_append] at loaded
    obtain ⟨short,buf,len⟩ := loaded.significant
    rw [if_neg (by omega)]
    change (s.mantissa.foldlM DigitBuffer.push DigitBuffer.empty >>= _) = _
    rw [run]
    change (if trimLen t.buf t.len = 0 then _ else _) = _
    rw [len]
    by_cases none : significant s.mantissa = []
    · rw [if_pos (by rw [none]; rfl),if_pos none]
      rfl
    · rw [if_neg (fun empty => none (length_eq_zero_iff.mp empty)),if_neg none,buf,loaded.zeros]
      change (checkExponent s.wrapped >>= _) = _
      cases checkExponent s.wrapped <;> rfl
  · rw [nil_append] at long
    rw [if_pos long]
    change (s.mantissa.foldlM DigitBuffer.push DigitBuffer.empty >>= _) = _
    rw [run]
    rfl

theorem isDigit_range {c : Char} (digit : c.isDigit = true) : 48 ≤ c.toNat ∧ c.toNat ≤ 57 := by
  simpa [Char.isDigit,UInt32.le_iff_toNat_le] using digit

theorem digitValue_lt (digit : c.isDigit = true) : digitValue c < 10 := by
  have range := isDigit_range digit
  have zero : '0'.toNat = 48 := by decide
  unfold digitValue
  omega

end

/-! The literals `parse` is documented to accept. -/

inductive Sign where
  | none | plus | minus
  deriving DecidableEq, Repr

def Sign.spell : Sign → Text
  | .none => []
  | .plus => ['+']
  | .minus => ['-']

def Sign.negative (sign : Sign) : Bool := sign == .minus

/-- `e [sign] digits`, with one to six digits. -/
structure ExponentLiteral where
  mark : Char
  sign : Sign
  digits : Text
  marked : mark = 'e' ∨ mark = 'E'
  decimal : ∀ c ∈ digits, c.isDigit = true
  present : digits ≠ []
  short : digits.length ≤ 6

def ExponentLiteral.spell (e : ExponentLiteral) : Text := e.mark :: e.sign.spell ++ e.digits

def ExponentLiteral.value (e : ExponentLiteral) : Int :=
  if e.sign.negative then -(coefficient (e.digits.map digitValue)) else coefficient (e.digits.map digitValue)

/-- `[sign] digits [. digits] [exponent]`, with a digit before or after the point. -/
structure Literal where
  sign : Sign
  whole : Text
  fraction : Option Text
  exponent : Option ExponentLiteral
  wholeDigits : ∀ c ∈ whole, c.isDigit = true
  fractionDigits : ∀ c ∈ fraction.getD [], c.isDigit = true
  present : whole ++ fraction.getD [] ≠ []

namespace Literal

def spell (l : Literal) : Text :=
  l.sign.spell ++ (l.whole ++ (l.fraction.elim [] ('.' :: ·) ++ l.exponent.elim [] ExponentLiteral.spell))

def mantissa (l : Literal) : List Nat := (l.whole ++ l.fraction.getD []).map digitValue
def exponentValue (l : Literal) : Int := l.exponent.elim 0 ExponentLiteral.value

def value (l : Literal) : ℚ :=
  signed l.sign.negative (Decimal.value l.mantissa l.whole.length * 10 ^ l.exponentValue)

def scanned (l : Literal) : Scanned :=
  ⟨l.sign.negative,l.whole,l.fraction.getD [],l.exponentValue⟩

variable (l : Literal)

theorem scanned_value : l.scanned.value = l.value := by
  have shift : Decimal.value l.mantissa (l.whole.length + l.exponentValue) =
      Decimal.value l.mantissa l.whole.length * 10 ^ l.exponentValue := by
    rw [Decimal.value,Decimal.value,mul_assoc,← zpow_add₀ (by norm_num)]
    congr 2
    ring
  rw [value,← shift]
  rfl

theorem digit_not_sign (digit : c.isDigit = true) : c ≠ '-' ∧ c ≠ '+' ∧ c ≠ '.' ∧ c ≠ 'e' ∧ c ≠ 'E' := by
  refine ⟨?_,?_,?_,?_,?_⟩ <;> rintro rfl <;> exact absurd digit (by decide)

theorem readSign_spell (sign : Sign) (rest : Text) (unsigned : rest.head? ≠ some '-' ∧ rest.head? ≠ some '+') :
    readSign (sign.spell ++ rest) = (sign.negative,rest) := by
  cases sign with
  | none =>
    rw [Sign.spell,nil_append]
    unfold readSign
    split
    · simp at unsigned
    · simp at unsigned
    · rfl
  | plus => rfl
  | minus => rfl

variable (bytes : Text)

theorem readSign_inverse : ∃ sign : Sign, bytes = sign.spell ++ (readSign bytes).2 ∧
    sign.negative = (readSign bytes).1 := by
  unfold readSign
  split
  · exact ⟨.minus,rfl,rfl⟩
  · exact ⟨.plus,rfl,rfl⟩
  · exact ⟨.none,rfl,rfl⟩

theorem takeWhile_digits {digits rest : Text} (decimal : ∀ c ∈ digits, c.isDigit = true)
    (stop : ∀ c ∈ rest.head?, c.isDigit = false) :
    (digits ++ rest).takeWhile Char.isDigit = digits ∧ (digits ++ rest).dropWhile Char.isDigit = rest := by
  rw [takeWhile_append_of_pos decimal,dropWhile_append_of_pos decimal]
  cases rest with
  | nil => simp
  | cons c rest =>
    have stops : c.isDigit = false := stop c rfl
    simp [stops]

theorem readExponent_cons (mark : Char) (rest : Text) : readExponent (mark :: rest) = if mark == 'e' || mark == 'E' then
      let digits := (readSign rest).2.takeWhile Char.isDigit
      if digits.isEmpty || 6 < digits.length then .error .invalidSyntax
      else .ok (if (readSign rest).1 then -(coefficient (digits.map digitValue) : Int)
        else coefficient (digits.map digitValue),(readSign rest).2.dropWhile Char.isDigit)
    else .ok (0,mark :: rest) := by
  simp only [readExponent,foldl_coefficient,zero_mul,zero_add]

variable (e : Option ExponentLiteral)

theorem readExponent_spell :
    readExponent (e.elim [] ExponentLiteral.spell) = .ok (e.elim 0 ExponentLiteral.value,[]) := by
  cases e with
  | none => rfl
  | some e =>
    obtain ⟨first,others,digits⟩ := exists_cons_of_ne_nil e.present
    have unsigned : e.digits.head? ≠ some '-' ∧ e.digits.head? ≠ some '+' := by
      have := digit_not_sign (e.decimal first (by simp [digits]))
      rw [digits]
      simp [this]
    have read := readSign_spell e.sign e.digits unsigned
    have run := takeWhile_digits e.decimal (show ∀ c ∈ ([] : Text).head?, _ by simp)
    rw [append_nil] at run
    have marked : (e.mark == 'e' || e.mark == 'E') = true := by
      rcases e.marked with mark | mark <;> simp [mark]
    have size : ¬ ((e.digits.isEmpty || decide (6 < e.digits.length)) = true) := by
      have := e.short
      simp [e.present]
      omega
    rw [Option.elim_some,ExponentLiteral.spell,cons_append,readExponent_cons,if_pos marked]
    simp only [read,run.1,run.2,if_neg size]
    rfl

theorem readExponent_inverse (read : readExponent bytes = .ok (part,[])) :
    ∃ e : Option ExponentLiteral, bytes = e.elim [] ExponentLiteral.spell ∧ part = e.elim 0 ExponentLiteral.value := by
  cases bytes with
  | nil => cases read; exact ⟨none,rfl,rfl⟩
  | cons mark rest =>
    rw [readExponent_cons] at read
    split at read
    · rename_i marked
      obtain ⟨sign,whole,negative⟩ := readSign_inverse rest
      by_cases size : (((readSign rest).2.takeWhile Char.isDigit).isEmpty ||
          decide (6 < ((readSign rest).2.takeWhile Char.isDigit).length)) = true
      · simp only [if_pos size,reduceCtorEq] at read
      · simp only [if_neg size] at read
        simp only [Bool.or_eq_true,List.isEmpty_iff,decide_eq_true_eq,not_or,not_lt] at size
        simp only [Except.ok.injEq,Prod.mk.injEq] at read
        obtain ⟨value,none⟩ := read
        have all := takeWhile_append_dropWhile (p := Char.isDigit) (l := (readSign rest).2)
        rw [none,append_nil] at all
        refine ⟨some ⟨mark,sign,(readSign rest).2.takeWhile Char.isDigit,by simpa using marked,
          fun c member => List.mem_takeWhile_imp member,size.1,size.2⟩,?_,?_⟩
        · change mark :: rest = mark :: sign.spell ++ (readSign rest).2.takeWhile Char.isDigit
          rw [all,cons_append,← whole]
        · rw [Option.elim_some,ExponentLiteral.value,negative]
          exact value.symm
    · simp at read

theorem readFraction_spell (fraction : Option Text) (decimal : ∀ c ∈ fraction.getD [], c.isDigit = true)
    (rest : Text) (stop : ∀ c ∈ rest.head?, c.isDigit = false ∧ c ≠ '.') :
    readFraction (fraction.elim [] ('.' :: ·) ++ rest) = (fraction.getD [],rest) := by
  cases fraction with
  | none =>
    rw [Option.elim_none,nil_append,Option.getD_none]
    unfold readFraction
    split
    · exact absurd rfl (stop _ rfl).2
    · rfl
  | some digits =>
    have run := takeWhile_digits decimal (fun c head => (stop c head).1)
    rw [Option.getD_some] at run ⊢
    rw [Option.elim_some,cons_append,readFraction,run.1,run.2]

theorem readFraction_inverse : ∃ fraction : Option Text,
    bytes = fraction.elim [] ('.' :: ·) ++ (readFraction bytes).2 ∧ fraction.getD [] = (readFraction bytes).1 ∧
      ∀ c ∈ fraction.getD [], c.isDigit = true := by
  unfold readFraction
  split
  · rename_i rest
    refine ⟨some (rest.takeWhile Char.isDigit),?_,rfl,fun c member => mem_takeWhile_imp member⟩
    simp
  · exact ⟨none,rfl,rfl,by simp⟩

theorem exponent_stop : ∀ c ∈ (e.elim [] ExponentLiteral.spell).head?, c.isDigit = false ∧ c ≠ '.' := by
  intro c head
  cases e with
  | none => simp at head
  | some e =>
    simp only [Option.elim_some,ExponentLiteral.spell,cons_append,head?_cons,Option.mem_some_iff] at head
    subst head
    rcases e.marked with mark | mark <;> rw [mark] <;> decide

theorem fraction_stop : ∀ c ∈
    (l.fraction.elim [] ('.' :: ·) ++ l.exponent.elim [] ExponentLiteral.spell).head?, c.isDigit = false := by
  intro c head
  cases point : l.fraction with
  | none =>
    rw [point,Option.elim_none,nil_append] at head
    exact (exponent_stop l.exponent c head).1
  | some digits =>
    simp only [point,Option.elim_some,cons_append,head?_cons,Option.mem_some_iff] at head
    subst head
    decide

theorem unsigned_head (c : Char)
    (head : c ∈ (l.whole ++ (l.fraction.elim [] ('.' :: ·) ++ l.exponent.elim [] ExponentLiteral.spell)).head?) :
    c ≠ '-' ∧ c ≠ '+' := by
  cases whole : l.whole with
  | cons d rest =>
    simp only [whole,cons_append,head?_cons,Option.mem_some_iff] at head
    subst head
    have apart := digit_not_sign (l.wholeDigits d (by simp [whole]))
    exact ⟨apart.1,apart.2.1⟩
  | nil =>
    have present := l.present
    cases point : l.fraction with
    | none => simp [whole,point] at present
    | some digits =>
      simp only [whole,point,nil_append,Option.elim_some,cons_append,head?_cons,Option.mem_some_iff] at head
      subst head
      decide

theorem scan_spell : scan l.spell = .ok l.scanned := by
  set tail := l.fraction.elim [] ('.' :: ·) ++ l.exponent.elim [] ExponentLiteral.spell with tailed
  have sign : readSign l.spell = (l.sign.negative,l.whole ++ tail) := by
    apply readSign_spell
    constructor <;> intro head
    · exact absurd rfl (unsigned_head l _ head).1
    · exact absurd rfl (unsigned_head l _ head).2
  have whole := takeWhile_digits l.wholeDigits (fraction_stop l)
  have fraction := readFraction_spell l.fraction l.fractionDigits _ (exponent_stop l.exponent)
  rw [← tailed] at whole fraction
  have some : ¬ l.spell.isEmpty = true := by
    have present := l.present
    simp only [spell,List.isEmpty_iff,List.append_eq_nil_iff,not_and]
    intro _ whole
    cases point : l.fraction with
    | none => simp [whole,point] at present
    | some digits => simp
  have mantissa : ¬ (l.whole.isEmpty && (l.fraction.getD []).isEmpty) = true := by
    have present := l.present
    simpa [append_eq_nil_iff] using present
  unfold scan
  simp only [if_neg some,sign,whole.1,whole.2,fraction,if_neg mantissa,readExponent_spell]
  rfl

theorem scan_inverse (found : scan bytes = .ok s) : ∃ l : Literal, l.spell = bytes ∧ l.scanned = s := by
  obtain ⟨sign,signed,negative⟩ := readSign_inverse bytes
  set rest := (readSign bytes).2 with rested
  have split := takeWhile_append_dropWhile (p := Char.isDigit) (l := rest)
  obtain ⟨fraction,pointed,same,decimal⟩ := readFraction_inverse (rest.dropWhile Char.isDigit)
  change (if bytes.isEmpty then _ else if (rest.takeWhile Char.isDigit).isEmpty &&
    (readFraction (rest.dropWhile Char.isDigit)).1.isEmpty then _ else
      readExponent (readFraction (rest.dropWhile Char.isDigit)).2 >>= _) = _ at found
  split at found
  · cases found
  · split at found
    · cases found
    · rename_i mantissa
      cases read : readExponent (readFraction (rest.dropWhile Char.isDigit)).2 with
      | error _ => rw [read] at found; cases found
      | ok result =>
        obtain ⟨part,left⟩ := result
        rw [read] at found
        change (if left.isEmpty then _ else _) = _ at found
        split at found
        · rename_i none
          rw [List.isEmpty_iff] at none
          subst none
          cases found
          obtain ⟨exponent,spelled,value⟩ := readExponent_inverse _ read
          refine ⟨⟨sign,rest.takeWhile Char.isDigit,fraction,exponent,
            fun c member => mem_takeWhile_imp member,decimal,?_⟩,?_,?_⟩
          · rw [same]
            simpa [append_eq_nil_iff] using mantissa
          · rw [spell]
            simp only []
            rw [← spelled,← pointed,split,← signed]
          · simp only [scanned,exponentValue,same,value,negative]
            rfl
        · cases found

theorem digit_visible (digit : c.isDigit = true) : isWhitespace c = false := by
  have range := isDigit_range digit
  simp only [isWhitespace,Bool.or_eq_false_iff,Bool.and_eq_false_iff,decide_eq_false_iff_not,beq_eq_false_iff_ne]
  omega

theorem sign_visible (sign : Sign) : ∀ c ∈ sign.spell, isWhitespace c = false := by
  intro c member
  cases sign <;> simp_all [Sign.spell,isWhitespace]

theorem spell_visible : ∀ c ∈ l.spell, isWhitespace c = false := by
  intro c member
  rw [spell,mem_append,mem_append,mem_append] at member
  rcases member with sign | whole | point | tail
  · exact sign_visible _ c sign
  · exact digit_visible (l.wholeDigits c whole)
  · cases fraction : l.fraction with
    | none => simp [fraction] at point
    | some digits =>
      rw [fraction,Option.elim_some,mem_cons] at point
      rcases point with rfl | inside
      · decide
      · exact digit_visible (l.fractionDigits c (by simpa [fraction] using inside))
  · cases exponent : l.exponent with
    | none => simp [exponent] at tail
    | some e =>
      rw [exponent,Option.elim_some,ExponentLiteral.spell,cons_append,mem_cons,mem_append] at tail
      rcases tail with rfl | sign | inside
      · rcases e.marked with mark | mark <;> rw [mark] <;> decide
      · exact sign_visible _ c sign
      · exact digit_visible (e.decimal c inside)

theorem exponentValue_bound : -10^6 < l.exponentValue ∧ l.exponentValue < 10^6 := by
  unfold exponentValue
  cases l.exponent with
  | none => simp
  | some e =>
    have small : ∀ d ∈ e.digits.map digitValue, d < 10 := by
      intro d member
      obtain ⟨c,inside,rfl⟩ := mem_map.mp member
      exact digitValue_lt (e.decimal c inside)
    have below := coefficient_lt small
    have power : 10 ^ (e.digits.map digitValue).length ≤ 10 ^ 6 :=
      Nat.pow_le_pow_right (by decide) (by simpa using e.short)
    rw [Option.elim_some,ExponentLiteral.value]
    split <;> omega

end Literal

def Reads (text : Text) (l : Literal) : Prop :=
  ∃ before after, (∀ c ∈ before ++ after, isWhitespace c = true) ∧ text = before ++ l.spell ++ after

theorem reads_iff (text : Text) (l : Literal) : Reads text l ↔ trim text = l.spell := by
  constructor
  · rintro ⟨before,after,blank,rfl⟩
    exact trim_surrounded blank l.spell_visible
  · intro same
    obtain ⟨before,after,blank,split⟩ := trim_split text
    exact ⟨before,after,blank,by rw [← same]; exact split⟩

theorem parse_literal (reads : Reads text l) :
    parse text = finish l.sign.negative (significant l.mantissa) l.scanned.wrapped := by
  rw [parse,(reads_iff text l).mp reads,l.scan_spell]
  exact store_eq l.scanned

theorem parse_reads (built : parse text = .ok n) : ∃ l, Reads text l := by
  rw [parse] at built
  cases found : scan (trim text) with
  | error _ => rw [found] at built; cases built
  | ok s =>
    obtain ⟨l,spelled,-⟩ := Literal.scan_inverse _ found
    exact ⟨l,(reads_iff text l).mpr spelled.symm⟩

theorem Reads.scanned (a : Reads text l) (b : Reads text l') : l.scanned = l'.scanned := by
  have same : l.spell = l'.spell := ((reads_iff ..).mp a).symm.trans ((reads_iff ..).mp b)
  have scans := l.scan_spell
  rw [same,l'.scan_spell] at scans
  exact (Except.ok.inj scans).symm

theorem Literal.mantissa_small (l : Literal) : ∀ d ∈ l.mantissa, d < 10 := by
  intro d member
  obtain ⟨c,inside,rfl⟩ := mem_map.mp member
  rcases mem_append.mp inside with whole | fraction
  · exact digitValue_lt (l.wholeDigits c whole)
  · exact digitValue_lt (l.fractionDigits c fraction)

theorem Literal.value_significant (l : Literal) :
    l.value = signed l.sign.negative (Decimal.value (significant l.mantissa) l.scanned.exact) := by
  rw [← l.scanned_value,Scanned.value,← Decimal.value_significant]
  congr 2
  simp only [Scanned.exact,Literal.scanned]
  ring

/-- `parse` accepts exactly the literals of representable value, and denotes them. -/
def ParsedExactly (text : Text) : Prop :=
  (∀ n, parse text = .ok n → ∃ l, Reads text l ∧ n.value = l.value) ∧
  ((∃ n, parse text = .ok n) ↔ ∃ l, Reads text l ∧ (l.value = 0 ∨ Representable l.value))

/-- Modulo `2^32` the exponent of the literal meets the exponents in range only at its
true value. The whole digits are counted up to `i32::MAX`. -/
def ExponentExact (l : Literal) : Prop := ∀ e, minExponent ≤ e → e ≤ maxExponent →
  ((2^32 : Int) ∣ (min l.whole.length (2^31 - 1) : Nat) - leading l.mantissa + l.exponentValue - e ↔
    e = l.whole.length - leading l.mantissa + l.exponentValue)

theorem wrapped_eq_iff (l : Literal) (lower : minExponent ≤ e) (upper : e ≤ maxExponent) : l.scanned.wrapped = e ↔
      (2^32 : Int) ∣ (min l.whole.length (2^31 - 1) : Nat) - leading l.mantissa + l.exponentValue - e := by
  change wrapI32 (wrapI32 (saturateI32 l.whole.length - wrapI32 (leading l.mantissa)) + l.exponentValue) = e ↔ _
  generalize leading l.mantissa = zeros
  generalize l.exponentValue = part
  generalize l.whole.length = digits
  unfold minExponent at lower
  unfold maxExponent at upper
  unfold wrapI32 saturateI32
  split <;> omega

theorem exponentExact_iff (l : Literal) : ExponentExact l ↔ ∀ e, minExponent ≤ e → e ≤ maxExponent →
    (l.scanned.wrapped = e ↔ e = l.scanned.exact) := by
  constructor
  · intro exact e lower upper
    rw [wrapped_eq_iff l lower upper]
    exact exact e lower upper
  · intro agree e lower upper
    rw [← wrapped_eq_iff l lower upper]
    exact agree e lower upper

theorem ExponentExact.check (exact : ExponentExact l) :
    checkExponent l.scanned.wrapped = checkExponent l.scanned.exact := by
  rw [exponentExact_iff] at exact
  unfold checkExponent
  split
  · rename_i range
    rw [← (exact _ range.1 range.2).mp rfl,if_pos range]
  · rename_i outside
    rw [if_neg]
    intro range
    rw [(exact _ range.1 range.2).mpr rfl] at outside
    exact outside range

theorem finish_exact (exact : significant l.mantissa ≠ [] →
    (significant l.mantissa).length ≤ maxSignificantDigits → ExponentExact l) :
    finish l.sign.negative (significant l.mantissa) l.scanned.wrapped =
      finish l.sign.negative (significant l.mantissa) l.scanned.exact := by
  unfold finish
  split
  · rfl
  · rename_i short
    split
    · rfl
    · rename_i present
      rw [(exact present (by omega)).check]

theorem parsedExactly_of_finish (finished : ∀ l, Reads text l → parse text =
    finish l.sign.negative (significant l.mantissa) l.scanned.exact) : ParsedExactly text := by
  have denotes : ∀ n, parse text = .ok n → ∃ l, Reads text l ∧ n.Canonical ∧ n.value = l.value := by
    intro n built
    obtain ⟨l,reads⟩ := parse_reads built
    rw [finished l reads] at built
    obtain ⟨canonical,value⟩ := finish_canonical (significant_normal l.mantissa_small) built
    exact ⟨l,reads,canonical,by rw [value,l.value_significant]⟩
  refine ⟨?_,?_,?_⟩
  · intro n built
    obtain ⟨l,reads,-,value⟩ := denotes n built
    exact ⟨l,reads,value⟩
  · rintro ⟨n,built⟩
    obtain ⟨l,reads,canonical,value⟩ := denotes n built
    exact ⟨l,reads,.inr ⟨n,canonical,value⟩⟩
  · rintro ⟨l,reads,accepted⟩
    have representable : Representable l.value := by
      rcases accepted with none | representable
      · exact ⟨zero,zero_canonical,by rw [none,zero_value]⟩
      · exact representable
    rw [finished l reads,finish_succeeds (significant_normal l.mantissa_small),← l.value_significant]
    exact representable

section
variable (parsed : ParsedExactly text) (reads : Reads text l) (present : significant l.mantissa ≠ [])
include parsed reads present

variable (short : (significant l.mantissa).length ≤ maxSignificantDigits)
include short

theorem ParsedExactly.reached (range : minExponent ≤ l.scanned.wrapped ∧ l.scanned.wrapped ≤ maxExponent) :
    l.scanned.wrapped = l.scanned.exact := by
  have normal := significant_normal l.mantissa_small
  have built : parse text = .ok ⟨pad (significant l.mantissa),narrowU8 (significant l.mantissa).length,
      l.scanned.wrapped,l.sign.negative⟩ := by
    rw [parse_literal reads,finish,if_neg (by omega),if_neg present,checkExponent_eq_ok.mpr ⟨rfl,range⟩]
    rfl
  obtain ⟨l',reads',value⟩ := parsed.1 _ built
  rw [← l'.scanned_value,reads'.scanned reads,l.scanned_value,l.value_significant,
    (pad_canonical normal present short range l.sign.negative).2] at value
  obtain ⟨-,magnitude⟩ := signed_injective _ _ (value_nonneg ..) (value_nonneg ..)
    (fun _ => (normal.value_pos present _).ne') (fun _ => (normal.value_pos present _).ne') value
  exact normal.exponent_unique normal present present magnitude

theorem ParsedExactly.exponentExact : ExponentExact l := by
  rw [exponentExact_iff]
  intro e lower upper
  constructor
  · rintro rfl
    exact parsed.reached reads present short ⟨lower,upper⟩
  · rintro rfl
    have representable : Representable l.value := by
      rw [l.value_significant,representable_iff (significant_normal l.mantissa_small) present]
      exact ⟨short,lower,upper⟩
    obtain ⟨n,built⟩ := parsed.2.mpr ⟨l,reads,.inr representable⟩
    rw [parse_literal reads,finish,if_neg (by omega),if_neg present] at built
    cases checked : checkExponent l.scanned.wrapped with
    | error _ => rw [checked] at built; cases built
    | ok e' => exact parsed.reached reads present short (checkExponent_eq_ok.mp checked).2

end

/-- The exponent of a text below two gigabytes is computed exactly. -/
theorem exponentExact_of_length (reads : Reads text l) (short : text.length < 2^31) : ExponentExact l := by
  obtain ⟨before,after,-,rfl⟩ := reads
  have digits : l.whole.length + (l.fraction.getD []).length ≤ l.spell.length := by
    rw [Literal.spell]
    cases l.fraction <;> simp <;> omega
  have zeros : leading l.mantissa ≤ l.whole.length + (l.fraction.getD []).length := by
    have shorter := IsPrefix.length_le (List.takeWhile_prefix (p := (· == 0)) (l := l.mantissa))
    simpa [leading,Literal.mantissa] using shorter
  have part := l.exponentValue_bound
  simp only [length_append] at short
  intro e lower upper
  unfold minExponent at lower
  unfold maxExponent at upper
  omega

theorem parse_canonical (built : parse text = .ok n) : n.Canonical := by
  obtain ⟨l,reads⟩ := parse_reads built
  rw [parse_literal reads] at built
  exact (finish_canonical (significant_normal l.mantissa_small) built).1

theorem fromDigits_exact (negative : Bool) (digits : List Nat) (lower : -2^15 ≤ e) (upper : e < 2^15) :
    (∀ n, fromDigits negative digits e = .ok n → n.Canonical ∧ n.value = signed negative (Decimal.value digits e)) ∧
    ((∃ n, fromDigits negative digits e = .ok n) ↔
      (∀ d ∈ digits, d < 10) ∧ Representable (signed negative (Decimal.value digits e))) := by
  by_cases small : ∀ d ∈ digits, d < 10
  · have normal := significant_normal small
    rw [fromDigits_finish small lower upper,finish_succeeds normal,Decimal.value_significant]
    refine ⟨fun n built => ?_,by simpa using fun _ => small⟩
    have result := finish_canonical normal built
    rwa [Decimal.value_significant] at result
  · rw [fromDigits_rejects small]
    simp [small]

theorem signed_natAbs (v : Int) : signed (decide (v < 0)) (v.natAbs : ℚ) = v := by
  by_cases negative : v < 0
  · have same : ((v.natAbs : Int) : ℚ) = -v := by rw [Int.ofNat_natAbs_of_nonpos negative.le]; push_cast; rfl
    rw [Int.cast_natCast] at same
    simp [signed,negative,same]
  · have same : ((v.natAbs : Int) : ℚ) = v := by rw [Int.natAbs_of_nonneg (by omega)]
    rw [Int.cast_natCast] at same
    simp [signed,negative,same]

def Converts (result : Except NumberError Number) (q : ℚ) : Prop :=
  ∃ n, result = .ok n ∧ n.Canonical ∧ n.value = q

theorem tryFromSigned_exact (lower : -2^127 ≤ v) (upper : v < 2^127) : Converts (tryFromSigned v) v := by
  have sign : decide (v < 0) = true → 0 < v.natAbs := by
    simp
    omega
  obtain ⟨n,built,canonical,value⟩ := fromMagnitude_exact (by omega) sign
  exact ⟨n,built,canonical,by rw [value,signed_natAbs]⟩

theorem tryFromUnsigned_exact (upper : v < 2^128) : Converts (tryFromUnsigned v) v := by
  have sign : false = true → 0 < v := by simp
  obtain ⟨n,built,canonical,value⟩ := fromMagnitude_exact upper sign
  exact ⟨n,built,canonical,value⟩

/-- The constructors build canonical numbers that denote their input, canonical numbers
are equal exactly when their values are, and `parse` accepts exactly the literals of
representable value as long as its 32-bit exponent does not wrap into the range. -/
theorem number_canonical_iff (text : Text) : (∀ n, parse text = .ok n → n.Canonical) ∧
    (ParsedExactly text ↔ ∀ l, Reads text l → significant l.mantissa ≠ [] →
      (significant l.mantissa).length ≤ maxSignificantDigits → ExponentExact l) ∧
    (∀ l, Reads text l → text.length < 2^31 → ExponentExact l) ∧
    (∀ negative digits (exponent : Int), -2^15 ≤ exponent → exponent < 2^15 →
      (∀ n, fromDigits negative digits exponent = .ok n →
        n.Canonical ∧ n.value = signed negative (Decimal.value digits exponent)) ∧
      ((∃ n, fromDigits negative digits exponent = .ok n) ↔
        (∀ d ∈ digits, d < 10) ∧ Representable (signed negative (Decimal.value digits exponent)))) ∧
    (∀ v : Int, -2^63 ≤ v → v < 2^63 → (fromSigned v).Canonical ∧ (fromSigned v).value = v) ∧
    (∀ v : Nat, v < 2^64 → (fromUnsigned v).Canonical ∧ (fromUnsigned v).value = v) ∧
    (∀ v : Int, -2^127 ≤ v → v < 2^127 → Converts (tryFromSigned v) v) ∧
    (∀ v : Nat, v < 2^128 → Converts (tryFromUnsigned v) v) ∧
    (∀ a b : Number, a.Canonical → b.Canonical → (a = b ↔ a.value = b.value)) := by
  refine ⟨fun _ => parse_canonical,⟨?_,?_⟩,fun _ => exponentExact_of_length,
    fun negative digits _ => fromDigits_exact negative digits,?_,?_,fun _ => tryFromSigned_exact,
    fun _ => tryFromUnsigned_exact,fun a b canonical canonical' => ⟨?_,canonical.eq_of_value canonical'⟩⟩
  · intro parsed l reads
    exact parsed.exponentExact reads
  · intro exact
    apply parsedExactly_of_finish
    intro l reads
    rw [parse_literal reads,finish_exact (exact l reads)]
  · intro v lower upper
    obtain ⟨n,built,canonical,value⟩ := tryFromSigned_exact (v := v) (by omega) (by omega)
    have same : fromSigned v = n := by
      rw [tryFromSigned] at built
      rw [fromSigned,built]
    exact same ▸ ⟨canonical,value⟩
  · intro v upper
    obtain ⟨n,built,canonical,value⟩ := tryFromUnsigned_exact (v := v) (by omega)
    have same : fromUnsigned v = n := by
      rw [tryFromUnsigned] at built
      rw [fromUnsigned,built]
    exact same ▸ ⟨canonical,value⟩
  · rintro rfl; rfl

def farOne (zeros : Nat) : Literal where
  sign := .none
  whole := []
  fraction := some (replicate zeros '0' ++ ['1'])
  exponent := none
  wholeDigits := by simp
  fractionDigits := by
    intro c member
    rcases mem_append.mp member with zero | one
    · rw [eq_of_mem_replicate zero]; decide
    · rw [mem_singleton.mp one]; decide
  present := by simp

theorem farOne_parts (zeros : Nat) :
    leading (farOne zeros).mantissa = zeros ∧ significant (farOne zeros).mantissa = [1] := by
  have mantissa : (farOne zeros).mantissa = replicate zeros 0 ++ [1] := by
    simp [Literal.mantissa,farOne,digitValue]
  have blank : ∀ d ∈ replicate zeros 0, (d == 0) = true := by
    intro d member
    rw [eq_of_mem_replicate member]; rfl
  constructor
  · rw [mantissa,leading,takeWhile_append_of_pos blank]
    simp
  · rw [mantissa,significant,dropWhile_append_of_pos blank]
    rfl

theorem farOne_wraps (zeros : Nat) (wraps : zeros = 2^32) :
    parse (farOne zeros).spell = .ok ⟨pad [1],1,0,false⟩ ∧ ¬ Representable (farOne zeros).value ∧
      ¬ ParsedExactly (farOne zeros).spell := by
  obtain ⟨count,run⟩ := farOne_parts zeros
  have reads : Reads (farOne zeros).spell (farOne zeros) := ⟨[],[],by simp,by simp⟩
  have normal := significant_normal (farOne zeros).mantissa_small
  have wrapped : (farOne zeros).scanned.wrapped = 0 := by
    rw [wrapped_eq_iff _ (by decide) (by decide),count]
    change (2^32 : Int) ∣ ((min 0 (2^31 - 1) : Nat) : Int) - zeros + 0 - 0
    omega
  have exact : (farOne zeros).scanned.exact = -2^32 := by
    change ((0 : Nat) : Int) - leading (farOne zeros).mantissa + 0 = _
    omega
  have built : parse (farOne zeros).spell = .ok ⟨pad [1],1,0,false⟩ := by
    rw [parse_literal reads,run,wrapped]
    rfl
  refine ⟨built,?_,?_⟩
  · rw [Literal.value_significant,representable_iff normal (by rw [run]; simp),exact]
    unfold minExponent
    omega
  · intro parsed
    have agree := parsed.reached reads (by rw [run]; simp) (by rw [run]; decide) (by rw [wrapped]; decide)
    rw [wrapped,exact] at agree
    omega

/-- After `2^32` zeros the counter is back at zero, and `parse` returns a tenth. -/
theorem far_one_parses_as_tenth :
    parse (farOne (2^32)).spell = .ok ⟨pad [1],1,0,false⟩ ∧ value ⟨pad [1],1,0,false⟩ = 1 / 10 ∧
      ¬ Representable (farOne (2^32)).value ∧ ¬ ParsedExactly (farOne (2^32)).spell := by
  obtain ⟨built,unrepresentable,wrong⟩ := farOne_wraps (2^32) rfl
  refine ⟨built,?_,unrepresentable,wrong⟩
  simp [value,run,pad,signed,Decimal.value]

end Reldex.Number
