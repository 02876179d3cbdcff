import Reldex.NumberParsing

/-! `Display` of a `Number` is a serialization: the one plain positional decimal
without superfluous characters, which `parse` reads back. -/
namespace Reldex.Number
open List
open Decimal
variable {n : Number} {ds : List Nat}

def display (n : Number) : Text :=
  if n.len = 0 then ['0'] else
  let digits := n.run
  let digitCount := saturateI32 digits.length
  (if n.negative then ['-'] else []) ++
    if digitCount ≤ n.exponent then
      digits.map digitChar ++ replicate (n.exponent - digitCount).toNat '0'
    else if 0 < n.exponent then
      let split := n.exponent.toNat
      (digits.take split).map digitChar ++ '.' :: (digits.drop split).map digitChar
    else ['0','.'] ++ replicate (-n.exponent).toNat '0' ++ digits.map digitChar

def plain (n : Number) : Plain := if n.len = 0 then ⟨false,[0],[]⟩ else Plain.place n.negative n.run n.exponent

theorem spell_place (negative : Bool) (present : ds ≠ []) (e : Int) : (Plain.place negative ds e).spell =
    (if negative then ['-'] else []) ++
      if ds.length ≤ e then ds.map digitChar ++ replicate (e - ds.length).toNat '0'
      else if 0 < e then (ds.take e.toNat).map digitChar ++ '.' :: (ds.drop e.toNat).map digitChar
      else ['0','.'] ++ replicate (-e).toNat '0' ++ ds.map digitChar := by
  have zero : digitChar 0 = '0' := by decide
  unfold Plain.place
  split
  · simp [Plain.spell,zero]
  · rename_i short
    split
    · have behind : ds.drop e.toNat ≠ [] := by
        rw [Ne,drop_eq_nil_iff]; omega
      simp [Plain.spell,behind]
    · simp [Plain.spell,present,zero]

theorem plain_spell (canonical : n.Canonical) : n.plain.spell = n.display := by
  unfold plain display
  split
  · rfl
  · rename_i some
    have present : n.run ≠ [] := by
      intro none
      rw [← canonical.length,none] at some
      exact some rfl
    have count : saturateI32 n.run.length = n.run.length := by
      have := canonical.width
      rw [saturateI32,canonical.length,if_pos (by unfold maxSignificantDigits at this; omega)]
    rw [spell_place _ present]
    simp only [count]

theorem plain_value (canonical : n.Canonical) : n.plain.value = n.value := by
  unfold plain
  split
  · rename_i none
    have run : n.run = [] := length_eq_zero_iff.mp (canonical.length.trans none)
    rw [canonical.run_nil run,zero_value]
    simp [Plain.value,signed,Decimal.value]
  · rw [Plain.place_value,value]

theorem plain_canonical (canonical : n.Canonical) : n.plain.Canonical := by
  unfold plain
  split
  · exact ⟨⟨by simp,by simp,by simp⟩,fun _ => rfl,by simp,by simp⟩
  · rename_i some
    apply Plain.place_canonical canonical.normal.digits ?_ canonical.normal.first (fun _ => canonical.normal.last)
    intro none
    rw [← canonical.length,none] at some
    exact some rfl

theorem digitChar_spec (small : d < 10) : (digitChar d).isDigit = true ∧ digitValue (digitChar d) = d := by
  revert d
  decide

theorem digitChars (small : ∀ d ∈ ds, d < 10) :
    (∀ c ∈ ds.map digitChar, c.isDigit = true) ∧ (ds.map digitChar).map digitValue = ds := by
  constructor
  · intro c member
    obtain ⟨d,inside,rfl⟩ := mem_map.mp member
    exact (digitChar_spec (small d inside)).1
  · rw [map_map]
    conv_rhs => rw [← map_id ds]
    exact map_congr_left (fun d inside => (digitChar_spec (small d inside)).2)

theorem plain_literal (p : Plain) (formed : p.WellFormed) : ∃ l : Literal, l.spell = p.spell ∧ l.value = p.value := by
  have whole := digitChars formed.whole
  have fraction := digitChars formed.fraction
  refine ⟨⟨if p.negative then .minus else .none,p.whole.map digitChar,
    if p.fraction = [] then none else some (p.fraction.map digitChar),none,whole.1,?_,?_⟩,?_,?_⟩
  · split
    · simp
    · exact fraction.1
  · simp [formed.present]
  · rw [Literal.spell,Plain.spell]
    by_cases none : p.fraction = [] <;> cases p.negative <;> simp [none,Sign.spell]
  · have digits : (if p.fraction = [] then none else some (p.fraction.map digitChar)).getD [] =
        p.fraction.map digitChar := by
      split
      · rename_i none; simp [none]
      · rfl
    have sign : (if p.negative then Sign.minus else Sign.none).negative = p.negative := by
      cases p.negative <;> rfl
    rw [Literal.value,Plain.value]
    simp only [Literal.mantissa,Literal.exponentValue,digits,sign,map_append,whole.2,fraction.2,length_map,
      Option.elim_none,zpow_zero,mul_one]

theorem plain_short (canonical : n.Canonical) : n.plain.spell.length < 2^31 := by
  have width := canonical.width
  have range := canonical.exponent
  have length := canonical.length
  unfold minExponent maxExponent at range
  unfold maxSignificantDigits at width
  have sign : (if n.plain.negative then ['-'] else []).length ≤ 1 := by split <;> simp
  have point : (if n.plain.fraction.isEmpty then [] else '.' :: n.plain.fraction.map digitChar).length ≤
      n.plain.fraction.length + 1 := by split <;> simp
  have whole : n.plain.whole.length + n.plain.fraction.length ≤ 300 := by
    unfold plain
    split
    · simp
    · unfold Plain.place
      split
      · simp; omega
      · split
        · simp; omega
        · simp; omega
  simp only [Plain.spell,length_append,length_map]
  omega

/-- Below two gigabytes a literal of representable value is read as the number of that value. -/
theorem parse_eq (reads : Reads text l) (short : text.length < 2^31) (canonical : n.Canonical)
    (value : l.value = n.value) : parse text = .ok n := by
  have parsed : ParsedExactly text := by
    apply parsedExactly_of_finish
    intro l' reads'
    rw [parse_literal reads',finish_exact (fun _ _ => exponentExact_of_length reads' short)]
  obtain ⟨m,built⟩ := parsed.2.mpr ⟨l,reads,.inr ⟨n,canonical,value.symm⟩⟩
  obtain ⟨l',reads',same⟩ := parsed.1 m built
  have equal : m.value = n.value := by
    rw [same,← l'.scanned_value,reads'.scanned reads,l.scanned_value,value]
  rw [built,(parse_canonical built).eq_of_value canonical equal]

/-- `parse` undoes `display`, and `display` of a parsed number is the shortest plain
positional decimal of its value. -/
theorem display_round_trip : (∀ n : Number, n.Canonical → parse n.display = .ok n) ∧
    (∀ text n, parse text = .ok n → ∃ p : Plain, p.Canonical ∧ p.spell = n.display ∧ p.value = n.value ∧
      ∀ q : Plain, q.WellFormed → q.value = n.value → p.spell.length ≤ q.spell.length) := by
  constructor
  · intro n canonical
    have formed := (plain_canonical canonical).toWellFormed
    obtain ⟨l,spelled,value⟩ := plain_literal n.plain formed
    have reads : Reads n.plain.spell l := ⟨[],[],by simp,by simp [spelled]⟩
    rw [← plain_spell canonical]
    exact parse_eq reads (plain_short canonical) canonical (value.trans (plain_value canonical))
  · intro text n built
    have canonical := parse_canonical built
    refine ⟨n.plain,plain_canonical canonical,plain_spell canonical,plain_value canonical,?_⟩
    intro q formed same
    exact (plain_canonical canonical).shortest formed (same.trans (plain_value canonical).symm)

example : (parse "-0.00123".toList).map display = .ok "-0.00123".toList := by decide
example : (parse " 1.5E+3 ".toList).map display = .ok "1500".toList := by decide

end Reldex.Number
