import Mathlib.Data.List.TakeWhile
import Std.Data.String.ToNat
import Zeroscript.Interpreter
import Zeroscript.Number

/-! # The texts of integers

`num_to_str` prints the low 32 bits of an integer into eleven bytes. Ten characters hold the numerals from
-999999999 to 2147483647, and no others come out right. -/
namespace Zeroscript.IntegerText

def concatenated (d : Data ℚ) (n : ℚ) : Option (Data ℚ × Reg ℚ) := do
  let (d, empty) := d.newReg .str (.string "" 0)
  let text := (← d.toText empty) ++ (← d.toText (.ofNum n))
  return d.newReg .str (.string text 0)

structure Faithful (m n : ℤ) : Prop where
  numeral : numToStr m = toString m ∧ numToStr n = toString n
  distinct : m ≠ n → ∀ d : Data ℚ, d.fieldName (.ofNum m) ≠ d.fieldName (.ofNum n)
  back : ∀ (d : Data ℚ) (receiver : Addr) (c : ContextId) (r : ℕ), ∃ d' text, concatenated d n = some (d', text) ∧
    d'.callNative .number text receiver c r = some (d'.setReg c r (.ofNum n), .returned)

/-- The range of `%d`, less what does not fit into the buffer. -/
def Fits (n : ℤ) : Prop := -10 ^ 9 < n ∧ n < 2 ^ 31

theorem toString_nonneg {n : ℤ} (h : 0 ≤ n) : toString n = n.toNat.repr := by
  rw [Int.toString_eq_repr, Int.repr_eq_if, if_pos h]

theorem toString_neg {n : ℤ} (h : n < 0) : toString n = "-" ++ (-n).toNat.repr := by
  rw [Int.toString_eq_repr, Int.repr_eq_if, if_neg (Int.not_le.mpr h)]

theorem repr_length_le_iff {k n : ℕ} (hk : 0 < k) : n.repr.toList.length ≤ k ↔ n < 10 ^ k := by
  rw [Nat.toList_repr]
  exact Nat.length_toDigits_le_iff (by decide) hk

theorem toString_length_le_iff (n : ℤ) : (toString n).toList.length ≤ 10 ↔ -10 ^ 9 < n ∧ n < 10 ^ 10 := by
  by_cases h : 0 ≤ n
  · rw [toString_nonneg h, repr_length_le_iff (by decide)]
    omega
  · have hneg : n < 0 := Int.not_le.mp h
    rw [toString_neg hneg, String.toList_append, List.length_append]
    have hsign : "-".toList.length = 1 := by decide
    have hdigits := @repr_length_le_iff 9 (-n).toNat (by decide)
    rw [hsign]
    omega

theorem head_of_neg {n : ℤ} (h : n < 0) : (toString n).toList.head? = some '-' := by
  rw [toString_neg h]
  simp

theorem head_of_nonneg {n : ℤ} (h : 0 ≤ n) : (toString n).toList.head? ≠ some '-' := by
  rw [toString_nonneg h, Nat.toList_repr]
  intro hhead
  have hdigit := Nat.isDigit_of_mem_toDigits (by decide) (by decide) (List.mem_of_head? hhead)
  exact absurd hdigit (by decide)

theorem toString_injective {m n : ℤ} (h : toString m = toString n) : m = n := by
  have hhead := congrArg (fun text => text.toList.head?) h
  by_cases hm : 0 ≤ m
  · by_cases hn : 0 ≤ n
    · rw [toString_nonneg hm, toString_nonneg hn] at h
      have := Nat.repr_injective h
      omega
    · exact absurd (hhead.trans (head_of_neg (Int.not_le.mp hn))) (head_of_nonneg hm)
  · by_cases hn : 0 ≤ n
    · exact absurd (hhead.symm.trans (head_of_neg (Int.not_le.mp hm))) (head_of_nonneg hn)
    · rw [toString_neg (Int.not_le.mp hm), toString_neg (Int.not_le.mp hn)] at h
      have := Nat.repr_injective (String.append_right_inj "-" |>.mp h)
      omega

theorem digitsValue_digits {digits : List Char} (h : ∀ c ∈ digits, c.isDigit = true) :
    digitsValue 10 digits = Nat.ofDigitChars 10 digits 0 := by
  rw [Nat.ofDigitChars_eq_foldl]
  unfold digitsValue
  apply List.foldl_ext
  intro n c hc
  rw [digitValue, if_pos (h c hc)]

theorem parseDecimal_repr (n : ℕ) : parseDecimal n.repr.toList = n := by
  have hdigits : ∀ c ∈ Nat.toDigits 10 n, c.isDigit = true :=
    fun c hc => Nat.isDigit_of_mem_toDigits (by decide) (by decide) hc
  have hwhole : (Nat.toDigits 10 n).takeWhile Char.isDigit = Nat.toDigits 10 n :=
    List.takeWhile_eq_self_iff.mpr hdigits
  have hrest : (Nat.toDigits 10 n).dropWhile Char.isDigit = [] :=
    List.dropWhile_eq_nil_iff.mpr hdigits
  have hvalue : digitsValue 10 (Nat.toDigits 10 n) = n := by
    rw [digitsValue_digits hdigits]
    exact Nat.ofDigitChars_ten_toDigits
  rw [Nat.toList_repr]
  unfold parseDecimal parseUnsigned
  dsimp only
  rw [hrest, hwhole, hvalue]
  exact mul_one _

theorem parseMagnitude_repr (n : ℕ) : parseMagnitude n.repr.toList = n := by
  rw [← parseDecimal_repr n]
  unfold parseMagnitude
  split
  · rename_i x rest htext
    have hmem : x ∈ Nat.toDigits 10 n := by
      rw [← Nat.toList_repr, htext]
      simp
    have hdigit := Nat.isDigit_of_mem_toDigits (by decide) (by decide) hmem
    rw [← htext, if_neg]
    rintro (rfl | rfl)
    · exact absurd hdigit (by decide)
    · exact absurd hdigit (by decide)
  · rfl

theorem splitSign_repr (n : ℕ) : splitSign (n.repr.toList.dropWhile isSpace) = (false, n.repr.toList) := by
  have hdigits : ∀ c ∈ n.repr.toList, c.isDigit = true := by
    rw [Nat.toList_repr]
    exact fun c hc => Nat.isDigit_of_mem_toDigits (by decide) (by decide) hc
  cases htext : n.repr.toList with
  | nil => rfl
  | cons c rest =>
    have hdigit := hdigits c (by rw [htext]; exact List.mem_cons_self)
    have hbounds := Char.isDigit_iff_toNat.mp hdigit
    have hspace : isSpace c = false := by
      have hne : c ≠ ' ' := by
        rintro rfl
        exact absurd hdigit (by decide)
      have hlow : 48 ≤ c.toNat := hbounds.1
      simp [isSpace, hne]
      omega
    rw [List.dropWhile_cons_of_neg (by simp [hspace]), splitSign]
    · rintro rest heq
      cases heq
      exact absurd hdigit (by decide)
    · rintro rest heq
      cases heq
      exact absurd hdigit (by decide)

theorem parseNumber_toString (n : ℤ) : parseNumber (toString n) = n := by
  unfold parseNumber
  by_cases h : 0 ≤ n
  · rw [toString_nonneg h, splitSign_repr]
    change parseMagnitude n.toNat.repr.toList = n
    rw [parseMagnitude_repr]
    exact_mod_cast Int.toNat_of_nonneg h
  · have hneg : n < 0 := Int.not_le.mp h
    have htext : (toString n).toList = '-' :: (-n).toNat.repr.toList := by
      rw [toString_neg hneg]
      simp
    rw [htext]
    change -parseMagnitude (-n).toNat.repr.toList = n
    rw [parseMagnitude_repr]
    have hvalue : ((-n).toNat : ℤ) = -n := Int.toNat_of_nonneg (by omega)
    have hrational : ((-n).toNat : ℚ) = -(n : ℚ) := by exact_mod_cast hvalue
    rw [hrational, neg_neg]

theorem truncate_intCast (n : ℤ) : truncate (n : ℚ) = n := by
  unfold truncate
  split
  · exact Int.floor_intCast n
  · rw [← Int.cast_neg, Int.floor_intCast, neg_neg]

theorem numToStr_intCast (n : ℤ) : numToStr n = String.ofList ((toString (lowHalf n)).toList.take 10) := by
  unfold numToStr
  rw [truncate_intCast, if_pos rfl]

theorem lowHalf_bounds (n : ℤ) : -2 ^ 31 ≤ lowHalf n ∧ lowHalf n < 2 ^ 31 := by
  unfold lowHalf
  omega

theorem lowHalf_eq_iff (n : ℤ) : lowHalf n = n ↔ -2 ^ 31 ≤ n ∧ n < 2 ^ 31 := by
  unfold lowHalf
  omega

theorem numToStr_iff (n : ℤ) : numToStr n = toString n ↔ Fits n := by
  rw [numToStr_intCast]
  unfold Fits
  obtain ⟨hlow, hhigh⟩ := lowHalf_bounds n
  constructor
  · intro h
    have hlist : (toString (lowHalf n)).toList.take 10 = (toString n).toList := by
      rw [← h, String.toList_ofList]
    have hlength : (toString n).toList.length ≤ 10 := by
      rw [← hlist, List.length_take]
      exact Nat.min_le_left _ _
    obtain ⟨hmin, -⟩ := (toString_length_le_iff n).mp hlength
    refine ⟨hmin, ?_⟩
    by_contra hlarge
    have hn : 0 ≤ n := by omega
    -- the sign of the low half shows that it has ten characters at most
    have hnonneg : 0 ≤ lowHalf n := by
      by_contra hneg
      have hhead := congrArg List.head? hlist
      rw [List.head?_take, if_neg (by decide), head_of_neg (Int.not_le.mp hneg)] at hhead
      exact head_of_nonneg hn hhead.symm
    have hshort : (toString (lowHalf n)).toList.length ≤ 10 := by
      rw [toString_length_le_iff]
      omega
    rw [List.take_of_length_le hshort] at hlist
    have heq := toString_injective (String.toList_inj.mp hlist)
    have := (lowHalf_eq_iff n).mp heq
    omega
  · rintro ⟨hmin, hmax⟩
    have heq : lowHalf n = n := by
      rw [lowHalf_eq_iff]
      omega
    have hshort : (toString n).toList.length ≤ 10 := by
      rw [toString_length_le_iff]
      omega
    rw [heq, List.take_of_length_le hshort, String.ofList_toList]

theorem fieldName_ofNum (d : Data ℚ) (x : ℚ) : d.fieldName (.ofNum x) = some (numToStr x) := rfl

theorem toText_newReg (d : Data ℚ) (text : String) :
    (d.newReg .str (.string text 0)).1.toText (d.newReg .str (.string text 0)).2 = some text := by
  have hobject : (d.newReg .str (.string text 0)).1.object (d.newReg .str (.string text 0)).2 =
      some (.string text 0) := by
    change (d.objects ++ [Object.string text 0])[d.objects.length]? = _
    rw [List.getElem?_append_right (Nat.le_refl _), Nat.sub_self]
    rfl
  unfold Data.toText
  rw [hobject]
  rfl

theorem concatenated_text (d : Data ℚ) (n : ℚ) : ∃ d' text, concatenated d n = some (d', text) ∧
    d'.toText text = some (numToStr n) ∧ text.type = .str := by
  have hempty := toText_newReg d ""
  refine ⟨_, _, ?_, toText_newReg (d.newReg .str (.string "" 0)).1 (numToStr n), rfl⟩
  unfold concatenated
  dsimp only
  rw [hempty]
  have hnumber : (d.newReg .str (.string "" 0)).1.toText (.ofNum n) = some (numToStr n) := rfl
  simp only [hnumber, Option.bind_eq_bind, Option.bind_some, String.empty_append]
  rfl

/-- A pair of integers is told apart and read back exactly if both fit. -/
theorem faithful_iff (m n : ℤ) : Faithful m n ↔ Fits m ∧ Fits n := by
  constructor
  · intro h
    exact ⟨(numToStr_iff m).mp h.numeral.1, (numToStr_iff n).mp h.numeral.2⟩
  · rintro ⟨hm, hn⟩
    have hm' := (numToStr_iff m).mpr hm
    have hn' := (numToStr_iff n).mpr hn
    refine ⟨⟨hm', hn'⟩, ?_, ?_⟩
    · intro hne d heq
      rw [fieldName_ofNum, fieldName_ofNum, hm', hn'] at heq
      exact hne (toString_injective (Option.some.inj heq))
    · intro d receiver c r
      obtain ⟨d', text, hconcat, htext, htype⟩ := concatenated_text d n
      refine ⟨d', text, hconcat, ?_⟩
      unfold Data.callNative
      dsimp only
      rw [htype]
      dsimp only
      rw [htext, hn']
      change some (d'.setReg c r (.ofNum (parseNumber (toString n))), NativeReturn.returned) = _
      rw [parseNumber_toString]

/-- `num_to_str(4294967296)`. -/
theorem numerals_alias : numToStr (2 ^ 32 : ℤ) = "0" ∧ numToStr (0 : ℤ) = "0" ∧ ¬ Faithful (2 ^ 32) 0 := by
  have hwide : numToStr (2 ^ 32 : ℤ) = "0" := by
    rw [numToStr_intCast]
    decide
  have hzero : numToStr (0 : ℤ) = "0" := by
    rw [numToStr_intCast]
    decide
  refine ⟨hwide, hzero, ?_⟩
  intro h
  have hnumeral := h.numeral.1
  rw [hwide] at hnumeral
  exact absurd hnumeral (by decide)

end Zeroscript.IntegerText
