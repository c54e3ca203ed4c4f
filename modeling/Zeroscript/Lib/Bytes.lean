import Mathlib.Algebra.Group.Nat.Defs
import Mathlib.Data.List.TakeWhile
import Mathlib.Tactic.Common

/-! # Words and strings in a list of bytes

A word is eight bytes, least significant first. A string ends at its first zero byte. A reader looks
at a position of an image; the lemmas say what it finds where a writer has appended something. -/
namespace Bytes

def encode : ℕ → ℕ → List UInt8
  | 0, _ => []
  | width + 1, n => UInt8.ofNat n :: encode width (n / 256)

def decode : List UInt8 → ℕ
  | [] => 0
  | b :: bytes => b.toNat + 256 * decode bytes

@[simp] theorem length_encode (width n : ℕ) : (encode width n).length = width := by
  induction width generalizing n with
  | zero => rfl
  | succ width ih => rw [encode, List.length_cons, ih]

theorem decode_encode (width n : ℕ) : decode (encode width n) = n % 256 ^ width := by
  induction width generalizing n with
  | zero => simp [encode, decode, Nat.mod_one]
  | succ width ih =>
    have hbyte : (UInt8.ofNat n).toNat = n % 256 := UInt8.toNat_ofNat'
    rw [encode, decode, ih, hbyte, Nat.pow_succ', Nat.mod_mul]

/-- The image has the bytes `chunk` at a position. -/
def Holds (image : List UInt8) (pos : ℕ) (chunk : List UInt8) : Prop :=
  ∃ before after, image = before ++ chunk ++ after ∧ before.length = pos

def overwrite (image : List UInt8) (pos : ℕ) (new : List UInt8) : List UInt8 :=
  image.take pos ++ new ++ image.drop (pos + new.length)

variable {image chunk new : List UInt8} {pos pos' : ℕ}

theorem holds_end (image chunk : List UInt8) : Holds (image ++ chunk) image.length chunk :=
  ⟨image, [], by simp, rfl⟩

theorem Holds.append (h : Holds image pos chunk) (more : List UInt8) :
    Holds (image ++ more) pos chunk := by
  obtain ⟨before, after, rfl, rfl⟩ := h
  exact ⟨before, after ++ more, by simp, rfl⟩

theorem Holds.left {a b : List UInt8} (h : Holds image pos (a ++ b)) : Holds image pos a := by
  obtain ⟨before, after, rfl, rfl⟩ := h
  exact ⟨before, b ++ after, by simp, rfl⟩

theorem Holds.right {a b : List UInt8} (h : Holds image pos (a ++ b)) :
    Holds image (pos + a.length) b := by
  obtain ⟨before, after, rfl, rfl⟩ := h
  exact ⟨before ++ a, after, by simp, by simp⟩

theorem Holds.le_length (h : Holds image pos chunk) : pos + chunk.length ≤ image.length := by
  obtain ⟨before, after, rfl, rfl⟩ := h
  simp only [List.length_append]
  omega

theorem Holds.overwrite (h : Holds image pos chunk) (hpos : pos' + new.length ≤ pos) :
    Holds (overwrite image pos' new) pos chunk := by
  obtain ⟨before, after, rfl, rfl⟩ := h
  refine ⟨before.take pos' ++ new ++ before.drop (pos' + new.length), after, ?_, ?_⟩
  · have htake : (before ++ chunk ++ after).take pos' = before.take pos' := by
      rw [List.append_assoc, List.take_append_of_le_length (by omega)]
    have hdrop : (before ++ chunk ++ after).drop (pos' + new.length) =
        before.drop (pos' + new.length) ++ chunk ++ after := by
      rw [List.append_assoc, List.drop_append_of_le_length hpos]
      simp
    rw [Bytes.overwrite, htake, hdrop]
    simp
  · simp only [List.length_append, List.length_take, List.length_drop]
    omega

theorem holds_overwrite (hpos : pos + new.length ≤ image.length) :
    Holds (overwrite image pos new) pos new := by
  refine ⟨image.take pos, image.drop (pos + new.length), rfl, ?_⟩
  rw [List.length_take]
  omega

@[simp] theorem length_overwrite (hpos : pos + new.length ≤ image.length) :
    (overwrite image pos new).length = image.length := by
  simp only [overwrite, List.length_append, List.length_take, List.length_drop]
  omega

def ofWord (n : ℕ) : List UInt8 := encode 8 n

@[simp] theorem length_ofWord (n : ℕ) : (ofWord n).length = 8 := length_encode 8 n

def wordAt (image : List UInt8) (pos : ℕ) : Option ℕ :=
  let bytes := (image.drop pos).take 8
  if bytes.length = 8 then some (decode bytes) else none

theorem wordAt_of_holds {image : List UInt8} {pos n : ℕ} (h : Holds image pos (ofWord n)) :
    wordAt image pos = some (n % 2 ^ 64) := by
  obtain ⟨before, after, rfl, rfl⟩ := h
  have hbytes : ((before ++ ofWord n ++ after).drop before.length).take 8 = ofWord n := by
    rw [List.append_assoc, List.drop_left]
    rw [List.take_append_of_le_length (by simp), List.take_of_length_le (by simp)]
  have hpow : (256 : ℕ) ^ 8 = 2 ^ 64 := by decide
  have hvalue : decode (ofWord n) = n % 2 ^ 64 := by rw [ofWord, decode_encode, hpow]
  simp only [wordAt, hbytes, length_ofWord, if_true, hvalue]

def text (s : String) : List UInt8 := s.toByteArray.data.toList

def ofText (bytes : List UInt8) : Option String := String.fromUTF8? ⟨bytes.toArray⟩

@[simp] theorem ofText_text (s : String) : ofText (text s) = some s := by
  unfold ofText text
  have harray : (⟨s.toByteArray.data.toList.toArray⟩ : ByteArray) = s.toByteArray := by simp
  rw [harray]
  unfold String.fromUTF8?
  rw [dif_pos s.isValidUTF8]
  rfl

def NulFree (s : String) : Prop := (0 : UInt8) ∉ text s

instance (s : String) : Decidable (NulFree s) := inferInstanceAs (Decidable (¬ _))

/-- A text as a string in memory: as far as `strlen` goes, and a zero byte. -/
def cString (s : String) : List UInt8 := (text s).takeWhile (· != 0) ++ [0]

theorem NulFree.cString {s : String} (h : NulFree s) : cString s = text s ++ [0] := by
  unfold Bytes.cString
  congr 1
  rw [List.takeWhile_eq_self_iff]
  intro b hb
  simp only [bne_iff_ne, ne_eq]
  rintro rfl
  exact h hb

def cStringAt (image : List UInt8) (pos : ℕ) : Option (List UInt8) :=
  let bytes := image.drop pos
  if bytes.contains 0 then some (bytes.takeWhile (· != 0)) else none

theorem cStringAt_of_holds {image : List UInt8} {pos : ℕ} {s : String} (hs : NulFree s)
    (h : Holds image pos (cString s)) : cStringAt image pos = some (text s) := by
  obtain ⟨before, after, rfl, rfl⟩ := h
  have hdrop : (before ++ cString s ++ after).drop before.length = text s ++ (0 :: after) := by
    rw [hs.cString, List.append_assoc, List.drop_left]
    simp
  have hwhile : (text s ++ (0 :: after)).takeWhile (· != 0) = text s := by
    rw [List.takeWhile_append_of_pos]
    · simp
    · intro b hb
      simp only [bne_iff_ne, ne_eq]
      rintro rfl
      exact hs hb
  have hzero : (text s ++ (0 :: after)).contains 0 = true := by simp
  simp only [cStringAt, hdrop, hzero, hwhile, if_true]

end Bytes
