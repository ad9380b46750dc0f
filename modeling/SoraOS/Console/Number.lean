import SoraOS.Scheduler.Pools
import SoraOS.Shared.Buffer
import SoraOS.Shared.Numeral

set_option autoImplicit false

/-! Numbers as text: `sh_itoa`, and the digit loop of `cmd_killprocess` that reads them back. -/

namespace SoraOS

namespace Shell

open Buffer Numeral

def isDigit (c : U8) : Bool := decide (48#8 ≤ c) && decide (c ≤ 57#8)

def digitOf (c : U8) : Nat := (c - 48#8).toNat

def digitChar (digit : Nat) : U8 := BitVec.setWidth 8 (48#32 + BitVec.ofNat 32 digit)

def number (s : List U8) : Nat := value 10 (s.map digitOf)

-- `while (n) { tmp[i++] = (char)('0' + n % 10); n /= 10; }`
def digitLoop {size : Nat} : Nat → U32 → Vector U8 size → Nat → Option (Vector U8 size × Nat)
  | 0, _, _, _ => none
  | fuel + 1, n, tmp, i =>
      if n = 0#32 then some (tmp, i)
      else do
        let tmp ← put tmp i (BitVec.setWidth 8 (48#32 + n % 10#32))
        digitLoop fuel (n / 10#32) tmp (i + 1)

-- `while (i > 0) buf[j++] = tmp[--i];`
def copyLoop {size size' : Nat} (tmp : Vector U8 size) :
    Nat → Vector U8 size' → Nat → Option (Vector U8 size' × Nat)
  | 0, buf, j => some (buf, j)
  | i + 1, buf, j => do
      let c ← tmp[i]?
      let buf ← put buf j c
      copyLoop tmp i buf (j + 1)

-- a 32-bit number has at most ten digits
def digitFuel : Nat := 11

-- Returns `buf`, or none for an access outside of `tmp` or `buf`; `tmp` starts with any bytes.
def shItoa {size : Nat} (n : U32) (tmp : Vector U8 12) (buf : Vector U8 size) :
    Option (Vector U8 size) :=
  if n = 0#32 then do
    let buf ← put buf 0 48#8
    put buf 1 0#8
  else do
    let (tmp, i) ← digitLoop digitFuel n tmp 0
    let (buf, j) ← copyLoop tmp i buf 0
    put buf j 0#8

theorem isDigit_iff {c : U8} : isDigit c = true ↔ 48 ≤ c.toNat ∧ c.toNat ≤ 57 := by
  simp [isDigit, BitVec.le_def]

theorem digitOf_eq {c : U8} (digit : isDigit c = true) : digitOf c = c.toNat - 48 := by
  have range := isDigit_iff.mp digit
  rw [digitOf, BitVec.toNat_sub_of_le (by simpa [BitVec.le_def] using range.1)]
  rfl

theorem digitOf_lt {c : U8} (digit : isDigit c = true) : digitOf c < 10 := by
  have range := isDigit_iff.mp digit
  rw [digitOf_eq digit]
  omega

theorem digitChar_toNat {digit : Nat} (small : digit < 10) : (digitChar digit).toNat = 48 + digit := by
  simp only [digitChar, BitVec.toNat_setWidth, BitVec.toNat_add, BitVec.toNat_ofNat]
  omega

theorem isDigit_digitChar {digit : Nat} (small : digit < 10) : isDigit (digitChar digit) = true := by
  rw [isDigit_iff, digitChar_toNat small]
  omega

theorem digitOf_digitChar {digit : Nat} (small : digit < 10) : digitOf (digitChar digit) = digit := by
  rw [digitOf_eq (isDigit_digitChar small), digitChar_toNat small]
  omega

theorem digitChar_digitOf {c : U8} (digit : isDigit c = true) : digitChar (digitOf c) = c := by
  have range := isDigit_iff.mp digit
  apply BitVec.eq_of_toNat_eq
  rw [digitChar_toNat (digitOf_lt digit), digitOf_eq digit]
  omega

theorem digitOf_eq_zero {c : U8} (digit : isDigit c = true) : digitOf c = 0 ↔ c = 48#8 := by
  constructor
  next =>
    intro zero
    rw [← digitChar_digitOf digit, zero]
    rfl
  next =>
    rintro rfl
    rfl

def leading (s : List U8) : List Nat := (s.takeWhile isDigit).map digitOf

theorem leading_cons_digit {c : U8} (s : List U8) (digit : isDigit c = true) :
    leading (c :: s) = digitOf c :: leading s := by
  rw [leading, List.takeWhile_cons_of_pos digit]
  rfl

theorem leading_cons_other {c : U8} (s : List U8) (other : ¬isDigit c = true) :
    leading (c :: s) = [] := by
  rw [leading, List.takeWhile_cons_of_neg other]
  rfl

theorem parseTarget_toNat (s : List U8) (target : U32) :
    (Kernel.parseTarget s target).toNat = valueFrom 10 target.toNat (leading s) % 2 ^ 32 := by
  induction s generalizing target with
  | nil => exact (Nat.mod_eq_of_lt target.isLt).symm
  | cons c s ih =>
      rw [Kernel.parseTarget]
      by_cases digit : isDigit c = true
      · have range : 48#8 ≤ c ∧ c ≤ 57#8 := by simpa [isDigit] using digit
        have small := digitOf_lt digit
        have step : (target * 10#32 + (c - 48#8).setWidth 32).toNat =
            (target.toNat * 10 + digitOf c) % 2 ^ 32 := by
          rw [BitVec.toNat_add, BitVec.toNat_mul, BitVec.toNat_setWidth, ← digitOf,
            BitVec.toNat_ofNat]
          omega
        rw [if_pos range, ih, leading_cons_digit s digit, step, ← foldl_mod, Nat.mod_mod,
          foldl_mod]
        rfl
      · have outside : ¬(48#8 ≤ c ∧ c ≤ 57#8) := by simpa [isDigit] using digit
        rw [if_neg outside, leading_cons_other s digit]
        exact (Nat.mod_eq_of_lt target.isLt).symm

theorem leading_of_digits {s rest : List U8} (digits : ∀ c ∈ s, isDigit c = true)
    (stop : ∀ c ∈ rest.head?, ¬isDigit c = true) : leading (s ++ rest) = s.map digitOf := by
  have none : rest.takeWhile isDigit = [] := by
    cases rest with
    | nil => rfl
    | cons c rest => exact List.takeWhile_cons_of_neg (stop c rfl)
  rw [leading, List.takeWhile_append_of_pos digits, none, List.append_nil]

def text (n : Nat) : List U8 := (numeral 10 n).map digitChar

theorem text_of_ne_zero {n : Nat} (nonzero : n ≠ 0) :
    text n = ((Nat.digits 10 n).map digitChar).reverse := by
  rw [text, numeral, if_neg nonzero, List.map_reverse]

theorem map_digitOf_digitChar {digits : List Nat} (small : ∀ digit ∈ digits, digit < 10) :
    (digits.map digitChar).map digitOf = digits := by
  rw [List.map_map]
  calc digits.map (digitOf ∘ digitChar)
      = digits.map id := List.map_congr_left fun digit member => digitOf_digitChar (small digit member)
    _ = digits := List.map_id digits

theorem map_digitChar_digitOf {s : List U8} (digits : ∀ c ∈ s, isDigit c = true) :
    (s.map digitOf).map digitChar = s := by
  rw [List.map_map]
  calc s.map (digitChar ∘ digitOf)
      = s.map id := List.map_congr_left fun c member => digitChar_digitOf (digits c member)
    _ = s := List.map_id s

theorem text_digit {n : Nat} {c : U8} (member : c ∈ text n) : isDigit c = true := by
  obtain ⟨digit, inside, rfl⟩ := List.mem_map.mp member
  exact isDigit_digitChar (lt_of_mem_numeral (by decide) inside)

theorem text_ne_nil (n : Nat) : text n ≠ [] := by
  rw [text, ne_eq, List.map_eq_nil_iff]
  exact numeral_ne_nil 10 n

theorem map_digitOf_text (n : Nat) : (text n).map digitOf = numeral 10 n :=
  map_digitOf_digitChar fun _ inside => lt_of_mem_numeral (by decide) inside

theorem number_text (n : Nat) : number (text n) = n := by
  rw [number, map_digitOf_text, value_numeral]

theorem text_length (n : U32) : (text n.toNat).length ≤ 10 := by
  rw [text, List.length_map]
  exact length_numeral_le (by decide) (by decide) (Nat.lt_trans n.isLt (by decide))

theorem text_zero_iff (n : Nat) : (text n).head? = some 48#8 ↔ n = 0 := by
  constructor
  next =>
    intro zero
    have first : (numeral 10 n).head? = some 0 := by
      rw [← map_digitOf_text, List.head?_map, zero]
      rfl
    rw [← value_numeral 10 n, (plain_numeral 10 n).2 first]
    rfl
  next =>
    rintro rfl
    rfl

-- A digit string without superfluous leading zeros is the text of its number.
theorem text_number {s : List U8} (nonempty : s ≠ []) (digits : ∀ c ∈ s, isDigit c = true)
    (plain : s.head? = some 48#8 → s = [48#8]) : text (number s) = s := by
  have numeral_plain : Plain (s.map digitOf) := by
    refine ⟨by simpa using nonempty, ?_⟩
    intro zero
    obtain ⟨c, rest, rfl⟩ := List.exists_cons_of_ne_nil nonempty
    have first : c = 48#8 := (digitOf_eq_zero (digits c (by simp))).mp (by simpa using zero)
    rw [plain (by rw [first]; rfl)]
    rfl
  have small : ∀ digit ∈ s.map digitOf, digit < 10 := by
    intro digit member
    obtain ⟨c, inside, rfl⟩ := List.mem_map.mp member
    exact digitOf_lt (digits c inside)
  rw [text, number, numeral_value (by decide) numeral_plain small, map_digitChar_digitOf digits]

theorem digitLoop_spec (fuel : Nat) (n : U32) {size : Nat} {tmp : Vector U8 size} {l : List U8}
    (held : Holds tmp 0 l) (fueled : (Nat.digits 10 n.toNat).length < fuel)
    (fits : l.length + (Nat.digits 10 n.toNat).length ≤ size) :
    ∃ tmp', digitLoop fuel n tmp l.length =
        some (tmp', l.length + (Nat.digits 10 n.toNat).length) ∧
      Holds tmp' 0 (l ++ (Nat.digits 10 n.toNat).map digitChar) := by
  induction fuel generalizing n tmp l with
  | zero => omega
  | succ fuel ih =>
      by_cases zero : n = 0#32
      · subst zero
        refine ⟨tmp, by simp [digitLoop], by simpa using held⟩
      · have positive : n.toNat ≠ 0 := fun h => zero (BitVec.eq_of_toNat_eq h)
        have split : Nat.digits 10 n.toNat =
            n.toNat % 10 :: Nat.digits 10 (n / 10#32).toNat := by
          rw [Nat.digits_def' (by decide) (Nat.pos_of_ne_zero positive)]
          rfl
        rw [split, List.length_cons] at fueled fits
        have inside : l.length < size := by omega
        have digit : (48#32 + n % 10#32).setWidth 8 = digitChar (n.toNat % 10) := by
          rw [digitChar]
          congr 2
          apply BitVec.eq_of_toNat_eq
          have ten : (10#32).toNat = 10 := rfl
          have small : n.toNat % 10 < 2 ^ 32 := by omega
          rw [BitVec.toNat_umod, ten, BitVec.toNat_ofNat, Nat.mod_eq_of_lt small]
        have pushed : Holds (tmp.set l.length (digitChar (n.toNat % 10)) inside) 0
            (l ++ [digitChar (n.toNat % 10)]) := by
          have push := held.push (digitChar (n.toNat % 10)) (by omega)
          simpa only [Nat.zero_add] using push
        obtain ⟨tmp', run, held'⟩ := ih (n / 10#32) pushed (by omega)
          (by rw [List.length_append, List.length_singleton]; omega)
        refine ⟨tmp', ?_, ?_⟩
        · rw [digitLoop, if_neg zero, digit, put_of_lt tmp _ inside]
          rw [List.length_append, List.length_singleton] at run
          rw [split, List.length_cons]
          simp only [Option.bind_eq_bind, Option.bind_some, run]
          congr 2
          omega
        · rw [split, List.map_cons, List.append_cons]
          exact held'

theorem copyLoop_spec {size size' : Nat} {tmp : Vector U8 size} {buf : Vector U8 size'}
    {t l : List U8} (source : Holds tmp 0 t) (held : Holds buf 0 l)
    (fits : l.length + t.length ≤ size') :
    ∃ buf', copyLoop tmp t.length buf l.length = some (buf', l.length + t.length) ∧
      Holds buf' 0 (l ++ t.reverse) ∧
      ∀ i, l.length + t.length ≤ i → buf'[i]? = buf[i]? := by
  induction t using List.reverseRecOn generalizing buf l with
  | nil => exact ⟨buf, rfl, by simpa using held, fun _ _ => rfl⟩
  | append_singleton t c ih =>
      obtain ⟨front, last⟩ := holds_append.mp source
      rw [holds_singleton, Nat.zero_add] at last
      rw [List.length_append, List.length_singleton] at fits ⊢
      have inside : l.length < size' := by omega
      have pushed : Holds (buf.set l.length c inside) 0 (l ++ [c]) := by
        have push := held.push c (by omega)
        simpa only [Nat.zero_add] using push
      obtain ⟨buf', run, held', frame⟩ := ih front pushed (by simp; omega)
      rw [List.length_append, List.length_singleton] at run frame
      refine ⟨buf', ?_, ?_, ?_⟩
      · simp only [copyLoop, last, put_of_lt buf c inside, Option.bind_eq_bind, Option.bind_some,
          run]
        congr 2
        omega
      · rw [List.reverse_append, ← List.append_assoc]
        exact held'
      · intro i beyond
        rw [frame i (by omega)]
        exact Vector.getElem?_set_ne inside (by omega)

theorem shItoa_spec {size : Nat} (n : U32) (tmp : Vector U8 12) (buf : Vector U8 size)
    (fits : (text n.toNat).length < size) :
    ∃ buf', shItoa n tmp buf = some buf' ∧ stringAt 0#8 buf' 0 = some (text n.toNat) ∧
      ∀ i, (text n.toNat).length < i → buf'[i]? = buf[i]? := by
  suffices written : ∃ buf', shItoa n tmp buf = some buf' ∧
      Holds buf' 0 (text n.toNat ++ [0#8]) ∧
      ∀ i, (text n.toNat).length < i → buf'[i]? = buf[i]? by
    obtain ⟨buf', run, held, frame⟩ := written
    refine ⟨buf', run, stringAt_eq_some.mpr ⟨?_, held⟩, frame⟩
    intro nul
    exact absurd (text_digit nul) (by decide)
  by_cases zero : n = 0#32
  · subst zero
    have two : 1 < size := fits
    refine ⟨(buf.set 0 48#8 (by omega)).set 1 0#8 two, ?_, ?_, ?_⟩
    · rw [shItoa, if_pos rfl, put_of_lt buf _ (by omega)]
      exact put_of_lt _ _ two
    · have first : Holds (buf.set 0 48#8 (by omega)) 0 [48#8] :=
        holds_singleton.mpr (Vector.getElem?_set_self _)
      exact first.push 0#8 two
    · intro i beyond
      have apart : 1 < i := beyond
      rw [Vector.getElem?_set_ne two (by omega), Vector.getElem?_set_ne _ (by omega)]
  · have positive : n.toNat ≠ 0 := fun h => zero (BitVec.eq_of_toNat_eq h)
    have reversed := text_of_ne_zero positive
    have short := text_length n
    rw [reversed, List.length_reverse, List.length_map] at short fits ⊢
    obtain ⟨tmp', filled, digits⟩ := digitLoop_spec digitFuel n (holds_nil tmp 0)
      (by rw [digitFuel]; omega) (by simp; omega)
    rw [List.nil_append] at digits
    obtain ⟨buf', copied, held, frame⟩ := copyLoop_spec digits (holds_nil buf 0) (by simp; omega)
    simp only [List.length_nil, Nat.zero_add, List.length_map, List.nil_append] at filled copied held frame
    refine ⟨buf'.set _ 0#8 fits, ?_, ?_, ?_⟩
    · rw [shItoa, if_neg zero, filled]
      simp only [Option.bind_eq_bind, Option.bind_some, copied]
      exact put_of_lt _ _ fits
    · have push := held.push 0#8 (by simpa using fits)
      simpa using push
    · intro i beyond
      rw [Vector.getElem?_set_ne fits (by omega)]
      exact frame i (by omega)

theorem parseTarget_digits {s rest : List U8} (digits : ∀ c ∈ s, isDigit c = true)
    (stop : ∀ c ∈ rest.head?, ¬isDigit c = true) :
    (Kernel.parseTarget (s ++ rest) 0#32).toNat = number s % 2 ^ 32 := by
  rw [parseTarget_toNat, leading_of_digits digits stop]
  rfl

theorem parseTarget_text (n : U32) {rest : List U8} (stop : ∀ c ∈ rest.head?, ¬isDigit c = true) :
    Kernel.parseTarget (text n.toNat ++ rest) 0#32 = n := by
  apply BitVec.eq_of_toNat_eq
  rw [parseTarget_digits (fun c => text_digit) stop, number_text]
  exact Nat.mod_eq_of_lt n.isLt

theorem itoa_round_trip :
    (∀ (n : U32) (tmp buf : Vector U8 12), ∃ buf' s, shItoa n tmp buf = some buf' ∧
      stringAt 0#8 buf' 0 = some s ∧ s ≠ [] ∧ s.length ≤ 10 ∧ (∀ c ∈ s, isDigit c = true) ∧
      (s.head? = some 48#8 → n = 0#32 ∧ s = [48#8]) ∧
      (∀ i, s.length < i → buf'[i]? = buf[i]?) ∧
      Kernel.parseTarget buf'.toList 0#32 = n) ∧
    (∀ s : List U8, s ≠ [] → (∀ c ∈ s, isDigit c = true) → (s.head? = some 48#8 → s = [48#8]) →
      number s < 2 ^ 32 → ∀ tmp buf : Vector U8 12, ∃ buf',
        shItoa (Kernel.parseTarget s 0#32) tmp buf = some buf' ∧ stringAt 0#8 buf' 0 = some s) := by
  constructor
  next =>
    intro n tmp buf
    have short := text_length n
    obtain ⟨buf', run, shown, frame⟩ := shItoa_spec n tmp buf (by omega)
    refine ⟨buf', text n.toNat, run, shown, text_ne_nil _, short, fun c => text_digit, ?_, frame, ?_⟩
    · intro zero
      have nought : n.toNat = 0 := (text_zero_iff _).mp zero
      refine ⟨BitVec.eq_of_toNat_eq nought, ?_⟩
      rw [nought]
      rfl
    · -- the digits are followed by the NUL, which stops the loop
      obtain ⟨-, rest, split⟩ := string_eq_some.mp shown
      rw [List.drop_zero] at split
      rw [split]
      exact parseTarget_text n (by simp [isDigit])
  next =>
    intro s nonempty digits plain small tmp buf
    have value : (Kernel.parseTarget s 0#32).toNat = number s := by
      have stop : ∀ c ∈ ([] : List U8).head?, ¬isDigit c = true := by simp
      have parsed := parseTarget_digits digits stop
      rwa [List.append_nil, Nat.mod_eq_of_lt small] at parsed
    have short := text_length (Kernel.parseTarget s 0#32)
    obtain ⟨buf', run, shown, -⟩ := shItoa_spec (Kernel.parseTarget s 0#32) tmp buf (by omega)
    rw [value, text_number nonempty digits plain] at shown
    exact ⟨buf', run, shown⟩

theorem itoa_round_trip_4096 : ∃ buf', shItoa (Kernel.parseTarget [52#8, 48#8, 57#8, 54#8] 0#32)
    (Vector.replicate 12 0#8) (Vector.replicate 12 0xFF#8) = some buf' ∧
    stringAt 0#8 buf' 0 = some [52#8, 48#8, 57#8, 54#8] :=
  itoa_round_trip.2 _ (by decide) (by decide) (by decide) (by decide) _ _

end Shell

end SoraOS
