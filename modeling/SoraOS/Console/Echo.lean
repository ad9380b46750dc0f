import SoraOS.Console.Bounds
import SoraOS.Console.Parser

set_option autoImplicit false

/-! `cmd_echo` behind the tokeniser. -/

namespace SoraOS

namespace Shell

open Buffer Vga

-- The bytes that a call hands to `vga_putchar`.
def printedBy : Vga.Op → List U8
  | .vgaPutchar c => [c]
  | .vgaPrint s => s.takeWhile fun c => c ≠ 0#8
  | .vgaPrintColor s _ => s.takeWhile fun c => c ≠ 0#8
  | _ => []

def printed (calls : List Vga.Op) : List U8 := calls.flatMap printedBy

def echoLoop {n : Nat} (a : Arguments n) : Nat → Nat → Option (List Vga.Op)
  | 0, _ => some []
  | left + 1, i => do
      let s ← a.arg i
      let later ← echoLoop a left (i + 1)
      if i < a.argc - 1 then return .vgaPrint s :: .vgaPutchar space :: later
      else return .vgaPrint s :: later

def cmdEcho {n : Nat} (a : Arguments n) : Option (List Vga.Op) := do
  let calls ← echoLoop a (a.argc - 1) 1
  return calls ++ [.vgaPutchar newline]

-- The words after the first, with single spaces between them, and a newline.
def echoText (words : List (List U8)) : List U8 := [space].intercalate words.tail ++ [newline]

def EchoesAll {n : Nat} (line : Vector U8 n) (argv : Vector Nat maxArgs) (s : List U8) : Prop :=
  ∃ a calls, shellParse line argv = some (some a) ∧ shellDispatch a = some (.run .echo) ∧
    cmdEcho a = some calls ∧ printed calls = echoText (lineWords s)

theorem vgaPrint_eq_foldl (v : Vga) (s : List U8) :
    v.vgaPrint s = (s.takeWhile fun c => c ≠ 0#8).foldl vgaPutchar v := by
  induction s generalizing v with
  | nil => rfl
  | cons c s ih =>
      rw [vgaPrint]
      by_cases nul : c = 0#8
      · rw [if_pos nul, List.takeWhile_cons_of_neg (by simp [nul])]
        rfl
      · rw [if_neg nul, List.takeWhile_cons_of_pos (by simp [nul]), ih, List.foldl_cons]

theorem printed_append (calls later : List Vga.Op) :
    printed (calls ++ later) = printed calls ++ printed later :=
  List.flatMap_append

theorem takeWhile_unzero {s : List U8} (free : 0#8 ∉ s) : (s.takeWhile fun c => c ≠ 0#8) = s := by
  rw [List.takeWhile_eq_self_iff]
  intro c member
  have nonzero : c ≠ 0#8 := by
    rintro rfl
    exact free member
  simpa using nonzero

theorem arg_unzero {n : Nat} {a : Arguments n} {i : Nat} {w : List U8} (shown : a.arg i = some w) :
    0#8 ∉ w := by
  rw [Arguments.arg] at shown
  obtain ⟨q, -, reads⟩ := Option.bind_eq_some_iff.mp shown
  exact (stringAt_eq_some.mp reads).1

theorem echoLoop_spec {n : Nat} {a : Arguments n} {words : List (List U8)} {i : Nat}
    (last : i + words.length = a.argc)
    (shown : ∀ j w, words[j]? = some w → a.arg (i + j) = some w) :
    ∃ calls, echoLoop a words.length i = some calls ∧
      printed calls = [space].intercalate words ∧
      ∀ v : Vga, calls.foldl perform v = (printed calls).foldl vgaPutchar v := by
  induction words generalizing i with
  | nil => exact ⟨[], rfl, rfl, fun _ => rfl⟩
  | cons w words ih =>
      rw [List.length_cons] at last
      have here : a.arg i = some w := shown 0 w rfl
      obtain ⟨calls, run, text, effect⟩ := ih (i := i + 1) (by omega) fun j w' found => by
        have index : i + 1 + j = i + (j + 1) := by omega
        rw [index]
        exact shown (j + 1) w' found
      have unzero := takeWhile_unzero (arg_unzero here)
      cases words with
      | nil =>
          obtain rfl : calls = [] := by simpa [echoLoop] using run.symm
          refine ⟨[.vgaPrint w], ?_, ?_, ?_⟩
          · have noMore : ¬i < a.argc - 1 := by simp at last; omega
            simp [echoLoop, here, noMore]
          · simpa [printed, printedBy] using unzero
          · intro v
            simp [printed, printedBy, perform, vgaPrint_eq_foldl]
      | cons w' words =>
          have more : i < a.argc - 1 := by simp at last; omega
          refine ⟨.vgaPrint w :: .vgaPutchar space :: calls, ?_, ?_, ?_⟩
          · rw [List.length_cons, echoLoop]
            simp only [here, run, if_pos more, Option.bind_eq_bind, Option.bind_some,
              Option.pure_def]
          · have word : printedBy (.vgaPrint w) = w := unzero
            rw [List.intercalate_cons_cons, ← text, printed, List.flatMap_cons, List.flatMap_cons,
              word, printedBy, List.append_assoc]
            rfl
          · intro v
            simp only [List.foldl_cons, effect, printed, List.flatMap_cons, List.foldl_append]
            rw [perform, perform, printedBy, printedBy, vgaPrint_eq_foldl]
            rfl

theorem intercalate_length (c : U8) {words : List (List U8)} (nonempty : words ≠ []) :
    ([c].intercalate words).length + 1 = (words.map fun w => w.length + 1).sum := by
  induction words with
  | nil => exact absurd rfl nonempty
  | cons w words ih =>
      cases words with
      | nil => simp
      | cons w' words =>
          rw [List.intercalate_cons_cons, List.map_cons, List.sum_cons, ← ih (by simp)]
          simp
          omega

theorem intercalate_take {words : List (List U8)} {k : Nat} (positive : 0 < k)
    (same : [space].intercalate (words.take k) = [space].intercalate words) : words.length ≤ k := by
  by_contra more
  have front : words.take k ≠ [] := by
    intro empty
    have none := congrArg List.length empty
    rw [List.length_take, List.length_nil] at none
    omega
  have whole : words ≠ [] := by
    rintro rfl
    exact more (Nat.zero_le k)
  obtain ⟨w, behind, rest⟩ := List.exists_cons_of_ne_nil
    (show words.drop k ≠ [] by simpa using Nat.lt_of_not_le more)
  -- each word that is left out would add to the length
  have parts : (words.map fun w => w.length + 1).sum =
      ((words.take k).map fun w => w.length + 1).sum + ((words.drop k).map fun w => w.length + 1).sum := by
    rw [← List.sum_append, ← List.map_append, List.take_append_drop]
  rw [rest, List.map_cons, List.sum_cons, ← intercalate_length space front,
    ← intercalate_length space whole, same] at parts
  omega

theorem cmdEcho_spec {n : Nat} {line : Vector U8 n} {s : List U8} (argv : Vector Nat maxArgs)
    (isLine : stringAt 0#8 line 0 = some s)
    (first : (lineWords s).head? = some (ascii "echo")) :
    ∃ a calls, shellParse line argv = some (some a) ∧ shellDispatch a = some (.run .echo) ∧
      cmdEcho a = some calls ∧ printed calls = echoText ((lineWords s).take 16) ∧
      ∀ v : Vga, calls.foldl perform v = (printed calls).foldl vgaPutchar v := by
  obtain ⟨others, words⟩ : ∃ others, lineWords s = ascii "echo" :: others := by
    cases split : lineWords s with
    | nil => simp [split] at first
    | cons w others =>
        rw [split] at first
        exact ⟨others, by rw [Option.some.inj first]⟩
  rcases shellParse_spec argv isLine with ⟨none, run⟩ | ⟨-, a, p, rest, run, same, -, parsed⟩
  · rw [none] at words
    cases words
  rw [words] at same
  have argc : a.argc = min (others.length + 1) 16 := by
    rw [parsed.argc, same, Nat.zero_add]
    rfl
  have shown : ∀ j w, (others.take 15)[j]? = some w → a.arg (1 + j) = some w := by
    intro j w found
    have inside := (List.getElem?_eq_some_iff.mp found).1
    rw [List.length_take] at inside
    obtain ⟨w', cut, shown⟩ := parsed.cut (1 + j) (by rw [argc]; simp; omega)
    rw [same, Nat.add_comm, List.getElem?_cons_succ] at cut
    rw [List.getElem?_take_of_lt (by omega), cut] at found
    obtain rfl := Option.some.inj found
    simpa using shown
  obtain ⟨w, cut, named⟩ := parsed.cut 0 (by rw [argc]; simp)
  rw [same] at cut
  obtain rfl := Option.some.inj cut
  obtain ⟨d, handled, which⟩ := shellDispatch_spec (by omega) named
  obtain rfl := (which .echo).mpr (by decide)
  have length : (others.take 15).length = a.argc - 1 := by
    rw [List.length_take, argc]
    omega
  obtain ⟨calls, looped, text, effect⟩ := echoLoop_spec (by rw [length]; omega) shown
  rw [length] at looped
  refine ⟨a, calls ++ [.vgaPutchar newline], run, handled, ?_, ?_, ?_⟩
  · simp only [cmdEcho, looped, Option.bind_eq_bind, Option.bind_some, Option.pure_def]
  · rw [words, printed_append, text]
    rfl
  · intro v
    rw [List.foldl_append, effect, printed_append, List.foldl_append]
    rfl

/--
`echo` prints the words of the line up to the sixteenth; this is its whole text exactly when the
line has no more words.
-/
theorem echo_prints_all {n : Nat} (line : Vector U8 n) (argv : Vector Nat maxArgs) (s : List U8)
    (isLine : stringAt 0#8 line 0 = some s)
    (first : (lineWords s).head? = some (ascii "echo")) :
    EchoesAll line argv s ↔ (lineWords s).length ≤ 16 := by
  obtain ⟨a, calls, run, handled, echoed, text, -⟩ := cmdEcho_spec argv isLine first
  constructor
  next =>
    rintro ⟨a', calls', run', -, echoed', text'⟩
    cases run.symm.trans run'
    cases echoed.symm.trans echoed'
    have same := List.append_cancel_right (text.symm.trans text')
    cases words : lineWords s with
    | nil => exact Nat.zero_le _
    | cons w others =>
        rw [words] at same
        have few := intercalate_take (k := 15) (by decide) same
        rw [List.length_cons]
        omega
  next =>
    intro few
    rw [List.take_of_length_le few] at text
    exact ⟨a, calls, run, handled, echoed, text⟩

theorem echo_prints_all_two :
    EchoesAll #v[0x65#8, 0x63#8, 0x68#8, 0x6F#8, 0x20#8, 0x61#8, 0x20#8, 0x20#8, 0x62#8, 0x00#8]
      (Vector.replicate 16 0) (ascii "echo a  b") :=
  (echo_prints_all _ _ _ (by decide) (by decide)).mpr (by decide)

-- The sixteenth word after `echo` is not printed.
theorem echo_cut :
    ¬∀ (line : Vector U8 256) (argv : Vector Nat maxArgs) (s : List U8),
      stringAt 0#8 line 0 = some s → (lineWords s).head? = some (ascii "echo") →
      EchoesAll line argv s := by
  intro always
  let s := ascii "echo 1 2 3 4 5 6 7 8 9 10 11 12 13 14 15 16"
  let line : Vector U8 256 :=
    ⟨(s ++ List.replicate (256 - s.length) 0#8).toArray, by decide +kernel⟩
  have isLine : stringAt 0#8 line 0 = some s := by decide +kernel
  have first : (lineWords s).head? = some (ascii "echo") := by decide +kernel
  obtain ⟨a, calls, run, -, echoed, text⟩ := always _ (Vector.replicate 16 0) s isLine first
  obtain ⟨a', calls', run', -, echoed', text', -⟩ :=
    cmdEcho_spec (Vector.replicate 16 0) isLine first
  cases run.symm.trans run'
  cases echoed.symm.trans echoed'
  exact absurd (text.symm.trans text') (by decide +kernel)

end Shell

end SoraOS
