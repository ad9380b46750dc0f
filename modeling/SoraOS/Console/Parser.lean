import SoraOS.Console.Vga
import SoraOS.Shared.Buffer
import SoraOS.Shared.Words

set_option autoImplicit false

/-! `shell_parse`, which cuts the line in place, and `shell_dispatch`. -/

namespace SoraOS

namespace Shell

open Buffer Words

def maxArgs : Nat := 16

def space : U8 := 0x20#8

def isSpace (c : U8) : Bool := decide (c = space)

def lineWords (s : List U8) : List (List U8) := words isSpace s

/-- The arguments of a command; a pointer is an index into the line. -/
structure Arguments (n : Nat) where
  line : Vector U8 n
  argc : Nat
  argv : Vector Nat maxArgs

section Parse

variable {n : Nat}

-- `while (*p == ' ') p++;`
def skipSpaces (chars : Vector U8 n) : Nat → Nat → Option Nat
  | 0, _ => none
  | fuel + 1, p => do
      let c ← chars[p]?
      if c = space then skipSpaces chars fuel (p + 1) else return p

-- `while (*p && *p != ' ') p++;`
def skipWord (chars : Vector U8 n) : Nat → Nat → Option Nat
  | 0, _ => none
  | fuel + 1, p => do
      let c ← chars[p]?
      if c ≠ 0#8 ∧ c ≠ space then skipWord chars fuel (p + 1) else return p

-- `if (*p) { *p = '\0'; p++; }`
def cutWord (chars : Vector U8 n) (p : Nat) : Option (Vector U8 n × Nat) := do
  let c ← chars[p]?
  if c ≠ 0#8 then
    let chars ← put chars p 0#8
    return (chars, p + 1)
  else return (chars, p)

-- The body of the outer loop, none inside for its `break`; the inner loops read the line only.
def parseWord (a : Arguments n) (p : Nat) : Option (Option (Arguments n × Nat)) := do
  let p ← skipSpaces a.line n p
  let c ← a.line[p]?
  if c = 0#8 then return none
  else
    let argv ← put a.argv a.argc p
    let p ← skipWord a.line n p
    let (chars, p) ← cutWord a.line p
    return some ({ line := chars, argc := a.argc + 1, argv := argv }, p)

-- `while (*p && argc < MAX_ARGS)`
def parseLoop : Nat → Arguments n → Nat → Option (Arguments n)
  | 0, _, _ => none
  | fuel + 1, a, p => do
      let c ← a.line[p]?
      if c ≠ 0#8 ∧ a.argc < maxArgs then
        match ← parseWord a p with
        | none => return a
        | some (a, p) => parseLoop fuel a p
      else return a

/--
What `shell_parse` gives to `shell_dispatch`, none inside when it returns before; none outside for
an access that leaves the line or `argv`, which starts with any pointers.
-/
def shellParse (chars : Vector U8 n) (argv : Vector Nat maxArgs) : Option (Option (Arguments n)) := do
  let start ← skipSpaces chars n 0
  let c ← chars[start]?
  if c = 0#8 then return none
  else
    let a ← parseLoop (maxArgs + 1) { line := chars, argc := 0, argv := argv } start
    return some a

def Arguments.arg (a : Arguments n) (i : Nat) : Option (List U8) := do
  let p ← a.argv[i]?
  stringAt 0#8 a.line p

end Parse

inductive Command where
  | help
  | clear
  | echo
  | ls
  | time
  | ps
  | threads
  | meminfo
  | newprocess
  | killprocess
  | reboot
  | exit
  | about
  | banner
  deriving DecidableEq

-- The entries before the one with a NULL name.
def commandTable : List (List U8 × Command) := [
  (Vga.ascii "help", .help),
  (Vga.ascii "clear", .clear),
  (Vga.ascii "echo", .echo),
  (Vga.ascii "ls", .ls),
  (Vga.ascii "time", .time),
  (Vga.ascii "ps", .ps),
  (Vga.ascii "threads", .threads),
  (Vga.ascii "meminfo", .meminfo),
  (Vga.ascii "newprocess", .newprocess),
  (Vga.ascii "killprocess", .killprocess),
  (Vga.ascii "reboot", .reboot),
  (Vga.ascii "exit", .exit),
  (Vga.ascii "about", .about),
  (Vga.ascii "banner", .banner)]

-- Both strings without their NULs; the end of a list is read as the NUL.
def shStrcmp : List U8 → List U8 → Int
  | [], [] => 0
  | a :: _, [] => a.toNat
  | [], b :: _ => -b.toNat
  | a :: s, b :: t => if a = b then shStrcmp s t else a.toNat - b.toNat

inductive Dispatched where
  | nothing
  | run (command : Command)
  | unknown (name : List U8)

def shellDispatch {n : Nat} (a : Arguments n) : Option Dispatched :=
  if a.argc = 0 then some .nothing
  else do
    let name ← a.arg 0
    match commandTable.find? fun entry => shStrcmp name entry.1 = 0 with
    | some entry => return .run entry.2
    | none => return .unknown name

theorem shStrcmp_eq_zero {s t : List U8} (sFree : 0#8 ∉ s) (tFree : 0#8 ∉ t) :
    shStrcmp s t = 0 ↔ s = t := by
  have positive {c : U8} (nonzero : c ≠ 0#8) : (c.toNat : Int) ≠ 0 := by
    intro zero
    exact nonzero (BitVec.eq_of_toNat_eq (by simpa using zero))
  induction s generalizing t with
  | nil =>
      cases t with
      | nil => simp [shStrcmp]
      | cons b t =>
          have nonzero := positive (c := b) fun h => tFree (by simp [h])
          simpa [shStrcmp] using nonzero
  | cons a s ih =>
      have nonzero := positive (c := a) fun h => sFree (by simp [h])
      cases t with
      | nil => simpa [shStrcmp] using nonzero
      | cons b t =>
          rw [shStrcmp]
          split
          next same =>
            have tails := ih (t := t) (fun member => sFree (by simp [member]))
              (fun member => tFree (by simp [member]))
            refine tails.trans ?_
            simp [same]
          next different =>
            have apart : a.toNat ≠ b.toNat := fun same => different (BitVec.eq_of_toNat_eq same)
            simp only [List.cons.injEq, different, false_and, iff_false]
            omega

section ParseSpec

variable {n : Nat}

theorem skipSpaces_spec {chars : Vector U8 n} {front rest : List U8} {c : U8} {fuel p : Nat}
    (held : Holds chars p (front ++ c :: rest)) (spaces : ∀ x ∈ front, isSpace x = true)
    (stop : c ≠ space) (fueled : front.length < fuel) :
    skipSpaces chars fuel p = some (p + front.length) := by
  induction front generalizing fuel p with
  | nil =>
      obtain ⟨fuel, rfl⟩ := Nat.exists_eq_add_of_lt fueled
      have read := (holds_cons.mp held).1
      simp [skipSpaces, read, stop]
  | cons x front ih =>
      obtain ⟨fuel, rfl⟩ : ∃ m, fuel = m + 1 := ⟨fuel - 1, by simp at fueled; omega⟩
      obtain ⟨read, later⟩ := holds_cons.mp held
      have blank : x = space := by simpa [isSpace] using spaces x (by simp)
      have rest := ih later (fun y member => spaces y (by simp [member])) (by simpa using fueled)
      rw [skipSpaces, read, Option.bind_eq_bind, Option.bind_some, if_pos blank, rest,
        List.length_cons]
      congr 1
      omega

theorem skipWord_spec {chars : Vector U8 n} {front rest : List U8} {c : U8} {fuel p : Nat}
    (held : Holds chars p (front ++ c :: rest))
    (word : ∀ x ∈ front, x ≠ 0#8 ∧ x ≠ space) (stop : ¬(c ≠ 0#8 ∧ c ≠ space))
    (fueled : front.length < fuel) : skipWord chars fuel p = some (p + front.length) := by
  induction front generalizing fuel p with
  | nil =>
      obtain ⟨fuel, rfl⟩ := Nat.exists_eq_add_of_lt fueled
      have read := (holds_cons.mp held).1
      rw [skipWord, read, Option.bind_eq_bind, Option.bind_some, if_neg stop]
      rfl
  | cons x front ih =>
      obtain ⟨fuel, rfl⟩ : ∃ m, fuel = m + 1 := ⟨fuel - 1, by simp at fueled; omega⟩
      obtain ⟨read, later⟩ := holds_cons.mp held
      have rest := ih later (fun y member => word y (by simp [member])) (by simpa using fueled)
      rw [skipWord, read, Option.bind_eq_bind, Option.bind_some, if_pos (word x (by simp)), rest,
        List.length_cons]
      congr 1
      omega

theorem skipSpaces_line {chars : Vector U8 n} {rest : List U8} {p : Nat}
    (held : Holds chars p (rest ++ [0#8])) :
    ∃ start tail, skipSpaces chars n p = some start ∧ Holds chars start (tail ++ [0#8]) ∧
      tail ⊆ rest ∧ lineWords tail = lineWords rest ∧ p ≤ start ∧
      start + tail.length = p + rest.length ∧ ∀ x ∈ tail.head?, isSpace x = false := by
  obtain ⟨spaces, tail, rfl, blank, stop⟩ := span isSpace rest
  rw [List.append_assoc] at held
  have bound := held.length_le (by simp)
  rw [List.length_append, List.length_append, List.length_singleton] at bound
  refine ⟨p + spaces.length, tail, ?_, (holds_append.mp held).2, List.subset_append_right _ _,
    (words_separators blank tail).symm, by omega, by rw [List.length_append]; omega, stop⟩
  cases tail with
  | nil => exact skipSpaces_spec held blank (by decide) (by omega)
  | cons x tail =>
      have plain : isSpace x = false := stop x rfl
      exact skipSpaces_spec held blank (by simpa [isSpace] using plain) (by omega)

theorem skipWord_line {chars : Vector U8 n} {w behind : List U8} {p : Nat}
    (held : Holds chars p (w ++ (behind ++ [0#8]))) (free : 0#8 ∉ w)
    (word : ∀ c ∈ w, isSpace c = false) (stop : ∀ c ∈ behind.head?, isSpace c = true) :
    skipWord chars n p = some (p + w.length) := by
  have bound := held.length_le (by simp)
  rw [List.length_append, List.length_append, List.length_singleton] at bound
  have inner : ∀ c ∈ w, c ≠ 0#8 ∧ c ≠ space := by
    intro c member
    refine ⟨?_, by simpa [isSpace] using word c member⟩
    rintro rfl
    exact free member
  cases behind with
  | nil => exact skipWord_spec held inner (by simp) (by omega)
  | cons y behind =>
      have blank : y = space := by simpa [isSpace] using stop y rfl
      exact skipWord_spec held inner (fun both => both.2 blank) (by omega)

-- Behind a word stands a space, which becomes its NUL, or the NUL of the line.
theorem cutWord_spec {chars : Vector U8 n} {rest : List U8} {p : Nat}
    (held : Holds chars p (rest ++ [0#8])) (free : 0#8 ∉ rest)
    (stop : ∀ x ∈ rest.head?, isSpace x = true) :
    ∃ chars' p' later, cutWord chars p = some (chars', p') ∧ Holds chars' p' (later ++ [0#8]) ∧
      0#8 ∉ later ∧ lineWords later = lineWords rest ∧ p' + later.length = p + rest.length ∧
      chars'[p]? = some 0#8 ∧ (∀ i, i ≠ p ∨ rest = [] → chars'[i]? = chars[i]?) ∧
      (p' = p ∧ later = [] ∨ p' = p + 1) := by
  cases rest with
  | nil =>
      have read : chars[p]? = some 0#8 := holds_singleton.mp held
      refine ⟨chars, p, [], ?_, held, free, rfl, rfl, read, fun _ _ => rfl, Or.inl ⟨rfl, rfl⟩⟩
      simp [cutWord, read]
  | cons x rest =>
      obtain ⟨read, later⟩ := holds_cons.mp held
      have nonzero : x ≠ 0#8 := fun zero => free (by simp [zero])
      have inside : p < n := (Vector.getElem?_eq_some_iff.mp read).1
      refine ⟨chars.set p 0#8 inside, p + 1, rest, ?_, later.set inside (Or.inl (by omega)),
        fun member => free (by simp [member]), ?_, by simp; omega, Vector.getElem?_set_self _, ?_,
        Or.inr rfl⟩
      · rw [cutWord, read, Option.bind_eq_bind, Option.bind_some, if_pos nonzero,
          put_of_lt chars 0#8 inside]
        rfl
      · exact (words_cons_sep rest (stop x rfl)).symm
      · rintro i (apart | empty)
        · exact Vector.getElem?_set_ne inside (Ne.symm apart)
        · cases empty

/-- What one turn does that finds the word `w` and leaves `later` to be read from `p'` on. -/
structure WordCut (a : Arguments n) (p : Nat) (rest : List U8) (b : Arguments n) (p' : Nat)
    (w later : List U8) : Prop where
  words : lineWords rest = w :: lineWords later
  argc : b.argc = a.argc + 1
  unread : Holds b.line p' (later ++ [0#8])
  free : 0#8 ∉ later
  length : p' + later.length = p + rest.length
  ahead : p ≤ p'
  -- the word stays a string as long as only unread bytes change
  pointer : ∃ q, b.argv[a.argc]? = some q ∧ ∀ chars : Vector U8 n,
    (∀ i, i < p' ∨ p' + later.length ≤ i → chars[i]? = b.line[i]?) → stringAt 0#8 chars q = some w
  others : ∀ i, i ≠ a.argc → b.argv[i]? = a.argv[i]?
  before : ∀ i, i < p → b.line[i]? = a.line[i]?
  after : ∀ i, p + rest.length ≤ i → b.line[i]? = a.line[i]?

theorem parseWord_spec {a : Arguments n} {rest : List U8} {p : Nat}
    (held : Holds a.line p (rest ++ [0#8])) (free : 0#8 ∉ rest) (room : a.argc < maxArgs) :
    (lineWords rest = [] ∧ parseWord a p = some none) ∨
    ∃ b p' w later, parseWord a p = some (some (b, p')) ∧ WordCut a p rest b p' w later := by
  obtain ⟨start, tail, skip, there, part, skipped, ahead, sameEnd, stopped⟩ := skipSpaces_line held
  cases tail with
  | nil =>
      have read := holds_singleton.mp there
      exact Or.inl ⟨skipped.symm, by simp [parseWord, skip, read]⟩
  | cons x tail =>
      obtain ⟨read, -⟩ := holds_cons.mp there
      have nonzero : x ≠ 0#8 := fun zero => free (part (by simp [zero]))
      obtain ⟨w, behind, split, nonempty, word, stop, firstWord⟩ := first_word tail (stopped x rfl)
      have unzero : 0#8 ∉ w ∧ 0#8 ∉ behind := by
        rw [← not_or, ← List.mem_append, ← split]
        exact fun member => free (part member)
      rw [split, List.length_append] at sameEnd
      rw [split, List.append_assoc] at there
      have ended := skipWord_line there unzero.1 word stop
      obtain ⟨chars, p', later, cut, unread, free', words, length, nul, frame, next⟩ :=
        cutWord_spec (holds_append.mp there).2 unzero.2 stop
      refine Or.inr ⟨⟨chars, a.argc + 1, a.argv.set a.argc start room⟩, p', w, later, ?_, ?_⟩
      · simp only [parseWord, skip, read, if_neg nonzero, put_of_lt a.argv _ room, ended, cut,
          Option.bind_eq_bind, Option.bind_some, Option.pure_def]
      refine ⟨?_, rfl, unread, free', by omega, by omega, ⟨start, ?_, ?_⟩, ?_, ?_, ?_⟩
      · rw [← skipped, words]
        exact firstWord
      · exact Vector.getElem?_set_self room
      · intro chars' same
        refine stringAt_eq_some.mpr ⟨unzero.1, holds_append.mpr ⟨?_, ?_⟩⟩
        · apply (holds_append.mp there).1.congr
          intro i low high
          rw [same i (by omega), frame i (Or.inl (by omega))]
        · refine holds_singleton.mpr ((same _ ?_).trans nul)
          rcases next with ⟨here, rfl⟩ | further
          · exact Or.inr (by simp [here])
          · exact Or.inl (by omega)
      · intro i apart
        exact Vector.getElem?_set_ne room (Ne.symm apart)
      · intro i early
        exact frame i (Or.inl (by omega))
      · intro i beyond
        rw [← sameEnd] at beyond
        apply frame
        cases behind with
        | nil => exact Or.inr rfl
        | cons y behind =>
            rw [List.length_cons] at beyond
            exact Or.inl (by omega)

structure Parsed (a : Arguments n) (p : Nat) (rest : List U8) (b : Arguments n) : Prop where
  argc : b.argc = min (a.argc + (lineWords rest).length) maxArgs
  earlier : ∀ i, i < a.argc → b.argv[i]? = a.argv[i]?
  cut : ∀ j, a.argc + j < b.argc → ∃ w, (lineWords rest)[j]? = some w ∧ b.arg (a.argc + j) = some w
  unused : ∀ i, b.argc ≤ i → b.argv[i]? = a.argv[i]?
  before : ∀ i, i < p → b.line[i]? = a.line[i]?
  after : ∀ i, p + rest.length ≤ i → b.line[i]? = a.line[i]?

theorem Parsed.refl {a : Arguments n} {p : Nat} {rest : List U8}
    (argc : a.argc = min (a.argc + (lineWords rest).length) maxArgs) : Parsed a p rest a :=
  ⟨argc, fun _ _ => rfl, fun j beyond => absurd beyond (by omega), fun _ _ => rfl, fun _ _ => rfl,
    fun _ _ => rfl⟩

theorem WordCut.parsed {a b c : Arguments n} {rest w later : List U8} {p p' : Nat}
    (turn : WordCut a p rest b p' w later) (more : Parsed b p' later c) (room : a.argc < maxArgs) :
    Parsed a p rest c := by
  have count := more.argc
  have length := turn.length
  have ahead := turn.ahead
  rw [turn.argc] at count
  refine ⟨?_, ?_, ?_, ?_, ?_, ?_⟩
  · rw [turn.words, List.length_cons, count]
    omega
  · intro i early
    rw [more.earlier i (by rw [turn.argc]; omega), turn.others i (by omega)]
  · intro j inside
    rw [turn.words]
    cases j with
    | zero =>
        obtain ⟨q, pointer, stays⟩ := turn.pointer
        refine ⟨w, rfl, ?_⟩
        have same : c.argv[a.argc]? = some q := by
          rw [more.earlier a.argc (by rw [turn.argc]; omega), pointer]
        rw [Arguments.arg, Nat.add_zero, same, Option.bind_eq_bind, Option.bind_some]
        apply stays
        rintro i (earlier | beyond)
        · exact more.before i earlier
        · exact more.after i beyond
    | succ j =>
        have index : b.argc + j = a.argc + (j + 1) := by
          rw [turn.argc]
          omega
        have found := more.cut j (by omega)
        rw [index] at found
        exact found
  · intro i beyond
    rw [more.unused i beyond, turn.others i (by omega)]
  · intro i early
    rw [more.before i (by omega), turn.before i early]
  · intro i beyond
    rw [more.after i (by omega), turn.after i beyond]

theorem parseLoop_spec (fuel : Nat) (a : Arguments n) {rest : List U8} {p : Nat}
    (held : Holds a.line p (rest ++ [0#8])) (free : 0#8 ∉ rest) (room : a.argc ≤ maxArgs)
    (fueled : maxArgs - a.argc < fuel) :
    ∃ b, parseLoop fuel a p = some b ∧ Parsed a p rest b := by
  induction fuel generalizing a rest p with
  | zero => omega
  | succ fuel ih =>
      cases rest with
      | nil =>
          have read : a.line[p]? = some 0#8 := holds_singleton.mp held
          refine ⟨a, by simp [parseLoop, read], Parsed.refl ?_⟩
          simp [lineWords, room]
      | cons x rest =>
          have read : a.line[p]? = some x := (holds_cons.mp held).1
          have nonzero : x ≠ 0#8 := fun zero => free (by simp [zero])
          rw [parseLoop, read, Option.bind_eq_bind, Option.bind_some]
          by_cases full : a.argc < maxArgs
          · rw [if_pos ⟨nonzero, full⟩]
            rcases parseWord_spec held free full with ⟨none, run⟩ | ⟨b, p', w, later, run, turn⟩
            · refine ⟨a, by rw [run]; rfl, Parsed.refl ?_⟩
              rw [none, List.length_nil]
              omega
            · have argc := turn.argc
              obtain ⟨c, rest, more⟩ := ih _ turn.unread turn.free (by omega) (by omega)
              exact ⟨c, by rw [run]; exact rest, turn.parsed more full⟩
          · -- the table is full
            rw [if_neg fun both => full both.2]
            refine ⟨a, rfl, Parsed.refl ?_⟩
            omega

theorem shellParse_spec {chars : Vector U8 n} {s : List U8} (argv : Vector Nat maxArgs)
    (isLine : stringAt 0#8 chars 0 = some s) :
    (lineWords s = [] ∧ shellParse chars argv = some none) ∨
    lineWords s ≠ [] ∧ ∃ a p rest, shellParse chars argv = some (some a) ∧
      lineWords rest = lineWords s ∧ p + rest.length = s.length ∧ Parsed ⟨chars, 0, argv⟩ p rest a := by
  obtain ⟨free, held⟩ := stringAt_eq_some.mp isLine
  obtain ⟨start, tail, skip, there, part, skipped, -, sameEnd, stopped⟩ := skipSpaces_line held
  rw [Nat.zero_add] at sameEnd
  cases tail with
  | nil =>
      have read := holds_singleton.mp there
      exact Or.inl ⟨skipped.symm, by simp [shellParse, skip, read]⟩
  | cons x tail =>
      obtain ⟨read, -⟩ := holds_cons.mp there
      have nonzero : x ≠ 0#8 := fun zero => free (part (by simp [zero]))
      obtain ⟨a, run, parsed⟩ := parseLoop_spec (maxArgs + 1) ⟨chars, 0, argv⟩ there
        (fun member => free (part member)) (Nat.zero_le _) (Nat.lt_succ_self _)
      refine Or.inr ⟨?_, a, start, x :: tail, ?_, skipped, sameEnd, parsed⟩
      · obtain ⟨w, behind, -, -, -, -, firstWord⟩ := first_word tail (stopped x rfl)
        rw [← skipped, lineWords, firstWord]
        exact List.cons_ne_nil _ _
      · simp only [shellParse, skip, read, if_neg nonzero, run, Option.bind_eq_bind,
          Option.bind_some, Option.pure_def]

theorem commandTable_names :
    (commandTable.map Prod.fst).Nodup ∧ ∀ entry ∈ commandTable, 0#8 ∉ entry.1 := by
  decide +kernel

theorem shellDispatch_spec {a : Arguments n} {w : List U8} (some_args : a.argc ≠ 0)
    (named : a.arg 0 = some w) :
    ∃ d, shellDispatch a = some d ∧ ∀ c, d = .run c ↔ (w, c) ∈ commandTable := by
  have reads := named
  rw [Arguments.arg] at reads
  obtain ⟨q, -, shown⟩ := Option.bind_eq_some_iff.mp reads
  have free := (stringAt_eq_some.mp shown).1
  obtain ⟨distinct, unzero⟩ := commandTable_names
  rw [shellDispatch, if_neg some_args, named, Option.bind_eq_bind, Option.bind_some]
  cases found : commandTable.find? fun entry => shStrcmp w entry.1 = 0 with
  | some entry =>
      have listed := List.mem_of_find?_eq_some found
      have same : w = entry.1 :=
        (shStrcmp_eq_zero free (unzero entry listed)).mp (by simpa using List.find?_some found)
      refine ⟨.run entry.2, rfl, ?_⟩
      intro c
      rw [same, Dispatched.run.injEq]
      constructor
      next =>
        rintro rfl
        exact listed
      next =>
        intro other
        exact congrArg Prod.snd (List.inj_on_of_nodup_map distinct listed other rfl)
  | none =>
      refine ⟨.unknown w, rfl, ?_⟩
      intro c
      constructor
      next => exact fun impossible => nomatch impossible
      next =>
        intro listed
        have differs := List.find?_eq_none.mp found _ listed
        simp [(shStrcmp_eq_zero free free).mpr rfl] at differs

end ParseSpec

/--
A line without words is not dispatched. Otherwise the first 16 words become the arguments, only
bytes of the line and pointers of the table change, and the handler that runs is the one of the
entry whose name is the first word.
-/
theorem command_line {n : Nat} (chars : Vector U8 n) (argv : Vector Nat maxArgs) (s : List U8)
    (isLine : stringAt 0#8 chars 0 = some s) :
    (lineWords s = [] → shellParse chars argv = some none) ∧
    ∀ w others, lineWords s = w :: others → ∃ a, shellParse chars argv = some (some a) ∧
      a.argc = min (lineWords s).length 16 ∧
      (∀ i, i < a.argc → ∃ word, (lineWords s)[i]? = some word ∧ a.arg i = some word) ∧
      (∀ i, s.length ≤ i → a.line[i]? = chars[i]?) ∧
      (∀ i, a.argc ≤ i → a.argv[i]? = argv[i]?) ∧
      ∃ d, shellDispatch a = some d ∧ ∀ c, d = .run c ↔ (w, c) ∈ commandTable := by
  rcases shellParse_spec argv isLine with ⟨none, run⟩ |
    ⟨some_words, a, p, rest, run, words, length, parsed⟩
  · refine ⟨fun _ => run, ?_⟩
    intro w others first
    rw [none] at first
    cases first
  · refine ⟨fun none => absurd none some_words, ?_⟩
    intro w others first
    have argc : a.argc = min (lineWords s).length 16 := by
      rw [parsed.argc, words, Nat.zero_add]
      rfl
    have positive : 0 < a.argc := by
      rw [argc, first, List.length_cons]
      omega
    have cut : ∀ i, i < a.argc → ∃ word, (lineWords s)[i]? = some word ∧ a.arg i = some word := by
      intro i inside
      have found := parsed.cut i (by simpa using inside)
      rw [words] at found
      simpa using found
    refine ⟨a, run, argc, cut, ?_, parsed.unused, ?_⟩
    · intro i beyond
      exact parsed.after i (by omega)
    · obtain ⟨word, found, named⟩ := cut 0 positive
      rw [first] at found
      obtain rfl := Option.some.inj found
      exact shellDispatch_spec (by omega) named

theorem command_line_echo :
    ∃ a, shellParse #v[0x20#8, 0x65#8, 0x63#8, 0x68#8, 0x6F#8, 0x20#8, 0x20#8, 0x68#8, 0x69#8,
        0x20#8, 0x00#8] (Vector.replicate 16 0) = some (some a) ∧ a.argc = 2 ∧
      (∃ word, (lineWords (Vga.ascii " echo  hi "))[1]? = some word ∧ a.arg 1 = some word) ∧
      ∃ d, shellDispatch a = some d ∧ ∀ c, d = .run c ↔ (Vga.ascii "echo", c) ∈ commandTable := by
  obtain ⟨a, run, argc, cut, -, -, handled⟩ := (command_line #v[0x20#8, 0x65#8, 0x63#8, 0x68#8,
    0x6F#8, 0x20#8, 0x20#8, 0x68#8, 0x69#8, 0x20#8, 0x00#8] (Vector.replicate 16 0)
    (Vga.ascii " echo  hi ") (by decide)).2 (Vga.ascii "echo") [Vga.ascii "hi"] (by decide)
  have two : a.argc = 2 := argc.trans (by decide)
  exact ⟨a, run, two, cut 1 (by omega), handled⟩

end Shell

end SoraOS
