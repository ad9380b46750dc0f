import Mathlib.Data.List.Nodup
import Mathlib.Logic.Function.Basic

set_option autoImplicit false

/-!
# Singly linked lists threaded through a heap

A heap is a function `next` from cells to optional successors; a list is what
following `next` from a head pointer reads before the null pointer.  Loops over
such lists take fuel and return `none` when it runs out, so that a walk of a
cyclic heap is visibly different from one that ends.
-/

namespace PointerList

variable {B : Type}

/-- Following `next` from the head pointer reads exactly these cells, then null. -/
def Reads (next : B → Option B) : Option B → List B → Prop
  | head, [] => head = none
  | head, x :: xs => head = some x ∧ Reads next (next x) xs

instance Reads.decidable [DecidableEq B] (next : B → Option B) :
    (head : Option B) → (xs : List B) → Decidable (Reads next head xs)
  | head, [] => inferInstanceAs (Decidable (head = none))
  | head, x :: xs =>
      have := Reads.decidable next (next x) xs
      inferInstanceAs (Decidable (head = some x ∧ Reads next (next x) xs))

theorem Reads.unique {next : B → Option B} {head : Option B} {xs ys : List B}
    (hx : Reads next head xs) (hy : Reads next head ys) : xs = ys := by
  induction xs generalizing head ys with
  | nil =>
      cases ys with
      | nil => rfl
      | cons y ys =>
          have empty : head = none := hx
          simp [Reads, empty] at hy
  | cons x xs ih =>
      cases ys with
      | nil =>
          have empty : head = none := hy
          simp [Reads, empty] at hx
      | cons y ys =>
          obtain ⟨hxHead, hxTail⟩ := hx
          obtain ⟨hyHead, hyTail⟩ := hy
          obtain rfl : x = y := Option.some.inj (hxHead.symm.trans hyHead)
          rw [ih hxTail hyTail]

theorem Reads.suffix {next : B → Option B} {head : Option B} {xs ys : List B} {y : B}
    (h : Reads next head (xs ++ y :: ys)) : Reads next (some y) (y :: ys) := by
  induction xs generalizing head with
  | nil => exact ⟨rfl, h.2⟩
  | cons x xs ih => exact ih h.2

theorem Reads.nodup {next : B → Option B} {head : Option B} {xs : List B}
    (h : Reads next head xs) : xs.Nodup := by
  induction xs generalizing head with
  | nil => exact List.nodup_nil
  | cons x xs ih =>
      refine List.nodup_cons.mpr ⟨?_, ih h.2⟩
      intro again
      obtain ⟨front, back, split⟩ := List.append_of_mem again
      -- The suffix at the second visit would have to be the whole list.
      have later : Reads next (some x) (x :: back) := Reads.suffix (split ▸ h.2)
      have whole : Reads next (some x) (x :: xs) := ⟨rfl, h.2⟩
      have same := congrArg List.length (whole.unique later)
      simp [split] at same
      omega

theorem Reads.congr {next next' : B → Option B} {head : Option B} {xs : List B}
    (h : Reads next head xs) (same : ∀ x ∈ xs, next' x = next x) : Reads next' head xs := by
  induction xs generalizing head with
  | nil => exact h
  | cons x xs ih =>
      refine ⟨h.1, ?_⟩
      rw [same x (by simp)]
      exact ih h.2 (fun y member => same y (List.mem_cons_of_mem _ member))

theorem Reads.head_none {next : B → Option B} {xs : List B} (h : Reads next none xs) : xs = [] := by
  cases xs with
  | nil => rfl
  | cons x xs => simp [Reads] at h

theorem Reads.head_some {next : B → Option B} {x : B} {xs : List B}
    (h : Reads next (some x) xs) : ∃ rest, xs = x :: rest ∧ Reads next (next x) rest := by
  cases xs with
  | nil => simp [Reads] at h
  | cons y rest =>
      obtain ⟨same, tail⟩ := h
      obtain rfl : x = y := Option.some.inj same
      exact ⟨rest, rfl, tail⟩

theorem Reads.next_eq {next : B → Option B} {head : Option B} (xs ys : List B) {x : B}
    (h : Reads next head (xs ++ x :: ys)) : next x = ys.head? := by
  have tail := h.suffix.2
  cases ys with
  | nil => exact tail
  | cons y ys => exact tail.1

theorem Reads.head_eq {next : B → Option B} {head : Option B} {xs : List B}
    (h : Reads next head xs) : head = xs.head? := by
  cases xs with
  | nil => exact h
  | cons x xs => exact h.1

theorem Reads.next_mem {next : B → Option B} {head : Option B} {xs : List B} {x y : B}
    (h : Reads next head xs) (member : x ∈ xs) (link : next x = some y) : y ∈ xs := by
  obtain ⟨front, back, rfl⟩ := List.append_of_mem member
  have successor := h.next_eq front back
  rw [link] at successor
  have inBack : y ∈ back := List.mem_of_mem_head? successor.symm
  simp [inBack]

theorem Reads.next_ne_head {next : B → Option B} {x y : B} {xs : List B}
    (h : Reads next (some x) xs) (member : y ∈ xs) : next y ≠ some x := by
  intro link
  obtain ⟨front, back, rfl⟩ := List.append_of_mem member
  have distinct := h.nodup
  have later : x ∈ back := List.mem_of_mem_head? (h.next_eq front back ▸ link)
  cases front with
  | nil =>
      obtain rfl : x = y := Option.some.inj h.1
      exact (List.nodup_cons.mp distinct).1 later
  | cons z front =>
      obtain rfl : x = z := Option.some.inj h.1
      exact (List.nodup_cons.mp distinct).1 (by simp [later])

theorem Reads.next_injective {next : B → Option B} {head : Option B} {x y z : B} {xs : List B}
    (h : Reads next head xs) (memberX : x ∈ xs) (memberY : y ∈ xs) (linkX : next x = some z)
    (linkY : next y = some z) : x = y := by
  induction xs generalizing head with
  | nil => cases memberX
  | cons a xs ih =>
      rcases List.mem_cons.mp memberX with rfl | laterX
      · rcases List.mem_cons.mp memberY with rfl | laterY
        · rfl
        · exact absurd linkY (Reads.next_ne_head (linkX ▸ h.2) laterY)
      · rcases List.mem_cons.mp memberY with rfl | laterY
        · exact absurd linkX (Reads.next_ne_head (linkY ▸ h.2) laterX)
        · exact ih h.2 laterX laterY

section Edit

variable [DecidableEq B]

theorem Reads.update_outside {next : B → Option B} {head : Option B} {xs : List B} {x : B}
    (h : Reads next head xs) (outside : x ∉ xs) (link : Option B) :
    Reads (Function.update next x link) head xs := by
  apply h.congr
  intro y member
  have different : y ≠ x := fun same => outside (same ▸ member)
  simp [Function.update, different]

theorem Reads.push {next : B → Option B} {head : Option B} {xs : List B} {x : B}
    (h : Reads next head xs) (absent : x ∉ xs) :
    Reads (Function.update next x head) (some x) (x :: xs) := by
  refine ⟨rfl, ?_⟩
  rw [Function.update_self]
  exact h.update_outside absent head

theorem Reads.pop {next : B → Option B} {x : B} {xs : List B}
    (h : Reads next (some x) (x :: xs)) : Reads (Function.update next x none) (next x) xs :=
  h.2.update_outside (List.nodup_cons.mp h.nodup).1 none

theorem Reads.not_push_again {next : B → Option B} {head : Option B} {xs ys : List B}
    {x : B} (h : Reads next head xs) (member : x ∈ xs) :
    ¬ Reads (Function.update next x head) (some x) ys := by
  intro pushed
  obtain ⟨rest, rfl, tail⟩ := pushed.head_some
  rw [Function.update_self] at tail
  -- The new list follows the old one up to the first visit of `x`.
  have meets (start : Option B) (cells later : List B) (old : Reads next start cells)
      (new : Reads (Function.update next x head) start later) (visits : x ∈ cells) : x ∈ later := by
    induction cells generalizing start later with
    | nil => simp at visits
    | cons y cells ih =>
        obtain ⟨rfl, oldTail⟩ := old
        obtain ⟨laterTail, rfl, newTail⟩ := new.head_some
        by_cases same : y = x
        · simp [same]
        · rw [Function.update_of_ne same] at newTail
          have deeper : x ∈ cells := by simpa [Ne.symm same] using visits
          exact List.mem_cons_of_mem _ (ih (next y) laterTail oldTail newTail deeper)
  exact (List.nodup_cons.mp pushed.nodup).1 (meets head xs rest h tail member)

omit [DecidableEq B] in
theorem Reads.last_of_next_none {next : B → Option B} {head : Option B} {xs : List B} {x : B}
    (h : Reads next head xs) (member : x ∈ xs) (final : next x = none) : xs.getLast? = some x := by
  obtain ⟨front, back, rfl⟩ := List.append_of_mem member
  have link := Reads.next_eq front back h
  rw [final] at link
  obtain rfl : back = [] := List.head?_eq_none_iff.mp link.symm
  simp

theorem Reads.append {next : B → Option B} {head : Option B} {xs : List B} {last x : B}
    (h : Reads next head (xs ++ [last])) (fresh : x ∉ xs ++ [last]) (unlinked : next x = none) :
    Reads (Function.update next last (some x)) head (xs ++ [last, x]) := by
  have distinct := h.nodup
  induction xs generalizing head with
  | nil =>
      have different : x ≠ last := by simpa using fresh
      refine ⟨h.1, ?_⟩
      simp [Reads, Function.update, different, unlinked]
  | cons y ys ih =>
      have different : y ≠ last := by
        simp only [List.cons_append, List.nodup_cons, List.mem_append, List.mem_singleton] at distinct
        exact fun same => distinct.1 (Or.inr same)
      refine ⟨h.1, ?_⟩
      simp only [Function.update, different, eq_rec_constant, dite_eq_ite, if_false]
      exact ih h.2 (fun member => fresh (List.mem_cons_of_mem _ member)) (List.nodup_cons.mp distinct).2

theorem Reads.links_of_append {next next' : B → Option B} {head head' : Option B} {xs : List B}
    {x : B} (h : Reads next head xs) (longer : Reads next' head' (xs ++ [x])) :
    next' x = none ∧ ∀ y ∈ xs, next' y = if xs.getLast? = some y then some x else next y := by
  refine ⟨longer.next_eq xs [], fun y member => ?_⟩
  have distinct := h.nodup
  obtain ⟨front, back, rfl⟩ := List.append_of_mem member
  have before := h.next_eq front back
  have after : next' y = (back ++ [x]).head? := by
    rw [List.append_assoc] at longer
    exact longer.next_eq front (back ++ [x])
  cases back with
  | nil => simpa using after
  | cons z zs =>
      have notLast : (front ++ y :: z :: zs).getLast? ≠ some y := by
        intro last
        rw [List.getLast?_append_cons, List.getLast?_cons_cons] at last
        have later : y ∈ z :: zs := List.mem_of_getLast? last
        exact (List.nodup_cons.mp (List.nodup_append.mp distinct).2.1).1 later
      rw [if_neg notLast, before, after]
      rfl

theorem Reads.find_previous {next : B → Option B} {head : Option B} {xs : List B} {x : B}
    (h : Reads next head xs) (notHead : head ≠ some x) (member : x ∈ xs) :
    ∃ front previous back, xs = front ++ previous :: x :: back ∧
      xs.find? (fun y => next y = some x) = some previous := by
  induction xs generalizing head with
  | nil => simp at member
  | cons y ys ih =>
      have different : x ≠ y := by
        rintro rfl
        exact notHead h.1
      have later : x ∈ ys := by simpa [different] using member
      by_cases link : next y = some x
      · obtain ⟨rest, rfl, _⟩ := (link ▸ h.2 : Reads next (some x) ys).head_some
        exact ⟨[], y, rest, rfl, by simp [link]⟩
      · obtain ⟨front, previous, back, split, found⟩ := ih h.2 link later
        exact ⟨y :: front, previous, back, by simp [split], by simp [link, found]⟩

theorem Reads.unlink_after {next : B → Option B} {head : Option B} {xs ys : List B} {previous x : B}
    (h : Reads next head (xs ++ previous :: x :: ys)) :
    Reads (Function.update (Function.update next previous (next x)) x none) head
      (xs ++ previous :: ys) := by
  have distinct := h.nodup
  have outside : x ∉ xs ++ previous :: ys := by
    simp only [List.nodup_append, List.nodup_cons, List.mem_cons, not_or] at distinct
    simp only [List.mem_append, List.mem_cons, not_or]
    refine ⟨fun member => ?_, fun same => distinct.2.1.1.1 same.symm, distinct.2.1.2.1⟩
    exact distinct.2.2 x member x (by simp) rfl
  apply Reads.update_outside _ outside
  clear outside
  induction xs generalizing head with
  | nil =>
      refine ⟨h.1, ?_⟩
      simp only [Function.update_self]
      apply Reads.update_outside h.2.2
      simp only [List.nil_append, List.nodup_cons, List.mem_cons, not_or] at distinct
      exact distinct.1.2
  | cons y zs ih =>
      have different : y ≠ previous := by
        rintro rfl
        simp [List.nodup_cons] at distinct
      refine ⟨h.1, ?_⟩
      simp only [Function.update, different, eq_rec_constant, dite_eq_ite, if_false]
      exact ih h.2 (List.nodup_cons.mp distinct).2

theorem Reads.unlink_head {next : B → Option B} {x : B} {xs : List B}
    (h : Reads next (some x) (x :: xs)) :
    Reads (Function.update next x none) (next x) xs :=
  h.2.update_outside (List.nodup_cons.mp h.nodup).1 none

end Edit

/-- `while (p && !stop(p)) p = p->next;` -/
def walk (next : B → Option B) (stop : B → Bool) : Nat → Option B → Option (Option B)
  | 0, _ => none
  | _ + 1, none => some none
  | fuel + 1, some p => if stop p then some (some p) else walk next stop fuel (next p)

theorem walk_eq_find {next : B → Option B} {head : Option B} {xs : List B} (stop : B → Bool)
    (h : Reads next head xs) (fuel : Nat) (enough : xs.length < fuel) :
    walk next stop fuel head = some (xs.find? stop) := by
  induction xs generalizing head fuel with
  | nil =>
      obtain ⟨fuel, rfl⟩ := Nat.exists_eq_add_of_lt enough
      obtain rfl : head = none := h
      simp [walk]
  | cons x xs ih =>
      obtain ⟨fuel, rfl⟩ : ∃ n, fuel = n + 1 := ⟨fuel - 1, by simp at enough; omega⟩
      obtain ⟨rfl, tail⟩ := h
      simp only [walk, List.find?_cons]
      cases found : stop x with
      | true => simp
      | false =>
          simp only [Bool.false_eq_true, if_false]
          exact ih tail fuel (by simpa using enough)

/-- `for (; p; p = p->next) visit(p);`: the cells visited. -/
def collect (next : B → Option B) : Nat → Option B → Option (List B)
  | 0, _ => none
  | _ + 1, none => some []
  | fuel + 1, some p => (collect next fuel (next p)).map (p :: ·)

theorem collect_reads {next : B → Option B} {head : Option B} {xs : List B}
    (h : Reads next head xs) (fuel : Nat) (enough : xs.length < fuel) :
    collect next fuel head = some xs := by
  induction xs generalizing head fuel with
  | nil =>
      obtain ⟨fuel, rfl⟩ := Nat.exists_eq_add_of_lt enough
      obtain rfl : head = none := h
      simp [collect]
  | cons x xs ih =>
      obtain ⟨fuel, rfl⟩ : ∃ n, fuel = n + 1 := ⟨fuel - 1, by simp at enough; omega⟩
      obtain ⟨rfl, tail⟩ := h
      rw [collect, ih tail fuel (by simpa using enough)]
      rfl

section Ring

variable [DecidableEq B]

/--
`while (p && !stop(p)) { p = p->next; if (!p) p = head; if (p == start) { p = NULL; break; } }`
-/
def walkRing (next : B → Option B) (head : Option B) (stop : B → Bool) (start : Option B) :
    Nat → Option B → Option (Option B)
  | 0, _ => none
  | _ + 1, none => some none
  | fuel + 1, some p =>
      if stop p then some (some p) else
        let following := (next p).or head
        if following = start then some none else walkRing next head stop start fuel following

theorem walkRing_some {next : B → Option B} {head : Option B} {stop : B → Bool} {start : Option B}
    {fuel : Nat} {origin : Option B} {b : B}
    (found : walkRing next head stop start fuel origin = some (some b)) : stop b = true := by
  induction fuel generalizing origin with
  | zero => cases found
  | succ fuel ih =>
      cases origin with
      | none => cases found
      | some p =>
          simp only [walkRing] at found
          split at found
          next stops =>
            obtain rfl : p = b := by simpa using found
            exact stops
          next =>
            split at found
            next => cases found
            next => exact ih found

/-- Each cell of the list leads to the following one and the last leads to `start`. -/
def Cyclic (following : B → Option B) (start : Option B) : List B → Prop
  | [] => True
  | x :: xs => following x = xs.head?.or start ∧ Cyclic following start xs

omit [DecidableEq B] in
theorem Reads.cyclic {next : B → Option B} {start : Option B} {xs : List B}
    (h : Reads next start xs) (head : Option B) :
    Cyclic (fun x => (next x).or head) head xs := by
  induction xs generalizing start with
  | nil => trivial
  | cons x xs ih =>
      have link := h.2.head_eq
      exact ⟨by simp [link], ih h.2⟩

omit [DecidableEq B] in
theorem Reads.cyclic_front {next : B → Option B} {start : Option B} {xs ys : List B} {x : B}
    (h : Reads next start (xs ++ x :: ys)) (head : Option B) :
    Cyclic (fun x => (next x).or head) (some x) xs := by
  induction xs generalizing start with
  | nil => trivial
  | cons y xs ih =>
      have link := h.2.head_eq
      refine ⟨?_, ih h.2⟩
      cases xs <;> simp [link]

omit [DecidableEq B] in
theorem cyclic_append {following : B → Option B} {start : Option B} {xs ys : List B} {y : B}
    (front : Cyclic following (some y) xs) (back : Cyclic following start (y :: ys)) :
    Cyclic following start (xs ++ y :: ys) := by
  induction xs with
  | nil => exact back
  | cons x xs ih =>
      refine ⟨?_, ih front.2⟩
      rw [front.1]
      cases xs <;> simp

theorem walkRing_eq_find {next : B → Option B} {head : Option B} (stop : B → Bool) {start x : B}
    {xs : List B} (ring : Cyclic (fun x => (next x).or head) (some start) (x :: xs))
    (once : start ∉ xs) (fuel : Nat) (enough : xs.length < fuel) :
    walkRing next head stop (some start) fuel (some x) = some ((x :: xs).find? stop) := by
  induction xs generalizing x fuel with
  | nil =>
      obtain ⟨fuel, rfl⟩ := Nat.exists_eq_add_of_lt enough
      have last : (next x).or head = some start := by simpa [Cyclic] using ring
      cases found : stop x <;> simp [walkRing, found, last]
  | cons y ys ih =>
      obtain ⟨fuel, rfl⟩ : ∃ n, fuel = n + 1 := ⟨fuel - 1, by omega⟩
      have link : (next x).or head = some y := by simpa using ring.1
      have different : some y ≠ some start := by
        intro same
        exact once (by simp [Option.some.inj same])
      rw [List.find?_cons]
      simp only [walkRing, link]
      cases found : stop x with
      | true => simp
      | false =>
          simp only [Bool.false_eq_true, if_false, different]
          exact ih ring.2 (fun member => once (List.mem_cons_of_mem _ member)) fuel
            (by simpa using enough)

omit [DecidableEq B] in
-- A list read from any of its cells on, and then from its head, is a ring without repetition.
theorem Reads.ring {next : B → Option B} {head : Option B} {front back : List B} {x : B}
    (h : Reads next head (front ++ x :: back)) :
    Cyclic (fun x => (next x).or head) (some x) (x :: (back ++ front)) ∧ x ∉ back ++ front := by
  constructor
  next =>
    have tail := h.suffix.cyclic head
    cases front with
    | nil =>
        have first : head = some x := h.1
        simpa [first] using tail
    | cons f fs =>
        have first : head = some f := h.1
        have wrapped := h.cyclic_front head
        rw [first] at tail wrapped ⊢
        exact cyclic_append tail wrapped
  next =>
    have distinct := h.nodup
    rw [List.nodup_append] at distinct
    intro member
    rcases List.mem_append.mp member with inBack | inFront
    · exact (List.nodup_cons.mp distinct.2.1).1 inBack
    · exact distinct.2.2 x inFront x (by simp) rfl

theorem walkRing_reads {next : B → Option B} {head : Option B} {front back : List B} {x : B}
    (stop : B → Bool) (h : Reads next head (front ++ x :: back)) (fuel : Nat)
    (enough : (front ++ x :: back).length ≤ fuel) :
    walkRing next head stop (some x) fuel (some x) = some ((x :: back ++ front).find? stop) := by
  have bound : (back ++ front).length < fuel := by
    simp only [List.length_append, List.length_cons] at enough ⊢
    omega
  exact walkRing_eq_find stop h.ring.1 h.ring.2 fuel bound

/-- The same loop; also returns the cells it tests, in order. -/
def traceRing (next : B → Option B) (head : Option B) (stop : B → Bool) (start : Option B) :
    Nat → Option B → Option (List B × Option B)
  | 0, _ => none
  | _ + 1, none => some ([], none)
  | fuel + 1, some p =>
      if stop p then some ([p], some p) else
        let following := (next p).or head
        if following = start then some ([p], none)
        else (traceRing next head stop start fuel following).map fun r => (p :: r.1, r.2)

theorem traceRing_result (next : B → Option B) (head : Option B) (stop : B → Bool)
    (start : Option B) (fuel : Nat) (origin : Option B) :
    (traceRing next head stop start fuel origin).map Prod.snd =
      walkRing next head stop start fuel origin := by
  induction fuel generalizing origin with
  | zero => rfl
  | succ fuel ih =>
      cases origin with
      | none => rfl
      | some p =>
          simp only [traceRing, walkRing]
          split
          next => rfl
          next =>
            split
            next => rfl
            next =>
              rw [← ih, Option.map_map]
              rfl

theorem traceRing_front {next : B → Option B} {head : Option B} {stop : B → Bool} {start x : B}
    {xs tested : List B} {result : Option B} {fuel : Nat}
    (ring : Cyclic (fun x => (next x).or head) (some start) (x :: xs))
    (trace : traceRing next head stop (some start) fuel (some x) = some (tested, result)) :
    tested <+: x :: xs ∧ ∀ b, result = some b → tested.getLast? = some b := by
  induction fuel generalizing x xs tested with
  | zero => cases trace
  | succ fuel ih =>
      simp only [traceRing] at trace
      split at trace
      next =>
        cases trace
        exact ⟨by simp, fun b found => found ▸ rfl⟩
      next =>
        split at trace
        next =>
          cases trace
          exact ⟨by simp, fun b found => nomatch found⟩
        next further =>
          cases xs with
          | nil => exact absurd ring.1 further
          | cons y ys =>
              have link : (next x).or head = some y := by simpa using ring.1
              rw [link] at trace
              obtain ⟨⟨later, _⟩, rest, same⟩ := Option.map_eq_some_iff.mp trace
              cases same
              obtain ⟨front, last⟩ := ih ring.2 rest
              refine ⟨(List.prefix_cons_inj x).mpr front, ?_⟩
              intro b found
              rw [List.getLast?_cons, last b found]
              rfl

end Ring

end PointerList
