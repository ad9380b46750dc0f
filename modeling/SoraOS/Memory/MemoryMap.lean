import SoraOS.Memory.PmmInit

set_option autoImplicit false

namespace SoraOS

namespace MultibootMmapEntry

def Handled (e : MultibootMmapEntry) : Prop :=
  e.type = multibootMemoryAvailable ∧ e.addrHigh = 0#32

instance (e : MultibootMmapEntry) : Decidable e.Handled :=
  inferInstanceAs (Decidable (e.type = multibootMemoryAvailable ∧ e.addrHigh = 0#32))

def base (e : MultibootMmapEntry) : Nat := e.addrHigh.toNat * 2 ^ 32 + e.addrLow.toNat
def length (e : MultibootMmapEntry) : Nat := e.lenHigh.toNat * 2 ^ 32 + e.lenLow.toNat

def Covers (e : MultibootMmapEntry) (page : Nat) : Prop :=
  e.base ≤ page * pageSize ∧ (page + 1) * pageSize ≤ e.base + e.length

def Overlaps (e : MultibootMmapEntry) (start stop : Nat) : Prop :=
  max e.base start < min (e.base + e.length) stop

instance (e : MultibootMmapEntry) (page : Nat) : Decidable (e.Covers page) :=
  inferInstanceAs (Decidable (e.base ≤ page * pageSize ∧ (page + 1) * pageSize ≤ e.base + e.length))

instance (e : MultibootMmapEntry) (start stop : Nat) : Decidable (e.Overlaps start stop) :=
  inferInstanceAs (Decidable (max e.base start < min (e.base + e.length) stop))

theorem Covers.overlaps {e r : MultibootMmapEntry} {page : Nat} (covers : e.Covers page)
    (overlap : r.Overlaps (page * pageSize) ((page + 1) * pageSize)) :
    r.Overlaps e.base (e.base + e.length) :=
  calc max r.base e.base
      _ ≤ max r.base (page * pageSize) := max_le_max_left _ covers.1
      _ < min (r.base + r.length) ((page + 1) * pageSize) := overlap
      _ ≤ min (r.base + r.length) (e.base + e.length) := min_le_min_left _ covers.2

/-- `first` and `last` of `pmm_init`, in 32 bits. -/
def firstPage (e : MultibootMmapEntry) : Nat := ((e.addrLow + 4096#32 - 1#32) / 4096#32).toNat
def lastPage (e : MultibootMmapEntry) : Nat := ((e.addrLow + e.lenLow) / 4096#32).toNat

end MultibootMmapEntry

namespace Pmm

/-- The entries that the walk of the memory map visits, in order. -/
def mmapEntries (ram : Ram) (finish : U32) : Nat → U32 → Option (List MultibootMmapEntry)
  | 0, _ => none
  | fuel + 1, entry =>
      if entry < finish then
        let fields := multibootMmapEntry ram entry
        (mmapEntries ram finish fuel (entry + fields.size + 4#32)).map (fields :: ·)
      else some []

def visit (s : Pmm) (e : MultibootMmapEntry) : Pmm := if e.Handled then s.releaseRegion e else s

theorem walkMmap_eq_foldl (ram : Ram) (finish : U32) (fuel : Nat) (entry : U32) (s : Pmm) :
    walkMmap ram finish fuel entry s =
      (mmapEntries ram finish fuel entry).map fun entries => entries.foldl visit s := by
  induction fuel generalizing entry s with
  | zero => rfl
  | succ fuel ih =>
      by_cases within : entry < finish
      next =>
        simp only [walkMmap, mmapEntries, within, if_true, ih, Option.map_map]
        rfl
      next => simp [walkMmap, mmapEntries, within]

theorem freeSet_releasePage {s : Pmm} {page : Nat} (inside : page < s.totalPages) :
    (s.releasePage page).freeSet = insert page s.freeSet := by
  rw [releasePage_eq]
  split
  next => exact freeSet_give s page inside
  next unused =>
    have member : page ∈ s.freeSet := by simpa [inside] using unused
    rw [Finset.insert_eq_of_mem member]

theorem mem_freeSet_foldl_releasePage {s : Pmm} (pages : List Nat)
    (inside : ∀ page ∈ pages, page < s.totalPages) (q : Nat) :
    q ∈ (pages.foldl releasePage s).freeSet ↔ q ∈ pages ∨ q ∈ s.freeSet := by
  induction pages generalizing s with
  | nil => simp
  | cons page rest ih =>
      have total := releasePage_totalPages s page
      have later := ih (s := s.releasePage page)
        (fun p member => total.symm ▸ inside p (List.mem_cons_of_mem _ member))
      rw [List.foldl_cons, later, freeSet_releasePage (inside page (by simp)), Finset.mem_insert,
        List.mem_cons]
      tauto

theorem mem_freeSet_releaseRegion (s : Pmm) (e : MultibootMmapEntry) (q : Nat) :
    q ∈ (s.releaseRegion e).freeSet ↔
      (e.firstPage ≤ q ∧ q < e.lastPage ∧ q < s.totalPages) ∨ q ∈ s.freeSet := by
  rw [releaseRegion, mem_freeSet_foldl_releasePage, List.mem_range'_1]
  · apply or_congr_left
    change e.firstPage ≤ q ∧ q < e.firstPage + (min e.lastPage s.totalPages - e.firstPage) ↔ _
    omega
  · intro page member
    rw [List.mem_range'_1] at member
    omega

theorem Wf.foldl_visit {s : Pmm} (wf : s.Wf) (entries : List MultibootMmapEntry) :
    (entries.foldl Pmm.visit s).Wf ∧ (entries.foldl Pmm.visit s).totalPages = s.totalPages ∧
      ∀ q, q ∈ (entries.foldl Pmm.visit s).freeSet ↔
        (q < s.totalPages ∧ ∃ e ∈ entries, e.Handled ∧ e.firstPage ≤ q ∧ q < e.lastPage) ∨
          q ∈ s.freeSet := by
  -- After the walk a page is free if it was, or if a handled entry's loop reached it.
  induction entries generalizing s with
  | nil => exact ⟨wf, rfl, by simp⟩
  | cons e rest ih =>
      rw [List.foldl_cons]
      by_cases handled : e.Handled
      next =>
        have region := wf.releaseRegion e
        have visited : s.visit e = s.releaseRegion e := by rw [visit, if_pos handled]
        rw [visited]
        obtain ⟨restWf, total, free⟩ := ih region.1
        refine ⟨restWf, total.trans region.2, fun q => ?_⟩
        rw [free, mem_freeSet_releaseRegion, region.2]
        by_cases inside : q < s.totalPages <;>
          simp [inside, handled, or_assoc, or_left_comm]
      next =>
        have visited : s.visit e = s := by rw [visit, if_neg handled]
        rw [visited]
        obtain ⟨restWf, total, free⟩ := ih wf
        refine ⟨restWf, total, fun q => ?_⟩
        rw [free]
        simp [handled]

theorem Wf.mem_freeSet_protectKernel {s : Pmm} (wf : s.Wf) (allUsed : ∀ q, q ∉ s.freeSet)
    (entries : List MultibootMmapEntry) (kernelEnd : U32) (q : Nat) :
    q ∈ ((entries.foldl Pmm.visit s).protectKernel kernelEnd).freeSet ↔
      q < s.totalPages ∧ kernelPages kernelEnd ≤ q ∧
        ∃ e ∈ entries, e.Handled ∧ e.firstPage ≤ q ∧ q < e.lastPage := by
  obtain ⟨walkedWf, total, free⟩ := wf.foldl_visit entries
  obtain ⟨_, total', bits⟩ := walkedWf.protectKernel kernelEnd
  have walked := free q
  rw [or_iff_left (allUsed q), mem_freeSet, total] at walked
  rw [mem_freeSet, bits, total', total, Bool.or_eq_false_iff, decide_eq_false_iff_not]
  constructor
  next =>
    intro ⟨inside, notKernel, clear⟩
    exact ⟨inside, by omega, (walked.mp ⟨inside, clear⟩).2⟩
  next =>
    intro ⟨inside, above, offered⟩
    exact ⟨inside, by omega, (walked.mpr ⟨inside, offered⟩).2⟩

theorem pmmInit_freeSet {ram : Ram} {mb : MultibootInfo} {kernelEnd : U32} {fuel : Nat} {s : Pmm}
    (mmap : mb.flags &&& multibootFlagMmap ≠ 0#32)
    (ended : pmmInit ram mb kernelEnd fuel = some s) :
    ∃ entries, mmapEntries ram (mb.mmapAddr + mb.mmapLength) fuel mb.mmapAddr = some entries ∧
      ∀ q, q ∈ s.freeSet ↔ q < s.totalPages ∧ kernelPages kernelEnd ≤ q ∧
        ∃ e ∈ entries, e.Handled ∧ e.firstPage ≤ q ∧ q < e.lastPage := by
  have total := (pmmInit_spec ended).2.1
  have start := wf_allUsed (detectTotalPages mb) (detectTotalPages_le mb)
  simp only [pmmInit, mmap, ne_eq, not_false_eq_true, if_true, walkMmap_eq_foldl, Option.map_map,
    Option.map_eq_some_iff] at ended
  obtain ⟨entries, walked, rfl⟩ := ended
  refine ⟨entries, walked, fun q => ?_⟩
  rw [total]
  refine start.mem_freeSet_protectKernel (fun p => ?_) entries kernelEnd q
  have full : Bitmap.test (fun _ => 0xFFFFFFFF#32) p = true :=
    Bitmap.test_of_full (by decide) _ p rfl
  simp [bitmapTest, full]

end Pmm

namespace MemoryMap

theorem roundUp_le_iff {x : U32} (noWrap : x.toNat + 4095 < 2 ^ 32) (page : Nat) :
    ((x + 4096#32 - 1#32) / 4096#32).toNat ≤ page ↔ x.toNat ≤ page * pageSize := by
  have sum : (x + 4096#32 - 1#32).toNat = x.toNat + 4095 := by
    simp only [BitVec.toNat_sub, BitVec.toNat_add, BitVec.toNat_ofNat]
    omega
  rw [BitVec.toNat_udiv, sum, pageSize]
  change (x.toNat + 4095) / 4096 ≤ page ↔ _
  omega

theorem lt_lastPage_iff (e : MultibootMmapEntry) (page : Nat) :
    page < e.lastPage ↔ (page + 1) * pageSize ≤ (e.addrLow.toNat + e.lenLow.toNat) % 2 ^ 32 := by
  rw [MultibootMmapEntry.lastPage, BitVec.toNat_udiv, BitVec.toNat_add, pageSize]
  change page < _ / 4096 ↔ _
  omega

theorem covers_of_loop {e : MultibootMmapEntry} (handled : e.Handled)
    (noWrap : e.addrLow.toNat + 4095 < 2 ^ 32) {page : Nat} (first : e.firstPage ≤ page)
    (last : page < e.lastPage) : e.Covers page := by
  -- The loop over a handled entry stays inside it, even when `base + len` wraps.
  have base : e.base = e.addrLow.toNat := by simp [MultibootMmapEntry.base, handled.2]
  have low : e.lenLow.toNat ≤ e.length := Nat.le_add_left _ _
  have start := (roundUp_le_iff noWrap page).mp first
  have stop := (lt_lastPage_iff e page).mp last
  simp only [MultibootMmapEntry.Covers, pageSize] at start stop ⊢
  omega

/-- The firmware offered the page: some AVAILABLE entry covers it and no other type touches it. -/
structure Offered (entries : List MultibootMmapEntry) (page : Nat) : Prop where
  covered : ∃ e ∈ entries, e.type = multibootMemoryAvailable ∧ e.Covers page
  untouched : ∀ r ∈ entries, r.type ≠ multibootMemoryAvailable →
    ¬ r.Overlaps (page * pageSize) ((page + 1) * pageSize)

structure Initialised (ram : Ram) (mb : MultibootInfo) (kernelEnd : U32)
    (entries : List MultibootMmapEntry) (s : Pmm) : Prop where
  mmap : mb.flags &&& multibootFlagMmap ≠ 0#32
  ended : ∃ fuel, Pmm.pmmInit ram mb kernelEnd fuel = some s ∧
    Pmm.mmapEntries ram (mb.mmapAddr + mb.mmapLength) fuel mb.mmapAddr = some entries

theorem Initialised.freeSet {ram : Ram} {mb : MultibootInfo} {kernelEnd : U32}
    {entries : List MultibootMmapEntry} {s : Pmm} (run : Initialised ram mb kernelEnd entries s)
    (page : Nat) :
    page ∈ s.freeSet ↔ page < s.totalPages ∧ Pmm.kernelPages kernelEnd ≤ page ∧
      ∃ e ∈ entries, e.Handled ∧ e.firstPage ≤ page ∧ page < e.lastPage := by
  obtain ⟨fuel, ended, walked⟩ := run.ended
  obtain ⟨visited, again, free⟩ := Pmm.pmmInit_freeSet run.mmap ended
  obtain rfl : visited = entries := Option.some.inj (again.symm.trans walked)
  exact free page

/--
Where rounding a handled base up does not wrap, every page left free lies inside an
AVAILABLE entry, above the kernel and below the total; it meets an entry of another type
only where that AVAILABLE entry does.
-/
theorem free_inside_available (ram : Ram) (mb : MultibootInfo) (kernelEnd : U32)
    (linked : kernelEnd.toNat + 4095 < 2 ^ 32) (entries : List MultibootMmapEntry) (s : Pmm)
    (run : Initialised ram mb kernelEnd entries s)
    (noWrap : ∀ e ∈ entries, e.Handled → e.addrLow.toNat + 4095 < 2 ^ 32) :
    ∀ page ∈ s.freeSet, page < s.totalPages ∧ kernelEnd.toNat ≤ page * pageSize ∧
      ∃ e ∈ entries, e.type = multibootMemoryAvailable ∧ e.Covers page ∧
        ∀ r ∈ entries, r.Overlaps (page * pageSize) ((page + 1) * pageSize) →
          r.Overlaps e.base (e.base + e.length) := by
  intro page member
  obtain ⟨inside, above, e, listed, handled, first, last⟩ := (run.freeSet page).mp member
  have covers := covers_of_loop handled (noWrap e listed handled) first last
  refine ⟨inside, (roundUp_le_iff linked page).mp above, e, listed, handled.1, covers, ?_⟩
  intro r _ overlap
  exact covers.overlaps overlap

/-- At 0x9000: AVAILABLE [1 MB, 1 MB + 0x20000), then a reserved page inside it at 0x110000. -/
def overlapRam : Ram := fun addr =>
  if addr = 0x9000#32 ∨ addr = 0x9018#32 then 20#8
  else if addr = 0x9006#32 then 0x10#8
  else if addr = 0x900E#32 then 0x02#8
  else if addr = 0x9014#32 then 1#8
  else if addr = 0x901E#32 then 0x11#8
  else if addr = 0x9025#32 then 0x10#8
  else if addr = 0x902C#32 then 2#8
  else 0#8

def overlapInfo : MultibootInfo where
  flags := 0x41#32
  memUpper := 0x80#32
  mmapLength := 48#32
  mmapAddr := 0x9000#32

/-- At 0x9000: one AVAILABLE byte at 0xFFFFF001, whose rounding up wraps to page 0. -/
def lastPageRam : Ram := fun addr =>
  if addr = 0x9000#32 then 20#8
  else if addr = 0x9004#32 then 0x01#8
  else if addr = 0x9005#32 then 0xF0#8
  else if addr = 0x9006#32 ∨ addr = 0x9007#32 then 0xFF#8
  else if addr = 0x900C#32 ∨ addr = 0x9014#32 then 1#8
  else 0#8

def lastPageInfo : MultibootInfo where
  flags := 0x41#32
  memUpper := 0x80#32
  mmapLength := 24#32
  mmapAddr := 0x9000#32

theorem initialised_of_decide {ram : Ram} {mb : MultibootInfo} {kernelEnd : U32} {page : Nat}
    {shape : List MultibootMmapEntry → Bool}
    (mmap : mb.flags &&& multibootFlagMmap ≠ 0#32)
    (ended : (Pmm.pmmInit ram mb kernelEnd 3).map
      (fun s => decide (page < s.totalPages ∧ s.bitmapTest page = false)) = some true)
    (walked : (Pmm.mmapEntries ram (mb.mmapAddr + mb.mmapLength) 3 mb.mmapAddr).map shape =
      some true) :
    ∃ entries s, Initialised ram mb kernelEnd entries s ∧ page ∈ s.freeSet ∧
      shape entries = true := by
  obtain ⟨s, init, free⟩ := Option.map_eq_some_iff.mp ended
  obtain ⟨entries, visited, shaped⟩ := Option.map_eq_some_iff.mp walked
  exact ⟨entries, s, ⟨mmap, 3, init, visited⟩, (s.mem_freeSet page).mpr (of_decide_eq_true free),
    shaped⟩

theorem initialised_overlap :
    ∃ entries s, Initialised overlapRam overlapInfo 0x108000#32 entries s ∧ 272 ∈ s.freeSet ∧
      decide ((∀ e ∈ entries, e.Handled → e.addrLow.toNat + 4095 < 2 ^ 32) ∧
        ∃ r ∈ entries, r.type ≠ multibootMemoryAvailable ∧
          r.Overlaps (272 * pageSize) ((272 + 1) * pageSize)) = true :=
  initialised_of_decide (by decide) (by decide +kernel) (by decide +kernel)

theorem initialised_lastPage :
    ∃ entries s, Initialised lastPageRam lastPageInfo 0x108000#32 entries s ∧ 272 ∈ s.freeSet ∧
      decide (∀ e ∈ entries, ¬ e.Covers 272) = true :=
  initialised_of_decide (by decide) (by decide +kernel) (by decide +kernel)

/--
A reserved page inside an AVAILABLE region is left free: nothing re-reserves it. And an
AVAILABLE byte in the last page of the address space frees pages that no entry covers.
-/
theorem frees_not_offered :
    ¬ (∀ ram mb kernelEnd entries s, kernelEnd.toNat + 4095 < 2 ^ 32 →
      Initialised ram mb kernelEnd entries s → ∀ page ∈ s.freeSet, Offered entries page) ∧
    ¬ (∀ ram mb kernelEnd entries s, kernelEnd.toNat + 4095 < 2 ^ 32 →
      Initialised ram mb kernelEnd entries s → ∀ page ∈ s.freeSet,
        ∃ e ∈ entries, e.type = multibootMemoryAvailable ∧ e.Covers page) := by
  constructor
  next =>
    intro all
    obtain ⟨entries, s, run, free, shape⟩ := initialised_overlap
    obtain ⟨r, listed, other, meets⟩ := (of_decide_eq_true shape).2
    exact (all _ _ _ entries s (by decide) run 272 free).untouched r listed other meets
  next =>
    intro all
    obtain ⟨entries, s, run, free, shape⟩ := initialised_lastPage
    obtain ⟨e, listed, _, covers⟩ := all _ _ _ entries s (by decide) run 272 free
    exact of_decide_eq_true shape e listed covers

theorem free_inside_available_overlap :
    ∃ entries s, Initialised overlapRam overlapInfo 0x108000#32 entries s ∧ 272 ∈ s.freeSet ∧
      ∃ e ∈ entries, e.type = multibootMemoryAvailable ∧ e.Covers 272 := by
  obtain ⟨entries, s, run, free, shape⟩ := initialised_overlap
  obtain ⟨_, _, e, listed, available, covers, _⟩ :=
    free_inside_available overlapRam overlapInfo 0x108000#32 (by decide) entries s run
      (of_decide_eq_true shape).1 272 free
  exact ⟨entries, s, run, free, e, listed, available, covers⟩

/-- From `start` the entries chain by their size fields exactly to `finish`, without wrapping. -/
inductive Chain (ram : Ram) (finish : Nat) : Nat → List MultibootMmapEntry → Prop
  | nil : Chain ram finish finish []
  | cons (start : Nat) (rest : List MultibootMmapEntry)
      (size : 20 ≤ (multibootMmapEntry ram (BitVec.ofNat 32 start)).size.toNat)
      (next : Chain ram finish
        (start + (multibootMmapEntry ram (BitVec.ofNat 32 start)).size.toNat + 4) rest) :
      Chain ram finish start (multibootMmapEntry ram (BitVec.ofNat 32 start) :: rest)

theorem Chain.le {ram : Ram} {finish start : Nat} {entries : List MultibootMmapEntry}
    (chain : Chain ram finish start entries) : start ≤ finish := by
  induction chain with
  | nil => exact le_rfl
  | cons start rest size next ih => omega

theorem Chain.mmapEntries {ram : Ram} {finish start : Nat} {entries : List MultibootMmapEntry}
    (chain : Chain ram finish start entries) (bound : finish < 2 ^ 32) (fuel : Nat)
    (enough : entries.length < fuel) :
    Pmm.mmapEntries ram (BitVec.ofNat 32 finish) fuel (BitVec.ofNat 32 start) = some entries := by
  induction chain generalizing fuel with
  | nil =>
      obtain ⟨fuel, rfl⟩ := Nat.exists_eq_add_of_lt enough
      simp [Pmm.mmapEntries]
  | cons start rest size next ih =>
      obtain ⟨fuel, rfl⟩ : ∃ n, fuel = n + 1 := ⟨fuel - 1, by simp at enough; omega⟩
      have below := next.le
      have within : BitVec.ofNat 32 start < BitVec.ofNat 32 finish := by
        rw [BitVec.lt_def, BitVec.toNat_ofNat, BitVec.toNat_ofNat]
        omega
      have following : BitVec.ofNat 32 start +
          (multibootMmapEntry ram (BitVec.ofNat 32 start)).size + 4#32 =
          BitVec.ofNat 32 (start +
            (multibootMmapEntry ram (BitVec.ofNat 32 start)).size.toNat + 4) := by
        apply BitVec.eq_of_toNat_eq
        simp only [BitVec.toNat_add, BitVec.toNat_ofNat]
        omega
      have rest := ih fuel (by simpa using enough)
      simp only [Pmm.mmapEntries, within, if_true, following, rest, Option.map_some]

structure Plain (e : MultibootMmapEntry) : Prop where
  lenHigh : e.lenHigh = 0#32
  rounds : e.addrLow.toNat + 4095 < 2 ^ 32
  ends : e.addrLow.toNat + e.lenLow.toNat < 2 ^ 32

instance (e : MultibootMmapEntry) : Decidable (Plain e) :=
  decidable_of_iff
    (e.lenHigh = 0#32 ∧ e.addrLow.toNat + 4095 < 2 ^ 32 ∧ e.addrLow.toNat + e.lenLow.toNat < 2 ^ 32)
    ⟨fun ⟨lenHigh, rounds, ends⟩ => ⟨lenHigh, rounds, ends⟩,
      fun plain => ⟨plain.lenHigh, plain.rounds, plain.ends⟩⟩

theorem loop_iff_covers {e : MultibootMmapEntry} (handled : e.Handled) (plain : Plain e)
    (page : Nat) : e.firstPage ≤ page ∧ page < e.lastPage ↔ e.Covers page := by
  have base : e.base = e.addrLow.toNat := by simp [MultibootMmapEntry.base, handled.2]
  have length : e.length = e.lenLow.toNat := by simp [MultibootMmapEntry.length, plain.lenHigh]
  rw [MultibootMmapEntry.Covers, base, length, lt_lastPage_iff, Nat.mod_eq_of_lt plain.ends]
  exact and_congr_left fun _ => roundUp_le_iff plain.rounds page

theorem Chain.pmmInit {ram : Ram} {mb : MultibootInfo} {entries : List MultibootMmapEntry}
    (chain : Chain ram (mb.mmapAddr.toNat + mb.mmapLength.toNat) mb.mmapAddr.toNat entries)
    (bound : mb.mmapAddr.toNat + mb.mmapLength.toNat < 2 ^ 32)
    (mmap : mb.flags &&& multibootFlagMmap ≠ 0#32) (kernelEnd : U32) :
    ∃ s, Initialised ram mb kernelEnd entries s ∧
      ∀ fuel, entries.length < fuel → Pmm.pmmInit ram mb kernelEnd fuel = some s := by
  have walked (fuel : Nat) (enough : entries.length < fuel) :
      Pmm.mmapEntries ram (mb.mmapAddr + mb.mmapLength) fuel mb.mmapAddr = some entries := by
    have finish : mb.mmapAddr + mb.mmapLength =
        BitVec.ofNat 32 (mb.mmapAddr.toNat + mb.mmapLength.toNat) := by
      simp [BitVec.ofNat_add]
    rw [finish, ← chain.mmapEntries bound fuel enough, BitVec.ofNat_toNat, BitVec.setWidth_eq]
  have ended (fuel : Nat) (enough : entries.length < fuel) :
      Pmm.pmmInit ram mb kernelEnd fuel =
        some ((entries.foldl Pmm.visit
          { bitmap := fun _ => 0xFFFFFFFF#32
            totalPages := Pmm.detectTotalPages mb
            freePages := 0#32 }).protectKernel kernelEnd) := by
    simp only [Pmm.pmmInit, mmap, ne_eq, not_false_eq_true, if_true, Pmm.walkMmap_eq_foldl,
      walked fuel enough, Option.map_some]
  have room := Nat.lt_succ_self entries.length
  exact ⟨_, ⟨mmap, _, ended _ room, walked _ room⟩, ended⟩

/-- On a well-formed map `pmm_init` frees exactly the pages inside the AVAILABLE entries. -/
theorem pmmInit_exact (ram : Ram) (mb : MultibootInfo)
    (mmap : mb.flags &&& multibootFlagMmap ≠ 0#32) (entries : List MultibootMmapEntry)
    (bound : mb.mmapAddr.toNat + mb.mmapLength.toNat < 2 ^ 32)
    (chain : Chain ram (mb.mmapAddr.toNat + mb.mmapLength.toNat) mb.mmapAddr.toNat entries)
    (plain : ∀ e ∈ entries, e.Handled → Plain e)
    (kernelEnd : U32) (linked : kernelEnd.toNat + 4095 < 2 ^ 32) :
    ∃ s, (∀ fuel, entries.length < fuel → Pmm.pmmInit ram mb kernelEnd fuel = some s) ∧
      (∀ page, s.bitmapTest page = false ↔
        page < s.totalPages ∧ kernelEnd.toNat ≤ page * pageSize ∧
          ∃ e ∈ entries, e.Handled ∧ e.Covers page) ∧
      s.freePages.toNat = s.freeSet.card := by
  obtain ⟨s, run, ended⟩ := chain.pmmInit bound mmap kernelEnd
  have spec := Pmm.pmmInit_spec (ended _ (Nat.lt_succ_self _))
  refine ⟨s, ended, fun page => ?_, spec.1.counted⟩
  have clear : s.bitmapTest page = false ↔ page ∈ s.freeSet := by
    rw [Pmm.mem_freeSet]
    constructor
    next =>
      intro clear
      refine ⟨?_, clear⟩
      apply Classical.byContradiction
      intro above
      simp [spec.1.tail page (Nat.le_of_not_lt above)] at clear
    next => exact fun free => free.2
  rw [clear, run.freeSet page, Pmm.kernelPages, roundUp_le_iff linked page]
  refine and_congr_right fun _ => and_congr_right fun _ => exists_congr fun e => ?_
  refine and_congr_right fun listed => and_congr_right fun handled => ?_
  exact loop_iff_covers handled (plain e listed handled) page

theorem chain_overlapRam :
    ∃ entries, Chain overlapRam 0x9030 0x9000 entries ∧ entries.length = 2 ∧
      decide (∀ e ∈ entries, e.Handled → Plain e) = true := by
  have last : Chain overlapRam 0x9030
      (0x9018 + (multibootMmapEntry overlapRam (BitVec.ofNat 32 0x9018)).size.toNat + 4) [] := by
    rw [show 0x9018 + (multibootMmapEntry overlapRam (BitVec.ofNat 32 0x9018)).size.toNat + 4 = 0x9030
      from by decide +kernel]
    exact .nil
  have second := Chain.cons 0x9018 [] (by decide +kernel) last
  have first : Chain overlapRam 0x9030
      (0x9000 + (multibootMmapEntry overlapRam (BitVec.ofNat 32 0x9000)).size.toNat + 4)
      [multibootMmapEntry overlapRam (BitVec.ofNat 32 0x9018)] := by
    rw [show 0x9000 + (multibootMmapEntry overlapRam (BitVec.ofNat 32 0x9000)).size.toNat + 4 = 0x9018
      from by decide +kernel]
    exact second
  exact ⟨_, .cons 0x9000 _ (by decide +kernel) first, rfl, by decide +kernel⟩

theorem pmmInit_exact_overlapRam :
    ∃ (entries : List MultibootMmapEntry) (s : Pmm),
      Pmm.pmmInit overlapRam overlapInfo 0x108000#32 3 = some s ∧
      ∀ page, s.bitmapTest page = false ↔
        page < s.totalPages ∧ 0x108000 ≤ page * pageSize ∧
          ∃ e ∈ entries, e.Handled ∧ e.Covers page := by
  obtain ⟨entries, chain, two, plain⟩ := chain_overlapRam
  obtain ⟨s, ended, exact, _⟩ :=
    pmmInit_exact overlapRam overlapInfo (by decide) entries (by decide) chain
      (of_decide_eq_true plain) 0x108000#32 (by decide)
  exact ⟨entries, s, ended 3 (by omega), exact⟩

end MemoryMap

end SoraOS
