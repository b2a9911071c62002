import Voce.Foundation.IndexedHeap

/-! # Heap order under sifting

The order argument is about a function from slot numbers to keys: a parent is
never above its child. A hole is a slot whose own edges may be out of order
while everything else is in place. Sifting moves the hole, and fixing or
removing a slot closes it. Free slots count as the largest key.
-/

namespace Voce

open Function List Equiv

universe u v

namespace HeapOrder

variable {κ : Type v} [LinearOrder κ]

/-- The parent slot; slot 0 is its own parent. -/
def parent (i : Nat) : Nat := (i - 1) / 2

theorem parent_lt {i : Nat} (hi : i ≠ 0) : parent i < i := by
  unfold parent
  omega

theorem parent_le (i : Nat) : parent i ≤ i := by
  unfold parent
  omega

/-- The children of a slot are the two numbers a sift-down inspects. -/
theorem parent_eq_iff {c i : Nat} (hc : c ≠ 0) : parent c = i ↔ c = 2 * i + 1 ∨ c = 2 * i + 2 := by
  unfold parent
  omega

/-- No parent among the first `n` slots is above its child. -/
def Ordered (f : Nat → κ) (n : Nat) : Prop :=
  ∀ i < n, f (parent i) ≤ f i

/-- Every edge off the hole is in order, and so is every edge that leads past
it from its parent to one of its children. -/
structure OrderedExcept (f : Nat → κ) (n hole : Nat) : Prop where
  off : ∀ i < n, i ≠ hole → parent i ≠ hole → f (parent i) ≤ f i
  past : hole ≠ 0 → ∀ i < n, i ≠ 0 → parent i = hole → f (parent hole) ≤ f i

/-- The hole is not above any of its children. -/
def AboveChildren (f : Nat → κ) (n hole : Nat) : Prop :=
  ∀ i < n, i ≠ 0 → parent i = hole → f hole ≤ f i

/-- Changing the key of one slot of an ordered heap leaves a hole there. -/
theorem OrderedExcept.of_ordered {f g : Nat → κ} {n hole : Nat} (hordered : Ordered f n)
    (hhole : hole < n) (hagree : ∀ i < n, i ≠ hole → g i = f i) :
    OrderedExcept g n hole where
  off := by
    intro i hi hne hparent
    rw [hagree i hi hne, hagree _ (lt_of_le_of_lt (parent_le i) hi) hparent]
    exact hordered i hi
  past := by
    intro hne i hi hi0 hparent
    have hlt := parent_lt hi0
    have hup := parent_lt hne
    rw [hagree i hi (by omega), hagree _ (by omega) (by omega)]
    calc f (parent hole) ≤ f hole := hordered hole hhole
      _ = f (parent i) := by rw [hparent]
      _ ≤ f i := hordered i hi

variable {f : Nat → κ}

theorem OrderedExcept.close {n hole : Nat} (hexcept : OrderedExcept f n hole)
    (habove : f (parent hole) ≤ f hole) (hbelow : AboveChildren f n hole) : Ordered f n := by
  intro i hi
  by_cases hih : i = hole
  · rw [hih]
    exact habove
  · by_cases hparent : parent i = hole
    · by_cases hi0 : i = 0
      · subst hi0
        exact le_refl _
      · rw [hparent]
        exact hbelow i hi hi0 hparent
    · exact hexcept.off i hi hih hparent

/-- Moving the hole to its parent, when the parent is above it. -/
theorem OrderedExcept.rise {n hole : Nat} (hexcept : OrderedExcept f n hole)
    (hhole : hole < n) (hne : hole ≠ 0) (hlt : f hole < f (parent hole)) :
    OrderedExcept (f ∘ swap (parent hole) hole) n (parent hole) ∧
      AboveChildren (f ∘ swap (parent hole) hole) n (parent hole) := by
  have hup := parent_lt hne
  -- the edges around the hole that the swap turns into edges off it
  have hgrand : f (parent (parent hole)) ≤ f (parent hole) := by
    have := parent_le (parent hole)
    exact hexcept.off (parent hole) (by omega) (by omega) (by omega)
  have hsibling : ∀ i < n, i ≠ hole → parent i = parent hole → f (parent hole) ≤ f i := by
    intro i hi hih hpi
    have := hexcept.off i hi hih (by omega)
    rwa [hpi] at this
  refine ⟨⟨?_, ?_⟩, ?_⟩
  · intro i hi hip hparent
    have hih : i ≠ hole := fun heq => hparent (by rw [heq])
    simp only [comp_apply, swap_apply_of_ne_of_ne hip hih]
    by_cases hph : parent i = hole
    · have hi0 : i ≠ 0 := by
        intro heq
        subst heq
        exact hne hph.symm
      rw [hph, swap_apply_right]
      exact hexcept.past hne i hi hi0 hph
    · rw [swap_apply_of_ne_of_ne hparent hph]
      exact hexcept.off i hi hih hph
  · intro hp0 i hi hi0 hpi
    have hpp := parent_lt hp0
    simp only [comp_apply]
    rw [swap_apply_of_ne_of_ne (by omega) (by omega)]
    by_cases hih : i = hole
    · rw [hih, swap_apply_right]
      exact hgrand
    · have hlt := parent_lt hi0
      rw [swap_apply_of_ne_of_ne (by omega) hih]
      exact hgrand.trans (hsibling i hi hih hpi)
  · intro i hi hi0 hpi
    have := parent_lt hi0
    simp only [comp_apply, swap_apply_left]
    by_cases hih : i = hole
    · rw [hih, swap_apply_right]
      exact hlt.le
    · rw [swap_apply_of_ne_of_ne (by omega) hih]
      exact hlt.le.trans (hsibling i hi hih hpi)

/-- Moving the hole to its smallest child, when that child is below it. The
new hole is not below its parent. -/
theorem OrderedExcept.sink {n hole child : Nat}
    (hexcept : OrderedExcept f n hole) (hchild : child < n) (hc0 : child ≠ 0)
    (hparent : parent child = hole) (hleast : ∀ i < n, i ≠ 0 → parent i = hole → f child ≤ f i)
    (hlt : f child < f hole) :
    OrderedExcept (f ∘ swap hole child) n child ∧
      (f ∘ swap hole child) (parent child) ≤ (f ∘ swap hole child) child := by
  have hdown := parent_lt hc0
  refine ⟨⟨?_, ?_⟩, ?_⟩
  · intro i hi hic hpc
    simp only [comp_apply]
    by_cases hih : i = hole
    · subst hih
      by_cases hi0 : i = 0
      · subst hi0
        exact le_refl _
      · have := parent_lt hi0
        rw [swap_apply_left, swap_apply_of_ne_of_ne (by omega) hpc]
        exact hexcept.past hi0 child hchild hc0 hparent
    · rw [swap_apply_of_ne_of_ne hih hic]
      by_cases hph : parent i = hole
      · rw [hph, swap_apply_left]
        have hi0 : i ≠ 0 := by
          intro heq
          subst heq
          exact hih hph
        exact hleast i hi hi0 hph
      · rw [swap_apply_of_ne_of_ne hph hpc]
        exact hexcept.off i hi hih hph
  · intro _ i hi hi0 hpi
    have := parent_lt hi0
    simp only [comp_apply]
    rw [hparent, swap_apply_left, swap_apply_of_ne_of_ne (by omega) (by omega)]
    have hedge := hexcept.off i hi (by omega) (by omega)
    rwa [hpi] at hedge
  · simp only [comp_apply]
    rw [hparent, swap_apply_left, swap_apply_right]
    exact hlt.le

/-- The root of an ordered heap has the least key. -/
theorem Ordered.root_le {n : Nat} (hordered : Ordered f n) {i : Nat} (hi : i < n) : f 0 ≤ f i := by
  induction i using Nat.strongRecOn with
  | ind i ih =>
    by_cases hi0 : i = 0
    · rw [hi0]
    · have hlt := parent_lt hi0
      exact (ih (parent i) hlt (by omega)).trans (hordered i hi)

end HeapOrder

namespace IndexedHeap

open HeapOrder

variable {α : Type u} {κ : Type v}

/-- The key of a slot; free slots are above every key. -/
def keyAt (key : α → κ) (h : IndexedHeap α) (i : Nat) : WithTop κ :=
  match h.slots[i]? with
  | some a => (key a : WithTop κ)
  | none => ⊤

variable {h : IndexedHeap α}

theorem keyAt_of_getElem? {key : α → κ} {i : Nat} {a : α}
    (ha : h.slots[i]? = some a) : h.keyAt key i = (key a : WithTop κ) := by
  simp [keyAt, ha]

theorem keyAt_swap [DecidableEq α] (key : α → κ) {i j : Nat} (hi : i < h.slots.length)
    (hj : j < h.slots.length) :
    (h.swap i j).keyAt key = h.keyAt key ∘ Equiv.swap i j := by
  funext k
  simp [keyAt, swap_getElem? hi hj]

variable [LinearOrder κ]

def Ordered (key : α → κ) (h : IndexedHeap α) : Prop :=
  HeapOrder.Ordered (h.keyAt key) h.slots.length

/-- The order only reads the keys of elements in the heap. -/
theorem Ordered.congr {key key' : α → κ} (hordered : h.Ordered key)
    (hkey : ∀ a ∈ h.slots, key' a = key a) : h.Ordered key' := by
  have hat : h.keyAt key' = h.keyAt key := by
    funext i
    unfold keyAt
    split
    next a ha => rw [hkey a (mem_of_getElem? ha)]
    · rfl
  unfold Ordered
  rwa [hat]

theorem lessAt_iff {less : α → α → Bool} {key : α → κ}
    (hless : ∀ a b, less a b = true ↔ key a < key b) {i j : Nat}
    (hi : i < h.slots.length) (hj : j < h.slots.length) :
    h.lessAt less i j = true ↔ h.keyAt key i < h.keyAt key j := by
  simp [lessAt, keyAt, getElem?_eq_getElem hi, getElem?_eq_getElem hj, hless]

/-! ## Sifting only rearranges -/

/-- What sifting below `n` keeps: the elements, their index fields' agreement
with the slots, and every slot from `n` on. -/
structure Rearranged (n : Nat) (h h' : IndexedHeap α) : Prop where
  length : h'.slots.length = h.slots.length
  mem : ∀ a, a ∈ h'.slots ↔ a ∈ h.slots
  consistent : h.Consistent → h'.Consistent
  beyond : ∀ k, n ≤ k → h'.slots[k]? = h.slots[k]?

namespace Rearranged

variable {n : Nat} {h h' h'' : IndexedHeap α}

theorem refl (n : Nat) (h : IndexedHeap α) : Rearranged n h h :=
  ⟨rfl, fun _ => .rfl, id, fun _ _ => rfl⟩

theorem trans (first : Rearranged n h h') (second : Rearranged n h' h'') : Rearranged n h h'' where
  length := second.length.trans first.length
  mem a := (second.mem a).trans (first.mem a)
  consistent hc := second.consistent (first.consistent hc)
  beyond k hk := (second.beyond k hk).trans (first.beyond k hk)

theorem swap [DecidableEq α] {i j : Nat} (hi : i < n) (hj : j < n) (hn : n ≤ h.slots.length) :
    Rearranged n h (h.swap i j) where
  length := swap_length h i j
  mem := swap_mem (by omega) (by omega)
  consistent hc := hc.swap (by omega) (by omega)
  beyond k hk := by
    rw [swap_getElem? (by omega) (by omega), swap_apply_of_ne_of_ne (by omega) (by omega)]

end Rearranged

variable [DecidableEq α] (less : α → α → Bool)

theorem upLoop_rearranged (n fuel : Nat) (h : IndexedHeap α) (j : Nat) (hj : j < n)
    (hn : n ≤ h.slots.length) : Rearranged n h (upLoop less fuel h j) := by
  induction fuel generalizing h j with
  | zero => exact .refl n h
  | succ fuel ih =>
    unfold upLoop
    split
    · exact .refl n h
    · have hi : (j - 1) / 2 < n := by omega
      exact (Rearranged.swap hi hj hn).trans (ih _ _ hi (by rwa [swap_length]))

omit [DecidableEq α] in
/-- The inspected child is one of the two children and is inside the bound. -/
theorem leastChild_cases (h : IndexedHeap α) (n i : Nat) : h.leastChild less n i = 2 * i + 1 ∨
      h.leastChild less n i = 2 * i + 2 ∧ 2 * i + 2 < n := by
  unfold leastChild
  dsimp only
  split
  next hsecond => exact .inr ⟨rfl, hsecond.1⟩
  · exact .inl rfl

theorem downLoop_rearranged (n fuel : Nat) (h : IndexedHeap α) (i : Nat) (hi : i < n)
    (hn : n ≤ h.slots.length) : Rearranged n h (downLoop less n fuel h i).1 := by
  induction fuel generalizing h i with
  | zero => exact .refl n h
  | succ fuel ih =>
    unfold downLoop
    split
    · exact .refl n h
    · have hj : h.leastChild less n i < n := by
        rcases leastChild_cases less h n i with heq | heq <;> omega
      exact (Rearranged.swap hi hj hn).trans (ih _ _ hj (by rwa [swap_length]))

theorem settle_rearranged {n i : Nat} {h : IndexedHeap α} (hi : i < n) (hn : n ≤ h.slots.length) :
    Rearranged n h (h.settle less i n) := by
  have hdown := downLoop_rearranged less n (n - i) h i hi hn
  unfold settle
  split
  · exact hdown
  · exact hdown.trans (upLoop_rearranged less n i _ i hi (hn.trans_eq hdown.length.symm))

/-! ## Sifting restores the order -/

section Sifting

variable {less : α → α → Bool} {key : α → κ}

section

variable (hless : ∀ a b, less a b = true ↔ key a < key b)
include hless

theorem upLoop_ordered (n fuel : Nat) (h : IndexedHeap α) (j : Nat) (hfuel : j ≤ fuel) (hj : j < n)
    (hn : n ≤ h.slots.length) (hexcept : OrderedExcept (h.keyAt key) n j)
    (hbelow : AboveChildren (h.keyAt key) n j) :
    HeapOrder.Ordered ((upLoop less fuel h j).keyAt key) n := by
  induction fuel generalizing h j with
  | zero =>
    have hj0 : j = 0 := by omega
    subst hj0
    exact hexcept.close (le_refl _) hbelow
  | succ fuel ih =>
    unfold upLoop
    have hcompare := lessAt_iff hless (h := h) (i := j) (j := (j - 1) / 2)
      (by omega) (by omega)
    split
    next hstop =>
      apply hexcept.close _ hbelow
      rcases hstop with hroot | hnot
      · have hj0 : parent j = j := hroot
        rw [hj0]
      · exact not_lt.mp (hcompare.not.mp hnot)
    next hmove =>
      rw [not_or, not_not] at hmove
      have hj0 : j ≠ 0 := by
        intro heq
        subst heq
        exact hmove.1 rfl
      have hup := parent_lt hj0
      have hswap := keyAt_swap key (h := h) (i := parent j) (j := j) (by omega) (by omega)
      -- the hole rises to the parent, so the fuel still covers its slot number
      obtain ⟨hexcept', hbelow'⟩ := hexcept.rise hj hj0 (hcompare.mp hmove.2)
      apply ih (h.swap (parent j) j) (parent j) (by omega) (by omega) (by rwa [swap_length])
      · rw [hswap]
        exact hexcept'
      · rw [hswap]
        exact hbelow'

variable {h : IndexedHeap α}

omit [DecidableEq α] in
/-- The child a sift-down compares with is the smaller of the two. -/
theorem leastChild_spec {n i : Nat} (hn : n ≤ h.slots.length) (hfit : 2 * i + 1 < n) :
    h.leastChild less n i < n ∧ h.leastChild less n i ≠ 0 ∧
      parent (h.leastChild less n i) = i ∧
      ∀ c < n, c ≠ 0 → parent c = i → h.keyAt key (h.leastChild less n i) ≤ h.keyAt key c := by
  have hcases := leastChild_cases less h n i
  refine ⟨by omega, by omega, (parent_eq_iff (by omega)).mpr (by omega), ?_⟩
  intro c hc hc0 hpc
  unfold leastChild
  dsimp only
  split
  next hsecond =>
    have hle := ((lessAt_iff hless (by omega) (by omega)).mp hsecond.2).le
    rcases (parent_eq_iff hc0).mp hpc with rfl | rfl
    · exact hle
    · exact le_refl _
  next hfirst =>
    rcases (parent_eq_iff hc0).mp hpc with rfl | rfl
    · exact le_refl _
    · rw [not_and] at hfirst
      have hnot := (lessAt_iff hless (by omega) (by omega)).not.mp (hfirst hc)
      exact not_lt.mp hnot

/-- A sift-down either leaves the hole where it is, above its children, or
moves it and closes it. -/
theorem downLoop_ordered (n fuel : Nat) (h : IndexedHeap α) (i : Nat) (hfuel : n ≤ i + fuel)
    (hi : i < n) (hn : n ≤ h.slots.length) (hexcept : OrderedExcept (h.keyAt key) n i) :
    (downLoop less n fuel h i = (h, i) ∧ AboveChildren (h.keyAt key) n i) ∨
      (i < (downLoop less n fuel h i).2 ∧
        HeapOrder.Ordered ((downLoop less n fuel h i).1.keyAt key) n) := by
  induction fuel generalizing h i with
  | zero => omega
  | succ fuel ih =>
    unfold downLoop
    by_cases hleaf : n ≤ 2 * i + 1
    · rw [if_pos (.inl hleaf)]
      refine .inl ⟨rfl, ?_⟩
      intro c hc hc0 hpc
      have := (parent_eq_iff hc0).mp hpc
      omega
    · obtain ⟨hj, hj0, hparent, hleast⟩ := leastChild_spec hless (i := i) hn (by omega)
      generalize h.leastChild less n i = j at hj hj0 hparent hleast ⊢
      have hcompare := lessAt_iff hless (h := h) (i := j) (j := i) (by omega) (by omega)
      have hdown := parent_lt hj0
      split
      next hstop =>
        refine .inl ⟨rfl, ?_⟩
        intro c hc hc0 hpc
        have hnot := hstop.resolve_left hleaf
        exact (not_lt.mp (hcompare.not.mp hnot)).trans (hleast c hc hc0 hpc)
      next hmove =>
        rw [not_or, not_not] at hmove
        obtain ⟨hexcept', habove⟩ :=
          hexcept.sink hj hj0 hparent hleast (hcompare.mp hmove.2)
        rw [← keyAt_swap key (by omega) (by omega)] at hexcept' habove
        rcases ih (h.swap i j) j (by omega) hj (by rwa [swap_length]) hexcept' with
          ⟨hstay, hbelow⟩ | ⟨hlt, hordered⟩
        · -- the hole has stopped below where it began and is closed from both sides
          rw [hstay]
          exact .inr ⟨by omega, hexcept'.close habove hbelow⟩
        · exact .inr ⟨by omega, hordered⟩

theorem settle_ordered {n i : Nat} (hi : i < n) (hn : n ≤ h.slots.length)
    (hexcept : OrderedExcept (h.keyAt key) n i) :
    HeapOrder.Ordered ((h.settle less i n).keyAt key) n := by
  rcases downLoop_ordered hless n (n - i) h i (by omega) hi hn hexcept with
    ⟨hstay, hbelow⟩ | ⟨hlt, hordered⟩
  · simp only [settle, down, hstay, lt_irrefl, decide_false, Bool.false_eq_true, if_false]
    exact upLoop_ordered hless n i h i (le_refl _) hi hn hexcept hbelow
  · simp only [settle, down, hlt, decide_true, if_true]
    exact hordered

/-! ## Operations -/

omit hless in
theorem fix_rearranged (less : α → α → Bool) {i : Nat}
    (hi : i < h.slots.length) : Rearranged h.slots.length h (h.fix less i) :=
  settle_rearranged less hi (le_refl _)

/-- Fixing a slot restores the order when only its element's key changed. -/
theorem fix_ordered {old : α → κ} {i : Nat} {a : α} (hordered : h.Ordered old) (hc : h.Consistent)
    (ha : h.slots[i]? = some a) (hagree : ∀ b ∈ h.slots, b ≠ a → key b = old b) :
    (h.fix less i).Ordered key := by
  obtain ⟨hi, hget⟩ := List.getElem?_eq_some_iff.mp ha
  unfold Ordered
  rw [(fix_rearranged less hi).length]
  apply settle_ordered hless hi (le_refl _)
  apply OrderedExcept.of_ordered hordered hi
  intro k hk hki
  have hsome : h.slots[k]? = some h.slots[k] := getElem?_eq_getElem hk
  have hne : h.slots[k] ≠ a := fun heq => hki (hc.slot_unique (heq ▸ hsome) ha)
  rw [keyAt_of_getElem? hsome, keyAt_of_getElem? hsome, hagree _ (getElem_mem hk) hne]

end

variable {h : IndexedHeap α} {i : Nat}

omit [LinearOrder κ] in
theorem append_keyAt_of_lt (key : α → κ) (a : α)
    (hi : i < h.slots.length) : (h.append a).keyAt key i = h.keyAt key i := by
  simp [keyAt, append, getElem?_append_left hi]

theorem Consistent.append (hc : h.Consistent) {a : α}
    (ha : a ∉ h.slots) : (h.append a).Consistent := by
  intro i b hb
  simp only [IndexedHeap.append] at hb ⊢
  by_cases hi : i < h.slots.length
  · rw [getElem?_append_left hi] at hb
    have hne : b ≠ a := fun heq => ha (heq ▸ mem_of_getElem? hb)
    rw [update_of_ne hne]
    exact hc i b hb
  · rw [getElem?_append_right (not_lt.mp hi)] at hb
    obtain ⟨hlt, hget⟩ := List.getElem?_eq_some_iff.mp hb
    simp only [length_singleton] at hlt
    have hi' : i = h.slots.length := by omega
    subst hi'
    have hba : b = a := by simpa using hget.symm
    rw [hba, update_self]

variable (less)

theorem push_rearranged (h : IndexedHeap α) (a : α) :
    Rearranged (h.slots.length + 1) (h.append a) (h.push less a) :=
  upLoop_rearranged less _ _ _ _ (Nat.lt_succ_self _) (by simp [append])

theorem push_mem (h : IndexedHeap α) (a b : α) :
    b ∈ (h.push less a).slots ↔ b ∈ h.slots ∨ b = a := by
  rw [(push_rearranged less h a).mem]
  simp [append]

variable {less}

theorem push_ordered (hless : ∀ a b, less a b = true ↔ key a < key b)
    {a : α} (hordered : h.Ordered key) : (h.push less a).Ordered key := by
  have hlength : (h.append a).slots.length = h.slots.length + 1 := by simp [append]
  unfold Ordered
  rw [(push_rearranged less h a).length, hlength]
  have hbefore : ∀ i < h.slots.length,
      (h.append a).keyAt key (parent i) ≤ (h.append a).keyAt key i := by
    intro i hi
    have hle := parent_le i
    rw [append_keyAt_of_lt key a hi, append_keyAt_of_lt key a (by omega)]
    exact hordered i hi
  apply upLoop_ordered hless _ _ _ _ (le_refl _) (Nat.lt_succ_self _) hlength.ge
  · -- the appended slot is the hole and has no children
    refine ⟨fun i hi hne _ => hbefore i (by omega), ?_⟩
    intro _ i hi hi0 hparent
    have := parent_lt hi0
    omega
  · intro i hi hi0 hparent
    have := parent_lt hi0
    omega

theorem pop_of_getLast? {a : α} (ha : h.slots.getLast? = some a) :
    h.pop = { slots := h.slots.dropLast, index := update h.index a (-1) } := by
  simp [pop, ha]

theorem Consistent.pop (hc : h.Consistent) : h.pop.Consistent := by
  cases hlast : h.slots.getLast? with
  | none => simpa [IndexedHeap.pop, hlast] using hc
  | some a =>
    rw [pop_of_getLast? hlast]
    intro i b hb
    simp only [getElem?_dropLast] at hb ⊢
    split at hb
    · rw [getLast?_eq_getElem?] at hlast
      have hne : b ≠ a := by
        intro heq
        subst heq
        have := hc.slot_unique hb hlast
        omega
      rw [update_of_ne hne]
      exact hc i b hb
    · simp at hb

theorem pop_mem (hc : h.Consistent) {a : α} (ha : h.slots.getLast? = some a) (b : α) :
    b ∈ h.pop.slots ↔ b ∈ h.slots ∧ b ≠ a := by
  rw [pop_of_getLast? ha]
  obtain ⟨rest, hrest⟩ := getLast?_eq_some_iff.mp ha
  have hnodup := hc.nodup
  simp only [hrest, dropLast_concat, mem_append, mem_singleton]
  rw [hrest, nodup_append] at hnodup
  constructor
  · intro hb
    exact ⟨.inl hb, hnodup.2.2 b hb a mem_cons_self⟩
  · rintro ⟨hb | hb, hne⟩
    · exact hb
    · exact absurd hb hne

theorem pop_ordered
    (hordered : HeapOrder.Ordered (h.keyAt key) (h.slots.length - 1)) : h.pop.Ordered key := by
  cases hlast : h.slots.getLast? with
  | none =>
    have hnil : h.slots = [] := getLast?_eq_none_iff.mp hlast
    simp [IndexedHeap.Ordered, IndexedHeap.pop, hnil, HeapOrder.Ordered]
  | some a =>
    have hkey : ∀ i < h.slots.length - 1, h.pop.keyAt key i = h.keyAt key i := by
      intro i hi
      rw [keyAt, pop_of_getLast? hlast]
      simp only [getElem?_dropLast, if_pos hi, keyAt]
    intro i hi
    have hi' : i < h.slots.length - 1 := by
      simpa [pop_of_getLast? hlast] using hi
    rw [hkey i hi', hkey _ (lt_of_le_of_lt (parent_le i) hi')]
    exact hordered i hi'

variable (less)

theorem moveLast_rearranged
    (hi : i < h.slots.length) : Rearranged h.slots.length h (h.moveLast less i) := by
  unfold moveLast
  split
  · exact .refl _ h
  · have hswap : Rearranged h.slots.length h (h.swap i (h.slots.length - 1)) :=
      .swap hi (by omega) (le_refl _)
    have hsettled := settle_rearranged less (by omega : i < h.slots.length - 1)
      (hswap.length.ge.trans' (Nat.sub_le _ _))
    refine hswap.trans ⟨hsettled.length, hsettled.mem, hsettled.consistent, ?_⟩
    intro k hk
    exact hsettled.beyond k (by omega)

theorem moveLast_getLast? {a : α}
    (ha : h.slots[i]? = some a) : (h.moveLast less i).slots.getLast? = some a := by
  obtain ⟨hi, hget⟩ := List.getElem?_eq_some_iff.mp ha
  rw [getLast?_eq_getElem?, (moveLast_rearranged less hi).length]
  unfold moveLast
  split
  next hlast =>
    rw [hlast]
    exact ha
  · have hfit : h.slots.length - 1 ≤ (h.swap i (h.slots.length - 1)).slots.length := by
      rw [swap_length]
      omega
    rw [(settle_rearranged less (by omega) hfit).beyond _ (le_refl _),
      swap_getElem? hi (by omega), swap_apply_right]
    exact ha

variable {less}

theorem moveLast_ordered (hless : ∀ a b, less a b = true ↔ key a < key b)
    (hi : i < h.slots.length) (hordered : h.Ordered key) :
    HeapOrder.Ordered ((h.moveLast less i).keyAt key) ((h.moveLast less i).slots.length - 1) := by
  have hbelow : HeapOrder.Ordered (h.keyAt key) (h.slots.length - 1) :=
    fun k hk => hordered k (by omega)
  rw [(moveLast_rearranged less hi).length]
  unfold moveLast
  split
  · exact hbelow
  · have hfit : h.slots.length - 1 ≤ (h.swap i (h.slots.length - 1)).slots.length := by
      rw [swap_length]
      omega
    apply settle_ordered hless (by omega) hfit
    apply OrderedExcept.of_ordered hbelow (by omega)
    intro k hk hki
    rw [keyAt_swap key hi (by omega), comp_apply, Equiv.swap_apply_of_ne_of_ne hki (by omega)]

variable (less)

theorem Consistent.remove (hc : h.Consistent)
    (hi : i < h.slots.length) : (h.remove less i).Consistent :=
  ((moveLast_rearranged less hi).consistent hc).pop

theorem remove_mem (hc : h.Consistent) {a : α} (ha : h.slots[i]? = some a) (b : α) :
    b ∈ (h.remove less i).slots ↔ b ∈ h.slots ∧ b ≠ a := by
  obtain ⟨hi, hget⟩ := List.getElem?_eq_some_iff.mp ha
  have hmoved := moveLast_rearranged less hi
  rw [remove, pop_mem (hmoved.consistent hc) (moveLast_getLast? less ha), hmoved.mem]

theorem remove_length {a : α}
    (ha : h.slots[i]? = some a) : (h.remove less i).slots.length + 1 = h.slots.length := by
  obtain ⟨hi, -⟩ := List.getElem?_eq_some_iff.mp ha
  have hlength := (moveLast_rearranged less hi).length
  rw [remove, pop_of_getLast? (moveLast_getLast? less ha), length_dropLast]
  omega

variable {less}

theorem remove_ordered (hless : ∀ a b, less a b = true ↔ key a < key b)
    (hordered : h.Ordered key) (hi : i < h.slots.length) :
    (h.remove less i).Ordered key :=
  pop_ordered (moveLast_ordered hless hi hordered)

end Sifting

end IndexedHeap

end Voce
