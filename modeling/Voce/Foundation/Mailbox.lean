import Voce.Foundation.Channel

/-! # Mailboxes

A channel with one consumer and the history of its items. Senders offer items,
which are placed in the channel or lost. The consumer handles what it receives,
until it only drains. What is handled is always part of what was offered, in the
same order, and all of it as long as nothing was lost or drained.
-/

namespace Voce

open List

structure Mailbox (α : Type) where
  channel : Channel α
  offered : List α
  placed : List α
  taken : List α
  handled : List α
  conserved : placed = taken ++ channel.items
  placed_sublist : placed.Sublist offered
  handled_sublist : handled.Sublist taken

namespace Mailbox

variable {α : Type}

def empty (capacity : Nat) : Mailbox α := ⟨.empty capacity, [], [], [], [], rfl, .refl _, .refl _⟩

def items (m : Mailbox α) : List α := m.channel.items

def send? (m : Mailbox α) (a : α) : Option (Mailbox α) :=
  match hsend : m.channel.send? a with
  | none => none
  | some channel =>
    some { m with
      channel := channel
      offered := m.offered ++ [a]
      placed := m.placed ++ [a]
      conserved := by
        rw [(Channel.send?_eq_some hsend).2.2, m.conserved, append_assoc]
      placed_sublist := m.placed_sublist.append_right [a] }

def lose (m : Mailbox α) (a : α) : Mailbox α :=
  { m with
    offered := m.offered ++ [a]
    placed_sublist := m.placed_sublist.trans (sublist_append_left _ _) }

def receive? (m : Mailbox α) : Option (α × Mailbox α) :=
  match hreceive : m.channel.receive? with
  | none => none
  | some (a, channel) =>
    some (a, { m with
      channel := channel
      taken := m.taken ++ [a]
      handled := m.handled ++ [a]
      conserved := by
        rw [m.conserved, (Channel.receive?_eq_some hreceive).1, append_assoc]
        rfl
      handled_sublist := m.handled_sublist.append_right [a] })

def drain? (m : Mailbox α) : Option (Mailbox α) :=
  match hreceive : m.channel.receive? with
  | none => none
  | some (a, channel) =>
    some { m with
      channel := channel
      taken := m.taken ++ [a]
      conserved := by
        rw [m.conserved, (Channel.receive?_eq_some hreceive).1, append_assoc]
        rfl
      handled_sublist := m.handled_sublist.trans (sublist_append_left _ _) }

variable {m n : Mailbox α} {a : α}

theorem send?_eq_some (hsend : m.send? a = some n) :
    n.offered = m.offered ++ [a] ∧ n.placed = m.placed ++ [a] ∧ n.taken = m.taken ∧
      n.handled = m.handled ∧ n.items = m.items ++ [a] := by
  unfold send? at hsend
  split at hsend
  · cases hsend
  next channel hchannel =>
    cases hsend
    exact ⟨rfl, rfl, rfl, rfl, (Channel.send?_eq_some hchannel).2.2⟩

@[simp] theorem lose_items (m : Mailbox α) (a : α) : (m.lose a).items = m.items := rfl

@[simp] theorem lose_channel (m : Mailbox α) (a : α) : (m.lose a).channel = m.channel := rfl

theorem receive?_eq_some (hreceive : m.receive? = some (a, n)) :
    n.offered = m.offered ∧ n.placed = m.placed ∧ n.taken = m.taken ++ [a] ∧
      n.handled = m.handled ++ [a] ∧ m.items = a :: n.items := by
  unfold receive? at hreceive
  split at hreceive
  · cases hreceive
  next first channel hchannel =>
    cases hreceive
    exact ⟨rfl, rfl, rfl, rfl, (Channel.receive?_eq_some hchannel).1⟩

theorem drain?_eq_some (hdrain : m.drain? = some n) :
    n.offered = m.offered ∧ n.placed = m.placed ∧ n.handled = m.handled ∧
      ∃ a, m.items = a :: n.items := by
  unfold drain? at hdrain
  split at hdrain
  · cases hdrain
  next first channel hchannel =>
    cases hdrain
    exact ⟨rfl, rfl, rfl, first, (Channel.receive?_eq_some hchannel).1⟩

theorem exists_receive? (hitems : m.items ≠ []) : ∃ a n, m.receive? = some (a, n) := by
  obtain ⟨a, channel, hreceive⟩ := Channel.exists_receive? hitems
  unfold receive?
  split
  next hnone =>
    rw [hreceive] at hnone
    cases hnone
  · exact ⟨_, _, rfl⟩

theorem exists_drain? (hitems : m.items ≠ []) : ∃ n, m.drain? = some n := by
  obtain ⟨a, channel, hreceive⟩ := Channel.exists_receive? hitems
  unfold drain?
  split
  next hnone =>
    rw [hreceive] at hnone
    cases hnone
  · exact ⟨_, rfl⟩

/-- No step changes the capacity. -/
theorem send?_capacity (hsend : m.send? a = some n) : n.channel.capacity = m.channel.capacity := by
  unfold send? at hsend
  split at hsend
  · cases hsend
  next channel hchannel =>
    cases hsend
    exact (Channel.send?_eq_some hchannel).2.1

theorem receive?_capacity (hreceive : m.receive? = some (a, n)) :
    n.channel.capacity = m.channel.capacity := by
  unfold receive? at hreceive
  split at hreceive
  · cases hreceive
  next first channel hchannel =>
    cases hreceive
    exact (Channel.receive?_eq_some hchannel).2

theorem drain?_capacity (hdrain : m.drain? = some n) : n.channel.capacity = m.channel.capacity := by
  unfold drain? at hdrain
  split at hdrain
  · cases hdrain
  next first channel hchannel =>
    cases hdrain
    exact (Channel.receive?_eq_some hchannel).2

/-- A send finds no room only in a full channel. -/
theorem length_items_of_send?_eq_none (hsend : m.send? a = none) :
    m.items.length = m.channel.capacity := by
  unfold send? at hsend
  split at hsend
  next hchannel =>
    unfold Channel.send? at hchannel
    split at hchannel
    · cases hchannel
    next hfull => exact Nat.le_antisymm m.channel.bounded (Nat.le_of_not_lt hfull)
  · cases hsend

/-- Nothing waits when everything placed was taken. -/
theorem placed_eq_taken (hempty : m.items = []) : m.placed = m.taken := by
  rw [m.conserved, show m.channel.items = [] from hempty, append_nil]

/-- Everything received was handled. -/
def Undrained (m : Mailbox α) : Prop := m.handled = m.taken

theorem Undrained.send (hm : m.Undrained) (hsend : m.send? a = some n) : n.Undrained := by
  obtain ⟨-, -, htaken, hhandled, -⟩ := send?_eq_some hsend
  rw [Undrained, htaken, hhandled, hm]

theorem Undrained.receive (hm : m.Undrained) (hreceive : m.receive? = some (a, n)) :
    n.Undrained := by
  obtain ⟨-, -, htaken, hhandled, -⟩ := receive?_eq_some hreceive
  rw [Undrained, htaken, hhandled, hm]

section Keeps

variable {sort : α → Prop} [DecidablePred sort]

/-- No offered item of this sort was lost. -/
def Keeps (m : Mailbox α) (sort : α → Prop) [DecidablePred sort] : Prop :=
  m.placed.filter sort = m.offered.filter sort

theorem Keeps.send (hm : m.Keeps sort) (hsend : m.send? a = some n) : n.Keeps sort := by
  obtain ⟨hoffered, hplaced, -⟩ := send?_eq_some hsend
  rw [Keeps, hoffered, hplaced, filter_append, filter_append, hm]

theorem Keeps.lose (hm : m.Keeps sort) (ha : ¬ sort a) : (m.lose a).Keeps sort := by
  have hnone : [a].filter sort = [] := by simp [ha]
  rw [Keeps, Mailbox.lose, filter_append, hnone, append_nil]
  exact hm

theorem Keeps.receive (hm : m.Keeps sort) (hreceive : m.receive? = some (a, n)) : n.Keeps sort := by
  obtain ⟨hoffered, hplaced, -⟩ := receive?_eq_some hreceive
  rw [Keeps, hoffered, hplaced, hm]

theorem Keeps.drain (hm : m.Keeps sort) (hdrain : m.drain? = some n) : n.Keeps sort := by
  obtain ⟨hoffered, hplaced, -⟩ := drain?_eq_some hdrain
  rw [Keeps, hoffered, hplaced, hm]

end Keeps

theorem handled_sublist_offered (m : Mailbox α) : m.handled.Sublist m.offered := by
  have htaken : m.taken.Sublist m.placed := by
    rw [m.conserved]
    exact sublist_append_left _ _
  exact (m.handled_sublist.trans htaken).trans m.placed_sublist

/-- What was handled and what waits is all that was offered, for any items of a
sort that is not lost. -/
theorem Keeps.handled_append_items {sort select : α → Prop} [DecidablePred sort]
    [DecidablePred select] (hkeeps : m.Keeps sort) (hundrained : m.Undrained)
    (hselect : ∀ a, select a → sort a) :
    m.handled.filter select ++ m.items.filter select = m.offered.filter select := by
  have hsort : ∀ l : List α, (l.filter sort).filter select = l.filter select := by
    intro l
    rw [filter_filter]
    refine filter_congr fun a _ => ?_
    by_cases ha : select a
    · simp [ha, hselect a ha]
    · simp [ha]
  rw [← filter_append, hundrained, ← hsort m.offered, ← hkeeps, hsort]
  exact congrArg _ m.conserved.symm

end Mailbox

end Voce
