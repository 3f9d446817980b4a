import Parcel.Proofs.Sound

/-!
Buffers that no call but one for the capacity can tell apart: the same amounts and matching ownerships.
The states that the operations leave are alike again if the states before were. Twins have the same
capacity as well. What the operations do to both kinds of pairs is said once, of `Steady` relations.
-/
namespace Parcel.Buffer

variable {b c d : Buffer}

/-- Alike in all but capacity, the cells that nothing belongs to, and the names of the others. -/
structure Alike (b c : Buffer) : Prop where
  left : b.Sound
  right : c.Sound
  rules : b.rules = c.rules
  position : b.position = c.position
  size : b.size = c.size
  justExtended : b.justExtended = c.justExtended
  owner : b.owner.Matches c.owner

theorem Sound.alike (h : b.Sound) : b.Alike b := ⟨h, h, rfl, rfl, rfl, rfl, .refl _⟩

theorem Alike.symm (h : b.Alike c) : c.Alike b :=
  ⟨h.right, h.left, h.rules.symm, h.position.symm, h.size.symm, h.justExtended.symm, h.owner.symm⟩

theorem Alike.trans (h : b.Alike c) (h' : c.Alike d) : b.Alike d :=
  ⟨h.left, h'.right, h.rules.trans h'.rules, h.position.trans h'.position, h.size.trans h'.size,
    h.justExtended.trans h'.justExtended, h.owner.trans h'.owner⟩

theorem alike_empty (rules : Rules) : (empty rules).Alike (empty rules) := (sound_empty rules).alike

theorem Alike.seek (h : b.Alike c) (hp : p ≤ b.size) :
    Alike { b with position := p, justExtended := false }
      { c with position := p, justExtended := false } :=
  ⟨h.left.seek hp, h.right.seek (h.size ▸ hp), h.rules, rfl, h.size, rfl, h.owner⟩

theorem Alike.read_to (h : b.Alike c) (hlt : b.position < b.size) (hp : p ≤ b.size) :
    Alike { b with position := p } { c with position := p } :=
  ⟨h.left.read_to hlt hp, h.right.read_to (h.size ▸ h.position ▸ hlt) (h.size ▸ hp), h.rules, rfl,
    h.size, h.justExtended, h.owner⟩

theorem Alike.extended (h : b.Alike c) (hn : n ≤ b.rules.maxCapacity.toNat) :
    (b.extended n).Alike (c.extended n) := by
  refine ⟨h.left.extended' hn, h.right.extended' (h.rules ▸ hn), h.rules, h.position, h.size,
    h.justExtended, ?_⟩
  rw [owner_extended, owner_extended]
  exact h.owner

theorem Alike.resized (h : b.Alike c) (hn : n ≤ b.rules.maxCapacity.toNat) :
    (b.resized n).Alike (c.resized n) := by
  refine ⟨h.left.resized hn, h.right.resized (h.rules ▸ hn), h.rules, ?_, rfl, rfl, ?_⟩
  · change min b.position n = min c.position n
    rw [h.position]
  · rw [h.left.owner_resized, h.right.owner_resized]
    exact h.owner.patched _ Owners.matches_nobody (Owners.apart_nobody _) (Owners.apart_nobody _)

theorem Alike.written (h : b.Alike c) (hc : cell.Padded)
    (hn : b.position + cell.size.toNat ≤ b.rules.maxCapacity.toNat) :
    (b.written cell).Alike (c.written cell) := by
  have hn' : c.position + cell.size.toNat ≤ c.rules.maxCapacity.toNat := h.position ▸ h.rules ▸ hn
  refine ⟨h.left.written hc hn, h.right.written hc hn', h.rules, ?_, ?_, ?_, ?_⟩
  · change b.position + _ = c.position + _
    rw [h.position]
  · change max b.size (b.position + _) = max c.size (c.position + _)
    rw [h.size, h.position]
  · change (b.justExtended || decide (b.size < b.position + _)) =
      (c.justExtended || decide (c.size < c.position + _))
    rw [h.justExtended, h.size, h.position]
  · rw [h.left.owner_written hn, h.right.owner_written hn', h.position]
    exact h.owner.patched _ (Owners.matches_everywhere _ _ _)
      (Owners.apart_everywhere h.left.fresh _) (Owners.apart_everywhere h.right.fresh _)

theorem matches_renamed_behind (s : Segment) (m n : Nat) :
    Owners.Matches (fun i => s.owner.renamed (m + ·) i) (fun i => s.owner.renamed (n + ·) i) :=
  (Owners.matches_renamed (fun _ _ => Nat.add_left_cancel) s.owner).symm.trans
    (Owners.matches_renamed (fun _ _ => Nat.add_left_cancel) s.owner)

theorem Alike.pasted (h : b.Alike c) {s : Segment} (hs : s.Sound)
    (hn : b.size + s.length ≤ b.rules.maxCapacity.toNat) : (b.pasted s).Alike (c.pasted s) := by
  have hn' : c.size + s.length ≤ c.rules.maxCapacity.toNat := h.size ▸ h.rules ▸ hn
  refine ⟨h.left.pasted hs hn, h.right.pasted hs hn', h.rules, ?_, ?_, rfl, ?_⟩
  · change min b.position (b.size + _) + _ = min c.position (c.size + _) + _
    rw [h.position, h.size]
  · change b.size + _ = c.size + _
    rw [h.size]
  · rw [h.left.owner_pasted, h.right.owner_pasted, h.size]
    have hcopy := (matches_renamed_behind s b.arena.size c.arena.size).comp (· - c.size)
    exact h.owner.patched _ hcopy (h.size ▸ h.left.apart_renamed s) (h.right.apart_renamed s)

/-- Alike, and with as much storage. -/
structure Twin (b c : Buffer) : Prop where
  alike : b.Alike c
  capacity : b.capacity = c.capacity

theorem Sound.twin (h : b.Sound) : b.Twin b := ⟨h.alike, rfl⟩

theorem Twin.symm (h : b.Twin c) : c.Twin b := ⟨h.alike.symm, h.capacity.symm⟩

theorem Twin.trans (h : b.Twin c) (h' : c.Twin d) : b.Twin d :=
  ⟨h.alike.trans h'.alike, h.capacity.trans h'.capacity⟩

/-- A relation between alike buffers that outlasts whatever the operations do to both of them, and that
does not see how the cells are numbered. -/
structure Steady (R : Buffer → Buffer → Prop) : Prop where
  alike : ∀ {b c}, R b c → b.Alike c
  renumbered : ∀ {b c b' c'}, R b c → b.Twin b' → c.Twin c' → R b' c'
  empty : ∀ rules, R (Buffer.empty rules) (Buffer.empty rules)
  seek : ∀ {b c p}, R b c → p ≤ b.size →
    R { b with position := p, justExtended := false } { c with position := p, justExtended := false }
  read_to : ∀ {b c p}, R b c → b.position < b.size → p ≤ b.size →
    R { b with position := p } { c with position := p }
  extended : ∀ {b c n}, R b c → n ≤ b.rules.maxCapacity.toNat → R (b.extended n) (c.extended n)
  resized : ∀ {b c n}, R b c → n ≤ b.rules.maxCapacity.toNat → R (b.resized n) (c.resized n)
  written : ∀ {b c cell}, R b c → cell.Padded →
    b.position + cell.size.toNat ≤ b.rules.maxCapacity.toNat → R (b.written cell) (c.written cell)
  pasted : ∀ {b c s}, R b c → s.Sound → b.size + s.length ≤ b.rules.maxCapacity.toNat →
    R (b.pasted s) (c.pasted s)

theorem steady_alike : Steady Alike where
  alike h := h
  renumbered h hb hc := hb.alike.symm.trans (h.trans hc.alike)
  empty := alike_empty
  seek := Alike.seek
  read_to := Alike.read_to
  extended := Alike.extended
  resized := Alike.resized
  written := Alike.written
  pasted h := h.pasted

theorem steady_twin : Steady Twin where
  alike := Twin.alike
  renumbered h hb hc := hb.symm.trans (h.trans hc)
  empty rules := (sound_empty rules).twin
  seek h hp := ⟨h.alike.seek hp, h.capacity⟩
  read_to h hlt hp := ⟨h.alike.read_to hlt hp, h.capacity⟩
  extended h hn := ⟨h.alike.extended hn, by rw [capacity_extended, capacity_extended, h.capacity]⟩
  resized h hn := ⟨h.alike.resized hn, by rw [capacity_resized, capacity_resized, h.capacity]⟩
  written h hc hn := by
    refine ⟨h.alike.written hc hn, ?_⟩
    rw [capacity_written, capacity_written, room, room, h.capacity, h.alike.position, h.alike.rules]
  pasted h hs hn := by
    refine ⟨h.alike.pasted hs hn, ?_⟩
    rw [capacity_pasted, capacity_pasted, h.capacity, h.alike.size]

end Parcel.Buffer
