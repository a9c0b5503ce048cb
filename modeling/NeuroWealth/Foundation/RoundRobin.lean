import Mathlib

/-!
# Round robin

Slots in a circle, of which some are free. A search goes round once from the cursor and takes the
first free slot; the cursor moves behind it. A slot that stays free comes closer with every search
that takes another one.
-/

namespace RoundRobin

variable {free : ℕ → Bool} {n cursor attempt k i : ℕ}

/-- The slot some places after the cursor. -/
def slot (n cursor attempt : ℕ) : ℕ := (cursor + attempt) % n

/-- The slots in the order of the search. -/
def slots (n cursor : ℕ) : List ℕ := (List.range n).map (slot n cursor)

/-- The first free slot from the cursor on. -/
def pick (free : ℕ → Bool) (n cursor : ℕ) : Option ℕ := (slots n cursor).find? free

/-- How many places after the cursor a slot is. -/
def distance (n cursor k : ℕ) : ℕ := if cursor ≤ k then k - cursor else k + n - cursor

theorem slot_eq (hc : cursor < n) (ha : attempt < n) :
    slot n cursor attempt =
      if cursor + attempt < n then cursor + attempt else cursor + attempt - n := by
  unfold slot
  split_ifs with hlt
  · exact Nat.mod_eq_of_lt hlt
  · rw [Nat.mod_eq_sub_mod (not_lt.mp hlt)]
    exact Nat.mod_eq_of_lt (by omega)

theorem distance_lt (hc : cursor < n) (hk : k < n) : distance n cursor k < n := by
  unfold distance
  split_ifs <;> omega

/-- A slot is met after its distance. -/
theorem slot_eq_iff (hc : cursor < n) (hk : k < n) (ha : attempt < n) :
    slot n cursor attempt = k ↔ attempt = distance n cursor k := by
  rw [slot_eq hc ha]
  unfold distance
  split_ifs <;> omega

theorem slot_distance (hc : cursor < n) (hk : k < n) : slot n cursor (distance n cursor k) = k :=
  (slot_eq_iff hc hk (distance_lt hc hk)).mpr rfl

theorem pick_some (h : pick free n cursor = some i) : i < n ∧ free i = true := by
  have hmem := List.mem_of_find?_eq_some h
  obtain ⟨attempt, ha, rfl⟩ := List.mem_map.mp hmem
  have hn : 0 < n := by
    have hlt := List.mem_range.mp ha
    omega
  exact ⟨Nat.mod_lt _ hn, List.find?_some h⟩

/-- The search meets every free slot. -/
theorem pick_ne_none (hc : cursor < n) (hk : k < n) (hfree : free k = true) :
    pick free n cursor ≠ none := by
  intro h
  have hmem : k ∈ slots n cursor := List.mem_map.mpr
    ⟨distance n cursor k, List.mem_range.mpr (distance_lt hc hk), slot_distance hc hk⟩
  exact List.find?_eq_none.mp h k hmem hfree

/-- What is taken comes no later than any free slot. -/
theorem distance_pick_le (hc : cursor < n) (hk : k < n) (hfree : free k = true)
    (h : pick free n cursor = some i) : distance n cursor i ≤ distance n cursor k := by
  by_contra hlater
  obtain ⟨-, before, after, hsplit, hbusy⟩ := List.find?_eq_some_iff_append.mp h
  obtain ⟨hi, -⟩ := pick_some h
  have hdi := distance_lt hc hi
  have hdk : distance n cursor k < distance n cursor i := not_le.mp hlater
  have hlen : before.length = distance n cursor i := by
    have hlt : before.length < (slots n cursor).length := by
      rw [hsplit, List.length_append, List.length_cons]
      omega
    have hn : before.length < n := by simpa [slots] using hlt
    have hget : (slots n cursor)[before.length]? = some i := by simp [hsplit]
    have hslot : slot n cursor before.length = i := by simpa [slots, hn] using hget
    exact (slot_eq_iff hc hi hn).mp hslot
  have hmem : k ∈ before := by
    have hget : (slots n cursor)[distance n cursor k]? = some k := by
      simp [slots, distance_lt hc hk, slot_distance hc hk]
    rw [hsplit, List.getElem?_append_left (hlen ▸ hdk)] at hget
    exact List.mem_of_getElem? hget
  have hno := hbusy k hmem
  rw [hfree] at hno
  exact absurd hno (by decide)

/-- A free slot that is not taken comes closer. -/
theorem distance_succ_lt (hc : cursor < n) (hk : k < n) (hfree : free k = true)
    (h : pick free n cursor = some i) (hne : i ≠ k) :
    distance n (slot n i 1) k < distance n cursor k := by
  have hi := (pick_some h).1
  have hle := distance_pick_le hc hk hfree h
  have hn : 1 < n := by omega
  rw [slot_eq hi hn]
  unfold distance at hle ⊢
  split_ifs at hle ⊢ <;> omega

end RoundRobin
