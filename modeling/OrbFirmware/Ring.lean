import Mathlib.Data.Nat.ModEq
import Mathlib.Logic.Function.Basic

/-! Ring buffers addressed by positions modulo their size, and what of a stream written around one is still
in it. -/
namespace OrbFirmware.Ring
variable {α : Type*} {size o p q : Nat} {ring : Nat → α} {xs as : List α}

/-- Elements stored one after the other, from position `w` on. -/
def fill (size : Nat) (ring : Nat → α) (w : Nat) : List α → Nat → α
  | [] => ring
  | a :: as => fill size (Function.update ring (w % size) a) (w+1) as

/-- Elements read from `count` successive positions. -/
def read (size : Nat) (ring : Nat → α) (r count : Nat) : List α :=
  (List.range count).map fun j => ring ((r+j) % size)

/-- Of the elements written since position `o`, the last `size` ones are in the ring. -/
def Recent (size : Nat) (ring : Nat → α) (o : Nat) (xs : List α) : Prop :=
  ∀ p < xs.length, xs.length ≤ p+size → xs[p]? = some (ring ((o+p) % size))

theorem mod_ne (hpq : p < q) (hsize : q < p+size) : p % size ≠ q % size := by
  intro h
  have hdvd : size ∣ q-p := (Nat.modEq_iff_dvd' hpq.le).mp h
  have hle := Nat.le_of_dvd (Nat.sub_pos_of_lt hpq) hdvd
  omega

/-- Distance between two positions of which only the remainders are known. -/
theorem mod_sub_mod {m : Nat} (hpq : p ≤ q) (hm : size ∣ m) (hle : size ≤ m) (hsize : 0 < size) :
    (q % size+m-p % size) % size = (q-p) % size := by
  have hp : p % size < size := Nat.mod_lt p hsize
  refine Nat.ModEq.add_right_cancel' (p % size) ?_
  calc q % size+m-p % size+p % size
      = q % size+m := by omega
    _ ≡ q+0 [MOD size] := (Nat.mod_modEq q size).add ((Nat.modEq_zero_iff_dvd).mpr hm)
    _ = q-p+p := by omega
    _ ≡ q-p+p % size [MOD size] := (Nat.ModEq.refl _).add (Nat.mod_modEq p size).symm

theorem recent_nil : Recent size ring o [] := fun p hp => absurd hp (Nat.not_lt_zero p)

theorem Recent.push (h : Recent size ring o xs) (a : α) :
    Recent size (Function.update ring ((o+xs.length) % size) a) o (xs ++ [a]) := by
  intro p hp hrecent
  rw [List.length_append, List.length_singleton] at hp hrecent
  obtain hlt | rfl := Nat.lt_succ_iff_lt_or_eq.mp hp
  · rw [List.getElem?_append_left hlt, h p hlt (by omega),
      Function.update_of_ne (mod_ne (by omega) (by omega))]
  · rw [List.getElem?_append_right (le_refl _), Nat.sub_self, Function.update_self]
    rfl

theorem Recent.fill (h : Recent size ring o xs) (as : List α) :
    Recent size (fill size ring (o+xs.length) as) o (xs ++ as) := by
  induction as generalizing ring xs with
  | nil => rwa [List.append_nil]
  | cons a as ih =>
    have hnext := ih (h.push a)
    rwa [List.append_assoc, List.length_append, ← Nat.add_assoc] at hnext

theorem read_mod (size : Nat) (ring : Nat → α) (r count : Nat) : read size ring (r % size) count = read size ring r count := by
  simp only [read, Nat.mod_add_mod]

theorem read_add (size : Nat) (ring : Nat → α) (r count count' : Nat) :
    read size ring r (count+count') = read size ring r count ++ read size ring (r+count) count' := by
  simp only [read, List.range_add, List.map_append, List.map_map, Function.comp_def, Nat.add_assoc]

/-- What does not reach the end of the ring lies in one piece. -/
theorem read_straight {r count : Nat} (h : r+count ≤ size) :
    read size ring r count = (List.range count).map fun j => ring (r+j) := by
  refine List.map_congr_left fun j hj => ?_
  have hlt := List.mem_range.mp hj
  rw [Nat.mod_eq_of_lt (by omega)]

/-- Up to the end of the ring, and on from its beginning. -/
theorem read_wrapping {r count : Nat} (hr : r < size) (hwrap : size ≤ r+count) (hcount : count ≤ size) :
    read size ring r count =
      ((List.range (size-r)).map fun j => ring (r+j)) ++ (List.range (count-(size-r))).map ring := by
  have hsplit : count = size-r+(count-(size-r)) := by omega
  have hstart : read size ring (r+(size-r)) (count-(size-r)) = read size ring 0 (count-(size-r)) := by
    rw [show r+(size-r) = 0+size from by omega, ← read_mod, Nat.add_mod_right, read_mod]
  rw [hsplit, read_add, hstart, ← hsplit, read_straight (by omega), read_straight (by omega)]
  simp only [Nat.zero_add]

theorem fill_congr (h : p % size = q % size) (ring : Nat → α) (as : List α) :
    fill size ring p as = fill size ring q as := by
  induction as generalizing ring p q with
  | nil => rfl
  | cons a as ih =>
    rw [fill, fill, h]
    exact ih (Nat.ModEq.add_right 1 h) _

/-- What lies in the last `size` elements is read off the ring. -/
theorem Recent.read (h : Recent size ring o xs) {count : Nat} (hlen : p+count ≤ xs.length)
    (hrecent : xs.length ≤ p+size) : read size ring (o+p) count = (xs.drop p).take count := by
  refine List.ext_getElem? fun j => ?_
  simp only [Ring.read, List.getElem?_map, List.getElem?_take, List.getElem?_drop]
  by_cases hj : j < count
  · rw [List.getElem?_range hj, if_pos hj, h (p+j) (by omega) (by omega), ← Nat.add_assoc]
    rfl
  · rw [List.getElem?_eq_none (by simpa using hj), if_neg hj]
    rfl

end OrbFirmware.Ring
