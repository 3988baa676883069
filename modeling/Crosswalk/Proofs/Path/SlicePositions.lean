import Crosswalk.Proofs.Path.SliceWords

/-!
# Positions of a slice

Which elements a slice reads, said without its window: those at the positions of the array that are
not before the start of the slice, and, if it has a size, not behind so many positions from there.
They come in the order of the array, or backward if the size is negative.

* `Covers`: the positions that a slice addresses.
* `covers_iff`: they are those of the window.
* `read_covered`: a read gives the elements at these positions, each one once and in order, and is
  computed in machine words.
-/

namespace Crosswalk

open Value

namespace Slice

variable {s : Slice} {n p : Nat}

/-- Whether a slice addresses a position in an array of a length: it is not before the start, and,
with a size, fewer than so many positions behind it. -/
def Covers (s : Slice) (n p : Nat) : Prop :=
  s.origin n ≤ p ∧ ∀ k, s.size = some k → (p : Int) < s.origin n + k.natAbs

/-- The positions of an array that a slice addresses are those in its window. -/
theorem covers_iff (hp : p < n) :
    s.Covers n p ↔ (s.window n).first ≤ p ∧ p < (s.window n).first + s.reach n := by
  rw [Covers, reach, first_eq]
  cases hs : s.size with
  | none =>
    rw [count_of_open hs, first_eq]
    simp only [reduceCtorEq, false_implies, implies_true, and_true]
    omega
  | some k =>
    simp only [window, hs, Option.some.injEq, forall_eq']
    omega

/-- The positions in the window, in the direction of the slice. -/
def positions (s : Slice) (n : Nat) : List Nat :=
  let forward := List.range' (s.window n).first (s.reach n)
  if s.isBackward then forward.reverse else forward

theorem mem_positions : p ∈ s.positions n ↔ p < n ∧ s.Covers n p := by
  have hmem : p ∈ s.positions n ↔ (s.window n).first ≤ p ∧ p < (s.window n).first + s.reach n := by
    unfold positions
    split <;> simp [List.mem_range'_1]
  constructor
  · intro h
    obtain ⟨hfirst, hlast⟩ := hmem.mp h
    have hp : p < n := by
      rw [reach] at hlast
      omega
    exact ⟨hp, (covers_iff hp).mpr ⟨hfirst, hlast⟩⟩
  · rintro ⟨hp, hcovers⟩
    exact hmem.mpr ((covers_iff hp).mp hcovers)

theorem pairwise_positions (s : Slice) (n : Nat) :
    (s.positions n).Pairwise fun p q => if s.isBackward then q < p else p < q := by
  unfold positions
  cases s.isBackward with
  | true => simpa [List.pairwise_reverse] using List.pairwise_lt_range'
  | false => simpa using List.pairwise_lt_range'

/-- The elements in the window stand at its positions. -/
theorem map_inside (s : Slice) (xs : List Value) :
    (s.inside xs).map some
      = (List.range' (s.window xs.length).first (s.reach xs.length)).map (xs[·]?) := by
  refine List.ext_getElem? fun i => ?_
  rw [List.getElem?_map, List.getElem?_map, getElem?_inside]
  by_cases hi : i < s.reach xs.length
  · have hin : i < (s.window xs.length).count ∧ (s.window xs.length).first + i < xs.length := by
      rw [reach] at hi
      omega
    rw [if_pos hin.1, List.getElem?_range' hi, Nat.one_mul, Option.map_some,
      List.getElem?_eq_getElem hin.2, Option.map_some]
  · have hout : (if i < (s.window xs.length).count then xs[(s.window xs.length).first + i]?
        else none) = none := by
      rw [reach] at hi
      split
      · exact List.getElem?_eq_none (by omega)
      · rfl
    rw [hout, List.getElem?_eq_none (by simpa using hi)]
    rfl

theorem map_read (s : Slice) (v : Value) :
    (s.read v).map some = (s.positions v.items.length).map (v.items[·]?) := by
  rw [read_eq, orient, positions]
  split
  · rw [List.map_reverse, List.map_reverse, map_inside]
  · exact map_inside s v.items

/-- A read gives the elements at the positions that the slice addresses, each one once, in the order
of the array or backward. No step of it leaves the machine words or cuts beyond the array. -/
theorem read_covered (s : Slice) (v : Value) :
    (∃ ps : List Nat, (∀ p, p ∈ ps ↔ p < v.items.length ∧ s.Covers v.items.length p) ∧
      ps.Pairwise (fun p q => if s.isBackward then q < p else p < q) ∧
      (s.read v).map some = ps.map (v.items[·]?)) ∧
    (s.InWords → v.items.length ≤ maxWord → s.readInWords v = some (s.read v)) :=
  ⟨⟨s.positions v.items.length, fun _ => mem_positions, pairwise_positions s _, map_read s v⟩,
    readInWords_eq⟩

/-- The last two elements, backward, with the least size of a word. -/
def lastTwo : Slice := ⟨-2, some (-9223372036854775808)⟩

theorem read_covered_lastTwo :
    lastTwo.InWords ∧ (array [int 1, int 2, int 3]).items.length ≤ maxWord ∧
      lastTwo.readInWords (array [int 1, int 2, int 3]) = some [int 3, int 2] := by
  have hwords : lastTwo.InWords := inWords_mk (by decide) (by decide)
  have hlen : (array [int 1, int 2, int 3]).items.length ≤ maxWord := by decide
  exact ⟨hwords, hlen, (read_covered lastTwo (array [int 1, int 2, int 3])).2 hwords hlen⟩

end Slice

end Crosswalk
